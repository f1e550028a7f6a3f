import BackendKit.Pep.Modes
import Mathlib.Data.List.Induction

/-!
# Reporting the floor to the decision point

An enforcer with a floor sends it along as `pep_mode`, once the decision point has said that it
accepts the field, and asks again without it when the request is rejected (`Enforcer.decide`).
Here that is compared with an enforcer that never sends anything (`Enforcer.callSilent`).

* `Enforcer.heard`: the answers of a whole run, in order, with the ones a check asked over;
* `Indifferent`: a decision point that `pep_mode` makes no difference to, except that it may
  reject a request that carries it;
* `Enforcer.callSilent_simulates`: against such a decision point the two enforcers remember the
  same mode and give the same results;
* `Enforcer.pepModeAccepted_after`: the flag is what the answers of the run say it is.
-/

namespace Pep

variable {ρ χ : Type}

/-! ### What a run asks and hears -/

/-- The question a call puts to the decision point; `none` if it is refused without asking. -/
def Call.request [Inhabited χ] : Call ρ χ → Option (DecideRequest ρ χ)
  | .check ctx action resource pctx =>
    if ctx.rawJWT = "" then none
    else some { subject := some { token := ctx.rawJWT }, action, resource, context := pctx }
  | .checkAsApp _ action resource => some { action, resource, context := default }

/-- An answer of the decision point. -/
structure Heard where
  answer : Answer
  /-- The check acted on the answer, and did not ask over it. -/
  final : Bool

/-- The answers to the asks of one call. -/
def Env.heard (env : Env ρ χ) : List (DecideRequest ρ χ) → List Heard
  | [] => []
  | [req] => [⟨env.first req, true⟩]
  | req₁ :: req₂ :: _ => [⟨env.first req₁, false⟩, ⟨env.second req₂, true⟩]

/-- The answers of a sequence of calls, from the first. -/
def Enforcer.heard [Inhabited χ] (e : Enforcer) (s : State) : List (Call ρ χ × Env ρ χ) → List Heard
  | [] => []
  | c :: cs => c.2.heard (e.call s c.2 c.1).asks ++ e.heard (e.call s c.2 c.1).state cs

/-- The most recent answer without an error advertised `pep_mode`, and no rejection followed
it. -/
def Advertised (answers : List Answer) : Prop :=
  ∃ pre d post, answers = pre ++ .ok d :: post ∧ d.pepModeAccepted = true ∧
    ∀ a ∈ post, (∀ d', a ≠ .ok d') ∧ a.isRejected = false

/-! ### The enforcer that never sends `pep_mode` -/

namespace Enforcer

variable [Inhabited χ]

/-- A call of an enforcer that asks once and sends no `pep_mode`. -/
def callSilent (e : Enforcer) (s : State) (env : Env ρ χ) (call : Call ρ χ) :
    State × Option Denial :=
  match call.request with
  | none => (s, some { code := .unauthenticated, status := 401, decision := none })
  | some req => e.judge s env.clock call.ctx (env.first req)

/-- The state after a sequence of such calls. -/
def afterSilent (e : Enforcer) (s : State) (history : List (Call ρ χ × Env ρ χ)) : State :=
  history.foldl (fun s c => (e.callSilent s c.2 c.1).1) s

end Enforcer

/-! ### Decision points that do not care -/

/-- What an answer says, apart from advertising `pep_mode`. -/
def Answer.plain : Answer → Answer
  | .ok d => .ok { d with pepModeAccepted := false }
  | .error d err => .error (d.map fun d => { d with pepModeAccepted := false }) err

/-- The answer to a question does not depend on `pep_mode`, neither for the first ask nor for
the second, except that a request that carries it may be rejected. What the answers say about
accepting `pep_mode` is arbitrary. -/
def Indifferent (env : Env ρ χ) : Prop :=
  ∀ (req : DecideRequest ρ χ) (mode : String), req.pepMode = "" →
    ((env.first { req with pepMode := mode }).plain = (env.first req).plain ∨
        mode ≠ "" ∧ (env.first { req with pepMode := mode }).isRejected = true) ∧
      ((env.second { req with pepMode := mode }).plain = (env.first req).plain ∨
        mode ≠ "" ∧ (env.second { req with pepMode := mode }).isRejected = true)

section Indifferent

variable {env : Env ρ χ} (h : Indifferent env) {req : DecideRequest ρ χ} (hreq : req.pepMode = "")
include h hreq

/-- An answer to the first ask that is no rejection is the one to the plain question. -/
theorem Indifferent.plain_first {mode : String}
    (hrej : (env.first { req with pepMode := mode }).isRejected = false) :
    (env.first { req with pepMode := mode }).plain = (env.first req).plain := by
  rcases (h req mode hreq).1 with heq | ⟨-, hrejected⟩
  · exact heq
  · exact absurd hrejected (by simp [hrej])

/-- Asked again without `pep_mode`, the decision point answers the plain question. -/
theorem Indifferent.plain_second : (env.second req).plain = (env.first req).plain := by
  have hself : { req with pepMode := "" } = req := by rw [← hreq]
  rcases (h req "" hreq).2 with heq | ⟨hne, -⟩
  · rw [← heq, hself]
  · exact absurd rfl hne

end Indifferent

/-! ### The two enforcers side by side -/

namespace Enforcer

/-- The question with the floor sent along. -/
def reporting (e : Enforcer) (req : DecideRequest ρ χ) : DecideRequest ρ χ :=
  { req with pepMode := e.minimumMode.text }

variable {req : DecideRequest ρ χ}

variable (e : Enforcer) (s : State)

/-- The three ways of asking: without the floor, with it, and again after a rejection. -/
theorem decide_cases (env : Env ρ χ) (hreq : req.pepMode = "") :
    ((e.minimumMode = .off ∨ s.pepModeAccepted = false) ∧
        e.decide s env req = (s.heard (env.first req), [req], env.first req)) ∨
      (e.minimumMode ≠ .off ∧ s.pepModeAccepted = true ∧
        (env.first (e.reporting req)).isRejected = false ∧
        e.decide s env req = (s.heard (env.first (e.reporting req)), [e.reporting req],
          env.first (e.reporting req))) ∨
      (e.minimumMode ≠ .off ∧ s.pepModeAccepted = true ∧
        (env.first (e.reporting req)).isRejected = true ∧
        e.decide s env req = (State.heard { s with pepModeAccepted := false } (env.second req),
          [e.reporting req, req], env.second req)) := by
  -- Dropping the floor from the question gives the question back.
  have hself : { e.reporting req with pepMode := "" } = req := by
    show { req with pepMode := "" } = req
    rw [← hreq]
  by_cases hsent : e.minimumMode ≠ .off ∧ s.pepModeAccepted = true
  · refine .inr ?_
    unfold reporting at hself ⊢
    cases hrej : (env.first { req with pepMode := e.minimumMode.text }).isRejected with
    | false => exact .inl ⟨hsent.1, hsent.2, rfl, by simp [decide, hsent, hrej]⟩
    | true => exact .inr ⟨hsent.1, hsent.2, rfl, by simp [decide, hsent, hrej, hself]⟩
  · refine .inl ⟨?_, by simp [decide, hsent]⟩
    rcases not_and_or.mp hsent with hoff | hflag
    · exact .inl (not_not.mp hoff)
    · exact .inr (by simpa using hflag)

/-- A denial's code follows from the mode and from what was allowed. -/
theorem code_verdict {d d' : Decision} (unmet : String) (hallow : d.allow = d'.allow)
    (hmode : d.mode = d'.mode) :
    (e.verdict d unmet).map Denial.code = (e.verdict d' unmet).map Denial.code := by
  simp only [verdict, hallow, hmode]
  split_ifs <;> rfl

/-- An outage is judged by the modes alone. -/
theorem code_unavailable {s s' : State} {d d' : Option Decision} (hlast : s.lastMode = s'.lastMode)
    (hmode : d.map Decision.mode = d'.map Decision.mode) :
    (e.unavailable s d).1.lastMode = (e.unavailable s' d').1.lastMode ∧
      (e.unavailable s d).2.map Denial.code = (e.unavailable s' d').2.map Denial.code := by
  have hreported : reportedMode d = reportedMode d' := by rw [reportedMode, hmode, reportedMode]
  have hjudged : outageMode s d = outageMode s' d' := by
    rw [outageMode, hreported, hlast, outageMode]
  simp only [unavailable_eq, hjudged, hreported, hlast, true_and]
  split_ifs <;> rfl

/-- The judgement uses of the state only the last mode, and of the answer nothing that
advertises `pep_mode`. -/
theorem judge_congr {s s' : State} (clock : ℕ → ℤ) (ctx : Ctx) {a a' : Answer}
    (hlast : s.lastMode = s'.lastMode) (ha : a.plain = a'.plain) :
    (e.judge s clock ctx a).1.lastMode = (e.judge s' clock ctx a').1.lastMode ∧
      (e.judge s clock ctx a).2.map Denial.code = (e.judge s' clock ctx a').2.map Denial.code := by
  match a, a', ha with
  | .ok d, .ok d', ha =>
    simp only [Answer.plain, Answer.ok.injEq, Decision.mk.injEq] at ha
    obtain ⟨hallow, -, -, hobligations, -, hmode, -⟩ := ha
    refine ⟨congrArg some hmode, ?_⟩
    simp only [judge, hallow, hobligations]
    exact e.code_verdict _ hallow hmode
  | .error d err, .error d' err', ha =>
    simp only [Answer.plain, Answer.error.injEq] at ha
    apply e.code_unavailable hlast
    simpa [Function.comp_def] using congrArg (Option.map Decision.mode) ha.1

/-- An answer decides nothing about the last mode before it is judged. -/
@[simp]
theorem lastMode_heard (a : Answer) : (s.heard a).lastMode = s.lastMode := by
  cases a <;> rfl

/-- Asking stores no mode. -/
theorem lastMode_decide (env : Env ρ χ) (hreq : req.pepMode = "") :
    (e.decide s env req).1.lastMode = s.lastMode := by
  rcases e.decide_cases s env hreq with ⟨-, h⟩ | ⟨-, -, -, h⟩ | ⟨-, -, -, h⟩ <;>
    simp only [h, lastMode_heard]

/-- Against an indifferent decision point, the answer a check acts on is the one to the plain
question. -/
theorem plain_decide {env : Env ρ χ} (henv : Indifferent env) (hreq : req.pepMode = "") :
    (e.decide s env req).2.2.plain = (env.first req).plain := by
  rcases e.decide_cases s env hreq with ⟨-, h⟩ | ⟨-, -, hrej, h⟩ | ⟨-, -, -, h⟩ <;> simp only [h]
  · exact henv.plain_first hreq hrej
  · exact henv.plain_second hreq

section Calls

variable [Inhabited χ]

theorem pepMode_of_request {call : Call ρ χ} {req : DecideRequest ρ χ}
    (h : call.request = some req) : req.pepMode = "" := by
  unfold Call.request at h
  split at h
  · split at h
    · cases h
    · cases h
      rfl
  · cases h
    rfl

variable (e : Enforcer) (s : State) (env : Env ρ χ)

/-- A call that is refused without asking changes nothing. -/
theorem call_of_no_request {call : Call ρ χ} (h : call.request = none) :
    e.call s env call =
      { state := s, asks := [], answer := none, report := none,
        denial := some { code := .unauthenticated, status := 401, decision := none } } := by
  cases call with
  | checkAsApp ctx action resource => cases h
  | check ctx action resource pctx =>
    have htoken : ctx.rawJWT = "" := by
      by_contra hne
      simp [Call.request, hne] at h
    simp [Enforcer.call, htoken]

/-- Every other call is a check of its question. -/
theorem call_of_request {call : Call ρ χ} {req : DecideRequest ρ χ} (h : call.request = some req) :
    e.call s env call = e.check s env call.ctx req := by
  cases call with
  | checkAsApp ctx action resource =>
    cases h
    rfl
  | check ctx action resource pctx =>
    by_cases htoken : ctx.rawJWT = ""
    · simp [Call.request, htoken] at h
    · simp only [Call.request, if_neg htoken, Option.some.injEq] at h
      subst h
      simp [Enforcer.call, htoken, Call.ctx]

/-- One call of the two enforcers, from states with the same last mode. -/
theorem callSilent_simulates {s s' : State} {env : Env ρ χ} (henv : Indifferent env)
    (call : Call ρ χ) (hlast : s.lastMode = s'.lastMode) :
    (e.call s env call).state.lastMode = (e.callSilent s' env call).1.lastMode ∧
      (e.call s env call).denial.map Denial.code =
        (e.callSilent s' env call).2.map Denial.code := by
  unfold callSilent
  cases hrequest : call.request with
  | none =>
    rw [call_of_no_request e s env hrequest]
    exact ⟨hlast, rfl⟩
  | some req =>
    rw [call_of_request e s env hrequest]
    obtain ⟨hstate, hdenial⟩ := e.check_eq_judge s env call.ctx req
    have hreq := pepMode_of_request hrequest
    rw [hstate, hdenial]
    exact e.judge_congr env.clock call.ctx ((e.lastMode_decide s env hreq).trans hlast)
      (e.plain_decide s henv hreq)

/-- The same for a sequence of calls. -/
theorem afterSilent_simulates (history : List (Call ρ χ × Env ρ χ))
    (henv : ∀ c ∈ history, Indifferent c.2) {s s' : State} (hlast : s.lastMode = s'.lastMode) :
    (e.after s history).lastMode = (e.afterSilent s' history).lastMode := by
  induction history generalizing s s' with
  | nil => exact hlast
  | cons c cs ih =>
    apply ih (fun c' hc' => henv c' (List.mem_cons_of_mem c hc'))
    exact (e.callSilent_simulates (henv c List.mem_cons_self) c.1 hlast).1

/-! ### The flag -/

/-- What an answer makes of the flag, for an enforcer that has a floor to report. -/
def hears (flag : Bool) : Answer → Bool
  | .ok d => d.pepModeAccepted
  | .error _ err => flag && !err.isRejected

/-- A flag that is set in the end goes back to the most recent decision. -/
theorem advertised_of_hears {answers : List Answer} (h : answers.foldl hears false = true) :
    Advertised answers := by
  induction answers using List.reverseRecOn with
  | nil => cases h
  | append_singleton answers a ih =>
    rw [List.foldl_append] at h
    match a, h with
    | .ok d, h => exact ⟨answers, d, [], rfl, h, by simp⟩
    | .error d err, h =>
      -- The error was no rejection, and the flag was set before it.
      simp only [List.foldl_cons, List.foldl_nil, hears, Bool.and_eq_true, Bool.not_eq_true'] at h
      obtain ⟨pre, d', post, rfl, hflag, hpost⟩ := ih h.1
      refine ⟨pre, d', post ++ [.error d err], by simp, hflag, ?_⟩
      intro a ha
      rcases List.mem_append.mp ha with ha | ha
      · exact hpost a ha
      · obtain rfl := List.mem_singleton.mp ha
        exact ⟨fun d' => by simp, h.2⟩

/-- The answers of one call, and what they make of the flag. -/
theorem pepModeAccepted_call {e : Enforcer} (hfloor : e.minimumMode ≠ .off) (s : State)
    (env : Env ρ χ) (call : Call ρ χ) :
    (e.call s env call).state.pepModeAccepted =
      ((env.heard (e.call s env call).asks).map Heard.answer).foldl hears s.pepModeAccepted := by
  cases hrequest : call.request with
  | none =>
    rw [call_of_no_request e s env hrequest]
    rfl
  | some req =>
    rw [call_of_request e s env hrequest, asks_check, (e.check_eq_judge s env call.ctx req).1]
    have hflag : ∀ s a, (e.judge s env.clock call.ctx a).1.pepModeAccepted = s.pepModeAccepted := by
      intro s a
      rw [state_judge]
      cases a <;> rfl
    rw [hflag]
    rcases e.decide_cases s env (pepMode_of_request hrequest) with
      ⟨hquiet, h⟩ | ⟨-, hsent, hrej, h⟩ | ⟨-, hsent, hrej, h⟩
    · have hunset : s.pepModeAccepted = false := hquiet.resolve_left hfloor
      simp only [h, Env.heard]
      cases env.first req <;> simp [State.heard, hears, hunset]
    · simp only [h, Env.heard]
      cases hanswer : env.first (e.reporting req) with
      | ok d => rfl
      | error d err =>
        rw [hanswer] at hrej
        simp [State.heard, hears, hsent, show err.isRejected = false from hrej]
    · simp only [h, Env.heard]
      cases hanswer : env.first (e.reporting req) with
      | ok d => simp [hanswer, Answer.isRejected] at hrej
      | error d err =>
        rw [hanswer] at hrej
        cases env.second req <;>
          simp [State.heard, hears, hsent, show err.isRejected = true from hrej]

/-- What each call makes of a part of the state from the answers it hears, the run makes of it from
all of them. -/
theorem foldl_heard {β : Type*} {e : Enforcer} (part : State → β) (f : β → Heard → β)
    (hcall : ∀ s (env : Env ρ χ) call, part (e.call s env call).state =
      (env.heard (e.call s env call).asks).foldl f (part s))
    (history : List (Call ρ χ × Env ρ χ)) (s : State) :
    part (e.after s history) = (e.heard s history).foldl f (part s) := by
  induction history generalizing s with
  | nil => rfl
  | cons c cs ih =>
    show part (e.after (e.call s c.2 c.1).state cs) = _
    rw [ih, hcall, Enforcer.heard, List.foldl_append]

/-- With a floor to report, the flag is what the answers of the run make of it. -/
theorem pepModeAccepted_after {e : Enforcer} (hfloor : e.minimumMode ≠ .off)
    (history : List (Call ρ χ × Env ρ χ)) (s : State) :
    (e.after s history).pepModeAccepted =
      ((e.heard s history).map Heard.answer).foldl hears s.pepModeAccepted := by
  rw [List.foldl_map]
  apply foldl_heard
  intro s env call
  rw [pepModeAccepted_call hfloor, List.foldl_map]

/-! ### Reporting the floor is free -/

/-- What a call asks, and when it sends its floor along. -/
theorem asks_call_cases (call : Call ρ χ) :
    ((e.call s env call).asks.length ≤ 1 ∧ ∀ req ∈ (e.call s env call).asks, req.pepMode = "") ∨
      e.minimumMode ≠ .off ∧ s.pepModeAccepted = true ∧
        ∃ req, req.pepMode = "" ∧ ((e.call s env call).asks = [e.reporting req] ∨
          (e.call s env call).asks = [e.reporting req, req]) := by
  cases hrequest : call.request with
  | none =>
    rw [call_of_no_request e s env hrequest]
    exact .inl (by simp)
  | some req =>
    have hreq := pepMode_of_request hrequest
    rw [call_of_request e s env hrequest, asks_check]
    rcases e.decide_cases s env hreq with ⟨-, h⟩ | ⟨hfloor, hsent, -, h⟩ | ⟨hfloor, hsent, -, h⟩ <;>
      rw [h]
    · exact .inl (by simp [hreq])
    · exact .inr ⟨hfloor, hsent, req, hreq, .inl rfl⟩
    · exact .inr ⟨hfloor, hsent, req, hreq, .inr rfl⟩

/-- Reporting the floor costs the call that follows `history` nothing: it ends as it would have
ended without, takes at most two asks, and sends `pep_mode` only to a decision point that by
then has advertised it and not taken it back by a rejection. -/
structure ReportsFreely (e : Enforcer) (history : List (Call ρ χ × Env ρ χ)) (env : Env ρ χ)
    (call : Call ρ χ) : Prop where
  same_code : (e.call (e.after {} history) env call).denial.map Denial.code =
    (e.callSilent (e.afterSilent {} history) env call).2.map Denial.code
  asks_le_two : (e.call (e.after {} history) env call).asks.length ≤ 2
  advertised : ∀ k req, (e.call (e.after {} history) env call).asks[k]? = some req →
    req.pepMode ≠ "" →
    Advertised ((e.heard {} history ++
      (env.heard (e.call (e.after {} history) env call).asks).take k).map Heard.answer)

/-- **Reporting the floor never costs a decision.** Against a decision point that is indifferent
to `pep_mode`, a floor of `shadow` or `enforce` is reported freely at every call, and without a
floor nothing is ever sent. -/
theorem reportsFreely {cfg : Config} {e : Enforcer} (hnew : new cfg = .ok e)
    (history : List (Call ρ χ × Env ρ χ)) (hhistory : ∀ c ∈ history, Indifferent c.2)
    (env : Env ρ χ) (henv : Indifferent env) (call : Call ρ χ) :
    (cfg.minimumMode = Mode.shadow.text ∨ cfg.minimumMode = Mode.enforce.text →
        e.ReportsFreely history env call) ∧
      (cfg.minimumMode = "" ∨ cfg.minimumMode = Mode.off.text →
        ∀ req ∈ (e.call (e.after {} history) env call).asks, req.pepMode = "") := by
  have hasks := e.asks_call_cases (e.after {} history) env call
  refine ⟨fun hmode => ?_, fun hmode => ?_⟩
  · have hfloor : e.minimumMode ≠ .off := by
      rcases hmode with hmode | hmode <;> rw [minimumMode_of_new hnew hmode] <;> decide
    refine ⟨?_, ?_, ?_⟩
    · have hlast := e.afterSilent_simulates history hhistory (rfl : ({} : State).lastMode = _)
      exact (e.callSilent_simulates henv call hlast).2
    · rcases hasks with ⟨hle, -⟩ | ⟨-, -, req, -, h | h⟩
      · omega
      · simp [h]
      · simp [h]
    · intro k req hk hne
      rcases hasks with ⟨-, hplain⟩ | ⟨-, hflag, req', hreq', h⟩
      · exact absurd (hplain req (List.mem_of_getElem? hk)) hne
      -- The floor goes with the first ask only, so everything heard before the call counts.
      have hzero : k = 0 := by
        match k, h, hk with
        | 0, _, _ => rfl
        | k + 1, .inl h, hk => simp [h] at hk
        | 1, .inr h, hk =>
          simp only [h, List.getElem?_cons_succ, List.getElem?_cons_zero, Option.some.injEq] at hk
          exact absurd (hk ▸ hreq') hne
        | k + 2, .inr h, hk => simp [h] at hk
      subst hzero
      rw [List.take_zero, List.append_nil]
      apply advertised_of_hears
      rw [← hflag, pepModeAccepted_after hfloor]
  · have hoff : e.minimumMode = .off := by
      rcases hmode with hmode | hmode
      · obtain ⟨-, -, -, hfloor⟩ := new_eq_ok hnew
        rw [if_pos hmode] at hfloor
        exact (Option.some.inj hfloor).symm
      · exact minimumMode_of_new hnew hmode
    rcases hasks with ⟨-, hplain⟩ | ⟨hfloor, -⟩
    · exact hplain
    · exact absurd hoff hfloor

end Calls

/-- A decision point that allows everything in mode `off`. It advertises `pep_mode` if `accepts`
is set and rejects a request that carries it if `rejects` is. -/
def scripted (accepts rejects : Bool) : Env Unit Unit :=
  let answer (req : DecideRequest Unit Unit) : Answer :=
    if rejects && req.pepMode ≠ "" then .error none (.leaf .policyRequestRejected)
    else .ok { allow := true, rule := "", reason := "", obligations := [], policyVersion := 1,
               mode := "off", pepModeAccepted := accepts }
  { first := answer, second := answer, clock := fun _ => 0 }

theorem indifferent_scripted (accepts rejects : Bool) : Indifferent (scripted accepts rejects) := by
  intro req mode hreq
  by_cases hmode : rejects = true ∧ mode ≠ ""
  · have hrej : ((scripted accepts rejects).first { req with pepMode := mode }).isRejected = true := by
      show Answer.isRejected (if (rejects && Decidable.decide (mode ≠ "")) = true then _ else _) = _
      rw [if_pos (by simp [hmode])]
      rfl
    exact ⟨.inr ⟨hmode.2, hrej⟩, .inr ⟨hmode.2, hrej⟩⟩
  · exact ⟨.inl (by simp [scripted, hmode, hreq]), .inl (by simp [scripted, hmode, hreq])⟩

/-- A decision point that advertises `pep_mode` and is then downgraded: the floor is sent once,
rejected, and the second ask gets the decision. -/
theorem reportsFreely_downgraded :
    strict.ReportsFreely [(.checkAsApp {} "a" (), scripted true false)] (scripted false true)
        (.checkAsApp {} "a" ()) ∧
      (strict.call (strict.after {} [(.checkAsApp {} "a" (), scripted true false)])
        (scripted false true) (.checkAsApp {} "a" ())).asks.map DecideRequest.pepMode =
          ["enforce", ""] := by
  have hnew : new strictConfig = .ok strict := rfl
  refine ⟨?_, by decide⟩
  refine (reportsFreely hnew _ ?_ _ (indifferent_scripted _ _) _).1 (.inr rfl)
  intro c hc
  obtain rfl := List.mem_singleton.mp hc
  exact indifferent_scripted _ _

end Enforcer

end Pep
