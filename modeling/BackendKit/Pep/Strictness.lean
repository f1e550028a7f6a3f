import BackendKit.Pep.Reporting

/-!
# How strict a run is

Two questions about an enforcer over a whole run of calls.

* Does raising the floor ever weaken it? `Enforcer.noWeaker_iff`: only where the floor goes from
  `off` to `shadow` and a decision comes without a mode. Under a floor of `off` such a decision
  is enforced; under `shadow` the missing mode counts as `off`, and the floor makes it `shadow`.
* Is an outage judged by the last mode that was reported? `Enforcer.outageJudged_iff`: yes, unless
  that mode has been lost (`Lost`). A decision without a mode wipes it out, and a mode that came
  with a rejected first ask is never looked at.
-/

open GoStd

namespace Pep

variable {ρ χ : Type}

/-! ### Raising the floor -/

/-- A higher floor gives a mode that is at least as strict. -/
theorem stricter_mono {floor floor' : Mode} (h : floor.rank ≤ floor'.rank) (server : String) :
    stricter floor' server ≠ .enforce → stricter floor server ≠ .enforce := by
  unfold stricter
  cases Mode.ofText? server with
  | none => exact id
  | some mode =>
    revert h
    cases floor <;> cases floor' <;> cases mode <;> decide

namespace Enforcer

variable {e₁ e₂ : Enforcer}

/-- The obligations are judged by the configured window alone. -/
theorem unmetObligation_congr (h : e₁.freshAuthMaxAge = e₂.freshAuthMaxAge) (ctx : Ctx)
    (clock : ℕ → ℤ) (obligations : List String) :
    e₁.unmetObligation ctx clock obligations = e₂.unmetObligation ctx clock obligations := by
  induction obligations generalizing clock with
  | nil => rfl
  | cons o os ih => simp only [unmetObligation, h, ih]

/-- Two enforcers whose configurations differ at most in the floor, the second's being at least
as strict. -/
structure FloorRaised (e₁ e₂ : Enforcer) : Prop where
  freshAuthMaxAge_eq : e₁.freshAuthMaxAge = e₂.freshAuthMaxAge
  failOpen_eq : e₁.failOpenWhenModeUnknown = e₂.failOpenWhenModeUnknown
  rank_le : e₁.minimumMode.rank ≤ e₂.minimumMode.rank

theorem floorRaised_of_new {cfg₁ cfg₂ : Config} (h₁ : new cfg₁ = .ok e₁) (h₂ : new cfg₂ = .ok e₂)
    (hcfg : cfg₂ = { cfg₁ with minimumMode := cfg₂.minimumMode })
    (hrank : e₁.minimumMode.rank ≤ e₂.minimumMode.rank) : FloorRaised e₁ e₂ := by
  obtain ⟨-, hage₁, hopen₁, -⟩ := new_eq_ok h₁
  obtain ⟨-, hage₂, hopen₂, -⟩ := new_eq_ok h₂
  rw [hcfg] at hage₂ hopen₂
  exact ⟨hage₁.trans hage₂.symm, hopen₁.trans hopen₂.symm, hrank⟩

/-- A higher floor lets no outage through that a lower one stops. -/
theorem FloorRaised.outageProceeds (h : FloorRaised e₁ e₂) {known : Option String}
    (hproceeds : e₂.OutageProceeds known) : e₁.OutageProceeds known := by
  cases known with
  | some mode => exact stricter_mono h.rank_le mode hproceeds
  | none =>
    have hopen : e₁.failOpenWhenModeUnknown = true := h.failOpen_eq.trans hproceeds.2
    refine ⟨fun henforce => ?_, hopen⟩
    rw [e₁.failClosed_of_enforce henforce] at hopen
    cases hopen

/-- A decision that comes without a mode and is not an allow with every obligation met. -/
def Blank (e : Enforcer) (ctx : Ctx) (clock : ℕ → ℤ) (d : Decision) : Prop :=
  d.mode = "" ∧ ¬ (d.allow = true ∧ e.unmetObligation ctx clock d.obligations = "")

/-- What a decision is worth under the two floors. -/
theorem FloorRaised.judge_ok_iff (h : FloorRaised e₁ e₂) (s : State) (clock : ℕ → ℤ) (ctx : Ctx)
    (d : Decision) :
    ((e₁.judge s clock ctx (.ok d)).2 ≠ none → (e₂.judge s clock ctx (.ok d)).2 ≠ none) ↔
      ¬ (e₁.minimumMode = .off ∧ e₂.minimumMode = .shadow ∧ e₁.Blank ctx clock d) := by
  have hunmet := unmetObligation_congr h.freshAuthMaxAge_eq ctx clock d.obligations
  have hrank := h.rank_le
  have hverdict : ∀ e : Enforcer, (e.judge s clock ctx (.ok d)).2 = none ↔
      (d.allow = true ∧ e.unmetObligation ctx clock d.obligations = "") ∨
        Lenient (e.effectiveMode d.mode) := by
    intro e
    show e.verdict d _ = none ↔ _
    rw [verdict_eq_none_iff]
    by_cases hallow : d.allow = true <;> simp [hallow]
  unfold Blank
  rw [not_imp_not, hverdict, hverdict, ← hunmet]
  by_cases hallowed : d.allow = true ∧ e₁.unmetObligation ctx clock d.obligations = ""
  · simp [hallowed]
  by_cases hmode : d.mode = ""
  · -- A missing mode is lenient under a floor of `shadow` and under no other.
    simp only [hallowed, false_or, hmode, effectiveMode_empty, not_false_eq_true, and_true]
    revert hrank
    cases e₁.minimumMode <;> cases e₂.minimumMode <;> decide
  · simp only [hallowed, false_or, lenient_effectiveMode_iff _ hmode, hmode, false_and, and_false,
      not_false_eq_true, iff_true]
    exact stricter_mono hrank d.mode

section Runs

variable [Inhabited χ]

/-- What the silent enforcer remembers does not depend on its configuration. -/
theorem afterSilent_congr (e₁ e₂ : Enforcer) (s : State) (history : List (Call ρ χ × Env ρ χ)) :
    e₁.afterSilent s history = e₂.afterSilent s history := by
  induction history generalizing s with
  | nil => rfl
  | cons c cs ih =>
    have hstep : (e₁.callSilent s c.2 c.1).1 = (e₂.callSilent s c.2 c.1).1 := by
      unfold callSilent
      cases c.1.request with
      | none => rfl
      | some req => simp only [state_judge]
    show e₁.afterSilent (e₁.callSilent s c.2 c.1).1 cs = _
    rw [hstep]
    exact ih _

/-- Against an indifferent decision point a call is refused exactly if the silent enforcer
refuses it. -/
theorem denial_ne_none_iff (e : Enforcer) {history : List (Call ρ χ × Env ρ χ)}
    (hhistory : ∀ c ∈ history, Indifferent c.2) {env : Env ρ χ} (henv : Indifferent env)
    (call : Call ρ χ) :
    (e.call (e.after {} history) env call).denial ≠ none ↔
      (e.callSilent (e.afterSilent {} history) env call).2 ≠ none := by
  have hlast := e.afterSilent_simulates history hhistory (rfl : ({} : State).lastMode = _)
  have hcode := (e.callSilent_simulates henv call hlast).2
  rw [ne_eq, ne_eq, not_iff_not, ← Option.map_eq_none_iff, hcode, Option.map_eq_none_iff]

/-- The call that follows `history` is refused by the second enforcer if the first refuses
it. -/
def NoWeaker (e₁ e₂ : Enforcer) (history : List (Call ρ χ × Env ρ χ)) (env : Env ρ χ)
    (call : Call ρ χ) : Prop :=
  (e₁.call (e₁.after {} history) env call).denial ≠ none →
    (e₂.call (e₂.after {} history) env call).denial ≠ none

/-- **When raising the floor weakens nothing.** Two configurations that `New` accepts differ only
in the floor, and both enforcers get the same calls and the same answers. A call that the lower
floor refuses is refused by the higher one, unless the floor went from `off` to `shadow` and the
answer is a decision without a mode that is no unconditional allow. -/
theorem noWeaker_iff {cfg₁ cfg₂ : Config} {e₁ e₂ : Enforcer} (h₁ : new cfg₁ = .ok e₁)
    (h₂ : new cfg₂ = .ok e₂) (hcfg : cfg₂ = { cfg₁ with minimumMode := cfg₂.minimumMode })
    (hrank : e₁.minimumMode.rank ≤ e₂.minimumMode.rank) (history : List (Call ρ χ × Env ρ χ))
    (hhistory : ∀ c ∈ history, Indifferent c.2) (env : Env ρ χ) (henv : Indifferent env)
    (call : Call ρ χ) :
    NoWeaker e₁ e₂ history env call ↔
      ¬ (e₁.minimumMode = .off ∧ e₂.minimumMode = .shadow ∧
        ∃ req d, call.request = some req ∧ env.first req = .ok d ∧
          e₁.Blank call.ctx env.clock d) := by
  have hraised := floorRaised_of_new h₁ h₂ hcfg hrank
  unfold NoWeaker
  rw [denial_ne_none_iff e₁ hhistory henv, denial_ne_none_iff e₂ hhistory henv,
    afterSilent_congr e₂ e₁]
  unfold callSilent
  cases hrequest : call.request with
  | none => simp
  | some req =>
    dsimp only
    cases hanswer : env.first req with
    | ok d =>
      rw [hraised.judge_ok_iff]
      simp [hanswer]
    | error d err =>
      simp only [judge, ne_eq, unavailable_eq_none_iff]
      constructor
      · simp [hanswer]
      · intro _ hrefused hproceeds
        exact hrefused (hraised.outageProceeds hproceeds)

end Runs

/-- An enforcer with the given floor and defaults for the rest. -/
def withFloor (floor : Mode) : Enforcer where
  freshAuthMaxAge := defaultFreshAuthMaxAge
  failOpenWhenModeUnknown := false
  minimumMode := floor
  freshAuthMaxAge_pos := defaultFreshAuthMaxAge_pos
  failClosed_of_enforce := fun _ => rfl

theorem new_withFloor (floor : Mode) :
    new { hasDecider := true, minimumMode := floor.text } = .ok (withFloor floor) := by
  cases floor <;> rfl

/-- A decision point that gives the same answer to everything. -/
def answering (a : Answer) : Env Unit Unit :=
  { first := fun _ => a, second := fun _ => a, clock := fun _ => 0 }

theorem indifferent_answering (a : Answer) : Indifferent (answering a) :=
  fun _ _ _ => ⟨.inl rfl, .inl rfl⟩

/-- A decision that denies, with the given mode. -/
def denying (mode : String) : Answer :=
  .ok { allow := false, rule := "r", reason := "no", obligations := [], policyVersion := 1, mode,
        pepModeAccepted := false }

/-- A denial without a mode stops the request under a floor of `off`, and no longer does once the
floor is raised to `shadow`. -/
theorem not_noWeaker : new { hasDecider := true, minimumMode := "off" } = .ok (withFloor .off) ∧
      new { hasDecider := true, minimumMode := "shadow" } = .ok (withFloor .shadow) ∧
      ¬ NoWeaker (withFloor .off) (withFloor .shadow) [] (answering (denying ""))
        (.checkAsApp {} "report.send" ()) := by
  refine ⟨rfl, rfl, fun h => ?_⟩
  exact h (by decide) (by decide)

/-- After a denial in mode `off`, raising the floor from `shadow` to `enforce` weakens nothing at
a denial without a mode. -/
theorem noWeaker_iff_enforce :
    NoWeaker (withFloor .shadow) (withFloor .enforce)
      [(.checkAsApp {} "report.send" (), answering (denying "off"))] (answering (denying ""))
      (.checkAsApp {} "report.send" ()) := by
  refine (noWeaker_iff (new_withFloor .shadow) (new_withFloor .enforce) rfl (by decide) _ ?_ _
    (indifferent_answering _) _).mpr ?_
  · intro c hc
    obtain rfl := List.mem_singleton.mp hc
    exact indifferent_answering _
  · rintro ⟨hoff, -⟩
    cases hoff

end Enforcer

/-! ### The last known mode -/

/-- The mode an answer reports, empty for none. -/
def Answer.mode : Answer → String
  | .ok d => d.mode
  | .error d _ => (d.map Decision.mode).getD ""

/-- The most recent mode that any answer reported. -/
def lastKnown (heard : List Heard) : Option String :=
  ((heard.map fun h => h.answer.mode).filter (· ≠ "")).getLast?

/-- The most recent mode has been lost: it came with an answer that was asked over, or a decision
without a mode came after it. -/
def Lost (heard : List Heard) : Prop :=
  ∃ pre h post, heard = pre ++ h :: post ∧ h.answer.mode ≠ "" ∧
    (∀ h' ∈ post, h'.answer.mode = "") ∧ (h.final = false ∨ ∃ h' ∈ post, ∃ d, h'.answer = .ok d)

/-- The answer was not asked over, and is a decision or reports a mode. -/
def Heard.isKept (h : Heard) : Bool :=
  h.final && (match h.answer with
    | .ok _ => true
    | .error _ _ => h.answer.mode ≠ "")

/-- The mode of the last answer that is kept. A decision without a mode leaves nothing to remember, and
after an answer that was asked over it is the mode from before. -/
def remembered (heard : List Heard) : Option String :=
  ((heard.filter Heard.isKept).getLast?.map fun h => h.answer.mode).filter (· ≠ "")

/-- What an enforcer remembers of an answer. -/
def Heard.record (last : Option String) (h : Heard) : Option String :=
  if h.final then
    match h.answer with
    | .ok d => some d.mode
    | .error d _ => (reportedMode d).or last
  else last

theorem reportedMode_eq (d : Option Decision) (err : DecideError) :
    reportedMode d = if (Answer.error d err).mode = "" then none
      else some (Answer.error d err).mode := by
  cases d with
  | none => rfl
  | some d => by_cases h : d.mode = "" <;> simp [reportedMode, Answer.mode, Option.filter, h]

theorem Heard.record_eq (h : Heard) (last : Option String) :
    h.record last = if h.isKept then some h.answer.mode else last := by
  unfold record isKept
  cases h.final with
  | false => rfl
  | true =>
    cases h.answer with
    | ok d => rfl
    | error d err => by_cases hmode : (Answer.error d err).mode = "" <;> simp [reportedMode_eq d err, hmode]

/-- What the answers of a run leave in memory. -/
theorem filter_record_eq_remembered (heard : List Heard) :
    (heard.foldl Heard.record none).filter (· ≠ "") = remembered heard := by
  unfold remembered
  congr 1
  induction heard using List.reverseRecOn with
  | nil => rfl
  | append_singleton heard h ih =>
    rw [List.foldl_append, List.foldl_cons, List.foldl_nil, Heard.record_eq, ih, List.filter_append]
    by_cases hkept : h.isKept = true <;> simp [hkept]

theorem lastKnown_concat (heard : List Heard) (h : Heard) :
    lastKnown (heard ++ [h]) =
      if h.answer.mode = "" then lastKnown heard else some h.answer.mode := by
  unfold lastKnown
  by_cases hmode : h.answer.mode = "" <;> simp [hmode]

variable {h : Heard} {heard : List Heard}

/-- An answer without a mode that is no decision changes nothing that is remembered. -/
theorem Heard.record_of_mode_empty (hmode : h.answer.mode = "") (hno : ∀ d, h.answer ≠ .ok d)
    (last : Option String) : h.record last = last := by
  unfold record
  split
  · split
    next d hanswer => exact absurd hanswer (hno d)
    next d err hanswer =>
      rw [hanswer] at hmode
      simp [reportedMode_eq d err, hmode]
  · rfl

/-- Some answer reported the last known mode, and none after it did. -/
theorem exists_of_lastKnown {mode : String} (h : lastKnown heard = some mode) :
    ∃ pre h post, heard = pre ++ h :: post ∧ h.answer.mode = mode ∧ mode ≠ "" ∧
      ∀ h' ∈ post, h'.answer.mode = "" := by
  induction heard using List.reverseRecOn with
  | nil => cases h
  | append_singleton heard last ih =>
    rw [lastKnown_concat] at h
    split at h
    next hempty =>
      obtain ⟨pre, h', post, rfl, hmode, hne, hpost⟩ := ih h
      refine ⟨pre, h', post ++ [last], by simp, hmode, hne, ?_⟩
      simpa [or_imp, forall_and, hempty] using hpost
    next hne =>
      cases h
      exact ⟨heard, last, [], rfl, rfl, hne, by simp⟩

/-- A mode that was lost stays lost while no other is reported. -/
theorem Lost.concat (hlost : Lost heard) (hmode : h.answer.mode = "") : Lost (heard ++ [h]) := by
  obtain ⟨pre, h', post, rfl, hne, hpost, hwhy⟩ := hlost
  refine ⟨pre, h', post ++ [h], by simp, hne, ?_, ?_⟩
  · simpa [or_imp, forall_and, hmode] using hpost
  · exact hwhy.imp_right fun ⟨h'', hmem, hok⟩ => ⟨h'', List.mem_append_left _ hmem, hok⟩

/-- A decision without a mode makes the last known mode a lost one. -/
theorem lost_concat_of_ok {mode : String} (hknown : lastKnown heard = some mode) {d : Decision}
    (hanswer : h.answer = .ok d) (hmode : h.answer.mode = "") :
    Lost (heard ++ [h]) := by
  obtain ⟨pre, h', post, rfl, hmode', hne, hpost⟩ := exists_of_lastKnown hknown
  refine ⟨pre, h', post ++ [h], by simp, hmode' ▸ hne, ?_, .inr ⟨h, by simp, d, hanswer⟩⟩
  simpa [or_imp, forall_and, hmode] using hpost

/-- Unless it was lost, the last known mode is what is remembered. -/
theorem filter_record_eq_lastKnown (hkept : ¬ Lost heard) :
    (heard.foldl Heard.record none).filter (· ≠ "") = lastKnown heard := by
  induction heard using List.reverseRecOn with
  | nil => rfl
  | append_singleton heard h ih =>
    rw [List.foldl_append, lastKnown_concat]
    show (h.record (heard.foldl Heard.record none)).filter (· ≠ "") = _
    by_cases hmode : h.answer.mode = ""
    · rw [if_pos hmode]
      have hbefore := ih fun hlost => hkept (hlost.concat hmode)
      by_cases hok : ∃ d, h.answer = .ok d
      · -- A decision without a mode: nothing can have been known before it.
        obtain ⟨d, hd⟩ := hok
        have hnone : lastKnown heard = none :=
          Option.eq_none_iff_forall_ne_some.mpr fun mode hknown =>
            hkept (lost_concat_of_ok hknown hd hmode)
        have hblank : d.mode = "" := by simpa [hd, Answer.mode] using hmode
        by_cases hfinal : h.final = true
        · simp [Heard.record, hfinal, hd, hblank, hnone, Option.filter]
        · simpa [Heard.record, hfinal] using hbefore
      · rw [h.record_of_mode_empty hmode fun d hd => hok ⟨d, hd⟩]
        exact hbefore
    · -- The answer reports a mode itself, so it cannot have been asked over.
      have hfinal : h.final = true := by
        by_contra hover
        exact hkept ⟨heard, h, [], rfl, hmode, by simp, .inl (by simpa using hover)⟩
      rw [if_neg hmode]
      cases hanswer : h.answer with
      | ok d =>
        rw [hanswer] at hmode
        simpa [Heard.record, hfinal, hanswer, Answer.mode, Option.filter] using hmode
      | error d err =>
        rw [hanswer] at hmode
        simp [Heard.record, hfinal, hanswer, reportedMode_eq d err, hmode, Option.filter]

namespace Enforcer

section Runs

variable [Inhabited χ]

/-- What one call adds to the memory. -/
theorem lastMode_call (e : Enforcer) (s : State) (env : Env ρ χ) (call : Call ρ χ) :
    (e.call s env call).state.lastMode =
      (env.heard (e.call s env call).asks).foldl Heard.record s.lastMode := by
  cases hrequest : call.request with
  | none =>
    rw [call_of_no_request e s env hrequest]
    rfl
  | some req =>
    rw [call_of_request e s env hrequest, asks_check, (e.check_eq_judge s env call.ctx req).1,
      state_judge]
    rcases e.decide_cases s env (pepMode_of_request hrequest) with ⟨-, h⟩ | ⟨-, -, -, h⟩ | ⟨-, -, -, h⟩ <;>
      simp only [h, Env.heard, List.foldl_cons, List.foldl_nil, Heard.record, if_true,
        Bool.false_eq_true, if_false]
    · cases env.first req <;> simp
    · cases env.first (e.reporting req) <;> simp
    · cases env.second req <;> simp

/-- The last mode stored is what the answers of the run leave in memory. -/
theorem lastMode_after (e : Enforcer) (history : List (Call ρ χ × Env ρ χ)) (s : State) :
    (e.after s history).lastMode = (e.heard s history).foldl Heard.record s.lastMode :=
  foldl_heard State.lastMode Heard.record (lastMode_call e) history s

theorem heard_append (e : Enforcer) (history history' : List (Call ρ χ × Env ρ χ)) (s : State) :
    e.heard s (history ++ history') = e.heard s history ++ e.heard (e.after s history) history' := by
  induction history generalizing s with
  | nil => rfl
  | cons c cs ih =>
    simp only [List.cons_append, Enforcer.heard, ih, List.append_assoc]
    rfl

/-- A call that fails without reporting a mode is judged by what is remembered, and remembers
nothing of it. -/
theorem denial_call_of_failed {e : Enforcer} {s : State} {env : Env ρ χ} {call : Call ρ χ}
    {d : Option Decision} {err : DecideError}
    (hfailed : (e.call s env call).answer = some (.error d err)) (hmode : reportedMode d = none) :
    ((e.call s env call).denial = none ↔ e.OutageProceeds (s.lastMode.filter (· ≠ ""))) ∧
      (e.call s env call).state.lastMode = s.lastMode := by
  cases hrequest : call.request with
  | none => simp [call_of_no_request e s env hrequest] at hfailed
  | some req =>
    rw [call_of_request e s env hrequest] at hfailed ⊢
    rw [answer_check, Option.some.injEq] at hfailed
    have hlast := e.lastMode_decide s env (pepMode_of_request hrequest)
    constructor
    · rw [denial_check_of_error call.ctx hfailed, unavailable_eq_none_iff, outageMode, hmode, hlast,
        Option.none_or]
    · rw [(e.check_eq_judge s env call.ctx req).1, hfailed, state_judge]
      show (reportedMode d).or (e.decide s env req).1.lastMode = s.lastMode
      rw [hmode, hlast, Option.none_or]

/-- An outage at the call that follows `history` is judged by the most recent mode any answer
has reported. -/
def OutageJudged (e : Enforcer) (history : List (Call ρ χ × Env ρ χ)) (env : Env ρ χ)
    (call : Call ρ χ) : Prop :=
  (e.call (e.after {} history) env call).denial = none ↔
    e.OutageProceeds (lastKnown (e.heard {} (history ++ [(call, env)])))

/-- **When an outage is judged by the last known mode.** After any calls with any answers, a call
that fails without reporting a mode is judged as it should be, unless the last known mode has
been lost and the mode of the last answer that is kept, if any, gives another verdict. -/
theorem outageJudged_iff (e : Enforcer) (history : List (Call ρ χ × Env ρ χ)) (env : Env ρ χ)
    (call : Call ρ χ) {d : Option Decision} {err : DecideError}
    (hfailed : (e.call (e.after {} history) env call).answer = some (.error d err))
    (hmode : reportedMode d = none) :
    e.OutageJudged history env call ↔
      (Lost (e.heard {} (history ++ [(call, env)])) →
        (e.OutageProceeds (remembered (e.heard {} (history ++ [(call, env)]))) ↔
          e.OutageProceeds (lastKnown (e.heard {} (history ++ [(call, env)]))))) := by
  obtain ⟨hdenial, hstate⟩ := denial_call_of_failed hfailed hmode
  have hmemory : (e.after {} history).lastMode =
      (e.heard {} (history ++ [(call, env)])).foldl Heard.record none := by
    rw [← hstate, lastMode_call, lastMode_after, heard_append, List.foldl_append]
    simp [Enforcer.heard]
  unfold OutageJudged
  rw [hdenial, hmemory, filter_record_eq_remembered]
  refine ⟨fun h _ => h, fun h => ?_⟩
  by_cases hlost : Lost (e.heard {} (history ++ [(call, env)]))
  · exact h hlost
  · -- Nothing was lost, so what is remembered is the last known mode.
    rw [← filter_record_eq_remembered, filter_record_eq_lastKnown hlost]

end Runs

/-- A decision point that cannot be reached. -/
def unreachable : Env Unit Unit := answering (.error none (.leaf (.other "timeout")))

/-- An enforcer without a floor that fails open as long as the mode is unknown. -/
def failingOpen : Enforcer := { withFloor .off with
  failOpenWhenModeUnknown := true
  failClosed_of_enforce := fun h => by cases h }

/-- The decision point has reported `enforce`. One decision without a mode later it goes down,
and the request proceeds. -/
theorem not_outageJudged :
    new { hasDecider := true, failOpenWhenModeUnknown := true } = .ok failingOpen ∧
      ¬ failingOpen.OutageJudged
        [(.checkAsApp {} "report.send" (), answering (denying "enforce")),
          (.checkAsApp {} "report.send" (), answering (denying ""))]
        unreachable (.checkAsApp {} "report.send" ()) := by
  refine ⟨rfl, fun h => ?_⟩
  exact absurd (h.mp (by decide)) (by decide)

/-- After a decision in mode `shadow` and a failure without a mode, an outage lets the request
through. -/
theorem outageJudged_iff_shadow :
    (withFloor .off).OutageJudged
        [(.checkAsApp {} "report.send" (), answering (denying "shadow")),
          (.checkAsApp {} "report.send" (), unreachable)]
        unreachable (.checkAsApp {} "report.send" ()) ∧
      ((withFloor .off).call ((withFloor .off).after {}
          [(.checkAsApp {} "report.send" (), answering (denying "shadow")),
            (.checkAsApp {} "report.send" (), unreachable)])
        unreachable (.checkAsApp {} "report.send" ())).denial = none := by
  refine ⟨?_, by decide⟩
  exact ((withFloor .off).outageJudged_iff _ _ _ rfl rfl).mpr fun _ => Iff.rfl

end Enforcer

end Pep
