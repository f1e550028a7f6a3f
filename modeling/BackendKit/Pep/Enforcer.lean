import BackendKit.GoStd.Errors
import BackendKit.GoStd.Time
import Mathlib.Data.List.Basic

/-!
# The policy enforcement point

`pep.Enforcer` (`pep/pep.go`): it asks a decision point about an action and acts on the answer
according to the mode reported with it, or according to `MinimumMode` where that is stricter.

An `Enforcer` is a configuration that `New` has accepted, so what `New` refuses cannot be built.
What it remembers between calls is a `State`. The decision point is arbitrary: each call comes
with what its first and its second ask would be answered (`Env`), and with what the clock says
at each obligation.

The mode of an answer is whatever string the server sent. `Enforcer.effectiveMode` combines it
with the floor, `Enforcer.denial_check_eq_none_iff` says when a check lets the request through, and
`Enforcer.unmetObligation_eq_empty_iff` what the loop over the obligations accepts.
-/

open GoStd

namespace Pep

/-! ### Modes, decisions and denials -/

/-- The modes this version knows, from the most permissive. -/
inductive Mode where
  | off
  | shadow
  | enforce
  deriving DecidableEq, Repr

namespace Mode

/-- The mode's name on the wire. -/
def text : Mode → String
  | off => "off"
  | shadow => "shadow"
  | enforce => "enforce"

/-- The entry of `modeRank`. -/
def rank : Mode → ℕ
  | off => 0
  | shadow => 1
  | enforce => 2

/-- The mode a name stands for: `none` for a name that is not in `modeRank`. -/
def ofText? (name : String) : Option Mode :=
  if name = "off" then some off
  else if name = "shadow" then some shadow
  else if name = "enforce" then some enforce
  else none

@[simp]
theorem ofText?_text (mode : Mode) : ofText? mode.text = some mode := by
  cases mode <;> decide

theorem text_of_ofText? {name : String} {mode : Mode} (h : ofText? name = some mode) :
    mode.text = name := by
  unfold ofText? at h
  split_ifs at h <;> cases h <;> simp_all [text]

end Mode

/-- The obligation to have authenticated recently. -/
def obligationFreshAuth : String := "require_fresh_auth"

/-- The obligation to have authenticated with several factors. -/
def obligationMFA : String := "require_mfa"

/-- The window of `require_fresh_auth` when none is configured. -/
def defaultFreshAuthMaxAge : ℤ := 5 * Duration.minute

theorem defaultFreshAuthMaxAge_pos : 0 < defaultFreshAuthMaxAge := by decide

/-- The decision point's answer (`socrate.Decision`). -/
structure Decision where
  allow : Bool
  rule : String
  reason : String
  obligations : List String
  policyVersion : ℤ
  mode : String
  pepModeAccepted : Bool
  deriving DecidableEq, Repr

/-- An error value, as far as the enforcer tells them apart. -/
inductive ErrorValue where
  /-- The sentinel `socrate.ErrPolicyRequestRejected`. -/
  | policyRequestRejected
  | other (text : String)
  deriving DecidableEq, Repr

/-- What a `Decider` can fail with. -/
abbrev DecideError := GoStd.Error ErrorValue

/-- `errors.Is(err, socrate.ErrPolicyRequestRejected)`. -/
def DecideError.isRejected (err : DecideError) : Bool :=
  err.is (· == .policyRequestRejected)

/-- What `Decide` returns. A `Decider` that returns no error returns a decision; with an error
it may return one as well, for its mode. -/
inductive Answer where
  | ok (d : Decision)
  | error (d : Option Decision) (err : DecideError)

/-- The codes of a denial. -/
inductive Code where
  | denied
  | elevationRequired
  | mfaRequired
  | unavailable
  | unauthenticated
  deriving DecidableEq, Repr

/-- The code as the client sees it. -/
def Code.text : Code → String
  | denied => "policy_denied"
  | elevationRequired => "elevation_required"
  | mfaRequired => "mfa_required"
  | unavailable => "policy_unavailable"
  | unauthenticated => "unauthenticated"

/-- What a check returns when the request must be refused. -/
structure Denial where
  code : Code
  status : ℕ
  /-- Absent when the decision point could not be asked. -/
  decision : Option Decision
  deriving DecidableEq, Repr

/-! ### Configuration -/

/-- The configuration handed to `New`. The logger and the callback are left out: they do not
influence the answer. -/
structure Config where
  hasDecider : Bool
  freshAuthMaxAge : ℤ := 0
  failOpenWhenModeUnknown : Bool := false
  minimumMode : String := ""

/-- A configuration that `New` has accepted, with its defaults filled in. -/
structure Enforcer where
  freshAuthMaxAge : ℤ
  failOpenWhenModeUnknown : Bool
  minimumMode : Mode
  freshAuthMaxAge_pos : 0 < freshAuthMaxAge
  /-- A floor of `enforce` and failing open contradict each other. -/
  failClosed_of_enforce : minimumMode = .enforce → failOpenWhenModeUnknown = false

/-- `FreshAuthMaxAge` after `New`. -/
def Config.freshAuthMaxAgeOrDefault (cfg : Config) : ℤ :=
  if cfg.freshAuthMaxAge ≤ 0 then defaultFreshAuthMaxAge else cfg.freshAuthMaxAge

theorem Config.freshAuthMaxAgeOrDefault_pos (cfg : Config) : 0 < cfg.freshAuthMaxAgeOrDefault := by
  unfold freshAuthMaxAgeOrDefault
  split
  · decide
  · omega

/-- `New`. -/
def new (cfg : Config) : Except String Enforcer :=
  if !cfg.hasDecider then .error "pep: Decider is required"
  else
    match Mode.ofText? (if cfg.minimumMode = "" then "off" else cfg.minimumMode) with
    | none => .error "pep: MinimumMode must be off, shadow or enforce"
    | some floor =>
      if h : floor = .enforce ∧ cfg.failOpenWhenModeUnknown = true then
        .error "pep: MinimumMode enforce and FailOpenWhenModeUnknown contradict each other"
      else
        .ok {
          freshAuthMaxAge := cfg.freshAuthMaxAgeOrDefault
          failOpenWhenModeUnknown := cfg.failOpenWhenModeUnknown
          minimumMode := floor
          freshAuthMaxAge_pos := cfg.freshAuthMaxAgeOrDefault_pos
          failClosed_of_enforce := fun hf => by simpa [hf] using h }

/-- What an accepted configuration says about its enforcer. -/
theorem new_eq_ok {cfg : Config} {e : Enforcer} (h : new cfg = .ok e) :
    cfg.hasDecider = true ∧ e.freshAuthMaxAge = cfg.freshAuthMaxAgeOrDefault ∧
      e.failOpenWhenModeUnknown = cfg.failOpenWhenModeUnknown ∧
      Mode.ofText? (if cfg.minimumMode = "" then "off" else cfg.minimumMode) =
        some e.minimumMode := by
  unfold new at h
  split at h
  · cases h
  next hdecider =>
    split at h
    · cases h
    next floor hfloor =>
      split at h
      · cases h
      · cases h
        exact ⟨by simpa using hdecider, rfl, rfl, hfloor⟩

/-- A floor that was asked for is the enforcer's floor. -/
theorem minimumMode_of_new {cfg : Config} {e : Enforcer} {mode : Mode} (h : new cfg = .ok e)
    (hmode : cfg.minimumMode = mode.text) : e.minimumMode = mode := by
  obtain ⟨-, -, -, hfloor⟩ := new_eq_ok h
  have hne : cfg.minimumMode ≠ "" := by
    rw [hmode]
    cases mode <;> decide
  rw [if_neg hne, hmode, Mode.ofText?_text, Option.some.injEq] at hfloor
  exact hfloor.symm

/-! ### What a call brings along -/

/-- What `jwtauth` stored in the request's context about the verified token, as the `ctxutil`
getters return it: their zero values stand for what is absent. -/
structure Ctx where
  rawJWT : String := ""
  authTime : Int64 := 0
  amr : List String := []

/-- The user a decision is about. -/
structure PolicySubject where
  token : String := ""
  userID : ℕ := 0
  deriving DecidableEq, Repr

/-- A question to the decision point. The enforcer does not look into the resource and the
context, so their types are parameters. -/
structure DecideRequest (ρ χ : Type) where
  /-- Absent for the application itself. -/
  subject : Option PolicySubject := none
  action : String
  resource : ρ
  context : χ
  pepMode : String := ""

/-- What one call meets: the answers of the decision point to a first and a second ask, and the
clock readings, one for each obligation. -/
structure Env (ρ χ : Type) where
  first : DecideRequest ρ χ → Answer
  second : DecideRequest ρ χ → Answer
  clock : ℕ → ℤ

/-- What an enforcer remembers between calls. -/
structure State where
  /-- The last mode stored, if any was. -/
  lastMode : Option String := none
  /-- The last answer advertised `pep_mode`. -/
  pepModeAccepted : Bool := false
  deriving DecidableEq, Repr

/-- The arguments of the `OnDecision` callback. -/
structure Report where
  action : String
  decision : Option Decision
  enforced : Bool
  err : Option DecideError

/-- What a call returns and does. -/
structure Result (ρ χ : Type) where
  state : State
  /-- The returned error: `none` lets the request proceed. -/
  denial : Option Denial
  asks : List (DecideRequest ρ χ)
  /-- The last answer the decision point gave during the call. -/
  answer : Option Answer
  report : Option Report

/-- The answer is an error that wraps `ErrPolicyRequestRejected`. -/
def Answer.isRejected : Answer → Bool
  | .ok _ => false
  | .error _ err => err.isRejected

/-- The obligations that come with an answer. -/
def Answer.obligations : Answer → List String
  | .ok d => d.obligations
  | .error _ _ => []

/-- An answer without an error says whether `pep_mode` may be sent. -/
def State.heard (s : State) : Answer → State
  | .ok d => { s with pepModeAccepted := d.pepModeAccepted }
  | .error _ _ => s

/-- A mode in which a denial does not stop the request. -/
def Lenient (mode : String) : Prop := mode = "off" ∨ mode = "shadow"

instance (mode : String) : Decidable (Lenient mode) :=
  inferInstanceAs (Decidable (_ ∨ _))

namespace Enforcer

variable {ρ χ : Type}

/-! ### One check -/

/-- The stricter of the server's mode and the floor. A mode this version does not know is
returned as it is; an empty one counts as `off`. -/
def effectiveMode (e : Enforcer) (server : String) : String :=
  let known := Mode.ofText? server
  let r := known.elim 0 Mode.rank
  if known.isNone ∧ server ≠ "" then server
  else if e.minimumMode.rank > r then e.minimumMode.text
  else server

/-- Ask the decision point. The floor is sent along when it is stricter than `off` and the last
answer advertised `pep_mode`; if that gets the request rejected, it is asked once more without
it. -/
def decide (e : Enforcer) (s : State) (env : Env ρ χ) (req : DecideRequest ρ χ) :
    State × List (DecideRequest ρ χ) × Answer :=
  let sent : Bool := e.minimumMode ≠ .off ∧ s.pepModeAccepted = true
  let req₁ := if sent then { req with pepMode := e.minimumMode.text } else req
  let a₁ := env.first req₁
  if sent && a₁.isRejected then
    let req₂ := { req₁ with pepMode := "" }
    let a₂ := env.second req₂
    (State.heard { s with pepModeAccepted := false } a₂, [req₁, req₂], a₂)
  else
    (s.heard a₁, [req₁], a₁)

/-- The first obligation that the user's token does not satisfy, or the empty string. Obligation
`k` is looked at when the clock reads `clock k`. -/
def unmetObligation (e : Enforcer) (ctx : Ctx) (clock : ℕ → ℤ) : List String → String
  | [] => ""
  | o :: os =>
    if o = obligationFreshAuth then
      if ctx.authTime = 0 ∨ e.freshAuthMaxAge < Time.sub (clock 0) (Time.unix ctx.authTime) then o
      else e.unmetObligation ctx (fun k => clock (k + 1)) os
    else if o = obligationMFA then
      if "mfa" ∉ ctx.amr then o
      else e.unmetObligation ctx (fun k => clock (k + 1)) os
    else
      -- An obligation this version does not know counts as unmet.
      o

/-- What a decision means, given the unmet obligation (empty for none) of an allow. -/
def verdict (e : Enforcer) (d : Decision) (unmet : String) : Option Denial :=
  let mode := e.effectiveMode d.mode
  if (d.allow = true ∧ unmet = "") ∨ mode = "off" then none
  else if mode = "shadow" then none
  else
    -- `enforce`, and any mode this version does not know.
    let code :=
      if unmet = obligationFreshAuth then .elevationRequired
      else if unmet = obligationMFA then .mfaRequired
      else .denied
    some { code, status := 403, decision := some d }

/-- What an error means: it is judged by the mode reported with it or else by the last mode
seen. -/
def unavailable (e : Enforcer) (s : State) (d : Option Decision) : State × Option Denial :=
  let reported := (d.map (·.mode)).filter (· ≠ "")
  let s' := match reported with
    | some mode => { s with lastMode := some mode }
    | none => s
  let known := reported.getD (s.lastMode.getD "")
  let mode := if known ≠ "" ∨ e.minimumMode = .enforce then e.effectiveMode known else known
  if Lenient mode then (s', none)
  else if mode = "" ∧ e.failOpenWhenModeUnknown = true then (s', none)
  else (s', some { code := .unavailable, status := 503, decision := d })

/-- Ask about a request and act on the answer. -/
def check (e : Enforcer) (s : State) (env : Env ρ χ) (ctx : Ctx) (req : DecideRequest ρ χ) :
    Result ρ χ :=
  let asked := e.decide s env req
  match asked.2.2 with
  | .error d err =>
    let judged := e.unavailable asked.1 d
    { state := judged.1, denial := judged.2, asks := asked.2.1, answer := some (.error d err),
      report := some { action := req.action, decision := d, enforced := judged.2.isSome,
                       err := some err } }
  | .ok d =>
    let unmet := if d.allow then e.unmetObligation ctx env.clock d.obligations else ""
    let denial := e.verdict d unmet
    { state := { asked.1 with lastMode := some d.mode }, denial, asks := asked.2.1,
      answer := some (.ok d),
      report := some { action := req.action, decision := some d, enforced := denial.isSome,
                       err := none } }

end Enforcer

/-- A call of one of the two entry points. -/
inductive Call (ρ χ : Type) where
  | check (ctx : Ctx) (action : String) (resource : ρ) (pctx : χ)
  | checkAsApp (ctx : Ctx) (action : String) (resource : ρ)

/-- The context a call is made in. -/
def Call.ctx {ρ χ : Type} : Call ρ χ → Ctx
  | .check ctx _ _ _ => ctx
  | .checkAsApp ctx _ _ => ctx

namespace Enforcer

variable {ρ χ : Type} [Inhabited χ]

/-- `Check` and `CheckAsApp`. Without the user's token there is no subject to decide for, and
`Check` refuses without asking. -/
def call (e : Enforcer) (s : State) (env : Env ρ χ) : Call ρ χ → Result ρ χ
  | .check ctx action resource pctx =>
    if ctx.rawJWT = "" then
      { state := s, asks := [], answer := none, report := none,
        denial := some { code := .unauthenticated, status := 401, decision := none } }
    else
      e.check s env ctx
        { subject := some { token := ctx.rawJWT }, action, resource, context := pctx }
  | .checkAsApp ctx action resource =>
    e.check s env ctx { action, resource, context := default }

/-- The state after a sequence of calls. -/
def after (e : Enforcer) (s : State) (history : List (Call ρ χ × Env ρ χ)) : State :=
  history.foldl (fun s c => (e.call s c.2 c.1).state) s

/-! ### When a check lets the request through -/

omit [Inhabited χ] in
/-- `verdict` refuses exactly in the modes that are not lenient, and never an allow whose
obligations are met. -/
theorem verdict_eq_none_iff (e : Enforcer) (d : Decision) (unmet : String) :
    e.verdict d unmet = none ↔
      (d.allow = true ∧ unmet = "") ∨ Lenient (e.effectiveMode d.mode) := by
  unfold verdict Lenient
  by_cases hallowed : d.allow = true ∧ unmet = ""
  · simp [hallowed]
  by_cases hoff : e.effectiveMode d.mode = "off"
  · simp [hoff]
  by_cases hshadow : e.effectiveMode d.mode = "shadow"
  · simp [hshadow]
  · simp [hallowed, hoff, hshadow]

omit [Inhabited χ] in
/-- A check acts on the last answer it got. -/
theorem answer_check (e : Enforcer) (s : State) (env : Env ρ χ) (ctx : Ctx)
    (req : DecideRequest ρ χ) :
    (e.check s env ctx req).answer = some (e.decide s env req).2.2 := by
  cases h : (e.decide s env req).2.2 <;> simp [check, h]

omit [Inhabited χ] in
/-- A check answered with a decision proceeds if the decision allows and nothing is unmet, or
if the mode is lenient. -/
theorem denial_check_of_ok {e : Enforcer} {s : State} {env : Env ρ χ} (ctx : Ctx)
    {req : DecideRequest ρ χ} {d : Decision} (h : (e.decide s env req).2.2 = .ok d) :
    (e.check s env ctx req).denial = none ↔
      (d.allow = true ∧ e.unmetObligation ctx env.clock d.obligations = "") ∨
        Lenient (e.effectiveMode d.mode) := by
  simp only [check, h, verdict_eq_none_iff]
  -- The obligations are looked at only for an allow.
  by_cases hallow : d.allow = true <;> simp [hallow]

omit [Inhabited χ] in
/-- A check answered with an error is judged by `unavailable`. -/
theorem denial_check_of_error {e : Enforcer} {s : State} {env : Env ρ χ} (ctx : Ctx)
    {req : DecideRequest ρ χ} {d : Option Decision} {err : DecideError}
    (h : (e.decide s env req).2.2 = .error d err) :
    (e.check s env ctx req).denial = (e.unavailable (e.decide s env req).1 d).2 := by
  simp only [check, h]

/-! ### The obligations -/

/-- The test that the loop makes of one obligation. -/
def Passes (e : Enforcer) (ctx : Ctx) (now : ℤ) (o : String) : Prop :=
  (o = obligationFreshAuth ∧ ctx.authTime ≠ 0 ∧
      Time.sub now (Time.unix ctx.authTime) ≤ e.freshAuthMaxAge) ∨
    (o = obligationMFA ∧ "mfa" ∈ ctx.amr)

/-- How long ago the user authenticated, with no bound on the size of the number. -/
def Ctx.authAge (ctx : Ctx) (now : ℤ) : ℤ := now - ctx.authTime.toInt * Duration.second

/-- What an obligation asks for: an authentication time that is known and recent enough, or
several factors. No other obligation can be honoured. -/
def Honoured (e : Enforcer) (ctx : Ctx) (now : ℤ) (o : String) : Prop :=
  (o = obligationFreshAuth ∧ ctx.authTime ≠ 0 ∧ Ctx.authAge ctx now ≤ e.freshAuthMaxAge) ∨
    (o = obligationMFA ∧ "mfa" ∈ ctx.amr)

/-- The loop never accepts an authentication that is too old, except that an age beyond the
largest `time.Duration` is cut to it. -/
theorem honoured_of_passes {e : Enforcer} {ctx : Ctx} {now : ℤ} {o : String}
    (h : e.Passes ctx now o) :
    e.Honoured ctx now o ∨
      (o = obligationFreshAuth ∧ Duration.maxValue ≤ e.freshAuthMaxAge ∧
        e.freshAuthMaxAge < Ctx.authAge ctx now) := by
  rcases h with ⟨rfl, hne, hsub⟩ | hmfa
  · by_cases hage : Ctx.authAge ctx now ≤ e.freshAuthMaxAge
    · exact .inl (.inl ⟨rfl, hne, hage⟩)
    · refine .inr ⟨rfl, ?_, not_le.mp hage⟩
      -- Below the largest duration the difference is exact, and wrapping only adds to it.
      by_contra hmax
      have hexact := Time.le_of_sub_le (not_le.mp hmax) hsub
      have hwrap := Time.unix_le ctx.authTime
      unfold Ctx.authAge at hage
      omega
  · exact .inl (.inr hmfa)

/-- The empty obligation is none that the loop knows. -/
theorem not_passes_empty (e : Enforcer) (ctx : Ctx) (now : ℤ) : ¬ e.Passes ctx now "" := by
  rintro (⟨h, -⟩ | ⟨h, -⟩)
  · exact absurd h (by decide)
  · exact absurd h (by decide)

/-- One turn of the loop. -/
theorem unmetObligation_cons (e : Enforcer) (ctx : Ctx) (clock : ℕ → ℤ) (o : String)
    (os : List String) :
    (e.Passes ctx (clock 0) o ∧
        e.unmetObligation ctx clock (o :: os) = e.unmetObligation ctx (fun k => clock (k + 1)) os) ∨
      (¬ e.Passes ctx (clock 0) o ∧ e.unmetObligation ctx clock (o :: os) = o) := by
  have hdiff : obligationMFA ≠ obligationFreshAuth := by decide
  unfold Passes
  rw [unmetObligation]
  by_cases hfresh : o = obligationFreshAuth
  · subst hfresh
    rw [if_pos rfl]
    split
    next hold =>
      refine .inr ⟨?_, rfl⟩
      rintro (⟨-, hne, hle⟩ | ⟨h, -⟩)
      · exact hold.elim hne (not_lt.mpr hle)
      · exact hdiff h.symm
    next hnew =>
      obtain ⟨hne, hle⟩ := not_or.mp hnew
      exact .inl ⟨.inl ⟨rfl, hne, not_lt.mp hle⟩, rfl⟩
  by_cases hmfa : o = obligationMFA
  · subst hmfa
    rw [if_neg hfresh, if_pos rfl]
    by_cases hamr : "mfa" ∈ ctx.amr
    · exact .inl ⟨.inr ⟨rfl, hamr⟩, if_neg (not_not.mpr hamr)⟩
    · exact .inr ⟨by simp [hdiff, hamr], if_pos hamr⟩
  · exact .inr ⟨by simp [hfresh, hmfa], by rw [if_neg hfresh, if_neg hmfa]⟩

/-- The loop returns the empty string if every obligation passes, and also as soon as it reaches
an obligation that *is* the empty string. -/
theorem unmetObligation_eq_empty_iff (e : Enforcer) (ctx : Ctx) (clock : ℕ → ℤ)
    (obligations : List String) :
    e.unmetObligation ctx clock obligations = "" ↔
      (∀ i o, obligations[i]? = some o → e.Passes ctx (clock i) o) ∨
        ∃ i, obligations[i]? = some "" ∧
          ∀ j < i, ∀ o, obligations[j]? = some o → e.Passes ctx (clock j) o := by
  induction obligations generalizing clock with
  | nil => simp [unmetObligation]
  | cons o os ih =>
    rcases e.unmetObligation_cons ctx clock o os with ⟨hpass, heq⟩ | ⟨hfail, heq⟩
    · -- The first obligation passes, so it is not empty and the rest decides.
      have hne : o ≠ "" := by
        rintro rfl
        exact e.not_passes_empty ctx _ hpass
      rw [heq, ih]
      refine or_congr ⟨fun h i => ?_, fun h i => h (i + 1)⟩
        ⟨fun ⟨i, hi, hlt⟩ => ⟨i + 1, hi, fun j hj => ?_⟩, ?_⟩
      · cases i with
        | zero => simpa using hpass
        | succ i => exact h i
      · cases j with
        | zero => simpa using hpass
        | succ j => exact hlt j (Nat.lt_of_succ_lt_succ hj)
      · rintro ⟨i, hi, hlt⟩
        cases i with
        | zero => exact absurd (by simpa using hi) hne
        | succ i => exact ⟨i, hi, fun j hj => hlt (j + 1) (Nat.succ_lt_succ hj)⟩
    · -- It fails and is returned, so the loop's result is empty exactly if it is.
      rw [heq]
      constructor
      · rintro rfl
        exact .inr ⟨0, rfl, fun j hj => absurd hj (Nat.not_lt_zero j)⟩
      · rintro (hall | ⟨i, hi, hlt⟩)
        · exact absurd (hall 0 o rfl) hfail
        · cases i with
          | zero => simpa using hi
          | succ i => exact absurd (hlt 0 (Nat.succ_pos i) o rfl) hfail

/-! ### A floor of `enforce` -/

section Floor

variable {e : Enforcer} (hfloor : e.minimumMode = .enforce)
include hfloor

omit [Inhabited χ] in
/-- Under a floor of `enforce` no server mode is lenient: a known or empty one is raised to the
floor, and an unknown one is neither `off` nor `shadow`. -/
theorem not_lenient_effectiveMode (server : String) :
    ¬ Lenient (e.effectiveMode server) ∧ e.effectiveMode server ≠ "" := by
  unfold effectiveMode
  by_cases hunknown : (Mode.ofText? server).isNone = true ∧ server ≠ ""
  · simp only [if_pos hunknown]
    refine ⟨?_, hunknown.2⟩
    rintro (rfl | rfl)
    · exact absurd hunknown.1 (by decide)
    · exact absurd hunknown.1 (by decide)
  · simp only [if_neg hunknown, hfloor]
    split
    · decide
    next hrank =>
      -- Only `enforce` itself has a rank that the floor does not exceed.
      cases hknown : Mode.ofText? server with
      | none => simp [hknown, Mode.rank] at hrank
      | some mode =>
        rw [← Mode.text_of_ofText? hknown]
        cases mode with
        | enforce => decide
        | off => simp [hknown, Mode.rank] at hrank
        | shadow => simp [hknown, Mode.rank] at hrank

omit [Inhabited χ] in
/-- Under a floor of `enforce` an outage refuses the request, whatever was seen before. -/
theorem unavailable_ne_none (s : State) (d : Option Decision) : (e.unavailable s d).2 ≠ none := by
  have hmode := not_lenient_effectiveMode hfloor
  simp [unavailable, hfloor, hmode]

omit [Inhabited χ] in
/-- Under a floor of `enforce` a check proceeds only on an allow, with nothing reported as
unmet. -/
theorem denial_check_eq_none_iff (s : State) (env : Env ρ χ) (ctx : Ctx)
    (req : DecideRequest ρ χ) :
    (e.check s env ctx req).denial = none ↔
      ∃ d, (e.check s env ctx req).answer = some (.ok d) ∧ d.allow = true ∧
        e.unmetObligation ctx env.clock d.obligations = "" := by
  rw [answer_check]
  cases hanswer : (e.decide s env req).2.2 with
  | ok d =>
    rw [denial_check_of_ok ctx hanswer]
    simp [(not_lenient_effectiveMode hfloor d.mode).1]
  | error d err =>
    rw [denial_check_of_error ctx hanswer]
    simp [unavailable_ne_none hfloor]

/-- The same for both entry points: without a token nothing is asked and nothing proceeds. -/
theorem denial_call_eq_none_iff (s : State) (env : Env ρ χ) (call : Call ρ χ) :
    (e.call s env call).denial = none ↔
      ∃ d, (e.call s env call).answer = some (.ok d) ∧ d.allow = true ∧
        e.unmetObligation call.ctx env.clock d.obligations = "" := by
  cases call with
  | checkAsApp ctx action resource => exact denial_check_eq_none_iff hfloor s env ctx _
  | check ctx action resource pctx =>
    by_cases htoken : ctx.rawJWT = ""
    · simp [Enforcer.call, htoken]
    · simp only [Enforcer.call, if_neg htoken, Call.ctx]
      exact denial_check_eq_none_iff hfloor s env ctx _

end Floor

/-! ### Is the floor absolute? -/

/-- The call that follows a history of calls returns no error only on an allow of that very call
whose obligations are all honoured. -/
def FloorAbsolute (e : Enforcer) (history : List (Call ρ χ × Env ρ χ)) (env : Env ρ χ)
    (call : Call ρ χ) : Prop :=
  (e.call (e.after {} history) env call).denial = none →
    ∃ d, (e.call (e.after {} history) env call).answer = some (.ok d) ∧ d.allow = true ∧
      ∀ i o, d.obligations[i]? = some o → e.Honoured call.ctx (env.clock i) o

/-- The obligations that slip through. The first way is an empty obligation with nothing unmet
before it: the loop returns it, and the empty string means that nothing is unmet. The second
needs the largest possible window: ages beyond it are cut to it, and pass. -/
def SlipsThrough (e : Enforcer) (ctx : Ctx) (clock : ℕ → ℤ) (obligations : List String) : Prop :=
  (∃ i, obligations[i]? = some "" ∧
      ∀ j < i, ∀ o, obligations[j]? = some o → e.Passes ctx (clock j) o) ∨
    ((∀ i o, obligations[i]? = some o → e.Passes ctx (clock i) o) ∧
      ∃ i, obligations[i]? = some obligationFreshAuth ∧
        Duration.maxValue ≤ e.freshAuthMaxAge ∧ e.freshAuthMaxAge < Ctx.authAge ctx (clock i))

/-- The loop accepts obligations that are not honoured exactly when they slip through. -/
theorem slipsThrough_iff (e : Enforcer) (ctx : Ctx) (clock : ℕ → ℤ) (obligations : List String) :
    e.SlipsThrough ctx clock obligations ↔
      e.unmetObligation ctx clock obligations = "" ∧
        ¬ ∀ i o, obligations[i]? = some o → e.Honoured ctx (clock i) o := by
  have hdiff : obligationFreshAuth ≠ obligationMFA := by decide
  have hblank : ∀ now, ¬ e.Honoured ctx now "" := by
    rintro now (⟨h, -⟩ | ⟨h, -⟩)
    · exact absurd h (by decide)
    · exact absurd h (by decide)
  rw [unmetObligation_eq_empty_iff]
  constructor
  · rintro (⟨i, hi, hbefore⟩ | ⟨hpass, i, hi, -, hold⟩)
    · exact ⟨.inr ⟨i, hi, hbefore⟩, fun h => hblank _ (h i "" hi)⟩
    · refine ⟨.inl hpass, fun h => ?_⟩
      rcases h i _ hi with ⟨-, -, hage⟩ | ⟨hmfa, -⟩
      · exact absurd hage (not_le.mpr hold)
      · exact hdiff hmfa
  · rintro ⟨hpass | hempty, hnot⟩
    · -- Everything passes and something is not honoured: its age must have been cut.
      push Not at hnot
      obtain ⟨i, o, hi, hunhonoured⟩ := hnot
      rcases honoured_of_passes (hpass i o hi) with h | ⟨rfl, hmax, hold⟩
      · exact absurd h hunhonoured
      · exact .inr ⟨hpass, i, hi, hmax, hold⟩
    · exact .inl hempty

/-- **When an enforce floor is absolute.** With a configuration that `New` accepts and that has
`MinimumMode` enforce, after any calls with any answers, a call keeps to the floor unless its
last answer is an allow whose obligations slip through. -/
theorem floorAbsolute_iff {cfg : Config} {e : Enforcer} (hnew : new cfg = .ok e)
    (hmode : cfg.minimumMode = Mode.enforce.text) (history : List (Call ρ χ × Env ρ χ))
    (env : Env ρ χ) (call : Call ρ χ) :
    e.FloorAbsolute history env call ↔
      ¬ ∃ d, (e.call (e.after {} history) env call).answer = some (.ok d) ∧ d.allow = true ∧
        e.SlipsThrough call.ctx env.clock d.obligations := by
  have hfloor : e.minimumMode = .enforce := minimumMode_of_new hnew hmode
  unfold FloorAbsolute
  rw [denial_call_eq_none_iff hfloor]
  constructor
  · rintro habs ⟨d, hanswer, hallow, hslip⟩
    rw [slipsThrough_iff] at hslip
    -- The answer is the same one, so its obligations would have to be honoured.
    obtain ⟨d', hanswer', -, hhonoured⟩ := habs ⟨d, hanswer, hallow, hslip.1⟩
    obtain rfl : d = d' := by
      rw [hanswer] at hanswer'
      simpa using hanswer'
    exact hslip.2 hhonoured
  · rintro hno ⟨d, hanswer, hallow, hunmet⟩
    refine ⟨d, hanswer, hallow, ?_⟩
    by_contra hunhonoured
    exact hno ⟨d, hanswer, hallow, (e.slipsThrough_iff _ _ _).mpr ⟨hunmet, hunhonoured⟩⟩

/-- An enforcer with a floor of `enforce` and the default window. -/
def strict : Enforcer where
  freshAuthMaxAge := defaultFreshAuthMaxAge
  failOpenWhenModeUnknown := false
  minimumMode := .enforce
  freshAuthMaxAge_pos := defaultFreshAuthMaxAge_pos
  failClosed_of_enforce := fun _ => rfl

/-- The configuration of `strict`. -/
def strictConfig : Config := { hasDecider := true, minimumMode := "enforce" }

/-- A decision point that allows everything under the given obligations, at one instant. -/
def allowing (obligations : List String) (mode : String) (now : ℤ) : Env Unit Unit :=
  let d : Decision :=
    { allow := true, rule := "r", reason := "", obligations, policyVersion := 1, mode,
      pepModeAccepted := false }
  { first := fun _ => .ok d, second := fun _ => .ok d, clock := fun _ => now }

/-- A floor of `enforce` lets a request through whose only obligation is the empty string. -/
theorem not_floorAbsolute :
    new strictConfig = .ok strict ∧
      ¬ strict.FloorAbsolute [] (allowing [""] "enforce" 0)
        (.check { rawJWT := "token" } "invoice.read" () ()) := by
  refine ⟨rfl, fun habs => ?_⟩
  obtain ⟨d, hanswer, -, hhonoured⟩ := habs (by decide)
  -- The one answer of the run carries the empty obligation, which nothing honours.
  have hobligations : [""] = d.obligations :=
    Option.some.inj (congrArg (Option.map Answer.obligations) hanswer)
  rcases hhonoured 0 "" (by rw [← hobligations]; rfl) with ⟨h, -⟩ | ⟨h, -⟩
  · exact absurd h (by decide)
  · exact absurd h (by decide)

/-- After a call in shadow mode, a user who authenticated a minute ago with a second factor
meets both obligations, and the floor is kept. -/
theorem floorAbsolute_iff_both :
    strict.FloorAbsolute
      [(.checkAsApp {} "report.send" (), allowing [] "shadow" 0)]
      (allowing ["require_fresh_auth", "require_mfa"] "off" (1060 * Duration.second))
      (.check { rawJWT := "token", authTime := 1000, amr := ["pwd", "mfa"] } "invoice.approve"
        () ()) := by
  have hnew : new strictConfig = .ok strict := rfl
  refine (floorAbsolute_iff hnew rfl _ _ _).mpr ?_
  rintro ⟨d, hanswer, -, hslip⟩
  have hobligations : ["require_fresh_auth", "require_mfa"] = d.obligations :=
    Option.some.inj (congrArg (Option.map Answer.obligations) hanswer)
  rw [← hobligations] at hslip
  rcases hslip with ⟨i, hi, -⟩ | ⟨-, i, -, hmax, -⟩
  · exact absurd (List.mem_of_getElem? hi) (by decide)
  · exact absurd hmax (by decide)

end Enforcer

end Pep
