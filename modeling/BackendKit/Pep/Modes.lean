import BackendKit.Pep.Enforcer

/-!
# What a mode means

The mode reported by the decision point is a string, and the floor is a `Mode`. `stricter` is the
mode that the two together stand for, and `Enforcer.OutageProceeds` says what an outage means
when a given mode was reported last.

The lemmas here say what `Enforcer.effectiveMode`, `Enforcer.unavailable` and `Enforcer.check`
compute in those terms. They are what the two modules about whole runs build on.
-/

namespace Pep

/-- The stricter of the floor and the mode a server reports. A mode this version does not know
counts as `enforce`. -/
def stricter (floor : Mode) (server : String) : Mode :=
  match Mode.ofText? server with
  | none => .enforce
  | some mode => if mode.rank < floor.rank then floor else mode

/-- The mode that comes with a failed request, if one does. -/
def reportedMode (d : Option Decision) : Option String :=
  (d.map Decision.mode).filter (· ≠ "")

namespace Enforcer

/-- What an outage should mean when `known` is the last mode reported: the request proceeds in
a mode that is not `enforce`, and where no mode is known, the configuration decides. -/
def OutageProceeds (e : Enforcer) (known : Option String) : Prop :=
  match known with
  | some mode => stricter e.minimumMode mode ≠ .enforce
  | none => e.minimumMode ≠ .enforce ∧ e.failOpenWhenModeUnknown = true

instance (e : Enforcer) : ∀ known, Decidable (e.OutageProceeds known)
  | some mode => inferInstanceAs (Decidable (stricter e.minimumMode mode ≠ .enforce))
  | none => inferInstanceAs (Decidable (_ ∧ _))

/-- What a check does with the answer it acts on. -/
def judge (e : Enforcer) (s : State) (clock : ℕ → ℤ) (ctx : Ctx) : Answer → State × Option Denial
  | .error d _ => e.unavailable s d
  | .ok d =>
    ({ s with lastMode := some d.mode },
      e.verdict d (if d.allow then e.unmetObligation ctx clock d.obligations else ""))

/-! ### The effective mode -/

variable (e : Enforcer) (s : State) (d : Option Decision)

/-- Without a mode from the server the floor alone counts. A floor of `off` is then no mode at
all: the empty string is returned, which is not lenient. -/
theorem effectiveMode_empty :
    e.effectiveMode "" = if e.minimumMode = .off then "" else e.minimumMode.text := by
  unfold effectiveMode
  cases e.minimumMode <;> decide

/-- A mode that was reported is lenient exactly if the stricter of it and the floor is not
`enforce`. -/
theorem lenient_effectiveMode_iff {server : String} (hne : server ≠ "") :
    Lenient (e.effectiveMode server) ↔ stricter e.minimumMode server ≠ .enforce := by
  unfold effectiveMode stricter
  cases hknown : Mode.ofText? server with
  | none =>
    -- An unknown mode is returned as it is, and it is neither `off` nor `shadow`.
    simp only [Option.isNone_none, hne, ne_eq, not_false_eq_true, and_self, if_true, not_true_eq_false,
      iff_false]
    rintro (rfl | rfl)
    · exact absurd hknown (by decide)
    · exact absurd hknown (by decide)
  | some mode =>
    obtain rfl := Mode.text_of_ofText? hknown
    simp only [Option.isNone_some, Bool.false_eq_true, false_and, if_false]
    cases mode <;> cases e.minimumMode <;> decide

/-- A mode that was reported does not become empty. -/
theorem effectiveMode_ne_empty {server : String} (hne : server ≠ "") :
    e.effectiveMode server ≠ "" := by
  unfold effectiveMode
  dsimp only
  split_ifs
  · exact hne
  · cases e.minimumMode <;> decide
  · exact hne

/-! ### Outages -/

/-- The mode an outage is judged by: the one reported with it, or else the last one stored.
Both count only if they are not empty. -/
def outageMode (s : State) (d : Option Decision) : Option String :=
  (reportedMode d).or (s.lastMode.filter (· ≠ ""))

/-- The mode of an outage as `unavailable` has it, with the empty string for none. -/
theorem outageMode_getD :
    (outageMode s d).getD "" = (reportedMode d).getD (s.lastMode.getD "") := by
  unfold outageMode
  cases reportedMode d with
  | some mode => rfl
  | none =>
    cases s.lastMode with
    | none => rfl
    | some mode => by_cases hmode : mode = "" <;> simp [Option.filter, hmode]

theorem ne_empty_of_outageMode {s : State} {d : Option Decision} {mode : String}
    (h : outageMode s d = some mode) : mode ≠ "" := by
  rcases Option.or_eq_some_iff.mp h with hreported | ⟨-, hlast⟩
  · simpa using (Option.filter_eq_some_iff.mp hreported).2
  · simpa using (Option.filter_eq_some_iff.mp hlast).2

/-- `unavailable` in terms of these: what it stores, and the mode it judges by. -/
theorem unavailable_eq :
    e.unavailable s d =
      let known := (outageMode s d).getD ""
      let mode := if known ≠ "" ∨ e.minimumMode = .enforce then e.effectiveMode known else known
      ({ s with lastMode := (reportedMode d).or s.lastMode },
        if Lenient mode ∨ (mode = "" ∧ e.failOpenWhenModeUnknown = true) then none
        else some { code := .unavailable, status := 503, decision := d }) := by
  have hreported : (d.map fun d => d.mode).filter (fun mode => mode ≠ "") = reportedMode d := rfl
  unfold unavailable
  simp only [hreported, outageMode_getD]
  cases reportedMode d <;> split_ifs <;> simp_all

/-- An outage lets the request through exactly as the mode it is judged by says. -/
theorem unavailable_eq_none_iff :
    (e.unavailable s d).2 = none ↔ e.OutageProceeds (outageMode s d) := by
  rw [unavailable_eq]
  unfold OutageProceeds
  cases hmode : outageMode s d with
  | some mode =>
    have hne : mode ≠ "" := ne_empty_of_outageMode hmode
    simp [hne, e.lenient_effectiveMode_iff hne, e.effectiveMode_ne_empty hne]
  | none =>
    by_cases hfloor : e.minimumMode = .enforce
    · simp [hfloor, e.not_lenient_effectiveMode hfloor]
    · simp [hfloor, Lenient]

/-! ### Judging an answer -/

section Check

variable {ρ χ : Type} (e : Enforcer) (s : State) (env : Env ρ χ) (ctx : Ctx)
  (req : DecideRequest ρ χ)

theorem asks_check : (e.check s env ctx req).asks = (e.decide s env req).2.1 := by
  cases h : (e.decide s env req).2.2 <;> simp [check, h]

/-- After asking, a check judges the answer. -/
theorem check_eq_judge :
    (e.check s env ctx req).state =
        (e.judge (e.decide s env req).1 env.clock ctx (e.decide s env req).2.2).1 ∧
      (e.check s env ctx req).denial =
        (e.judge (e.decide s env req).1 env.clock ctx (e.decide s env req).2.2).2 := by
  cases h : (e.decide s env req).2.2 <;> simp [check, judge, h]

end Check

/-- What is stored of an answer: the mode of a decision, and the mode reported with an error. -/
theorem state_judge (e : Enforcer) (s : State) (clock : ℕ → ℤ) (ctx : Ctx) (a : Answer) :
    (e.judge s clock ctx a).1 =
      match a with
      | .ok d => { s with lastMode := some d.mode }
      | .error d _ => { s with lastMode := (reportedMode d).or s.lastMode } := by
  cases a with
  | ok d => rfl
  | error d err => exact congrArg Prod.fst (e.unavailable_eq s d)

end Enforcer

end Pep
