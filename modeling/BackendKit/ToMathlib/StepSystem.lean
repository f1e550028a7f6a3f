import Mathlib.Data.Nat.Notation
import Mathlib.Data.Option.Basic
import Mathlib.Order.Nat

/-!
# Guarded step systems

A system is described by an executable, guarded step function: `step s a` is `some s'` when
the action `a` is enabled in the state `s`, and `none` otherwise. A concrete run can then be
evaluated, and a property of all runs is proved by the rules below.

* `StepSystem.run` performs a list of actions, `StepSystem.Reachable` is reachability from an
  initial state;
* `StepSystem.EveryStep P s as` says that every step of a run meets `P` in the state before
  it; it expresses assumptions on an environment and conditions on a schedule;
* `StepSystem.run_invariant` is the invariant rule for runs whose steps meet a condition,
  `StepSystem.run_relation` its counterpart for a preorder between the two ends of a run;
* `StepSystem.run_filter` compares a run with the one that leaves out some of its actions.
-/

/-- A transition system given by its initial states and a guarded step function. -/
structure StepSystem (σ α : Type*) where
  /-- The states a run may start in. -/
  IsInit : σ → Prop
  /-- `step s a = some s'` when `a` is enabled in `s` and leads to `s'`. -/
  step : σ → α → Option σ

namespace StepSystem

variable {σ α : Type*} (M : StepSystem σ α)

/-- Perform the actions in order from `s`; `none` if one of them is disabled. -/
def run : σ → List α → Option σ
  | s, [] => some s
  | s, a :: as => (M.step s a).bind fun s' => run s' as

/-- Every step of the run of `as` from `s` satisfies `P` in the state before it. -/
def EveryStep (P : σ → α → Prop) : σ → List α → Prop
  | _, [] => True
  | s, a :: as => P s a ∧ ∀ s', M.step s a = some s' → EveryStep P s' as

/-- Decide `EveryStep` by performing the run. -/
def checkEvery (P : σ → α → Prop) [∀ s a, Decidable (P s a)] : σ → List α → Bool
  | _, [] => true
  | s, a :: as => P s a &&
    match M.step s a with
    | some s' => checkEvery P s' as
    | none => true

/-- `s` is the end of a run from an initial state. -/
def Reachable (s : σ) : Prop :=
  ∃ s₀ as, M.IsInit s₀ ∧ M.run s₀ as = some s

@[simp]
theorem run_nil (s : σ) : M.run s [] = some s := rfl

theorem run_cons_eq_some {s s' : σ} {a : α} {as : List α} :
    M.run s (a :: as) = some s' ↔ ∃ m, M.step s a = some m ∧ M.run m as = some s' := by
  simp [run, Option.bind_eq_some_iff]

/-- A run of `as ++ bs` is a run of `as` followed by a run of `bs`. -/
theorem run_append_eq_some {s s' : σ} {as bs : List α} :
    M.run s (as ++ bs) = some s' ↔ ∃ m, M.run s as = some m ∧ M.run m bs = some s' := by
  induction as generalizing s with
  | nil => simp
  | cons a as ih =>
    simp only [List.cons_append, run_cons_eq_some, ih]
    constructor
    · rintro ⟨m, hm, n, hn, hs⟩
      exact ⟨n, ⟨m, hm, hn⟩, hs⟩
    · rintro ⟨n, ⟨m, hm, hn⟩, hs⟩
      exact ⟨m, hm, n, hn, hs⟩

variable {M}

/-- Invariant rule: a property that every step meeting `P` preserves is preserved by every run
whose steps meet `P`. -/
theorem run_invariant {P : σ → α → Prop} {I : σ → Prop}
    (hstep : ∀ s a s', I s → P s a → M.step s a = some s' → I s')
    {s s' : σ} {as : List α} (hP : M.EveryStep P s as) (hrun : M.run s as = some s')
    (hs : I s) : I s' := by
  induction as generalizing s with
  | nil =>
    cases hrun
    exact hs
  | cons a as ih =>
    obtain ⟨m, hm, hrest⟩ := M.run_cons_eq_some.mp hrun
    exact ih (hP.2 m hm) hrest (hstep s a m hs hP.1 hm)

/-- Weakening of the condition on the steps. -/
theorem EveryStep.imp {P Q : σ → α → Prop} (h : ∀ s a, P s a → Q s a) {s : σ} {as : List α}
    (hP : M.EveryStep P s as) : M.EveryStep Q s as := by
  induction as generalizing s with
  | nil => trivial
  | cons a as ih => exact ⟨h s a hP.1, fun s' hs' => ih (hP.2 s' hs')⟩

/-- A condition on the actions alone holds of every step if it holds of every action. -/
theorem everyStep_of_forall_mem {P : α → Prop} (s : σ) {as : List α} (h : ∀ a ∈ as, P a) :
    M.EveryStep (fun _ a => P a) s as := by
  induction as generalizing s with
  | nil => trivial
  | cons a as ih =>
    rw [List.forall_mem_cons] at h
    exact ⟨h.1, fun s' _ => ih s' h.2⟩

theorem everyStep_of_checkEvery {P : σ → α → Prop} [∀ s a, Decidable (P s a)] {s : σ}
    {as : List α} (h : M.checkEvery P s as = true) : M.EveryStep P s as := by
  induction as generalizing s with
  | nil => trivial
  | cons a as ih =>
    simp only [checkEvery, Bool.and_eq_true, decide_eq_true_eq] at h
    refine ⟨h.1, fun s' hs' => ih ?_⟩
    rw [hs'] at h
    exact h.2

/-- Invariant rule without a condition on the steps. -/
theorem run_invariant' {I : σ → Prop}
    (hstep : ∀ s a s', I s → M.step s a = some s' → I s')
    {s s' : σ} {as : List α} (hrun : M.run s as = some s') (hs : I s) : I s' :=
  run_invariant (P := fun _ _ => True) (fun s a s' hi _ => hstep s a s' hi)
    (everyStep_of_forall_mem s fun _ _ => trivial) hrun hs

/-- A property that a step cannot bring about holds before every step of a run that ends in it. -/
theorem everyStep_of_run {Q : σ → Prop}
    (hback : ∀ s a s', M.step s a = some s' → Q s' → Q s) {s s' : σ} {as : List α}
    (hrun : M.run s as = some s') (hs' : Q s') : Q s ∧ M.EveryStep (fun s _ => Q s) s as := by
  induction as generalizing s with
  | nil =>
    cases hrun
    exact ⟨hs', trivial⟩
  | cons a as ih =>
    obtain ⟨m, hm, hrest⟩ := (run_cons_eq_some M).mp hrun
    obtain ⟨hQ, hevery⟩ := ih hrest
    refine ⟨hback s a m hm hQ, hback s a m hm hQ, fun m' hm' => ?_⟩
    cases hm.symm.trans hm'
    exact hevery

/-- Projection rule: where `R` lets a second run follow the steps that are kept and sleep through the
others, a run without the others ends in a state related to the end of the whole run. `Q` is
something known of the end that no step can bring about. -/
theorem run_filter {R : σ → σ → Prop} {Q : σ → Prop} {keep : α → Bool}
    (hback : ∀ s a s', M.step s a = some s' → Q s' → Q s)
    (hkeep : ∀ s t a s', R s t → M.step s a = some s' → Q s' → keep a = true →
      ∃ t', M.step t a = some t' ∧ R s' t')
    (hdrop : ∀ s t a s', R s t → M.step s a = some s' → Q s' → keep a = false → R s' t)
    {s s' t : σ} {as : List α} (hrun : M.run s as = some s') (hs' : Q s') (hR : R s t) :
    ∃ t', M.run t (as.filter keep) = some t' ∧ R s' t' := by
  induction as generalizing s t with
  | nil =>
    cases hrun
    exact ⟨t, rfl, hR⟩
  | cons a as ih =>
    obtain ⟨m, hm, hrest⟩ := (run_cons_eq_some M).mp hrun
    have hQ : Q m := (everyStep_of_run hback hrest hs').1
    rcases hk : keep a with _ | _
    · rw [List.filter_cons_of_neg (by simp [hk])]
      exact ih hrest (hdrop s t a m hR hm hQ hk)
    · obtain ⟨n, hn, hmn⟩ := hkeep s t a m hR hm hQ hk
      obtain ⟨t', ht', hR'⟩ := ih hrest hmn
      rw [List.filter_cons_of_pos hk]
      exact ⟨t', (run_cons_eq_some M).mpr ⟨n, hn, ht'⟩, hR'⟩

/-- A reflexive and transitive relation that contains every step contains every run. -/
theorem run_relation {R : σ → σ → Prop} (hrefl : ∀ s, R s s)
    (htrans : ∀ s t u, R s t → R t u → R s u)
    (hstep : ∀ s a s', M.step s a = some s' → R s s')
    {s s' : σ} {as : List α} (hrun : M.run s as = some s') : R s s' := by
  induction as generalizing s with
  | nil =>
    cases hrun
    exact hrefl _
  | cons a as ih =>
    obtain ⟨m, hm, hrest⟩ := M.run_cons_eq_some.mp hrun
    exact htrans s m s' (hstep s a m hm) (ih hrest)

/-- Safety rule: an invariant of the initial states that every step preserves holds in every
reachable state. -/
theorem reachable_invariant {I : σ → Prop} (hinit : ∀ s, M.IsInit s → I s)
    (hstep : ∀ s a s', I s → M.step s a = some s' → I s')
    {s : σ} (h : M.Reachable s) : I s := by
  obtain ⟨s₀, as, h₀, hrun⟩ := h
  exact run_invariant' hstep hrun (hinit s₀ h₀)

theorem Reachable.step {s s' : σ} {a : α} (h : M.Reachable s) (hstep : M.step s a = some s') :
    M.Reachable s' := by
  obtain ⟨s₀, as, h₀, hrun⟩ := h
  refine ⟨s₀, as ++ [a], h₀, M.run_append_eq_some.mpr ⟨s, hrun, ?_⟩⟩
  exact M.run_cons_eq_some.mpr ⟨s', hstep, rfl⟩

/-- Where every step is taken by at most one actor and actors only become busy by their own
steps, some actor is idle in every reachable state. -/
theorem Reachable.exists_idle (Busy : σ → ℕ → Prop) (actor : α → Option ℕ)
    (hinit : ∀ s, M.IsInit s → ∀ g, ¬ Busy s g)
    (hstep : ∀ s a s' g, M.step s a = some s' → actor a ≠ some g → Busy s' g → Busy s g)
    {s : σ} (h : M.Reachable s) : ∃ g, ¬ Busy s g := by
  -- all busy actors lie below a bound, which one step raises at most past its own actor
  obtain ⟨n, hn⟩ : ∃ n, ∀ g ≥ n, ¬ Busy s g := by
    refine reachable_invariant (I := fun s => ∃ n, ∀ g ≥ n, ¬ Busy s g)
      (fun s₀ h₀ => ⟨0, fun g _ => hinit s₀ h₀ g⟩) ?_ h
    rintro s a s' ⟨n, hn⟩ hs'
    refine ⟨max n ((actor a).elim 0 (· + 1)), fun g hg hbusy => ?_⟩
    have hother : actor a ≠ some g := by
      intro heq
      rw [heq, Option.elim_some] at hg
      omega
    exact hn g (by omega) (hstep s a s' g hs' hother hbusy)
  exact ⟨n, hn n (Nat.le_refl n)⟩

end StepSystem
