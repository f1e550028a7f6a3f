import BackendKit.ToMathlib.StepSystem
import Mathlib.Data.Sum.Basic

/-!
# Tracing the origin of data through a step system

A system moves data between places: it copies, overwrites and drops what a place holds. Tracing
labels every place with the item its contents stem from. The labels are ghost state: a step of
the traced system is a step of the system, together with the sources of that step.

* `StepSystem.traced M source` is the traced system;
* `StepSystem.supplies_update` is the proof obligation of a step that fills one place;
* `StepSystem.value_of_traced`: if copying keeps a value, then in every reachable state the value
  that a place holds is the one its item had at the beginning, however often it was copied.
-/

namespace StepSystem

variable {σ α π ι κ : Type*}

/-- The system `M` with a label on every place. `source s a x` is where the contents of the
place `x` come from when `a` is performed in `s`: a place, as it was before the step, or a new
item. -/
def traced (M : StepSystem σ α) (source : σ → α → π → π ⊕ ι) : StepSystem (σ × (π → ι)) α where
  IsInit s := M.IsInit s.1
  step s a := (M.step s.1 a).map fun s' => (s', fun x => (source s.1 a x).elim s.2 id)

variable {M : StepSystem σ α} {source : σ → α → π → π ⊕ ι}

theorem step_traced_eq_some {s s' : σ × (π → ι)} {a : α} :
    (M.traced source).step s a = some s' ↔
      M.step s.1 a = some s'.1 ∧ s'.2 = fun x => (source s.1 a x).elim s.2 id := by
  show (M.step s.1 a).map _ = some s' ↔ _
  rw [Option.map_eq_some_iff]
  constructor
  · rintro ⟨m, hm, rfl⟩
    exact ⟨hm, rfl⟩
  · rintro ⟨hm, hlabels⟩
    exact ⟨s'.1, hm, Prod.ext rfl hlabels.symm⟩

/-- Tracing does not change what the system can do. -/
theorem reachable_of_traced {s : σ × (π → ι)} (h : (M.traced source).Reachable s) :
    M.Reachable s.1 := by
  apply reachable_invariant (I := fun s : σ × (π → ι) => M.Reachable s.1) _ _ h
  · intro s₀ h₀
    exact ⟨s₀.1, [], h₀, run_nil M s₀.1⟩
  · intro s a s' hs hstep
    exact hs.step (step_traced_eq_some.mp hstep).1

/-- A source supplies the value `k`: the place held it before, or the new item has it. -/
def Supplies (before : π → Option κ) (value : ι → κ) (k : κ) : π ⊕ ι → Prop
  | .inl y => before y = some k
  | .inr i => value i = k

/-- The sources of a step that fills one place `y` and leaves the others alone. -/
theorem supplies_update [DecidableEq π] {before after : π → Option κ} {value : ι → κ} {y : π}
    {src : π ⊕ ι} {k : κ} (hfilled : after y = some k → Supplies before value k src)
    (hother : ∀ x ≠ y, after x = before x) (x : π) (hx : after x = some k) :
    Supplies before value k (Function.update Sum.inl y src x) := by
  by_cases heq : x = y
  · subst heq
    rw [Function.update_self]
    exact hfilled hx
  · rw [Function.update_of_ne heq]
    exact (hother x heq).symm.trans hx

/-- If nothing is held in the beginning, and what a place holds after a step is what its source
held before, or the value of a new item, then every place holds the value of its item. -/
theorem value_of_traced (holds : σ → π → Option κ) (value : ι → κ)
    (hinit : ∀ s, M.IsInit s → ∀ x, holds s x = none)
    (hstep : ∀ s a s', M.Reachable s → M.step s a = some s' → ∀ x k, holds s' x = some k →
      Supplies (holds s) value k (source s a x))
    {s : σ × (π → ι)} (h : (M.traced source).Reachable s) {x : π} {k : κ}
    (hx : holds s.1 x = some k) : value (s.2 x) = k := by
  let I (s : σ × (π → ι)) := M.Reachable s.1 ∧ ∀ x k, holds s.1 x = some k → value (s.2 x) = k
  suffices hI : I s from hI.2 x k hx
  apply reachable_invariant (I := I) _ _ h
  · intro s₀ h₀
    refine ⟨⟨s₀.1, [], h₀, run_nil M s₀.1⟩, fun x k hx => ?_⟩
    rw [hinit s₀.1 h₀ x] at hx
    cases hx
  · rintro s a s' ⟨hs, hvalue⟩ htraced
    obtain ⟨hm, hlabels⟩ := step_traced_eq_some.mp htraced
    refine ⟨hs.step hm, fun x k hx => ?_⟩
    have hsource := hstep s.1 a s'.1 hs hm x k hx
    rw [hlabels]
    -- the label is that of the source, and the source held the same value
    show value ((source s.1 a x).elim s.2 id) = k
    revert hsource
    rcases source s.1 a x with y | i <;> intro hsource
    · exact hvalue y k hsource
    · exact hsource

end StepSystem
