import Mathlib.Data.Nat.Notation
import Mathlib.Logic.Function.Basic

/-!
# Single flight

The group of `golang.org/x/sync/singleflight`: calls of `Do` with the same key that overlap a
running call share that call and its result; otherwise a new call runs.

A running call is a *flight*. `Group.enter` is the moment a caller enters `Do`: it joins the
flight of its key or becomes the leader of a new one. `Group.finish` is the moment the leader's
function returns: the result is recorded for every caller of the flight and the key is free
again. A caller leaves `Do` by reading the result of its flight.

* `Group.WellFormed`: a running flight was started, has no result yet and has one key;
* `Group.results_enter`, `Group.results_finish`: a recorded result never changes, so all callers
  of one flight leave with the same result.
-/

namespace GoStd.SingleFlight

/-- The state of a `singleflight.Group` with keys `κ` and results `ρ`. Flights are numbered in
the order they start. -/
structure Group (κ ρ : Type*) where
  /-- The flight running for a key. -/
  running : κ → Option ℕ
  /-- The result of a finished flight. -/
  results : ℕ → Option ρ
  /-- The number of the next flight. -/
  next : ℕ

namespace Group

variable {κ ρ : Type*} [DecidableEq κ]

/-- The zero value: no call is running. -/
def empty : Group κ ρ := { running := fun _ => none, results := fun _ => none, next := 0 }

/-- The group after a caller has entered `Do` with the key `k`. -/
def enter (g : Group κ ρ) (k : κ) : Group κ ρ :=
  match g.running k with
  | some _ => g
  | none => { g with running := Function.update g.running k (some g.next), next := g.next + 1 }

/-- The flight a caller shares that enters `Do` with the key `k`. -/
def flightOf (g : Group κ ρ) (k : κ) : ℕ := (g.running k).getD g.next

/-- The group after the flight of `k` has returned `r`. -/
def finish (g : Group κ ρ) (k : κ) (r : ρ) : Group κ ρ :=
  match g.running k with
  | some n => { g with
      running := Function.update g.running k none
      results := Function.update g.results n (some r) }
  | none => g

/-- What holds of every group built from `empty` by `enter` and `finish`. -/
structure WellFormed (g : Group κ ρ) : Prop where
  /-- A running flight was started and has no result yet. -/
  running_lt : ∀ k n, g.running k = some n → n < g.next ∧ g.results n = none
  /-- Two keys do not share a running flight. -/
  running_inj : ∀ k k' n, g.running k = some n → g.running k' = some n → k = k'
  /-- Only flights that were started have a result. -/
  results_lt : ∀ n r, g.results n = some r → n < g.next

omit [DecidableEq κ] in
theorem wellFormed_empty : (empty : Group κ ρ).WellFormed :=
  ⟨by simp [empty], by simp [empty], by simp [empty]⟩

variable {g : Group κ ρ} {k : κ} {n : ℕ}

theorem enter_of_running (h : g.running k = some n) : g.enter k = g := by
  simp [enter, h]

theorem running_enter (g : Group κ ρ) (k : κ) : (g.enter k).running k = some (g.flightOf k) := by
  unfold enter flightOf
  cases h : g.running k <;> simp [h]

theorem running_enter_of_ne (g : Group κ ρ) {k' : κ} (h : k' ≠ k) :
    (g.enter k).running k' = g.running k' := by
  unfold enter
  cases g.running k <;> simp [Function.update_of_ne h]

/-- Entering `Do` records no result. -/
@[simp]
theorem results_enter (g : Group κ ρ) (k : κ) : (g.enter k).results = g.results := by
  unfold enter
  cases g.running k <;> rfl

theorem running_finish (g : Group κ ρ) (k : κ) (r : ρ) : (g.finish k r).running k = none := by
  unfold finish
  cases h : g.running k <;> simp [h]

theorem running_finish_of_ne (g : Group κ ρ) {k' : κ} (r : ρ) (h : k' ≠ k) :
    (g.finish k r).running k' = g.running k' := by
  unfold finish
  cases g.running k <;> simp [Function.update_of_ne h]

/-- The finished flight has the result its leader's function returned. -/
theorem results_finish_self (r : ρ) (h : g.running k = some n) :
    (g.finish k r).results n = some r := by
  simp [finish, h]

/-- The other flights keep their results, or still have none. -/
theorem results_finish_of_ne {m : ℕ} (r : ρ) (h : g.running k = some n) (hne : m ≠ n) :
    (g.finish k r).results m = g.results m := by
  simp [finish, h, Function.update_of_ne hne]

/-- A recorded result never changes. -/
theorem results_finish (hg : g.WellFormed) {r r' : ρ} (h : g.results n = some r) :
    (g.finish k r').results n = some r := by
  cases hk : g.running k with
  | none => simpa [finish, hk] using h
  | some m =>
    have hne : n ≠ m := by
      rintro rfl
      rw [(hg.running_lt k n hk).2] at h
      cases h
    rwa [results_finish_of_ne r' hk hne]

theorem WellFormed.enter (hg : g.WellFormed) (k : κ) : (g.enter k).WellFormed := by
  cases hk : g.running k with
  | some n => simpa [Group.enter, hk] using hg
  | none =>
    have hnext : (g.enter k).next = g.next + 1 := by simp [Group.enter, hk]
    have hself : (g.enter k).running k = some g.next := by simp [Group.enter, hk]
    -- flights are numbered in order, so the new one differs from all that run
    have hfresh : ∀ k' n, g.running k' = some n → n ≠ g.next := fun k' n h =>
      Nat.ne_of_lt (hg.running_lt k' n h).1
    refine ⟨fun k' n h => ?_, fun k₁ k₂ n h₁ h₂ => ?_, fun n r h => ?_⟩
    · rw [hnext, results_enter]
      by_cases hkk : k' = k
      · subst hkk
        rw [hself, Option.some.injEq] at h
        subst h
        refine ⟨Nat.lt_succ_self _, ?_⟩
        cases hr : g.results g.next with
        | none => rfl
        | some r => exact absurd (hg.results_lt _ r hr) (Nat.lt_irrefl _)
      · rw [running_enter_of_ne g hkk] at h
        exact ⟨Nat.lt_succ_of_lt (hg.running_lt k' n h).1, (hg.running_lt k' n h).2⟩
    · by_cases h1 : k₁ = k <;> by_cases h2 : k₂ = k
      · rw [h1, h2]
      · subst h1
        rw [hself, Option.some.injEq] at h₁
        rw [running_enter_of_ne g h2] at h₂
        exact absurd h₁.symm (hfresh k₂ n h₂)
      · subst h2
        rw [hself, Option.some.injEq] at h₂
        rw [running_enter_of_ne g h1] at h₁
        exact absurd h₂.symm (hfresh k₁ n h₁)
      · rw [running_enter_of_ne g h1] at h₁
        rw [running_enter_of_ne g h2] at h₂
        exact hg.running_inj k₁ k₂ n h₁ h₂
    · rw [results_enter] at h
      rw [hnext]
      exact Nat.lt_succ_of_lt (hg.results_lt n r h)

theorem WellFormed.finish (hg : g.WellFormed) (k : κ) (r : ρ) : (g.finish k r).WellFormed := by
  cases hk : g.running k with
  | none => simpa [Group.finish, hk] using hg
  | some m =>
    have hnext : (g.finish k r).next = g.next := by simp [Group.finish, hk]
    have hother : ∀ n, n ≠ m → (g.finish k r).results n = g.results n := fun n hne =>
      results_finish_of_ne r hk hne
    -- the only flight that stops running is `m`, and it belongs to `k` alone
    have hkeep : ∀ k' n, (g.finish k r).running k' = some n → g.running k' = some n ∧ n ≠ m := by
      intro k' n h
      by_cases hkk : k' = k
      · subst hkk
        rw [running_finish] at h
        cases h
      · rw [running_finish_of_ne g r hkk] at h
        refine ⟨h, ?_⟩
        rintro rfl
        exact hkk (hg.running_inj k' k n h hk)
    refine ⟨fun k' n h => ?_, fun k₁ k₂ n h₁ h₂ => ?_, fun n r' h => ?_⟩
    · obtain ⟨hn, hne⟩ := hkeep k' n h
      rw [hnext, hother n hne]
      exact hg.running_lt k' n hn
    · exact hg.running_inj k₁ k₂ n (hkeep k₁ n h₁).1 (hkeep k₂ n h₂).1
    · rw [hnext]
      by_cases hne : n = m
      · subst hne
        exact (hg.running_lt k n hk).1
      · rw [hother n hne] at h
        exact hg.results_lt n r' h

end Group

end GoStd.SingleFlight
