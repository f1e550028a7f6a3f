import BackendKit.ToMathlib.StepSystem
import Mathlib.Data.List.Nodup

/-!
# Histories

A step system together with a record of what its steps have brought about. A history is a list
with the newest entry first, so that what came before an entry is the rest of the list.

* `StepSystem.recorded M record` is the recording system; recording does not change what `M` does.
* `History.lastIndex p h` is the position of the newest entry that satisfies `p`, counted from the
  oldest entry, or `0`. It compares entries by their age.
* `History.Recency`: a list of keys in the order of their last use; it stays so when the key of a
  new entry is moved to its end (`Recency.touch`).
-/

namespace StepSystem

variable {σ α β : Type*}

/-- The system `M` with a history: `record s a` is the entry that the step `a` from `s` adds. -/
def recorded (M : StepSystem σ α) (record : σ → α → Option β) : StepSystem (σ × List β) α where
  IsInit s := M.IsInit s.1 ∧ s.2 = []
  step s a := (M.step s.1 a).map fun s' => (s', (record s.1 a).toList ++ s.2)

variable {M : StepSystem σ α} {record : σ → α → Option β}

theorem step_recorded_eq_some {s s' : σ × List β} {a : α} :
    (M.recorded record).step s a = some s' ↔
      M.step s.1 a = some s'.1 ∧ s'.2 = (record s.1 a).toList ++ s.2 := by
  show (M.step s.1 a).map _ = some s' ↔ _
  rw [Option.map_eq_some_iff]
  constructor
  · rintro ⟨m, hm, rfl⟩
    exact ⟨hm, rfl⟩
  · rintro ⟨hm, hh⟩
    exact ⟨s'.1, hm, Prod.ext rfl hh.symm⟩

/-- A run of the recording system is a run of the system. -/
theorem run_of_recorded {s s' : σ × List β} {as : List α}
    (h : (M.recorded record).run s as = some s') : M.run s.1 as = some s'.1 := by
  induction as generalizing s with
  | nil =>
    cases h
    rfl
  | cons a as ih =>
    obtain ⟨m, hm, hrun⟩ := (run_cons_eq_some _).mp h
    exact (run_cons_eq_some _).mpr ⟨m.1, (step_recorded_eq_some.mp hm).1, ih hrun⟩

variable (record) in
/-- Every run is recorded. -/
theorem exists_run_recorded {s s' : σ} {as : List α} (h : M.run s as = some s') (hist : List β) :
    ∃ hist', (M.recorded record).run (s, hist) as = some (s', hist') := by
  induction as generalizing s hist with
  | nil =>
    cases h
    exact ⟨hist, rfl⟩
  | cons a as ih =>
    obtain ⟨m, hm, hrun⟩ := (run_cons_eq_some _).mp h
    obtain ⟨hist', hrec⟩ := ih hrun ((record s a).toList ++ hist)
    exact ⟨hist', (run_cons_eq_some _).mpr ⟨_, step_recorded_eq_some.mpr ⟨hm, rfl⟩, hrec⟩⟩

/-- A condition on the steps of the system is one on the steps of the recording system. -/
theorem everyStep_recorded {P : σ → α → Prop} {s : σ} {as : List α} (h : M.EveryStep P s as)
    (hist : List β) : (M.recorded record).EveryStep (fun s a => P s.1 a) (s, hist) as := by
  induction as generalizing s hist with
  | nil => trivial
  | cons a as ih =>
    refine ⟨h.1, fun s' hs' => ?_⟩
    obtain ⟨hm, -⟩ := step_recorded_eq_some.mp hs'
    exact ih (h.2 s'.1 hm) s'.2

end StepSystem

namespace History

variable {β κ : Type*}

/-- The position of the newest entry that satisfies `p`, counted from the oldest entry; `0` if
there is none. -/
def lastIndex (p : β → Bool) : List β → ℕ
  | [] => 0
  | b :: h => if p b then h.length + 1 else lastIndex p h

theorem lastIndex_cons_of_pos {p : β → Bool} {b : β} (hb : p b = true) (h : List β) :
    lastIndex p (b :: h) = h.length + 1 := by
  rw [lastIndex, if_pos hb]

theorem lastIndex_cons_of_neg {p : β → Bool} {b : β} (hb : p b = false) (h : List β) :
    lastIndex p (b :: h) = lastIndex p h := by
  rw [lastIndex, hb, if_neg Bool.false_ne_true]

theorem lastIndex_le_length (p : β → Bool) (h : List β) : lastIndex p h ≤ h.length := by
  induction h with
  | nil => exact le_refl 0
  | cons b h ih =>
    rw [lastIndex, List.length_cons]
    split <;> omega

/-- The newest entries of two kinds that exclude each other are different ones. -/
theorem lastIndex_ne {p q : β → Bool} (hpq : ∀ b, p b = true → q b = false) {h : List β}
    (hpos : 0 < lastIndex p h) : lastIndex p h ≠ lastIndex q h := by
  induction h with
  | nil => exact absurd hpos (lt_irrefl 0)
  | cons b h ih =>
    have hp := lastIndex_le_length p h
    have hq := lastIndex_le_length q h
    cases hb : p b with
    | true =>
      rw [lastIndex_cons_of_pos hb, lastIndex_cons_of_neg (hpq b hb)]
      omega
    | false =>
      rw [lastIndex_cons_of_neg hb] at hpos ⊢
      cases hb' : q b with
      | true =>
        rw [lastIndex_cons_of_pos hb']
        omega
      | false =>
        rw [lastIndex_cons_of_neg hb']
        exact ih hpos

/-- Keys in the order of their last use, the least recently used first. -/
def Recency (uses : κ → β → Bool) (h : List β) (order : List κ) : Prop :=
  order.Pairwise fun k k' => lastIndex (uses k) h < lastIndex (uses k') h

variable {uses : κ → β → Bool} {b : β} {h : List β} {order : List κ}

/-- An entry that uses none of the keys leaves their order alone. -/
theorem Recency.cons_of_unused (hs : Recency uses h order) (hb : ∀ k ∈ order, uses k b = false) :
    Recency uses (b :: h) order := by
  refine List.Pairwise.imp_of_mem (fun {k k'} hk hk' hlt => ?_) hs
  rwa [lastIndex_cons_of_neg (hb k hk), lastIndex_cons_of_neg (hb k' hk')]

/-- The key that an entry uses goes to the end. -/
theorem Recency.snoc {key : κ} (hs : Recency uses h order) (hnot : key ∉ order)
    (hb : ∀ k, uses k b = true ↔ k = key) : Recency uses (b :: h) (order ++ [key]) := by
  have hunused : ∀ k ∈ order, uses k b = false := fun k hk =>
    Bool.eq_false_iff.mpr fun huse => hnot ((hb k).mp huse ▸ hk)
  refine List.pairwise_append.mpr ⟨hs.cons_of_unused hunused, List.pairwise_singleton _ _, ?_⟩
  intro k hk k' hk'
  rw [List.mem_singleton] at hk'
  subst hk'
  rw [lastIndex_cons_of_neg (hunused k hk), lastIndex_cons_of_pos ((hb _).mpr rfl)]
  exact Nat.lt_succ_of_le (lastIndex_le_length _ h)

/-- Moving the key of a new entry to the end keeps the order. -/
theorem Recency.touch [DecidableEq κ] {key : κ} (hs : Recency uses h order) (hnodup : order.Nodup)
    (hb : ∀ k, uses k b = true ↔ k = key) : Recency uses (b :: h) (order.erase key ++ [key]) :=
  Recency.snoc (List.Pairwise.sublist List.erase_sublist hs) hnodup.not_mem_erase hb

end History
