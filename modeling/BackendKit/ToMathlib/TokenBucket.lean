import Mathlib.Algebra.Order.Ring.Defs
import Mathlib.Data.List.Chain
import Mathlib.Data.List.Induction
import Mathlib.Tactic.Linarith
import Mathlib.Tactic.Ring

/-!
# Token buckets

A token bucket has a capacity and is refilled at a constant rate. Whoever takes from it leaves a
log: at each instant, how much was taken and how much was left.

`TokenBucket.Conforms` is what makes a log one of a bucket. It does not say who refilled the
bucket or why, so a bucket may also be replaced by another one as long as that one is not fuller.
`TokenBucket.takenIn_le` is the guarantee: in any window of time, no more is taken than the
capacity and what the rate gives for the length of the window.
-/

namespace TokenBucket

variable {K : Type*} [CommRing K] [LinearOrder K]

/-- At `time`, `taken` was taken and `level` was left. -/
structure Entry (K : Type*) where
  time : K
  taken : K
  level : K

/-- From `e` to `e'` the bucket was refilled at most at `rate`. -/
def Follows (rate : K) (e e' : Entry K) : Prop :=
  e.time ≤ e'.time ∧ e'.taken + e'.level ≤ e.level + rate * (e'.time - e.time)

/-- The log of a bucket. -/
structure Conforms (capacity rate : K) (log : List (Entry K)) : Prop where
  level_nonneg : ∀ e ∈ log, 0 ≤ e.level
  le_capacity : ∀ e ∈ log, e.taken + e.level ≤ capacity
  chained : log.IsChain (Follows rate)

/-- What was taken from `a` to `b`. -/
def takenIn (a b : K) (log : List (Entry K)) : K :=
  ((log.filter fun e => a ≤ e.time ∧ e.time ≤ b).map Entry.taken).sum

variable {capacity rate a b : K} {log : List (Entry K)} {e : Entry K}

@[simp]
theorem takenIn_nil : takenIn a b ([] : List (Entry K)) = 0 := rfl

theorem takenIn_concat_of_mem (ha : a ≤ e.time) (hb : e.time ≤ b) :
    takenIn a b (log ++ [e]) = takenIn a b log + e.taken := by
  simp [takenIn, ha, hb]

theorem takenIn_concat_of_notMem (h : ¬ (a ≤ e.time ∧ e.time ≤ b)) :
    takenIn a b (log ++ [e]) = takenIn a b log := by
  simp only [takenIn, List.filter_append, List.filter_singleton, h, decide_false, cond_false,
    List.append_nil]

/-- A log that is continued was one before, and the new entry follows the last one. -/
theorem Conforms.of_concat (h : Conforms capacity rate (log ++ [e])) :
    Conforms capacity rate log ∧ (0 ≤ e.level ∧ e.taken + e.level ≤ capacity) ∧
      ∀ e₀ ∈ log.getLast?, Follows rate e₀ e := by
  obtain ⟨hlevel, hcapacity, hchain⟩ := h
  obtain ⟨hinit, -, hlast⟩ := List.isChain_append.mp hchain
  refine ⟨⟨fun x hx => hlevel x (List.mem_append_left _ hx),
    fun x hx => hcapacity x (List.mem_append_left _ hx), hinit⟩, ?_, ?_⟩
  · exact ⟨hlevel e (by simp), hcapacity e (by simp)⟩
  · intro e₀ he₀
    exact hlast e₀ he₀ e rfl

/-- A log is continued by an entry that follows its last one. -/
theorem Conforms.concat (h : Conforms capacity rate log) (hlevel : 0 ≤ e.level)
    (hcapacity : e.taken + e.level ≤ capacity) (hlast : ∀ e₀ ∈ log.getLast?, Follows rate e₀ e) :
    Conforms capacity rate (log ++ [e]) := by
  refine ⟨?_, ?_, List.isChain_append.mpr ⟨h.chained, List.isChain_singleton e, ?_⟩⟩
  · intro x hx
    rcases List.mem_append.mp hx with hx | hx
    · exact h.level_nonneg x hx
    · rw [List.mem_singleton.mp hx]
      exact hlevel
  · intro x hx
    rcases List.mem_append.mp hx with hx | hx
    · exact h.le_capacity x hx
    · rw [List.mem_singleton.mp hx]
      exact hcapacity
  · rintro e₀ he₀ _ ⟨⟩
    exact hlast e₀ he₀

/-- Nothing is taken in a window that the log has not reached. -/
theorem takenIn_eq_zero (h : Conforms capacity rate log) (hlast : ∀ e ∈ log.getLast?, e.time < a) :
    takenIn a b log = 0 := by
  induction log using List.reverseRecOn with
  | nil => rfl
  | append_singleton log e ih =>
    obtain ⟨hinit, -, hfollows⟩ := h.of_concat
    have hlt : e.time < a := hlast e (by simp)
    rw [takenIn_concat_of_notMem fun hmem => absurd hmem.1 (not_le.mpr hlt)]
    exact ih hinit fun e₀ he₀ => (hfollows e₀ he₀).1.trans_lt hlt

variable [IsStrictOrderedRing K]

/-- As long as the log is in the window, what was taken and what is left are paid for. -/
theorem takenIn_add_level_le (h : Conforms capacity rate log) (hrate : 0 ≤ rate)
    (he : e ∈ log.getLast?) (ha : a ≤ e.time) (hb : e.time ≤ b) :
    takenIn a b log + e.level ≤ capacity + rate * (e.time - a) := by
  induction log using List.reverseRecOn generalizing e with
  | nil => cases he
  | append_singleton log last ih =>
    obtain rfl : last = e := by simpa using he
    obtain ⟨hinit, ⟨-, hcapacity⟩, hfollows⟩ := h.of_concat
    have hgain : 0 ≤ rate * (last.time - a) := mul_nonneg hrate (sub_nonneg.mpr ha)
    rw [takenIn_concat_of_mem ha hb]
    by_cases hbefore : ∀ e₀ ∈ log.getLast?, e₀.time < a
    · -- the first entry in the window: the bucket is at most full
      rw [takenIn_eq_zero hinit hbefore]
      linarith
    · push Not at hbefore
      obtain ⟨e₀, he₀, ha₀⟩ := hbefore
      obtain ⟨htime, hstep⟩ := hfollows e₀ he₀
      have hpaid := ih hinit he₀ ha₀ (htime.trans hb)
      calc takenIn a b log + last.taken + last.level
          ≤ takenIn a b log + e₀.level + rate * (last.time - e₀.time) := by linarith
        _ ≤ capacity + rate * (e₀.time - a) + rate * (last.time - e₀.time) := by linarith
        _ = capacity + rate * (last.time - a) := by ring

/-- In any window no more is taken than the capacity and the refill of its length. -/
theorem takenIn_le (h : Conforms capacity rate log) (hcapacity : 0 ≤ capacity) (hrate : 0 ≤ rate)
    (hab : a ≤ b) : takenIn a b log ≤ capacity + rate * (b - a) := by
  have hwindow : 0 ≤ rate * (b - a) := mul_nonneg hrate (sub_nonneg.mpr hab)
  induction log using List.reverseRecOn with
  | nil =>
    rw [takenIn_nil]
    linarith
  | append_singleton log e ih =>
    by_cases hmem : a ≤ e.time ∧ e.time ≤ b
    · have hpaid := takenIn_add_level_le h hrate (e := e) (by simp) hmem.1 hmem.2
      have hlevel := h.level_nonneg e (by simp)
      have hrest : rate * (e.time - a) ≤ rate * (b - a) :=
        mul_le_mul_of_nonneg_left (sub_le_sub_right hmem.2 a) hrate
      linarith
    · rw [takenIn_concat_of_notMem hmem]
      exact ih h.of_concat.1

end TokenBucket
