import Mathlib.Data.Nat.Notation

/-!
# Computations that append to a log

A computation with a state `σ` that contains a log. `StateLog.Appends log p m` says that `m` leaves
what is in the log, and that everything it appends satisfies `p`. The rules follow the way a
computation is built: return, sequence, and a step that does not touch the log.
-/

namespace StateLog

variable {σ α β ι : Type} {log : σ → List ι} {p : ι → Prop}

/-- Only entries that satisfy `p` are appended to the log. -/
def Appends (log : σ → List ι) (p : ι → Prop) (m : StateM σ α) : Prop :=
  ∀ s, ∃ new, log (m.run s).run.2 = log s ++ new ∧ ∀ x ∈ new, p x

namespace Appends

/-- A step that leaves the log alone. -/
theorem of_eq {m : StateM σ α} (h : ∀ s, log (m.run s).run.2 = log s) : Appends log p m := by
  intro s
  refine ⟨[], ?_, fun _ hx => nomatch hx⟩
  rw [h s, List.append_nil]

theorem pure (a : α) : Appends log p (pure a : StateM σ α) :=
  of_eq fun _ => rfl

theorem bind {m : StateM σ α} {next : α → StateM σ β} (hm : Appends log p m)
    (hnext : ∀ a, Appends log p (next a)) : Appends log p (m >>= next) := by
  intro s
  obtain ⟨new, hlog, hnew⟩ := hm s
  obtain ⟨new', hlog', hnew'⟩ := hnext (m.run s).run.1 (m.run s).run.2
  refine ⟨new ++ new', ?_, ?_⟩
  · rw [← List.append_assoc, ← hlog, ← hlog']
    rfl
  · intro x hx
    rcases List.mem_append.mp hx with h | h
    · exact hnew x h
    · exact hnew' x h

end Appends

end StateLog
