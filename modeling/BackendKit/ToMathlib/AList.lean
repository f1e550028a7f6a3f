import Mathlib.Data.List.AList

/-!
# Association lists as bounded maps

Filtering an `AList`, and the number of its entries: what a program needs that keeps a map
bounded and now and then drops the entries that are out of date.
-/

universe u v

namespace AList

variable {α : Type u} {β : α → Type v}

/-- The entries that `p` accepts. -/
def filter (p : (a : α) → β a → Bool) (s : AList β) : AList β where
  entries := s.entries.filter fun e => p e.1 e.2
  nodupKeys := s.nodupKeys.sublist List.filter_sublist

theorem length_filter_le (p : (a : α) → β a → Bool) (s : AList β) :
    (s.filter p).entries.length ≤ s.entries.length :=
  List.length_filter_le _ _

variable [DecidableEq α]

@[simp]
theorem lookup_filter (p : (a : α) → β a → Bool) (s : AList β) (a : α) :
    (s.filter p).lookup a = (s.lookup a).filter (p a) := by
  ext b
  rw [Option.mem_def.symm, mem_lookup_iff, Option.filter_eq_some_iff, Option.mem_def.symm,
    mem_lookup_iff]
  exact List.mem_filter

variable {s : AList β} {a : α}

/-- Two maps with the same lookups have the same number of entries. -/
theorem length_eq_of_lookup_eq {t : AList β} (h : ∀ a, s.lookup a = t.lookup a) :
    s.entries.length = t.entries.length := by
  apply List.Perm.length_eq
  apply List.lookup_ext s.nodupKeys t.nodupKeys
  intro a b
  show b ∈ s.lookup a ↔ b ∈ t.lookup a
  rw [h a]

/-- An entry that `p` does not accept makes the filtered map smaller. -/
theorem length_filter_lt {p : (a : α) → β a → Bool} {b : β a} (h : s.lookup a = some b)
    (hp : p a b = false) :
    (s.filter p).entries.length < s.entries.length := by
  rw [filter, List.length_filter_lt_length_iff_exists]
  exact ⟨⟨a, b⟩, mem_lookup_iff.mp h, by simp [hp]⟩

variable (q : α → Bool) (b : β a)

theorem length_insert_of_notMem (h : a ∉ s) :
    (s.insert a b).entries.length = s.entries.length + 1 := by
  rw [entries_insert_of_notMem h, List.length_cons]

theorem length_insert_of_mem (h : a ∈ s) : (s.insert a b).entries.length = s.entries.length := by
  have hkeys : ∀ t : AList β, t.entries.length = t.keys.length := fun t => by simp [keys, List.keys]
  have hpos : 0 < s.keys.length := List.length_pos_of_mem (mem_keys.mp h)
  rw [hkeys, hkeys, keys_insert, List.length_cons, List.length_erase_of_mem (mem_keys.mp h)]
  omega

/-! ### Counting keys -/

theorem countP_keys_insert_of_mem (h : a ∈ s) : (s.insert a b).keys.countP q = s.keys.countP q := by
  rw [keys_insert]
  exact (List.perm_cons_erase (mem_keys.mp h)).symm.countP_eq q

theorem countP_keys_insert_of_notMem (h : a ∉ s) :
    (s.insert a b).keys.countP q = s.keys.countP q + if q a then 1 else 0 := by
  rw [keys_insert, List.erase_of_not_mem fun hmem => h (mem_keys.mpr hmem), List.countP_cons]

omit [DecidableEq α] in
/-- The keys that are left and those that are dropped are all keys. -/
theorem countP_keys_filter (p : (a : α) → β a → Bool) (s : AList β) :
    (s.filter p).keys.countP q + s.entries.countP (fun e => !p e.1 e.2 && q e.1) =
      s.keys.countP q := by
  have hkeys : ∀ t : AList β, t.keys.countP q = t.entries.countP fun e => q e.1 := fun t => by
    rw [keys, List.keys, List.countP_map]
    rfl
  have hsplit := List.countP_eq_countP_filter_add s.entries (fun e : Sigma β => q e.1)
    (fun e => p e.1 e.2)
  have hdropped : s.entries.countP (fun e => !p e.1 e.2 && q e.1) =
      (s.entries.filter fun e => !p e.1 e.2).countP fun e => q e.1 := by
    rw [List.countP_filter]
    congr 1
    funext e
    rw [Bool.and_comm]
  rw [hkeys, hkeys, hdropped, hsplit]
  simp [filter]

theorem length_erase_of_mem (h : a ∈ s) : (s.erase a).entries.length + 1 = s.entries.length := by
  have hkeys : ∀ t : AList β, t.entries.length = t.keys.length := fun t => by simp [keys, List.keys]
  have hpos : 0 < s.keys.length := List.length_pos_of_mem (mem_keys.mp h)
  rw [hkeys, hkeys, keys_erase, List.length_erase_of_mem (mem_keys.mp h)]
  omega

theorem length_erase_le (s : AList β) (a : α) :
    (s.erase a).entries.length ≤ s.entries.length :=
  (List.kerase_sublist a s.entries).length_le

end AList
