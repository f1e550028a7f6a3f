import BackendKit.GoStd.Reader

/-!
# Body limits

`BodyLimit` (`httpware/bodylimit.go`) puts a `MaxBytesReader` around the body of a request. Each layer
wraps the body that the layer outside of it has wrapped already, so the smallest limit of a stack
governs, wherever it stands (`readAll_behind_eq_iff`). The comment on `BodyLimit` has it that a limit
of a route overrides the global one; it does so downwards only (`innermost_governs_iff`).
-/

open GoStd

namespace HttpWare

/-- What a handler makes of the body of a request. -/
abbrev BodyHandler (α : Type) := Reader → α

/-- `BodyLimit`. -/
def bodyLimit {α : Type} (maxBytes : ℤ) (next : BodyHandler α) : BodyHandler α :=
  fun body => next (body.maxBytesReader maxBytes)

/-- A handler behind a stack of limits, the outermost first. -/
def behind {α : Type} (limits : List ℤ) (handler : BodyHandler α) : BodyHandler α :=
  limits.foldr bodyLimit handler

/-- The outermost limit is the innermost reader. -/
theorem behind_apply {α : Type} (limits : List ℤ) (handler : BodyHandler α) (body : Reader) :
    behind limits handler body = handler (limits.foldl Reader.maxBytesReader body) := by
  induction limits generalizing body with
  | nil => rfl
  | cons n limits ih => exact ih (body.maxBytesReader n)

/-- Reading through a stack of limits comes to the end of the content exactly if all limits allow
it. -/
theorem content_foldl_eq_iff (limits : List ℤ) (r : Reader) (data : Bytes) :
    (limits.foldl Reader.maxBytesReader r).content = (data, .eof) ↔
      r.content = (data, .eof) ∧ ∀ n ∈ limits, data.length ≤ n.toNat := by
  induction limits generalizing r with
  | nil => simp
  | cons n limits ih =>
    rw [List.foldl_cons, ih, List.forall_mem_cons, ← and_assoc]
    refine and_congr_left fun _ => ?_
    by_cases hfits : r.content.1.length ≤ n.toNat
    · rw [Reader.content_maxBytesReader_of_le hfits]
      refine ⟨fun h => ⟨h, ?_⟩, And.left⟩
      rwa [h] at hfits
    · -- this layer cuts the content off, and no later one hides that
      rw [Reader.content_maxBytesReader_of_lt (Nat.not_le.mp hfits)]
      constructor
      · intro h
        cases congrArg Prod.snd h
      · rintro ⟨h, hle⟩
        rw [h] at hfits
        exact absurd hle hfits

/-- A handler behind a stack of limits reads the whole body exactly if every limit allows it. -/
theorem readAll_behind_eq_iff (limits : List ℤ) (sizes : ℕ → ℕ+) (data : Bytes)
    (arrivals : List ℕ+) (eager : Bool) :
    (∃ fuel, behind limits (Reader.readAll sizes fuel) (.body data arrivals eager) =
        (data, some .eof)) ↔
      ∀ n ∈ limits, data.length ≤ n.toNat := by
  simp only [behind_apply]
  rw [Reader.exists_readAll_eq_iff, content_foldl_eq_iff, Reader.content, and_iff_right rfl]

/-- For every stack of limits, every body and every way of reading it: the innermost limit governs
exactly if a body within it is within all the other limits too. -/
theorem innermost_governs_iff (outer : List ℤ) (inner : ℤ) (houter : ∀ n ∈ outer, 0 ≤ n)
    (hinner : 0 ≤ inner) (sizes : ℕ → ℕ+) (data : Bytes) (arrivals : List ℕ+) (eager : Bool) :
    ((∃ fuel, behind (outer ++ [inner]) (Reader.readAll sizes fuel) (.body data arrivals eager) =
        (data, some .eof)) ↔ (data.length : ℤ) ≤ inner) ↔
      ((data.length : ℤ) ≤ inner → ∀ n ∈ outer, (data.length : ℤ) ≤ n) := by
  have hallows : ∀ n : ℤ, 0 ≤ n → (data.length ≤ n.toNat ↔ (data.length : ℤ) ≤ n) := by
    intro n hn
    omega
  have hall : (∀ n ∈ outer ++ [inner], data.length ≤ n.toNat) ↔
      (∀ n ∈ outer, (data.length : ℤ) ≤ n) ∧ (data.length : ℤ) ≤ inner := by
    rw [List.forall_mem_append, List.forall_mem_singleton, hallows inner hinner]
    exact and_congr_left fun _ => forall₂_congr fun n hn => hallows n (houter n hn)
  rw [readAll_behind_eq_iff, hall]
  constructor
  · intro hgoverns hle
    exact (hgoverns.mpr hle).1
  · intro himplies
    exact ⟨And.right, fun hle => ⟨himplies hle, hle⟩⟩

/-- A route with a smaller limit of its own. -/
theorem innermost_governs_iff_lowered :
    ((∃ fuel, behind ([4] ++ [2]) (Reader.readAll (fun _ => 512) fuel)
        (.body (ascii "abc") [1] false) = (ascii "abc", some .eof)) ↔
          ((ascii "abc").length : ℤ) ≤ 2) ↔
      (((ascii "abc").length : ℤ) ≤ 2 → ∀ n ∈ [(4 : ℤ)], ((ascii "abc").length : ℤ) ≤ n) :=
  innermost_governs_iff [4] 2 (by decide) (by decide) _ _ _ _

/-- A route cannot raise the global limit: three bytes do not get through a limit of two, although
the route allows four. -/
theorem not_readAll_behind_raised :
    ((ascii "abc").length : ℤ) ≤ 4 ∧
      ¬∃ fuel, behind [2, 4] (Reader.readAll (fun _ => 512) fuel) (.body (ascii "abc") [] false) =
        (ascii "abc", some .eof) := by
  refine ⟨by decide, ?_⟩
  rw [readAll_behind_eq_iff]
  decide

end HttpWare
