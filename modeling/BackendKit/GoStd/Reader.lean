import BackendKit.GoStd.Net
import Mathlib.Data.PNat.Notation
import Mathlib.Data.PNat.Basic

/-!
# Reading a request body

`io.Reader` for the body of a request, and `http.MaxBytesReader` around it. A `Reader` is the state of
such a reader and `Reader.read` is its `Read`.

How much a read yields depends on the network and on the buffer that is passed in. What the reads
yield altogether does not: it is `Reader.content`, and `readAll_eq` says so for a loop that reads to
the end.
-/

namespace GoStd

/-- How reading ends. -/
inductive ReadError where
  /-- `io.EOF`. -/
  | eof
  /-- `http.MaxBytesError`, with the limit. -/
  | tooLarge (limit : ℕ)
  deriving DecidableEq, Repr

/-- A body, in some number of `MaxBytesReader`s. -/
inductive Reader where
  /-- The body itself: what is left of it, how many bytes the network delivers with the next reads,
  and whether the end is reported together with the last bytes. -/
  | body (data : Bytes) (arrivals : List ℕ+) (eager : Bool)
  /-- A `maxBytesReader`: its limit, how much of it is left, and the error it has returned. -/
  | limited (r : Reader) (limit left : ℕ) (err : Option ReadError)

namespace Reader

/-- `http.MaxBytesReader`. A negative limit counts as zero. -/
def maxBytesReader (r : Reader) (n : ℤ) : Reader := .limited r n.toNat n.toNat none

/-- `Read` with a buffer of the given size. -/
def read : Reader → ℕ → (Bytes × Option ReadError) × Reader
  | .body data arrivals eager, size =>
    if data = [] then (([], some .eof), .body [] arrivals eager)
    else
      let arrived := (arrivals.head?.map PNat.val).getD data.length
      let n := min size arrived
      let err := if data.length ≤ n ∧ eager then some .eof else none
      ((data.take n, err), .body (data.drop n) arrivals.tail eager)
  | .limited r limit left (some err), _ => (([], some err), .limited r limit left (some err))
  | .limited r limit left none, size =>
    if size = 0 then (([], none), .limited r limit left none)
    else
      -- one byte more than allowed shows that the limit is passed
      let ((bytes, err), r) := r.read (min size (left + 1))
      if bytes.length ≤ left then ((bytes, err), .limited r limit (left - bytes.length) err)
      else
        ((bytes.take left, some (.tooLarge limit)), .limited r limit 0 (some (.tooLarge limit)))

/-- What the reads will yield altogether, and how they will end. -/
def content : Reader → Bytes × ReadError
  | .body data _ _ => (data, .eof)
  | .limited _ _ _ (some err) => ([], err)
  | .limited r limit left none =>
    if r.content.1.length ≤ left then r.content else (r.content.1.take left, .tooLarge limit)

/-- What one read leaves of the content: without an error it takes some bytes from its front, with an
error it takes the rest. -/
def Advances (before : Bytes × ReadError) (result : Bytes × Option ReadError)
    (after : Bytes × ReadError) : Prop :=
  match result.2 with
  | none => result.1 ≠ [] ∧ before = (result.1 ++ after.1, after.2)
  | some err => before = (result.1, err)

/-- One read advances in the content. -/
theorem advances_read (r : Reader) {size : ℕ} (hsize : 0 < size) :
    Advances r.content (r.read size).1 (r.read size).2.content := by
  induction r generalizing size with
  | body data arrivals eager =>
    by_cases hdata : data = []
    · subst hdata
      simp [read, content, Advances]
    have hlength : 0 < data.length := List.length_pos_iff.mpr hdata
    -- at least one byte has arrived
    have harrived : 0 < (arrivals.head?.map PNat.val).getD data.length := by
      cases arrivals with
      | nil => exact hlength
      | cons n arrivals => exact n.pos
    simp only [read, if_neg hdata, content, Advances]
    generalize (arrivals.head?.map PNat.val).getD data.length = arrived at harrived
    by_cases hend : data.length ≤ min size arrived ∧ eager = true
    · rw [if_pos hend]
      simp only
      rw [List.take_of_length_le hend.1]
    · rw [if_neg hend]
      simp only [List.take_append_drop, and_true]
      have hpos : 0 < min size arrived := Nat.lt_min.mpr ⟨hsize, harrived⟩
      apply List.ne_nil_of_length_pos
      rw [List.length_take]
      exact Nat.lt_min.mpr ⟨hpos, hlength⟩
  | limited r limit left err ih =>
    cases err with
    | some err => simp [read, content, Advances]
    | none =>
      have hinner := ih (Nat.lt_min.mpr ⟨hsize, left.succ_pos⟩)
      simp only [read, if_neg hsize.ne']
      generalize r.read (min size (left + 1)) = result at hinner
      obtain ⟨⟨bytes, err⟩, r'⟩ := result
      simp only
      by_cases hfits : bytes.length ≤ left
      · rw [if_pos hfits]
        cases err with
        | none =>
          obtain ⟨hne, hcontent⟩ := hinner
          refine ⟨hne, ?_⟩
          simp only [content, hcontent, List.length_append]
          by_cases hrest : r'.content.1.length ≤ left - bytes.length
          · rw [if_pos hrest, if_pos (by omega)]
          · rw [if_neg hrest, if_neg (by omega), List.take_append, List.take_of_length_le hfits]
        | some err =>
          have hcontent : r.content = (bytes, err) := hinner
          show content _ = (bytes, err)
          rw [content, hcontent]
          exact if_pos hfits
      · -- more came in than is left of the limit
        rw [if_neg hfits]
        show content _ = (bytes.take left, .tooLarge limit)
        cases err with
        | none =>
          obtain ⟨-, hcontent⟩ := hinner
          simp only [content, hcontent, List.length_append]
          rw [if_neg (by omega), List.take_append_of_le_length (by omega)]
        | some err =>
          have hcontent : r.content = (bytes, err) := hinner
          rw [content, hcontent]
          exact if_neg hfits

/-- Read until an error comes, with buffers of the given sizes; `none` stands for more reads to come. -/
def readAll (sizes : ℕ → ℕ+) : ℕ → Reader → Bytes × Option ReadError
  | 0, _ => ([], none)
  | fuel + 1, r =>
    match (r.read (sizes 0)).1 with
    | (bytes, some err) => (bytes, some err)
    | (bytes, none) =>
      let rest := readAll (fun i => sizes (i + 1)) fuel (r.read (sizes 0)).2
      (bytes ++ rest.1, rest.2)

/-- Reading to the end yields the content, whatever the buffers and the network: every read but the
last takes a byte at least. -/
theorem readAll_eq (sizes : ℕ → ℕ+) {fuel : ℕ} (r : Reader) (hfuel : r.content.1.length < fuel) :
    readAll sizes fuel r = (r.content.1, some r.content.2) := by
  induction fuel generalizing sizes r with
  | zero => exact absurd hfuel (Nat.not_lt_zero _)
  | succ fuel ih =>
    have hstep := r.advances_read (sizes 0).pos
    unfold readAll
    generalize r.read (sizes 0) = result at hstep
    obtain ⟨⟨bytes, err⟩, r'⟩ := result
    cases err with
    | some err =>
      have hcontent : r.content = (bytes, err) := hstep
      rw [hcontent]
    | none =>
      obtain ⟨hne, hcontent⟩ : bytes ≠ [] ∧ r.content = (bytes ++ r'.content.1, r'.content.2) := hstep
      have hpos : 0 < bytes.length := List.length_pos_iff.mpr hne
      rw [hcontent, List.length_append] at hfuel
      simp only [ih _ r' (by omega), hcontent]

/-- An end that the loop has come to is the end of the content. -/
theorem content_eq_of_readAll {sizes : ℕ → ℕ+} {fuel : ℕ} {r : Reader} {data : Bytes}
    {err : ReadError} (h : readAll sizes fuel r = (data, some err)) : r.content = (data, err) := by
  induction fuel generalizing sizes r data with
  | zero => cases h
  | succ fuel ih =>
    have hstep := r.advances_read (sizes 0).pos
    unfold readAll at h
    generalize r.read (sizes 0) = result at hstep h
    obtain ⟨⟨bytes, err'⟩, r'⟩ := result
    cases err' with
    | some err' =>
      cases h
      exact hstep
    | none =>
      obtain ⟨-, hcontent⟩ : bytes ≠ [] ∧ r.content = (bytes ++ r'.content.1, r'.content.2) := hstep
      obtain ⟨rfl, herr⟩ := Prod.mk.inj h
      have hrest := ih (Prod.ext rfl herr)
      rw [hcontent, hrest]

/-- The loop comes to an end, and what it has read by then is the content. -/
theorem exists_readAll_eq_iff {sizes : ℕ → ℕ+} {r : Reader} {data : Bytes} {err : ReadError} :
    (∃ fuel, readAll sizes fuel r = (data, some err)) ↔ r.content = (data, err) := by
  constructor
  · rintro ⟨fuel, h⟩
    exact content_eq_of_readAll h
  · intro h
    refine ⟨data.length + 1, ?_⟩
    rw [readAll_eq sizes r (by rw [h]; exact Nat.lt_succ_self _), h]

/-- A limit that the content does not reach changes nothing. -/
theorem content_maxBytesReader_of_le {r : Reader} {n : ℤ} (h : r.content.1.length ≤ n.toNat) :
    (r.maxBytesReader n).content = r.content := by
  rw [maxBytesReader, content]
  exact if_pos h

/-- A limit that the content passes cuts it off. -/
theorem content_maxBytesReader_of_lt {r : Reader} {n : ℤ} (h : n.toNat < r.content.1.length) :
    (r.maxBytesReader n).content = (r.content.1.take n.toNat, .tooLarge n.toNat) := by
  rw [maxBytesReader, content]
  exact if_neg (Nat.not_le.mpr h)

end Reader

end GoStd
