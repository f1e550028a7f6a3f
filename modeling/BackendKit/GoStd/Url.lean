import BackendKit.GoStd.Net
import Mathlib.Data.Option.Basic

/-!
# Escaping in URLs

The parts of `net/url` that work on the text of a URL: `url.PathEscape`, `url.QueryUnescape` and
the values of a query string. Texts are byte strings, because an escape may stand for any byte.

`removeDots` is the removal of dot segments of RFC 3986 (section 5.2.4), on the segments of an
absolute path; servers and proxies apply it to the path of a request.
-/

namespace GoStd.Url

/-! ### Escapes -/

/-- The bytes that no escaping touches (RFC 3986, section 2.3). -/
def isUnreserved (b : UInt8) : Bool :=
  (0x61 ≤ b && b ≤ 0x7a) || (0x41 ≤ b && b ≤ 0x5a) || (0x30 ≤ b && b ≤ 0x39) ||
    (ascii "-_.~").contains b

/-- `shouldEscape` for a segment of a path. -/
def shouldEscapeSegment (b : UInt8) : Bool :=
  !isUnreserved b && !(ascii "$&+=:@").contains b

/-- The digit of a number below 16 (`upperhex`). -/
def upperHex (n : ℕ) : UInt8 := .ofNat (if n < 10 then 0x30 + n else 0x41 + (n - 10))

/-- The value of a hexadecimal digit (`ishex`, `unhex`). -/
def unhex? (b : UInt8) : Option ℕ :=
  if 0x30 ≤ b ∧ b ≤ 0x39 then some (b.toNat - 0x30)
  else if 0x61 ≤ b ∧ b ≤ 0x66 then some (b.toNat - 0x61 + 10)
  else if 0x41 ≤ b ∧ b ≤ 0x46 then some (b.toNat - 0x41 + 10)
  else none

def percent : UInt8 := 0x25

def slash : UInt8 := 0x2f

/-- One byte of a segment, escaped if need be. -/
def escapeByte (b : UInt8) : Bytes :=
  if shouldEscapeSegment b then [percent, upperHex (b.toNat / 16), upperHex (b.toNat % 16)]
  else [b]

/-- `url.PathEscape`. -/
def pathEscape (s : Bytes) : Bytes := s.flatMap escapeByte

/-- `unescape`: every `%` needs its two digits. In a query a `+` stands for a space. -/
def unescape (query : Bool) : Bytes → Option Bytes
  | [] => some []
  | b :: rest =>
    if b = percent then
      match rest with
      | high :: low :: rest => do
        let high ← unhex? high
        let low ← unhex? low
        let s ← unescape query rest
        return .ofNat (high * 16 + low) :: s
      | _ => none
    else (unescape query rest).map ((if query ∧ b = 0x2b then 0x20 else b) :: ·)

/-- `url.PathUnescape`. -/
def pathUnescape (s : Bytes) : Option Bytes := unescape false s

/-- `url.QueryUnescape`. -/
def queryUnescape (s : Bytes) : Option Bytes := unescape true s

theorem unescape_cons_of_ne {b : UInt8} (hne : b ≠ percent) (query : Bool) (rest : Bytes) :
    unescape query (b :: rest) =
      (unescape query rest).map ((if query ∧ b = 0x2b then 0x20 else b) :: ·) := by
  rw [unescape.eq_def]
  simp only [if_neg hne]

theorem unhex?_upperHex : ∀ n < 16, unhex? (upperHex n) = some n := by decide

/-- A digit is neither a slash nor a dot. -/
theorem upperHex_ne : ∀ n < 16, upperHex n ≠ slash ∧ upperHex n ≠ 0x2e := by decide

/-- An escaped byte is read back. -/
theorem pathUnescape_escapeByte_append (b : UInt8) (rest : Bytes) :
    pathUnescape (escapeByte b ++ rest) = (pathUnescape rest).map (b :: ·) := by
  have hlt := b.toNat_lt
  unfold pathUnescape escapeByte
  split
  · have hhigh := unhex?_upperHex (b.toNat / 16) (by omega)
    have hlow := unhex?_upperHex (b.toNat % 16) (by omega)
    have hbyte : UInt8.ofNat (b.toNat / 16 * 16 + b.toNat % 16) = b := by
      rw [Nat.div_add_mod', UInt8.ofNat_toNat]
    simp only [List.cons_append, List.nil_append, unescape, if_pos, hhigh, hlow, hbyte,
      Option.bind_eq_bind, Option.bind_some, Option.pure_def]
    cases unescape false rest <;> rfl
  · -- a percent sign would have been escaped
    rename_i hplain
    have hne : b ≠ percent := by
      rintro rfl
      exact hplain (by decide)
    rw [List.singleton_append, unescape_cons_of_ne hne]
    simp

/-- An escaped segment is read back. -/
theorem pathUnescape_pathEscape (s : Bytes) : pathUnescape (pathEscape s) = some s := by
  induction s with
  | nil => rfl
  | cons b s ih =>
    rw [pathEscape, List.flatMap_cons, pathUnescape_escapeByte_append]
    exact congrArg (Option.map (b :: ·)) ih

/-- No escaped segment has a slash in it. -/
theorem slash_notMem_pathEscape (s : Bytes) : slash ∉ pathEscape s := by
  intro hmem
  obtain ⟨b, -, hb⟩ := List.mem_flatMap.mp hmem
  have hlt := b.toNat_lt
  unfold escapeByte at hb
  split at hb
  · rcases List.mem_cons.mp hb with h | hb
    · exact absurd h (by decide)
    rcases List.mem_cons.mp hb with h | hb
    · exact (upperHex_ne _ (by omega)).1 h.symm
    · exact (upperHex_ne _ (by omega)).1 (List.mem_singleton.mp hb).symm
  · rename_i hplain
    rw [List.mem_singleton] at hb
    subst hb
    exact hplain (by decide)

/-- Different segments are escaped differently. -/
theorem pathEscape_inj {s t : Bytes} : pathEscape s = pathEscape t ↔ s = t := by
  constructor
  · intro h
    have hread := pathUnescape_pathEscape s
    rw [h, pathUnescape_pathEscape, Option.some.injEq] at hread
    exact hread.symm
  · rintro rfl
    rfl

/-! ### Dot segments -/

/-- A segment that stands for its own directory. -/
def dot : Bytes := ascii "."

/-- A segment that stands for the directory above. -/
def dotDot : Bytes := ascii ".."

/-- The segments of an absolute path, behind its first slash, without the dot segments; `out` is
what is there of the path, its last segment first. A dot segment at the end leaves an empty segment
there, the trailing slash. -/
def removeDotsFrom (out : List Bytes) : List Bytes → List Bytes
  | [] => out.reverse
  | s :: rest =>
    let out := if s = dot then out else if s = dotDot then out.tail else s :: out
    if rest = [] ∧ (s = dot ∨ s = dotDot) then ([] :: out).reverse else removeDotsFrom out rest

/-- Remove the dot segments of an absolute path. -/
def removeDots (segments : List Bytes) : List Bytes := removeDotsFrom [] segments

theorem removeDotsFrom_of_forall {segments : List Bytes}
    (h : ∀ s ∈ segments, s ≠ dot ∧ s ≠ dotDot) (out : List Bytes) :
    removeDotsFrom out segments = out.reverse ++ segments := by
  induction segments generalizing out with
  | nil => rw [removeDotsFrom, List.append_nil]
  | cons s rest ih =>
    obtain ⟨hs, hrest⟩ := List.forall_mem_cons.mp h
    have hnot : ¬(rest = [] ∧ (s = dot ∨ s = dotDot)) := fun hdots => by
      rcases hdots.2 with hdot | hdot
      · exact hs.1 hdot
      · exact hs.2 hdot
    rw [removeDotsFrom]
    simp only [if_neg hs.1, if_neg hs.2, if_neg hnot]
    rw [ih hrest, List.reverse_cons, List.append_assoc, List.singleton_append]

/-- A path without dot segments stays as it is. -/
theorem removeDots_of_forall {segments : List Bytes} (h : ∀ s ∈ segments, s ≠ dot ∧ s ≠ dotDot) :
    removeDots segments = segments := by
  rw [removeDots, removeDotsFrom_of_forall h]
  exact List.nil_append _

example : removeDots [ascii "a", ascii "..", ascii "b", ascii "."] = [ascii "b", []] := by
  decide +kernel

/-- What a server makes of the text of an absolute path: cut at the slashes, the dot segments
removed, the escapes resolved. -/
def pathSegments (path : Bytes) : Option (List Bytes) :=
  match List.splitOn slash path with
  | [] :: segments => (removeDots segments).mapM pathUnescape
  | _ => none

/-! ### Query strings -/

/-- The halves of a text around the first `sep` (`strings.Cut`). -/
def cutAt (sep : UInt8) (s : Bytes) : Bytes × Bytes :=
  (s.takeWhile (· ≠ sep), (s.dropWhile (· ≠ sep)).drop 1)

/-- A part of a query string between two `&`; parts that do not parse are left out. -/
def queryPart (part : Bytes) : Option (Bytes × Bytes) :=
  if part.contains 0x3b then none
  else if part = [] then none
  else do
    let (key, value) := cutAt 0x3d part
    let key ← queryUnescape key
    let value ← queryUnescape value
    return (key, value)

/-- `url.ParseQuery`: the values in their order. Its limit on the number of parameters is not
modelled. -/
def parseQuery (query : Bytes) : List (Bytes × Bytes) :=
  (List.splitOn 0x26 query).filterMap queryPart

/-- `Values.Get`: the first value of a name, or the empty string. -/
def queryGet (query name : Bytes) : Bytes := ((parseQuery query).lookup name).getD []

/-- `url.QueryEscape`. -/
def queryEscape (s : Bytes) : Bytes :=
  s.flatMap fun b =>
    if b = 0x20 then [0x2b]
    else if isUnreserved b then [b]
    else [percent, upperHex (b.toNat / 16), upperHex (b.toNat % 16)]

/-- `Values.Encode`, for names in order with one value each. -/
def encodeValues (values : List (Bytes × Bytes)) : Bytes :=
  [0x26].intercalate (values.map fun v => queryEscape v.1 ++ 0x3d :: queryEscape v.2)

example : queryGet (ascii "a=1;b&page=%32+&page=3") (ascii "page") = ascii "2 " := by
  decide +kernel

end GoStd.Url
