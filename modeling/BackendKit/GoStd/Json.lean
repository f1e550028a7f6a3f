import BackendKit.GoStd.Strings
import Mathlib.Algebra.Group.Int.Defs
import Mathlib.Data.Int.Notation
import Mathlib.Data.List.AList

/-!
# Decoding JSON into Go values

What `json.Unmarshal` makes of a JSON value, by the Go type it is decoded into. Reading the text
is not part of this: a value here is a tree with the members of an object in the order of the
text, repeated names included, and with numbers as they are written.

Three rules of `encoding/json` matter to a program that checks what it has decoded:

* a name of an object matches a struct field whatever its case (`matchesField`);
* of several matching members each is decoded in turn, so the last one wins (`decodeField`);
* `null` leaves a string or a number as it was, and empties a pointer, a map or a slice.
-/

namespace GoStd

/-- A JSON value. -/
inductive Json where
  | null
  | bool (b : Bool)
  | num (literal : String)
  | str (s : String)
  | arr (elements : List Json)
  | obj (members : List (String × Json))

namespace Json

/-- The members of an object that a test of their names selects, in order. -/
def select (p : String → Bool) (members : List (String × Json)) : List Json :=
  (members.filter fun m => p m.1).map (·.2)

/-- The value that a Go map has for a key: of a repeated name, the last. -/
def lookupLast (name : String) (members : List (String × Json)) : Option Json :=
  (select (· = name) members).getLast?

/-! ### Struct fields -/

/-- Case folding of the characters that can be folded into ASCII: the capital letters, the long
s and the Kelvin sign. -/
def foldChar (c : Char) : Char :=
  if c.toNat = 0x17f then 's' else if c.toNat = 0x212a then 'k' else c.toLower

/-- The name of an object member matches the name of a struct field. -/
def matchesField (field name : String) : Bool :=
  name.toList.map foldChar == field.toList.map foldChar

/-- Decode a struct field of type `α`: `into` decodes a value over the one that is there. -/
def decodeField {α : Type} (into : α → Json → Option α) (zero : α) (field : String)
    (members : List (String × Json)) : Option α :=
  (select (matchesField field) members).foldlM into zero

/-- A field of type `json.RawMessage`: the last value, `null` included. -/
def rawField (field : String) (members : List (String × Json)) : Option Json :=
  (select (matchesField field) members).getLast?

/-! ### Values -/

/-- Decode into a `string`. -/
def intoString (old : String) : Json → Option String
  | .str s => some s
  | .null => some old
  | _ => none

/-- `strconv.ParseInt(literal, 10, 64)`: fractions, exponents and what does not fit are errors. -/
def parseInt64 (literal : String) : Option Int64 :=
  let value : Option ℤ :=
    match literal.toList with
    | '-' :: ds => (digits? ds).map fun n => -(n : ℤ)
    | ds => (digits? ds).map fun n => (n : ℤ)
  (value.filter fun i => -2 ^ 63 ≤ i ∧ i < 2 ^ 63).map Int64.ofInt

/-- Decode into an `int64` (or an `int` of that size). -/
def intoInt64 (old : Int64) : Json → Option Int64
  | .num literal => parseInt64 literal
  | .null => some old
  | _ => none

/-- Decode into a `[]string`, where `none` is the nil slice. The elements of the old slice are
decoded over, so a `null` leaves the old element. -/
def intoStrings (old : Option (List String)) : Json → Option (Option (List String))
  | .arr vs =>
    (vs.zipIdx.mapM fun (v : Json × ℕ) => v.1.intoString ((old.getD [])[v.2]?.getD "")).map some
  | .null => some none
  | _ => none

/-- A Go `map[string]string`; the nil map counts as the empty one. -/
abbrev StringMap := AList fun _ : String => String

/-- Decode into a `map[string]string`: the entries are added to those that are there. -/
def intoStringMap (old : StringMap) : Json → Option StringMap
  | .obj members =>
    members.foldlM (fun map m => (m.2.intoString "").map fun s => map.insert m.1 s) old
  | .null => some ∅
  | _ => none

example : decodeField intoString "" "tenant_id" [("Tenant_ID", .str "a"), ("tenant_id", .null)] =
    some "a" := by
  decide +kernel

end Json

end GoStd
