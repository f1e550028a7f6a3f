import BackendKit.GoStd.Float64
import BackendKit.GoStd.Json
import Mathlib.Data.List.Sort
import Mathlib.Data.String.Basic

/-!
# JSON data in values of type `any`

What `json.Unmarshal` puts into an `any`, and what `json.Marshal` makes of it again. Numbers are read
as `float64`, or kept as they are written (`Decoder.UseNumber`); of a repeated name the last value
counts; names are written in order.

A map is a list of entries, one for each key. `range` may visit them in any order, which may differ
from one loop to the next: `Any.shuffle` puts the entries of every map in the order of a loop.
-/

namespace GoStd

/-- A value of type `any` that is JSON data. -/
inductive Any where
  | nil
  | bool (b : Bool)
  | float64 (f : Float64)
  | int64 (n : ℤ)
  /-- A `json.Number`. -/
  | number (literal : String)
  | string (s : String)
  | slice (elements : List Any)
  | map (entries : List (String × Any))

namespace Any

/-- Assign to a map. -/
def assign (entries : List (String × Any)) (key : String) (value : Any) : List (String × Any) :=
  (entries.filter fun e => e.1 ≠ key) ++ [(key, value)]

mutual

/-- `json.Unmarshal` into an `any`. Only a number can fail, by being too large. -/
def ofJson (useNumber : Bool) : Json → Option Any
  | .null => some .nil
  | .bool b => some (.bool b)
  | .num literal =>
    if useNumber then some (.number literal) else (Float64.parse literal).map .float64
  | .str s => some (.string s)
  | .arr elements => (ofJsonElements useNumber elements).map .slice
  | .obj members => (ofJsonMembers useNumber [] members).map .map

def ofJsonElements (useNumber : Bool) : List Json → Option (List Any)
  | [] => some []
  | j :: js => do
    let v ← ofJson useNumber j
    let vs ← ofJsonElements useNumber js
    return v :: vs

/-- The members are assigned one after the other. -/
def ofJsonMembers (useNumber : Bool) (entries : List (String × Any)) :
    List (String × Json) → Option (List (String × Any))
  | [] => some entries
  | (key, j) :: members => do
    let v ← ofJson useNumber j
    ofJsonMembers useNumber (assign entries key v) members

end

/-- Members in the order of their names. -/
def sortMembers {α : Type} (members : List (String × α)) : List (String × α) :=
  members.insertionSort fun m m' => m.1 ≤ m'.1

mutual

/-- What `json.Marshal` writes, as a tree. -/
def toJson : Any → Json
  | .nil => .null
  | .bool b => .bool b
  | .float64 f => .num f.format
  | .int64 n => .num (toString n)
  | .number literal => .num literal
  | .string s => .str s
  | .slice elements => .arr (toJsonElements elements)
  | .map entries => .obj (sortMembers (toJsonMembers entries))

def toJsonElements : List Any → List Json
  | [] => []
  | v :: vs => toJson v :: toJsonElements vs

def toJsonMembers : List (String × Any) → List (String × Json)
  | [] => []
  | (key, v) :: entries => (key, toJson v) :: toJsonMembers entries

end

/-- The orders in which loops visit maps: a map is told from others by the path to it. -/
structure Ranges where
  visit : List ℕ → List (String × Any) → List (String × Any)
  perm : ∀ path entries, (visit path entries).Perm entries

/-- Every loop goes through the entries as they are listed. -/
def Ranges.inOrder : Ranges where
  visit _ entries := entries
  perm _ _ := List.Perm.refl _

mutual

/-- The value with the entries of its maps in the order in which a loop visits them. -/
def shuffle (ranges : Ranges) (path : List ℕ) : Any → Any
  | .slice elements => .slice (shuffleElements ranges path 0 elements)
  | .map entries => .map (ranges.visit path (shuffleEntries ranges path 0 entries))
  | v => v

def shuffleElements (ranges : Ranges) (path : List ℕ) (i : ℕ) : List Any → List Any
  | [] => []
  | v :: vs => shuffle ranges (i :: path) v :: shuffleElements ranges path (i + 1) vs

def shuffleEntries (ranges : Ranges) (path : List ℕ) (i : ℕ) :
    List (String × Any) → List (String × Any)
  | [] => []
  | (key, v) :: entries =>
    (key, shuffle ranges (i :: path) v) :: shuffleEntries ranges path (i + 1) entries

end

end Any

end GoStd
