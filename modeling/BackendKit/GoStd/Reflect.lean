import BackendKit.GoStd.AnyTree

/-!
# Writing and comparing JSON data

`json.Marshal` on a value of type `any`, `json.Unmarshal` with its error ignored, and
`reflect.DeepEqual`. Values that are written as the same text are equal after they were read again
(`deepEqual_self`). Trees of JSON can be compared as well, which is how a given text is known to be read
as a given tree (`JsonText.parse_of_readsAs`).
-/

namespace GoStd

namespace JsonText

mutual

def decidableProper : (j : Json) → Decidable (Proper j)
  | .null => isTrue trivial
  | .bool _ => isTrue trivial
  | .num literal => inferInstanceAs (Decidable (scanNumber literal.toList = some (literal.toList, [])))
  | .str _ => isTrue trivial
  | .arr elements => decidableProperElements elements
  | .obj members => decidableProperMembers members

def decidableProperElements : (js : List Json) → Decidable (ProperElements js)
  | [] => isTrue trivial
  | j :: js => @instDecidableAnd _ _ (decidableProper j) (decidableProperElements js)

def decidableProperMembers : (ms : List (String × Json)) → Decidable (ProperMembers ms)
  | [] => isTrue trivial
  | (_, j) :: ms => @instDecidableAnd _ _ (decidableProper j) (decidableProperMembers ms)

end

instance : DecidablePred Proper := decidableProper

end JsonText

namespace Json

mutual

/-- Compare two trees. -/
def same : Json → Json → Bool
  | .null, .null => true
  | .bool b, .bool b' => b = b'
  | .num literal, .num literal' => literal = literal'
  | .str s, .str s' => s = s'
  | .arr js, .arr js' => sameElements js js'
  | .obj ms, .obj ms' => sameMembers ms ms'
  | _, _ => false

def sameElements : List Json → List Json → Bool
  | [], [] => true
  | j :: js, j' :: js' => same j j' && sameElements js js'
  | _, _ => false

def sameMembers : List (String × Json) → List (String × Json) → Bool
  | [], [] => true
  | (name, j) :: ms, (name', j') :: ms' => name = name' && same j j' && sameMembers ms ms'
  | _, _ => false

end

mutual

theorem eq_of_same {j j' : Json} (h : same j j' = true) : j = j' := by
  cases j with
  | arr js =>
    cases j' with
    | arr js' => exact congrArg Json.arr (eq_of_sameElements h)
    | _ => cases h
  | obj ms =>
    cases j' with
    | obj ms' => exact congrArg Json.obj (eq_of_sameMembers h)
    | _ => cases h
  | _ =>
    cases j' with
    | null | bool | num | str => first | rfl | cases h | simpa [same] using h
    | _ => cases h

theorem eq_of_sameElements {js js' : List Json} (h : sameElements js js' = true) : js = js' := by
  cases js with
  | nil =>
    cases js' with
    | nil => rfl
    | cons => cases h
  | cons j js =>
    cases js' with
    | nil => cases h
    | cons j' js' =>
      obtain ⟨hhead, htail⟩ := Bool.and_eq_true_iff.mp h
      rw [eq_of_same hhead, eq_of_sameElements htail]

theorem eq_of_sameMembers {ms ms' : List (String × Json)} (h : sameMembers ms ms' = true) :
    ms = ms' := by
  cases ms with
  | nil =>
    cases ms' with
    | nil => rfl
    | cons => cases h
  | cons m ms =>
    cases ms' with
    | nil => cases h
    | cons m' ms' =>
      obtain ⟨hhead, htail⟩ := Bool.and_eq_true_iff.mp h
      obtain ⟨hname, hvalue⟩ := Bool.and_eq_true_iff.mp hhead
      have hvalue' := eq_of_same hvalue
      rw [Prod.ext (of_decide_eq_true hname) hvalue', eq_of_sameMembers htail]

end

end Json

namespace JsonText

/-- A text is read as a tree, to be found out by computation. The fuel is that of `parse`, evaluated. -/
def readsAs (fuel : ℕ) (cs : List Char) (tree : Json) : Bool :=
  (value fuel (skip cs)).any fun r => r.1.same tree && skip r.2 = []

theorem parse_of_readsAs (n : ℕ) {cs : List Char} {tree : Json} (hfuel : 2 * cs.length + 1 = n)
    (h : readsAs n cs tree = true) : parse (String.ofList cs) = some tree := by
  obtain ⟨⟨j, rest⟩, hvalue, hr⟩ := (Option.any_eq_true _ _).mp h
  obtain ⟨hsame, hrest⟩ := Bool.and_eq_true_iff.mp hr
  have hrest' : skip rest = [] := of_decide_eq_true hrest
  have hj : j = tree := Json.eq_of_same hsame
  rw [parse, String.toList_ofList, hfuel, hvalue]
  simp only [hrest', if_true, hj]

end JsonText

namespace Any

/-- `json.Marshal`. It refuses a `json.Number` that is not a literal. -/
def marshal (v : Any) : Option String :=
  if JsonText.Proper v.toJson then some (JsonText.render v.toJson) else none

theorem marshal_of_plain {v : Any} (h : Plain v) : marshal v = some (JsonText.render v.toJson) :=
  if_pos (proper_toJson v h.distinctKeys h.written)

theorem marshal_reread (v : Any) : marshal (reread v) = marshal v := by
  rw [marshal, marshal, toJson_reread]

mutual

/-- The tree with `null` for every number that is too large: such a number is an error of
`json.Unmarshal`, and leaves a `nil` behind. -/
def withoutLarge : Json → Json
  | .num literal => if (Float64.parse literal).isSome then .num literal else .null
  | .arr elements => .arr (withoutLargeElements elements)
  | .obj members => .obj (withoutLargeMembers members)
  | j => j

def withoutLargeElements : List Json → List Json
  | [] => []
  | j :: js => withoutLarge j :: withoutLargeElements js

def withoutLargeMembers : List (String × Json) → List (String × Json)
  | [] => []
  | (name, j) :: members => (name, withoutLarge j) :: withoutLargeMembers members

end

/-- What is in an `any` after `json.Unmarshal`, with or without an error. -/
def unmarshal (text : String) : Any :=
  ((JsonText.parse text).bind fun j => ofJson false (withoutLarge j)).getD .nil

theorem distinctKeys_unmarshal (text : String) : DistinctKeys (unmarshal text) := by
  unfold unmarshal
  cases h : (JsonText.parse text).bind fun j => ofJson false (withoutLarge j) with
  | none => exact allHeads_leaf (fun _ => rfl) trivial
  | some v =>
    obtain ⟨j, -, hj⟩ := Option.bind_eq_some_iff.mp h
    exact distinctKeys_of_ofJson hj

mutual

/-- `reflect.DeepEqual`. -/
def deepEqual : Any → Any → Bool
  | .nil, .nil => true
  | .bool b, .bool b' => b = b'
  | .float64 f, .float64 f' => f.value = f'.value
  | .int64 n, .int64 n' => n = n'
  | .number literal, .number literal' => literal = literal'
  | .string s, .string s' => s = s'
  | .slice vs, .slice ws => deepEqualElements vs ws
  | .map entries, .map others => entries.length = others.length && deepEqualEntries entries others
  | _, _ => false

def deepEqualElements : List Any → List Any → Bool
  | [], [] => true
  | v :: vs, w :: ws => deepEqual v w && deepEqualElements vs ws
  | _, _ => false

/-- Every entry is found in the other map. -/
def deepEqualEntries : List (String × Any) → List (String × Any) → Bool
  | [], _ => true
  | (key, v) :: entries, others =>
    (match lookup others key with
      | some w => deepEqual v w
      | none => false) && deepEqualEntries entries others

end

theorem deepEqualElements_self {vs : List Any} (h : ∀ v ∈ vs, deepEqual v v = true) :
    deepEqualElements vs vs = true := by
  induction vs with
  | nil => rfl
  | cons v vs ih =>
    obtain ⟨hv, hvs⟩ := List.forall_mem_cons.mp h
    rw [deepEqualElements, hv, ih hvs]
    rfl

theorem deepEqualEntries_of_lookup {entries others : List (String × Any)}
    (h : ∀ e ∈ entries, lookup others e.1 = some e.2 ∧ deepEqual e.2 e.2 = true) :
    deepEqualEntries entries others = true := by
  induction entries with
  | nil => rfl
  | cons e entries ih =>
    obtain ⟨⟨hlookup, he⟩, hentries⟩ := List.forall_mem_cons.mp h
    rw [deepEqualEntries, hlookup, ih hentries, Bool.and_true]
    exact he

/-- A value is equal to itself: there are no functions in it, and no NaN. -/
theorem deepEqual_self (v : Any) (h : DistinctKeys v) : deepEqual v v = true := by
  induction v using Any.induct with
  | slice elements ih => exact deepEqualElements_self fun v hv => ih v hv (h.element hv)
  | map entries ih =>
    have hentries : deepEqualEntries entries entries = true :=
      deepEqualEntries_of_lookup fun e he =>
        ⟨(lookup_eq_some h.nodup).mpr he, ih e he (h.entry he)⟩
    rw [deepEqual, hentries]
    simp
  | nil => rfl
  | _ => simp [deepEqual]

end Any

end GoStd
