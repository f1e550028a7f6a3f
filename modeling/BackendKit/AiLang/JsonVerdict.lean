import BackendKit.AiLang.Validator
import BackendKit.GoStd.AnyTree

/-!
# The verdict on a JSON document

`ValidateText` judges an object or an array by its string values (`validateText_document`). Provided
that no object repeats a name, the verdict depends on the string values and, through the decoder, on the
numbers: a number that does not fit a `float64` makes `json.Unmarshal` fail, no string is collected, and
the document passes whatever language it is in.

* Permuting members and elements at any depth changes neither (`validateText_rearranged`).
* Renaming members and replacing numbers, booleans and nulls changes the numbers only
  (`validateText_sameStrings_iff`).
-/

open GoStd

namespace AiLang

/-! ### String values and numbers of a tree -/

mutual

/-- The string values, in the order of the text. -/
def stringsOf : Json → List String
  | .str s => [s]
  | .arr elements => stringsOfElements elements
  | .obj members => stringsOfMembers members
  | _ => []

def stringsOfElements : List Json → List String
  | [] => []
  | j :: js => stringsOf j ++ stringsOfElements js

def stringsOfMembers : List (String × Json) → List String
  | [] => []
  | (_, j) :: members => stringsOf j ++ stringsOfMembers members

end

mutual

/-- The numbers, as they are written. -/
def literalsOf : Json → List String
  | .num literal => [literal]
  | .arr elements => literalsOfElements elements
  | .obj members => literalsOfMembers members
  | _ => []

def literalsOfElements : List Json → List String
  | [] => []
  | j :: js => literalsOf j ++ literalsOfElements js

def literalsOfMembers : List (String × Json) → List String
  | [] => []
  | (_, j) :: members => literalsOf j ++ literalsOfMembers members

end

mutual

/-- No object repeats a name. -/
def Distinct : Json → Prop
  | .arr elements => DistinctElements elements
  | .obj members => (members.map Prod.fst).Nodup ∧ DistinctMembers members
  | _ => True

def DistinctElements : List Json → Prop
  | [] => True
  | j :: js => Distinct j ∧ DistinctElements js

def DistinctMembers : List (String × Json) → Prop
  | [] => True
  | (_, j) :: members => Distinct j ∧ DistinctMembers members

end

/-- All numbers fit a `float64`. -/
def InRange (literals : List String) : Bool := literals.all fun literal => (Float64.parse literal).isSome

theorem inRange_append (literals literals' : List String) :
    InRange (literals ++ literals') = (InRange literals && InRange literals') := List.all_append

theorem inRange_perm {literals literals' : List String} (h : literals.Perm literals') :
    InRange literals = InRange literals' := by
  rw [Bool.eq_iff_iff, InRange, InRange, List.all_eq_true, List.all_eq_true]
  exact ⟨fun hall l hl => hall l (h.mem_iff.mpr hl), fun hall l hl => hall l (h.mem_iff.mp hl)⟩

mutual

/-- A tree is decoded if and only if its numbers are in range. -/
theorem isSome_ofJson (j : Json) : (Any.ofJson false j).isSome = InRange (literalsOf j) := by
  cases j with
  | num literal => simp [Any.ofJson, literalsOf, InRange]
  | arr elements =>
    rw [Any.ofJson, Option.isSome_map]
    exact isSome_ofJsonElements elements
  | obj members =>
    rw [Any.ofJson, Option.isSome_map]
    exact isSome_ofJsonMembers [] members
  | _ => rfl

theorem isSome_ofJsonElements (js : List Json) :
    (Any.ofJsonElements false js).isSome = InRange (literalsOfElements js) := by
  cases js with
  | nil => rfl
  | cons j js =>
    rw [Any.ofJsonElements, literalsOfElements, inRange_append, ← isSome_ofJson j,
      ← isSome_ofJsonElements js]
    cases Any.ofJson false j with
    | none => rfl
    | some v => cases Any.ofJsonElements false js <;> rfl

theorem isSome_ofJsonMembers (entries : List (String × Any)) (ms : List (String × Json)) :
    (Any.ofJsonMembers false entries ms).isSome = InRange (literalsOfMembers ms) := by
  cases ms with
  | nil => rfl
  | cons m ms =>
    rw [Any.ofJsonMembers, literalsOfMembers, inRange_append, ← isSome_ofJson m.2]
    cases Any.ofJson false m.2 with
    | none => rfl
    | some v => exact isSome_ofJsonMembers (Any.assign entries m.1 v) ms

end

theorem leavesEntries_append (entries entries' : List (String × Any)) :
    leavesEntries (entries ++ entries') = leavesEntries entries ++ leavesEntries entries' := by
  induction entries with
  | nil => rfl
  | cons e entries ih => rw [List.cons_append, leavesEntries, leavesEntries, ih, List.append_assoc]

mutual

/-- The strings of what has been decoded are those of the text. -/
theorem leaves_of_ofJson {j : Json} {v : Any} (hdistinct : Distinct j)
    (h : Any.ofJson false j = some v) : leaves v = stringsOf j := by
  cases j with
  | arr elements =>
    obtain ⟨vs, hvs, rfl⟩ := Option.map_eq_some_iff.mp h
    exact leaves_of_ofJsonElements hdistinct hvs
  | obj members =>
    obtain ⟨entries, hentries, rfl⟩ := Option.map_eq_some_iff.mp h
    exact leaves_of_ofJsonMembers hdistinct.1 hdistinct.2 (by simp) hentries
  | num literal =>
    obtain ⟨f, -, rfl⟩ := Option.map_eq_some_iff.mp h
    rfl
  | _ =>
    cases h
    rfl

theorem leaves_of_ofJsonElements {js : List Json} {vs : List Any} (hdistinct : DistinctElements js)
    (h : Any.ofJsonElements false js = some vs) : leavesElements vs = stringsOfElements js := by
  cases js with
  | nil =>
    cases h
    rfl
  | cons j js =>
    obtain ⟨v, hv, h⟩ := Option.bind_eq_some_iff.mp h
    obtain ⟨vs', hvs, h⟩ := Option.bind_eq_some_iff.mp h
    cases h
    rw [leavesElements, stringsOfElements, leaves_of_ofJson hdistinct.1 hv,
      leaves_of_ofJsonElements hdistinct.2 hvs]

/-- The entries are added in the order of the text, since no name is assigned twice. -/
theorem leaves_of_ofJsonMembers {entries entries' : List (String × Any)} {ms : List (String × Json)}
    (hnodup : (ms.map Prod.fst).Nodup) (hdistinct : DistinctMembers ms)
    (hfresh : ∀ key ∈ ms.map Prod.fst, key ∉ entries.map Prod.fst)
    (h : Any.ofJsonMembers false entries ms = some entries') :
    leavesEntries entries' = leavesEntries entries ++ stringsOfMembers ms := by
  cases ms with
  | nil =>
    cases h
    exact (List.append_nil _).symm
  | cons m ms =>
    obtain ⟨v, hv, h⟩ := Option.bind_eq_some_iff.mp h
    rw [List.map_cons, List.nodup_cons] at hnodup
    rw [Any.assign_of_not_mem (hfresh m.1 (by simp))] at h
    have hfresh' : ∀ key ∈ ms.map Prod.fst, key ∉ (entries ++ [(m.1, v)]).map Prod.fst := by
      intro key hkey hmem
      rw [List.map_append, List.mem_append] at hmem
      rcases hmem with hmem | hmem
      · exact hfresh key (by simp [hkey]) hmem
      · rw [List.map_cons, List.map_nil, List.mem_singleton] at hmem
        exact hnodup.1 (hmem ▸ hkey)
    rw [leaves_of_ofJsonMembers hnodup.2 hdistinct.2 hfresh' h, leavesEntries_append, leavesEntries,
      leavesEntries, leaves_of_ofJson hdistinct.1 hv, stringsOfMembers, List.append_nil,
      List.append_assoc]

end

/-! ### The verdict -/

/-- An object or an array passes if it cannot be decoded; otherwise its strings are judged. -/
theorem validateText_document (u : Unicode) (ranges : Any.Ranges) {text : String} {j : Json}
    (hparse : JsonText.parse text = some j) (hj : JsonText.IsContainer j) (hdistinct : Distinct j)
    (locale : String) :
    validateText u ranges text locale = (!InRange (literalsOf j) || judge u locale (stringsOf j)) := by
  obtain ⟨cs, hreads, htrim⟩ := JsonText.exists_reads_of_parse hparse
  have hparse' := JsonText.parse_trimSpace hparse
  have htrim' : trimSpace (trimSpace text) = String.ofList cs := by
    rw [htrim]
    have h := hreads.trimSpace_eq JsonText.blank_nil JsonText.blank_nil
    rwa [List.nil_append, List.append_nil] at h
  have hjson : looksLikeJSON (trimSpace text) = true := by
    have hvalid : JsonText.valid (trimSpace (trimSpace text)) = true := by
      rw [htrim', ← htrim, JsonText.valid, hparse']
      rfl
    unfold looksLikeJSON
    rw [hvalid, htrim', String.toList_ofList]
    obtain ⟨c, cs', rfl | rfl⟩ := hreads.container hj
    · rfl
    · rfl
  have hne : trimSpace text ≠ "" := by
    intro hempty
    obtain ⟨c, cs', rfl, -, -⟩ := hreads.head
    rw [htrim] at hempty
    simpa using congrArg String.toList hempty
  unfold validateText
  dsimp only
  rw [if_neg hne, if_pos hjson, judge_collectJSONStrings, hparse', Option.bind_some]
  have hsome := isSome_ofJson j
  cases hdecoded : Any.ofJson false j with
  | none =>
    rw [hdecoded] at hsome
    rw [← hsome]
    rfl
  | some v =>
    rw [hdecoded] at hsome
    rw [← hsome, Option.elim_some, leaves_of_ofJson hdistinct hdecoded, Option.isSome_some,
      Bool.not_true, Bool.false_or]

/-! ### Permuted documents -/

mutual

/-- Members of objects and elements of arrays are permuted, at any depth: first within each of them, then
among themselves. -/
def Rearranged : Json → Json → Prop
  | .arr js, .arr js' => ∃ inner, RearrangedElements js inner ∧ inner.Perm js'
  | .obj ms, .obj ms' => ∃ inner, RearrangedMembers ms inner ∧ inner.Perm ms'
  | j, j' => j = j'

def RearrangedElements : List Json → List Json → Prop
  | [], [] => True
  | j :: js, j' :: js' => Rearranged j j' ∧ RearrangedElements js js'
  | _, _ => False

def RearrangedMembers : List (String × Json) → List (String × Json) → Prop
  | [], [] => True
  | (key, j) :: ms, (key', j') :: ms' => key = key' ∧ Rearranged j j' ∧ RearrangedMembers ms ms'
  | _, _ => False

end

/-- What a permutation of the elements does to a list made of all of them. -/
theorem perm_of_cons_append {α β : Type} {f : List α → List β} {g : α → List β}
    (hnil : f [] = []) (hcons : ∀ a as, f (a :: as) = g a ++ f as) {as as' : List α}
    (h : as.Perm as') : (f as).Perm (f as') := by
  have hflat : ∀ as, f as = as.flatMap g := by
    intro as
    induction as with
    | nil => exact hnil
    | cons a as ih => rw [hcons, ih, List.flatMap_cons]
  rw [hflat, hflat]
  exact h.flatMap_right _

theorem distinctElements_iff {js : List Json} : DistinctElements js ↔ ∀ j ∈ js, Distinct j := by
  induction js with
  | nil => simp [DistinctElements]
  | cons j js ih => simp [DistinctElements, ih]

theorem distinctMembers_iff {ms : List (String × Json)} :
    DistinctMembers ms ↔ ∀ m ∈ ms, Distinct m.2 := by
  induction ms with
  | nil => simp [DistinctMembers]
  | cons m ms ih => simp [DistinctMembers, ih]

mutual

/-- The same strings and numbers, in another order, and still no name twice. -/
theorem Rearranged.perm {j j' : Json} (h : Rearranged j j') :
    (stringsOf j).Perm (stringsOf j') ∧ (literalsOf j).Perm (literalsOf j') ∧
      (Distinct j → Distinct j') := by
  have hsame : j = j' → (stringsOf j).Perm (stringsOf j') ∧ (literalsOf j).Perm (literalsOf j') ∧
      (Distinct j → Distinct j') := by
    rintro rfl
    exact ⟨.refl _, .refl _, id⟩
  cases j with
  | arr js =>
    cases j' with
    | arr js' =>
      obtain ⟨inner, hinner, hperm⟩ := h
      obtain ⟨hstrings, hliterals, hdistinct⟩ := RearrangedElements.perm hinner
      refine ⟨hstrings.trans (perm_of_cons_append rfl (fun _ _ => rfl) hperm),
        hliterals.trans (perm_of_cons_append rfl (fun _ _ => rfl) hperm), ?_⟩
      intro hd
      exact distinctElements_iff.mpr fun j hj =>
        distinctElements_iff.mp (hdistinct hd) j (hperm.mem_iff.mpr hj)
    | _ => exact hsame h
  | obj ms =>
    cases j' with
    | obj ms' =>
      obtain ⟨inner, hinner, hperm⟩ := h
      obtain ⟨hstrings, hliterals, hkeys, hdistinct⟩ := RearrangedMembers.perm hinner
      refine ⟨hstrings.trans (perm_of_cons_append rfl (fun _ _ => rfl) hperm),
        hliterals.trans (perm_of_cons_append rfl (fun _ _ => rfl) hperm), ?_⟩
      rintro ⟨hnodup, hd⟩
      refine ⟨(hperm.map Prod.fst).nodup_iff.mp (hkeys ▸ hnodup), ?_⟩
      exact distinctMembers_iff.mpr fun m hm =>
        distinctMembers_iff.mp (hdistinct hd) m (hperm.mem_iff.mpr hm)
    | _ => exact hsame h
  | _ => cases j' <;> exact hsame h

theorem RearrangedElements.perm {js js' : List Json} (h : RearrangedElements js js') :
    (stringsOfElements js).Perm (stringsOfElements js') ∧
      (literalsOfElements js).Perm (literalsOfElements js') ∧
      (DistinctElements js → DistinctElements js') := by
  cases js with
  | nil =>
    cases js' with
    | nil => exact ⟨.refl _, .refl _, id⟩
    | cons j' js' => exact h.elim
  | cons j js =>
    cases js' with
    | nil => exact h.elim
    | cons j' js' =>
      obtain ⟨hstrings, hliterals, hdistinct⟩ := Rearranged.perm h.1
      obtain ⟨hstrings', hliterals', hdistinct'⟩ := RearrangedElements.perm h.2
      exact ⟨hstrings.append hstrings', hliterals.append hliterals',
        fun hd => ⟨hdistinct hd.1, hdistinct' hd.2⟩⟩

theorem RearrangedMembers.perm {ms ms' : List (String × Json)} (h : RearrangedMembers ms ms') :
    (stringsOfMembers ms).Perm (stringsOfMembers ms') ∧
      (literalsOfMembers ms).Perm (literalsOfMembers ms') ∧
      ms.map Prod.fst = ms'.map Prod.fst ∧ (DistinctMembers ms → DistinctMembers ms') := by
  cases ms with
  | nil =>
    cases ms' with
    | nil => exact ⟨.refl _, .refl _, rfl, id⟩
    | cons m' ms' => exact h.elim
  | cons m ms =>
    cases ms' with
    | nil => exact h.elim
    | cons m' ms' =>
      obtain ⟨hkey, hvalue, hrest⟩ := h
      obtain ⟨hstrings, hliterals, hdistinct⟩ := Rearranged.perm hvalue
      obtain ⟨hstrings', hliterals', hkeys, hdistinct'⟩ := RearrangedMembers.perm hrest
      refine ⟨hstrings.append hstrings', hliterals.append hliterals', ?_,
        fun hd => ⟨hdistinct hd.1, hdistinct' hd.2⟩⟩
      rw [List.map_cons, List.map_cons, hkeys, hkey]

end

theorem Rearranged.isContainer {j j' : Json} (h : Rearranged j j') (hj : JsonText.IsContainer j) :
    JsonText.IsContainer j' := by
  cases j with
  | arr js => cases j' with
    | arr js' => trivial
    | _ => cases h
  | obj ms => cases j' with
    | obj ms' => trivial
    | _ => cases h
  | _ => exact hj.elim

/-- The words that are judged are those of each string value, in the order of the loops. -/
theorem tokenize_collectJSONStrings (u : Unicode) (ranges : Any.Ranges) {text : String} {j : Json}
    {v : Any} (hparse : JsonText.parse text = some j) (hv : Any.ofJson false j = some v) :
    tokenize u (collectJSONStrings ranges (trimSpace text)) =
      (leaves (v.shuffle ranges [])).flatMap (tokenize u) := by
  unfold collectJSONStrings
  rw [JsonText.parse_trimSpace hparse, Option.bind_some, hv]
  dsimp only
  rw [gatherStrings_eq, tokenize_spaced]

/-- Permuting a document does not change the verdict, whatever the orders of the loops; and the words of
its string values are kept apart. -/
theorem validateText_rearranged (u : Unicode) (ranges ranges' : Any.Ranges) (text text' : String)
    (j j' : Json) (hparse : JsonText.parse text = some j) (hparse' : JsonText.parse text' = some j')
    (hj : JsonText.IsContainer j) (hdistinct : Distinct j) (h : Rearranged j j') (locale : String) :
    validateText u ranges text locale = validateText u ranges' text' locale ∧
      ∀ v, Any.ofJson false j = some v →
        tokenize u (collectJSONStrings ranges (trimSpace text)) =
            (leaves (v.shuffle ranges [])).flatMap (tokenize u) ∧
          (leaves (v.shuffle ranges [])).Perm (stringsOf j) := by
  obtain ⟨hstrings, hliterals, hdistinct'⟩ := h.perm
  constructor
  · rw [validateText_document u ranges hparse hj hdistinct,
      validateText_document u ranges' hparse' (h.isContainer hj) (hdistinct' hdistinct),
      inRange_perm hliterals, judge_perm u hstrings]
  · intro v hv
    refine ⟨tokenize_collectJSONStrings u ranges hparse hv, ?_⟩
    rw [← leaves_of_ofJson hdistinct hv]
    exact perm_leaves_shuffle ranges [] v

/-- A document with two strings and a number, with a parameter for the number. -/
def sampleDocument (literal : String) : Json :=
  .obj [("summary", .str "The plan is on track."), ("scores", .arr [.num literal, .str "low"])]

/-- The same document in another order. -/
def sampleReordered : Json :=
  .obj [("scores", .arr [.str "low", .num "7"]), ("summary", .str "The plan is on track.")]

theorem proper_sampleDocument {literal : String} (h : JsonText.IsLiteral literal) :
    JsonText.Proper (sampleDocument literal) :=
  ⟨trivial, ⟨h, trivial, trivial⟩, trivial⟩

theorem distinct_sampleDocument (literal : String) : Distinct (sampleDocument literal) :=
  ⟨show ["summary", "scores"].Nodup by decide, trivial, ⟨trivial, trivial, trivial⟩, trivial⟩

theorem validateText_rearranged_sample :
    validateText .ascii .inOrder (JsonText.render (sampleDocument "7")) "fr" =
      validateText .ascii .inOrder (JsonText.render sampleReordered) "fr" := by
  have hrearranged : Rearranged (sampleDocument "7") sampleReordered := by
    refine ⟨[("summary", .str "The plan is on track."), ("scores", .arr [.str "low", .num "7"])],
      ⟨rfl, rfl, rfl, ?_, trivial⟩, .swap _ _ _⟩
    exact ⟨[.num "7", .str "low"], ⟨rfl, rfl, trivial⟩, .swap _ _ _⟩
  have hliteral : JsonText.IsLiteral "7" := rfl
  have hproper : JsonText.Proper sampleReordered := ⟨⟨trivial, hliteral, trivial⟩, trivial, trivial⟩
  exact (validateText_rearranged .ascii .inOrder .inOrder _ _ _ _
    (JsonText.parse_render (proper_sampleDocument hliteral)) (JsonText.parse_render hproper) trivial
    (distinct_sampleDocument "7") hrearranged "fr").1

/-! ### Documents with the same strings -/

/-- A number, a boolean or null. -/
def IsPlain : Json → Prop
  | .null | .bool _ | .num _ => True
  | _ => False

mutual

/-- The same strings in the same places: members may have other names, and a number, a boolean or a null
may be any other one. -/
def SameStrings : Json → Json → Prop
  | .str s, .str s' => s = s'
  | .arr js, .arr js' => SameStringsElements js js'
  | .obj ms, .obj ms' => SameStringsMembers ms ms'
  | j, j' => IsPlain j ∧ IsPlain j'

def SameStringsElements : List Json → List Json → Prop
  | [], [] => True
  | j :: js, j' :: js' => SameStrings j j' ∧ SameStringsElements js js'
  | _, _ => False

def SameStringsMembers : List (String × Json) → List (String × Json) → Prop
  | [], [] => True
  | (_, j) :: ms, (_, j') :: ms' => SameStrings j j' ∧ SameStringsMembers ms ms'
  | _, _ => False

end

theorem stringsOf_of_isPlain {j : Json} (h : IsPlain j) : stringsOf j = [] := by
  cases j with
  | null => rfl
  | bool b => rfl
  | num literal => rfl
  | _ => exact h.elim

mutual

theorem SameStrings.stringsOf_eq {j j' : Json} (h : SameStrings j j') : stringsOf j = stringsOf j' := by
  have hplain : IsPlain j ∧ IsPlain j' → stringsOf j = stringsOf j' := by
    rintro ⟨hj, hj'⟩
    rw [stringsOf_of_isPlain hj, stringsOf_of_isPlain hj']
  cases j with
  | str s => cases j' with
    | str s' =>
      obtain rfl : s = s' := h
      rfl
    | _ => exact hplain h
  | arr js => cases j' with
    | arr js' => exact SameStringsElements.stringsOf_eq h
    | _ => exact hplain h
  | obj ms => cases j' with
    | obj ms' => exact SameStringsMembers.stringsOf_eq h
    | _ => exact hplain h
  | _ => cases j' <;> exact hplain h

theorem SameStringsElements.stringsOf_eq {js js' : List Json} (h : SameStringsElements js js') :
    stringsOfElements js = stringsOfElements js' := by
  cases js with
  | nil => cases js' with
    | nil => rfl
    | cons j' js' => exact h.elim
  | cons j js => cases js' with
    | nil => exact h.elim
    | cons j' js' =>
      rw [stringsOfElements, stringsOfElements, SameStrings.stringsOf_eq h.1,
        SameStringsElements.stringsOf_eq h.2]

theorem SameStringsMembers.stringsOf_eq {ms ms' : List (String × Json)}
    (h : SameStringsMembers ms ms') : stringsOfMembers ms = stringsOfMembers ms' := by
  cases ms with
  | nil => cases ms' with
    | nil => rfl
    | cons m' ms' => exact h.elim
  | cons m ms => cases ms' with
    | nil => exact h.elim
    | cons m' ms' =>
      rw [stringsOfMembers, stringsOfMembers, SameStrings.stringsOf_eq h.1,
        SameStringsMembers.stringsOf_eq h.2]

end

theorem SameStrings.isContainer {j j' : Json} (h : SameStrings j j')
    (hj : JsonText.IsContainer j) : JsonText.IsContainer j' := by
  cases j with
  | arr js => cases j' with
    | arr js' => trivial
    | _ => exact h.1.elim
  | obj ms => cases j' with
    | obj ms' => trivial
    | _ => exact h.1.elim
  | _ => exact hj.elim

/-- Two documents with the same strings get the same verdict if and only if both can be decoded, or
neither can, or the strings pass. -/
theorem validateText_sameStrings_iff (u : Unicode) (ranges ranges' : Any.Ranges) (text text' : String)
    (j j' : Json) (hparse : JsonText.parse text = some j) (hparse' : JsonText.parse text' = some j')
    (hj : JsonText.IsContainer j) (hdistinct : Distinct j) (hdistinct' : Distinct j')
    (h : SameStrings j j') (locale : String) :
    validateText u ranges text locale = validateText u ranges' text' locale ↔
      InRange (literalsOf j) = InRange (literalsOf j') ∨ judge u locale (stringsOf j) = true := by
  rw [validateText_document u ranges hparse hj hdistinct,
    validateText_document u ranges' hparse' (h.isContainer hj) hdistinct', h.stringsOf_eq]
  cases InRange (literalsOf j) <;> cases InRange (literalsOf j') <;>
    cases judge u locale (stringsOf j') <;> simp

theorem sameStrings_sampleDocument (literal literal' : String) :
    SameStrings (sampleDocument literal) (sampleDocument literal') :=
  ⟨rfl, ⟨⟨trivial, trivial⟩, rfl, trivial⟩, trivial⟩

theorem validateText_sameStrings_sample :
    InRange (literalsOf (sampleDocument "7")) = InRange (literalsOf (sampleDocument "-0.5")) ∧
      validateText .ascii .inOrder (JsonText.render (sampleDocument "7")) "fr" =
        validateText .ascii .inOrder (JsonText.render (sampleDocument "-0.5")) "fr" := by
  have hliteral : JsonText.IsLiteral "7" := rfl
  have hliteral' : JsonText.IsLiteral "-0.5" := rfl
  have hrange : InRange (literalsOf (sampleDocument "7")) =
      InRange (literalsOf (sampleDocument "-0.5")) := by decide +kernel
  refine ⟨hrange, ?_⟩
  exact (validateText_sameStrings_iff .ascii .inOrder .inOrder _ _ _ _
    (JsonText.parse_render (proper_sampleDocument hliteral))
    (JsonText.parse_render (proper_sampleDocument hliteral')) trivial (distinct_sampleDocument "7")
    (distinct_sampleDocument "-0.5") (sameStrings_sampleDocument "7" "-0.5") "fr").mpr (.inl hrange)

/-- A document in English is refused for French; with a number that does not fit a `float64` in the place
of another one it passes. -/
theorem validateText_number_out_of_range :
    SameStrings (sampleDocument "7") (sampleDocument "1e999") ∧
      Distinct (sampleDocument "7") ∧ Distinct (sampleDocument "1e999") ∧
      validateText .ascii .inOrder (JsonText.render (sampleDocument "7")) "fr" = false ∧
      validateText .ascii .inOrder (JsonText.render (sampleDocument "1e999")) "fr" = true := by
  refine ⟨sameStrings_sampleDocument _ _, distinct_sampleDocument _, distinct_sampleDocument _, ?_, ?_⟩
  · decide +kernel
  · decide +kernel

end AiLang
