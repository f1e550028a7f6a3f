import BackendKit.GoStd.NumberText
import Mathlib.Data.Multiset.Basic

/-!
# Positions in a value

A value of type `any` is a tree. `Any.headAt path v` is what stands at a position of it: which kind of
node, with the boolean, the number as it is written, the length of the array or the names of the object.
Two values with the same heads at all positions differ in their strings only, and in the order in which
maps list their entries, which has no meaning.

Programs rebuild a value node by node, and `headAt_of_simulates` is the rule for them: a relation
between values that relates the heads and is inherited by the children relates the heads everywhere.
It is used here for decoding with and without `UseNumber` (`headAt_floats`), for the order in which a
loop visits maps (`headAt_shuffle`) and for what is decoded from a value that was written
(`headAt_reread`).
-/

open Option (bind_eq_some_iff map_eq_some_iff)

namespace GoStd

namespace Any

/-- One step down. -/
inductive Step where
  | key (k : String)
  | index (i : ℕ)
  deriving DecidableEq, Repr

/-- The value of a key. -/
def lookup (entries : List (String × Any)) (k : String) : Option Any :=
  (entries.find? fun e => e.1 = k).map (·.2)

/-- What a step leads to. -/
def child : Any → Step → Option Any
  | .slice elements, .index i => elements[i]?
  | .map entries, .key k => lookup entries k
  | _, _ => none

/-- A node without its children, with numbers in `ν`. -/
inductive Head (ν : Type) where
  | null
  | bool (b : Bool)
  | number (n : ν)
  | string
  | array (length : ℕ)
  | object (keys : Multiset String)
  deriving DecidableEq

/-- Change the number. -/
def Head.map {ν μ : Type} (f : ν → μ) : Head ν → Head μ
  | .null => .null
  | .bool b => .bool b
  | .number n => .number (f n)
  | .string => .string
  | .array length => .array length
  | .object keys => .object keys

@[simp] theorem Head.map_id {ν : Type} (h : Head ν) : h.map id = h := by
  cases h <;> rfl

/-- The node at the root, with a number as `json.Marshal` writes it. -/
def head : Any → Head String
  | .nil => .null
  | .bool b => .bool b
  | .float64 f => .number f.format
  | .int64 n => .number (toString n)
  | .number literal => .number literal
  | .string _ => .string
  | .slice elements => .array elements.length
  | .map entries => .object (entries.map Prod.fst)

/-- The node at a position. -/
def headAt : List Step → Any → Option (Head String)
  | [], v => some v.head
  | step :: path, v => (v.child step).bind (headAt path)

/-- The children of two values are related. -/
def ChildrenRelated (R : Any → Any → Prop) (v w : Any) : Prop :=
  ∀ step, Option.Rel R (v.child step) (w.child step)

variable {R : Any → Any → Prop} {v w : Any} {P : Head String → Prop} {entries : List (String × Any)}

/-- A relation that changes the numbers of the heads by `f`, and is inherited by the children, does so
at every position. -/
theorem headAt_of_simulates {f : String → String} (hhead : ∀ {v w}, R v w → w.head = v.head.map f)
    (hchild : ∀ {v w}, R v w → ChildrenRelated R v w) (h : R v w) (path : List Step) :
    headAt path w = (headAt path v).map (Head.map f) := by
  induction path generalizing v w with
  | nil => exact congrArg some (hhead h)
  | cons step path ih =>
    have hrel := hchild h step
    rw [headAt, headAt]
    generalize v.child step = v' at hrel ⊢
    generalize w.child step = w' at hrel ⊢
    cases hrel with
    | none => rfl
    | some h' => exact ih h'

/-- The same for a relation that leaves the heads alone. -/
theorem headAt_eq_of_simulates (hhead : ∀ {v w}, R v w → w.head = v.head)
    (hchild : ∀ {v w}, R v w → ChildrenRelated R v w) (h : R v w) (path : List Step) :
    headAt path w = headAt path v := by
  rw [headAt_of_simulates (R := R) (f := id) (fun h' => by rw [hhead h', Head.map_id]) hchild h]
  cases headAt path v with
  | none => rfl
  | some node => exact congrArg some node.map_id

/-- Induction over values: a property of arrays and maps may use it of what they hold. -/
@[elab_as_elim]
theorem induct {P : Any → Prop} (nil : P .nil) (bool : ∀ b, P (.bool b)) (float64 : ∀ f, P (.float64 f))
    (int64 : ∀ n, P (.int64 n)) (number : ∀ literal, P (.number literal)) (string : ∀ s, P (.string s))
    (slice : ∀ elements, (∀ v ∈ elements, P v) → P (.slice elements))
    (map : ∀ entries, (∀ e ∈ entries, P e.2) → P (.map entries)) (v : Any) : P v :=
  @Any.rec P (fun elements => ∀ v ∈ elements, P v) (fun entries => ∀ e ∈ entries, P e.2)
    (fun e => P e.2) nil bool float64 int64 number string slice map (fun _ hv => nomatch hv)
    (fun _ _ hv hvs => List.forall_mem_cons.mpr ⟨hv, hvs⟩) (fun _ he => nomatch he)
    (fun _ _ he hentries => List.forall_mem_cons.mpr ⟨he, hentries⟩) (fun _ _ hv => hv) v

/-! ### Looking up entries -/

theorem lookup_map (f : Any → Any) (entries : List (String × Any)) (k : String) :
    lookup (entries.map fun e => (e.1, f e.2)) k = (lookup entries k).map f := by
  have hkey : ((fun e : String × Any => decide (e.1 = k)) ∘ fun e : String × Any => (e.1, f e.2)) =
      fun e : String × Any => decide (e.1 = k) := rfl
  unfold lookup
  rw [List.find?_map, hkey]
  cases entries.find? fun e => decide (e.1 = k) with
  | none => rfl
  | some e => rfl

theorem mem_of_lookup {k : String} (h : lookup entries k = some v) : (k, v) ∈ entries := by
  obtain ⟨⟨k', v'⟩, hfind, rfl⟩ := map_eq_some_iff.mp h
  obtain rfl : k' = k := by simpa using List.find?_some hfind
  exact List.mem_of_find?_eq_some hfind

/-- With distinct keys, an entry is what is found under its key. -/
theorem lookup_eq_some (hnodup : (entries.map Prod.fst).Nodup) {k : String} :
    lookup entries k = some v ↔ (k, v) ∈ entries := by
  refine ⟨mem_of_lookup, fun hmem => ?_⟩
  induction entries with
  | nil => cases hmem
  | cons e entries ih =>
    rw [List.map_cons, List.nodup_cons] at hnodup
    unfold lookup
    rw [List.find?_cons]
    rcases List.mem_cons.mp hmem with rfl | hmem
    · simp
    · have hne : e.1 ≠ k := by
        rintro rfl
        exact hnodup.1 (List.mem_map.mpr ⟨_, hmem, rfl⟩)
      simp only [hne, decide_false]
      exact ih hnodup.2 hmem

theorem lookup_perm {entries' : List (String × Any)} (h : entries.Perm entries')
    (hnodup : (entries.map Prod.fst).Nodup) (k : String) :
    lookup entries k = lookup entries' k := by
  have hnodup' : (entries'.map Prod.fst).Nodup := (h.map Prod.fst).nodup_iff.mp hnodup
  refine Option.ext fun v => ?_
  rw [lookup_eq_some hnodup, lookup_eq_some hnodup', h.mem_iff]

/-! ### Properties of all nodes -/

/-- A property of the nodes at all positions. -/
def AllHeads (P : Head String → Prop) (v : Any) : Prop := ∀ path node, headAt path v = some node → P node

theorem AllHeads.head (h : AllHeads P v) : P v.head := h [] _ rfl

theorem AllHeads.child (h : AllHeads P v) (step : Step) (hw : v.child step = some w) :
    AllHeads P w := by
  intro path node hnode
  refine h (step :: path) node ?_
  rw [headAt, hw]
  exact hnode

theorem AllHeads.congr (h : AllHeads P v) (hheads : ∀ path, headAt path w = headAt path v) :
    AllHeads P w :=
  fun path node hnode => h path node ((hheads path).symm.trans hnode)

theorem AllHeads.element {elements : List Any} (h : AllHeads P (.slice elements))
    (hv : v ∈ elements) : AllHeads P v := by
  obtain ⟨i, hi⟩ := List.getElem?_of_mem hv
  exact h.child (.index i) hi

/-- A value whose root and children have the property. -/
theorem allHeads_of_children (hhead : P v.head)
    (hchild : ∀ step w, v.child step = some w → AllHeads P w) : AllHeads P v := by
  intro path node hnode
  cases path with
  | nil =>
    cases hnode
    exact hhead
  | cons step path =>
    obtain ⟨w, hw, hnode'⟩ := bind_eq_some_iff.mp hnode
    exact hchild step w hw path node hnode'

theorem allHeads_slice {elements : List Any} (hhead : P (.array elements.length))
    (h : ∀ v ∈ elements, AllHeads P v) :
    AllHeads P (.slice elements) := by
  refine allHeads_of_children hhead fun step w hw => ?_
  cases step with
  | key k => cases hw
  | index i => exact h w (List.mem_of_getElem? hw)

theorem allHeads_map (hhead : P (.object (entries.map Prod.fst)))
    (h : ∀ e ∈ entries, AllHeads P e.2) :
    AllHeads P (.map entries) := by
  refine allHeads_of_children hhead fun step w hw => ?_
  cases step with
  | key k => exact h (k, w) (mem_of_lookup hw)
  | index i => cases hw

/-- The names of an object are distinct. -/
def Head.KeysNodup : Head String → Prop
  | .object keys => keys.Nodup
  | _ => True

/-- No map in the value has a key twice. -/
abbrev DistinctKeys (v : Any) : Prop := AllHeads Head.KeysNodup v

theorem AllHeads.nodup (h : DistinctKeys (.map entries)) :
    (entries.map Prod.fst).Nodup :=
  Multiset.coe_nodup.mp h.head

theorem AllHeads.entry (h : DistinctKeys (.map entries)) {e : String × Any} (he : e ∈ entries) :
    DistinctKeys e.2 :=
  h.child (.key e.1) ((lookup_eq_some h.nodup).mpr he)

theorem rel_map_right {f : Any → Any} {x : Option Any} (h : ∀ a, x = some a → R a (f a)) :
    Option.Rel R x (x.map f) := by
  cases x with
  | none => exact .none
  | some a => exact .some (h a rfl)

/-! ### Decoded values -/

/-- A name that is not there yet is added at the end. -/
theorem assign_of_not_mem {key : String} (h : key ∉ entries.map Prod.fst) (v : Any) :
    assign entries key v = entries ++ [(key, v)] := by
  unfold assign
  rw [List.filter_eq_self.mpr]
  intro e he
  exact decide_eq_true fun heq => h (heq ▸ List.mem_map_of_mem he)

theorem mem_assign {key : String} {e : String × Any} (h : e ∈ assign entries key v) :
    e ∈ entries ∨ e = (key, v) := by
  rcases List.mem_append.mp h with h | h
  · exact .inl (List.mem_of_mem_filter h)
  · exact .inr (List.mem_singleton.mp h)

/-- Assigning replaces the entry of a key. -/
theorem nodup_assign (h : (entries.map Prod.fst).Nodup) (key : String) (v : Any) :
    ((assign entries key v).map Prod.fst).Nodup := by
  have hkept : ((entries.filter fun e => e.1 ≠ key).map Prod.fst).Nodup :=
    h.sublist (List.filter_sublist.map Prod.fst)
  unfold assign
  rw [List.map_append, List.nodup_append]
  refine ⟨hkept, List.nodup_singleton key, ?_⟩
  intro a ha b hb
  obtain ⟨e, he, rfl⟩ := List.mem_map.mp ha
  rw [List.mem_singleton.mp hb]
  exact of_decide_eq_true (List.mem_filter.mp he).2

/-- What decoding can make of a node: a number, or a node with distinct keys if it is an object. -/
structure DecodedHeads (useNumber : Bool) (P : Head String → Prop) : Prop where
  number : ∀ literal v, ofJson useNumber (.num literal) = some v → P v.head
  other : ∀ node : Head String, (∀ literal, node ≠ .number literal) → node.KeysNodup → P node

theorem allHeads_leaf (hchild : ∀ step, v.child step = none) (hhead : P v.head) : AllHeads P v :=
  allHeads_of_children hhead fun step _ hw => nomatch (hchild step).symm.trans hw

section Decoded

variable {useNumber : Bool} {P : Head String → Prop}

mutual

/-- A property of decoded nodes holds everywhere in what has been decoded. -/
theorem allHeads_of_ofJson (hP : DecodedHeads useNumber P) {j : Json} {v : Any}
    (h : ofJson useNumber j = some v) : AllHeads P v := by
  cases j with
  | arr elements =>
    obtain ⟨vs, hvs, rfl⟩ := map_eq_some_iff.mp h
    exact allHeads_slice (hP.other _ (fun _ => nofun) trivial) (allHeads_of_ofJsonElements hP hvs)
  | obj members =>
    obtain ⟨entries, hentries, rfl⟩ := map_eq_some_iff.mp h
    have hempty : ∀ e ∈ ([] : List (String × Any)), AllHeads P e.2 := fun e he => nomatch he
    have hnil : (([] : List (String × Any)).map Prod.fst).Nodup := List.nodup_nil
    obtain ⟨hnodup, hall⟩ := allHeads_of_ofJsonMembers hP hnil hempty hentries
    exact allHeads_map (hP.other _ (fun _ => nofun) (Multiset.coe_nodup.mpr hnodup)) hall
  | num literal =>
    refine allHeads_leaf (fun step => ?_) (hP.number literal v h)
    cases useNumber with
    | true =>
      cases h
      rfl
    | false =>
      obtain ⟨f, -, rfl⟩ := map_eq_some_iff.mp h
      rfl
  | _ =>
    cases h
    exact allHeads_leaf (fun _ => rfl) (hP.other _ (fun _ => nofun) trivial)

theorem allHeads_of_ofJsonElements (hP : DecodedHeads useNumber P) {js : List Json} {vs : List Any}
    (h : ofJsonElements useNumber js = some vs) : ∀ v ∈ vs, AllHeads P v := by
  cases js with
  | nil =>
    cases h
    exact fun v hv => nomatch hv
  | cons j js =>
    obtain ⟨v, hv, h⟩ := bind_eq_some_iff.mp h
    obtain ⟨vs', hvs, h⟩ := bind_eq_some_iff.mp h
    cases h
    exact List.forall_mem_cons.mpr
      ⟨allHeads_of_ofJson hP hv, allHeads_of_ofJsonElements hP hvs⟩

theorem allHeads_of_ofJsonMembers (hP : DecodedHeads useNumber P)
    {entries entries' : List (String × Any)} {ms : List (String × Json)}
    (hnodup : (entries.map Prod.fst).Nodup) (hall : ∀ e ∈ entries, AllHeads P e.2)
    (h : ofJsonMembers useNumber entries ms = some entries') :
    (entries'.map Prod.fst).Nodup ∧ ∀ e ∈ entries', AllHeads P e.2 := by
  cases ms with
  | nil =>
    cases h
    exact ⟨hnodup, hall⟩
  | cons m ms =>
    obtain ⟨v, hv, h⟩ := bind_eq_some_iff.mp h
    have hv' := allHeads_of_ofJson hP hv
    refine allHeads_of_ofJsonMembers hP (nodup_assign hnodup m.1 v) (fun e he => ?_) h
    rcases mem_assign he with he | rfl
    · exact hall e he
    · exact hv'

end

end Decoded

/-- What has been decoded has distinct keys. -/
theorem distinctKeys_of_ofJson {useNumber : Bool} {j : Json} {v : Any}
    (h : ofJson useNumber j = some v) : DistinctKeys v := by
  refine allHeads_of_ofJson ⟨fun literal v hv => ?_, fun _ _ hnode => hnode⟩ h
  cases useNumber with
  | true =>
    cases hv
    trivial
  | false =>
    obtain ⟨f, -, rfl⟩ := map_eq_some_iff.mp hv
    trivial

theorem exists_of_ofJsonElements {useNumber : Bool} {js : List Json} {vs : List Any}
    (h : ofJsonElements useNumber js = some vs) : ∀ v ∈ vs, ∃ j, ofJson useNumber j = some v := by
  induction js generalizing vs with
  | nil =>
    cases h
    exact fun v hv => nomatch hv
  | cons j js ih =>
    obtain ⟨v, hv, h⟩ := bind_eq_some_iff.mp h
    obtain ⟨vs', hvs, h⟩ := bind_eq_some_iff.mp h
    cases h
    exact List.forall_mem_cons.mpr ⟨⟨j, hv⟩, ih hvs⟩

theorem exists_of_ofJsonMembers {useNumber : Bool} {ms : List (String × Json)}
    {entries entries' : List (String × Any)} (h : ofJsonMembers useNumber entries ms = some entries') :
    ∀ e ∈ entries', e ∈ entries ∨ ∃ j, ofJson useNumber j = some e.2 := by
  induction ms generalizing entries with
  | nil =>
    cases h
    exact fun e he => .inl he
  | cons m ms ih =>
    obtain ⟨v, hv, h⟩ := bind_eq_some_iff.mp h
    intro e he
    rcases ih h e he with he | he
    · rcases mem_assign he with he | rfl
      · exact .inl he
      · exact .inr ⟨m.2, hv⟩
    · exact .inr he

/-- The value has been decoded, with numbers as `float64`. -/
def Decoded (v : Any) : Prop := ∃ j, ofJson false j = some v

/-- What decoding can make of a node, and of its children. -/
def DecodedNode : Any → Prop
  | .int64 _ => False
  | .number _ => False
  | .slice elements => ∀ v ∈ elements, Decoded v
  | .map entries => ∀ e ∈ entries, Decoded e.2
  | _ => True

theorem Decoded.node {v : Any} (h : Decoded v) : DecodedNode v := by
  obtain ⟨j, hj⟩ := h
  cases j with
  | num literal =>
    obtain ⟨f, -, rfl⟩ := map_eq_some_iff.mp hj
    trivial
  | arr js =>
    obtain ⟨vs, hvs, rfl⟩ := map_eq_some_iff.mp hj
    exact exists_of_ofJsonElements hvs
  | obj ms =>
    obtain ⟨entries, hentries, rfl⟩ := map_eq_some_iff.mp hj
    exact fun e he => (exists_of_ofJsonMembers hentries e he).resolve_left (nomatch ·)
  | _ =>
    cases hj
    trivial

/-! ### Numbers as `float64` -/

mutual

/-- The value with its numbers, as they are written, read as `float64`. -/
def floats : Any → Any
  | .number literal => ((Float64.parse literal).map Any.float64).getD (.number literal)
  | .int64 n => ((Float64.parse (toString n)).map Any.float64).getD (.int64 n)
  | .slice elements => .slice (floatsElements elements)
  | .map entries => .map (floatsEntries entries)
  | v => v

def floatsElements : List Any → List Any
  | [] => []
  | v :: vs => floats v :: floatsElements vs

def floatsEntries : List (String × Any) → List (String × Any)
  | [] => []
  | (key, v) :: entries => (key, floats v) :: floatsEntries entries

end

theorem floatsElements_eq (elements : List Any) : floatsElements elements = elements.map floats := by
  induction elements with
  | nil => rfl
  | cons v vs ih => rw [floatsElements, ih, List.map_cons]

theorem floatsEntries_eq (entries : List (String × Any)) :
    floatsEntries entries = entries.map fun e => (e.1, floats e.2) := by
  induction entries with
  | nil => rfl
  | cons e entries ih => rw [floatsEntries, ih, List.map_cons]

theorem floatsEntries_assign (entries : List (String × Any)) (key : String) (v : Any) :
    floatsEntries (assign entries key v) = assign (floatsEntries entries) key (floats v) := by
  rw [floatsEntries_eq, floatsEntries_eq, assign, assign, List.map_append, List.filter_map]
  rfl

mutual

/-- Without `UseNumber` the same tree is decoded, with its numbers read as `float64`. -/
theorem ofJson_floats {j : Json} {w : Any} (h : ofJson false j = some w) :
    ∃ v, ofJson true j = some v ∧ w = floats v := by
  cases j with
  | arr elements =>
    obtain ⟨ws, hws, rfl⟩ := map_eq_some_iff.mp h
    obtain ⟨vs, hvs, rfl⟩ := ofJsonElements_floats hws
    exact ⟨.slice vs, by rw [ofJson, hvs]; rfl, rfl⟩
  | obj members =>
    obtain ⟨entries, hentries, rfl⟩ := map_eq_some_iff.mp h
    obtain ⟨entries', hentries', rfl⟩ := ofJsonMembers_floats [] hentries
    exact ⟨.map entries', by rw [ofJson, hentries']; rfl, rfl⟩
  | num literal =>
    obtain ⟨f, hf, rfl⟩ := map_eq_some_iff.mp h
    exact ⟨.number literal, rfl, by rw [floats, hf]; rfl⟩
  | _ =>
    cases h
    exact ⟨_, rfl, rfl⟩

theorem ofJsonElements_floats {js : List Json} {ws : List Any} (h : ofJsonElements false js = some ws) :
    ∃ vs, ofJsonElements true js = some vs ∧ ws = floatsElements vs := by
  cases js with
  | nil =>
    cases h
    exact ⟨[], rfl, rfl⟩
  | cons j js =>
    obtain ⟨w, hw, h⟩ := bind_eq_some_iff.mp h
    obtain ⟨ws', hws, h⟩ := bind_eq_some_iff.mp h
    cases h
    obtain ⟨v, hv, rfl⟩ := ofJson_floats hw
    obtain ⟨vs, hvs, rfl⟩ := ofJsonElements_floats hws
    exact ⟨v :: vs, by rw [ofJsonElements, hv, hvs]; rfl, rfl⟩

theorem ofJsonMembers_floats (entries : List (String × Any)) {entries' : List (String × Any)}
    {ms : List (String × Json)} (h : ofJsonMembers false (floatsEntries entries) ms = some entries') :
    ∃ es, ofJsonMembers true entries ms = some es ∧ entries' = floatsEntries es := by
  cases ms with
  | nil =>
    cases h
    exact ⟨entries, rfl, rfl⟩
  | cons m ms =>
    obtain ⟨w, hw, h⟩ := bind_eq_some_iff.mp h
    obtain ⟨v, hv, rfl⟩ := ofJson_floats hw
    rw [← floatsEntries_assign] at h
    obtain ⟨es, hes, rfl⟩ := ofJsonMembers_floats _ h
    exact ⟨es, by rw [ofJsonMembers, hv]; exact hes, rfl⟩

end

/-- A number as it is written after it was read as a `float64`. -/
def rewritten (literal : String) : String := ((Float64.parse literal).map Float64.format).getD literal

theorem head_floats (v : Any) : (floats v).head = v.head.map rewritten := by
  have hread : ∀ (literal : String) (w : Any), w.head = .number literal →
      (((Float64.parse literal).map Any.float64).getD w).head = .number (rewritten literal) := by
    intro literal w hw
    unfold rewritten
    cases Float64.parse literal with
    | none => exact hw
    | some f => rfl
  cases v with
  | number literal => exact hread literal _ rfl
  | int64 n => exact hread (toString n) _ rfl
  | float64 f => simp [floats, head, Head.map, rewritten, Float64.parse_format]
  | slice elements => simp [floats, head, Head.map, floatsElements_eq]
  | map entries => simp [floats, head, Head.map, floatsEntries_eq, Function.comp_def]
  | _ => rfl

theorem child_floats (v : Any) (step : Step) : (floats v).child step = (v.child step).map floats := by
  have hleaf : ∀ (literal : String) (w : Any), w.child step = none →
      (((Float64.parse literal).map Any.float64).getD w).child step = none := by
    intro literal w hw
    cases Float64.parse literal with
    | none => exact hw
    | some f => rfl
  cases v with
  | number literal => exact hleaf literal _ rfl
  | int64 n => exact hleaf (toString n) _ rfl
  | slice elements =>
    cases step with
    | key k => rfl
    | index i => simp [floats, child, floatsElements_eq]
  | map entries =>
    cases step with
    | key k => simp [floats, child, floatsEntries_eq, lookup_map]
    | index i => rfl
  | _ => rfl

theorem headAt_floats (v : Any) (path : List Step) :
    headAt path (floats v) = (headAt path v).map (Head.map rewritten) := by
  refine headAt_of_simulates (R := fun v w => w = floats v) ?_ ?_ rfl path
  · rintro v w rfl
    exact head_floats v
  · rintro v w rfl step
    rw [child_floats]
    exact rel_map_right fun _ _ => rfl

/-! ### The order of loops -/

variable (ranges : Ranges) (path : List ℕ) (n : ℕ)

theorem getElem?_shuffleElements (elements : List Any) (i n : ℕ) :
    (shuffleElements ranges path n elements)[i]? =
      elements[i]?.map (shuffle ranges ((n + i) :: path)) := by
  induction elements generalizing i n with
  | nil => simp [shuffleElements]
  | cons v vs ih =>
    cases i with
    | zero => simp [shuffleElements]
    | succ i =>
      rw [shuffleElements, List.getElem?_cons_succ, ih, List.getElem?_cons_succ]
      congr 3
      omega

theorem length_shuffleElements (elements : List Any) :
    (shuffleElements ranges path n elements).length = elements.length := by
  induction elements generalizing n with
  | nil => rfl
  | cons v vs ih => rw [shuffleElements, List.length_cons, ih, List.length_cons]

theorem keys_shuffleEntries (entries : List (String × Any)) :
    (shuffleEntries ranges path n entries).map Prod.fst = entries.map Prod.fst := by
  induction entries generalizing n with
  | nil => rfl
  | cons e entries ih => rw [shuffleEntries, List.map_cons, ih, List.map_cons]

theorem lookup_shuffleEntries (entries : List (String × Any)) (k : String) :
    ∃ path', lookup (shuffleEntries ranges path n entries) k =
      (lookup entries k).map (shuffle ranges path') := by
  induction entries generalizing n with
  | nil => exact ⟨[], rfl⟩
  | cons e entries ih =>
    by_cases hk : e.1 = k
    · exact ⟨n :: path, by simp [shuffleEntries, lookup, hk]⟩
    · obtain ⟨path', hpath'⟩ := ih (n + 1)
      refine ⟨path', ?_⟩
      simpa [shuffleEntries, lookup, hk] using hpath'

/-- The order in which a loop visits the maps of a value makes no difference to its heads. -/
theorem headAt_shuffle {v : Any} (hv : DistinctKeys v) (visited : List ℕ) (path : List Step) :
    headAt path (shuffle ranges visited v) = headAt path v := by
  refine headAt_eq_of_simulates (R := fun v w => DistinctKeys v ∧ ∃ q, w = shuffle ranges q v) ?_ ?_
    ⟨hv, visited, rfl⟩ path
  · rintro v w ⟨-, q, rfl⟩
    cases v with
    | slice elements => exact congrArg Head.array (length_shuffleElements ranges q 0 elements)
    | map entries =>
      refine congrArg Head.object (Multiset.coe_eq_coe.mpr ?_)
      rw [← keys_shuffleEntries ranges q 0 entries]
      exact (ranges.perm q _).map Prod.fst
    | _ => rfl
  · rintro v w ⟨hv, q, rfl⟩ step
    cases v with
    | slice elements =>
      cases step with
      | key k => exact .none
      | index i =>
        show Option.Rel _ elements[i]? (shuffleElements ranges q 0 elements)[i]?
        rw [getElem?_shuffleElements]
        exact rel_map_right fun a ha => ⟨hv.element (List.mem_of_getElem? ha), _, rfl⟩
    | map entries =>
      cases step with
      | key k =>
        have hnodup : ((shuffleEntries ranges q 0 entries).map Prod.fst).Nodup := by
          rw [keys_shuffleEntries]
          exact hv.nodup
        obtain ⟨path', hpath'⟩ := lookup_shuffleEntries ranges q 0 entries k
        show Option.Rel _ (lookup entries k) (lookup (ranges.visit q (shuffleEntries ranges q 0 entries)) k)
        rw [← lookup_perm (ranges.perm q _).symm hnodup, hpath']
        exact rel_map_right fun a ha => ⟨hv.child (.key k) ha, _, rfl⟩
      | index i => exact .none
    | _ => exact .none

/-! ### What is read back -/

mutual

/-- What a value is decoded into, with `UseNumber`, after it was written. -/
def reread : Any → Any
  | .float64 f => .number f.format
  | .int64 n => .number (toString n)
  | .slice elements => .slice (rereadElements elements)
  | .map entries => .map (sortMembers (rereadEntries entries))
  | v => v

def rereadElements : List Any → List Any
  | [] => []
  | v :: vs => reread v :: rereadElements vs

def rereadEntries : List (String × Any) → List (String × Any)
  | [] => []
  | (key, v) :: entries => (key, reread v) :: rereadEntries entries

end

theorem rereadElements_eq (elements : List Any) : rereadElements elements = elements.map reread := by
  induction elements with
  | nil => rfl
  | cons v vs ih => rw [rereadElements, ih, List.map_cons]

theorem rereadEntries_eq (entries : List (String × Any)) :
    rereadEntries entries = entries.map fun e => (e.1, reread e.2) := by
  induction entries with
  | nil => rfl
  | cons e entries ih => rw [rereadEntries, ih, List.map_cons]

theorem toJsonElements_eq (elements : List Any) : toJsonElements elements = elements.map toJson := by
  induction elements with
  | nil => rfl
  | cons v vs ih => rw [toJsonElements, ih, List.map_cons]

theorem toJsonMembers_eq (entries : List (String × Any)) :
    toJsonMembers entries = entries.map fun e => (e.1, toJson e.2) := by
  induction entries with
  | nil => rfl
  | cons e entries ih => rw [toJsonMembers, ih, List.map_cons]

variable {α : Type} {v : Any}

theorem perm_sortMembers (members : List (String × α)) :
    (sortMembers members).Perm members :=
  List.perm_insertionSort _ members

/-- Sorting looks at the names only. -/
theorem sortMembers_map {β : Type} (f : α → β) (members : List (String × α)) :
    sortMembers (members.map fun m => (m.1, f m.2)) = (sortMembers members).map fun m => (m.1, f m.2) :=
  (List.map_insertionSort (fun m m' : String × α => m.1 ≤ m'.1)
    (fun m m' : String × β => m.1 ≤ m'.1) (fun m => (m.1, f m.2)) members fun _ _ _ _ => Iff.rfl).symm

/-- Members with distinct names are added in their order. -/
theorem ofJsonMembers_of_nodup (entries acc : List (String × Any))
    (hnodup : ((acc ++ entries).map Prod.fst).Nodup)
    (hread : ∀ e ∈ entries, ofJson true (toJson e.2) = some (reread e.2)) :
    ofJsonMembers true acc (entries.map fun e => (e.1, toJson e.2)) =
      some (acc ++ entries.map fun e => (e.1, reread e.2)) := by
  induction entries generalizing acc with
  | nil => simp [ofJsonMembers]
  | cons e entries ih =>
    obtain ⟨he, hentries⟩ := List.forall_mem_cons.mp hread
    have hfresh : e.1 ∉ acc.map Prod.fst := by
      intro hmem
      rw [List.map_append, List.nodup_append] at hnodup
      exact hnodup.2.2 e.1 hmem e.1 (by simp) rfl
    have hnodup' : ((acc ++ [(e.1, reread e.2)] ++ entries).map Prod.fst).Nodup := by
      simpa using hnodup
    rw [List.map_cons, ofJsonMembers, he, Option.bind_eq_bind, Option.bind_some,
      assign_of_not_mem hfresh, ih _ hnodup' hentries]
    simp

theorem ofJsonElements_toJsonElements (vs : List Any)
    (hread : ∀ v ∈ vs, ofJson true (toJson v) = some (reread v)) :
    ofJsonElements true (toJsonElements vs) = some (rereadElements vs) := by
  induction vs with
  | nil => rfl
  | cons v vs ih =>
    obtain ⟨hv, hvs⟩ := List.forall_mem_cons.mp hread
    rw [toJsonElements, ofJsonElements, hv, ih hvs]
    rfl

/-- Writing and decoding again. -/
theorem ofJson_toJson (v : Any) (h : DistinctKeys v) : ofJson true (toJson v) = some (reread v) := by
  induction v using Any.induct with
  | slice elements ih =>
    rw [toJson, ofJson, ofJsonElements_toJsonElements elements fun v hv => ih v hv (h.element hv)]
    rfl
  | map entries ih =>
    rw [toJson, toJsonMembers_eq, sortMembers_map, ofJson, ofJsonMembers_of_nodup, reread,
      rereadEntries_eq, sortMembers_map]
    · rfl
    · exact ((perm_sortMembers entries).map Prod.fst).nodup_iff.mpr h.nodup
    · intro e he
      have hmem : e ∈ entries := (perm_sortMembers entries).mem_iff.mp he
      exact ih e hmem (h.entry hmem)
  | _ => rfl

/-- A sorted list is not changed by sorting. -/
theorem sortMembers_sortMembers (members : List (String × α)) :
    sortMembers (sortMembers members) = sortMembers members := by
  have htotal : Std.Total (fun m m' : String × α => m.1 ≤ m'.1) := ⟨fun m m' => le_total m.1 m'.1⟩
  have htrans : IsTrans (String × α) (fun m m' => m.1 ≤ m'.1) := ⟨fun _ _ _ => le_trans⟩
  exact (List.pairwise_insertionSort _ members).insertionSort_eq

/-- What is decoded is written as before. -/
theorem toJson_reread (v : Any) : toJson (reread v) = toJson v := by
  induction v using Any.induct with
  | slice elements ih =>
    rw [reread, toJson, toJson, rereadElements_eq, toJsonElements_eq, toJsonElements_eq, List.map_map]
    exact congrArg Json.arr (List.map_congr_left ih)
  | map entries ih =>
    have hentries : toJsonMembers (rereadEntries entries) = toJsonMembers entries := by
      rw [rereadEntries_eq, toJsonMembers_eq, toJsonMembers_eq, List.map_map]
      exact List.map_congr_left fun e he => congrArg (Prod.mk e.1) (ih e he)
    rw [reread, toJson, toJson, ← hentries, toJsonMembers_eq, toJsonMembers_eq, sortMembers_map,
      sortMembers_map, sortMembers_sortMembers]
  | _ => rfl

/-- What is decoded from a value that was written has the same heads. -/
theorem headAt_reread (hv : DistinctKeys v) (path : List Step) :
    headAt path (reread v) = headAt path v := by
  refine headAt_eq_of_simulates (R := fun v w => DistinctKeys v ∧ w = reread v) ?_ ?_ ⟨hv, rfl⟩ path
  · rintro v w ⟨-, rfl⟩
    cases v with
    | slice elements => simp [reread, head, rereadElements_eq]
    | map entries =>
      refine congrArg Head.object (Multiset.coe_eq_coe.mpr ?_)
      have hkeys : (rereadEntries entries).map Prod.fst = entries.map Prod.fst := by
        rw [rereadEntries_eq, List.map_map]
        rfl
      rw [← hkeys]
      exact (perm_sortMembers _).map Prod.fst
    | _ => rfl
  · rintro v w ⟨hv, rfl⟩ step
    cases v with
    | slice elements =>
      cases step with
      | key k => exact .none
      | index i =>
        show Option.Rel _ elements[i]? (rereadElements elements)[i]?
        rw [rereadElements_eq, List.getElem?_map]
        exact rel_map_right fun a ha => ⟨hv.element (List.mem_of_getElem? ha), rfl⟩
    | map entries =>
      cases step with
      | key k =>
        have hnodup : ((rereadEntries entries).map Prod.fst).Nodup := by
          rw [rereadEntries_eq, List.map_map]
          exact hv.nodup
        show Option.Rel _ (lookup entries k) (lookup (sortMembers (rereadEntries entries)) k)
        rw [← lookup_perm (perm_sortMembers _).symm hnodup, rereadEntries_eq, lookup_map]
        exact rel_map_right fun a ha => ⟨hv.child (.key k) ha, rfl⟩
      | index i => exact .none
    | _ => exact .none

/-! ### What is written can be read -/

/-- A number is written as a literal. -/
def Head.LiteralNumber : Head String → Prop
  | .number literal => JsonText.IsLiteral literal
  | _ => True

/-- Every number of the value is written as a literal. -/
abbrev Written (v : Any) : Prop := AllHeads Head.LiteralNumber v

/-- Distinct names, and numbers that are literals: what `json.Marshal` takes. -/
def Head.Plain (node : Head String) : Prop := node.KeysNodup ∧ node.LiteralNumber

/-- The value is JSON data. -/
abbrev Plain (v : Any) : Prop := AllHeads Head.Plain v

theorem AllHeads.distinctKeys (h : Plain v) : DistinctKeys v :=
  fun path node hnode => (h path node hnode).1

theorem AllHeads.written (h : Plain v) : Written v :=
  fun path node hnode => (h path node hnode).2

theorem plain_string (s : String) : Plain (.string s) := allHeads_leaf (fun _ => rfl) ⟨trivial, trivial⟩

theorem plain_int64 (n : ℤ) : Plain (.int64 n) :=
  allHeads_leaf (fun _ => rfl) ⟨trivial, JsonText.isLiteral_toString n⟩

theorem plain_float64 (f : Float64) : Plain (.float64 f) :=
  allHeads_leaf (fun _ => rfl) ⟨trivial, JsonText.isLiteral_format f⟩

theorem plain_slice {elements : List Any} (h : ∀ v ∈ elements, Plain v) : Plain (.slice elements) :=
  allHeads_slice ⟨trivial, trivial⟩ h

theorem plain_map {entries : List (String × Any)} (hnodup : (entries.map Prod.fst).Nodup)
    (h : ∀ e ∈ entries, Plain e.2) : Plain (.map entries) :=
  allHeads_map ⟨Multiset.coe_nodup.mpr hnodup, trivial⟩ h

/-- Numbers that were read as `float64` are written as literals. -/
theorem written_of_ofJson {j : Json} (h : ofJson false j = some v) : Written v := by
  refine allHeads_of_ofJson ⟨fun literal v hv => ?_, fun node hnumber _ => ?_⟩ h
  · obtain ⟨f, -, rfl⟩ := map_eq_some_iff.mp hv
    exact JsonText.isLiteral_format f
  · cases node with
    | number literal => exact absurd rfl (hnumber literal)
    | _ => trivial

theorem properElements_iff {js : List Json} :
    JsonText.ProperElements js ↔ ∀ j ∈ js, JsonText.Proper j := by
  induction js with
  | nil => exact iff_of_true trivial fun j hj => nomatch hj
  | cons j js ih => rw [JsonText.ProperElements, ih, List.forall_mem_cons]

theorem properMembers_iff {ms : List (String × Json)} :
    JsonText.ProperMembers ms ↔ ∀ m ∈ ms, JsonText.Proper m.2 := by
  induction ms with
  | nil => exact iff_of_true trivial fun m hm => nomatch hm
  | cons m ms ih => rw [JsonText.ProperMembers, ih, List.forall_mem_cons]

theorem proper_toJson (v : Any) (hkeys : DistinctKeys v) (hwritten : Written v) :
    JsonText.Proper (toJson v) := by
  induction v using Any.induct with
  | float64 f => exact hwritten.head
  | int64 n => exact hwritten.head
  | number literal => exact hwritten.head
  | slice elements ih =>
    rw [toJson, toJsonElements_eq]
    refine properElements_iff.mpr (List.forall_mem_map.mpr fun v hv => ?_)
    exact ih v hv (hkeys.element hv) (hwritten.element hv)
  | map entries ih =>
    rw [toJson, toJsonMembers_eq]
    refine properMembers_iff.mpr fun m hm => ?_
    obtain ⟨e, he, rfl⟩ := List.mem_map.mp ((perm_sortMembers _).mem_iff.mp hm)
    have hchild := (lookup_eq_some hkeys.nodup).mpr he
    exact ih e he (hkeys.child (.key e.1) hchild) (hwritten.child (.key e.1) hchild)
  | _ => trivial

/-- `json.Marshal`, and `Decoder.Decode` with `UseNumber` on the result. -/
theorem parse_render_toJson (hkeys : DistinctKeys v) (hwritten : Written v) :
    (JsonText.parse (JsonText.render (toJson v))).bind (ofJson true) = some (reread v) := by
  rw [JsonText.parse_render (proper_toJson v hkeys hwritten), Option.bind_some]
  exact ofJson_toJson v hkeys

end Any

end GoStd
