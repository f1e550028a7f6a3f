import BackendKit.Conformance.Accepts

/-!
# Structural differences

`Match` is there to detect drift: a document that satisfies a fixture no longer does so after a member
was removed or added, the length of an array was changed, or a literal was replaced.

What is accepted is accepted at every position (`Accepts.reach`), so that an edit need only be looked at
where it is made (`not_accepts_of_edit`).

There is one place where it goes unnoticed (`Accepts.setAt_of_inAudience`): an entry that is compared
with a registered audience is taken for the empty string if it is no string. Where the empty string is
registered, such an entry may be any object, and no change of it matters.
-/

open GoStd

namespace Conformance

/-! ### Positions of a fixture -/

/-- What is compared with a position of a document. -/
def nodeAt (m : Matcher) : List Any.Step → Node → Option Node
  | [], node => some node
  | step :: pos, node => (below m node step).bind (nodeAt m pos)

/-- The position is in an entry that stands for a registered audience. -/
def InAudience (m : Matcher) : List Any.Step → Node → Prop
  | [], _ => False
  | step :: pos, node =>
    AudienceEntry m node step ∨ ∃ node', below m node step = some node' ∧ InAudience m pos node'

/-- The position is in the value of such a placeholder. -/
def InFreeForm (m : Matcher) : List Any.Step → Node → Prop
  | [], node => IsFreeForm node.want
  | step :: pos, node =>
    IsFreeForm node.want ∨ ∃ node', below m node step = some node' ∧ InFreeForm m pos node'

/-! ### Structural edits -/

/-- A string that does not mention the issuer, a boolean or `null`. -/
def IsLiteral : Any → Prop
  | .string s => placeholder s = none ∧ cutAround issuerToken.toList s.toList = none
  | .bool _ => True
  | .nil => True
  | _ => False

/-- The edit of the value `old` makes a structural difference, where the document is compared with
`node`. -/
def IsStructural (m : Matcher) (node : Option Node) (old : Any) : Any.Edit → Prop
  | .removeMember _ => True
  | .addMember k _ => ∀ path w, node = some ⟨path, .map w⟩ → k ∉ w.map fun e => fullName m.p.ns e.1
  | .removeEntry _ => ∀ path w, node = some ⟨path, .slice w⟩ → ¬ IsKeyList m path w ∧ ¬ EndsInAudience w
  | .addEntry _ _ => ∀ path w, node = some ⟨path, .slice w⟩ → ¬ IsKeyList m path w ∧ ¬ EndsInAudience w
  | .replace value => ∃ path want, node = some ⟨path, want⟩ ∧ IsLiteral want ∧ value.toJson ≠ old.toJson

/-- A document and what a structural edit at a position makes of it. -/
structure StructuralEdit (m : Matcher) (want : List (String × Any)) (pos : List Any.Step)
    (got got' : Any) : Prop where
  document : got.Plain
  outside : ¬ InFreeForm m pos ⟨"", .map want⟩
  edited : ∃ edit old new, edit.Plain ∧ Any.childAt pos got = some old ∧ edit.apply? old = some new ∧
    IsStructural m (nodeAt m pos ⟨"", .map want⟩) old edit ∧ got' = Any.setAt pos got new

section Detection

variable {m : Matcher} {path : String}

/-! ### Along a position -/

theorem decoded_below {node node' : Node} {step : Any.Step} (hdecoded : node.want.Decoded)
    (h : below m node step = some node') : node'.want.Decoded := by
  obtain ⟨path, want⟩ := node
  have hnode := hdecoded.node
  cases step with
  | key k =>
    cases want with
    | map w =>
      obtain ⟨want, hwant, rfl⟩ := Option.map_eq_some_iff.mp h
      obtain ⟨e, he, heq⟩ := List.mem_map.mp (mem_of_mem_lastEntries (Any.mem_of_lookup hwant))
      exact (Prod.mk.inj heq).2 ▸ hnode e he
    | _ => cases h
  | index i =>
    cases want with
    | slice w =>
      obtain ⟨want, hwant, rfl⟩ := Option.map_eq_some_iff.mp h
      refine hnode want ?_
      unfold entryAt at hwant
      split at hwant
      · exact List.mem_of_getElem? hwant
      · exact (List.takeWhile_sublist _).subset (List.mem_of_getElem? hwant)
    | _ => cases h

variable {pos : List Any.Step} {v old : Any}

/-- One step down along a position: what a child is compared with accepts it. -/
theorem Accepts.step {step : Any.Step} {node node' : Node} {v' : Any} (hok : Accepts m node v)
    (hv : v.DistinctKeys) (hdecoded : node.want.Decoded) (hfree : ¬ InFreeForm m (step :: pos) node)
    (hchild : v.child step = some v') (hbelow : below m node step = some node') :
    Accepts m node' v' ∧ node'.want.Decoded ∧ ¬ InFreeForm m pos node' := by
  have hshape := hok.shape hv (isContainer_of_child hchild) hdecoded fun h => hfree (.inl h)
  exact ⟨(accepts_iff hv hshape).mp hok step node' v' hbelow hchild, decoded_below hdecoded hbelow,
    fun h => hfree (.inr ⟨node', hbelow, h⟩)⟩

/-- Outside the two kinds of exceptions, every position of an accepted document is compared with a part
of the fixture, which accepts it. -/
theorem Accepts.reach {node : Node} {g : Any} (hok : Accepts m node v) (hv : v.DistinctKeys)
    (hdecoded : node.want.Decoded) (hfree : ¬ InFreeForm m pos node)
    (haudience : ¬ InAudience m pos node) (hg : Any.childAt pos v = some g) :
    ∃ node', nodeAt m pos node = some node' ∧ Accepts m node' g ∧ node'.want.Decoded ∧
      ¬ IsFreeForm node'.want := by
  induction pos generalizing node v with
  | nil =>
    cases hg
    exact ⟨node, rfl, hok, hdecoded, hfree⟩
  | cons step pos ih =>
    obtain ⟨v', hchild, hg'⟩ := Option.bind_eq_some_iff.mp hg
    have hshape := hok.shape hv (isContainer_of_child hchild) hdecoded fun h => hfree (.inl h)
    rcases hshape.covers hchild with ⟨node', hbelow⟩ | hentry
    · obtain ⟨hok', hdecoded', hfree'⟩ := hok.step hv hdecoded hfree hchild hbelow
      obtain ⟨node'', hnode, h⟩ := ih hok' (hv.child step hchild) hdecoded' hfree'
        (fun h => haudience (.inr ⟨node', hbelow, h⟩)) hg'
      refine ⟨node'', ?_, h⟩
      rw [nodeAt, hbelow, Option.bind_some, hnode]
    · exact absurd (.inl hentry) haudience

theorem isContainer_setAt {new : Any} (hold : Any.childAt pos v = some old) (hnew : IsContainer new)
    : IsContainer (Any.setAt pos v new) := by
  cases pos with
  | nil => exact hnew
  | cons step pos =>
    obtain ⟨v', hchild, -⟩ := Option.bind_eq_some_iff.mp hold
    rw [Any.setAt_cons hchild]
    exact isContainer_of_child (Any.child_setChild hchild _)

theorem isContainer_of_childAt (hold : Any.childAt pos v = some old) (hcontainer : IsContainer old)
    : IsContainer v := by
  cases pos with
  | nil => exact Option.some.inj hold ▸ hcontainer
  | cons step pos =>
    obtain ⟨v', hchild, -⟩ := Option.bind_eq_some_iff.mp hold
    exact isContainer_of_child hchild

/-- What is in an entry for an audience may be changed. -/
theorem Accepts.setAt_of_inAudience {node : Node} {new : Any} (hok : Accepts m node v)
    (hv : v.Plain) (hdecoded : node.want.Decoded) (hfree : ¬ InFreeForm m pos node)
    (haudience : InAudience m pos node) (hold : Any.childAt pos v = some old)
    (hcontainer : IsContainer old) (hnew : IsContainer new) (hplain : new.Plain) :
    Accepts m node (Any.setAt pos v new) := by
  induction pos generalizing node v with
  | nil => exact haudience.elim
  | cons step pos ih =>
    obtain ⟨v', hchild, hold'⟩ := Option.bind_eq_some_iff.mp hold
    have hshape := hok.shape hv.distinctKeys (isContainer_of_child hchild) hdecoded
      fun h => hfree (.inl h)
    have hparts := (accepts_iff hv.distinctKeys hshape).mp hok
    have hshape' := hshape.setChild hchild (isContainer_of_childAt hold' hcontainer)
      (isContainer_setAt hold' hnew)
    have hplain' : (v.setChild step (Any.setAt pos v' new)).Plain :=
      Any.plain_setChild hv (Any.plain_setAt (hv.child step hchild) hplain) step
    rw [Any.setAt_cons hchild, accepts_iff hplain'.distinctKeys hshape']
    intro other node' g hbelow hg
    by_cases hstep : other = step
    · -- the child that has changed: it is no audience itself, but has one in it
      subst hstep
      rw [Any.child_setChild hchild, Option.some.injEq] at hg
      subst hg
      rcases haudience with hentry | ⟨node'', hbelow', haudience'⟩
      · cases hentry.below_eq_none.symm.trans hbelow
      · obtain rfl := Option.some.inj (hbelow.symm.trans hbelow')
        obtain ⟨hok', hdecoded', hfree'⟩ := hok.step hv.distinctKeys hdecoded hfree hchild hbelow
        exact ih hok' (hv.child _ hchild) hdecoded' hfree' haudience' hold'
    · rw [Any.child_setChild_of_ne hstep] at hg
      exact hparts other node' g hbelow hg

/-- Only where the empty string is registered there is something in an entry for an audience. -/
theorem Accepts.empty_mem_audiences {node : Node} (hok : Accepts m node v) (hv : v.DistinctKeys)
    (hdecoded : node.want.Decoded) (hfree : ¬ InFreeForm m pos node)
    (haudience : InAudience m pos node) (hold : Any.childAt pos v = some old)
    (hcontainer : IsContainer old) : "" ∈ m.p.audiences := by
  induction pos generalizing node v with
  | nil => exact haudience.elim
  | cons step pos ih =>
    obtain ⟨v', hchild, hold'⟩ := Option.bind_eq_some_iff.mp hold
    rcases haudience with hentry | ⟨node', hbelow, haudience'⟩
    · have hshape := hok.shape hv (isContainer_of_child hchild) hdecoded fun h => hfree (.inl h)
      exact hshape.empty_mem_audiences hentry hchild (isContainer_of_childAt hold' hcontainer)
    · obtain ⟨hok', hdecoded', hfree'⟩ := hok.step hv hdecoded hfree hchild hbelow
      exact ih hok' (hv.child step hchild) hdecoded' hfree' haudience' hold'

/-! ### Where an edit is made -/

/-- A literal is compared exactly. -/
theorem Accepts.toJson_eq {node : Node} (hok : Accepts m node v) (hliteral : IsLiteral node.want) :
    v.toJson = node.want.toJson := by
  obtain ⟨path, want⟩ := node
  rw [← Any.toJson_reread]
  have hleaf : matchLeaf m path want v.reread = [] := by
    rw [← matchValue_of_leaf]
    · exact hok
    · cases want <;> first | exact id | exact hliteral.elim
  generalize v.reread = got at hleaf
  refine congrArg Any.toJson ?_
  cases want with
  | nil =>
    cases got with
    | nil => rfl
    | _ => exact absurd hleaf (fail_ne_nil _ _)
  | bool b =>
    cases got with
    | bool g =>
      rw [matchLeaf, ite_fail_eq_nil, not_not] at hleaf
      rw [hleaf]
    | _ => exact absurd hleaf (fail_ne_nil _ _)
  | string s =>
    rw [matchLeaf, hliteral.1] at hleaf
    cases got with
    | string g =>
      simp only [matchLiteral, hliteral.2, ite_fail_eq_nil, not_not] at hleaf
      rw [hleaf]
    | _ => exact absurd hleaf (fail_ne_nil _ _)
  | _ => exact hliteral.elim

theorem ArrayShape.length_eq {w g : List Any} (hshape : ArrayShape m path w g)
    (h : ¬ IsKeyList m path w ∧ ¬ EndsInAudience w) : g.length = w.length := by
  cases hshape with
  | keys hkeys => exact absurd hkeys h.1
  | audiences => exact absurd ⟨_, rfl⟩ h.2
  | fixed _ _ hlength => exact hlength

/-- Only one length of an array is accepted. -/
theorem length_eq_of_accepts {node : Node} {elements elements' : List Any}
    (hok : Accepts m node (.slice elements)) (hok' : Accepts m node (.slice elements'))
    (hdecoded : node.want.Decoded) (hfree : ¬ IsFreeForm node.want)
    (hold : (Any.slice elements).DistinctKeys) (hnew : (Any.slice elements').DistinctKeys)
    (h : ∀ path w, some node = some ⟨path, .slice w⟩ → ¬ IsKeyList m path w ∧ ¬ EndsInAudience w) :
    elements.length = elements'.length := by
  obtain ⟨w, hw, hshape⟩ := (hok.shape hold trivial hdecoded hfree).exists_slice
  obtain ⟨w', hw', hshape'⟩ := (hok'.shape hnew trivial hdecoded hfree).exists_slice
  obtain rfl := Any.slice.inj (hw.symm.trans hw')
  have hnode := h node.path w (by rw [← hw])
  rw [hshape.length_eq hnode, hshape'.length_eq hnode]

/-- A structural edit is not accepted where it is made. -/
theorem not_accepts_of_edit {node : Node} {new : Any} {edit : Any.Edit} (hok : Accepts m node old)
    (hold : old.DistinctKeys) (hnew : new.DistinctKeys) (hdecoded : node.want.Decoded)
    (hfree : ¬ IsFreeForm node.want) (happly : edit.apply? old = some new)
    (hedit : IsStructural m (some node) old edit) : ¬ Accepts m node new := by
  intro hok'
  revert happly
  fun_cases Any.Edit.apply? edit old with
  | case1 k entries hk =>
    rintro ⟨⟩
    obtain ⟨w, hw, hshape⟩ := (hok.shape hold trivial hdecoded hfree).exists_map
    obtain ⟨w', hw', hshape'⟩ := (hok'.shape hnew trivial hdecoded hfree).exists_map
    obtain rfl := Any.map.inj (hw.symm.trans hw')
    -- the member is still asked for
    obtain ⟨e, he, rfl⟩ := List.mem_map.mp ((hshape'.keys k).mpr ((hshape.keys k).mp hk))
    exact of_decide_eq_true (List.mem_filter.mp he).2 rfl
  | case4 k value entries hk =>
    rintro ⟨⟩
    obtain ⟨w, hw, hshape⟩ := (hok'.shape hnew trivial hdecoded hfree).exists_map
    have hmem : k ∈ (expected m.p.ns w).map Prod.fst := (hshape.keys k).mp (by simp)
    exact hedit node.path w (by rw [← hw]) (mem_keys_expected.mp hmem)
  | case5 i elements hi =>
    rintro ⟨⟩
    have hlength := length_eq_of_accepts hok hok' hdecoded hfree hold hnew hedit
    rw [List.length_eraseIdx_of_lt hi] at hlength
    omega
  | case7 i value elements hi =>
    rintro ⟨⟩
    have hlength := length_eq_of_accepts hok hok' hdecoded hfree hold hnew hedit
    rw [List.length_insertIdx_of_le_length hi] at hlength
    omega
  | case9 value v =>
    rintro ⟨⟩
    obtain ⟨path, want, hnode, hliteral, hne⟩ := hedit
    cases hnode
    exact hne ((hok'.toJson_eq hliteral).trans (hok.toJson_eq hliteral).symm)
  | _ => rintro ⟨⟩

/-! ### The document as a whole -/

theorem decoded_of_parse {files : Fixtures} {name : String} {want : List (String × Any)}
    (h : parse files name = .ok want) : (Any.map want).Decoded := by
  obtain ⟨text, -, hdecode⟩ := bind_eq_ok h
  cases hmap : decodeMap text with
  | none =>
    rw [hmap] at hdecode
    cases hdecode
  | some doc =>
    rw [hmap] at hdecode
    cases hdecode
    unfold decodeMap at hmap
    split at hmap
    · rename_i entries hparse
      cases hmap
      obtain ⟨j, -, hj⟩ := Option.bind_eq_some_iff.mp hparse
      exact ⟨j, hj⟩
    · cases hmap
      exact ⟨.obj [], rfl⟩
    · cases hmap

/-- The matcher for a fixture. -/
def matcherOf (name : String) (p : Params) : Matcher := ⟨p, name = "jwks"⟩

theorem matchFixture_eq_ok_iff {files : Fixtures} {name : String} {p : Params}
    {want : List (String × Any)} {got : Any} (hwant : parse files name = .ok want) (hgot : got.Plain) :
    matchFixture files name got p = .ok () ↔ Accepts (matcherOf name p) ⟨"", .map want⟩ got := by
  have hdecode := Any.parse_render_toJson hgot.distinctKeys hgot.written
  have hparse : (parse files name).mapError MatchError.parse = .ok want := by
    rw [hwant]
    rfl
  unfold matchFixture
  simp only [hparse, Any.marshal_of_plain hgot, hdecode, bind, Except.bind]
  split
  · rename_i hpos
    refine iff_of_false (fun h => by cases h) fun hok => ?_
    rw [show matchValue ⟨p, name = "jwks"⟩ "" (.map want) got.reread = [] from hok] at hpos
    exact absurd hpos (lt_irrefl 0)
  · rename_i hpos
    exact iff_of_true rfl (List.length_eq_zero_iff.mp (Nat.eq_zero_of_not_pos hpos))

theorem nodeAt_eq_none {node : Node} (h : InAudience m pos node) : nodeAt m pos node = none := by
  induction pos generalizing node with
  | nil => exact h.elim
  | cons step pos ih =>
    rw [nodeAt]
    rcases h with hentry | ⟨node', hbelow, h'⟩
    · rw [hentry.below_eq_none]
      rfl
    · rw [hbelow]
      exact ih h'

/-- Where there is no literal, a structural edit changes an object or an array. -/
theorem isContainer_of_edit {new : Any} {edit : Any.Edit} (happly : edit.apply? old = some new)
    (hedit : IsStructural m none old edit) : IsContainer old ∧ IsContainer new := by
  revert happly
  fun_cases Any.Edit.apply? edit old with
  | case1 | case4 | case5 | case7 =>
    rintro ⟨⟩
    exact ⟨trivial, trivial⟩
  | case9 =>
    obtain ⟨path, want, hnode, -⟩ := hedit
    cases hnode
  | _ => rintro ⟨⟩

section Edits

variable {files : Fixtures} {name : String} {p : Params} {want : List (String × Any)}
  {pos : List Any.Step} {got got' : Any}

theorem StructuralEdit.plain (hedit : StructuralEdit m want pos got got') : got'.Plain := by
  obtain ⟨edit, old, new, hplain, hold, happly, -, rfl⟩ := hedit.edited
  exact Any.plain_setAt hedit.document (Any.Edit.plain_of_apply? hplain (hedit.document.childAt hold) happly)

/-- Outside the entries for audiences an edit is not accepted. -/
theorem StructuralEdit.not_accepts (hedit : StructuralEdit m want pos got got')
    (hdecoded : (Any.map want).Decoded) (hok : Accepts m ⟨"", .map want⟩ got)
    (haudience : ¬ InAudience m pos ⟨"", .map want⟩) : ¬ Accepts m ⟨"", .map want⟩ got' := by
  intro hok'
  have hgot' := hedit.plain.distinctKeys
  obtain ⟨edit, old, new, -, hold, happly, hstructural, rfl⟩ := hedit.edited
  have hnew := Any.childAt_setAt hold new
  -- both documents are compared with one part of the fixture
  obtain ⟨node, hnode, hok, hdecoded', hfree⟩ :=
    hok.reach hedit.document.distinctKeys hdecoded hedit.outside haudience hold
  obtain ⟨node', hnode', hok', -, -⟩ := hok'.reach hgot' hdecoded hedit.outside haudience hnew
  obtain rfl := Option.some.inj (hnode.symm.trans hnode')
  rw [hnode] at hstructural
  exact not_accepts_of_edit hok (hedit.document.distinctKeys.childAt hold) (hgot'.childAt hnew)
    hdecoded' hfree happly hstructural hok'

/-- In an entry for an audience every edit is accepted. -/
theorem StructuralEdit.accepts (hedit : StructuralEdit m want pos got got')
    (hdecoded : (Any.map want).Decoded) (hok : Accepts m ⟨"", .map want⟩ got)
    (haudience : InAudience m pos ⟨"", .map want⟩) : Accepts m ⟨"", .map want⟩ got' := by
  obtain ⟨edit, old, new, hplain, hold, happly, hstructural, rfl⟩ := hedit.edited
  rw [nodeAt_eq_none haudience] at hstructural
  obtain ⟨hcontainer, hcontainer'⟩ := isContainer_of_edit happly hstructural
  exact hok.setAt_of_inAudience hedit.document hdecoded hedit.outside haudience hold hcontainer
    hcontainer' (Any.Edit.plain_of_apply? hplain (hedit.document.childAt hold) happly)

theorem matchFixture_eq_error_iff (hwant : parse files name = .ok want) (hgot : got.Plain) :
    (∃ err, matchFixture files name got p = .error err) ↔
      ¬ Accepts (matcherOf name p) ⟨"", .map want⟩ got := by
  rw [← matchFixture_eq_ok_iff hwant hgot]
  cases matchFixture files name got p with
  | error err => simp
  | ok u => simp

/-- `Match` detects a structural edit of a document that it has accepted, unless it is made in an entry
that stands for a registered audience. -/
theorem matchFixture_edit_iff (hwant : parse files name = .ok want)
    (hok : matchFixture files name got p = .ok ())
    (hedit : StructuralEdit (matcherOf name p) want pos got got') :
    (∃ err, matchFixture files name got' p = .error err) ↔
      ¬ InAudience (matcherOf name p) pos ⟨"", .map want⟩ := by
  have hdecoded := decoded_of_parse hwant
  have hok' := (matchFixture_eq_ok_iff hwant hedit.document).mp hok
  rw [matchFixture_eq_error_iff hwant hedit.plain]
  constructor
  · intro hnot haudience
    exact hnot (hedit.accepts hdecoded hok' haudience)
  · exact hedit.not_accepts hdecoded hok'

/-- If the empty string is not registered, every structural edit is detected. -/
theorem matchFixture_detects (hwant : parse files name = .ok want)
    (hok : matchFixture files name got p = .ok ())
    (hedit : StructuralEdit (matcherOf name p) want pos got got') (haudiences : "" ∉ p.audiences) :
    ∃ err, matchFixture files name got' p = .error err := by
  have hdecoded := decoded_of_parse hwant
  have hok' := (matchFixture_eq_ok_iff hwant hedit.document).mp hok
  rw [matchFixture_eq_error_iff hwant hedit.plain]
  refine hedit.not_accepts hdecoded hok' fun haudience => haudiences ?_
  obtain ⟨edit, old, new, -, hold, happly, hstructural, -⟩ := hedit.edited
  rw [nodeAt_eq_none haudience] at hstructural
  exact hok'.empty_mem_audiences hedit.document.distinctKeys hdecoded hedit.outside haudience hold
    (isContainer_of_edit happly hstructural).1

end Edits

end Detection

/-! A run with the fixture `access/client_credentials_audience_dual`, and the empty string as the only
registered audience. -/

/-- The parameters set nothing but the audiences. -/
def emptyAudience : Params where
  audiences := [""]

theorem plain_claimsWith {audience : Any} (h : audience.Plain) :
    (Any.map (claimsWith [audience])).Plain := by
  refine Any.plain_map (by simp [claimsWith]) ?_
  have haud : (Any.slice [.string "reports", audience]).Plain :=
    Any.plain_slice (List.forall_mem_cons.mpr
      ⟨Any.plain_string _, List.forall_mem_singleton.mpr h⟩)
  simp only [claimsWith, List.forall_mem_cons, haud, Any.plain_int64, Any.plain_string, true_and]
  exact List.forall_mem_nil _

/-- An object in the place of the audience. -/
def objectAudience : Any := .map [("tenant", .string "t1")]

theorem accepts_objectAudience :
    Accepts (matcherOf "dual" emptyAudience) ⟨"", .map dualFixture⟩
      (.map (claimsWith [objectAudience])) := by
  have hempty : (matchValue (matcherOf "dual" emptyAudience) "" (.map dualFixture)
      (Any.map (claimsWith [objectAudience])).reread).isEmpty = true := by
    decide +kernel
  exact List.isEmpty_iff.mp hempty

theorem plain_objectAudience : objectAudience.Plain :=
  Any.plain_map (List.nodup_singleton _) (List.forall_mem_singleton.mpr (Any.plain_string _))

theorem matchFixture_objectAudience :
    matchFixture dualFiles "dual" (.map (claimsWith [objectAudience])) emptyAudience = .ok () :=
  (matchFixture_eq_ok_iff parse_dual (plain_claimsWith plain_objectAudience)).mpr accepts_objectAudience

/-- The second audience. -/
def audiencePosition : List Any.Step := [.key "aud", .index 1]

theorem below_aud : below (matcherOf "dual" emptyAudience) ⟨"", .map dualFixture⟩ (.key "aud") =
    some ⟨"aud", .slice [.string "<client_id>", .string "<audience>"]⟩ :=
  rfl

theorem audienceEntry_aud : AudienceEntry (matcherOf "dual" emptyAudience)
    ⟨"aud", .slice [.string "<client_id>", .string "<audience>"]⟩ (.index 1) :=
  ⟨[.string "<client_id>"], 1, rfl, by decide, rfl, le_refl 1⟩

theorem inAudience_audiencePosition :
    InAudience (matcherOf "dual" emptyAudience) audiencePosition ⟨"", .map dualFixture⟩ :=
  .inr ⟨_, below_aud, .inl audienceEntry_aud⟩

/-- The object loses its only member. -/
theorem structuralEdit_objectAudience :
    StructuralEdit (matcherOf "dual" emptyAudience) dualFixture audiencePosition
      (.map (claimsWith [objectAudience]))
      (Any.setAt audiencePosition (.map (claimsWith [objectAudience])) (.map [])) where
  document := plain_claimsWith plain_objectAudience
  outside := by
    rintro (h | ⟨node, hbelow, h⟩)
    · exact h
    · obtain rfl := Option.some.inj (below_aud.symm.trans hbelow)
      rcases h with h | ⟨node', hbelow', -⟩
      · exact h
      · cases audienceEntry_aud.below_eq_none.symm.trans hbelow'
  edited := ⟨.removeMember "tenant", objectAudience, .map [], trivial, rfl, rfl, trivial, rfl⟩

/-- `Match` does not notice that the member is gone. -/
theorem matchFixture_missed :
    matchFixture dualFiles "dual" (.map (claimsWith [objectAudience])) emptyAudience = .ok () ∧
      StructuralEdit (matcherOf "dual" emptyAudience) dualFixture audiencePosition
        (.map (claimsWith [objectAudience]))
        (Any.setAt audiencePosition (.map (claimsWith [objectAudience])) (.map [])) ∧
      matchFixture dualFiles "dual"
        (Any.setAt audiencePosition (.map (claimsWith [objectAudience])) (.map []))
        emptyAudience = .ok () := by
  have hedit := structuralEdit_objectAudience
  refine ⟨matchFixture_objectAudience, hedit, ?_⟩
  rw [matchFixture_eq_ok_iff parse_dual hedit.plain]
  exact hedit.accepts (decoded_of_parse parse_dual) accepts_objectAudience inAudience_audiencePosition

/-- A member that is missing elsewhere is noticed. -/
theorem matchFixture_edit_iff_scope :
    ∃ err, matchFixture dualFiles "dual"
      (.map ((claimsWith [objectAudience]).filter fun e => e.1 ≠ "scope")) emptyAudience = .error err := by
  have hedit : StructuralEdit (matcherOf "dual" emptyAudience) dualFixture []
      (.map (claimsWith [objectAudience]))
      (.map ((claimsWith [objectAudience]).filter fun e => e.1 ≠ "scope")) :=
    { document := plain_claimsWith plain_objectAudience
      outside := id
      edited := ⟨.removeMember "scope", _, _, trivial, rfl, rfl, trivial, rfl⟩ }
  exact (matchFixture_edit_iff parse_dual matchFixture_objectAudience hedit).mpr id

end Conformance
