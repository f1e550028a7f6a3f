import BackendKit.GoStd.AnyTree

/-!
# Edits of JSON data

One change of a value: a member or an entry is added or removed, or a value is put in the place of
another. `Edit.apply?` makes the change where it applies, and `setAt` puts the result at its position in
a larger value.

`childAt_setAt` and `plain_setAt` say what is at the position afterwards, and that the value stays JSON
data.
-/

namespace GoStd

namespace Any

/-! ### Positions -/

/-- The value at a position. -/
def childAt : List Step → Any → Option Any
  | [], v => some v
  | step :: pos, v => (v.child step).bind (childAt pos)

/-- Put a value in the place of a child. -/
def setChild : Any → Step → Any → Any
  | .slice elements, .index i, new => .slice (elements.set i new)
  | .map entries, .key k, new => .map (assign entries k new)
  | v, _, _ => v

/-- Put a value at a position. -/
def setAt : List Step → Any → Any → Any
  | [], _, new => new
  | step :: pos, v, new => ((v.child step).map fun w => v.setChild step (setAt pos w new)).getD v

variable {v w : Any} {pos : List Step}

theorem setAt_cons {step : Step} (hw : v.child step = some w) (pos : List Step) (new : Any) :
    setAt (step :: pos) v new = v.setChild step (setAt pos w new) := by
  rw [setAt, hw]
  rfl

theorem lookup_assign (entries : List (String × Any)) (key : String) (v : Any) (k : String) :
    lookup (assign entries key v) k = if k = key then some v else lookup entries k := by
  unfold lookup assign
  rw [List.find?_append, List.find?_filter, Option.map_or]
  by_cases hk : k = key
  · -- the filter has removed every entry of the key
    have hnone : (entries.find? fun e => decide (decide (e.1 ≠ key) = true ∧ decide (e.1 = k) = true)) =
        none := by
      rw [List.find?_eq_none]
      rintro e - he
      simp [hk] at he
    rw [if_pos hk, hnone]
    simp [hk]
  · have hpred : (fun e : String × Any => decide (decide (e.1 ≠ key) = true ∧ decide (e.1 = k) = true)) =
        fun e => decide (e.1 = k) := by
      ext e
      by_cases he : e.1 = k
      · simp [he, hk]
      · simp [he]
    rw [if_neg hk, hpred]
    cases entries.find? fun e => decide (e.1 = k) with
    | none => simp [Ne.symm hk]
    | some e => rfl

/-- A value is found under every key. -/
theorem exists_lookup_iff {entries : List (String × Any)} {k : String} :
    (∃ v, lookup entries k = some v) ↔ k ∈ entries.map Prod.fst := by
  constructor
  · rintro ⟨v, hv⟩
    exact List.mem_map_of_mem (f := Prod.fst) (mem_of_lookup hv)
  · intro hmem
    obtain ⟨e, he, rfl⟩ := List.mem_map.mp hmem
    have hsome : (entries.find? fun e' => e'.1 = e.1).isSome := by
      rw [List.find?_isSome]
      exact ⟨e, he, decide_eq_true rfl⟩
    obtain ⟨e', he'⟩ := Option.isSome_iff_exists.mp hsome
    exact ⟨e'.2, by rw [lookup, he', Option.map_some]⟩

theorem child_setChild {step : Step} (hw : v.child step = some w) (new : Any) :
    (v.setChild step new).child step = some new := by
  cases v with
  | slice elements =>
    cases step with
    | key k => cases hw
    | index i =>
      obtain ⟨hlt, -⟩ := List.getElem?_eq_some_iff.mp hw
      exact List.getElem?_set_self hlt
  | map entries =>
    cases step with
    | key k => exact (lookup_assign entries k new k).trans (if_pos rfl)
    | index i => cases hw
  | _ => cases step <;> cases hw

/-- The other children stay. -/
theorem child_setChild_of_ne {step other : Step} (h : other ≠ step) (v new : Any) :
    (v.setChild step new).child other = v.child other := by
  cases v with
  | slice elements =>
    cases step with
    | key k => rfl
    | index i =>
      cases other with
      | key k => rfl
      | index j =>
        have hne : i ≠ j := fun heq => h (congrArg Step.index heq.symm)
        exact List.getElem?_set_ne hne
  | map entries =>
    cases step with
    | key k =>
      cases other with
      | key k' =>
        have hne : k' ≠ k := fun heq => h (congrArg Step.key heq)
        exact (lookup_assign entries k new k').trans (if_neg hne)
      | index j => rfl
    | index i => rfl
  | _ => cases step <;> rfl

/-- What was put at a position is there. -/
theorem childAt_setAt (hw : childAt pos v = some w) (new : Any) :
    childAt pos (setAt pos v new) = some new := by
  induction pos generalizing v with
  | nil => rfl
  | cons step pos ih =>
    obtain ⟨v', hv', hw'⟩ := Option.bind_eq_some_iff.mp hw
    rw [setAt_cons hv', childAt, child_setChild hv', Option.bind_some]
    exact ih hw'

/-! ### JSON data -/

theorem AllHeads.childAt {P : Head String → Prop} (h : AllHeads P v) (hw : childAt pos v = some w) :
    AllHeads P w := by
  induction pos generalizing v with
  | nil => exact Option.some.inj hw ▸ h
  | cons step pos ih =>
    obtain ⟨v', hv', hw'⟩ := Option.bind_eq_some_iff.mp hw
    exact ih (h.child step hv') hw'

theorem plain_setChild {new : Any} (hv : Plain v) (hnew : Plain new) (step : Step) :
    Plain (v.setChild step new) := by
  cases v with
  | slice elements =>
    cases step with
    | key k => exact hv
    | index i =>
      refine plain_slice fun w hw => ?_
      rcases List.mem_or_eq_of_mem_set hw with hw | rfl
      · exact hv.element hw
      · exact hnew
  | map entries =>
    cases step with
    | key k =>
      refine plain_map (nodup_assign hv.distinctKeys.nodup k new) fun e he => ?_
      rcases mem_assign he with he | rfl
      · exact hv.child (.key e.1) ((lookup_eq_some hv.distinctKeys.nodup).mpr he)
      · exact hnew
    | index i => exact hv
  | _ => cases step <;> exact hv

theorem plain_setAt {new : Any} (hv : Plain v) (hnew : Plain new) : Plain (setAt pos v new) := by
  induction pos generalizing v with
  | nil => exact hnew
  | cons step pos ih =>
    cases hw : v.child step with
    | none =>
      rw [setAt, hw]
      exact hv
    | some w =>
      rw [setAt_cons hw]
      exact plain_setChild hv (ih (hv.child step hw)) step

/-! ### Edits -/

/-- A change of a value. -/
inductive Edit where
  | removeMember (k : String)
  | addMember (k : String) (value : Any)
  | removeEntry (i : ℕ)
  | addEntry (i : ℕ) (value : Any)
  | replace (value : Any)

/-- What an edit puts into a value is JSON data. -/
def Edit.Plain : Edit → Prop
  | .addMember _ value => value.Plain
  | .addEntry _ value => value.Plain
  | .replace value => value.Plain
  | _ => True

/-- The value after the change, if the change applies to it. -/
def Edit.apply? : Edit → Any → Option Any
  | .removeMember k, .map entries =>
    if k ∈ entries.map Prod.fst then some (.map (entries.filter fun e => e.1 ≠ k)) else none
  | .addMember k value, .map entries =>
    if k ∈ entries.map Prod.fst then none else some (.map (entries ++ [(k, value)]))
  | .removeEntry i, .slice elements =>
    if i < elements.length then some (.slice (elements.eraseIdx i)) else none
  | .addEntry i value, .slice elements =>
    if i ≤ elements.length then some (.slice (elements.insertIdx i value)) else none
  | .replace value, _ => some value
  | _, _ => none

/-- JSON data stays JSON data. -/
theorem Edit.plain_of_apply? {edit : Edit} {v' : Any} (hedit : edit.Plain) (hv : v.Plain)
    (h : edit.apply? v = some v') : v'.Plain := by
  revert h
  fun_cases Edit.apply? edit v with
  | case1 k entries hk =>
    rintro ⟨⟩
    refine plain_map (hv.distinctKeys.nodup.sublist (List.filter_sublist.map Prod.fst)) fun e he => ?_
    exact hv.child (.key e.1)
      ((lookup_eq_some hv.distinctKeys.nodup).mpr (List.mem_of_mem_filter he))
  | case4 k value entries hk =>
    rintro ⟨⟩
    -- adding a new member is assigning to it
    rw [← assign_of_not_mem hk]
    exact plain_setChild hv hedit (.key k)
  | case5 i elements hi =>
    rintro ⟨⟩
    exact plain_slice fun w hw => hv.element (List.mem_of_mem_eraseIdx hw)
  | case7 i value elements hi =>
    rintro ⟨⟩
    refine plain_slice fun w hw => ?_
    rcases (List.mem_insertIdx hi).mp hw with rfl | hw
    · exact hedit
    · exact hv.element hw
  | case9 value v =>
    rintro ⟨⟩
    exact hedit
  | _ => exact nofun

end Any

end GoStd
