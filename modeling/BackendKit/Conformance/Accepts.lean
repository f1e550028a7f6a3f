import BackendKit.Conformance.SelfMatch
import BackendKit.GoStd.AnyEdit

/-!
# What is accepted, part by part

The matcher goes through fixture and document together. `below` is one step down in a fixture: what a
child of the document is compared with. A document is accepted if it has the shape of the fixture there
(`Accepts.shape`) and each of its children is accepted by what it is compared with (`accepts_iff`).

Not every child is compared with a part of the fixture: an entry of an array may stand for a registered
audience (`Shape.covers`).
-/

open GoStd

namespace Conformance

/-! ### Parts of a fixture -/

/-- The members that an object of a fixture asks for, under their full names. -/
def expected (ns : String) (w : List (String × Any)) : List (String × Any) :=
  lastEntries (w.map fun e => (fullName ns e.1, e.2))

/-- The array is the list of the published keys, with one template for all of them. -/
def IsKeyList (m : Matcher) (path : String) (w : List Any) : Prop :=
  m.jwks = true ∧ path = "keys" ∧ w.length = 1

instance (m : Matcher) (path : String) (w : List Any) : Decidable (IsKeyList m path w) :=
  inferInstanceAs (Decidable (_ ∧ _ ∧ _))

/-- The registered audiences are the last entries of the array. -/
def EndsInAudience (w : List Any) : Prop := ∃ fixed, w = fixed ++ [.string "<audience>"]

/-- What an entry of an array is compared with. -/
def entryAt (m : Matcher) (path : String) (w : List Any) (i : ℕ) : Option Any :=
  if IsKeyList m path w then w[0]? else (w.takeWhile fun v => !isAudience v)[i]?

/-- A part of a fixture, and its path. -/
structure Node where
  path : String
  want : Any

/-- What a child of a document is compared with. -/
def below (m : Matcher) (node : Node) : Any.Step → Option Node
  | .key k =>
    match node.want with
    | .map w => (Any.lookup (expected m.p.ns w) k).map (Node.mk (join node.path k))
    | _ => none
  | .index i =>
    match node.want with
    | .slice w => (entryAt m node.path w i).map (Node.mk (entryPath node.path i))
    | _ => none

/-- The entry stands for a registered audience. -/
def AudienceEntry (m : Matcher) (node : Node) (step : Any.Step) : Prop :=
  ∃ fixed i, node.want = .slice (fixed ++ [.string "<audience>"]) ∧
    ¬ IsKeyList m node.path (fixed ++ [.string "<audience>"]) ∧ step = .index i ∧ fixed.length ≤ i

/-- The placeholder `<app_roles>` or a placeholder `<attribute:K>`. -/
def IsFreeForm : Any → Prop
  | .string s => ∃ name arg, placeholder s = some (name, arg) ∧ (name = "app_roles" ∨ name = "attribute")
  | _ => False

/-! ### What is accepted -/

/-- The matcher finds no difference in a document, after it was written and decoded again. -/
def Accepts (m : Matcher) (node : Node) (v : Any) : Prop :=
  matchValue m node.path node.want v.reread = []

theorem fail_ne_nil (path : String) (complaint : Complaint) : fail path complaint ≠ [] :=
  List.cons_ne_nil _ _

section Objects

variable {α : Type}

theorem lastEntries_map {β : Type} (f : String × α → β) (entries : List (String × α)) :
    lastEntries (entries.map fun e => (e.1, f e)) = (lastEntries entries).map fun e => (e.1, f e) := by
  have hkeys : ∀ entries : List (String × α),
      (entries.map fun e => (e.1, f e)).map Prod.fst = entries.map Prod.fst := fun entries => by
    rw [List.map_map]
    rfl
  induction entries with
  | nil => rfl
  | cons e entries ih =>
    rw [List.map_cons, lastEntries, lastEntries, hkeys, ih]
    split
    · rfl
    · rw [List.map_cons]

theorem mem_of_mem_lastEntries {entries : List (String × α)} {e : String × α}
    (h : e ∈ lastEntries entries) : e ∈ entries := by
  induction entries with
  | nil => exact h
  | cons e' entries ih =>
    rw [lastEntries] at h
    split at h
    · exact List.mem_cons_of_mem _ (ih h)
    · rcases List.mem_cons.mp h with rfl | h
      · exact List.mem_cons_self
      · exact List.mem_cons_of_mem _ (ih h)

/-- No key is lost. -/
theorem mem_keys_lastEntries {entries : List (String × α)} {k : String} :
    k ∈ (lastEntries entries).map Prod.fst ↔ k ∈ entries.map Prod.fst := by
  induction entries with
  | nil => rfl
  | cons e entries ih =>
    rw [lastEntries, List.map_cons, List.mem_cons, ← ih]
    split
    · rename_i hmem
      exact ⟨.inr, fun h => h.elim (fun hk => ih.mpr (hk ▸ hmem)) id⟩
    · rw [List.map_cons, List.mem_cons]

theorem nodup_keys_lastEntries (entries : List (String × α)) :
    ((lastEntries entries).map Prod.fst).Nodup := by
  induction entries with
  | nil => exact List.nodup_nil
  | cons e entries ih =>
    rw [lastEntries]
    split
    · exact ih
    · rename_i hmem
      rw [List.map_cons, List.nodup_cons]
      exact ⟨fun h => hmem (mem_keys_lastEntries.mp h), ih⟩

end Objects

theorem mem_keys_expected {ns k : String} {w : List (String × Any)} :
    k ∈ (expected ns w).map Prod.fst ↔ k ∈ w.map fun e => fullName ns e.1 := by
  rw [expected, mem_keys_lastEntries, List.map_map]
  rfl

/-- What an object has as one of its instants. -/
def instant (g : List (String × Any)) (k : String) : Option Float64 :=
  (Any.lookup g k).bind fun v => number v.reread

/-- The members are those that are asked for, and a token expires after it is issued. -/
structure ObjectShape (m : Matcher) (w g : List (String × Any)) : Prop where
  keys : ∀ k, k ∈ g.map Prod.fst ↔ k ∈ (expected m.p.ns w).map Prod.fst
  times : ∀ iat ∈ instant g "iat", ∀ exp ∈ instant g "exp", iat.value < exp.value

section Comparison

variable {m : Matcher} {path : String}

theorem timeFailures_eq_nil_iff {g : List (String × Any)} (hnodup : (g.map Prod.fst).Nodup) :
    timeFailures path (Any.sortMembers (Any.rereadEntries g)) = [] ↔
      ∀ iat ∈ instant g "iat", ∀ exp ∈ instant g "exp", iat.value < exp.value := by
  have hinstant : ∀ k, (Any.lookup (Any.sortMembers (Any.rereadEntries g)) k).bind number =
      instant g k := fun k => by
    rw [lookup_reread hnodup, Option.bind_map]
    rfl
  unfold timeFailures
  rw [hinstant, hinstant]
  cases instant g "iat" with
  | none => simp
  | some iat =>
    cases instant g "exp" with
    | none => simp
    | some exp => simp [fail_ne_nil]

/-- The failures of a member that is asked for, under its full name. -/
def failuresUnder (m : Matcher) (path : String) (g : List (String × Any)) (e : String × Any) :
    List Failure :=
  match Any.lookup g e.1 with
  | none => fail (join path e.1) .missing
  | some gv => matchValue m (join path e.1) e.2 gv

theorem failuresUnder_eq_nil {g : List (String × Any)} {e : String × Any} :
    failuresUnder m path g e = [] ↔
      ∃ gv, Any.lookup g e.1 = some gv ∧ matchValue m (join path e.1) e.2 gv = [] := by
  unfold failuresUnder
  cases Any.lookup g e.1 with
  | none => simp [fail_ne_nil]
  | some gv => simp

theorem matchValue_map_eq_nil_iff {w g : List (String × Any)} :
    matchValue m path (.map w) (.map g) = [] ↔
      (∀ e ∈ expected m.p.ns w, failuresUnder m path g e = []) ∧
        (∀ e ∈ g, e.1 ∈ (expected m.p.ns w).map Prod.fst) ∧ timeFailures path g = [] := by
  have hmembers : lastEntries (matchMembers m path g w) =
      (expected m.p.ns w).map fun e => (e.1, failuresUnder m path g e) := by
    rw [expected, ← lastEntries_map, matchMembers_eq, List.map_map]
    rfl
  have hkeys : ((expected m.p.ns w).map fun e => (e.1, failuresUnder m path g e)).map Prod.fst =
      (expected m.p.ns w).map Prod.fst := by
    rw [List.map_map]
    rfl
  have hsorted : ∀ {β γ : Type} (members : List (String × β)) (f : String × β → List γ),
      (Any.sortMembers members).flatMap f = [] ↔ ∀ e ∈ members, f e = [] := fun members f => by
    rw [List.flatMap_eq_nil_iff]
    exact forall_congr' fun e => imp_congr_left (Any.perm_sortMembers members).mem_iff
  rw [matchValue, matchObject]
  simp only [hmembers, hkeys, extraFailures, List.append_eq_nil_iff, hsorted, List.forall_mem_map,
    ite_eq_left_iff, fail_ne_nil, imp_false, not_not, and_assoc]

theorem accepts_map_iff {w g : List (String × Any)} (hnodup : (g.map Prod.fst).Nodup) :
    Accepts m ⟨path, .map w⟩ (.map g) ↔ ObjectShape m w g ∧ ∀ k want gv,
      Any.lookup (expected m.p.ns w) k = some want → Any.lookup g k = some gv →
        Accepts m ⟨join path k, want⟩ gv := by
  have hexpected : ((expected m.p.ns w).map Prod.fst).Nodup := nodup_keys_lastEntries _
  have hread : ∀ e ∈ expected m.p.ns w,
      failuresUnder m path (Any.sortMembers (Any.rereadEntries g)) e = [] ↔
        ∃ gv, Any.lookup g e.1 = some gv ∧ Accepts m ⟨join path e.1, e.2⟩ gv := by
    intro e _
    rw [failuresUnder_eq_nil, lookup_reread hnodup]
    simp only [Option.map_eq_some_iff, Accepts]
    constructor
    · rintro ⟨_, ⟨gv, hgv, rfl⟩, hok⟩
      exact ⟨gv, hgv, hok⟩
    · rintro ⟨gv, hgv, hok⟩
      exact ⟨_, ⟨gv, hgv, rfl⟩, hok⟩
  have hkeys : (∀ e ∈ Any.sortMembers (Any.rereadEntries g), e.1 ∈ (expected m.p.ns w).map Prod.fst) ↔
      ∀ k ∈ g.map Prod.fst, k ∈ (expected m.p.ns w).map Prod.fst := by
    have hperm := (Any.perm_sortMembers (Any.rereadEntries g)).map Prod.fst
    rw [Any.rereadEntries_eq, List.map_map] at hperm
    rw [← List.forall_mem_map (P := fun k => k ∈ (expected m.p.ns w).map Prod.fst), Any.rereadEntries_eq]
    exact forall_congr' fun k => imp_congr_left hperm.mem_iff
  have hsplit : Accepts m ⟨path, .map w⟩ (.map g) ↔
      (∀ e ∈ expected m.p.ns w, ∃ gv, Any.lookup g e.1 = some gv ∧ Accepts m ⟨join path e.1, e.2⟩ gv) ∧
        (∀ k ∈ g.map Prod.fst, k ∈ (expected m.p.ns w).map Prod.fst) ∧
          ∀ iat ∈ instant g "iat", ∀ exp ∈ instant g "exp", iat.value < exp.value := by
    unfold Accepts
    rw [Any.reread, matchValue_map_eq_nil_iff, timeFailures_eq_nil_iff hnodup, hkeys]
    exact and_congr_left' (forall₂_congr hread)
  rw [hsplit]
  constructor
  · rintro ⟨hmembers, hextra, htimes⟩
    refine ⟨⟨fun k => ⟨hextra k, fun hk => ?_⟩, htimes⟩, fun k want gv hwant hgv => ?_⟩
    · obtain ⟨e, he, rfl⟩ := List.mem_map.mp hk
      obtain ⟨gv, hgv, -⟩ := hmembers e he
      exact Any.exists_lookup_iff.mp ⟨gv, hgv⟩
    · obtain ⟨gv', hgv', hok⟩ := hmembers _ (Any.mem_of_lookup hwant)
      obtain rfl := Option.some.inj (hgv'.symm.trans hgv)
      exact hok
  · rintro ⟨hshape, hchildren⟩
    refine ⟨fun e he => ?_, fun k => (hshape.keys k).mp, hshape.times⟩
    obtain ⟨gv, hgv⟩ := Any.exists_lookup_iff.mpr
      ((hshape.keys e.1).mpr (List.mem_map_of_mem (f := Prod.fst) he))
    exact ⟨gv, hgv, hchildren e.1 e.2 gv ((Any.lookup_eq_some hexpected).mpr he) hgv⟩

/-- The text of an entry; what is no string has an empty one. -/
def audienceText : Any → String
  | .string s => s
  | _ => ""

/-- The entries have the texts of the registered audiences. If none is known, they are texts. -/
def AudiencesMatch (audiences : List String) (rest : List Any) : Prop :=
  if 0 < audiences.length then rest.map audienceText = audiences
  else ∀ s ∈ rest.map audienceText, s ≠ ""

theorem audienceText_reread (v : Any) : audienceText v.reread = audienceText v := by
  cases v <;> rfl

theorem ite_fail_eq_nil {P : Prop} [Decidable P] {complaint : Complaint} :
    (if P then fail path complaint else []) = [] ↔ ¬ P := by
  by_cases h : P <;> simp [h, fail_ne_nil]

/-- Something is found for no entry, whatever its index. -/
theorem flatMap_zipIdx_eq_nil_iff {α : Type} {l : List α} {f : α × ℕ → List Failure} {P : α → Prop}
    (hf : ∀ x j, f (x, j) = [] ↔ P x) : l.zipIdx.flatMap f = [] ↔ ∀ x ∈ l, P x := by
  rw [List.flatMap_eq_nil_iff]
  constructor
  · intro h x hx
    obtain ⟨j, hj⟩ := List.mem_iff_getElem?.mp hx
    exact (hf x j).mp (h (x, j) (List.mem_zipIdx_iff_getElem?.mpr hj))
  · rintro h ⟨x, j⟩ hx
    exact (hf x j).mpr (h x (List.fst_mem_of_mem_zipIdx hx))

variable {g w : List Any} {v : Any} {i : ℕ} {rest fixed : List Any}

/-- Entries are compared by their texts. -/
theorem matchAudiences_eq_nil_iff {audiences : List String} :
    matchAudiences audiences path i rest = [] ↔ AudiencesMatch audiences rest := by
  unfold matchAudiences AudiencesMatch
  split
  · have hforall : rest.map audienceText = audiences ↔
        rest.length = audiences.length ∧ ∀ x ∈ audiences.zip rest, audienceText x.2 = x.1 := by
      rw [eq_comm, ← List.forall₂_eq_eq_eq, List.forall₂_map_right_iff, List.forall₂_iff_zip, Prod.forall]
      exact and_congr eq_comm (forall₃_congr fun a el _ => eq_comm)
    by_cases hlength : rest.length = audiences.length
    · rw [if_neg (not_not.mpr hlength),
        flatMap_zipIdx_eq_nil_iff (P := fun x => audienceText x.2 = x.1), hforall]
      · simp [hlength]
      · rintro ⟨a, el⟩ j
        cases el with
        | string s => exact ite_fail_eq_nil.trans not_not
        | _ => exact ite_fail_eq_nil.trans not_not
    · rw [if_pos hlength, hforall]
      simp [hlength, fail_ne_nil]
  · rw [flatMap_zipIdx_eq_nil_iff (P := fun el => audienceText el ≠ ""), List.forall_mem_map]
    intro el j
    cases el with
    | string s => exact ite_fail_eq_nil
    | _ => simp [audienceText, fail_ne_nil]

/-- The lengths of the arrays go together, and the entries for the audiences are right. -/
inductive ArrayShape (m : Matcher) (path : String) : List Any → List Any → Prop
  | keys {w g : List Any} (hkeys : IsKeyList m path w) (hg : g ≠ []) : ArrayShape m path w g
  | audiences {fixed g : List Any} (hkeys : ¬ IsKeyList m path (fixed ++ [.string "<audience>"]))
    (hfixed : ∀ v ∈ fixed, isAudience v = false) (hlength : fixed.length < g.length)
    (hmatch : AudiencesMatch m.p.audiences (g.drop fixed.length)) :
    ArrayShape m path (fixed ++ [.string "<audience>"]) g
  | fixed {w g : List Any} (hkeys : ¬ IsKeyList m path w) (hfixed : ∀ v ∈ w, isAudience v = false)
    (hlength : g.length = w.length) : ArrayShape m path w g

theorem eq_of_isAudience (h : isAudience v = true) : v = .string "<audience>" := by
  cases v with
  | string s => rw [of_decide_eq_true h]
  | _ => cases h

/-- With a place for the audiences, the entries from there on are the audiences. -/
theorem ArrayShape.of_audiences (h : ArrayShape m path (fixed ++ [.string "<audience>"]) g)
    (hkeys : ¬ IsKeyList m path (fixed ++ [.string "<audience>"])) :
    fixed.length < g.length ∧ AudiencesMatch m.p.audiences (g.drop fixed.length) := by
  generalize hw : fixed ++ [Any.string "<audience>"] = w at h hkeys
  cases h with
  | keys hkeys' => exact absurd hkeys' hkeys
  | fixed _ hfixed =>
    cases hfixed (.string "<audience>") (hw ▸ List.mem_append_right _ (List.mem_singleton_self _))
  | audiences _ _ hlength hmatch =>
    obtain rfl := List.append_cancel_right hw
    exact ⟨hlength, hmatch⟩

/-- The entries before the first place for audiences. -/
theorem exists_fixed (h : ¬ ∀ v ∈ w, isAudience v = false) :
    ∃ fixed rest, w = fixed ++ .string "<audience>" :: rest ∧ ∀ v ∈ fixed, isAudience v = false := by
  induction w with
  | nil => exact absurd (List.forall_mem_nil _) h
  | cons v w ih =>
    cases hv : isAudience v with
    | true => exact ⟨[], w, by rw [eq_of_isAudience hv, List.nil_append], List.forall_mem_nil _⟩
    | false =>
      have hw : ¬ ∀ v ∈ w, isAudience v = false := fun hw => h (List.forall_mem_cons.mpr ⟨hv, hw⟩)
      obtain ⟨fixed, rest, rfl, hfixed⟩ := ih hw
      exact ⟨v :: fixed, rest, rfl, List.forall_mem_cons.mpr ⟨hv, hfixed⟩⟩

theorem entryAt_append (hfixed : ∀ v ∈ fixed, isAudience v = false)
    (hkeys : ¬ IsKeyList m path (fixed ++ .string "<audience>" :: rest)) (i : ℕ) :
    entryAt m path (fixed ++ .string "<audience>" :: rest) i = fixed[i]? := by
  have htake : (fixed ++ Any.string "<audience>" :: rest).takeWhile (fun v => !isAudience v) = fixed := by
    rw [List.takeWhile_append_of_pos fun v hv => by rw [hfixed v hv]; rfl,
      List.takeWhile_cons_of_neg (by decide), List.append_nil]
  rw [entryAt, if_neg hkeys, htake]

theorem entryAt_of_forall (hfixed : ∀ v ∈ w, isAudience v = false) (hkeys : ¬ IsKeyList m path w)
    (i : ℕ) : entryAt m path w i = w[i]? := by
  have htake : w.takeWhile (fun v => !isAudience v) = w :=
    List.takeWhile_eq_self_iff.mpr fun v hv => by rw [hfixed v hv]; rfl
  rw [entryAt, if_neg hkeys, htake]

/-- Entries are compared one by one, as far as there are both. -/
theorem matchEntries_eq_nil_iff :
    matchEntries m path i (g.map Any.reread) w = [] ↔ ∀ (j : ℕ) (want el : Any), w[j]? = some want →
      g[j]? = some el → Accepts m ⟨entryPath path (i + j), want⟩ el := by
  induction w generalizing i g with
  | nil => simp [matchEntries]
  | cons want w ih =>
    cases g with
    | nil => simp [matchEntries]
    | cons el g =>
      rw [List.map_cons, matchEntries, List.append_eq_nil_iff, ih]
      constructor
      · rintro ⟨hhead, htail⟩ j want' el' hw hg
        cases j with
        | zero =>
          cases hw
          cases hg
          exact hhead
        | succ j =>
          rw [← Nat.succ_add_eq_add_succ]
          exact htail j want' el' hw hg
      · intro h
        refine ⟨h 0 want el rfl rfl, fun j want' el' hw hg => ?_⟩
        have hnext := h (j + 1) want' el' hw hg
        rwa [← Nat.succ_add_eq_add_succ] at hnext

theorem accepts_slice :
    Accepts m ⟨path, .slice w⟩ (.slice g) ↔ matchArray m path w (g.map Any.reread)
      (fun path el => matchFirst m path el w) (fun g => matchEntries m path 0 g w) = [] := by
  rw [Accepts, Any.reread, matchValue, Any.rereadElements_eq]

/-- Every key is compared with the one of the fixture. -/
theorem accepts_slice_of_keys (hkeys : IsKeyList m path w) :
    Accepts m ⟨path, .slice w⟩ (.slice g) ↔ g ≠ [] ∧ ∀ i want el, entryAt m path w i = some want →
      g[i]? = some el → Accepts m ⟨entryPath path i, want⟩ el := by
  obtain ⟨want, rfl⟩ := List.length_eq_one_iff.mp hkeys.2.2
  have hentry : ∀ i, entryAt m path [want] i = some want := fun i => if_pos hkeys
  rw [accepts_slice, matchArray, if_pos (show _ ∧ _ ∧ _ from hkeys), List.append_eq_nil_iff,
    ite_fail_eq_nil, List.flatMap_eq_nil_iff, List.length_map, List.length_eq_zero_iff]
  refine and_congr_right fun _ => ?_
  constructor
  · intro h i want' el hwant hel
    obtain rfl := Option.some.inj ((hentry i).symm.trans hwant)
    refine h (el.reread, i) (List.mem_zipIdx_iff_getElem?.mpr ?_)
    rw [List.getElem?_map, hel, Option.map_some]
  · rintro h ⟨el, i⟩ hel
    have hget := List.mem_zipIdx_iff_getElem?.mp hel
    rw [List.getElem?_map] at hget
    obtain ⟨el, hget, rfl⟩ := Option.map_eq_some_iff.mp hget
    exact h i want el (hentry i) hget

theorem accepts_slice_of_fixed (hkeys : ¬ IsKeyList m path w)
    (hfixed : ∀ v ∈ w, isAudience v = false) :
    Accepts m ⟨path, .slice w⟩ (.slice g) ↔ g.length = w.length ∧ ∀ i want el,
      entryAt m path w i = some want → g[i]? = some el → Accepts m ⟨entryPath path i, want⟩ el := by
  have hnone : w.findIdx? isAudience = none := List.findIdx?_eq_none_iff.mpr hfixed
  rw [accepts_slice, matchArray, if_neg (show ¬ (_ ∧ _ ∧ _) from hkeys), hnone]
  by_cases hlength : g.length = w.length
  · simp only [List.length_map, hlength, ne_eq, not_true, if_false, true_and, matchEntries_eq_nil_iff,
      zero_add, entryAt_of_forall hfixed hkeys]
  · simp [hlength, fail_ne_nil]

/-- The place of the audiences is where the fixed entries end. -/
theorem findIdx?_isAudience (hfixed : ∀ v ∈ fixed, isAudience v = false) (rest : List Any) :
    (fixed ++ .string "<audience>" :: rest).findIdx? isAudience = some fixed.length := by
  have hhere : isAudience (.string "<audience>") = true := rfl
  rw [List.findIdx?_append, List.findIdx?_eq_none_iff.mpr hfixed, List.findIdx?_cons, hhere]
  simp

theorem accepts_slice_of_audiences (hkeys : ¬ IsKeyList m path (fixed ++ [.string "<audience>"]))
    (hfixed : ∀ v ∈ fixed, isAudience v = false) :
    Accepts m ⟨path, .slice (fixed ++ [.string "<audience>"])⟩ (.slice g) ↔
      (fixed.length < g.length ∧ AudiencesMatch m.p.audiences (g.drop fixed.length)) ∧ ∀ i want el,
        entryAt m path (fixed ++ [.string "<audience>"]) i = some want → g[i]? = some el →
          Accepts m ⟨entryPath path i, want⟩ el := by
  have hlast : ¬ fixed.length ≠ (fixed ++ [Any.string "<audience>"]).length - 1 := by simp
  have htexts : AudiencesMatch m.p.audiences ((g.drop fixed.length).map Any.reread) ↔
      AudiencesMatch m.p.audiences (g.drop fixed.length) := by
    unfold AudiencesMatch
    rw [List.map_map, show audienceText ∘ Any.reread = audienceText from funext audienceText_reread]
  rw [accepts_slice, matchArray, if_neg (show ¬ (_ ∧ _ ∧ _) from hkeys), findIdx?_isAudience hfixed]
  simp only [if_neg hlast, List.length_map]
  by_cases hlength : fixed.length < g.length
  · rw [if_neg (by omega), List.append_eq_nil_iff, matchAudiences_eq_nil_iff, ← List.map_take,
      ← List.map_drop, matchEntries_eq_nil_iff, htexts]
    simp only [zero_add, entryAt_append hfixed hkeys]
    rw [and_comm, and_iff_right hlength]
    refine and_congr_right fun _ => forall₃_congr fun j want el => ?_
    -- as far as the fixed entries go, this is about the entries of the whole arrays
    by_cases hj : j < fixed.length
    · rw [List.getElem?_append_left hj, List.getElem?_take_of_lt hj]
    · have htake : (g.take fixed.length)[j]? = none := by
        rw [List.getElem?_eq_none_iff, List.length_take]
        omega
      have hnone : fixed[j]? = none := List.getElem?_eq_none_iff.mpr (not_lt.mp hj)
      simp [htake, hnone]
  · rw [if_pos (by omega)]
    simp [hlength, fail_ne_nil]

/-- Nothing may follow the place of the audiences. -/
theorem not_accepts_slice (hkeys : ¬ IsKeyList m path (fixed ++ .string "<audience>" :: rest))
    (hfixed : ∀ v ∈ fixed, isAudience v = false) (hrest : rest ≠ []) :
    ¬ Accepts m ⟨path, .slice (fixed ++ .string "<audience>" :: rest)⟩ (.slice g) := by
  have hpos : 0 < rest.length := List.length_pos_iff.mpr hrest
  have hlast : fixed.length ≠ (fixed ++ Any.string "<audience>" :: rest).length - 1 := by
    rw [List.length_append, List.length_cons]
    omega
  rw [accepts_slice, matchArray, if_neg (show ¬ (_ ∧ _ ∧ _) from hkeys), findIdx?_isAudience hfixed]
  simp only [if_pos hlast]
  exact fail_ne_nil _ _

/-- An array is accepted entry by entry. -/
theorem accepts_slice_iff :
    Accepts m ⟨path, .slice w⟩ (.slice g) ↔ ArrayShape m path w g ∧ ∀ i want el,
      entryAt m path w i = some want → g[i]? = some el → Accepts m ⟨entryPath path i, want⟩ el := by
  by_cases hkeys : IsKeyList m path w
  · rw [accepts_slice_of_keys hkeys]
    refine and_congr_left' ⟨.keys hkeys, fun hshape => ?_⟩
    cases hshape with
    | keys _ hg => exact hg
    | audiences hkeys' => exact absurd hkeys hkeys'
    | fixed hkeys' => exact absurd hkeys hkeys'
  · by_cases hfixed : ∀ v ∈ w, isAudience v = false
    · rw [accepts_slice_of_fixed hkeys hfixed]
      refine and_congr_left' ⟨.fixed hkeys hfixed, fun hshape => ?_⟩
      cases hshape with
      | keys hkeys' => exact absurd hkeys' hkeys
      | audiences => cases hfixed _ (List.mem_append_right _ (List.mem_singleton_self _))
      | fixed _ _ hlength => exact hlength
    · obtain ⟨fixed, rest, rfl, hfixed'⟩ := exists_fixed hfixed
      by_cases hrest : rest = []
      · subst hrest
        rw [accepts_slice_of_audiences hkeys hfixed']
        exact and_congr_left'
          ⟨fun h => .audiences hkeys hfixed' h.1 h.2, fun hshape => hshape.of_audiences hkeys⟩
      · refine iff_of_false (not_accepts_slice hkeys hfixed' hrest) ?_
        rintro ⟨hshape, -⟩
        generalize hw : fixed ++ Any.string "<audience>" :: rest = w at hshape
        cases hshape with
        | keys hkeys' => exact hkeys (hw ▸ hkeys')
        | audiences _ hfixed'' =>
          -- the first place of the audiences is the last one
          have hfirst := congrArg (List.findIdx? isAudience) hw
          rw [findIdx?_isAudience hfixed', findIdx?_isAudience hfixed'', Option.some.injEq] at hfirst
          exact hrest (List.cons.inj (List.append_inj hw hfirst).2).2
        | fixed _ hw' => exact hfixed (hw ▸ hw')

/-! ### Step by step -/

/-- The fixture and the document are both objects or both arrays, with the same children. -/
def Shape (m : Matcher) (node : Node) (v : Any) : Prop :=
  match node.want, v with
  | .map w, .map g => ObjectShape m w g
  | .slice w, .slice g => ArrayShape m node.path w g
  | _, _ => False

variable {node : Node} {got new : Any}

/-- What is accepted is accepted child by child. -/
theorem accepts_iff (hv : v.DistinctKeys) (hshape : Shape m node v) :
    Accepts m node v ↔ ∀ step node' g, below m node step = some node' → v.child step = some g →
      Accepts m node' g := by
  obtain ⟨path, want⟩ := node
  cases want with
  | map w =>
    cases v with
    | map g =>
      rw [accepts_map_iff hv.nodup, and_iff_right (show ObjectShape m w g from hshape)]
      constructor
      · intro h step node' gv hbelow hchild
        cases step with
        | key k =>
          obtain ⟨want, hwant, rfl⟩ := Option.map_eq_some_iff.mp hbelow
          exact h k want gv hwant hchild
        | index i => cases hbelow
      · intro h k want gv hwant hgv
        exact h (.key k) ⟨join path k, want⟩ gv (Option.map_eq_some_iff.mpr ⟨want, hwant, rfl⟩) hgv
    | _ => exact hshape.elim
  | slice w =>
    cases v with
    | slice g =>
      rw [accepts_slice_iff, and_iff_right (show ArrayShape m path w g from hshape)]
      constructor
      · intro h step node' el hbelow hchild
        cases step with
        | key k => cases hbelow
        | index i =>
          obtain ⟨want, hwant, rfl⟩ := Option.map_eq_some_iff.mp hbelow
          exact h i want el hwant hchild
      · intro h i want el hwant hel
        exact h (.index i) ⟨entryPath path i, want⟩ el
          (Option.map_eq_some_iff.mpr ⟨want, hwant, rfl⟩) hel
    | _ => exact hshape.elim
  | _ => simp [Shape] at hshape

/-- An object or an array. -/
def IsContainer : Any → Prop
  | .slice _ => True
  | .map _ => True
  | _ => False

theorem IsContainer.slice_or_map (h : IsContainer v) : (∃ g, v = .slice g) ∨ ∃ g, v = .map g := by
  cases v with
  | slice g => exact .inl ⟨g, rfl⟩
  | map g => exact .inr ⟨g, rfl⟩
  | _ => exact h.elim

theorem isContainer_of_child {g : Any} {step : Any.Step} (h : v.child step = some g) :
    IsContainer v := by
  cases v with
  | slice _ => trivial
  | map _ => trivial
  | _ => cases step <;> cases h

theorem isContainer_reread (h : IsContainer v) : IsContainer v.reread := by
  rcases h.slice_or_map with ⟨g, rfl⟩ | ⟨g, rfl⟩
  · exact trivial
  · exact trivial

theorem number_eq_none (h : IsContainer v) : number v = none := by
  rcases h.slice_or_map with ⟨g, rfl⟩ | ⟨g, rfl⟩
  · rfl
  · rfl

theorem str_ne_nil (h : IsContainer got) (re : Option (String → Bool)) (desc exact : String) :
    str path re desc exact got ≠ [] := by
  rcases h.slice_or_map with ⟨g, rfl⟩ | ⟨g, rfl⟩
  · exact fail_ne_nil _ _
  · exact fail_ne_nil _ _

theorem integer_ne_nil (h : IsContainer got) (min : ℕ) : integer path min got ≠ [] := by
  rw [integer, number_eq_none h]
  exact fail_ne_nil _ _

theorem tokenRule_ne_nil (h : IsContainer got) (exact : String) :
    tokenRule path exact got ≠ [] := by
  rcases h.slice_or_map with ⟨g, rfl⟩ | ⟨g, rfl⟩
  · exact fail_ne_nil _ _
  · exact fail_ne_nil _ _

theorem thumbprintRule_ne_nil (h : IsContainer got) (exact : String) :
    thumbprintRule path exact got ≠ [] := by
  unfold thumbprintRule
  split
  · exact str_ne_nil h _ _ _
  · rcases h.slice_or_map with ⟨g, rfl⟩ | ⟨g, rfl⟩
    · exact fail_ne_nil _ _
    · exact fail_ne_nil _ _

theorem versionRule_ne_nil (h : IsContainer got) (version : Int64) :
    versionRule path version got ≠ [] := by
  unfold versionRule
  split
  · rw [number_eq_none h]
    exact fail_ne_nil _ _
  · exact integer_ne_nil h 1

/-- Only the two placeholders without a fixed form accept an object or an array. -/
theorem ruleOf_ne_nil {kind : Kind} (hroles : kind ≠ .appRoles) (hattribute : kind ≠ .userAttribute)
    (hgot : IsContainer got) (p : Params) (arg : String) :
    ruleOf p path kind arg got ≠ [] := by
  unfold ruleOf
  cases kind with
  | appRoles => exact absurd rfl hroles
  | userAttribute => exact absurd rfl hattribute
  | iat | nbf | authTime | exp | refreshExp | expiresIn => exact integer_ne_nil hgot 1
  | accessToken | refreshToken | idToken => exact tokenRule_ne_nil hgot _
  | jkt => exact thumbprintRule_ne_nil hgot _
  | tokenVersion => exact versionRule_ne_nil hgot _
  | _ => exact str_ne_nil hgot _ _ _

theorem Kind.eq_of_ofName {name : String} {kind : Kind} (h : Kind.ofName name = some kind) :
    (name, kind) ∈ kindNames := by
  obtain ⟨before, after, hsplit, -⟩ := List.lookup_eq_some_iff.mp h
  simp [hsplit]

theorem rule_ne_nil {s name arg : String} (hs : placeholder s = some (name, arg))
    (hfree : ¬ IsFreeForm (.string s)) (hgot : IsContainer got) (p : Params) :
    rule p path name arg got ≠ [] := by
  unfold rule
  cases hkind : Kind.ofName name with
  | none => exact fail_ne_nil _ _
  | some kind =>
    have hmem := Kind.eq_of_ofName hkind
    refine ruleOf_ne_nil ?_ ?_ hgot p arg
    · rintro rfl
      exact hfree ⟨name, arg, hs, .inl (by simpa [kindNames] using hmem)⟩
    · rintro rfl
      exact hfree ⟨name, arg, hs, .inr (by simpa [kindNames] using hmem)⟩

theorem matchLeaf_ne_nil {want : Any} (hdecoded : want.Decoded) (hfree : ¬ IsFreeForm want)
    (hleaf : ¬ IsContainer want) (hgot : IsContainer got) : matchLeaf m path want got ≠ [] := by
  cases want with
  | slice w => exact absurd trivial hleaf
  | map w => exact absurd trivial hleaf
  | string s =>
    cases hs : placeholder s with
    | some kind =>
      rw [matchLeaf, hs]
      exact rule_ne_nil hs hfree hgot m.p
    | none =>
      rw [matchLeaf, hs]
      rcases hgot.slice_or_map with ⟨g, rfl⟩ | ⟨g, rfl⟩
      · exact fail_ne_nil _ _
      · exact fail_ne_nil _ _
  | float64 f =>
    rw [matchLeaf, number_eq_none hgot]
    exact fail_ne_nil _ _
  | int64 n => exact hdecoded.node.elim
  | number literal => exact hdecoded.node.elim
  | _ =>
    rcases hgot.slice_or_map with ⟨g, rfl⟩ | ⟨g, rfl⟩
    · exact fail_ne_nil _ _
    · exact fail_ne_nil _ _

theorem matchValue_of_leaf {want : Any} (h : ¬ IsContainer want) (got : Any) :
    matchValue m path want got = matchLeaf m path want got := by
  cases want with
  | slice w => exact absurd trivial h
  | map w => exact absurd trivial h
  | _ =>
    rw [matchValue]
    all_goals
      rintro _ ⟨⟩

/-- An object or an array that is accepted has the shape of the fixture. -/
theorem Accepts.shape (hok : Accepts m node v) (hv : v.DistinctKeys) (hcontainer : IsContainer v)
    (hdecoded : node.want.Decoded) (hfree : ¬ IsFreeForm node.want) :
    Shape m node v := by
  obtain ⟨path, want⟩ := node
  have hwant : IsContainer want := by
    by_contra hleaf
    have hnil : matchLeaf m path want v.reread = [] := (matchValue_of_leaf hleaf _).symm.trans hok
    exact matchLeaf_ne_nil hdecoded hfree hleaf (isContainer_reread hcontainer) hnil
  cases want with
  | map w =>
    cases v with
    | map g => exact ((accepts_map_iff hv.nodup).mp hok).1
    | slice g => exact absurd hok (fail_ne_nil _ _)
    | _ => exact hcontainer.elim
  | slice w =>
    cases v with
    | slice g => exact (accepts_slice_iff.mp hok).1
    | map g => exact absurd hok (fail_ne_nil _ _)
    | _ => exact hcontainer.elim
  | _ => exact hwant.elim

/-- Every child of an accepted document is compared with a part of the fixture, or with an audience. -/
theorem Shape.covers {g : Any} {step : Any.Step} (hshape : Shape m node v)
    (hg : v.child step = some g) :
    (∃ node', below m node step = some node') ∨ AudienceEntry m node step := by
  obtain ⟨path, want⟩ := node
  cases v with
  | map entries =>
    cases step with
    | index i => cases hg
    | key k =>
      cases want with
      | map w =>
        obtain ⟨want, hwant⟩ := Any.exists_lookup_iff.mpr
          ((ObjectShape.keys hshape k).mp (Any.exists_lookup_iff.mp ⟨g, hg⟩))
        exact .inl ⟨_, Option.map_eq_some_iff.mpr ⟨want, hwant, rfl⟩⟩
      | _ => exact hshape.elim
  | slice elements =>
    cases step with
    | key k => cases hg
    | index i =>
      cases want with
      | slice w =>
        obtain ⟨hi, -⟩ := List.getElem?_eq_some_iff.mp hg
        have hnode : ∀ want, entryAt m path w i = some want →
            ∃ node', below m ⟨path, .slice w⟩ (.index i) = some node' :=
          fun want hwant => ⟨_, Option.map_eq_some_iff.mpr ⟨want, hwant, rfl⟩⟩
        cases (show ArrayShape m path w elements from hshape) with
        | keys hkeys =>
          obtain ⟨want, rfl⟩ := List.length_eq_one_iff.mp hkeys.2.2
          exact .inl (hnode want (if_pos hkeys))
        | fixed hkeys hfixed hlength =>
          refine .inl (hnode w[i] ?_)
          rw [entryAt_of_forall hfixed hkeys, List.getElem?_eq_getElem]
        | @audiences fixed _ hkeys hfixed =>
          by_cases hlt : i < fixed.length
          · refine .inl (hnode fixed[i] ?_)
            rw [entryAt_append hfixed hkeys, List.getElem?_eq_getElem hlt]
          · exact .inr ⟨fixed, i, rfl, hkeys, rfl, not_lt.mp hlt⟩
      | _ => exact hshape.elim
  | _ => cases step <;> cases hg

/-- An audience is not compared with a part of the fixture. -/
theorem AudienceEntry.below_eq_none {step : Any.Step} (h : AudienceEntry m node step) :
    below m node step = none := by
  obtain ⟨path, want⟩ := node
  obtain ⟨fixed, i, rfl, hkeys, rfl, hle⟩ := h
  have hlength : ((fixed ++ [Any.string "<audience>"]).takeWhile fun v => !isAudience v).length ≤
      fixed.length := by
    rw [List.takeWhile_append]
    split
    · rw [List.takeWhile_cons_of_neg (by decide), List.append_nil]
    · exact (List.takeWhile_prefix _).length_le
  have hnone : entryAt m path (fixed ++ [.string "<audience>"]) i = none := by
    rw [entryAt, if_neg hkeys, List.getElem?_eq_none_iff]
    exact hlength.trans hle
  show (entryAt m path (fixed ++ [.string "<audience>"]) i).map _ = none
  rw [hnone]
  rfl

theorem audienceText_eq_empty (h : IsContainer v) : audienceText v = "" := by
  rcases h.slice_or_map with ⟨g, rfl⟩ | ⟨g, rfl⟩
  · rfl
  · rfl

theorem ObjectShape.assign {w entries : List (String × Any)} {k : String} {g : Any}
    (hshape : ObjectShape m w entries) (hg : Any.lookup entries k = some g)
    (hcontainer : IsContainer g) (hnew : IsContainer new) :
    ObjectShape m w (Any.assign entries k new) := by
  have hinstant : ∀ k', instant (Any.assign entries k new) k' = instant entries k' := by
    intro k'
    unfold instant
    rw [Any.lookup_assign]
    split
    · -- neither value is a number
      rename_i hk
      rw [hk, hg, Option.bind_some, Option.bind_some, number_eq_none (isContainer_reread hnew),
        number_eq_none (isContainer_reread hcontainer)]
    · rfl
  refine ⟨fun k' => ?_, ?_⟩
  · rw [← hshape.keys k', ← Any.exists_lookup_iff, ← Any.exists_lookup_iff, Any.lookup_assign]
    split
    · rename_i hk
      rw [hk, hg]
      exact ⟨fun _ => ⟨g, rfl⟩, fun _ => ⟨new, rfl⟩⟩
    · rfl
  · rw [hinstant, hinstant]
    exact hshape.times

theorem ArrayShape.set {elements : List Any} {g : Any} (hshape : ArrayShape m path w elements)
    (hg : elements[i]? = some g) (hcontainer : IsContainer g) (hnew : IsContainer new) :
    ArrayShape m path w (elements.set i new) := by
  cases hshape with
  | keys hkeys hne => exact .keys hkeys fun hnil => hne (by simpa using hnil)
  | fixed hkeys hfixed hlength => exact .fixed hkeys hfixed (by rw [List.length_set, hlength])
  | @audiences fixed _ hkeys hfixed hlength hmatch =>
    -- the texts of the audiences stay
    have htexts : ((elements.set i new).drop fixed.length).map audienceText =
        (elements.drop fixed.length).map audienceText := by
      rw [List.map_drop, List.map_drop]
      refine congrArg _ (List.ext_getElem? fun j => ?_)
      rw [List.getElem?_map, List.getElem?_map]
      by_cases hij : i = j
      · obtain ⟨hlt, -⟩ := List.getElem?_eq_some_iff.mp hg
        rw [← hij, hg, List.getElem?_set_self hlt, Option.map_some, Option.map_some,
          audienceText_eq_empty hnew, audienceText_eq_empty hcontainer]
      · rw [List.getElem?_set_ne hij]
    refine .audiences hkeys hfixed (by rwa [List.length_set]) ?_
    rwa [AudiencesMatch, htexts]

/-- The shape does not depend on what is in an object or an array. -/
theorem Shape.setChild {g : Any} {step : Any.Step} (hshape : Shape m node v)
    (hg : v.child step = some g) (hcontainer : IsContainer g) (hnew : IsContainer new) :
    Shape m node (v.setChild step new) := by
  obtain ⟨path, want⟩ := node
  cases v with
  | map entries =>
    cases step with
    | index i => cases hg
    | key k =>
      cases want with
      | map w => exact ObjectShape.assign hshape hg hcontainer hnew
      | _ => exact hshape.elim
  | slice elements =>
    cases step with
    | key k => cases hg
    | index i =>
      cases want with
      | slice w => exact ArrayShape.set hshape hg hcontainer hnew
      | _ => exact hshape.elim
  | _ => cases step <;> cases hg

theorem Shape.exists_map {g : List (String × Any)} (h : Shape m node (.map g)) :
    ∃ w, node.want = .map w ∧ ObjectShape m w g := by
  obtain ⟨path, want⟩ := node
  cases want with
  | map w => exact ⟨w, rfl, h⟩
  | _ => exact h.elim

theorem Shape.exists_slice (h : Shape m node (.slice g)) :
    ∃ w, node.want = .slice w ∧ ArrayShape m node.path w g := by
  obtain ⟨path, want⟩ := node
  cases want with
  | slice w => exact ⟨w, rfl, h⟩
  | _ => exact h.elim

/-- The entry of an audience is an object or an array only if the audience is empty. -/
theorem Shape.empty_mem_audiences {g : Any} {step : Any.Step} (hshape : Shape m node v)
    (hentry : AudienceEntry m node step) (hg : v.child step = some g) (hcontainer : IsContainer g) :
    "" ∈ m.p.audiences := by
  obtain ⟨fixed, i, hwant, hkeys, rfl, hle⟩ := hentry
  cases v with
  | slice elements =>
    obtain ⟨w, hw, harray⟩ := hshape.exists_slice
    obtain rfl := Any.slice.inj (hwant.symm.trans hw)
    obtain ⟨-, hmatch⟩ := harray.of_audiences hkeys
    have hmem : "" ∈ (elements.drop fixed.length).map audienceText := by
      refine List.mem_map.mpr ⟨g, ?_, audienceText_eq_empty hcontainer⟩
      refine List.mem_iff_getElem?.mpr ⟨i - fixed.length, ?_⟩
      rw [List.getElem?_drop, Nat.add_sub_cancel' hle]
      exact hg
    unfold AudiencesMatch at hmatch
    split at hmatch
    · exact hmatch ▸ hmem
    · exact absurd rfl (hmatch "" hmem)
  | _ => cases hg

end Comparison

end Conformance
