import BackendKit.Conformance.Rules
import BackendKit.GoStd.Errors

/-!
# What is loaded matches

`Load` and `Match` go through a fixture independently of each other. `matchFixture_load` says that they
agree: what `Load` returns satisfies `Match` for the same fixture and the same parameters.

A fixture is any tree of literals and placeholders (`Template`), or the shipped key set. `Agrees` is the
property that is inherited from the parts of a template to the whole: what the resolver makes of it is
JSON data, and after it was written and decoded again the matcher finds no difference, wherever it stands.
-/

open GoStd

namespace Conformance

/-- A name of a fixture after the substitution of the namespace. -/
def fullName (ns name : String) : String := replaceAll name nsToken ns

/-- A token stands at most once in a text. -/
def AtMostOnce (token s : String) : Prop :=
  ∀ before after, cutAround token.toList s.toList = some (before, after) →
    cutAround token.toList after = none

/-- The placeholder of an instant after `<iat>`. -/
def IsExpiry (v : Any) : Prop := v = .string "<exp>" ∨ v = .string "<refresh_exp>"

/-- The templates of fixtures, for a namespace. -/
inductive Template (ns : String) : Any → Prop
  | nil : Template ns .nil
  | bool (b : Bool) : Template ns (.bool b)
  | float64 (f : Float64) : Template ns (.float64 f)
  | literal {s : String} (hs : placeholder s = none) (hissuer : AtMostOnce issuerToken s) :
    Template ns (.string s)
  | placeholder {s name arg : String} (hs : placeholder s = some (name, arg))
    (hscope : name = "scope" → arg ≠ "") : Template ns (.string s)
  | slice {elements : List Any} (haudience : ∀ v ∈ elements.dropLast, isAudience v = false)
    (helements : ∀ v ∈ elements, Template ns v) : Template ns (.slice elements)
  | map {entries : List (String × Any)} (hnodup : (entries.map fun e => fullName ns e.1).Nodup)
    (htimes : ∀ iat ∈ entries, ∀ exp ∈ entries, fullName ns iat.1 = "iat" → fullName ns exp.1 = "exp" →
      iat.2 = .string "<iat>" ∧ IsExpiry exp.2)
    (hentries : ∀ e ∈ entries, Template ns e.2) : Template ns (.map entries)

/-- What the resolver makes of a value has no difference from it. -/
def Agrees (r : Resolver) (want : Any) : Prop :=
  ∀ position path v, r.resolve position want = .ok v →
    v.Plain ∧ matchValue ⟨r.p, false⟩ path want v.reread = []

section Trees

variable {r : Resolver}

/-! ### Objects -/

/-- An entry of a fixture and the entry that it is resolved to. -/
def EntryResolved (r : Resolver) (position : List Any.Step) (e o : String × Any) : Prop :=
  o.1 = fullName r.p.ns e.1 ∧ r.resolve (.key e.1 :: position) e.2 = .ok o.2

variable {position : List Any.Step} {entries resolved : List (String × Any)} {path : String}
  {p : Params} {env : Env} {fixed : List Any} {s : String}

/-- With distinct names each entry is resolved to one of its own. -/
theorem resolveEntries_eq_ok {out out' : List (String × Any)}
    (hnodup : (out.map Prod.fst ++ entries.map fun e => fullName r.p.ns e.1).Nodup)
    (h : r.resolveEntries position out entries = .ok out') :
    ∃ resolved, out' = out ++ resolved ∧ List.Forall₂ (EntryResolved r position) entries resolved := by
  induction entries generalizing out with
  | nil =>
    rw [Resolver.resolveEntries] at h
    exact ⟨[], by rw [← Except.ok.inj h, List.append_nil], .nil⟩
  | cons e entries ih =>
    obtain ⟨k, val⟩ := e
    rw [Resolver.resolveEntries] at h
    obtain ⟨rv, hrv, hrest⟩ := bind_eq_ok h
    have hfresh : fullName r.p.ns k ∉ out.map Prod.fst := by
      intro hmem
      exact (List.nodup_append.mp hnodup).2.2 _ hmem _ List.mem_cons_self rfl
    have hassign : Any.assign out (replaceAll k nsToken r.p.ns) rv = out ++ [(fullName r.p.ns k, rv)] :=
      Any.assign_of_not_mem hfresh rv
    rw [hassign] at hrest
    obtain ⟨resolved, rfl, hresolved⟩ := ih (by simpa using hnodup) hrest
    exact ⟨(fullName r.p.ns k, rv) :: resolved, by simp, .cons ⟨rfl, hrv⟩ hresolved⟩

theorem keys_of_forall₂ {R : String × Any → String × Any → Prop} {ns : String}
    (hR : ∀ e o, R e o → o.1 = fullName ns e.1) (h : List.Forall₂ R entries resolved) :
    resolved.map Prod.fst = entries.map fun e => fullName ns e.1 := by
  induction h with
  | nil => rfl
  | cons he _ ih => rw [List.map_cons, List.map_cons, ih, hR _ _ he]

/-- The failures of one expected member. -/
def memberFailures (m : Matcher) (path : String) (g : List (String × Any)) (e : String × Any) :
    List Failure :=
  match Any.lookup g (fullName m.p.ns e.1) with
  | none => fail (join path (fullName m.p.ns e.1)) .missing
  | some gv => matchValue m (join path (fullName m.p.ns e.1)) e.2 gv

theorem matchMembers_eq (m : Matcher) (path : String) (g w : List (String × Any)) :
    matchMembers m path g w = w.map fun e => (fullName m.p.ns e.1, memberFailures m path g e) := by
  induction w with
  | nil => rfl
  | cons e w ih =>
    rw [matchMembers, ih]
    rfl

theorem lastEntries_of_nodup {α : Type} {entries : List (String × α)}
    (h : (entries.map Prod.fst).Nodup) : lastEntries entries = entries := by
  induction entries with
  | nil => rfl
  | cons e entries ih =>
    rw [List.map_cons, List.nodup_cons] at h
    rw [lastEntries, if_neg h.1, ih h.2]

/-- An object has the members that are expected, and a token expires after it is issued. -/
theorem matchObject_eq_nil {members : List (String × List Failure)} {g : List (String × Any)}
    (hnodup : (members.map Prod.fst).Nodup) (hmembers : ∀ member ∈ members, member.2 = [])
    (hkeys : ∀ e ∈ g, e.1 ∈ members.map Prod.fst) (htimes : timeFailures path g = []) :
    matchObject path members g = [] := by
  have hfound : (Any.sortMembers members).flatMap (·.2) = [] :=
    List.flatMap_eq_nil_iff.mpr fun member hmember =>
      hmembers member ((Any.perm_sortMembers members).mem_iff.mp hmember)
  have hextra : extraFailures path (members.map Prod.fst) g = [] :=
    List.flatMap_eq_nil_iff.mpr fun e he =>
      if_pos (hkeys e ((Any.perm_sortMembers g).mem_iff.mp he))
  simp only [matchObject, lastEntries_of_nodup hnodup, hfound, hextra, htimes, List.append_nil]

theorem timeFailures_eq_nil {g : List (String × Any)}
    (h : ∀ x y, Any.lookup g "iat" = some x → Any.lookup g "exp" = some y →
      ∃ iat exp, number x = some iat ∧ number y = some exp ∧ iat.value < exp.value) :
    timeFailures path g = [] := by
  unfold timeFailures
  cases hiat : Any.lookup g "iat" with
  | none => rfl
  | some x =>
    cases hexp : Any.lookup g "exp" with
    | none => simp
    | some y =>
      obtain ⟨iat, exp, hx, hy, hlt⟩ := h x y hiat hexp
      simp [hx, hy, hlt]

/-- What is found in an object that was written and decoded again. -/
theorem lookup_reread (hnodup : (resolved.map Prod.fst).Nodup) (k : String) :
    Any.lookup (Any.sortMembers (Any.rereadEntries resolved)) k =
      (Any.lookup resolved k).map Any.reread := by
  have hkeys : ((Any.rereadEntries resolved).map Prod.fst).Nodup := by
    rw [Any.rereadEntries_eq, List.map_map]
    exact hnodup
  rw [← Any.lookup_perm (Any.perm_sortMembers _).symm hkeys, Any.rereadEntries_eq, Any.lookup_map]

/-- The placeholders of the two instants are resolved to numbers in their order. -/
theorem iat_exp_resolved (hp : p.WellFormed env) {position' : List Any.Step} {want iat exp : Any}
    (hwant : IsExpiry want)
    (hiat : (newResolver env p).resolve position (.string "<iat>") = .ok iat)
    (hexp : (newResolver env p).resolve position' want = .ok exp) :
    ∃ i e, number iat.reread = some i ∧ number exp.reread = some e ∧ i.value < e.value := by
  have hiat' : (newResolver env p).resolve position (.string "<iat>") =
      .ok (.int64 (unixSeconds (newResolver env p).now)) := rfl
  obtain rfl := Except.ok.inj (hiat'.symm.trans hiat)
  -- either lifetime is at least a second
  have hlife : ∃ d, Duration.second ≤ d ∧ (newResolver env p).now + d ∈ (newResolver env p).times ∧
      exp = .int64 (unixSeconds ((newResolver env p).now + d)) := by
    rcases hwant with rfl | rfl
    · exact ⟨_, (ttl_bounds hp).1, by simp [Resolver.times], (Except.ok.inj hexp).symm⟩
    · exact ⟨_, second_le_refreshTTL hp, by simp [Resolver.times], (Except.ok.inj hexp).symm⟩
  obtain ⟨d, hd, hmem, rfl⟩ := hlife
  have hlt := unixSeconds_lt hd (newResolver env p).now
  have hnow : 0 ≤ unixSeconds (newResolver env p).now := by
    have := second_le_now hp
    unfold unixSeconds Duration.second at *
    omega
  obtain ⟨i, hi, hivalue⟩ := number_toString hnow (hp.times _ (by simp [Resolver.times]))
  obtain ⟨e, he, hevalue⟩ := number_toString (hnow.trans hlt.le) (hp.times _ hmem)
  refine ⟨i, e, hi, he, ?_⟩
  rw [hivalue, hevalue]
  exact_mod_cast hlt

/-- A member of a fixture and one of a document, before it was written, that has no difference. -/
def MemberMatches (m : Matcher) (path : String) (e o : String × Any) : Prop :=
  o.1 = fullName m.p.ns e.1 ∧ matchValue m (join path o.1) e.2 o.2.reread = []

/-- An object has no difference if its members have none, one by one. -/
theorem matchValue_map_eq_nil {m : Matcher} {w : List (String × Any)}
    (hnodup : (resolved.map Prod.fst).Nodup) (h : List.Forall₂ (MemberMatches m path) w resolved)
    (htimes : timeFailures path (Any.sortMembers (Any.rereadEntries resolved)) = []) :
    matchValue m path (.map w) (Any.map resolved).reread = [] := by
  have hkeys := keys_of_forall₂ (fun _ _ hmatches => hmatches.1) h
  rw [Any.reread, matchValue, matchMembers_eq]
  apply matchObject_eq_nil
  · rw [List.map_map]
    exact hkeys ▸ hnodup
  · -- each expected member is there, and has no difference
    refine List.forall_mem_map.mpr fun e he => ?_
    obtain ⟨o, ho, hname, hvalue⟩ := (exists_of_forall₂ h).1 e he
    have hfound : Any.lookup resolved o.1 = some o.2 := (Any.lookup_eq_some hnodup).mpr ho
    unfold memberFailures
    rw [← hname, lookup_reread hnodup, hfound]
    exact hvalue
  · -- and there is no other
    intro o ho
    have hmem := List.mem_map_of_mem (f := Prod.fst) ((Any.perm_sortMembers _).mem_iff.mp ho)
    rw [Any.rereadEntries_eq, List.map_map] at hmem
    rw [List.map_map]
    exact hkeys ▸ hmem
  · exact htimes

theorem agrees_map (hp : p.WellFormed env) (hnodup : (entries.map fun e => fullName p.ns e.1).Nodup)
    (htimes : ∀ iat ∈ entries, ∀ exp ∈ entries, fullName p.ns iat.1 = "iat" → fullName p.ns exp.1 = "exp" →
      iat.2 = .string "<iat>" ∧ IsExpiry exp.2)
    (h : ∀ e ∈ entries, Agrees (newResolver env p) e.2) :
    Agrees (newResolver env p) (.map entries) := by
  intro position path v hv
  rw [Resolver.resolve] at hv
  obtain ⟨resolved, hresolve, rfl⟩ := map_eq_ok hv
  obtain ⟨resolved, rfl, hresolved⟩ := resolveEntries_eq_ok (by simpa using hnodup) hresolve
  have hnodup' : (resolved.map Prod.fst).Nodup := 
    keys_of_forall₂ (fun _ _ hentry => hentry.1) hresolved ▸ hnodup
  obtain ⟨-, hback⟩ := exists_of_forall₂ hresolved
  refine ⟨Any.plain_map hnodup' fun o ho => ?_, matchValue_map_eq_nil hnodup' ?_ ?_⟩
  · obtain ⟨e, he, -, hvalue⟩ := hback o ho
    exact (h e he _ "" _ hvalue).1
  · refine ((List.forall₂_and_left entries resolved).mpr ⟨h, hresolved⟩).imp ?_
    rintro e o ⟨hagrees, hname, hvalue⟩
    exact ⟨hname, (hagrees _ _ _ hvalue).2⟩
  · refine timeFailures_eq_nil fun x y hx hy => ?_
    rw [lookup_reread hnodup'] at hx hy
    obtain ⟨x, hx', rfl⟩ := Option.map_eq_some_iff.mp hx
    obtain ⟨y, hy', rfl⟩ := Option.map_eq_some_iff.mp hy
    obtain ⟨iat, hiat, hiname, hivalue⟩ := hback _ (Any.mem_of_lookup hx')
    obtain ⟨exp, hexp, hename, hevalue⟩ := hback _ (Any.mem_of_lookup hy')
    obtain ⟨hi, he⟩ := htimes iat hiat exp hexp hiname.symm hename.symm
    rw [hi] at hivalue
    exact iat_exp_resolved hp he hivalue hevalue

/-! ### Arrays -/

/-- An entry of a fixture and the entry that it is resolved to, somewhere. -/
def ElementResolved (r : Resolver) (want v : Any) : Prop := ∃ position, r.resolve position want = .ok v

/-- Entries that do not stand for audiences are resolved one by one. -/
theorem resolveElements_append {i : ℕ} {tail out : List Any}
    (hfixed : ∀ v ∈ fixed, isAudience v = false)
    (h : r.resolveElements position i (fixed ++ tail) = .ok out) :
    ∃ resolved more, out = resolved ++ more ∧ List.Forall₂ (ElementResolved r) fixed resolved ∧
      r.resolveElements position (i + fixed.length) tail = .ok more := by
  induction fixed generalizing i out with
  | nil => exact ⟨[], out, rfl, .nil, h⟩
  | cons el fixed ih =>
    obtain ⟨hel, hfixed'⟩ := List.forall_mem_cons.mp hfixed
    rw [List.cons_append, Resolver.resolveElements, hel] at h
    obtain ⟨here, hhere, h⟩ := bind_eq_ok h
    obtain ⟨more, hmore, h⟩ := bind_eq_ok h
    obtain ⟨rv, hrv, rfl⟩ := map_eq_ok hhere
    obtain ⟨resolved, more', rfl, hresolved, htail⟩ := ih hfixed' hmore
    refine ⟨rv :: resolved, more', (Except.ok.inj h).symm, .cons ⟨_, hrv⟩ hresolved, ?_⟩
    rw [List.length_cons, ← htail]
    congr 1
    omega

/-- Entries that agree with those they were resolved from have no differences. -/
theorem matchEntries_eq_nil {resolved : List Any}
    (h : List.Forall₂ (ElementResolved r) fixed resolved) (hagrees : ∀ v ∈ fixed, Agrees r v)
    (path : String) (i : ℕ) (tail : List Any) :
    matchEntries ⟨r.p, false⟩ path i (resolved.map Any.reread) (fixed ++ tail) = [] := by
  induction h generalizing i with
  | nil => cases tail <;> rfl
  | cons hel _ ih =>
    obtain ⟨hagree, hagrees'⟩ := List.forall_mem_cons.mp hagrees
    obtain ⟨position, hresolve⟩ := hel
    rw [List.map_cons, List.cons_append, matchEntries, (hagree position _ _ hresolve).2,
      ih hagrees' (i + 1)]
    rfl

theorem plain_of_resolved {resolved : List Any}
    (h : List.Forall₂ (ElementResolved r) fixed resolved) (hagrees : ∀ v ∈ fixed, Agrees r v) :
    ∀ v ∈ resolved, v.Plain := by
  intro v hv
  obtain ⟨want, hwant, position, hresolve⟩ := (exists_of_forall₂ h).2 v hv
  exact (hagrees want hwant position "" v hresolve).1

/-- The audiences of the parameters, or the default, are what the matcher asks for. -/
theorem matchAudiences_eq_nil (r : Resolver) (path : String) (i : ℕ) :
    matchAudiences r.p.audiences path i (r.audiences.map Any.string) = [] := by
  unfold matchAudiences Resolver.audiences
  by_cases hset : 0 < r.p.audiences.length
  · have hzip : ∀ as : List String, as.zip (as.map Any.string) = as.map fun a => (a, Any.string a) := by
      intro as
      induction as with
      | nil => rfl
      | cons a as ih => rw [List.map_cons, List.zip_cons_cons, ih, List.map_cons]
    rw [if_pos hset, if_neg hset.ne', if_neg (by simp), hzip]
    refine List.flatMap_eq_nil_iff.mpr fun ⟨e, j⟩ he => ?_
    obtain ⟨a, -, rfl⟩ := List.mem_map.mp (List.fst_mem_of_mem_zipIdx he)
    simp
  · rw [if_neg hset, if_pos (Nat.eq_zero_of_not_pos hset)]
    simp [defaultAudience]

/-- An array without a place for audiences. -/
theorem agrees_slice_fixed {elements : List Any} (hfixed : ∀ v ∈ elements, isAudience v = false)
    (h : ∀ v ∈ elements, Agrees r v) : Agrees r (.slice elements) := by
  intro position path v hv
  rw [Resolver.resolve] at hv
  obtain ⟨out, hresolve, rfl⟩ := map_eq_ok hv
  rw [← List.append_nil elements] at hresolve
  obtain ⟨resolved, more, rfl, hresolved, hmore⟩ := resolveElements_append hfixed hresolve
  obtain rfl : more = [] := (Except.ok.inj hmore).symm
  rw [List.append_nil]
  refine ⟨Any.plain_slice (plain_of_resolved hresolved h), ?_⟩
  have hnone : elements.findIdx? isAudience = none :=
    List.findIdx?_eq_none_iff.mpr hfixed
  have hentries := matchEntries_eq_nil hresolved h path 0 []
  rw [List.append_nil] at hentries
  rw [Any.reread, matchValue, Any.rereadElements_eq]
  simp [matchArray, hnone, hresolved.length_eq, hentries]

/-- An array with the audiences after its fixed entries. -/
theorem agrees_slice_audience {last : Any} (hlast : isAudience last = true)
    (hfixed : ∀ v ∈ fixed, isAudience v = false) (h : ∀ v ∈ fixed, Agrees r v) :
    Agrees r (.slice (fixed ++ [last])) := by
  intro position path v hv
  rw [Resolver.resolve] at hv
  obtain ⟨out, hresolve, rfl⟩ := map_eq_ok hv
  obtain ⟨resolved, more, rfl, hresolved, hmore⟩ := resolveElements_append hfixed hresolve
  have hmore' : more = r.audiences.map Any.string := by
    rw [Resolver.resolveElements, if_pos hlast] at hmore
    simpa [Resolver.resolveElements, bind, Except.bind] using (Except.ok.inj hmore).symm
  subst hmore'
  constructor
  · refine Any.plain_slice fun v hv => ?_
    rcases List.mem_append.mp hv with hv | hv
    · exact plain_of_resolved hresolved h v hv
    · obtain ⟨a, -, rfl⟩ := List.mem_map.mp hv
      exact Any.plain_string a
  · have hindex : (fixed ++ [last]).findIdx? isAudience = some resolved.length := by
      rw [List.findIdx?_append, List.findIdx?_eq_none_iff.mpr hfixed, ← hresolved.length_eq]
      simp [hlast]
    have hentries := matchEntries_eq_nil hresolved h path 0 [last]
    have haudiences := matchAudiences_eq_nil r path resolved.length
    -- strings are decoded as they are written
    have hstrings : (r.audiences.map Any.string).map Any.reread = r.audiences.map Any.string := by
      rw [List.map_map]
      rfl
    have hpos : 0 < r.audiences.length := by
      unfold Resolver.audiences
      split_ifs with hempty
      · exact Nat.one_pos
      · exact Nat.pos_of_ne_zero hempty
    rw [Any.reread, matchValue, Any.rereadElements_eq, List.map_append, hstrings]
    have hlength : (resolved.map Any.reread).length = resolved.length := List.length_map _
    have henough : ¬ (resolved.map Any.reread ++ r.audiences.map Any.string).length <
        resolved.length + 1 := by
      rw [List.length_append, List.length_map, List.length_map]
      omega
    simp only [matchArray, hindex, Bool.false_eq_true, false_and, if_false]
    rw [if_neg (by simp [hresolved.length_eq]), if_neg henough, ← hlength, List.take_left,
      List.drop_left, hlength, hentries, haudiences]
    rfl

theorem agrees_slice {elements : List Any}
    (haudience : ∀ v ∈ elements.dropLast, isAudience v = false) (h : ∀ v ∈ elements, Agrees r v) :
    Agrees r (.slice elements) := by
  obtain rfl | ⟨fixed, last, rfl⟩ := List.eq_nil_or_concat' elements
  · exact agrees_slice_fixed (List.forall_mem_nil _) h
  rw [List.dropLast_concat] at haudience
  have hagrees : ∀ v ∈ fixed, Agrees r v := fun v hv => h v (List.mem_append_left _ hv)
  cases hlast : isAudience last with
  | true => exact agrees_slice_audience hlast haudience hagrees
  | false =>
    refine agrees_slice_fixed (fun v hv => ?_) h
    rcases List.mem_append.mp hv with hv | hv
    · exact haudience v hv
    · rw [List.mem_singleton.mp hv]
      exact hlast

/-! ### Strings and other leaves -/

/-- The issuer stands where the literal mentions it. -/
theorem matchLiteral_eq_nil (r : Resolver) (hissuer : AtMostOnce issuerToken s) (path : String) :
    matchLiteral r.p.issuer path s (.string (replaceAll s issuerToken r.issuer)) = [] := by
  unfold matchLiteral
  cases hcut : cutAround issuerToken.toList s.toList with
  | none => simp [replaceAll_of_cutAround_eq_none hcut]
  | some halves =>
    obtain ⟨before, after⟩ := halves
    by_cases hset : r.p.issuer = ""
    · -- the default is between the halves
      have hdefault : r.issuer = defaultIssuer := by rw [Resolver.issuer, hset, orDefault_empty]
      have hreplace := replaceAll_once (by decide) hcut (hissuer before after hcut) defaultIssuer
      have hpos : 0 < defaultIssuer.toList.length := by decide
      rw [hdefault, hreplace, hset]
      simp only [String.toList_ofList, ne_eq, not_true, if_false]
      refine if_pos ⟨?_, ?_, ?_⟩
      · exact List.isPrefixOf_iff_prefix.mpr (List.prefix_append _ _)
      · rw [← List.append_assoc]
        exact List.isSuffixOf_iff_suffix.mpr (List.suffix_append _ _)
      · rw [List.length_append, List.length_append]
        omega
    · simp [Resolver.issuer, orDefault_of_ne hset, hset]

theorem agrees_literal (hs : placeholder s = none) (hissuer : AtMostOnce issuerToken s) :
    Agrees r (.string s) := by
  intro position path v hv
  rw [Resolver.resolve, Resolver.resolveString, hs] at hv
  cases hv
  refine ⟨Any.plain_string _, ?_⟩
  rw [matchValue, matchLeaf, hs]
  · exact matchLiteral_eq_nil r hissuer path
  all_goals exact fun _ => nofun

theorem Kind.eq_of_ofName_scope {name : String} (h : Kind.ofName name = some .scope) : name = "scope" := by
  obtain ⟨before, after, hsplit, -⟩ := List.lookup_eq_some_iff.mp h
  have hmem : (name, Kind.scope) ∈ kindNames := by simp [hsplit]
  simpa [kindNames] using hmem

theorem agrees_placeholder (hp : p.WellFormed env) {name arg : String}
    (hs : placeholder s = some (name, arg)) (hscope : name = "scope" → arg ≠ "") :
    Agrees (newResolver env p) (.string s) := by
  intro position path v hv
  rw [Resolver.resolve, Resolver.resolveString, hs] at hv
  simp only [Resolver.value] at hv
  rw [matchValue, matchLeaf, hs]
  · show v.Plain ∧ rule p path name arg v.reread = []
    unfold rule
    cases hkind : Kind.ofName name with
    | none =>
      rw [hkind] at hv
      cases hv
    | some kind =>
      rw [hkind] at hv
      refine ruleOf_valueOf hp (fun hscope' => ?_) hv path
      exact hscope (Kind.eq_of_ofName_scope (hscope' ▸ hkind))
  all_goals exact fun _ => nofun

/-- Whatever is made of a template agrees with it. -/
theorem Template.agrees (hp : p.WellFormed env) {want : Any} (h : Template p.ns want) :
    Agrees (newResolver env p) want := by
  induction h with
  | nil =>
    intro position path v hv
    cases hv
    exact ⟨Any.allHeads_leaf (fun _ => rfl) ⟨trivial, trivial⟩, rfl⟩
  | bool b =>
    intro position path v hv
    cases hv
    exact ⟨Any.allHeads_leaf (fun _ => rfl) ⟨trivial, trivial⟩, by simp [Any.reread, matchValue, matchLeaf]⟩
  | float64 f =>
    intro position path v hv
    cases hv
    exact ⟨Any.plain_float64 f, by simp [Any.reread, matchValue, matchLeaf, number, Float64.parse_format]⟩
  | literal hs hissuer => exact agrees_literal hs hissuer
  | placeholder hs hscope => exact agrees_placeholder hp hs hscope
  | slice haudience _ ih => exact agrees_slice haudience ih
  | map hnodup htimes _ ih => exact agrees_map hp hnodup htimes ih

end Trees

/-! ### Key sets -/

theorem decodeMap_jwksText : decodeMap jwksText = some jwksFixture := by
  have hparse : JsonText.parse jwksText = some (.obj [("keys", .arr [.obj
      [("kty", .str "RSA"), ("use", .str "sig"), ("kid", .str "<kid>"), ("alg", .str "RS256"),
       ("n", .str "<n>"), ("e", .str "AQAB")]])]) :=
    JsonText.parse_of_readsAs 305 (by decide +kernel) (by decide +kernel)
  rw [decodeMap, hparse]
  rfl

/-- A name without the token is not changed. -/
theorem fullName_of_cutAround_eq_none {name : String}
    (h : cutAround nsToken.toList name.toList = none) (ns : String) : fullName ns name = name :=
  replaceAll_of_cutAround_eq_none h ns

/-- A positive number has bytes. -/
theorem bigBytes_ne_nil {n : ℤ} (h : 0 < n) : bigBytes n ≠ [] := by
  unfold bigBytes
  rw [ne_eq, List.map_eq_nil_iff, List.reverse_eq_nil_iff, Nat.digits_eq_nil_iff_eq_zero]
  omega

/-- The entry of a key, from its identifier and the text of its modulus. -/
def publishedKey (id n : String) : List (String × Any) :=
  [("kty", .string "RSA"), ("use", .string "sig"), ("kid", .string id), ("alg", .string "RS256"),
   ("n", .string n), ("e", .string "AQAB")]

theorem keyEntry_keyTemplate (id : String) (key : PrivateKey) :
    Resolver.keyEntry id key keyTemplate = publishedKey id (rawURLEncode (bigBytes key.n)) := rfl

/-- What a key is resolved to. -/
theorem resolveKey_eq_ok {k : Key} {v : Any} (h : Resolver.resolveKey keyTemplate k = .ok v) :
    ∃ key, k.privateKey = some key ∧ rawURLEncode (bigBytes key.e.toInt) = "AQAB" ∧
      v = .map (publishedKey k.id (rawURLEncode (bigBytes key.n))) := by
  unfold Resolver.resolveKey at h
  cases hkey : k.privateKey with
  | none =>
    rw [hkey] at h
    cases h
  | some key =>
    rw [hkey] at h
    simp only [keyEntry_keyTemplate] at h
    split_ifs at h
    have hlookup : ∀ id n, Any.lookup (publishedKey id n) "e" = some (.string "AQAB") := fun _ _ => rfl
    rw [hlookup] at h
    simp only at h
    split_ifs at h with hexponent
    exact ⟨key, rfl, not_not.mp hexponent, (Except.ok.inj h).symm⟩

theorem nodup_publishedKey (id n : String) : ((publishedKey id n).map Prod.fst).Nodup := by
  show ["kty", "use", "kid", "alg", "n", "e"].Nodup
  decide

theorem plain_publishedKey (id n : String) : (Any.map (publishedKey id n)).Plain := by
  refine Any.plain_map (nodup_publishedKey id n) ?_
  simp [publishedKey, Any.plain_string]

/-- A published key has no difference from the key of the fixture. -/
theorem matchValue_publishedKey (p : Params) (path : String) {id n : String} (hid : reUUID id = true)
    (hn : reB64URL n = true) :
    matchValue ⟨p, true⟩ path (.map keyTemplate) (Any.map (publishedKey id n)).reread = [] := by
  have hname : ∀ name ∈ ["kty", "use", "kid", "alg", "n", "e"], name = fullName p.ns name := by
    intro name hname
    refine (fullName_of_cutAround_eq_none ?_ _).symm
    revert name
    decide
  have hliteral : ∀ s path, placeholder s = none → cutAround issuerToken.toList s.toList = none →
      matchValue ⟨p, true⟩ path (.string s) (Any.string s).reread = [] := by
    intro s path hs hcut
    rw [matchValue, matchLeaf, hs]
    · simp [Any.reread, matchLiteral, hcut]
    all_goals
      rintro _ ⟨⟩
  refine matchValue_map_eq_nil (nodup_publishedKey id n) ?_ ?_
  · refine .cons ⟨hname _ (by simp), hliteral _ _ (by decide) (by decide)⟩ <|
      .cons ⟨hname _ (by simp), hliteral _ _ (by decide) (by decide)⟩ <|
      .cons ⟨hname _ (by simp), ?_⟩ <|
      .cons ⟨hname _ (by simp), hliteral _ _ (by decide) (by decide)⟩ <|
      .cons ⟨hname _ (by simp), ?_⟩ <|
      .cons ⟨hname _ (by simp), hliteral _ _ (by decide) (by decide)⟩ .nil
    · exact str_of_satisfies _ (some reUUID) "a UUID" hid
    · exact str_of_satisfies _ (some reB64URL) "a base64url string" hn
  · -- a key has no instants
    refine timeFailures_eq_nil fun x y hx _ => ?_
    rw [lookup_reread (nodup_publishedKey id n)] at hx
    cases hx

/-- The key set has no difference from the shipped fixture. -/
theorem resolveJWKS_agrees {p : Params} {env : Env} (hp : p.WellFormed env) {out : List (String × Any)}
    (h : (newResolver env p).resolveJWKS jwksFixture = .ok out) :
    (Any.map out).Plain ∧ matchValue ⟨p, true⟩ "" (.map jwksFixture) (Any.map out).reread = [] := by
  have hlookup : Any.lookup jwksFixture "keys" = some (.slice [.map keyTemplate]) := rfl
  unfold Resolver.resolveJWKS at h
  rw [hlookup] at h
  simp only at h
  split_ifs at h with hkeys
  obtain ⟨vs, hvs, h⟩ := bind_eq_ok h
  cases h
  have hresolved := forall₂_of_mapM hvs
  have hentry : ∀ v ∈ vs, ∃ id n, v = .map (publishedKey id n) ∧ reUUID id = true ∧ reB64URL n = true := by
    intro v hv
    obtain ⟨k, hk, hkv⟩ := (exists_of_forall₂ hresolved).2 v hv
    obtain ⟨key, hkey, -, rfl⟩ := resolveKey_eq_ok hkv
    obtain ⟨hid, hpos⟩ := hp.keys k hk
    exact ⟨_, _, rfl, hid, reB64URL_rawURLEncode (bigBytes_ne_nil (hpos key hkey))⟩
  constructor
  · refine Any.plain_map (List.nodup_singleton "keys") (List.forall_mem_singleton.mpr ?_)
    refine Any.plain_slice fun v hv => ?_
    obtain ⟨id, n, rfl, -, -⟩ := hentry v hv
    exact plain_publishedKey id n
  · have hname : "keys" = fullName p.ns "keys" :=
      (fullName_of_cutAround_eq_none (by decide) _).symm
    refine matchValue_map_eq_nil (List.nodup_singleton "keys") (.cons ⟨hname, ?_⟩ .nil) rfl
    have hne : vs.length ≠ 0 := hresolved.length_eq ▸ hkeys
    show matchValue ⟨p, true⟩ "keys" (.slice [.map keyTemplate]) (Any.slice vs).reread = []
    rw [Any.reread, matchValue, matchArray, if_pos ⟨rfl, rfl, rfl⟩, Any.rereadElements_eq,
      if_neg (by rwa [List.length_map]), List.nil_append]
    refine List.flatMap_eq_nil_iff.mpr ?_
    rintro ⟨el, i⟩ hel
    obtain ⟨v, hv, rfl⟩ := List.mem_map.mp (List.fst_mem_of_mem_zipIdx hel)
    obtain ⟨id, n, rfl, hid, hn⟩ := hentry v hv
    exact matchValue_publishedKey p _ hid hn

/-! ### From `Load` to `Match` -/

/-- The fixture is the shipped key set, or a template under another name. -/
def IsFixture (files : Fixtures) (ns name : String) : Prop :=
  if name = "jwks" then files name = some jwksText
  else ∀ doc, parse files name = .ok doc → Template ns (.map doc)

/-- JSON data is decoded from what is written for it, and compared. -/
theorem matchFixture_of_plain {files : Fixtures} {name : String} {p : Params}
    {doc out : List (String × Any)} (hdoc : parse files name = .ok doc) (hplain : (Any.map out).Plain)
    (hmatch : matchValue ⟨p, name = "jwks"⟩ "" (.map doc) (Any.map out).reread = []) :
    matchFixture files name (.map out) p = .ok () := by
  have hdecode := Any.parse_render_toJson hplain.distinctKeys hplain.written
  have hparse : (parse files name).mapError MatchError.parse = .ok doc := by
    rw [hdoc]
    rfl
  unfold matchFixture
  simp only [hparse, Any.marshal_of_plain hplain, hdecode, hmatch, bind, Except.bind]
  rfl

/-- What `Load` returns satisfies `Match`. -/
theorem matchFixture_load {files : Fixtures} {env : Env} {name : String} {p : Params}
    {out : List (String × Any)} (hfixture : IsFixture files p.ns name) (hp : p.WellFormed env)
    (hload : load files env name p = .ok out) : matchFixture files name (.map out) p = .ok () := by
  obtain ⟨doc, hdoc, hresolve⟩ := bind_eq_ok hload
  have hparse : parse files name = .ok doc := by
    cases hparse : parse files name with
    | error err =>
      rw [hparse] at hdoc
      cases hdoc
    | ok doc' =>
      rw [hparse] at hdoc
      exact congrArg Except.ok (Except.ok.inj hdoc)
  unfold IsFixture at hfixture
  by_cases hname : name = "jwks"
  · rw [if_pos hname] at hfixture hresolve
    -- the file is the shipped one
    have hdoc' : parse files name = .ok jwksFixture :=
      parse_eq_ok (by rw [hname]; decide) hfixture decodeMap_jwksText
    obtain rfl := Except.ok.inj (hparse.symm.trans hdoc')
    obtain ⟨hplain, hmatch⟩ := resolveJWKS_agrees hp hresolve
    refine matchFixture_of_plain hparse hplain ?_
    rw [decide_eq_true hname]
    exact hmatch
  · rw [if_neg hname] at hfixture hresolve
    have hresolve' : (newResolver env p).resolve [] (.map doc) = .ok (.map out) := by
      rw [Resolver.resolve, hresolve]
      rfl
    obtain ⟨hplain, hmatch⟩ := (hfixture doc hparse).agrees hp [] "" _ hresolve'
    refine matchFixture_of_plain hparse hplain ?_
    rw [decide_eq_false hname]
    exact hmatch

/-! A run with the fixture `access/client_credentials_audience_dual`. -/

/-- The shipped file. -/
def dualText : String := String.ofList <| linesChars
  ["\x7b",
   "  \"aud\": [",
   "    \"<client_id>\",",
   "    \"<audience>\"",
   "  ],",
   "  \"exp\": \"<exp>\",",
   "  \"iat\": \"<iat>\",",
   "  \"iss\": \"<issuer>\",",
   "  \"jti\": \"<jti>\",",
   "  \"nbf\": \"<nbf>\",",
   "  \"scope\": \"<scope:api>\",",
   "  \"sub\": \"<app_sub>\",",
   "  \"type\": \"access\"",
   "\x7d"]

/-- The fixture, decoded. -/
def dualFixture : List (String × Any) :=
  [("aud", .slice [.string "<client_id>", .string "<audience>"]), ("exp", .string "<exp>"),
   ("iat", .string "<iat>"), ("iss", .string "<issuer>"), ("jti", .string "<jti>"),
   ("nbf", .string "<nbf>"), ("scope", .string "<scope:api>"), ("sub", .string "<app_sub>"),
   ("type", .string "access")]

theorem decodeMap_dualText : decodeMap dualText = some dualFixture := by
  have hparse : JsonText.parse dualText = some (.obj
      [("aud", .arr [.str "<client_id>", .str "<audience>"]), ("exp", .str "<exp>"),
       ("iat", .str "<iat>"), ("iss", .str "<issuer>"), ("jti", .str "<jti>"), ("nbf", .str "<nbf>"),
       ("scope", .str "<scope:api>"), ("sub", .str "<app_sub>"), ("type", .str "access")]) :=
    JsonText.parse_of_readsAs 433 (by decide +kernel) (by decide +kernel)
  rw [decodeMap, hparse]
  rfl

/-- It is the only file here, with a short name. -/
def dualFiles : Fixtures := fun name => if name = "dual" then some dualText else none

def sampleUUID : String := "0b6a3c3e-4f0e-4c47-9d0a-6f1f3f0b2a11"

theorem reUUID_sampleUUID : reUUID sampleUUID = true := by decide

def sampleEnv : Env where
  clock := 1700000000 * Duration.second
  random _ n := ⟨List.replicate n 7, List.length_replicate⟩
  newUUID _ := sampleUUID
  reUUID_newUUID _ := reUUID_sampleUUID

/-- A client with two audiences, at a given instant. -/
def dualParams : Params where
  clientID := "reports"
  audiences := ["https://a.example", "https://b.example"]
  appID := 12
  now := 1700000000 * Duration.second
  ttl := 60000000000

/-- A token for the client and for these audiences. -/
def claimsWith (audiences : List Any) : List (String × Any) :=
  [("aud", .slice (.string "reports" :: audiences)),
   ("exp", .int64 1700000060), ("iat", .int64 1700000000),
   ("iss", .string "https://socrate.example.com"), ("jti", .string sampleUUID),
   ("nbf", .int64 1700000000), ("scope", .string "api"), ("sub", .string "app:12"),
   ("type", .string "access")]

/-- What is loaded. -/
def dualClaims : List (String × Any) :=
  claimsWith [.string "https://a.example", .string "https://b.example"]

theorem parse_dual : parse dualFiles "dual" = .ok dualFixture :=
  parse_eq_ok (by decide) (if_pos rfl) decodeMap_dualText

theorem load_dual : load dualFiles sampleEnv "dual" dualParams = .ok dualClaims := by
  have hresolve : (newResolver sampleEnv dualParams).resolveEntries [] [] dualFixture = .ok dualClaims := by
    rfl
  unfold load
  rw [parse_dual]
  simp only [Except.mapError, bind, Except.bind]
  rw [if_neg (by decide), hresolve]

theorem wellFormed_dualParams : dualParams.WellFormed sampleEnv where
  ttl := .inr (by decide)
  refreshTTL := .inl rfl
  now := .inr (by decide)
  authTime := .inl rfl
  clock := fun _ => by decide
  times := by decide
  tokens := by decide
  keys := fun k hk => nomatch hk
  attributes := nofun

/-- A string that is a placeholder, or does not mention the issuer. -/
def plainString (s : String) : Bool :=
  match placeholder s with
  | some (name, arg) => name ≠ "scope" || arg ≠ ""
  | none => (cutAround issuerToken.toList s.toList).isNone

theorem template_string (ns : String) {s : String} (h : plainString s = true) :
    Template ns (.string s) := by
  unfold plainString at h
  cases hs : placeholder s with
  | none =>
    rw [hs] at h
    refine .literal hs fun before after hcut => ?_
    rw [Option.isNone_iff_eq_none.mp h] at hcut
    cases hcut
  | some kind =>
    rw [hs] at h
    refine .placeholder hs fun hscope => ?_
    simpa [hscope] using h

theorem template_dualFixture (ns : String) : Template ns (.map dualFixture) := by
  have hname : ∀ e ∈ dualFixture, fullName ns e.1 = e.1 := by
    intro e he
    refine fullName_of_cutAround_eq_none ?_ ns
    have hmem : e.1 ∈ dualFixture.map Prod.fst := List.mem_map_of_mem he
    generalize e.1 = name at hmem
    revert name
    decide
  refine .map ?_ ?_ ?_
  · rw [List.map_congr_left hname]
    decide
  · intro iat hiat exp hexp hi he
    rw [hname iat hiat] at hi
    rw [hname exp hexp] at he
    have hnodup : (dualFixture.map Prod.fst).Nodup := by decide
    have hiat' := (Any.lookup_eq_some hnodup).mpr hiat
    have hexp' := (Any.lookup_eq_some hnodup).mpr hexp
    rw [hi] at hiat'
    rw [he] at hexp'
    exact ⟨(Option.some.inj hiat').symm, .inl (Option.some.inj hexp').symm⟩
  · have hstrings : ∀ s ∈ ["<client_id>", "<audience>", "<exp>", "<iat>", "<issuer>", "<jti>", "<nbf>",
        "<scope:api>", "<app_sub>", "access"], Template ns (.string s) := by
      intro s hs
      refine template_string ns ?_
      revert s
      decide
    simp only [List.forall_mem_cons] at hstrings
    obtain ⟨hclient, haudience, hrest⟩ := hstrings
    simp only [dualFixture, List.forall_mem_cons]
    refine ⟨.slice (by decide) ?_, by simpa using hrest⟩
    exact List.forall_mem_cons.mpr ⟨hclient, List.forall_mem_singleton.mpr haudience⟩

theorem matchFixture_load_dual :
    load dualFiles sampleEnv "dual" dualParams = .ok dualClaims ∧
      matchFixture dualFiles "dual" (.map dualClaims) dualParams = .ok () := by
  refine ⟨load_dual, matchFixture_load ?_ wellFormed_dualParams load_dual⟩
  unfold IsFixture
  rw [if_neg (by decide)]
  intro doc hdoc
  obtain rfl := Except.ok.inj (parse_dual.symm.trans hdoc)
  exact template_dualFixture _

end Conformance
