import BackendKit.AiLang.Translator
import BackendKit.GoStd.JsonGrammar

/-!
# A document within a reply

A model may wrap the JSON document it was asked for in prose or code fences. `extractJSONFragment`
looks for an object first, from the first `\x7b` to the last `\x7d` of the reply, and for an array only
if that is not JSON. An object is recovered whole; an array is, unless what lies between its first and
its last brace is JSON by itself, as in an array of one object (`extractJSONFragment_append`).
-/

open GoStd

namespace AiLang

/-! ### From the first bracket to the last -/

theorem dropWhile_ne_append {c : Char} {front : List Char} (h : c ∉ front) (rest : List Char) :
    (front ++ c :: rest).dropWhile (fun d => decide (d ≠ c)) = c :: rest := by
  have hall : ∀ d ∈ front, decide (d ≠ c) = true := fun d hd =>
    decide_eq_true fun heq => h (heq ▸ hd)
  rw [List.dropWhile_append_of_pos hall]
  simp

theorem exists_of_dropWhile_ne {c d : Char} {cs rest : List Char}
    (h : cs.dropWhile (fun d => decide (d ≠ c)) = d :: rest) :
    d = c ∧ ∃ front, c ∉ front ∧ cs = front ++ c :: rest := by
  have hd : d = c := by
    have hhead := List.head?_dropWhile_not (fun d => decide (d ≠ c)) cs
    rw [h] at hhead
    simpa using hhead
  subst hd
  refine ⟨rfl, cs.takeWhile (fun c => decide (c ≠ d)), ?_, ?_⟩
  · intro hmem
    simpa using List.mem_takeWhile_imp hmem
  · rw [← h, List.takeWhile_append_dropWhile]

variable {front d : String} {opening closing : Char}

/-- The two cuts: before the first `opening`, and after the last `closing`. -/
theorem between_eq_some {s t : String} :
    between opening closing s = some t ↔
      ∃ front body back, s.toList = front ++ opening :: (body ++ closing :: back) ∧
        opening ∉ front ∧ closing ∉ back ∧ t.toList = opening :: (body ++ [closing]) := by
  constructor
  · intro h
    unfold between at h
    split at h
    · cases h
    next c rest hdrop =>
      obtain ⟨rfl, front, hfront, hs⟩ := exists_of_dropWhile_ne hdrop
      split at h
      · cases h
      next hne =>
        cases h
        obtain ⟨d, reversed, hreversed⟩ := List.exists_cons_of_ne_nil hne
        obtain ⟨rfl, back, hback, hrest⟩ := exists_of_dropWhile_ne hreversed
        refine ⟨front, reversed.reverse, back.reverse, ?_, hfront,
          fun hmem => hback (List.mem_reverse.mp hmem), ?_⟩
        · rw [hs, ← List.reverse_reverse rest, hrest]
          simp
        · rw [hreversed]
          simp
  · rintro ⟨front, body, back, hs, hfront, hback, ht⟩
    have hreverse : (body ++ closing :: back).reverse = back.reverse ++ closing :: body.reverse := by
      simp
    unfold between
    rw [hs, dropWhile_ne_append hfront]
    dsimp only
    rw [hreverse, dropWhile_ne_append fun hmem => hback (List.mem_reverse.mp hmem)]
    dsimp only
    congr 1
    apply String.toList_inj.mp
    rw [ht]
    simp

/-- Text without brackets around makes no difference. -/
theorem between_append {back : String} (hfront : opening ∉ front.toList)
    (hback : opening ∉ back.toList ∧ closing ∉ back.toList) :
    between opening closing (front ++ d ++ back) = between opening closing d := by
  apply Option.ext
  intro t
  rw [between_eq_some, between_eq_some]
  constructor
  · rintro ⟨front', body, back', hs, hfront', hback', ht⟩
    have hlist : front.toList ++ (d.toList ++ back.toList) =
        front' ++ opening :: (body ++ closing :: back') := by
      rw [← hs]
      simp
    obtain ⟨front₁, rfl, hrest⟩ := exists_append_of_not_mem hlist hfront
    have hrest' : d.toList ++ back.toList = (front₁ ++ opening :: body) ++ closing :: back' := by
      rw [hrest]
      simp
    obtain ⟨back₁, rfl, hd⟩ := exists_append_of_not_mem_right hrest' hback.2
    refine ⟨front₁, body, back₁, by rw [hd]; simp, ?_, ?_, ht⟩
    · exact fun hmem => hfront' (List.mem_append_right _ hmem)
    · exact fun hmem => hback' (List.mem_append_left _ hmem)
  · rintro ⟨front', body, back', hd, hfront', hback', ht⟩
    refine ⟨front.toList ++ front', body, back' ++ back.toList, by simp [hd], ?_, ?_, ht⟩
    · intro hmem
      rcases List.mem_append.mp hmem with h | h
      · exact hfront h
      · exact hfront' h
    · intro hmem
      rcases List.mem_append.mp hmem with h | h
      · exact hback' h
      · exact hback.2 h

/-- There is something to find if a `closing` follows an `opening`. -/
theorem exists_between {s : String} {xs ys zs : List Char}
    (hs : s.toList = xs ++ opening :: (ys ++ closing :: zs)) :
    ∃ t, between opening closing s = some t := by
  have hopening : opening ∈ s.toList := by
    rw [hs]
    simp
  obtain ⟨front, rest, hfront, hnot⟩ := List.eq_append_cons_of_mem hopening
  -- The first `opening` is not after the given one, so the given `closing` is after it.
  have hclosing : closing ∈ rest := by
    rw [hfront] at hs
    rcases List.append_eq_append_iff.mp hs with ⟨w, -, hrest⟩ | ⟨w, hfront', hrest⟩
    · cases w with
      | nil =>
        rw [(List.cons.inj hrest).2]
        simp
      | cons d w =>
        rw [(List.cons.inj hrest).2]
        simp
    · cases w with
      | nil =>
        rw [← (List.cons.inj hrest).2]
        simp
      | cons d w =>
        obtain ⟨rfl, -⟩ := List.cons.inj hrest
        exact absurd (by rw [hfront']; simp) hnot
  obtain ⟨back, body, hrest, hback⟩ := List.eq_append_cons_of_mem (List.mem_reverse.mpr hclosing)
  refine ⟨String.ofList (opening :: (body.reverse ++ [closing])), between_eq_some.mpr
    ⟨front, body.reverse, back.reverse, ?_, hnot, fun h => hback (List.mem_reverse.mp h), ?_⟩⟩
  · rw [hfront, ← List.reverse_reverse rest, hrest]
    simp
  · rw [String.toList_ofList]

/-! ### Documents -/

/-- An object, from its opening to its closing brace. -/
def IsObjectText (d : String) : Prop :=
  JsonText.valid d = true ∧ ∃ body, d.toList = '\x7b' :: (body ++ ['\x7d'])

/-- An array, from its opening to its closing bracket. -/
def IsArrayText (d : String) : Prop :=
  JsonText.valid d = true ∧ ∃ body, d.toList = '[' :: (body ++ [']'])

/-- None of the brackets of JSON. -/
def NoBrackets (s : String) : Prop :=
  '\x7b' ∉ s.toList ∧ '\x7d' ∉ s.toList ∧ '[' ∉ s.toList ∧ ']' ∉ s.toList

/-- A text that begins and ends with its brackets is found whole. -/
theorem between_self (h : ∃ body, d.toList = opening :: (body ++ [closing])) :
    between opening closing d = some d := by
  obtain ⟨body, hd⟩ := h
  exact between_eq_some.mpr ⟨[], body, [], hd, List.not_mem_nil, List.not_mem_nil, hd⟩

/-- There is JSON between the first and the last brace. -/
def HidesObject (d : String) : Prop :=
  ∃ t, between '\x7b' '\x7d' d = some t ∧ JsonText.valid t = true

/-- What is found within a reply. -/
theorem extractJSONFragment_append {back : String} (hd : IsObjectText d ∨ IsArrayText d)
    (hfront : NoBrackets front) (hback : NoBrackets back) :
    extractJSONFragment (front ++ d ++ back) = d ↔ IsObjectText d ∨ ¬ HidesObject d := by
  have hbraces : between '\x7b' '\x7d' (front ++ d ++ back) = between '\x7b' '\x7d' d :=
    between_append hfront.1 ⟨hback.1, hback.2.1⟩
  have hsquare : between '[' ']' (front ++ d ++ back) = between '[' ']' d :=
    between_append hfront.2.2.1 ⟨hback.2.2.1, hback.2.2.2⟩
  unfold extractJSONFragment
  rw [hbraces, hsquare]
  rcases hd with hobject | harray
  · rw [between_self hobject.2, Option.filter_some_pos hobject.1]
    exact iff_of_true rfl (.inl hobject)
  · rw [between_self harray.2, Option.filter_some_pos harray.1]
    -- The text of an array is not that of an object.
    have hhead : ∀ t : String, (∃ body, t.toList = '\x7b' :: (body ++ ['\x7d'])) → t ≠ d := by
      rintro t ⟨body, ht⟩ rfl
      obtain ⟨body', hd'⟩ := harray.2
      cases ht.symm.trans hd'
    by_cases hhides : HidesObject d
    · obtain ⟨t, ht, hvalid⟩ := hhides
      obtain ⟨_, body, _, _, _, _, hbody⟩ := between_eq_some.mp ht
      rw [ht, Option.filter_some_pos hvalid]
      refine iff_of_false (hhead t ⟨body, hbody⟩) ?_
      rintro (hobject | hnot)
      · exact hhead d hobject.2 rfl
      · exact hnot ⟨t, ht, hvalid⟩
    · have hnone : (between '\x7b' '\x7d' d).filter JsonText.valid = none := by
        cases ht : between '\x7b' '\x7d' d with
        | none => rfl
        | some t => exact Option.filter_some_eq_none.mpr fun hvalid => hhides ⟨t, ht, hvalid⟩
      rw [hnone]
      exact iff_of_true rfl (.inr hhides)

/-- Trimming a reply leaves the document, and no brackets around it. -/
theorem exists_trimSpace_append {back : String} (hd : IsObjectText d ∨ IsArrayText d)
    (hfront : NoBrackets front) (hback : NoBrackets back) :
    ∃ front' back', trimSpace (front ++ d ++ back) = front' ++ d ++ back' ∧ NoBrackets front' ∧
      NoBrackets back' := by
  have hends : (∃ c cs, d.toList = c :: cs ∧ isSpace c = false) ∧
      ∃ init c, d.toList = init ++ [c] ∧ isSpace c = false := by
    rcases hd with ⟨-, body, hbody⟩ | ⟨-, body, hbody⟩
    · exact ⟨⟨'\x7b', _, hbody, rfl⟩, '\x7b' :: body, '\x7d', hbody, rfl⟩
    · exact ⟨⟨'[', _, hbody, rfl⟩, '[' :: body, ']', hbody, rfl⟩
  have hsubset : ∀ {s : String} {cs : List Char}, (∀ c ∈ cs, c ∈ s.toList) → NoBrackets s →
      NoBrackets (String.ofList cs) := by
    intro s cs hcs hs
    unfold NoBrackets
    rw [String.toList_ofList]
    exact ⟨fun h => hs.1 (hcs _ h), fun h => hs.2.1 (hcs _ h), fun h => hs.2.2.1 (hcs _ h),
      fun h => hs.2.2.2 (hcs _ h)⟩
  refine ⟨String.ofList (front.toList.dropWhile isSpace),
    String.ofList (back.toList.reverse.dropWhile isSpace).reverse, ?_, ?_, ?_⟩
  · have htrim := trimSpace_append front.toList back.toList hends.1 hends.2
    rw [show front.toList ++ d.toList ++ back.toList = (front ++ d ++ back).toList by simp,
      String.ofList_toList] at htrim
    rw [htrim]
    apply String.toList_inj.mp
    simp
  · exact hsubset (fun c hc => (List.dropWhile_sublist _).subset hc) hfront
  · apply hsubset _ hback
    intro c hc
    exact List.mem_reverse.mp ((List.dropWhile_sublist _).subset (List.mem_reverse.mp hc))

theorem ne_empty_of_document {back : String} (hd : IsObjectText d ∨ IsArrayText d) :
    front ++ d ++ back ≠ "" := by
  intro hempty
  have hlist := congrArg String.toList hempty
  rcases hd with ⟨-, body, hbody⟩ | ⟨-, body, hbody⟩
  · simp [hbody] at hlist
  · simp [hbody] at hlist

/-- A document in a reply without other brackets is recovered whole, and returned as the translation, if
and only if it is an object or an array that hides no JSON between its braces, and the reply is not JSON
in another way. -/
theorem translateJSON_fragment_iff (env : Env) (raw locale front d back : String) (sent : List String)
    (hd : IsObjectText d ∨ IsArrayText d) (hfront : NoBrackets front) (hback : NoBrackets back)
    (hreply : env.caller (sent ++ [buildTranslationPrompt raw locale]) = .ok (front ++ d ++ back)) :
    extractJSONFragment (front ++ d ++ back) = d ∧
        ((translateJSON env raw locale).run sent).run.1 = (d, none) ↔
      (IsObjectText d ∨ ¬ HidesObject d) ∧
        (JsonText.valid (trimSpace (front ++ d ++ back)) = true →
          trimSpace (front ++ d ++ back) = d) := by
  rw [extractJSONFragment_append hd hfront hback]
  refine and_congr_right fun hwhole => ?_
  obtain ⟨front', back', htrim, hfront', hback'⟩ := exists_trimSpace_append hd hfront hback
  have hvalid : JsonText.valid d = true := hd.elim And.left And.left
  have hfragment : extractJSONFragment (trimSpace (front ++ d ++ back)) = d := by
    rw [htrim]
    exact (extractJSONFragment_append hd hfront' hback').mpr hwhole
  have hne : trimSpace (front ++ d ++ back) ≠ "" := htrim ▸ ne_empty_of_document hd
  have hrun : ((translateJSON env raw locale).run sent).run.1 =
      if JsonText.valid (trimSpace (front ++ d ++ back)) then (trimSpace (front ++ d ++ back), none)
      else (d, none) := by
    unfold translateJSON
    rw [StateT.run_bind, run_call, hreply, pure_bind, translation]
    dsimp only
    rw [if_neg hne]
    dsimp only
    by_cases hjson : JsonText.valid (trimSpace (front ++ d ++ back)) = true
    · rw [if_pos hjson, if_pos hjson]
      rfl
    · rw [if_neg hjson, if_neg hjson, hfragment, if_pos hvalid]
      rfl
  rw [hrun]
  split
  next hjson =>
    constructor
    · intro h _
      exact (Prod.mk.inj h).1
    · intro h
      rw [h hjson]
  next hjson => exact iff_of_true rfl fun h => absurd h hjson

/-- An object in prose is recovered. -/
theorem translateJSON_fragment_object :
    ((translateJSON (sequenceEnv ["Voici : \x7b\"a\":1\x7d."]) "\x7b\"a\":1\x7d" "fr").run []).run.1 =
      ("\x7b\"a\":1\x7d", none) := by
  have hobject : IsObjectText "\x7b\"a\":1\x7d" := ⟨by decide +kernel, "\"a\":1".toList, rfl⟩
  have hnot : JsonText.valid (trimSpace ("Voici : " ++ "\x7b\"a\":1\x7d" ++ ".")) ≠ true := by
    decide +kernel
  exact ((translateJSON_fragment_iff (sequenceEnv ["Voici : \x7b\"a\":1\x7d."]) "\x7b\"a\":1\x7d" "fr"
    "Voici : " "\x7b\"a\":1\x7d" "." [] (.inl hobject) (by unfold NoBrackets; decide)
    (by unfold NoBrackets; decide) rfl).mpr ⟨.inl hobject, fun h => absurd h hnot⟩).2

/-- An array of one object in prose: the object is returned instead of the array. -/
theorem translateJSON_drops_array :
    IsArrayText "[\x7b\"a\":1\x7d]" ∧ NoBrackets "Voici : " ∧ NoBrackets "." ∧
      extractJSONFragment ("Voici : " ++ "[\x7b\"a\":1\x7d]" ++ ".") = "\x7b\"a\":1\x7d" ∧
      ((translateJSON (sequenceEnv ["Voici : [\x7b\"a\":1\x7d]."]) "[\x7b\"a\":1\x7d]" "fr").run
        []).run.1.1 = "\x7b\"a\":1\x7d" := by
  refine ⟨⟨by decide +kernel, "\x7b\"a\":1\x7d".toList, rfl⟩, by unfold NoBrackets; decide,
    by unfold NoBrackets; decide, ?_, ?_⟩
  · decide +kernel
  · decide +kernel

end AiLang
