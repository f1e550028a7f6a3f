import BackendKit.GoStd.JsonGrammar

/-!
# White space between the tokens of a JSON text

A JSON text is a list of tokens, with white space before, between and after them (`Spaced`). What it
means depends on the tokens only: any other text with the same tokens has the same value
(`exists_tokens_of_parse`), also one without any white space, since no two tokens that could run
together stand next to each other.

A token has no line break in it and neither begins nor ends with white space. So a text may be cut into
lines, the lines trimmed and written one after the other, and its value is still the same
(`parse_flatMap_trim`).
-/

namespace GoStd

namespace JsonText

/-! ### Tokens -/

/-- No line break inside, and no white space at the ends. -/
structure IsToken (t : List Char) : Prop where
  head : ∃ c cs, t = c :: cs ∧ isSpace c = false
  last : ∃ front c, t = front ++ [c] ∧ isSpace c = false
  line : '\n' ∉ t

theorem isToken_char {c : Char} (hc : isSpace c = false) : IsToken [c] where
  head := ⟨c, [], rfl, hc⟩
  last := ⟨[], c, rfl, hc⟩
  line := by
    intro hmem
    rw [List.mem_singleton] at hmem
    subst hmem
    cases hc

theorem IsToken.reverse {t : List Char} (h : IsToken t) : IsToken t.reverse where
  head := by
    obtain ⟨front, c, rfl, hc⟩ := h.last
    exact ⟨c, front.reverse, by simp, hc⟩
  last := by
    obtain ⟨c, cs, rfl, hc⟩ := h.head
    exact ⟨cs.reverse, c, by simp, hc⟩
  line := fun hmem => h.line (List.mem_reverse.mp hmem)

/-- A line break may not stand in a string. -/
theorem Scans.newline_notMem {cs s rest : List Char} (h : Scans rest cs s) (hrest : '\n' ∉ rest) :
    '\n' ∉ cs := by
  have hdigits : ∀ {a b c d : Char} {n : ℕ}, hex4 a b c d = some n → '\n' ∉ [a, b, c, d] := by
    intro a b c d n hn
    obtain ⟨ha, hb, hc, hd⟩ := hex4_ne (x := '\n') (by decide) hn
    simp [ha.symm, hb.symm, hc.symm, hd.symm]
  induction h with
  | close => simpa using hrest
  | pair hn hm _ _ ih =>
    have hfirst := hdigits hn
    have hsecond := hdigits hm
    simp_all
  | alone hn _ _ ih =>
    have hfirst := hdigits hn
    simp_all
  | @short e c cs s hc _ ih =>
    have he : '\n' ≠ e := by
      rintro rfl
      cases hc
    simp [he, ih]
  | @plain c cs s _ hplain _ ih =>
    have hc : '\n' ≠ c := by
      rintro rfl
      exact hplain (.inl (by decide))
    simp [hc, ih]

theorem isToken_string {raw : List Char} {s : String} (h : ReadsString raw s) :
    IsToken ('"' :: (raw ++ ['"'])) where
  head := ⟨'"', _, rfl, rfl⟩
  last := ⟨'"' :: raw, '"', rfl, rfl⟩
  line := by simpa using (scans_of_scanString (h [])).newline_notMem List.not_mem_nil

/-! A number has digits, signs, a point and the letter of the exponent. -/

theorem newline_notMem_of_scanDigits {cs ds rest : List Char} (h : scanDigits cs = some (ds, rest)) :
    '\n' ∉ ds := by
  unfold scanDigits at h
  split at h
  · cases h
  · cases h
    exact fun hmem => nomatch List.mem_takeWhile_imp hmem

theorem newline_notMem_of_scanInt {cs int rest : List Char} (h : scanInt cs = some (int, rest)) :
    '\n' ∉ int := by
  unfold scanInt at h
  split at h
  · cases h
    decide
  · exact newline_notMem_of_scanDigits h

theorem newline_notMem_of_scanFraction {cs fraction rest : List Char}
    (h : scanFraction cs = some (fraction, rest)) : '\n' ∉ fraction := by
  unfold scanFraction at h
  split at h
  · obtain ⟨r, hdigits, heq⟩ := Option.map_eq_some_iff.mp h
    cases heq
    simp [newline_notMem_of_scanDigits hdigits]
  · cases h
    exact List.not_mem_nil

theorem newline_notMem_of_scanExponent {cs exponent rest : List Char}
    (h : scanExponent cs = some (exponent, rest)) : '\n' ∉ exponent := by
  unfold scanExponent at h
  split at h
  next c cs =>
    split at h
    next hletter =>
      have hc : '\n' ≠ c := by
        rintro rfl
        exact absurd hletter (by decide)
      split at h
      all_goals
        obtain ⟨r, hdigits, heq⟩ := Option.map_eq_some_iff.mp h
        cases heq
        simp [hc, newline_notMem_of_scanDigits hdigits]
    · cases h
      exact List.not_mem_nil
  · cases h
    exact List.not_mem_nil

theorem newline_notMem_of_scanUnsigned {cs literal rest : List Char}
    (h : scanUnsigned cs = some (literal, rest)) : '\n' ∉ literal := by
  unfold scanUnsigned at h
  simp only [Option.bind_eq_bind, Option.bind_eq_some_iff] at h
  obtain ⟨⟨int, r₁⟩, hint, ⟨fraction, r₂⟩, hfraction, ⟨exponent, r₃⟩, hexponent, h⟩ := h
  cases h
  simp [newline_notMem_of_scanInt hint, newline_notMem_of_scanFraction hfraction,
    newline_notMem_of_scanExponent hexponent]

theorem isToken_number {cs literal rest : List Char} (h : scanNumber cs = some (literal, rest)) :
    IsToken literal where
  head := by
    obtain ⟨c, cs, hliteral, hspace, -⟩ := (Reads.num h).head
    exact ⟨c, cs, hliteral, hspace⟩
  last := (Reads.num h).last
  line := by
    unfold scanNumber at h
    split at h
    · obtain ⟨r, hscan, heq⟩ := Option.map_eq_some_iff.mp h
      cases heq
      simp [newline_notMem_of_scanUnsigned hscan]
    · exact newline_notMem_of_scanUnsigned h

/-! ### Tokens with white space around them -/

/-- A text of some tokens. -/
inductive Spaced : List (List Char) → List Char → Prop
  | nil {b : List Char} (hb : Blank b) : Spaced [] b
  | cons {b t rest : List Char} {tokens : List (List Char)} (hb : Blank b) (h : Spaced tokens rest) :
    Spaced (t :: tokens) (b ++ (t ++ rest))

theorem blank_append {b b' : List Char} (hb : Blank b) (hb' : Blank b') : Blank (b ++ b') :=
  fun c hc => (List.mem_append.mp hc).elim (hb c) (hb' c)

theorem spaced_single (t : List Char) : Spaced [t] t := by
  have h : Spaced [t] ([] ++ (t ++ [])) := .cons blank_nil (.nil blank_nil)
  rwa [List.nil_append, List.append_nil] at h

namespace Spaced

variable {tokens tokens' : List (List Char)} {x y b : List Char}

theorem blank_append (h : Spaced tokens x) (hb : Blank b) : Spaced tokens (b ++ x) := by
  cases h with
  | nil hb' => exact .nil (JsonText.blank_append hb hb')
  | cons hb' h' =>
    rw [← List.append_assoc]
    exact .cons (JsonText.blank_append hb hb') h'

theorem append (h : Spaced tokens x) (h' : Spaced tokens' y) : Spaced (tokens ++ tokens') (x ++ y) := by
  induction h with
  | nil hb => exact h'.blank_append hb
  | cons hb _ ih =>
    rw [List.append_assoc, List.append_assoc]
    exact .cons hb ih

theorem append_blank (h : Spaced tokens x) (hb : Blank b) : Spaced tokens (x ++ b) := by
  have h' := h.append (.nil hb)
  rwa [List.append_nil] at h'

/-- A text of two lists of tokens, cut between them. -/
theorem exists_append (h : Spaced (tokens ++ tokens') x) :
    ∃ y z, x = y ++ z ∧ Spaced tokens y ∧ Spaced tokens' z := by
  induction tokens generalizing x with
  | nil => exact ⟨[], x, rfl, .nil blank_nil, h⟩
  | cons t tokens ih =>
    cases h with
    | @cons b _ rest _ hb hrest =>
      obtain ⟨y, z, rfl, hy, hz⟩ := ih hrest
      exact ⟨b ++ (t ++ y), z, by simp, .cons hb hy, hz⟩

/-- A line break stands between tokens. -/
theorem exists_of_newline (htokens : ∀ t ∈ tokens, IsToken t) (h : Spaced tokens (x ++ '\n' :: y)) :
    ∃ before after, tokens = before ++ after ∧ Spaced before x ∧ Spaced after y := by
  generalize htext : x ++ '\n' :: y = text at h
  induction h generalizing x with
  | nil hb =>
    subst htext
    refine ⟨[], [], rfl, .nil fun c hc => hb c (List.mem_append_left _ hc), .nil fun c hc => ?_⟩
    exact hb c (List.mem_append_right _ (List.mem_cons_of_mem _ hc))
  | @cons b t rest tokens hb hrest ih =>
    obtain ⟨ht, htokens'⟩ := List.forall_mem_cons.mp htokens
    rcases List.append_eq_append_iff.mp htext.symm with ⟨x', rfl, hx'⟩ | ⟨b', rfl, hb'⟩
    · -- it comes after the first token
      obtain ⟨x'', rfl, hrest'⟩ := exists_append_of_not_mem hx' ht.line
      obtain ⟨before, after, rfl, hbefore, hafter⟩ := ih htokens' hrest'.symm
      exact ⟨t :: before, after, rfl, .cons hb hbefore, hafter⟩
    · -- it comes before all tokens
      cases b' with
      | nil =>
        obtain ⟨c, cs, rfl, -⟩ := ht.head
        obtain ⟨rfl, -⟩ := List.cons.inj hb'
        exact absurd List.mem_cons_self ht.line
      | cons c b' =>
        obtain ⟨-, rfl⟩ := List.cons.inj hb'
        refine ⟨[], t :: tokens, rfl, .nil fun c hc => hb c (List.mem_append_left _ hc), .cons ?_ hrest⟩
        exact fun c hc => hb c (List.mem_append_right _ (List.mem_cons_of_mem _ hc))

/-- White space in front of the first token is dropped, and nothing else. -/
theorem dropWhile_isSpace (htokens : ∀ t ∈ tokens, IsToken t) (h : Spaced tokens x) :
    Spaced tokens (x.dropWhile isSpace) := by
  have hdrop : ∀ {b : List Char}, Blank b → ∀ c ∈ b, isSpace c = true :=
    fun hb c hc => isSpace_of_isBlank (hb c hc)
  cases h with
  | nil hb =>
    rw [List.dropWhile_eq_nil_iff.mpr (hdrop hb)]
    exact .nil blank_nil
  | @cons b t rest tokens hb hrest =>
    obtain ⟨c, cs, rfl, hc⟩ := (htokens _ List.mem_cons_self).head
    rw [List.dropWhile_append_of_pos (hdrop hb), List.cons_append,
      List.dropWhile_cons_of_neg (by simp [hc])]
    exact .cons blank_nil hrest

theorem reverse (h : Spaced tokens x) : Spaced (tokens.map List.reverse).reverse x.reverse := by
  induction h with
  | nil hb => exact .nil fun c hc => hb c (List.mem_reverse.mp hc)
  | @cons b t rest tokens hb _ ih =>
    have hb' : Blank b.reverse := fun c hc => hb c (List.mem_reverse.mp hc)
    rw [List.reverse_append, List.reverse_append, List.map_cons, List.reverse_cons]
    exact (ih.append (spaced_single t.reverse)).append_blank hb'

end Spaced

theorem Spaced.trim {tokens : List (List Char)} {x : List Char} (htokens : ∀ t ∈ tokens, IsToken t)
    (h : Spaced tokens x) : Spaced tokens (trim x) := by
  have hreverse : ∀ t ∈ (tokens.map List.reverse).reverse, IsToken t := by
    intro t ht
    obtain ⟨t', ht', rfl⟩ := List.mem_map.mp (List.mem_reverse.mp ht)
    exact (htokens t' ht').reverse
  have hdropped := (((h.dropWhile_isSpace htokens).reverse).dropWhile_isSpace hreverse).reverse
  rw [List.map_reverse, List.reverse_reverse, List.map_map] at hdropped
  simpa [Function.comp_def, GoStd.trim] using hdropped

/-- Cut at the line breaks, a text has its tokens in the lines, one after the other. -/
theorem spaced_flatMap_trim {tokens lines : List (List Char)} (htokens : ∀ t ∈ tokens, IsToken t)
    (h : Spaced tokens (['\n'].intercalate lines)) : Spaced tokens (lines.flatMap trim) := by
  induction lines generalizing tokens with
  | nil => exact h
  | cons line lines ih =>
    cases lines with
    | nil =>
      rw [List.flatMap_cons, List.flatMap_nil, List.append_nil]
      refine Spaced.trim htokens ?_
      simpa using h
    | cons next lines =>
      rw [List.intercalate_cons_cons, List.append_assoc, List.singleton_append] at h
      obtain ⟨before, after, rfl, hbefore, hafter⟩ := h.exists_of_newline htokens
      rw [List.forall_mem_append] at htokens
      exact (hbefore.trim htokens.1).append (ih htokens.2 hafter)

/-! ### The value depends on the tokens -/

/-- Whatever white space is between the tokens of `text`, what they are a text of has the property. -/
def Lexes (R : List Char → Prop) (text : List Char) : Prop :=
  ∃ tokens, (∀ t ∈ tokens, IsToken t) ∧ Spaced tokens text ∧ ∀ x, Spaced tokens x →
    ∃ b text' b', x = b ++ text' ++ b' ∧ Blank b ∧ Blank b' ∧ R text'

/-- Two texts with white space between them. -/
def Joined (R R' : List Char → Prop) (text : List Char) : Prop :=
  ∃ x b y, text = x ++ (b ++ y) ∧ R x ∧ Blank b ∧ R' y

namespace Lexes

variable {R R' : List Char → Prop} {text text' b : List Char}

theorem token (ht : IsToken text) (h : R text) : Lexes R text := by
  refine ⟨[text], List.forall_mem_singleton.mpr ht, spaced_single text, fun x hx => ?_⟩
  cases hx with
  | @cons b _ rest _ hb hrest =>
    cases hrest with
    | nil hb' => exact ⟨b, text, rest, by simp, hb, hb', h⟩

theorem char {c : Char} (hc : isSpace c = false) : Lexes (· = [c]) [c] := token (isToken_char hc) rfl

theorem mono (h : Lexes R text) (hR : ∀ x, R x → R' x) : Lexes R' text := by
  obtain ⟨tokens, htokens, hspaced, hread⟩ := h
  refine ⟨tokens, htokens, hspaced, fun x hx => ?_⟩
  obtain ⟨b, y, b', rfl, hb, hb', hy⟩ := hread x hx
  exact ⟨b, y, b', rfl, hb, hb', hR y hy⟩

theorem join (h : Lexes R text) (hb : Blank b) (h' : Lexes R' text') :
    Lexes (Joined R R') (text ++ (b ++ text')) := by
  obtain ⟨tokens, htokens, hspaced, hread⟩ := h
  obtain ⟨tokens', htokens', hspaced', hread'⟩ := h'
  refine ⟨tokens ++ tokens', List.forall_mem_append.mpr ⟨htokens, htokens'⟩,
    hspaced.append (hspaced'.blank_append hb), fun x hx => ?_⟩
  obtain ⟨y, z, rfl, hy, hz⟩ := hx.exists_append
  obtain ⟨b₁, text₁, b₁', rfl, hb₁, hb₁', h₁⟩ := hread y hy
  obtain ⟨b₂, text₂, b₂', rfl, hb₂, hb₂', h₂⟩ := hread' z hz
  exact ⟨b₁, text₁ ++ (b₁' ++ b₂ ++ text₂), b₂', by simp, hb₁, hb₂',
    text₁, b₁' ++ b₂, text₂, rfl, h₁, blank_append hb₁' hb₂, h₂⟩

end Lexes

theorem quoted_append (raw rest : List Char) :
    '"' :: (raw ++ ['"']) ++ rest = '"' :: (raw ++ '"' :: rest) := by
  simp

/-- The productions of the grammar, token by token. -/
theorem lexes_productions : Productions (fun text j => Lexes (Reads · j) text)
    (fun text js => Lexes (ReadsElements · js) text) (fun text ms => Lexes (ReadsMembers · ms) text) where
  null := .token ⟨⟨'n', _, rfl, rfl⟩, ⟨['n', 'u', 'l'], 'l', rfl, rfl⟩, by decide⟩ .null
  bool_true := .token ⟨⟨'t', _, rfl, rfl⟩, ⟨['t', 'r', 'u'], 'e', rfl, rfl⟩, by decide⟩ .bool_true
  bool_false := .token ⟨⟨'f', _, rfl, rfl⟩, ⟨['f', 'a', 'l', 's'], 'e', rfl, rfl⟩, by decide⟩ .bool_false
  str hraw := .token (isToken_string hraw) (.str hraw)
  num hscan := .token (isToken_number hscan) (.num hscan)
  arr_nil hb := by
    refine ((Lexes.char (c := '[') rfl).join hb (Lexes.char (c := ']') rfl)).mono ?_
    rintro _ ⟨_, b, _, rfl, rfl, hb, rfl⟩
    exact .arr_nil hb
  arr hb h := by
    refine ((Lexes.char (c := '[') rfl).join hb h).mono ?_
    rintro _ ⟨_, b, y, rfl, rfl, hb, hy⟩
    exact (Reads.arr hb hy :)
  obj_nil hb := by
    refine ((Lexes.char (c := '\x7b') rfl).join hb (Lexes.char (c := '\x7d') rfl)).mono ?_
    rintro _ ⟨_, b, _, rfl, rfl, hb, rfl⟩
    exact .obj_nil hb
  obj hb h := by
    refine ((Lexes.char (c := '\x7b') rfl).join hb h).mono ?_
    rintro _ ⟨_, b, y, rfl, rfl, hb, hy⟩
    exact (Reads.obj hb hy :)
  element h hb := by
    refine (h.join hb (Lexes.char (c := ']') rfl)).mono ?_
    rintro _ ⟨x, b, _, rfl, hx, hb, rfl⟩
    exact .single hx hb
  elements h hb hb' h' := by
    refine (h.join hb ((Lexes.char (c := ',') rfl).join hb' h')).mono ?_
    rintro _ ⟨x, b, _, rfl, hx, hb, _, b', y, rfl, rfl, hb', hy⟩
    exact (ReadsElements.cons hx hb hb' hy :)
  member {raw b₁ b₂ b₃ text name j} hname h₁ h₂ h h₃ := by
    have hquoted : Lexes (· = '"' :: (raw ++ ['"'])) ('"' :: (raw ++ ['"'])) :=
      .token (isToken_string hname) rfl
    have hjoined := hquoted.join h₁ ((Lexes.char (c := ':') rfl).join h₂
      (h.join h₃ (Lexes.char (c := '\x7d') rfl)))
    rw [quoted_append] at hjoined
    refine hjoined.mono ?_
    rintro _ ⟨_, b₁, _, rfl, rfl, h₁, _, b₂, _, rfl, rfl, h₂, x, b₃, _, rfl, hx, h₃, rfl⟩
    rw [quoted_append]
    exact .single hname h₁ h₂ hx h₃
  members {raw b₁ b₂ b₃ b₄ text text' name j ms} hname h₁ h₂ h h₃ h₄ h' := by
    have hquoted : Lexes (· = '"' :: (raw ++ ['"'])) ('"' :: (raw ++ ['"'])) :=
      .token (isToken_string hname) rfl
    have hjoined := hquoted.join h₁ ((Lexes.char (c := ':') rfl).join h₂
      (h.join h₃ ((Lexes.char (c := ',') rfl).join h₄ h')))
    rw [quoted_append] at hjoined
    refine hjoined.mono ?_
    rintro _ ⟨_, b₁, _, rfl, rfl, h₁, _, b₂, _, rfl, rfl, h₂, x, b₃, _, rfl, hx, h₃, _, b₄, y, rfl, rfl,
      h₄, hy⟩
    rw [quoted_append]
    exact (ReadsMembers.cons hname h₁ h₂ hx h₃ h₄ hy :)

/-- A text that has a value keeps it when the white space between its tokens changes. -/
theorem exists_tokens_of_parse {s : String} {j : Json} (h : parse s = some j) :
    ∃ tokens, (∀ t ∈ tokens, IsToken t) ∧ Spaced tokens s.toList ∧
      ∀ x, Spaced tokens x → parse (String.ofList x) = some j := by
  obtain ⟨b, text, b', hs, hb, hb', tokens, htokens, hspaced, hread⟩ := lexes_productions.of_parse h
  refine ⟨tokens, htokens, hs ▸ (hspaced.blank_append hb).append_blank hb', fun x hx => ?_⟩
  obtain ⟨b₁, text₁, b₁', rfl, hb₁, hb₁', hreads⟩ := hread x hx
  exact parse_eq_some.mpr ⟨b₁, text₁, b₁', String.toList_ofList, hb₁, hb₁', hreads⟩

/-- A text keeps its value when its lines are trimmed and written one after the other. -/
theorem parse_flatMap_trim {lines : List (List Char)} {j : Json}
    (h : parse (String.ofList (['\n'].intercalate lines)) = some j) :
    parse (String.ofList (lines.flatMap trim)) = some j := by
  obtain ⟨tokens, htokens, hspaced, hparse⟩ := exists_tokens_of_parse h
  rw [String.toList_ofList] at hspaced
  exact hparse _ (spaced_flatMap_trim htokens hspaced)

end JsonText

end GoStd
