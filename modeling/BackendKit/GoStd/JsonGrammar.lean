import BackendKit.GoStd.JsonText
import Mathlib.Tactic.IntervalCases

/-!
# What a JSON text is

`Reads text j` says that `text`, without white space around it, is a text of the value `j`: the parser
of `JsonText` reads it off the front of any text whose next character does not go on with a number. The
lemmas `Reads.arr`, `ReadsElements.cons`, … are the productions of the grammar, and every successful
run of the parser is made of them (`Productions.of_value`). Hence

* a text has a value if and only if it is such a text between white space (`parse_eq_some`);
* trimming a text does not change its value (`parse_trimSpace`);
* what has been written can be read back (`parse_render`).
-/

open Option (bind_eq_some_iff map_eq_some_iff)

namespace GoStd

namespace JsonText

/-! ### Strings -/

variable {b : List Char} {c : Char} {n : ℕ} {more s rest cs ds : List Char}

/-- What is not a hexadecimal digit is none of the four. -/
theorem hex4_ne {a b d x : Char} (hx : hexDigit? x = none) (h : hex4 a b c d = some n) :
    a ≠ x ∧ b ≠ x ∧ c ≠ x ∧ d ≠ x := by
  unfold hex4 at h
  simp only [Option.bind_eq_bind, bind_eq_some_iff] at h
  obtain ⟨a', ha, b', hb, c', hc, d', hd, -⟩ := h
  refine ⟨?_, ?_, ?_, ?_⟩
  · rintro rfl
    cases hx.symm.trans ha
  · rintro rfl
    cases hx.symm.trans hb
  · rintro rfl
    cases hx.symm.trans hc
  · rintro rfl
    cases hx.symm.trans hd

/-! The pieces of a string, one by one. -/

/-- A character that stands for itself. -/
theorem scanString_plain (hquote : c ≠ '"') (hplain : ¬ (c.toNat < 0x20 ∨ c = '\\'))
    (h : scanString more = some (s, rest)) :
    scanString (c :: more) = some (c :: s, rest) := by
  have hslash : c ≠ '\\' := fun heq => hplain (.inr heq)
  rw [scanString]
  · simp [hplain, h]
  · exact hquote
  · intro _ _ _ _ _ _ _ _ _ heq
    exact absurd heq hslash
  · intro _ _ _ _ _ heq
    exact absurd heq hslash
  · intro _ _ heq
    exact absurd heq hslash

/-- An escape of two characters. -/
theorem scanString_short {e : Char} (hc : unescape e = some c)
    (h : scanString more = some (s, rest)) :
    scanString ('\\' :: e :: more) = some (c :: s, rest) := by
  have hu : e ≠ 'u' := by
    rintro rfl
    cases hc
  rw [scanString]
  · simp [hc, h]
  · intro _ _ _ _ _ _ _ _ _ heq
    exact absurd heq hu
  · intro _ _ _ _ _ heq
    exact absurd heq hu

/-- The unit `n` does not make a pair with an escape that follows. -/
def Alone (n : ℕ) (more : List Char) : Prop :=
  ∀ e f g k tail, more = '\\' :: 'u' :: e :: f :: g :: k :: tail →
    ∃ m, hex4 e f g k = some m ∧ surrogates n m = none

/-- A `\u` escape that is not half of a surrogate pair. -/
theorem scanString_alone {a b d : Char} (hn : hex4 a b c d = some n) (halone : Alone n more)
    (h : scanString more = some (s, rest)) :
    scanString ('\\' :: 'u' :: a :: b :: c :: d :: more) = some (unit n :: s, rest) := by
  by_cases hmore : ∃ e f g k tail, more = '\\' :: 'u' :: e :: f :: g :: k :: tail
  · obtain ⟨e, f, g, k, tail, rfl⟩ := hmore
    obtain ⟨m, hm, hpair⟩ := halone e f g k tail rfl
    rw [scanString]
    simp [hn, hm, hpair, h]
  · rw [scanString]
    · simp [hn, h]
    · intro e f g k tail heq
      exact hmore ⟨e, f, g, k, tail, heq⟩

/-- The ways in which a string goes on: with its closing quote and `rest`, or with a piece of one of these
kinds. -/
inductive Scans (rest : List Char) : List Char → List Char → Prop
  | close : Scans rest ('"' :: rest) []
  | pair {a b c d e f g k p : Char} {n m : ℕ} {cs s : List Char} (hn : hex4 a b c d = some n)
      (hm : hex4 e f g k = some m) (hpair : surrogates n m = some p) (h : Scans rest cs s) :
      Scans rest ('\\' :: 'u' :: a :: b :: c :: d :: '\\' :: 'u' :: e :: f :: g :: k :: cs) (p :: s)
  | alone {a b c d : Char} {n : ℕ} {cs s : List Char} (hn : hex4 a b c d = some n)
      (halone : Alone n cs) (h : Scans rest cs s) :
      Scans rest ('\\' :: 'u' :: a :: b :: c :: d :: cs) (unit n :: s)
  | short {e c : Char} {cs s : List Char} (hc : unescape e = some c) (h : Scans rest cs s) :
      Scans rest ('\\' :: e :: cs) (c :: s)
  | plain {c : Char} {cs s : List Char} (hquote : c ≠ '"') (hplain : ¬ (c.toNat < 0x20 ∨ c = '\\'))
      (h : Scans rest cs s) : Scans rest (c :: cs) (c :: s)

/-- There are no other strings. -/
theorem scans_of_scanString (h : scanString cs = some (s, rest)) : Scans rest cs s := by
  fun_induction scanString cs generalizing s with
  | case1 => cases h
  | case2 rest₀ =>
    cases h
    exact .close
  | case3 a b c d e f g k rest₀ ihrest ihunit =>
    simp only [Option.bind_eq_bind, bind_eq_some_iff] at h
    obtain ⟨n, hn, m, hm, h⟩ := h
    cases hpair : surrogates n m with
    | some pair =>
      rw [hpair] at h
      obtain ⟨⟨s', after⟩, hscan, h⟩ := bind_eq_some_iff.mp h
      cases h
      exact .pair hn hm hpair (ihrest hscan)
    | none =>
      rw [hpair] at h
      obtain ⟨⟨s', after⟩, hscan, h⟩ := bind_eq_some_iff.mp h
      cases h
      refine .alone hn (fun e' f' g' k' tail heq => ?_) (ihunit hscan)
      cases heq
      exact ⟨m, hm, hpair⟩
  | case4 a b c d rest₀ hnot ih =>
    simp only [Option.bind_eq_bind, bind_eq_some_iff] at h
    obtain ⟨n, hn, ⟨s', after⟩, hscan, h⟩ := h
    cases h
    exact .alone hn (fun e f g k tail heq => absurd heq (hnot e f g k tail)) (ih hscan)
  | case5 e rest₀ _ _ ih =>
    simp only [Option.bind_eq_bind, bind_eq_some_iff] at h
    obtain ⟨c, hc, ⟨s', after⟩, hscan, h⟩ := h
    cases h
    exact .short hc (ih hscan)
  | case6 => cases h
  | case7 c rest₀ hquote _ _ _ hplain ih =>
    simp only [Option.bind_eq_bind, bind_eq_some_iff] at h
    obtain ⟨⟨s', after⟩, hscan, h⟩ := h
    cases h
    exact .plain hquote hplain (ih hscan)

/-- A `\u` is followed by four hexadecimal digits. -/
theorem Scans.exists_hex4 (h : Scans rest ('\\' :: 'u' :: cs) s) :
    ∃ a b c d tail n, cs = a :: b :: c :: d :: tail ∧ hex4 a b c d = some n := by
  cases h with
  | pair hn hm hpair h => exact ⟨_, _, _, _, _, _, rfl, hn⟩
  | alone hn halone h => exact ⟨_, _, _, _, _, _, rfl, hn⟩
  | short hc h => cases hc
  | plain hquote hplain h => exact absurd (.inr rfl) hplain

/-- Whether a unit makes a pair is settled before the closing quote. -/
theorem Alone.of_raw {raw : List Char} (halone : Alone n (raw ++ '"' :: rest))
    (h : Scans rest (raw ++ '"' :: rest) s) (rest' : List Char) :
    Alone n (raw ++ '"' :: rest') := by
  intro e f g k tail heq
  rcases raw with _ | ⟨x₁, _ | ⟨x₂, raw⟩⟩
  · simp at heq
  · simp at heq
  obtain ⟨rfl, rfl, htail⟩ : x₁ = '\\' ∧ x₂ = 'u' ∧ raw ++ '"' :: rest' = e :: f :: g :: k :: tail := by
    simpa using heq
  obtain ⟨a, b, c, d, tail', m, hraw, hm⟩ := h.exists_hex4
  -- the quote is none of the digits
  obtain ⟨ha, hb, hc, hd⟩ := hex4_ne (x := '"') (by decide) hm
  have hcut : [a, b, c, d] ++ tail' = raw ++ '"' :: rest := hraw.symm
  obtain ⟨raw', rfl, rfl⟩ := exists_append_of_not_mem hcut (by simp [ha.symm, hb.symm, hc.symm, hd.symm])
  obtain ⟨rfl, rfl, rfl, rfl, -⟩ : a = e ∧ b = f ∧ c = g ∧ d = k ∧ _ := by simpa using htail
  exact halone a b c d _ rfl

/-- What a string is read from ends with a quote, and what follows makes no difference. -/
theorem scanString_eq_some (h : scanString cs = some (s, rest)) :
    ∃ raw, cs = raw ++ '"' :: rest ∧ ∀ rest', scanString (raw ++ '"' :: rest') = some (s, rest') := by
  have hscans := scans_of_scanString h
  clear h
  induction hscans with
  | close => exact ⟨[], rfl, fun _ => rfl⟩
  | @pair a b c d e f g k p n m cs s hn hm hpair h ih =>
    obtain ⟨raw, rfl, hraw⟩ := ih
    refine ⟨['\\', 'u', a, b, c, d, '\\', 'u', e, f, g, k] ++ raw, rfl, fun rest' => ?_⟩
    simp [scanString, hn, hm, hpair, hraw rest']
  | @alone a b c d n cs s hn halone h ih =>
    obtain ⟨raw, rfl, hraw⟩ := ih
    refine ⟨['\\', 'u', a, b, c, d] ++ raw, rfl, fun rest' => ?_⟩
    exact scanString_alone hn (halone.of_raw h rest') (hraw rest')
  | @short e c cs s hc h ih =>
    obtain ⟨raw, rfl, hraw⟩ := ih
    exact ⟨'\\' :: e :: raw, rfl, fun rest' => scanString_short hc (hraw rest')⟩
  | @plain c cs s hquote hplain h ih =>
    obtain ⟨raw, rfl, hraw⟩ := ih
    exact ⟨c :: raw, rfl, fun rest' => scanString_plain hquote hplain (hraw rest')⟩

/-! ### Numbers -/

/-- The first character does not go on with a number. -/
def Stops (rest : List Char) : Prop :=
  ∀ c ∈ rest.head?, c.isDigit = false ∧ c ≠ '.' ∧ c ≠ 'e' ∧ c ≠ 'E'

/-- The first character is not a digit. -/
def NoDigit (rest : List Char) : Prop := ∀ c ∈ rest.head?, c.isDigit = false

theorem Stops.noDigit (h : Stops rest) : NoDigit rest :=
  fun c hc => (h c hc).1

theorem noDigit_cons (h : c.isDigit = false) : NoDigit (c :: rest) := by
  intro d hd
  obtain rfl : c = d := by simpa using hd
  exact h

theorem stops_nil : Stops [] := fun _ h => nomatch h

theorem stops_cons (h : c.isDigit = false ∧ c ≠ '.' ∧ c ≠ 'e' ∧ c ≠ 'E') : Stops (c :: rest) := by
  intro d hd
  obtain rfl : c = d := by simpa using hd
  exact h

/-- A piece of a number: digits at the end, if there is anything at all. -/
def EndsInDigit (ds : List Char) : Prop := ∃ front d, ds = front ++ [d] ∧ d.isDigit = true

theorem scanDigits_append (hne : ds ≠ []) (hall : ∀ d ∈ ds, d.isDigit = true) (hrest : NoDigit rest)
    : scanDigits (ds ++ rest) = some (ds, rest) := by
  have htake : rest.takeWhile Char.isDigit = [] ∧ rest.dropWhile Char.isDigit = rest := by
    cases rest with
    | nil => exact ⟨rfl, rfl⟩
    | cons c cs =>
      have hc : c.isDigit = false := hrest c rfl
      simp [hc]
  unfold scanDigits
  rw [List.takeWhile_append_of_pos hall, List.dropWhile_append_of_pos hall, htake.1, htake.2,
    List.append_nil, if_neg hne]

theorem scanDigits_eq_some (h : scanDigits cs = some (ds, rest)) :
    cs = ds ++ rest ∧ EndsInDigit ds ∧
      ∀ rest', NoDigit rest' → scanDigits (ds ++ rest') = some (ds, rest') := by
  unfold scanDigits at h
  split at h
  · cases h
  next hne =>
    cases h
    have hall : ∀ d ∈ cs.takeWhile Char.isDigit, d.isDigit = true := fun d hd =>
      List.mem_takeWhile_imp hd
    refine ⟨List.takeWhile_append_dropWhile.symm, ?_, fun rest' => scanDigits_append hne hall⟩
    exact ⟨_, _, (List.dropLast_append_getLast hne).symm, hall _ (List.getLast_mem hne)⟩

theorem EndsInDigit.append {front : List Char} (h : EndsInDigit ds) :
    EndsInDigit (front ++ ds) := by
  obtain ⟨front', d, rfl, hd⟩ := h
  exact ⟨front ++ front', d, (List.append_assoc ..).symm, hd⟩

theorem EndsInDigit.cons {c : Char} {ds : List Char} (h : EndsInDigit ds) : EndsInDigit (c :: ds) :=
  show EndsInDigit ([c] ++ ds) from h.append

theorem scanDigits_head {r : List Char × List Char} (h : scanDigits cs = some r) :
    ∃ d rest, cs = d :: rest ∧ d.isDigit = true := by
  unfold scanDigits at h
  cases cs with
  | nil => cases h
  | cons d rest =>
    refine ⟨d, rest, rfl, ?_⟩
    by_contra hd
    simp [hd] at h

/-- The integer part begins and ends with a digit. -/
theorem scanInt_eq_some {int : List Char} (h : scanInt cs = some (int, rest)) :
    cs = int ++ rest ∧ EndsInDigit int ∧ (∃ d ds, int = d :: ds ∧ d.isDigit = true) ∧
      ∀ rest', NoDigit rest' → scanInt (int ++ rest') = some (int, rest') := by
  unfold scanInt at h
  split at h
  · cases h
    exact ⟨rfl, ⟨[], '0', rfl, rfl⟩, ⟨'0', [], rfl, rfl⟩, fun _ _ => rfl⟩
  next hzero =>
    obtain ⟨rfl, hend, hscan⟩ := scanDigits_eq_some h
    obtain ⟨d, tail, htail, hd⟩ := scanDigits_head h
    obtain ⟨ds, rfl⟩ : ∃ ds, int = d :: ds := by
      obtain ⟨front, last, rfl, -⟩ := hend
      cases front with
      | nil => exact ⟨[], by simp at htail; simp [htail.1]⟩
      | cons x front => exact ⟨front ++ [last], by simp at htail; simp [htail.1]⟩
    refine ⟨rfl, hend, ⟨d, ds, rfl, hd⟩, ?_⟩
    intro rest' hrest'
    rw [← hscan rest' hrest', List.cons_append]
    unfold scanInt
    split
    next heq => exact absurd (by rw [(List.cons.inj heq).1]; rfl) (hzero (ds ++ rest))
    · rfl

/-- The fraction begins with a point, if it is there. -/
theorem scanFraction_eq_some {fraction : List Char} (h : scanFraction cs = some (fraction, rest)) :
    cs = fraction ++ rest ∧ (fraction = [] ∨ EndsInDigit fraction ∧ ∃ ds, fraction = '.' :: ds) ∧
      ∀ rest', NoDigit rest' → (∀ c ∈ rest'.head?, c ≠ '.') →
        scanFraction (fraction ++ rest') = some (fraction, rest') := by
  unfold scanFraction at h
  split at h
  · obtain ⟨⟨ds, after⟩, hdigits, h⟩ := map_eq_some_iff.mp h
    obtain ⟨rfl, rfl⟩ := Prod.mk.inj h
    obtain ⟨rfl, hend, hscan⟩ := scanDigits_eq_some hdigits
    refine ⟨rfl, .inr ⟨hend.cons, ds, rfl⟩, ?_⟩
    intro rest' hrest' _
    simp [scanFraction, hscan rest' hrest']
  · cases h
    refine ⟨rfl, .inl rfl, ?_⟩
    intro rest' _ hpoint
    unfold scanFraction
    split
    next heq =>
      simp only [List.nil_append] at heq
      rw [heq] at hpoint
      exact absurd rfl (hpoint '.' rfl)
    · rfl

theorem scanExponent_of_stops (h : Stops rest) : scanExponent rest = some ([], rest) := by
  cases rest with
  | nil => rfl
  | cons c rest =>
    have hc := h c rfl
    simp [scanExponent, hc.2.2.1, hc.2.2.2]

/-- The exponent begins with the letter, if it is there. -/
theorem scanExponent_eq_some {exponent : List Char} (h : scanExponent cs = some (exponent, rest)) :
    cs = exponent ++ rest ∧
      (exponent = [] ∨ EndsInDigit exponent ∧ ∃ c ds, exponent = c :: ds ∧ (c = 'e' ∨ c = 'E')) ∧
      ∀ rest', Stops rest' → scanExponent (exponent ++ rest') = some (exponent, rest') := by
  unfold scanExponent at h
  split at h
  next c cs =>
    split at h
    next hletter =>
      split at h
      all_goals
        obtain ⟨⟨ds, after⟩, hdigits, h⟩ := map_eq_some_iff.mp h
        obtain ⟨rfl, rfl⟩ := Prod.mk.inj h
        obtain ⟨rfl, hend, hscan⟩ := scanDigits_eq_some hdigits
      · refine ⟨rfl, .inr ⟨hend.cons.cons, c, '-' :: ds, rfl, hletter⟩, ?_⟩
        intro rest' hrest'
        simp [scanExponent, hletter, hscan rest' hrest'.noDigit]
      · refine ⟨rfl, .inr ⟨hend.cons.cons, c, '+' :: ds, rfl, hletter⟩, ?_⟩
        intro rest' hrest'
        simp [scanExponent, hletter, hscan rest' hrest'.noDigit]
      next hminus hplus =>
        refine ⟨rfl, .inr ⟨hend.cons, c, ds, rfl, hletter⟩, ?_⟩
        intro rest' hrest'
        obtain ⟨d, tail, htail, hd⟩ := scanDigits_head (hscan rest' hrest'.noDigit)
        simp only [List.cons_append, scanExponent, if_pos hletter]
        split
        next heq =>
          obtain ⟨rfl, -⟩ := List.cons.inj (htail.symm.trans heq)
          cases hd
        next heq =>
          obtain ⟨rfl, -⟩ := List.cons.inj (htail.symm.trans heq)
          cases hd
        · rw [hscan rest' hrest'.noDigit]
          rfl
    next hletter =>
      cases h
      exact ⟨rfl, .inl rfl, fun _ => scanExponent_of_stops⟩
  · cases h
    exact ⟨rfl, .inl rfl, fun _ => scanExponent_of_stops⟩

/-- What a number is read from begins with a digit and ends with one. -/
theorem scanUnsigned_eq_some {literal : List Char} (h : scanUnsigned cs = some (literal, rest)) :
    cs = literal ++ rest ∧ EndsInDigit literal ∧
      (∃ d ds, literal = d :: ds ∧ d.isDigit = true) ∧
      ∀ rest', Stops rest' → scanUnsigned (literal ++ rest') = some (literal, rest') := by
  unfold scanUnsigned at h
  simp only [Option.bind_eq_bind, bind_eq_some_iff] at h
  obtain ⟨⟨int, r₁⟩, hint, ⟨fraction, r₂⟩, hfraction, ⟨exponent, r₃⟩, hexponent, h⟩ := h
  cases h
  obtain ⟨rfl, hendInt, ⟨d, ds, rfl, hd⟩, hscanInt⟩ := scanInt_eq_some hint
  obtain ⟨rfl, hshapeFraction, hscanFraction⟩ := scanFraction_eq_some hfraction
  obtain ⟨rfl, hshapeExponent, hscanExponent⟩ := scanExponent_eq_some hexponent
  -- What follows the integer part, and the fraction, is not a digit.
  have hafterFraction : ∀ rest', Stops rest' → NoDigit (exponent ++ rest') ∧
      ∀ c ∈ (exponent ++ rest').head?, c ≠ '.' := by
    intro rest' hrest'
    rcases hshapeExponent with rfl | ⟨-, c, es, rfl, rfl | rfl⟩
    · exact ⟨hrest'.noDigit, fun c hc => (hrest' c hc).2.1⟩
    · exact ⟨noDigit_cons rfl, by simp⟩
    · exact ⟨noDigit_cons rfl, by simp⟩
  have hafterInt : ∀ rest', Stops rest' → NoDigit (fraction ++ (exponent ++ rest')) := by
    intro rest' hrest'
    rcases hshapeFraction with rfl | ⟨-, fs, rfl⟩
    · exact (hafterFraction rest' hrest').1
    · exact noDigit_cons rfl
  refine ⟨by simp, ?_, ⟨d, ds ++ fraction ++ exponent, rfl, hd⟩, ?_⟩
  · rcases hshapeExponent with rfl | ⟨hend, -⟩
    · rw [List.append_nil]
      rcases hshapeFraction with rfl | ⟨hend, -⟩
      · rwa [List.append_nil]
      · exact hend.append
    · exact hend.append
  · intro rest' hrest'
    have hint' := hscanInt _ (hafterInt rest' hrest')
    have hfraction' := hscanFraction _ (hafterFraction rest' hrest').1 (hafterFraction rest' hrest').2
    have hexponent' := hscanExponent rest' hrest'
    unfold scanUnsigned
    rw [List.append_assoc, List.append_assoc, hint']
    simp [hfraction', hexponent']

theorem scanNumber_eq_some {literal : List Char} (h : scanNumber cs = some (literal, rest)) :
    cs = literal ++ rest ∧ EndsInDigit literal ∧
      (∃ c ds, literal = c :: ds ∧ (c = '-' ∨ c.isDigit = true)) ∧
      ∀ rest', Stops rest' → scanNumber (literal ++ rest') = some (literal, rest') := by
  unfold scanNumber at h
  split at h
  · obtain ⟨⟨unsigned, after⟩, hscan, h⟩ := map_eq_some_iff.mp h
    obtain ⟨rfl, rfl⟩ := Prod.mk.inj h
    obtain ⟨rfl, hend, -, hunsigned⟩ := scanUnsigned_eq_some hscan
    refine ⟨rfl, hend.cons, ⟨'-', unsigned, rfl, .inl rfl⟩, ?_⟩
    intro rest' hrest'
    simp [scanNumber, hunsigned rest' hrest']
  · obtain ⟨rfl, hend, ⟨d, ds, rfl, hd⟩, hunsigned⟩ := scanUnsigned_eq_some h
    refine ⟨rfl, hend, ⟨d, ds, rfl, .inr hd⟩, ?_⟩
    intro rest' hrest'
    rw [← hunsigned rest' hrest', List.cons_append]
    unfold scanNumber
    split
    next heq =>
      obtain ⟨rfl, -⟩ := List.cons.inj heq
      cases hd
    · rfl

/-! ### White space -/

/-- A list of white space. -/
def Blank (b : List Char) : Prop := ∀ c ∈ b, isBlank c = true

theorem blank_nil : Blank [] := fun _ h => nomatch h

theorem isSpace_of_isBlank (h : isBlank c = true) : isSpace c = true := by
  simp only [isBlank, Bool.or_eq_true, decide_eq_true_eq] at h
  rcases h with ((rfl | rfl) | rfl) | rfl <;> rfl

theorem isBlank_of_isSpace (h : isSpace c = false) : isBlank c = false := by
  by_contra hblank
  rw [Bool.not_eq_false] at hblank
  cases h.symm.trans (isSpace_of_isBlank hblank)

theorem skip_append (h : Blank b) (cs : List Char) : skip (b ++ cs) = skip cs :=
  List.dropWhile_append_of_pos h

theorem skip_cons (h : isBlank c = false) (cs : List Char) : skip (c :: cs) = c :: cs := by
  simp [skip, h]

theorem skip_append_cons (hb : Blank b) (hc : isBlank c = false) (cs : List Char) :
    skip (b ++ c :: cs) = c :: cs := by
  rw [skip_append hb, skip_cons hc]

/-- What is skipped is white space. -/
theorem exists_skip (cs : List Char) : ∃ b, Blank b ∧ cs = b ++ skip cs :=
  ⟨cs.takeWhile isBlank, fun _ h => List.mem_takeWhile_imp h, List.takeWhile_append_dropWhile.symm⟩

theorem exists_skip_eq (h : skip cs = rest) : ∃ b, Blank b ∧ cs = b ++ rest :=
  h ▸ exists_skip cs

theorem stops_append (hb : Blank b) (hcs : Stops cs) : Stops (b ++ cs) := by
  cases b with
  | nil => exact hcs
  | cons c b =>
    apply stops_cons
    have hc : isBlank c = true := hb c (List.mem_cons_self ..)
    simp only [isBlank, Bool.or_eq_true, decide_eq_true_eq] at hc
    rcases hc with ((rfl | rfl) | rfl) | rfl <;> exact ⟨rfl, by decide, by decide, by decide⟩

theorem stops_of_blank (hb : Blank b) : Stops b := by
  have h := stops_append hb stops_nil
  rwa [List.append_nil] at h

/-! ### Texts of values -/

/-- A text of a value. The parser needs fuel twice its length, and what follows must not go on with a
number. -/
structure Reads (text : List Char) (j : Json) : Prop where
  head : ∃ c cs, text = c :: cs ∧ isSpace c = false ∧ c ≠ ']'
  last : ∃ front c, text = front ++ [c] ∧ isSpace c = false
  value : ∀ fuel rest, 2 * text.length ≤ fuel + 1 → Stops rest →
    value fuel (text ++ rest) = some (j, rest)

/-- The text of an array from its first element to the bracket. -/
structure ReadsElements (text : List Char) (js : List Json) : Prop where
  head : ∃ c cs, text = c :: cs ∧ isBlank c = false ∧ c ≠ ']'
  last : ∃ front, text = front ++ [']']
  elements : ∀ fuel rest, 2 * text.length ≤ fuel → elements fuel (text ++ rest) = some (js, rest)

/-- The text of an object from its first member to the brace. -/
structure ReadsMembers (text : List Char) (ms : List (String × Json)) : Prop where
  head : ∃ cs, text = '"' :: cs
  last : ∃ front, text = front ++ ['\x7d']
  members : ∀ fuel rest, 2 * text.length ≤ fuel → members fuel (text ++ rest) = some (ms, rest)

/-- What stands between the quotes of a string, with the closing one. -/
def ReadsString (raw : List Char) (s : String) : Prop :=
  ∀ rest, scanString (raw ++ '"' :: rest) = some (s.toList, rest)

theorem ReadsString.scan {raw : List Char} {s : String} (h : ReadsString raw s) (rest : List Char) :
    scanString (raw ++ '"' :: rest) = some (s.toList, rest) :=
  h rest

theorem Reads.skip_eq {text : List Char} {j : Json} (h : Reads text j) (hb : Blank b)
    (rest : List Char) : skip (b ++ (text ++ rest)) = text ++ rest := by
  obtain ⟨c, cs, rfl, hspace, -⟩ := h.head
  exact skip_append_cons hb (isBlank_of_isSpace hspace) (cs ++ rest)

theorem value_number (hc : c = '-' ∨ c.isDigit = true) (fuel : ℕ) (cs : List Char) :
    value (fuel + 1) (c :: cs) =
      (scanNumber (c :: cs)).map fun r => (.num (String.ofList r.1), r.2) := by
  -- None of the other tokens begins like a number.
  have hne : ∀ d : Char, d ≠ '-' → d.isDigit = false → c ≠ d := by
    rintro d hminus hdigit rfl
    rcases hc with rfl | hc
    · exact hminus rfl
    · cases hdigit.symm.trans hc
  rw [value]
  all_goals
    intros
    rename_i heq
    have := List.cons.inj heq
    first
    | exact absurd this.1 (hne 'n' (by decide) rfl)
    | exact absurd this.1 (hne 't' (by decide) rfl)
    | exact absurd this.1 (hne 'f' (by decide) rfl)
    | exact absurd this.1 (hne '"' (by decide) rfl)
    | exact absurd this.1 (hne '[' (by decide) rfl)
    | exact absurd this.1 (hne '\x7b' (by decide) rfl)

theorem value_arr {fuel : ℕ} {rest cs : List Char} {c : Char} (h : skip rest = c :: cs)
    (hc : c ≠ ']') :
    value (fuel + 1) ('[' :: rest) =
      (elements fuel (c :: cs)).map fun r => (.arr r.1, r.2) := by
  rw [value, h]
  split
  next heq => exact absurd (List.cons.inj heq).1 hc
  · rfl

theorem value_obj {fuel : ℕ} (h : skip rest = c :: cs) (hc : c ≠ '\x7d') :
    value (fuel + 1) ('\x7b' :: rest) =
      (members fuel (c :: cs)).map fun r => (.obj r.1, r.2) := by
  rw [value, h]
  split
  next heq => exact absurd (List.cons.inj heq).1 hc
  · rfl

namespace Reads

theorem null : Reads "null".toList .null where
  head := ⟨'n', _, rfl, rfl, by decide⟩
  last := ⟨['n', 'u', 'l'], 'l', rfl, rfl⟩
  value fuel rest hfuel _ := by
    obtain _ | fuel := fuel
    · grind
    rfl

theorem bool_true : Reads "true".toList (.bool true) where
  head := ⟨'t', _, rfl, rfl, by decide⟩
  last := ⟨['t', 'r', 'u'], 'e', rfl, rfl⟩
  value fuel rest hfuel _ := by
    obtain _ | fuel := fuel
    · grind
    rfl

theorem bool_false : Reads "false".toList (.bool false) where
  head := ⟨'f', _, rfl, rfl, by decide⟩
  last := ⟨['f', 'a', 'l', 's'], 'e', rfl, rfl⟩
  value fuel rest hfuel _ := by
    obtain _ | fuel := fuel
    · grind
    rfl

theorem str {raw : List Char} {s : String} (h : ReadsString raw s) :
    Reads ('"' :: (raw ++ ['"'])) (.str s) where
  head := ⟨'"', _, rfl, rfl, by decide⟩
  last := ⟨'"' :: raw, '"', rfl, rfl⟩
  value fuel rest hfuel _ := by
    obtain _ | fuel := fuel
    · grind
    simp [JsonText.value, h rest]

theorem num {literal cs rest : List Char} (h : scanNumber cs = some (literal, rest)) :
    Reads literal (.num (String.ofList literal)) := by
  obtain ⟨-, ⟨front, d, hlast, hd⟩, ⟨c, ds, rfl, hc⟩, hscan⟩ := scanNumber_eq_some h
  have hspace : ∀ c : Char, c = '-' ∨ c.isDigit = true → isSpace c = false ∧ c ≠ ']' := by
    rintro c (rfl | hc)
    · exact ⟨rfl, by decide⟩
    · constructor
      · have hle : 48 ≤ c.toNat ∧ c.toNat ≤ 57 := by
          simpa [Char.isDigit, UInt32.le_iff_toNat_le] using hc
        simp [isSpace, isSpaceRune]
        omega
      · rintro rfl
        cases hc
  refine ⟨⟨c, ds, rfl, hspace c hc⟩, ⟨front, d, hlast, (hspace d (.inr hd)).1⟩, ?_⟩
  intro fuel rest hfuel hrest
  obtain _ | fuel := fuel
  · grind
  have hscan' := hscan rest hrest
  rw [List.cons_append] at hscan' ⊢
  rw [value_number hc, hscan']
  rfl

theorem arr_nil {b : List Char} (hb : Blank b) : Reads ('[' :: (b ++ [']'])) (.arr []) where
  head := ⟨'[', _, rfl, rfl, by decide⟩
  last := ⟨'[' :: b, ']', rfl, rfl⟩
  value fuel rest hfuel _ := by
    obtain _ | fuel := fuel
    · grind
    have hskip : skip (b ++ ']' :: rest) = ']' :: rest := skip_append_cons hb rfl rest
    simp [JsonText.value, hskip]

theorem arr {b text : List Char} {js : List Json} (hb : Blank b) (h : ReadsElements text js) :
    Reads ('[' :: (b ++ text)) (.arr js) where
  head := ⟨'[', _, rfl, rfl, by decide⟩
  last := by
    obtain ⟨front, rfl⟩ := h.last
    exact ⟨'[' :: (b ++ front), ']', by simp, rfl⟩
  value fuel rest hfuel _ := by
    obtain _ | fuel := fuel
    · grind
    have helements := h.elements fuel rest (by simp at hfuel; omega)
    obtain ⟨c, cs, rfl, hblank, hc⟩ := h.head
    have hskip := skip_append_cons hb hblank (cs ++ rest)
    rw [List.cons_append] at helements
    simp [value_arr hskip hc, helements]

theorem obj_nil {b : List Char} (hb : Blank b) : Reads ('\x7b' :: (b ++ ['\x7d'])) (.obj []) where
  head := ⟨'\x7b', _, rfl, rfl, by decide⟩
  last := ⟨'\x7b' :: b, '\x7d', rfl, rfl⟩
  value fuel rest hfuel _ := by
    obtain _ | fuel := fuel
    · grind
    have hskip : skip (b ++ '\x7d' :: rest) = '\x7d' :: rest := skip_append_cons hb rfl rest
    simp [JsonText.value, hskip]

theorem obj {b text : List Char} {ms : List (String × Json)} (hb : Blank b)
    (h : ReadsMembers text ms) : Reads ('\x7b' :: (b ++ text)) (.obj ms) where
  head := ⟨'\x7b', _, rfl, rfl, by decide⟩
  last := by
    obtain ⟨front, rfl⟩ := h.last
    exact ⟨'\x7b' :: (b ++ front), '\x7d', by simp, rfl⟩
  value fuel rest hfuel _ := by
    obtain _ | fuel := fuel
    · grind
    have hmembers := h.members fuel rest (by simp at hfuel; omega)
    obtain ⟨cs, rfl⟩ := h.head
    have hskip : skip (b ++ '"' :: (cs ++ rest)) = _ := skip_append_cons hb rfl (cs ++ rest)
    rw [List.cons_append] at hmembers
    simp [value_obj hskip (by decide), hmembers]

end Reads

namespace ReadsElements

variable {text : List Char} {j : Json} {b : List Char}

theorem single (h : Reads text j) (hb : Blank b) : ReadsElements (text ++ (b ++ [']'])) [j] where
  head := by
    obtain ⟨c, cs, rfl, hspace, hc⟩ := h.head
    exact ⟨c, _, rfl, isBlank_of_isSpace hspace, hc⟩
  last := ⟨text ++ b, by simp⟩
  elements fuel rest hfuel := by
    obtain _ | fuel := fuel
    · grind
    have hvalue := h.value fuel (b ++ ']' :: rest) (by simp at hfuel; omega)
      (stops_append hb (stops_cons ⟨rfl, by decide, by decide, by decide⟩))
    have hskip : skip (b ++ ']' :: rest) = ']' :: rest := skip_append_cons hb rfl rest
    have htext : text ++ (b ++ [']']) ++ rest = text ++ (b ++ ']' :: rest) := by simp
    rw [htext, JsonText.elements, hvalue]
    simp [hskip]

theorem cons {b' text' : List Char} {js : List Json} (h : Reads text j) (hb : Blank b)
    (hb' : Blank b') (h' : ReadsElements text' js) :
    ReadsElements (text ++ (b ++ ',' :: (b' ++ text'))) (j :: js) where
  head := by
    obtain ⟨c, cs, rfl, hspace, hc⟩ := h.head
    exact ⟨c, _, rfl, isBlank_of_isSpace hspace, hc⟩
  last := by
    obtain ⟨front, rfl⟩ := h'.last
    exact ⟨text ++ (b ++ ',' :: (b' ++ front)), by simp⟩
  elements fuel rest hfuel := by
    obtain _ | fuel := fuel
    · grind
    have hvalue := h.value fuel (b ++ ',' :: (b' ++ (text' ++ rest))) (by simp at hfuel; omega)
      (stops_append hb (stops_cons ⟨rfl, by decide, by decide, by decide⟩))
    have helements := h'.elements fuel rest (by simp at hfuel; omega)
    have hskip : ∀ cs, skip (b ++ ',' :: cs) = ',' :: cs := skip_append_cons hb rfl
    have hskip' : skip (b' ++ (text' ++ rest)) = text' ++ rest := by
      obtain ⟨c, cs, rfl, hblank, -⟩ := h'.head
      exact skip_append_cons hb' hblank (cs ++ rest)
    have htext : text ++ (b ++ ',' :: (b' ++ text')) ++ rest =
        text ++ (b ++ ',' :: (b' ++ (text' ++ rest))) := by simp
    rw [htext, JsonText.elements, hvalue]
    simp [hskip, hskip', helements]

end ReadsElements

namespace ReadsMembers

variable {raw : List Char} {name : String} {text : List Char} {j : Json} {b₁ b₂ b₃ : List Char}

theorem single (hname : ReadsString raw name) (h₁ : Blank b₁) (h₂ : Blank b₂) (h : Reads text j)
    (h₃ : Blank b₃) :
    ReadsMembers ('"' :: (raw ++ '"' :: (b₁ ++ ':' :: (b₂ ++ (text ++ (b₃ ++ ['\x7d']))))))
      [(name, j)] where
  head := ⟨_, rfl⟩
  last := ⟨'"' :: (raw ++ '"' :: (b₁ ++ ':' :: (b₂ ++ (text ++ b₃)))), by simp⟩
  members fuel rest hfuel := by
    obtain _ | fuel := fuel
    · grind
    have hvalue := h.value fuel (b₃ ++ '\x7d' :: rest) (by simp at hfuel; omega)
      (stops_append h₃ (stops_cons ⟨rfl, by decide, by decide, by decide⟩))
    have hskip₃ : skip (b₃ ++ '\x7d' :: rest) = '\x7d' :: rest := skip_append_cons h₃ rfl rest
    have hskip₁ : ∀ cs, skip (b₁ ++ ':' :: cs) = ':' :: cs := skip_append_cons h₁ rfl
    simp [JsonText.members, hname.scan, hskip₁, h.skip_eq h₂, hvalue, hskip₃]

theorem cons {b₄ text' : List Char} {ms : List (String × Json)} (hname : ReadsString raw name)
    (h₁ : Blank b₁) (h₂ : Blank b₂) (h : Reads text j) (h₃ : Blank b₃) (h₄ : Blank b₄)
    (h' : ReadsMembers text' ms) :
    ReadsMembers
      ('"' :: (raw ++ '"' :: (b₁ ++ ':' :: (b₂ ++ (text ++ (b₃ ++ ',' :: (b₄ ++ text')))))))
      ((name, j) :: ms) where
  head := ⟨_, rfl⟩
  last := by
    obtain ⟨front, rfl⟩ := h'.last
    exact ⟨'"' :: (raw ++ '"' :: (b₁ ++ ':' :: (b₂ ++ (text ++ (b₃ ++ ',' :: (b₄ ++ front)))))),
      by simp⟩
  members fuel rest hfuel := by
    obtain _ | fuel := fuel
    · grind
    have hvalue := h.value fuel (b₃ ++ ',' :: (b₄ ++ (text' ++ rest))) (by simp at hfuel; omega)
      (stops_append h₃ (stops_cons ⟨rfl, by decide, by decide, by decide⟩))
    have hmembers := h'.members fuel rest (by simp at hfuel; omega)
    have hskip₄ : skip (b₄ ++ (text' ++ rest)) = text' ++ rest := by
      obtain ⟨cs, rfl⟩ := h'.head
      exact skip_append_cons h₄ rfl (cs ++ rest)
    have hskip₃ : ∀ cs, skip (b₃ ++ ',' :: cs) = ',' :: cs := skip_append_cons h₃ rfl
    have hskip₁ : ∀ cs, skip (b₁ ++ ':' :: cs) = ':' :: cs := skip_append_cons h₁ rfl
    simp [JsonText.members, hname.scan, hskip₁, h.skip_eq h₂, hvalue, hskip₃, hskip₄, hmembers]

end ReadsMembers

/-! ### The parser reads texts of values -/

/-- A string that has been read. -/
theorem readsString_of_scanString {cs s rest : List Char} (h : scanString cs = some (s, rest)) :
    ∃ raw, cs = raw ++ '"' :: rest ∧ ReadsString raw (String.ofList s) := by
  obtain ⟨raw, rfl, hraw⟩ := scanString_eq_some h
  refine ⟨raw, rfl, ?_⟩
  intro rest'
  rw [String.toList_ofList, hraw rest']

/-- Three relations between texts and values that the grammar has productions for: whole values, what is
in an array, and what is in an object. -/
structure Productions (V : List Char → Json → Prop) (E : List Char → List Json → Prop)
    (M : List Char → List (String × Json) → Prop) : Prop where
  null : V "null".toList .null
  bool_true : V "true".toList (.bool true)
  bool_false : V "false".toList (.bool false)
  str {raw : List Char} {s : String} : ReadsString raw s → V ('"' :: (raw ++ ['"'])) (.str s)
  num {literal cs rest : List Char} : scanNumber cs = some (literal, rest) →
    V literal (.num (String.ofList literal))
  arr_nil {b : List Char} : Blank b → V ('[' :: (b ++ [']'])) (.arr [])
  arr {b text : List Char} {js : List Json} : Blank b → E text js → V ('[' :: (b ++ text)) (.arr js)
  obj_nil {b : List Char} : Blank b → V ('\x7b' :: (b ++ ['\x7d'])) (.obj [])
  obj {b text : List Char} {ms : List (String × Json)} : Blank b → M text ms →
    V ('\x7b' :: (b ++ text)) (.obj ms)
  element {b text : List Char} {j : Json} : V text j → Blank b → E (text ++ (b ++ [']'])) [j]
  elements {b b' text text' : List Char} {j : Json} {js : List Json} : V text j → Blank b → Blank b' →
    E text' js → E (text ++ (b ++ ',' :: (b' ++ text'))) (j :: js)
  member {raw b₁ b₂ b₃ text : List Char} {name : String} {j : Json} : ReadsString raw name → Blank b₁ →
    Blank b₂ → V text j → Blank b₃ →
    M ('"' :: (raw ++ '"' :: (b₁ ++ ':' :: (b₂ ++ (text ++ (b₃ ++ ['\x7d'])))))) [(name, j)]
  members {raw b₁ b₂ b₃ b₄ text text' : List Char} {name : String} {j : Json}
    {ms : List (String × Json)} : ReadsString raw name → Blank b₁ → Blank b₂ → V text j → Blank b₃ →
    Blank b₄ → M text' ms →
    M ('"' :: (raw ++ '"' :: (b₁ ++ ':' :: (b₂ ++ (text ++ (b₃ ++ ',' :: (b₄ ++ text')))))))
      ((name, j) :: ms)

theorem reads_productions : Productions Reads ReadsElements ReadsMembers where
  null := .null
  bool_true := .bool_true
  bool_false := .bool_false
  str := .str
  num := .num
  arr_nil := .arr_nil
  arr := .arr
  obj_nil := .obj_nil
  obj := .obj
  element := .single
  elements := .cons
  member := .single
  members := .cons

namespace Productions

variable {V : List Char → Json → Prop} {E : List Char → List Json → Prop}
  {M : List Char → List (String × Json) → Prop}

mutual

/-- What the parser has read is made of the productions. -/
theorem of_value (G : Productions V E M) {fuel : ℕ} {cs rest : List Char} {j : Json}
    (h : value fuel cs = some (j, rest)) : ∃ text, cs = text ++ rest ∧ V text j := by
  cases fuel with
  | zero => cases h
  | succ fuel =>
    unfold value at h
    split at h
    · cases h
      exact ⟨_, rfl, G.null⟩
    · cases h
      exact ⟨_, rfl, G.bool_true⟩
    · cases h
      exact ⟨_, rfl, G.bool_false⟩
    · obtain ⟨⟨s, after⟩, hscan, h⟩ := map_eq_some_iff.mp h
      obtain ⟨rfl, rfl⟩ := Prod.mk.inj h
      obtain ⟨raw, rfl, hraw⟩ := readsString_of_scanString hscan
      exact ⟨_, by simp, G.str hraw⟩
    next rest₀ =>
      split at h
      next after hskip =>
        cases h
        obtain ⟨b, hb, rfl⟩ := exists_skip_eq hskip
        exact ⟨_, by simp, G.arr_nil hb⟩
      next hne =>
        obtain ⟨⟨js, after⟩, helements, h⟩ := map_eq_some_iff.mp h
        obtain ⟨rfl, rfl⟩ := Prod.mk.inj h
        obtain ⟨text, htext, hreads⟩ := of_elements G helements
        obtain ⟨b, hb, rfl⟩ := exists_skip_eq htext
        exact ⟨_, by simp, G.arr hb hreads⟩
    next rest₀ =>
      split at h
      next after hskip =>
        cases h
        obtain ⟨b, hb, rfl⟩ := exists_skip_eq hskip
        exact ⟨_, by simp, G.obj_nil hb⟩
      next hne =>
        obtain ⟨⟨ms, after⟩, hmembers, h⟩ := map_eq_some_iff.mp h
        obtain ⟨rfl, rfl⟩ := Prod.mk.inj h
        obtain ⟨text, htext, hreads⟩ := of_members G hmembers
        obtain ⟨b, hb, rfl⟩ := exists_skip_eq htext
        exact ⟨_, by simp, G.obj hb hreads⟩
    · obtain ⟨⟨literal, after⟩, hscan, h⟩ := map_eq_some_iff.mp h
      obtain ⟨rfl, rfl⟩ := Prod.mk.inj h
      exact ⟨literal, (scanNumber_eq_some hscan).1, G.num hscan⟩

theorem of_elements (G : Productions V E M) {fuel : ℕ} {cs rest : List Char} {js : List Json}
    (h : JsonText.elements fuel cs = some (js, rest)) : ∃ text, cs = text ++ rest ∧ E text js := by
  cases fuel with
  | zero => cases h
  | succ fuel =>
    unfold JsonText.elements at h
    simp only [Option.bind_eq_bind, bind_eq_some_iff] at h
    obtain ⟨⟨j, after⟩, hvalue, h⟩ := h
    obtain ⟨text, rfl, hreads⟩ := of_value G hvalue
    split at h
    next after' hskip =>
      obtain ⟨⟨js', rest'⟩, helements, h⟩ := bind_eq_some_iff.mp h
      cases h
      obtain ⟨text', htext', hreads'⟩ := of_elements G helements
      obtain ⟨b, hb, rfl⟩ := exists_skip_eq hskip
      obtain ⟨b', hb', rfl⟩ := exists_skip_eq htext'
      exact ⟨_, by simp, G.elements hreads hb hb' hreads'⟩
    next after' hskip =>
      cases h
      obtain ⟨b, hb, rfl⟩ := exists_skip_eq hskip
      exact ⟨_, by simp, G.element hreads hb⟩
    · cases h

theorem of_members (G : Productions V E M) {fuel : ℕ} {cs rest : List Char}
    {ms : List (String × Json)} (h : JsonText.members fuel cs = some (ms, rest)) :
    ∃ text, cs = text ++ rest ∧ M text ms := by
  cases fuel with
  | zero => cases h
  | succ fuel =>
    unfold JsonText.members at h
    split at h
    next cs =>
      simp only [Option.bind_eq_bind, bind_eq_some_iff] at h
      obtain ⟨⟨name, r₁⟩, hname, h⟩ := h
      obtain ⟨raw, rfl, hraw⟩ := readsString_of_scanString hname
      split at h
      next r₂ hskip₁ =>
        obtain ⟨b₁, h₁, rfl⟩ := exists_skip_eq hskip₁
        obtain ⟨⟨j, r₃⟩, hvalue, h⟩ := bind_eq_some_iff.mp h
        obtain ⟨text, htext, hreads⟩ := of_value G hvalue
        obtain ⟨b₂, h₂, rfl⟩ := exists_skip_eq htext
        split at h
        next r₄ hskip₃ =>
          obtain ⟨⟨ms', rest'⟩, hmembers, h⟩ := bind_eq_some_iff.mp h
          cases h
          obtain ⟨text', htext', hreads'⟩ := of_members G hmembers
          obtain ⟨b₃, h₃, rfl⟩ := exists_skip_eq hskip₃
          obtain ⟨b₄, h₄, rfl⟩ := exists_skip_eq htext'
          exact ⟨_, by simp, G.members hraw h₁ h₂ hreads h₃ h₄ hreads'⟩
        next r₄ hskip₃ =>
          cases h
          obtain ⟨b₃, h₃, rfl⟩ := exists_skip_eq hskip₃
          exact ⟨_, by simp, G.member hraw h₁ h₂ hreads h₃⟩
        · cases h
      · cases h
    · cases h

end

/-- A text that has a value is made of the productions, between white space. -/
theorem of_parse (G : Productions V E M) {s : String} {j : Json} (h : parse s = some j) :
    ∃ b text b', s.toList = b ++ text ++ b' ∧ Blank b ∧ Blank b' ∧ V text j := by
  unfold parse at h
  split at h
  next j' rest hvalue =>
    obtain ⟨hend, h⟩ := Option.ite_none_right_eq_some.mp h
    cases h
    obtain ⟨text, htext, hreads⟩ := G.of_value hvalue
    obtain ⟨b, hb, hs⟩ := exists_skip_eq htext
    obtain ⟨b', hb', hrest⟩ := exists_skip_eq hend
    rw [List.append_nil] at hrest
    exact ⟨b, text, rest, by rw [hs, List.append_assoc], hb, hrest ▸ hb', hreads⟩
  · cases h

end Productions

variable {s : String} {j : Json} {n : ℕ}

/-- A text has a value if and only if it is a text of that value between white space. -/
theorem parse_eq_some :
    parse s = some j ↔
      ∃ b text b', s.toList = b ++ text ++ b' ∧ Blank b ∧ Blank b' ∧ Reads text j := by
  constructor
  · exact reads_productions.of_parse
  · rintro ⟨b, text, b', hs, hb, hb', hreads⟩
    have hskip : skip s.toList = text ++ b' := by
      obtain ⟨c, cs, rfl, hspace, -⟩ := hreads.head
      rw [hs, List.append_assoc, skip_append hb, List.cons_append,
        skip_cons (isBlank_of_isSpace hspace)]
    have hfuel : 2 * text.length ≤ 2 * s.toList.length + 1 + 1 := by
      rw [hs]
      simp only [List.length_append]
      omega
    have hend : skip b' = [] := by
      have h := skip_append hb' []
      rwa [List.append_nil] at h
    unfold parse
    rw [hskip, hreads.value _ b' hfuel (stops_of_blank hb')]
    exact if_pos hend

/-- Trimming removes the white space around a text, and nothing else. -/
theorem Reads.trimSpace_eq {text b b' : List Char} (h : Reads text j) (hb : Blank b)
    (hb' : Blank b') : trimSpace (String.ofList (b ++ text ++ b')) = String.ofList text := by
  obtain ⟨c, cs, hhead, hc, -⟩ := h.head
  have hfront : b.dropWhile isSpace = [] :=
    List.dropWhile_eq_nil_iff.mpr fun c hc => isSpace_of_isBlank (hb c hc)
  have hback : b'.reverse.dropWhile isSpace = [] :=
    List.dropWhile_eq_nil_iff.mpr fun c hc => isSpace_of_isBlank (hb' c (List.mem_reverse.mp hc))
  rw [trimSpace_append b b' ⟨c, cs, hhead, hc⟩ h.last, hfront, hback]
  simp

/-- Trimming leaves the text of the value. -/
theorem exists_reads_of_parse (h : parse s = some j) :
    ∃ text, Reads text j ∧ trimSpace s = String.ofList text := by
  obtain ⟨b, text, b', hs, hb, hb', hreads⟩ := parse_eq_some.mp h
  refine ⟨text, hreads, ?_⟩
  rw [← hreads.trimSpace_eq hb hb', ← hs, String.ofList_toList]

theorem parse_of_reads {text : List Char} (h : Reads text j) :
    parse (String.ofList text) = some j :=
  parse_eq_some.mpr ⟨[], text, [], by simp, blank_nil, blank_nil, h⟩

/-- Trimming a text does not change its value. -/
theorem parse_trimSpace (h : parse s = some j) : parse (trimSpace s) = some j := by
  obtain ⟨text, hreads, htrim⟩ := exists_reads_of_parse h
  rw [htrim]
  exact parse_of_reads hreads

/-- An object or an array. -/
def IsContainer : Json → Prop
  | .arr _ | .obj _ => True
  | _ => False

/-- The text of an object or an array begins with a bracket, and has another one. -/
theorem Reads.container {text : List Char} (h : Reads text j) (hj : IsContainer j) :
    ∃ c cs, text = '\x7b' :: c :: cs ∨ text = '[' :: c :: cs := by
  obtain ⟨c, cs, rfl, -, -⟩ := h.head
  have hvalue := h.value (2 * (c :: cs).length + 1) [] (by omega) stops_nil
  rw [List.append_nil] at hvalue
  -- One bracket alone is not a text.
  have hne : ∀ d : Char, JsonText.value 4 [d] = none → c = d → cs ≠ [] := by
    rintro d hnone rfl rfl
    cases hnone.symm.trans (h.value 4 [] (by simp) stops_nil)
  have hhead : c = '\x7b' ∨ c = '[' := by
    unfold JsonText.value at hvalue
    split at hvalue
    next heq =>
      cases hvalue
      exact hj.elim
    next heq =>
      cases hvalue
      exact hj.elim
    next heq =>
      cases hvalue
      exact hj.elim
    next heq =>
      obtain ⟨r, -, hr⟩ := map_eq_some_iff.mp hvalue
      obtain ⟨rfl, -⟩ := Prod.mk.inj hr
      exact hj.elim
    next heq => exact .inr (List.cons.inj heq).1
    next heq => exact .inl (List.cons.inj heq).1
    next heq =>
      obtain ⟨r, -, hr⟩ := map_eq_some_iff.mp hvalue
      obtain ⟨rfl, -⟩ := Prod.mk.inj hr
      exact hj.elim
  rcases hhead with rfl | rfl
  · obtain ⟨d, ds, rfl⟩ := List.exists_cons_of_ne_nil (hne '\x7b' rfl rfl)
    exact ⟨d, ds, .inl rfl⟩
  · obtain ⟨d, ds, rfl⟩ := List.exists_cons_of_ne_nil (hne '[' rfl rfl)
    exact ⟨d, ds, .inr rfl⟩

/-! ### Reading what has been written -/

theorem hexDigit?_hexChar (h : n < 16) : hexDigit? (hexChar n) = some n := by
  interval_cases n <;> rfl

theorem hex4_escapeUnit (h : n < 65536) :
    hex4 (hexChar (n / 4096 % 16)) (hexChar (n / 256 % 16)) (hexChar (n / 16 % 16))
      (hexChar (n % 16)) = some n := by
  unfold hex4
  rw [hexDigit?_hexChar (Nat.mod_lt _ (by decide)), hexDigit?_hexChar (Nat.mod_lt _ (by decide)),
    hexDigit?_hexChar (Nat.mod_lt _ (by decide)), hexDigit?_hexChar (Nat.mod_lt _ (by decide))]
  show some _ = some n
  congr 1
  omega

/-- An escape below the surrogates. -/
theorem scanString_unit {a b c d : Char} {more s rest : List Char} (hn : hex4 a b c d = some n)
    (hlow : n < 0xd800) (h : scanString more = some (s, rest)) :
    scanString ('\\' :: 'u' :: a :: b :: c :: d :: more) = some (Char.ofNat n :: s, rest) := by
  have hunit : unit n = Char.ofNat n := if_neg (by omega)
  rw [← hunit]
  refine scanString_alone hn (fun e f g k tail hmore => ?_) h
  subst hmore
  obtain ⟨_, _, _, _, _, m, heq, hm⟩ := (scans_of_scanString h).exists_hex4
  cases heq
  exact ⟨m, hm, if_neg (by omega)⟩

/-- The escape of a character is read as that character. -/
theorem scanString_escape {more s rest : List Char} (c : Char) (h : scanString more = some (s, rest)) :
    scanString (escape c ++ more) = some (c :: s, rest) := by
  have hcode : ∀ n, c.toNat = n → c = Char.ofNat n := by
    rintro n rfl
    exact (Char.ofNat_toNat c).symm
  unfold escape
  split
  next heq => exact scanString_short (e := '"') (by rw [heq]; rfl) h
  next hquote =>
  split
  next heq => exact scanString_short (e := '\\') (by rw [heq]; rfl) h
  next hslash =>
  split
  next heq => exact scanString_short (e := 'b') (by rw [hcode 8 heq]; rfl) h
  split
  next heq => exact scanString_short (e := 'f') (by rw [hcode 12 heq]; rfl) h
  split
  next heq => exact scanString_short (e := 'n') (by rw [heq]; rfl) h
  split
  next heq => exact scanString_short (e := 'r') (by rw [heq]; rfl) h
  split
  next heq => exact scanString_short (e := 't') (by rw [heq]; rfl) h
  split
  next hunit =>
    have hlow : c.toNat < 0xd800 := by
      rcases hunit with h | rfl | rfl | rfl | h | h
      · omega
      · decide
      · decide
      · decide
      · omega
      · omega
    have hscan := scanString_unit (hex4_escapeUnit (Nat.lt_trans hlow (by decide))) hlow h
    rw [Char.ofNat_toNat] at hscan
    exact hscan
  next hplain => exact scanString_plain hquote (fun h => h.elim (fun hlt => hplain (.inl hlt)) hslash) h

/-- A quoted string is read as that string. -/
theorem readsString_escape (s : String) : ReadsString (s.toList.flatMap escape) s := by
  intro rest
  induction s.toList with
  | nil => rfl
  | cons c cs ih =>
    rw [List.flatMap_cons, List.append_assoc]
    exact scanString_escape c ih

/-- The literal of a number. -/
def IsLiteral (literal : String) : Prop := scanNumber literal.toList = some (literal.toList, [])

mutual

/-- All numbers of a value are literals. -/
def Proper : Json → Prop
  | .num literal => IsLiteral literal
  | .arr elements => ProperElements elements
  | .obj members => ProperMembers members
  | _ => True

def ProperElements : List Json → Prop
  | [] => True
  | j :: js => Proper j ∧ ProperElements js

def ProperMembers : List (String × Json) → Prop
  | [] => True
  | (_, j) :: members => Proper j ∧ ProperMembers members

end

mutual

/-- What is written for a value is a text of it. -/
theorem reads_chars {j : Json} (h : Proper j) : Reads (chars j) j := by
  cases j with
  | null => exact .null
  | bool b =>
    cases b with
    | true => exact .bool_true
    | false => exact .bool_false
  | num literal =>
    have hreads := Reads.num h
    rwa [String.ofList_toList] at hreads
  | str s => exact .str (readsString_escape s)
  | arr elements =>
    rcases reads_charsElements h with rfl | helements
    · exact .arr_nil blank_nil
    · exact .arr (b := []) blank_nil helements
  | obj members =>
    rcases reads_charsMembers h with rfl | hmembers
    · exact .obj_nil blank_nil
    · exact .obj (b := []) blank_nil hmembers

theorem reads_charsElements {js : List Json} (h : ProperElements js) :
    js = [] ∨ ReadsElements (charsElements js ++ [']']) js := by
  cases js with
  | nil => exact .inl rfl
  | cons j js =>
    obtain ⟨hj, hjs⟩ := h
    have hrest := reads_charsElements hjs
    right
    cases js with
    | nil => exact .single (reads_chars hj) blank_nil
    | cons j' js =>
      have hcons := ReadsElements.cons (reads_chars hj) blank_nil blank_nil
        (hrest.resolve_left (List.cons_ne_nil _ _))
      simpa [charsElements] using hcons

theorem reads_charsMembers {ms : List (String × Json)} (h : ProperMembers ms) :
    ms = [] ∨ ReadsMembers (charsMembers ms ++ ['\x7d']) ms := by
  cases ms with
  | nil => exact .inl rfl
  | cons m ms =>
    obtain ⟨hj, hms⟩ := h
    have hrest := reads_charsMembers hms
    right
    cases ms with
    | nil =>
      have hsingle := ReadsMembers.single (readsString_escape m.1) blank_nil blank_nil
        (reads_chars hj) blank_nil
      simpa [charsMembers, quote] using hsingle
    | cons m' ms =>
      have hcons := ReadsMembers.cons (readsString_escape m.1) blank_nil blank_nil (reads_chars hj)
        blank_nil blank_nil (hrest.resolve_left (List.cons_ne_nil _ _))
      simpa [charsMembers, quote] using hcons

end

/-- What has been written can be read back. -/
theorem parse_render {j : Json} (h : Proper j) : parse (render j) = some j :=
  parse_of_reads (reads_chars h)

end JsonText

end GoStd
