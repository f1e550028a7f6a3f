import BackendKit.GoStd.Net
import Mathlib.Data.List.DropRight

/-!
# UTF-8

`unicode/utf8`, and the functions of `strings` that read a string rune by rune, on strings that need not
be valid.

The sequences of bytes that are well-formed are stated once (`Sequence`). They are the encodings of
characters (`sequence_encodeChar`, `Sequence.exists_char`), and the decoders find them from either end
(`Sequence.decodeRune_append`, `Sequence.decodeLastRune_append`). What a string has of characters is a
relation of its own (`CharsOf`), which the results about whole strings are inductions on:

* `toValidUTF8_eq`: `strings.ToValidUTF8` without a replacement keeps the characters of any string;
* `runes_encode`: `range` over an encoded text yields its characters;
* `trimSpace_encode`: `strings.TrimSpace` trims the characters of a text.
-/

namespace GoStd.Utf8

/-- The text of some characters. -/
def encode (cs : List Char) : Bytes := cs.flatMap String.utf8EncodeChar

@[simp]
theorem encode_nil : encode [] = [] := rfl

@[simp]
theorem encode_cons (c : Char) (cs : List Char) :
    encode (c :: cs) = String.utf8EncodeChar c ++ encode cs := rfl

@[simp]
theorem encode_append (cs cs' : List Char) : encode (cs ++ cs') = encode cs ++ encode cs' := by
  simp [encode]

theorem length_encodeChar_pos (c : Char) : 0 < (String.utf8EncodeChar c).length :=
  List.length_pos_of_ne_nil String.utf8EncodeChar_ne_nil

/-! ### Well-formed sequences -/

/-- `utf8.RuneError`. -/
def runeError : ℕ := 0xfffd

/-- A continuation byte of UTF-8. -/
def isContinuation (b : UInt8) : Bool := 0x80 ≤ b && b ≤ 0xbf

/-- The second byte may follow the first one of a rune of two, three or four bytes: no overlong
forms, no surrogates, nothing beyond the last code point. -/
def acceptsSecond (b₀ b₁ : UInt8) : Bool :=
  if b₀ = 0xe0 then 0xa0 ≤ b₁ && b₁ ≤ 0xbf
  else if b₀ = 0xed then 0x80 ≤ b₁ && b₁ ≤ 0x9f
  else if b₀ = 0xf0 then 0x90 ≤ b₁ && b₁ ≤ 0xbf
  else if b₀ = 0xf4 then 0x80 ≤ b₁ && b₁ ≤ 0x8f
  else isContinuation b₁

/-- A well-formed sequence of bytes, and its code point. -/
inductive Sequence : Bytes → ℕ → Prop
  | one (b₀ : UInt8) (h : b₀ < 0x80) : Sequence [b₀] b₀.toNat
  | two (b₀ b₁ : UInt8) (h : 0xc2 ≤ b₀ ∧ b₀ ≤ 0xdf ∧ acceptsSecond b₀ b₁) :
      Sequence [b₀, b₁] (b₀.toNat % 32 * 64 + b₁.toNat % 64)
  | three (b₀ b₁ b₂ : UInt8)
      (h : 0xe0 ≤ b₀ ∧ b₀ ≤ 0xef ∧ acceptsSecond b₀ b₁ ∧ isContinuation b₂) :
      Sequence [b₀, b₁, b₂] ((b₀.toNat % 16 * 64 + b₁.toNat % 64) * 64 + b₂.toNat % 64)
  | four (b₀ b₁ b₂ b₃ : UInt8)
      (h : 0xf0 ≤ b₀ ∧ b₀ ≤ 0xf4 ∧ acceptsSecond b₀ b₁ ∧ isContinuation b₂ ∧ isContinuation b₃) :
      Sequence [b₀, b₁, b₂, b₃]
        (((b₀.toNat % 8 * 64 + b₁.toNat % 64) * 64 + b₂.toNat % 64) * 64 + b₃.toNat % 64)

variable {cs : List Char} {b : UInt8} {bs : Bytes} {r : ℕ} {s : Bytes} {n : ℕ}

theorem isContinuation_iff : isContinuation b = true ↔ 0x80 ≤ b.toNat ∧ b.toNat ≤ 0xbf := by
  simp [isContinuation, UInt8.le_iff_toNat_le]

/-- What may follow the first byte, in numbers. -/
theorem acceptsSecond_iff {b₀ b₁ : UInt8} :
    acceptsSecond b₀ b₁ = true ↔ 0x80 ≤ b₁.toNat ∧ b₁.toNat ≤ 0xbf ∧
      (b₀.toNat = 0xe0 → 0xa0 ≤ b₁.toNat) ∧ (b₀.toNat = 0xed → b₁.toNat ≤ 0x9f) ∧
      (b₀.toNat = 0xf0 → 0x90 ≤ b₁.toNat) ∧ (b₀.toNat = 0xf4 → b₁.toNat ≤ 0x8f) := by
  simp only [acceptsSecond, isContinuation, ← UInt8.toNat_inj]
  split_ifs <;> simp [UInt8.le_iff_toNat_le] at * <;> omega

theorem le_of_isContinuation (h : isContinuation b = true) : 0x80 ≤ b := by
  simp only [isContinuation, Bool.and_eq_true, decide_eq_true_eq] at h
  exact h.1

theorem le_of_acceptsSecond {b₀ b₁ : UInt8} (h : acceptsSecond b₀ b₁ = true) : 0x80 ≤ b₁ := by
  unfold acceptsSecond isContinuation at h
  have hle : ∀ b : UInt8, 0x80 ≤ b → b ≤ b₁ → 0x80 ≤ b₁ := fun b => UInt8.le_trans
  split at h
  · exact hle 0xa0 (by decide) (by simp_all)
  split at h
  · exact hle 0x80 (by decide) (by simp_all)
  split at h
  · exact hle 0x90 (by decide) (by simp_all)
  split at h
  · exact hle 0x80 (by decide) (by simp_all)
  · exact hle 0x80 (by decide) (by simp_all)

/-- A character is not a surrogate, and not beyond the last code point. -/
theorem toNat_char (c : Char) : c.toNat < 0xd800 ∨ 0xdfff < c.toNat ∧ c.toNat < 0x110000 := c.valid

/-- The encoding of a character is well-formed. -/
theorem sequence_encodeChar (c : Char) : Sequence (String.utf8EncodeChar c) c.toNat := by
  have hvalid := toNat_char c
  have hv : c.val.toNat = c.toNat := rfl
  have hbyte : ∀ n < 256, (UInt8.ofNat n).toNat = n := fun n hn => by
    rw [UInt8.toNat_ofNat', Nat.mod_eq_of_lt hn]
  unfold String.utf8EncodeChar
  simp only [hv]
  -- one branch for each number of bytes; the bytes are compared as numbers
  split_ifs with h1 h2 h3
  · convert Sequence.one _ ?_ using 1
    · rw [hbyte _ (by omega)]
    · rw [UInt8.lt_iff_toNat_lt, hbyte _ (by omega)]
      exact Nat.lt_succ_of_le h1
  · convert Sequence.two _ _ ?_ using 1
    · rw [hbyte _ (by omega), hbyte _ (by omega)]
      omega
    · simp only [UInt8.le_iff_toNat_le, acceptsSecond_iff]
      rw [hbyte _ (by omega), hbyte _ (by omega)]
      simp only [UInt8.toNat_ofNat]
      omega
  · convert Sequence.three _ _ _ ?_ using 1
    · rw [hbyte _ (by omega), hbyte _ (by omega), hbyte _ (by omega)]
      omega
    · simp only [UInt8.le_iff_toNat_le, acceptsSecond_iff, isContinuation_iff]
      rw [hbyte _ (by omega), hbyte _ (by omega), hbyte _ (by omega)]
      simp only [UInt8.toNat_ofNat]
      omega
  · convert Sequence.four _ _ _ _ ?_ using 1
    · rw [hbyte _ (by omega), hbyte _ (by omega), hbyte _ (by omega), hbyte _ (by omega)]
      omega
    · simp only [UInt8.le_iff_toNat_le, acceptsSecond_iff, isContinuation_iff]
      rw [hbyte _ (by omega), hbyte _ (by omega), hbyte _ (by omega), hbyte _ (by omega)]
      simp only [UInt8.toNat_ofNat]
      omega

/-- A well-formed sequence is the encoding of a character. -/
theorem Sequence.exists_char (h : Sequence bs r) :
    ∃ c : Char, c.toNat = r ∧ String.utf8EncodeChar c = bs := by
  have hchar : ∀ r, r < 0xd800 ∨ 0xdfff < r ∧ r < 0x110000 → ∃ c : Char, c.toNat = r :=
    fun r hr => ⟨Char.ofNatAux r hr, rfl⟩
  have hbyte : ∀ {n : ℕ} {b : UInt8}, n = b.toNat → UInt8.ofNat n = b := fun hn => by
    rw [hn, UInt8.ofNat_toNat]
  have hv : ∀ c : Char, c.val.toNat = c.toNat := fun _ => rfl
  -- the tests on the first two bytes keep the code point in the range of its number of bytes
  cases h with
  | one b₀ h =>
    simp only [UInt8.lt_iff_toNat_lt, UInt8.toNat_ofNat] at h
    obtain ⟨c, hc⟩ := hchar b₀.toNat (by omega)
    refine ⟨c, hc, ?_⟩
    unfold String.utf8EncodeChar
    simp only [hv, hc]
    rw [if_pos (by omega), hbyte rfl]
  | two b₀ b₁ h =>
    simp only [UInt8.le_iff_toNat_le, acceptsSecond_iff, UInt8.toNat_ofNat] at h
    obtain ⟨c, hc⟩ := hchar (b₀.toNat % 32 * 64 + b₁.toNat % 64) (by omega)
    refine ⟨c, hc, ?_⟩
    unfold String.utf8EncodeChar
    simp only [hv, hc]
    rw [if_neg (by omega), if_pos (by omega), hbyte (b := b₀) (by omega), hbyte (b := b₁) (by omega)]
  | three b₀ b₁ b₂ h =>
    simp only [UInt8.le_iff_toNat_le, acceptsSecond_iff, isContinuation_iff, UInt8.toNat_ofNat] at h
    obtain ⟨c, hc⟩ := hchar ((b₀.toNat % 16 * 64 + b₁.toNat % 64) * 64 + b₂.toNat % 64) (by omega)
    refine ⟨c, hc, ?_⟩
    unfold String.utf8EncodeChar
    simp only [hv, hc]
    rw [if_neg (by omega), if_neg (by omega), if_pos (by omega), hbyte (b := b₀) (by omega),
      hbyte (b := b₁) (by omega), hbyte (b := b₂) (by omega)]
  | four b₀ b₁ b₂ b₃ h =>
    simp only [UInt8.le_iff_toNat_le, acceptsSecond_iff, isContinuation_iff, UInt8.toNat_ofNat] at h
    obtain ⟨c, hc⟩ := hchar
      (((b₀.toNat % 8 * 64 + b₁.toNat % 64) * 64 + b₂.toNat % 64) * 64 + b₃.toNat % 64) (by omega)
    refine ⟨c, hc, ?_⟩
    unfold String.utf8EncodeChar
    simp only [hv, hc]
    rw [if_neg (by omega), if_neg (by omega), if_neg (by omega), hbyte (b := b₀) (by omega),
      hbyte (b := b₁) (by omega), hbyte (b := b₂) (by omega), hbyte (b := b₃) (by omega)]

/-! ### Decoding -/

/-- `utf8.DecodeRuneInString`: the first rune and its width. -/
def decodeRune : Bytes → ℕ × ℕ
  | [] => (runeError, 0)
  | b₀ :: rest =>
    if b₀ < 0x80 then (b₀.toNat, 1)
    else
      match rest with
      | [] => (runeError, 1)
      | b₁ :: rest₁ =>
        if 0xc2 ≤ b₀ ∧ b₀ ≤ 0xdf ∧ acceptsSecond b₀ b₁ then (b₀.toNat % 32 * 64 + b₁.toNat % 64, 2)
        else
          match rest₁ with
          | [] => (runeError, 1)
          | b₂ :: rest₂ =>
            if 0xe0 ≤ b₀ ∧ b₀ ≤ 0xef ∧ acceptsSecond b₀ b₁ ∧ isContinuation b₂ then
              ((b₀.toNat % 16 * 64 + b₁.toNat % 64) * 64 + b₂.toNat % 64, 3)
            else
              match rest₂ with
              | [] => (runeError, 1)
              | b₃ :: _ =>
                if 0xf0 ≤ b₀ ∧ b₀ ≤ 0xf4 ∧ acceptsSecond b₀ b₁ ∧ isContinuation b₂ ∧
                    isContinuation b₃ then
                  (((b₀.toNat % 8 * 64 + b₁.toNat % 64) * 64 + b₂.toNat % 64) * 64 + b₃.toNat % 64, 4)
                else (runeError, 1)

/-- A well-formed sequence is decoded, whatever follows it. -/
theorem Sequence.decodeRune_append (h : Sequence bs r) (rest : Bytes) :
    decodeRune (bs ++ rest) = (r, bs.length) := by
  have hlt : ∀ {b b' b₀ : UInt8}, b < b' → b' ≤ b₀ → ¬ b₀ ≤ b := fun hb hle hle' =>
    UInt8.not_lt.mpr (UInt8.le_trans hle hle') hb
  -- the first byte rules out the shorter forms
  cases h with
  | one b₀ h => simp [decodeRune, h]
  | two b₀ b₁ h =>
    have hascii : ¬ b₀ < 0x80 := fun hb => hlt (by decide) h.1 (UInt8.le_of_lt hb)
    simp [decodeRune, hascii, h]
  | three b₀ b₁ b₂ h =>
    have hascii : ¬ b₀ < 0x80 := fun hb => hlt (by decide) h.1 (UInt8.le_of_lt hb)
    have htwo : ¬ b₀ ≤ 0xdf := hlt (by decide) h.1
    simp [decodeRune, hascii, htwo, h]
  | four b₀ b₁ b₂ b₃ h =>
    have hascii : ¬ b₀ < 0x80 := fun hb => hlt (by decide) h.1 (UInt8.le_of_lt hb)
    have htwo : ¬ b₀ ≤ 0xdf := hlt (by decide) h.1
    have hthree : ¬ b₀ ≤ 0xef := hlt (by decide) h.1
    simp [decodeRune, hascii, htwo, hthree, h]

/-- What is not decoded counts as one byte. -/
theorem decodeRune_cases (hs : s ≠ []) :
    decodeRune s = (runeError, 1) ∨ ∃ bs r rest, Sequence bs r ∧ s = bs ++ rest := by
  fun_cases decodeRune s with
  | case1 => exact absurd rfl hs
  | case2 b₀ rest h => exact .inr ⟨_, _, rest, .one b₀ h, rfl⟩
  | case3 => exact .inl rfl
  | case4 b₀ _ b₁ rest h => exact .inr ⟨_, _, rest, .two b₀ b₁ h, rfl⟩
  | case5 => exact .inl rfl
  | case6 b₀ _ b₁ _ b₂ rest h => exact .inr ⟨_, _, rest, .three b₀ b₁ b₂ h, rfl⟩
  | case7 => exact .inl rfl
  | case8 b₀ _ b₁ _ b₂ _ b₃ rest h => exact .inr ⟨_, _, rest, .four b₀ b₁ b₂ b₃ h, rfl⟩
  | case9 => exact .inl rfl

theorem Sequence.ne_nil (h : Sequence bs r) : bs ≠ [] := by
  cases h <;> exact List.cons_ne_nil _ _

theorem decodeRune_width_pos (hs : s ≠ []) : 0 < (decodeRune s).2 := by
  rcases decodeRune_cases hs with h | ⟨bs, r, rest, h, rfl⟩
  · rw [h]
    exact Nat.one_pos
  · rw [h.decodeRune_append]
    exact List.length_pos_of_ne_nil h.ne_nil

/-- The runes of a string after its first `skip` bytes. -/
def runesFrom : ℕ → Bytes → List ℕ
  | _, [] => []
  | skip + 1, _ :: s => runesFrom skip s
  | 0, b :: s => (decodeRune (b :: s)).1 :: runesFrom ((decodeRune (b :: s)).2 - 1) s

/-- The runes that `range` over a string yields. A byte that does not start a well-formed rune counts
as `runeError` on its own. -/
def runes (s : Bytes) : List ℕ := runesFrom 0 s

theorem runesFrom_eq (skip : ℕ) (s : Bytes) : runesFrom skip s = runes (s.drop skip) := by
  induction s generalizing skip with
  | nil => cases skip <;> rfl
  | cons b s ih =>
    cases skip with
    | zero => rfl
    | succ skip => exact ih skip

/-- `range` takes the runes one by one. -/
theorem runes_eq_cons (hs : s ≠ []) :
    runes s = (decodeRune s).1 :: runes (s.drop (decodeRune s).2) := by
  have hpos := decodeRune_width_pos hs
  obtain ⟨b, s, rfl⟩ := List.exists_cons_of_ne_nil hs
  obtain ⟨width, hwidth⟩ := Nat.exists_eq_succ_of_ne_zero hpos.ne'
  rw [hwidth, List.drop_succ_cons, ← runesFrom_eq]
  show _ :: runesFrom ((decodeRune (b :: s)).2 - 1) s = _
  rw [hwidth, Nat.succ_sub_one]

/-- No rune of several bytes takes in an ASCII byte. -/
theorem Sequence.eq_of_mem (h : Sequence bs r) (hascii : b < 0x80) (hmem : b ∈ bs) :
    r = b.toNat := by
  have hnot : ∀ {b' : UInt8}, 0x80 ≤ b' → b ≠ b' := by
    rintro b' hle rfl
    exact UInt8.not_lt.mpr hle hascii
  have hfirst : ∀ {c b' : UInt8}, 0x80 ≤ c → c ≤ b' → b ≠ b' := fun hc hle =>
    hnot (UInt8.le_trans hc hle)
  cases h with
  | one b₀ h => rw [List.mem_singleton.mp hmem]
  | two b₀ b₁ h =>
    simp [hfirst (by decide) h.1, hnot (le_of_acceptsSecond h.2.2)] at hmem
  | three b₀ b₁ b₂ h =>
    simp [hfirst (by decide) h.1, hnot (le_of_acceptsSecond h.2.2.1),
      hnot (le_of_isContinuation h.2.2.2)] at hmem
  | four b₀ b₁ b₂ b₃ h =>
    simp [hfirst (by decide) h.1, hnot (le_of_acceptsSecond h.2.2.1),
      hnot (le_of_isContinuation h.2.2.2.1), hnot (le_of_isContinuation h.2.2.2.2)] at hmem

/-- Every ASCII byte of a string is one of its runes, well-formed or not. -/
theorem toNat_mem_runes (hascii : b < 0x80) (hmem : b ∈ s) : b.toNat ∈ runes s := by
  induction hn : s.length using Nat.strong_induction_on generalizing s with
  | _ n ih =>
    have hs := List.ne_nil_of_mem hmem
    have hlt : (s.drop (decodeRune s).2).length < n := by
      have hpos := decodeRune_width_pos hs
      have hlength := List.length_pos_of_ne_nil hs
      rw [List.length_drop]
      omega
    rw [runes_eq_cons hs]
    rcases decodeRune_cases hs with h | ⟨bs, r, rest, h, rfl⟩
    · -- the first byte is not the one in question, which would be a rune
      obtain ⟨b₀, s, rfl⟩ := List.exists_cons_of_ne_nil hs
      rw [h] at hlt ⊢
      rcases List.mem_cons.mp hmem with rfl | hmem
      · have hone := (Sequence.one b hascii).decodeRune_append s
        rw [List.singleton_append, h] at hone
        exact hone ▸ List.mem_cons_self
      · exact List.mem_cons_of_mem _ (ih _ hlt hmem rfl)
    · rw [h.decodeRune_append, List.drop_left] at hlt ⊢
      rcases List.mem_append.mp hmem with hmem | hmem
      · rw [h.eq_of_mem hascii hmem]
        exact List.mem_cons_self
      · exact List.mem_cons_of_mem _ (ih _ hlt hmem rfl)

theorem decodeRune_encodeChar (c : Char) (rest : Bytes) :
    decodeRune (String.utf8EncodeChar c ++ rest) = (c.toNat, (String.utf8EncodeChar c).length) :=
  (sequence_encodeChar c).decodeRune_append rest

theorem runes_encode (cs : List Char) : runes (encode cs) = cs.map Char.toNat := by
  induction cs with
  | nil => rfl
  | cons c cs ih =>
    rw [encode_cons, runes_eq_cons (by simp), decodeRune_encodeChar, List.drop_left, ih]
    rfl

/-! ### The characters of a string -/

/-- The characters of a string that need not be valid: a byte with which no encoded character begins is
passed over. -/
inductive CharsOf : Bytes → List Char → Prop
  | nil : CharsOf [] []
  | char (c : Char) {rest : Bytes} {cs : List Char} (h : CharsOf rest cs) :
      CharsOf (String.utf8EncodeChar c ++ rest) (c :: cs)
  | skip (b : UInt8) {rest : Bytes} {cs : List Char}
      (hb : ∀ c, ¬ String.utf8EncodeChar c <+: b :: rest) (h : CharsOf rest cs) :
      CharsOf (b :: rest) cs

theorem charsOf_encode (cs : List Char) : CharsOf (encode cs) cs := by
  induction cs with
  | nil => exact .nil
  | cons c cs ih => exact .char c ih

/-- Where the decoder fails there is no encoded character. -/
theorem not_char_of_decodeRune (h : decodeRune s = (runeError, 1)) (c : Char) :
    ¬ String.utf8EncodeChar c <+: s := by
  rintro ⟨rest, rfl⟩
  rw [decodeRune_encodeChar, Prod.mk.injEq] at h
  obtain ⟨hrune, hlength⟩ := h
  -- the replacement character takes three bytes
  have hc : c = Char.ofNat 0xfffd := Char.toNat_inj.mp hrune
  subst hc
  cases hlength

theorem decodeRune_of_not_char {rest : Bytes} (h : ∀ c, ¬ String.utf8EncodeChar c <+: b :: rest) :
    decodeRune (b :: rest) = (runeError, 1) := by
  rcases decodeRune_cases (List.cons_ne_nil b rest) with hfail | ⟨bs, r, rest', hseq, heq⟩
  · exact hfail
  · obtain ⟨c, -, rfl⟩ := hseq.exists_char
    exact absurd ⟨rest', heq.symm⟩ (h c)

/-- Every string has its characters. -/
theorem exists_charsOf (s : Bytes) : ∃ cs, CharsOf s cs := by
  -- a character takes at least one byte
  induction hn : s.length using Nat.strong_induction_on generalizing s with
  | _ n ih =>
    rcases s with _ | ⟨b, rest⟩
    · exact ⟨[], .nil⟩
    rcases decodeRune_cases (List.cons_ne_nil b rest) with hfail | ⟨bs, r, rest', hseq, heq⟩
    · obtain ⟨cs, hcs⟩ := ih rest.length (by simp [← hn]) rest rfl
      exact ⟨cs, .skip b (not_char_of_decodeRune hfail) hcs⟩
    · obtain ⟨c, -, rfl⟩ := hseq.exists_char
      have hpos := length_encodeChar_pos c
      have hlt : rest'.length < n := by
        rw [← hn, heq, List.length_append]
        omega
      obtain ⟨cs, hcs⟩ := ih rest'.length hlt rest' rfl
      exact ⟨c :: cs, heq ▸ .char c hcs⟩

/-- The second loop of `strings.ToValidUTF8`; the first only finds out if there is anything to do.
`invalid` is set after a byte that is not valid, and `n` bounds the number of runes. -/
def toValidLoop (replacement : Bytes) : ℕ → Bool → Bytes → Bytes
  | 0, _, _ => []
  | _ + 1, _, [] => []
  | n + 1, invalid, b :: rest =>
    if b < 0x80 then b :: toValidLoop replacement n false rest
    else
      let wid := (decodeRune (b :: rest)).2
      -- the replacement stands for a run of such bytes
      if wid = 1 then (if invalid then [] else replacement) ++ toValidLoop replacement n true rest
      else (b :: rest).take wid ++ toValidLoop replacement n false ((b :: rest).drop wid)

/-- `strings.ToValidUTF8`. -/
def toValidUTF8 (s replacement : Bytes) : Bytes := toValidLoop replacement s.length false s

/-- A sequence is an ASCII byte, or starts with another byte and goes on. -/
theorem Sequence.ascii_or {tail : Bytes} (h : Sequence (b :: tail) r) :
    b < 0x80 ∧ tail = [] ∨ ¬ b < 0x80 ∧ tail ≠ [] := by
  have hge : ∀ {b' : UInt8}, 0x80 ≤ b' → b' ≤ b → ¬ b < 0x80 := fun hb hle =>
    UInt8.not_lt.mpr (UInt8.le_trans hb hle)
  cases h with
  | one _ h => exact .inl ⟨h, rfl⟩
  | two _ b₁ h => exact .inr ⟨hge (by decide) h.1, by simp⟩
  | three _ b₁ b₂ h => exact .inr ⟨hge (by decide) h.1, by simp⟩
  | four _ b₁ b₂ b₃ h => exact .inr ⟨hge (by decide) h.1, by simp⟩

theorem toValidLoop_append (h : Sequence bs r) (replacement rest : Bytes) (n : ℕ) (invalid : Bool) :
    toValidLoop replacement (n + 1) invalid (bs ++ rest) =
      bs ++ toValidLoop replacement n false rest := by
  have hdecode := h.decodeRune_append rest
  rcases bs with _ | ⟨b, tail⟩
  · cases h
  rw [List.cons_append] at hdecode ⊢
  rcases h.ascii_or with ⟨hb, rfl⟩ | ⟨hb, htail⟩
  · rw [toValidLoop, if_pos hb]
    rfl
  · have hwid : (b :: tail).length ≠ 1 := by simpa using htail
    simp only [toValidLoop, if_neg hb, hdecode, if_neg hwid]
    rw [← List.cons_append, List.take_left, List.drop_left]

theorem toValidLoop_skip {rest : Bytes} (h : decodeRune (b :: rest) = (runeError, 1)) (n : ℕ)
    (invalid : Bool) : toValidLoop [] (n + 1) invalid (b :: rest) = toValidLoop [] n true rest := by
  have hb : ¬ b < 0x80 := fun hb =>
    absurd (((Sequence.one b hb).decodeRune_append rest).symm.trans h) fun heq => by
      have hrune : b.toNat = runeError := (Prod.mk.inj heq).1
      have := b.toNat_lt
      unfold runeError at hrune
      omega
  simp [toValidLoop, hb, h]

theorem toValidLoop_eq (h : CharsOf s cs) (hn : s.length ≤ n) (invalid : Bool) :
    toValidLoop [] n invalid s = encode cs := by
  induction h generalizing n invalid with
  | nil => cases n <;> rfl
  | char c h ih =>
    have hpos := length_encodeChar_pos c
    rw [List.length_append] at hn
    obtain ⟨n, rfl⟩ : ∃ m, n = m + 1 := ⟨n - 1, by omega⟩
    rw [toValidLoop_append (sequence_encodeChar c), ih (by omega), encode_cons]
  | skip b hb h ih =>
    rw [List.length_cons] at hn
    obtain ⟨n, rfl⟩ : ∃ m, n = m + 1 := ⟨n - 1, by omega⟩
    rw [toValidLoop_skip (decodeRune_of_not_char hb), ih (by omega)]

theorem toValidUTF8_eq (h : CharsOf s cs) : toValidUTF8 s [] = encode cs :=
  toValidLoop_eq h (Nat.le_refl _) false

/-- A string has no other characters. -/
theorem CharsOf.unique {cs' : List Char} (h : CharsOf s cs) (h' : CharsOf s cs') : cs = cs' := by
  have hrunes : cs.map Char.toNat = cs'.map Char.toNat := by
    rw [← runes_encode, ← runes_encode, ← toValidUTF8_eq h, ← toValidUTF8_eq h']
  exact List.map_injective_iff.mpr (fun _ _ => Char.toNat_inj.mp) hrunes

/-! ### Trimming -/

/-- `utf8.RuneStart`. -/
def runeStart (b : UInt8) : Bool := !isContinuation b

/-- `utf8.DecodeLastRuneInString`: the last rune and its width. It starts at one of the last four bytes,
or is not well-formed. -/
def decodeLastRune (s : Bytes) : ℕ × ℕ :=
  match s.reverse with
  | [] => (runeError, 0)
  | last :: before =>
    if last < 0x80 then (last.toNat, 1)
    else
      match (before.take 3).findIdx? runeStart with
      | none => (runeError, 1)
      | some back =>
        let start := s.length - (back + 2)
        let (r, size) := decodeRune (s.drop start)
        if start + size ≠ s.length then (runeError, 1) else (r, size)

/-- `strings.TrimLeftFunc` with `unicode.IsSpace`; `n` bounds the number of runes. -/
def trimLeft : ℕ → Bytes → Bytes
  | 0, s => s
  | n + 1, s =>
    if s = [] then []
    else
      let (r, size) := decodeRune s
      if isSpaceRune r then trimLeft n (s.drop size) else s

/-- `strings.TrimRightFunc` with `unicode.IsSpace`. -/
def trimRight : ℕ → Bytes → Bytes
  | 0, s => s
  | n + 1, s =>
    if s = [] then []
    else
      -- a rune that stays ends where the string does, there is no need to decode it once more
      let (r, size) := decodeLastRune s
      if isSpaceRune r then trimRight n (s.take (s.length - size)) else s

/-- `strings.TrimSpace`. -/
def trimSpace (s : Bytes) : Bytes :=
  let s := trimLeft s.length s
  trimRight s.length s

/-- The last rune is found by going back over the continuation bytes to the start of a sequence. -/
theorem decodeLastRune_of_findIdx {p : Bytes} (h : Sequence bs r) (last : UInt8) (before : Bytes)
    (back : ℕ) (hreverse : (p ++ bs).reverse = last :: before) (hlast : ¬ last < 0x80)
    (hback : (before.take 3).findIdx? runeStart = some back) (hlength : bs.length = back + 2) :
    decodeLastRune (p ++ bs) = (r, bs.length) := by
  have hstart : (p ++ bs).length - (back + 2) = p.length := by
    rw [List.length_append, hlength]
    omega
  have hdecode : decodeRune ((p ++ bs).drop p.length) = (r, bs.length) := by
    rw [List.drop_left]
    simpa using h.decodeRune_append []
  simp only [decodeLastRune, hreverse, if_neg hlast, hback, hstart, hdecode]
  rw [if_neg (by simp)]

/-- A well-formed sequence is decoded from its end, whatever stands before it. -/
theorem Sequence.decodeLastRune_append (h : Sequence bs r) (p : Bytes) :
    decodeLastRune (p ++ bs) = (r, bs.length) := by
  have hlast : ∀ {b : UInt8}, 0x80 ≤ b → ¬ b < 0x80 := UInt8.not_lt.mpr
  have hstart : ∀ {b' b : UInt8}, 0xc0 ≤ b' → b' ≤ b → runeStart b = true := by
    intro b' b hle hb
    have hge := UInt8.le_iff_toNat_le.mp (UInt8.le_trans hle hb)
    rw [runeStart, Bool.not_eq_true', ← Bool.not_eq_true, isContinuation_iff]
    simp only [UInt8.toNat_ofNat] at hge
    omega
  have hsecond : ∀ {b₀ b₁ : UInt8}, acceptsSecond b₀ b₁ = true → runeStart b₁ = false := by
    intro b₀ b₁ hb
    rw [acceptsSecond_iff] at hb
    rw [runeStart, Bool.not_eq_false', isContinuation_iff]
    omega
  have hmore : ∀ {b : UInt8}, isContinuation b = true → runeStart b = false := fun hb => by
    rw [runeStart, hb]
    rfl
  have h' := h
  cases h' with
  | one b₀ h₀ => simp [decodeLastRune, h₀]
  | two b₀ b₁ h₀ =>
    refine decodeLastRune_of_findIdx h b₁ (b₀ :: p.reverse) 0 (by simp)
      (hlast (le_of_acceptsSecond h₀.2.2)) ?_ rfl
    simp [hstart (by decide) h₀.1, List.findIdx?_cons]
  | three b₀ b₁ b₂ h₀ =>
    refine decodeLastRune_of_findIdx h b₂ (b₁ :: b₀ :: p.reverse) 1 (by simp)
      (hlast (le_of_isContinuation h₀.2.2.2)) ?_ rfl
    simp [hstart (by decide) h₀.1, hsecond h₀.2.2.1, List.findIdx?_cons]
  | four b₀ b₁ b₂ b₃ h₀ =>
    refine decodeLastRune_of_findIdx h b₃ (b₂ :: b₁ :: b₀ :: p.reverse) 2 (by simp)
      (hlast (le_of_isContinuation h₀.2.2.2.2)) ?_ rfl
    simp [hstart (by decide) h₀.1, hsecond h₀.2.2.1, hmore h₀.2.2.2.1, List.findIdx?_cons]

theorem trimLeft_encode (cs : List Char) (hn : cs.length ≤ n) :
    trimLeft n (encode cs) = encode (cs.dropWhile isSpace) := by
  induction cs generalizing n with
  | nil => cases n <;> rfl
  | cons c cs ih =>
    obtain ⟨n, rfl⟩ : ∃ m, n = m + 1 := ⟨n - 1, by rw [List.length_cons] at hn; omega⟩
    have hne : encode (c :: cs) ≠ [] := by simp
    rw [trimLeft, if_neg hne, encode_cons, decodeRune_encodeChar]
    simp only [List.drop_left]
    rw [← isSpace]
    by_cases hc : isSpace c = true
    · rw [if_pos hc, List.dropWhile_cons_of_pos hc, ih (by simpa using hn)]
    · rw [if_neg hc, List.dropWhile_cons_of_neg hc, encode_cons]

theorem trimRight_encode (cs : List Char) (hn : cs.length ≤ n) :
    trimRight n (encode cs) = encode (cs.rdropWhile isSpace) := by
  induction cs using List.reverseRecOn generalizing n with
  | nil => cases n <;> rfl
  | append_singleton cs c ih =>
    obtain ⟨n, rfl⟩ : ∃ m, n = m + 1 := ⟨n - 1, by rw [List.length_append] at hn; simp at hn; omega⟩
    have hne : encode (cs ++ [c]) ≠ [] := by simp
    have hlast : encode (cs ++ [c]) = encode cs ++ String.utf8EncodeChar c := by simp
    have hdecode := (sequence_encodeChar c).decodeLastRune_append (encode cs)
    rw [trimRight, if_neg hne, hlast, hdecode]
    simp only [List.length_append, Nat.add_sub_cancel, List.take_left]
    rw [← isSpace]
    by_cases hc : isSpace c = true
    · rw [if_pos hc, List.rdropWhile_concat_pos _ _ _ hc, ih (by simpa using hn)]
    · rw [if_neg hc, List.rdropWhile_concat_neg _ _ _ hc, hlast]

/-- There are at least as many bytes as characters. -/
theorem length_le_encode (cs : List Char) : cs.length ≤ (encode cs).length := by
  induction cs with
  | nil => exact Nat.le_refl 0
  | cons c cs ih =>
    have hpos := length_encodeChar_pos c
    rw [encode_cons, List.length_append, List.length_cons]
    omega

theorem trimSpace_encode (cs : List Char) : trimSpace (encode cs) = encode (trim cs) := by
  unfold trimSpace
  rw [trimLeft_encode cs (length_le_encode cs)]
  exact trimRight_encode _ (length_le_encode _)

/-- There is no white space at either end. -/
def Trimmed (cs : List Char) : Prop :=
  (∀ c ∈ cs.head?, isSpace c = false) ∧ ∀ c ∈ cs.getLast?, isSpace c = false

theorem trim_isInfix (cs : List Char) : trim cs <:+: cs := by
  have hright : trim cs <+: cs.dropWhile isSpace := List.rdropWhile_prefix isSpace _
  exact hright.isInfix.trans (List.dropWhile_suffix isSpace).isInfix

theorem trimmed_trim (cs : List Char) : Trimmed (trim cs) := by
  refine ⟨fun c hc => ?_, fun c hc => ?_⟩
  · -- the text starts as it did before its end was trimmed
    obtain ⟨rest, hrest⟩ : ∃ rest, trim cs = c :: rest := List.head?_eq_some_iff.mp hc
    obtain ⟨tail, htail⟩ : trim cs <+: cs.dropWhile isSpace := List.rdropWhile_prefix isSpace _
    have hhead : (cs.dropWhile isSpace).head? = some c := by
      rw [← htail, hrest]
      rfl
    have hnot := List.head?_dropWhile_not isSpace cs
    rw [hhead] at hnot
    simpa using hnot
  · obtain ⟨hne, hlast⟩ := List.mem_getLast?_eq_getLast hc
    have hnot := List.rdropWhile_last_not isSpace (cs.dropWhile isSpace) hne
    rw [hlast]
    simpa [trim, List.rdropWhile] using hnot

theorem trim_eq_self (h : Trimmed cs) : trim cs = cs := by
  have hleft : cs.dropWhile isSpace = cs := by
    rcases cs with _ | ⟨c, cs⟩
    · rfl
    · exact List.dropWhile_cons_of_neg (by simp [h.1 c rfl])
  rw [trim, hleft, ← List.rdropWhile, List.rdropWhile_eq_self_iff]
  intro hne
  rw [h.2 _ (List.getLast?_eq_some_getLast hne)]
  exact Bool.false_ne_true

/-! ### Writing runes -/

/-- `unicode.IsControl`. -/
def isControl (r : ℕ) : Bool := r ≤ 0x1f || (0x7f ≤ r && r ≤ 0x9f)

/-- The bytes that `WriteRune` appends. What is not a code point is written as `runeError`. -/
def encodeRune (r : ℕ) : Bytes :=
  if r < 0xd800 ∨ 0xdfff < r ∧ r < 0x110000 then String.utf8EncodeChar (Char.ofNat r)
  else String.utf8EncodeChar (Char.ofNat runeError)

/-- `utf8.RuneLen`. -/
def runeLen (r : ℕ) : ℤ :=
  if r ≤ 0x7f then 1
  else if r ≤ 0x7ff then 2
  else if 0xd800 ≤ r ∧ r ≤ 0xdfff then -1
  else if r ≤ 0xffff then 3
  else if r ≤ 0x10ffff then 4
  else -1

theorem encodeRune_toNat (c : Char) : encodeRune c.toNat = String.utf8EncodeChar c := by
  rw [encodeRune, if_pos (toNat_char c), Char.ofNat_toNat]

theorem runeLen_toNat (c : Char) : runeLen c.toNat = (String.utf8EncodeChar c).length := by
  have hvalid := toNat_char c
  have hv : c.val.toNat = c.toNat := rfl
  unfold runeLen String.utf8EncodeChar
  simp only [hv]
  -- the branches of the two agree, and the surrogates are no characters
  split_ifs <;> first | rfl | omega

/-- The longest text that the characters begin with and whose encoding has at most `limit` bytes. -/
structure Truncation (limit : ℕ) (cs text : List Char) : Prop where
  begins : text <+: cs
  fits : (encode text).length ≤ limit
  longest : ∀ text', text' <+: cs → (encode text').length ≤ limit → text' <+: text

/-- What fits is not cut. -/
theorem Truncation.eq_self {limit : ℕ} {text : List Char} (h : Truncation limit cs text)
    (hcs : (encode cs).length ≤ limit) : text = cs :=
  h.begins.eq_of_length_le (h.longest cs (List.prefix_refl cs) hcs).length_le

end GoStd.Utf8
