import Mathlib.Data.Nat.Notation

/-!
# Unpadded base64url

`base64.RawURLEncoding.DecodeString`. The decoder skips line breaks wherever they stand, takes
no padding, and does not look at the bits of the last character that do not fill a byte.
-/

namespace GoStd.Base64

/-- The six bits of a character of the URL-safe alphabet (RFC 4648, section 5). -/
def sextet? (c : Char) : Option ℕ :=
  if 'A' ≤ c ∧ c ≤ 'Z' then some (c.toNat - 'A'.toNat)
  else if 'a' ≤ c ∧ c ≤ 'z' then some (c.toNat - 'a'.toNat + 26)
  else if '0' ≤ c ∧ c ≤ '9' then some (c.toNat - '0'.toNat + 52)
  else if c = '-' then some 62
  else if c = '_' then some 63
  else none

/-- Four characters give three bytes. Of an incomplete last group, two characters give one byte
and three give two; a single one is an error. -/
def bytes? : List ℕ → Option (List UInt8)
  | [] => some []
  | [_] => none
  | [a, b] => some [.ofNat (a * 4 + b / 16)]
  | [a, b, c] => some [.ofNat (a * 4 + b / 16), .ofNat (b * 16 + c / 4)]
  | a :: b :: c :: d :: rest =>
    (bytes? rest).map fun bs =>
      .ofNat (a * 4 + b / 16) :: .ofNat (b * 16 + c / 4) :: .ofNat (c * 64 + d) :: bs

/-- Decode a list of characters. -/
def decodeChars (cs : List Char) : Option (List UInt8) :=
  ((cs.filter fun c => c ≠ '\r' ∧ c ≠ '\n').mapM sextet?).bind bytes?

/-- `base64.RawURLEncoding.DecodeString`. -/
def rawURLDecode (s : String) : Option (List UInt8) := decodeChars s.toList

@[simp]
theorem rawURLDecode_ofList (cs : List Char) : rawURLDecode (String.ofList cs) = decodeChars cs := by
  rw [rawURLDecode, String.toList_ofList]

/-! ### Encoding -/

/-- The character of six bits. -/
def char (n : ℕ) : Char :=
  "ABCDEFGHIJKLMNOPQRSTUVWXYZabcdefghijklmnopqrstuvwxyz0123456789-_".toList.getD n 'A'

/-- The groups of six bits of some bytes, filled up with zero bits. -/
def sextets : List UInt8 → List ℕ
  | [] => []
  | [a] => [a.toNat / 4, a.toNat % 4 * 16]
  | [a, b] => [a.toNat / 4, a.toNat % 4 * 16 + b.toNat / 16, b.toNat % 16 * 4]
  | a :: b :: c :: rest =>
    a.toNat / 4 :: (a.toNat % 4 * 16 + b.toNat / 16) :: (b.toNat % 16 * 4 + c.toNat / 64) ::
      c.toNat % 64 :: sextets rest

/-- `base64.RawURLEncoding.EncodeToString`. -/
def encodeChars (bytes : List UInt8) : List Char := (sextets bytes).map char

theorem sextet?_char : ∀ n < 64, sextet? (char n) = some n := by decide +kernel

/-- No character of the alphabet is a line break or a dot. -/
theorem char_ne : ∀ n < 64, char n ≠ '\r' ∧ char n ≠ '\n' ∧ char n ≠ '.' := by decide +kernel

theorem sextets_lt (bytes : List UInt8) : ∀ n ∈ sextets bytes, n < 64 := by
  induction bytes using sextets.induct with
  | case1 => simp [sextets]
  | case2 a =>
    have ha := a.toNat_lt
    simp only [sextets, List.forall_mem_cons]
    exact ⟨by omega, by omega, nofun⟩
  | case3 a b =>
    have ha := a.toNat_lt
    have hb := b.toNat_lt
    simp only [sextets, List.forall_mem_cons]
    exact ⟨by omega, by omega, by omega, nofun⟩
  | case4 a b c rest ih =>
    have ha := a.toNat_lt
    have hb := b.toNat_lt
    have hc := c.toNat_lt
    simp only [sextets, List.forall_mem_cons]
    exact ⟨by omega, by omega, by omega, by omega, ih⟩

/-- The bytes come back from their groups of six bits. -/
theorem bytes?_sextets (bytes : List UInt8) : bytes? (sextets bytes) = some bytes := by
  have hbyte : ∀ (x : ℕ) (b : UInt8), x % 256 = b.toNat → UInt8.ofNat x = b := by
    intro x b h
    apply UInt8.toNat_inj.mp
    rw [UInt8.toNat_ofNat']
    exact h
  induction bytes using sextets.induct with
  | case1 => rfl
  | case2 a =>
    have ha := a.toNat_lt
    simp only [sextets, bytes?]
    rw [hbyte _ a (by omega)]
  | case3 a b =>
    have ha := a.toNat_lt
    have hb := b.toNat_lt
    simp only [sextets, bytes?]
    rw [hbyte _ a (by omega), hbyte _ b (by omega)]
  | case4 a b c rest ih =>
    have ha := a.toNat_lt
    have hb := b.toNat_lt
    have hc := c.toNat_lt
    simp only [sextets, bytes?, ih, Option.map_some]
    rw [hbyte _ a (by omega), hbyte _ b (by omega), hbyte _ c (by omega)]

theorem mapM_sextet?_map_char {ns : List ℕ} (h : ∀ n ∈ ns, n < 64) :
    (ns.map char).mapM sextet? = some ns := by
  induction ns with
  | nil => rfl
  | cons n ns ih =>
    rw [List.forall_mem_cons] at h
    rw [List.map_cons, List.mapM_cons, sextet?_char n h.1, ih h.2]
    rfl

/-- Decoding undoes encoding. -/
theorem decodeChars_encodeChars (bytes : List UInt8) :
    decodeChars (encodeChars bytes) = some bytes := by
  have hlt := sextets_lt bytes
  have hfilter : (encodeChars bytes).filter (fun c => c ≠ '\r' ∧ c ≠ '\n') = encodeChars bytes := by
    refine List.filter_eq_self.mpr fun c hc => ?_
    obtain ⟨n, hn, rfl⟩ := List.mem_map.mp hc
    obtain ⟨hcr, hlf, -⟩ := char_ne n (hlt n hn)
    simp [hcr, hlf]
  have hmap : (encodeChars bytes).mapM sextet? = some (sextets bytes) := mapM_sextet?_map_char hlt
  rw [decodeChars, hfilter, hmap, Option.bind_some, bytes?_sextets]

/-- Three bytes take four characters. -/
theorem length_encodeChars (bytes : List UInt8) :
    (encodeChars bytes).length = (4 * bytes.length + 2) / 3 := by
  rw [encodeChars, List.length_map]
  induction bytes using sextets.induct with
  | case1 => rfl
  | case2 a => simp [sextets]
  | case3 a b => simp [sextets]
  | case4 a b c rest ih =>
    simp only [sextets, List.length_cons, ih]
    omega

/-- A property of the alphabet is one of all encodings. -/
theorem forall_mem_encodeChars {P : Char → Prop} (h : ∀ n < 64, P (char n)) (bytes : List UInt8) :
    ∀ c ∈ encodeChars bytes, P c := by
  intro c hc
  obtain ⟨n, hn, rfl⟩ := List.mem_map.mp hc
  exact h n (sextets_lt bytes n hn)

theorem dot_notMem_encodeChars (bytes : List UInt8) : '.' ∉ encodeChars bytes := by
  intro hdot
  exact forall_mem_encodeChars (P := (· ≠ '.')) (fun n hn => (char_ne n hn).2.2) bytes '.' hdot rfl

example : rawURLDecode "Zm9v\nYg" = some [102, 111, 111, 98] := by decide +kernel

end GoStd.Base64
