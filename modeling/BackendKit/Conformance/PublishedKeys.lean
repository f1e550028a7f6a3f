import BackendKit.Conformance.SelfMatch
import BackendKit.JwtAuth.Keys

/-!
# Published keys

The key set that `conformance.JWKS` publishes and the reader of key sets in `jwtauth` are two ends of
one encoding: base64url of the big-endian bytes of a number. `parseRSAPublicKey_exact` says which keys
the reader accepts and that it does not alter them, so what is published is what is read.
-/

open GoStd

namespace Conformance

open JwtAuth (parseRSAPublicKey bigEndian bitLen PublicKey)

/-! ### Numbers and bytes -/

/-- The value of big-endian bytes, by the digits from the lowest one. -/
theorem bigEndian_eq_ofDigits (bytes : List UInt8) :
    bigEndian bytes = Nat.ofDigits 256 (bytes.reverse.map UInt8.toNat) := by
  rw [bigEndian, Nat.ofDigits_eq_foldr, List.foldr_map, List.foldr_reverse]
  congr
  funext n b
  exact (Nat.add_comm _ _).trans (by rw [Nat.mul_comm]; rfl)

/-- Leading zero bytes do not change a value. -/
theorem bigEndian_replicate_append (k : ℕ) (bytes : List UInt8) :
    bigEndian (List.replicate k 0 ++ bytes) = bigEndian bytes := by
  have hzeros : (List.replicate k (0 : UInt8)).foldl (fun n b => n * 256 + b.toNat) 0 = 0 := by
    induction k with
    | zero => rfl
    | succ k ih => exact ih
  rw [bigEndian, List.foldl_append, hzeros, bigEndian]

/-- The bytes of a number have its value. -/
theorem bigEndian_bigBytes (n : ℕ) : bigEndian (bigBytes n) = n := by
  have hdigits : (Nat.digits 256 n).map (UInt8.toNat ∘ UInt8.ofNat) = Nat.digits 256 n := by
    refine List.map_congr_left (fun d hd => ?_) |>.trans (List.map_id _)
    exact Nat.mod_eq_of_lt (Nat.digits_lt_base (by decide) hd)
  rw [bigEndian_eq_ofDigits, bigBytes, ← List.map_reverse, List.reverse_reverse, List.map_map,
    Int.natAbs_natCast, hdigits, Nat.ofDigits_digits]

theorem rawURLDecode_rawURLEncode (bytes : List UInt8) :
    Base64.rawURLDecode (rawURLEncode bytes) = some bytes := by
  rw [rawURLEncode, Base64.rawURLDecode_ofList, Base64.decodeChars_encodeChars]

theorem succ_le_bitLen_iff {n k : ℕ} : k + 1 ≤ bitLen n ↔ 2 ^ k ≤ n := by
  unfold bitLen
  split
  · rename_i hn
    subst hn
    have hpos := Nat.two_pow_pos k
    omega
  · rename_i hn
    rw [Nat.succ_le_succ_iff, Nat.le_log2 hn]

/-! ### What the reader accepts -/

section

variable {nStr eStr : String} {nBytes eBytes : List UInt8}

/-- The bounds of the reader on the values of two texts. -/
def AcceptedValues (n e : ℕ) : Prop := 2 ^ 2047 ≤ n ∧ e % 2 = 1 ∧ 3 ≤ e ∧ e ≤ 2 ^ 31 - 1

theorem acceptedValues_of_publicKey (key : PublicKey) : AcceptedValues key.n key.e := by
  have hle := key.e_le
  have hodd := key.odd_e
  unfold JwtAuth.maxRSAExponent at hle
  exact ⟨succ_le_bitLen_iff.mp key.bitLen_n, hodd, key.three_le_e, by omega⟩

/-- Texts that decode are accepted if their values are in the bounds, and the key has these values. -/
theorem parseRSAPublicKey_of_accepted (hn : Base64.rawURLDecode nStr = some nBytes)
    (he : Base64.rawURLDecode eStr = some eBytes)
    (h : AcceptedValues (bigEndian nBytes) (bigEndian eBytes)) :
    ∃ key, parseRSAPublicKey nStr eStr = .ok key ∧ key.n = bigEndian nBytes ∧
      key.e = bigEndian eBytes := by
  obtain ⟨hbits, hodd, hthree, hle⟩ := h
  have hlen : JwtAuth.minRSAKeyBits ≤ bitLen (bigEndian nBytes) := succ_le_bitLen_iff.mpr hbits
  refine ⟨⟨bigEndian nBytes, bigEndian eBytes, hlen, hthree, ?_, hodd⟩, ?_, rfl, rfl⟩
  · unfold JwtAuth.maxRSAExponent
    omega
  · unfold parseRSAPublicKey JwtAuth.maxRSAExponent
    simp only [hn, he]
    rw [dif_neg (Nat.not_lt.mpr hlen), if_neg (by omega), dif_neg (by omega)]

/-- An accepted key has the values of the two texts. -/
theorem values_of_parseRSAPublicKey {key : PublicKey} (h : parseRSAPublicKey nStr eStr = .ok key) :
    ∃ nBytes eBytes, Base64.rawURLDecode nStr = some nBytes ∧
      Base64.rawURLDecode eStr = some eBytes ∧ key.n = bigEndian nBytes ∧
      key.e = bigEndian eBytes := by
  unfold parseRSAPublicKey at h
  split at h
  · cases h
  rename_i nBytes hn
  split at h
  · cases h
  rename_i eBytes he
  simp only at h
  split at h
  · cases h
  split at h
  · cases h
  split at h
  · cases h
  · cases h
    exact ⟨nBytes, eBytes, hn, he, rfl, rfl⟩

/-- Only the values of the texts count. -/
theorem parseRSAPublicKey_congr {nStr' eStr' : String} {nBytes' eBytes' : List UInt8}
    (hn : Base64.rawURLDecode nStr = some nBytes) (he : Base64.rawURLDecode eStr = some eBytes)
    (hn' : Base64.rawURLDecode nStr' = some nBytes') (he' : Base64.rawURLDecode eStr' = some eBytes')
    (hnum : bigEndian nBytes' = bigEndian nBytes) (hexp : bigEndian eBytes' = bigEndian eBytes) :
    parseRSAPublicKey nStr' eStr' = parseRSAPublicKey nStr eStr := by
  unfold parseRSAPublicKey
  simp only [hn, he, hn', he', hnum, hexp]

end

/-- What is published of a number is read as that number. -/
theorem parseRSAPublicKey_rawURLEncode {n e : ℕ} (h : AcceptedValues n e) :
    ∃ key, parseRSAPublicKey (rawURLEncode (bigBytes n)) (rawURLEncode (bigBytes e)) = .ok key ∧
      key.n = n ∧ key.e = e := by
  have hread := parseRSAPublicKey_of_accepted (rawURLDecode_rawURLEncode (bigBytes n))
    (rawURLDecode_rawURLEncode (bigBytes e))
  rw [bigEndian_bigBytes, bigEndian_bigBytes] at hread
  exact hread h

/-- What the shipped template makes of a key is read as that key. -/
theorem parseRSAPublicKey_resolveKey {k : Key} {v : Any}
    (h : Resolver.resolveKey keyTemplate k = .ok v) :
    ∃ pk nStr, k.privateKey = some pk ∧ v = .map (publishedKey k.id nStr) ∧
      (2 ^ 2047 ≤ pk.n → 0 ≤ pk.e.toInt → ∃ key, parseRSAPublicKey nStr "AQAB" = .ok key ∧
        (key.n : ℤ) = pk.n ∧ (key.e : ℤ) = pk.e.toInt) := by
  obtain ⟨pk, hpk, hexponent, rfl⟩ := resolveKey_eq_ok h
  refine ⟨pk, _, hpk, rfl, fun hn he => ?_⟩
  obtain ⟨n, hnum⟩ := Int.eq_ofNat_of_zero_le (le_trans (Int.pow_nonneg (by decide)) hn)
  obtain ⟨e, hexp⟩ := Int.eq_ofNat_of_zero_le he
  -- the text of the template decodes to Socrate's exponent
  have hvalue : e = 65537 := by
    have hdecode := rawURLDecode_rawURLEncode (bigBytes pk.e.toInt)
    have htemplate : Base64.rawURLDecode "AQAB" = some [1, 0, 1] := by decide
    rw [hexponent, htemplate, Option.some.injEq] at hdecode
    have hbytes := bigEndian_bigBytes e
    rw [← hexp, ← hdecode] at hbytes
    exact hbytes.symm
  have haccepted : AcceptedValues n e := by
    refine ⟨?_, by omega, by omega, by omega⟩
    rw [hnum] at hn
    exact_mod_cast hn
  obtain ⟨key, hkey, hkeyn, hkeye⟩ := parseRSAPublicKey_rawURLEncode haccepted
  rw [← hexp, hexponent, ← hnum] at hkey
  exact ⟨key, hkey, by rw [hkeyn, hnum], by rw [hkeye, hexp]⟩

/-- Keys are accepted exactly if they are safe, and never altered: for all texts, the reader succeeds
exactly if both decode and their values are in the bounds; the key has these values, its exponent fits
an `int` of 32 bits, and leading zero bytes make no difference. What is published of a key with such
values, and what the shipped template makes of it, is read as that key. -/
theorem parseRSAPublicKey_exact :
    (∀ nStr eStr : String,
      ((∃ key, parseRSAPublicKey nStr eStr = .ok key) ↔
        ∃ nBytes eBytes, Base64.rawURLDecode nStr = some nBytes ∧
          Base64.rawURLDecode eStr = some eBytes ∧
          AcceptedValues (bigEndian nBytes) (bigEndian eBytes)) ∧
      ∀ key, parseRSAPublicKey nStr eStr = .ok key → ∃ nBytes eBytes,
        Base64.rawURLDecode nStr = some nBytes ∧ Base64.rawURLDecode eStr = some eBytes ∧
        key.n = bigEndian nBytes ∧ key.e = bigEndian eBytes ∧
        (Int32.ofNat key.e).toInt = key.e ∧
        ∀ (k l : ℕ) (nStr' eStr' : String),
          Base64.rawURLDecode nStr' = some (List.replicate k 0 ++ nBytes) →
          Base64.rawURLDecode eStr' = some (List.replicate l 0 ++ eBytes) →
          parseRSAPublicKey nStr' eStr' = .ok key) ∧
    (∀ n e : ℕ, AcceptedValues n e →
      ∃ key, parseRSAPublicKey (rawURLEncode (bigBytes n)) (rawURLEncode (bigBytes e)) = .ok key ∧
        key.n = n ∧ key.e = e) ∧
    ∀ (k : Key) (v : Any), Resolver.resolveKey keyTemplate k = .ok v →
      ∃ pk nStr, k.privateKey = some pk ∧ v = .map (publishedKey k.id nStr) ∧
        (2 ^ 2047 ≤ pk.n → 0 ≤ pk.e.toInt → ∃ key, parseRSAPublicKey nStr "AQAB" = .ok key ∧
          (key.n : ℤ) = pk.n ∧ (key.e : ℤ) = pk.e.toInt) := by
  refine ⟨fun nStr eStr => ⟨⟨?_, ?_⟩, ?_⟩, fun n e => parseRSAPublicKey_rawURLEncode,
    fun k v => parseRSAPublicKey_resolveKey⟩
  · rintro ⟨key, hkey⟩
    obtain ⟨nBytes, eBytes, hn, he, hnum, hexp⟩ := values_of_parseRSAPublicKey hkey
    refine ⟨nBytes, eBytes, hn, he, ?_⟩
    rw [← hnum, ← hexp]
    exact acceptedValues_of_publicKey key
  · rintro ⟨nBytes, eBytes, hn, he, haccepted⟩
    obtain ⟨key, hkey, -⟩ := parseRSAPublicKey_of_accepted hn he haccepted
    exact ⟨key, hkey⟩
  · intro key hkey
    obtain ⟨nBytes, eBytes, hn, he, hnum, hexp⟩ := values_of_parseRSAPublicKey hkey
    refine ⟨nBytes, eBytes, hn, he, hnum, hexp, ?_, fun k l nStr' eStr' hn' he' => ?_⟩
    · have hle := (acceptedValues_of_publicKey key).2.2.2
      exact Int32.toInt_ofNat_of_lt (by omega)
    · rw [← hkey]
      exact parseRSAPublicKey_congr hn he hn' he' (bigEndian_replicate_append k nBytes)
        (bigEndian_replicate_append l eBytes)

end Conformance
