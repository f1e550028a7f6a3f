import BackendKit.GoStd.Base64
import Mathlib.Algebra.Group.Nat.Defs
import Mathlib.Data.List.AList
import Mathlib.Data.List.Induction

/-!
# Key sets

What a JWKS document turns into: `parseRSAPublicKey` and the loop of `fetchJWKS`
(`jwtauth/middleware.go`).

A `PublicKey` carries the bounds that `parseRSAPublicKey` checks, so a weak key cannot be built.
`loadKeys` is the loop with its map; `usableKey` says what the map should hold, and
`lookup_loadKeys` that it does.
-/

open GoStd

namespace JwtAuth

/-- One key of a JWKS document. -/
structure JwksKey where
  kty : String
  kid : String
  use : String
  alg : String
  n : String
  e : String
  deriving DecidableEq, Repr

/-- The smallest RSA modulus that is accepted, in bits. -/
def minRSAKeyBits : ℕ := 2048

/-- The bound on the public exponent. -/
def maxRSAExponent : ℕ := 2 ^ 31

/-- `(*big.Int).BitLen` of a natural number. -/
def bitLen (n : ℕ) : ℕ := if n = 0 then 0 else n.log2 + 1

/-- `(*big.Int).SetBytes`: the value of big-endian bytes. -/
def bigEndian (bytes : List UInt8) : ℕ := bytes.foldl (fun n b => n * 256 + b.toNat) 0

/-- An RSA public key that is strong enough. -/
structure PublicKey where
  n : ℕ
  e : ℕ
  bitLen_n : minRSAKeyBits ≤ bitLen n
  three_le_e : 3 ≤ e
  e_le : e ≤ maxRSAExponent
  odd_e : e % 2 = 1
  deriving DecidableEq

/-- Why a key is not accepted. -/
inductive KeyError where
  | decodeModulus
  | decodeExponent
  | modulusTooSmall (bits : ℕ)
  | exponentTooLarge
  | invalidExponent (e : ℕ)
  deriving DecidableEq, Repr

/-- `parseRSAPublicKey`. -/
def parseRSAPublicKey (nStr eStr : String) : Except KeyError PublicKey :=
  match Base64.rawURLDecode nStr with
  | none => .error .decodeModulus
  | some nBytes =>
    match Base64.rawURLDecode eStr with
    | none => .error .decodeExponent
    | some eBytes =>
      let n := bigEndian nBytes
      let e := bigEndian eBytes
      if hn : bitLen n < minRSAKeyBits then .error (.modulusTooSmall (bitLen n))
      -- `IsInt64`
      else if 2 ^ 63 ≤ e then .error .exponentTooLarge
      else if he : e < 3 ∨ e > maxRSAExponent ∨ e % 2 = 0 then .error (.invalidExponent e)
      else
        .ok {
          n, e
          bitLen_n := by omega
          three_le_e := by omega
          e_le := by omega
          odd_e := by omega }

/-- The key material of an entry that the loop of `fetchJWKS` keeps. -/
def JwksKey.usable? (k : JwksKey) : Option PublicKey :=
  if k.kty ≠ "RSA" ∨ k.use ≠ "sig" then none else (parseRSAPublicKey k.n k.e).toOption

/-- The map from key ids to keys. -/
abbrev KeySet := AList fun _ : String => PublicKey

/-- One turn of the loop: the last entry of a repeated key id stays. -/
def KeySet.load (keys : KeySet) (k : JwksKey) : KeySet :=
  match k.usable? with
  | none => keys
  | some pub => keys.insert k.kid pub

/-- The loop of `fetchJWKS` over the entries of a document. -/
def loadKeys (doc : List JwksKey) : KeySet := doc.foldl KeySet.load ∅

/-- The usable key that a document has for a key id: of several, the last. -/
def usableKey (doc : List JwksKey) (kid : String) : Option PublicKey :=
  (doc.filterMap fun k => if k.kid = kid then k.usable? else none).getLast?

theorem lookup_load (keys : KeySet) (k : JwksKey) (kid : String) :
    (keys.load k).lookup kid =
      ((if k.kid = kid then k.usable? else none).or (keys.lookup kid)) := by
  unfold KeySet.load
  cases hk : k.usable? with
  | none => simp
  | some pub =>
    by_cases hkid : k.kid = kid
    · subst hkid
      simp
    · simp [hkid, AList.lookup_insert_ne (Ne.symm hkid)]

/-- The loop builds exactly the usable keys of the document. -/
theorem lookup_loadKeys (doc : List JwksKey) (kid : String) :
    (loadKeys doc).lookup kid = usableKey doc kid := by
  -- Entries are appended at the end, where the loop looks at them last.
  induction doc using List.reverseRecOn with
  | nil => rfl
  | append_singleton doc k ih =>
    have hloop : loadKeys (doc ++ [k]) = (loadKeys doc).load k := by simp [loadKeys]
    rw [hloop, lookup_load, ih]
    unfold usableKey
    rw [List.filterMap_append, List.getLast?_append]
    congr 1
    cases h : (if k.kid = kid then k.usable? else none) <;> simp [h]

end JwtAuth
