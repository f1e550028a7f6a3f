import BackendKit.Conformance.Template
import BackendKit.GoStd.Base64
import BackendKit.GoStd.Sha256
import Mathlib.Data.Nat.Digits.Defs

/-!
# Filling in a fixture

`Load`: the resolver goes through a fixture and puts values for its placeholders, from `Params` or from
the defaults (`conformance/conformance.go`).

Nonces and identifiers are drawn at random. The order in which `range` visits a map decides which draw
goes where, so the draws are given by the position of the placeholder: `Env` has one for each.
-/

open GoStd

namespace Conformance

/-! ### The resolver -/

/-- What a call of `Load` gets from outside. -/
structure Env where
  /-- `time.Now()`. -/
  clock : ℤ
  /-- What `rand.Read` fills a buffer with, at the placeholder in this position. -/
  random : List Any.Step → (n : ℕ) → { bytes : List UInt8 // bytes.length = n }
  /-- `uuid.NewString()`. -/
  newUUID : List Any.Step → String
  /-- It is written in lower case. -/
  reUUID_newUUID : ∀ position, reUUID (newUUID position) = true

inductive LoadError where
  | parse (err : ParseError)
  | notOneKeyTemplate
  | noKeys
  | keyIncomplete
  | exponent (id : String) (e : Int64)
  | noAttribute (name : String)
  | needsToken (kind : String)
  | unknownPlaceholder (kind : String)
  deriving DecidableEq

/-- The resolver, with its instant and its environment. -/
structure Resolver where
  p : Params
  env : Env
  now : ℤ

/-- `newResolver`. -/
def newResolver (env : Env) (p : Params) : Resolver where
  p := p
  env := env
  now := if p.now = Time.zero then env.clock else p.now

@[simp]
theorem newResolver_p (env : Env) (p : Params) : (newResolver env p).p = p := rfl

/-- `t.Unix()`. -/
def unixSeconds (t : ℤ) : ℤ := t / Duration.second

/-- `int64(d.Seconds())`, for a duration that is not negative: whole seconds and the fraction are added
as `float64`. -/
def wholeSeconds (d : ℤ) : ℤ :=
  ⌊Float64.round (Float64.round ((d / Duration.second : ℤ) : ℚ) +
    Float64.round (((d % Duration.second : ℤ) : ℚ) / 10 ^ 9))⌋

/-- `base64.RawURLEncoding.EncodeToString`. -/
def rawURLEncode (bytes : List UInt8) : String := String.ofList (Base64.encodeChars bytes)

/-- `(*big.Int).Bytes`: the absolute value, big-endian and without leading zeros. -/
def bigBytes (n : ℤ) : List UInt8 := (Nat.digits 256 n.natAbs).reverse.map UInt8.ofNat

/-- `atHash`. -/
def atHash (accessToken : String) : String :=
  let sum := Sha256.sum256 accessToken.toByteArray.data.toList
  rawURLEncode (sum.take (sum.length / 2))

namespace Resolver

variable (r : Resolver)

def clientID : String := orDefault r.p.clientID defaultClientID

def role : String := orDefault r.p.role defaultRole

def issuer : String := orDefault r.p.issuer defaultIssuer

def ttl : ℤ := if 0 < r.p.ttl then r.p.ttl.toInt else defaultTTL

/-- The lifetime of `<refresh_exp>`. -/
def refreshTTL : ℤ := if r.p.refreshTTL ≤ 0 then defaultRefreshTTL else r.p.refreshTTL.toInt

/-- The instant of `<auth_time>`. -/
def authTime : ℤ := if r.p.authTime ≠ Time.zero then r.p.authTime else r.now

/-- The audiences that `<audience>` stands for. -/
def audiences : List String := if r.p.audiences.length = 0 then [defaultAudience] else r.p.audiences

/-- The attributes that `<attribute:K>` projects. -/
def attributes : List (String × Any) :=
  match r.p.attributes with
  | none => [("department", .string "engineering")]
  | some attrs => attrs

/-- `randomB64`. -/
def randomB64 (position : List Any.Step) (n : ℕ) : String := rawURLEncode (r.env.random position n).1

/-- A token that must be given. -/
def token (kind v : String) : Except LoadError Any :=
  if v = "" then .error (.needsToken kind) else .ok (.string v)

/-- `value`, for a kind that has a name. `n` is known to `Match` only. -/
def valueOf (position : List Any.Step) (kind : Kind) (name arg : String) : Except LoadError Any :=
  match kind with
  | .issuer => .ok (.string r.issuer)
  | .clientID => .ok (.string r.clientID)
  | .sub => .ok (.string (orDefault r.p.subject defaultSubject))
  | .appSub =>
    let id := if r.p.appID = 0 then defaultAppID else r.p.appID
    .ok (.string ("app:" ++ toString id.toNat))
  | .role => .ok (.string r.role)
  | .appRoles => .ok (.map [(r.clientID, .string r.role)])
  | .email => .ok (.string (orDefault r.p.email defaultEmail))
  | .name => .ok (.string (orDefault r.p.name defaultName))
  | .nonce => .ok (.string (orDefault r.p.nonce (r.randomB64 position 12)))
  | .tenantID => .ok (.string (orDefault r.p.tenantID defaultTenantID))
  | .userAttribute =>
    match Any.lookup r.attributes arg with
    | none => .error (.noAttribute arg)
    | some v => .ok v
  | .scope => .ok (.string (orDefault r.p.scope arg))
  | .iat => .ok (.int64 (unixSeconds r.now))
  | .nbf => .ok (.int64 (unixSeconds r.now))
  | .authTime => .ok (.int64 (unixSeconds r.authTime))
  | .exp => .ok (.int64 (unixSeconds (r.now + r.ttl)))
  | .refreshExp => .ok (.int64 (unixSeconds (r.now + r.refreshTTL)))
  | .expiresIn => .ok (.int64 (wholeSeconds r.ttl))
  | .jti => .ok (.string (r.env.newUUID position))
  | .kid =>
    match r.p.keys with
    | k :: _ => .ok (.string (orDefault k.id (r.env.newUUID position)))
    | [] => .ok (.string (r.env.newUUID position))
  | .tokenVersion => .ok (.int64 (if 0 < r.p.tokenVersion then r.p.tokenVersion.toInt else 1))
  | .atHash =>
    .ok (.string (if r.p.accessToken ≠ "" then atHash r.p.accessToken else r.randomB64 position 16))
  | .jkt => .ok (.string (orDefault r.p.jkt (r.randomB64 position 32)))
  | .accessToken => token name r.p.accessToken
  | .refreshToken => token name r.p.refreshToken
  | .idToken => token name r.p.idToken
  | .n => .error (.unknownPlaceholder name)

/-- `value`. -/
def value (position : List Any.Step) (name arg : String) : Except LoadError Any :=
  match Kind.ofName name with
  | none => .error (.unknownPlaceholder name)
  | some kind => r.valueOf position kind name arg

/-- A string of a fixture: a placeholder, or a literal that may mention the issuer. -/
def resolveString (position : List Any.Step) (s : String) : Except LoadError Any :=
  match placeholder s with
  | none => .ok (.string (replaceAll s issuerToken r.issuer))
  | some (name, arg) => r.value position name arg

mutual

/-- `resolve`. -/
def resolve (position : List Any.Step) : Any → Except LoadError Any
  | .map entries => (resolveEntries position [] entries).map .map
  | .slice elements => (resolveElements position 0 elements).map .slice
  | .string s => r.resolveString position s
  | v => .ok v

/-- The loop over the entries of a map. -/
def resolveEntries (position : List Any.Step) (out : List (String × Any)) :
    List (String × Any) → Except LoadError (List (String × Any))
  | [] => .ok out
  | (k, val) :: entries => do
    let rv ← resolve (.key k :: position) val
    resolveEntries position (Any.assign out (replaceAll k nsToken r.p.ns) rv) entries

/-- The loop over the elements of an array, from index `i` on. -/
def resolveElements (position : List Any.Step) (i : ℕ) : List Any → Except LoadError (List Any)
  | [] => .ok []
  | el :: elements => do
    let here ←
      if isAudience el then .ok (r.audiences.map Any.string)
      else (resolve (.index i :: position) el).map fun rv => [rv]
    let more ← resolveElements position (i + 1) elements
    .ok (here ++ more)

end

/-! ### Key sets -/

/-- The entry of a key: the template with `<kid>` and `<n>` filled in. -/
def keyEntry (id : String) (key : PrivateKey) (template : List (String × Any)) : List (String × Any) :=
  template.map fun (name, val) =>
    match val with
    | .string s =>
      if s = "<kid>" then (name, .string id)
      else if s = "<n>" then (name, .string (rawURLEncode (bigBytes key.n)))
      else (name, val)
    | _ => (name, val)

/-- One turn of the loop of `resolveJWKS`. -/
def resolveKey (template : List (String × Any)) (k : Key) : Except LoadError Any :=
  match k.privateKey with
  | none => .error .keyIncomplete
  | some key =>
    if k.id = "" then .error .keyIncomplete
    else
      let entry := keyEntry k.id key template
      match Any.lookup entry "e" with
      | some (.string e) =>
        if rawURLEncode (bigBytes key.e.toInt) ≠ e then .error (.exponent k.id key.e)
        else .ok (.map entry)
      | _ => .error (.exponent k.id key.e)

/-- `resolveJWKS`. -/
def resolveJWKS (doc : List (String × Any)) : Except LoadError (List (String × Any)) :=
  match Any.lookup doc "keys" with
  | some (.slice [tmpl]) => do
    let template := match tmpl with
      | .map template => template
      | _ => []
    if r.p.keys.length = 0 then .error .noKeys
    else
      let keys ← r.p.keys.mapM (resolveKey template)
      .ok [("keys", .slice keys)]
  | _ => .error .notOneKeyTemplate

end Resolver

/-- `Load`. -/
def load (files : Fixtures) (env : Env) (name : String) (p : Params) :
    Except LoadError (List (String × Any)) := do
  let doc ← (parse files name).mapError .parse
  let r := newResolver env p
  if name = "jwks" then r.resolveJWKS doc
  else r.resolveEntries [] [] doc

end Conformance
