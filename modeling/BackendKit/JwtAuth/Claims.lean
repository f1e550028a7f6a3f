import BackendKit.GoStd.Base64
import BackendKit.GoStd.Json

/-!
# Token claims

`SocrateClaims` and the three ways the middleware reads a payload (`jwtauth/middleware.go`): all
known claims at once (`decodeClaims`, which is `json.Unmarshal` into the struct), the scopes
(`scopeClaims`) and a claim whose name is configured (`stringClaim`).

The three do not read names alike: a struct field takes any case of its name, a configured name
is compared exactly.
-/

open GoStd

namespace JwtAuth

/-- What is needed to read a payload and is not in this repository: the text layer of
`encoding/json`, and the two types of claims that `golang-jwt` decodes by itself. -/
structure ClaimCodec where
  /-- The value a JSON text stands for. -/
  json : List UInt8 → Option Json
  /-- `NumericDate.UnmarshalJSON`: the instant of a claim that is not `null`. -/
  numericDate : Json → Option ℤ
  /-- `ClaimStrings.UnmarshalJSON`, over the old value. -/
  claimStrings : List String → Json → Option (List String)

/-- Why the payload could not be read a second time. -/
inductive ClaimError where
  | tokenInvalid
  | payload
  | unexpectedType (name : String)
  | tenantClaimNotConfigured
  | notString (name : String)
  deriving DecidableEq, Repr

/-- The claims of a token. -/
structure SocrateClaims where
  role : String := ""
  appRoles : Json.StringMap := ∅
  tokenVersion : Int64 := 0
  authTime : Int64 := 0
  /-- `none` is the nil slice. -/
  amr : Option (List String) := none
  tenantID : String := ""
  plan : String := ""
  email : String := ""
  name : String := ""
  issuer : String := ""
  subject : String := ""
  audience : List String := []
  expiresAt : Option ℤ := none
  notBefore : Option ℤ := none
  issuedAt : Option ℤ := none
  id : String := ""
  /-- Read by `scopeClaims`, not from a field of its own. -/
  scopes : List String := []
  scopesErr : Option ClaimError := none
  deriving DecidableEq

/-- Decode into a `*NumericDate`. -/
def ClaimCodec.intoDate (codec : ClaimCodec) (_ : Option ℤ) : Json → Option (Option ℤ)
  | .null => some none
  | v => (codec.numericDate v).map some

/-- `json.Unmarshal` of a payload into `SocrateClaims`. -/
def decodeClaims (codec : ClaimCodec) : Json → Option SocrateClaims
  | .null => some {}
  | .obj members => do
    let role ← Json.decodeField Json.intoString "" "role" members
    let appRoles ← Json.decodeField Json.intoStringMap ∅ "app_roles" members
    let tokenVersion ← Json.decodeField Json.intoInt64 0 "token_version" members
    let authTime ← Json.decodeField Json.intoInt64 0 "auth_time" members
    let amr ← Json.decodeField Json.intoStrings none "amr" members
    let tenantID ← Json.decodeField Json.intoString "" "tenant_id" members
    let plan ← Json.decodeField Json.intoString "" "plan" members
    let email ← Json.decodeField Json.intoString "" "email" members
    let name ← Json.decodeField Json.intoString "" "name" members
    let issuer ← Json.decodeField Json.intoString "" "iss" members
    let subject ← Json.decodeField Json.intoString "" "sub" members
    let audience ← Json.decodeField codec.claimStrings [] "aud" members
    let expiresAt ← Json.decodeField codec.intoDate none "exp" members
    let notBefore ← Json.decodeField codec.intoDate none "nbf" members
    let issuedAt ← Json.decodeField codec.intoDate none "iat" members
    let id ← Json.decodeField Json.intoString "" "jti" members
    return { role, appRoles, tokenVersion, authTime, amr, tenantID, plan, email, name, issuer,
             subject, audience, expiresAt, notBefore, issuedAt, id }
  | _ => none

/-! ### Reading the payload again -/

/-- The payload of a token: the second of its three parts. -/
def payload (codec : ClaimCodec) (token : String) : Except ClaimError Json :=
  match List.splitOn '.' token.toList with
  | [_, part, _] =>
    match (Base64.decodeChars part).bind codec.json with
    | some v => .ok v
    | none => .error .payload
  | _ => .error .tokenInvalid

/-- Append the words of a value that are not there yet. -/
def addWords (out : List String) (value : String) : List String :=
  (fields value).foldl (fun out word => if word ∈ out then out else out ++ [word]) out

/-- Read one of the two scope claims: a string, and for `scp` also an array of strings. -/
def scopeClaim (name : String) (arrayToo : Bool) (out : List String) :
    Option Json → Except ClaimError (List String)
  | none | some .null => .ok out
  | some (.str s) => .ok (addWords out s)
  | some (.arr vs) =>
    match arrayToo, vs.mapM (Json.intoString "") with
    | true, some values => .ok (values.foldl addWords out)
    | _, _ => .error (.unexpectedType name)
  | some _ => .error (.unexpectedType name)

/-- The scopes of a token: the words of `scope` and `scp`. -/
def scopeClaims (codec : ClaimCodec) (token : String) : Except ClaimError (List String) :=
  match payload codec token with
  | .error err => .error err
  | .ok (.obj members) =>
    match scopeClaim "scope" false [] (Json.rawField "scope" members) with
    | .error err => .error err
    | .ok out => scopeClaim "scp" true out (Json.rawField "scp" members)
  | .ok .null => .ok []
  | .ok _ => .error .payload

/-- The named claim of a token: empty when absent, an error when it is not a string. -/
def stringClaim (codec : ClaimCodec) (token name : String) : Except ClaimError String :=
  if name = "" then .error .tenantClaimNotConfigured
  else
    match payload codec token with
    | .error err => .error err
    | .ok (.obj members) =>
      match Json.lookupLast name members with
      | none => .ok ""
      | some (.str s) => .ok s
      | some _ => .error (.notString name)
    | .ok .null => .ok ""
    | .ok _ => .error .payload

end JwtAuth
