import BackendKit.GoStd.AnyTree
import BackendKit.GoStd.Time

/-!
# Fixtures

What `Load` and `Match` (`conformance/conformance.go`, `conformance/match.go`) have in common: `Params`
with its defaults, the placeholders of a fixture and the patterns of their values, and the file that a
fixture is parsed from.

A fixture is a JSON document with placeholders such as `<sub>` or `<scope:api>` for strings. `<issuer>`
may also stand inside a string and `<ns>` inside a name.
-/

open GoStd

namespace Conformance

/-! ### Parameters -/

def defaultIssuer : String := "https://socrate.example.com"
def defaultClientID : String := "my-app"
def defaultAudience : String := "https://api.example.com"
def defaultSubject : String := "42"
def defaultAppID : UInt64 := 7
def defaultRole : String := "user"
def defaultEmail : String := "user@example.com"
def defaultName : String := "Example User"
def defaultTenantID : String := "00000000-0000-4000-8000-000000000001"
def defaultClaimsNamespace : String := "https://socrate/"
def defaultTTL : ℤ := 15 * Duration.minute
def defaultRefreshTTL : ℤ := 7 * 24 * Duration.hour

/-- The numbers of an `rsa.PrivateKey` that are published. -/
structure PrivateKey where
  n : ℤ
  e : Int64

structure Key where
  id : String
  /-- `Private`, which may be nil. -/
  privateKey : Option PrivateKey

/-- `Params`. The zero value of a field is "unset". -/
structure Params where
  issuer : String := ""
  clientID : String := ""
  audiences : List String := []
  subject : String := ""
  appID : UInt64 := 0
  role : String := ""
  email : String := ""
  name : String := ""
  scope : String := ""
  nonce : String := ""
  tenantID : String := ""
  attributes : Option (List (String × Any)) := none
  claimsNamespace : String := ""
  tokenVersion : Int64 := 0
  jkt : String := ""
  now : ℤ := Time.zero
  authTime : ℤ := Time.zero
  ttl : Int64 := 0
  refreshTTL : Int64 := 0
  accessToken : String := ""
  refreshToken : String := ""
  idToken : String := ""
  keys : List Key := []

/-- `or`: a value, or the default if it is unset. -/
def orDefault (v default : String) : String := if v ≠ "" then v else default

theorem orDefault_ne_empty {v default : String} (h : default ≠ "") : orDefault v default ≠ "" := by
  unfold orDefault
  split_ifs with hv
  · exact hv
  · exact h

/-- The namespace that both `Load` and `Match` put for `<ns>`. -/
def Params.ns (p : Params) : String := orDefault p.claimsNamespace defaultClaimsNamespace

/-! ### Placeholders -/

def issuerToken : String := "<issuer>"
def nsToken : String := "<ns>"

/-- `placeholder`: kind and argument, if the whole string is a placeholder. -/
def placeholder (s : String) : Option (String × String) :=
  match s.toList with
  | '<' :: rest =>
    let inner := rest.dropLast
    if rest.getLast? = some '>' ∧ inner ≠ [] ∧ '<' ∉ inner ∧ '>' ∉ inner then
      let inner := String.ofList inner
      some ((cut ':' inner).getD (inner, ""))
    else none
  | _ => none

/-- An entry of an array that stands for the registered audiences. -/
def isAudience : Any → Bool
  | .string s => s = "<audience>"
  | _ => false

/-- The kinds of placeholders that one of the two functions knows. -/
inductive Kind where
  | issuer | clientID | sub | appSub | role | appRoles | email | name | nonce | tenantID | userAttribute
  | scope | iat | nbf | authTime | exp | refreshExp | expiresIn | jti | kid | tokenVersion | atHash | jkt
  | accessToken | refreshToken | idToken | n
  deriving DecidableEq, Repr

/-- The names under which the switch statements know them. -/
def kindNames : List (String × Kind) :=
  [("issuer", .issuer), ("client_id", .clientID), ("sub", .sub), ("app_sub", .appSub), ("role", .role),
   ("app_roles", .appRoles), ("email", .email), ("name", .name), ("nonce", .nonce),
   ("tenant_id", .tenantID), ("attribute", .userAttribute), ("scope", .scope), ("iat", .iat), ("nbf", .nbf),
   ("auth_time", .authTime), ("exp", .exp), ("refresh_exp", .refreshExp), ("expires_in", .expiresIn),
   ("jti", .jti), ("kid", .kid), ("token_version", .tokenVersion), ("at_hash", .atHash), ("jkt", .jkt),
   ("access_token", .accessToken), ("refresh_token", .refreshToken), ("id_token", .idToken), ("n", .n)]

def Kind.ofName (name : String) : Option Kind := kindNames.lookup name

/-! ### Patterns

The regular expressions of `conformance/match.go`. Where a pattern has a separator, none of the classes
around it contains the separator. -/

/-- `[class]+`. -/
def plus (cls : Char → Bool) (cs : List Char) : Bool := !cs.isEmpty && cs.all cls

/-- `[class]{n}`. -/
def times (n : ℕ) (cls : Char → Bool) (cs : List Char) : Bool := cs.length = n && cs.all cls

/-- Patterns with a separator between them. -/
def separated (sep : Char) (patterns : List (List Char → Bool)) (cs : List Char) : Bool :=
  let parts := cs.splitOn sep
  parts.length = patterns.length && (patterns.zipWith (fun pattern part => pattern part) parts).all id

def isLowerHex (c : Char) : Bool := c.isDigit || ('a' ≤ c && c ≤ 'f')

def isURLSafe (c : Char) : Bool := c.isAlphanum || c = '_' || c = '-'

/-- `[^@\s]`. -/
def isMailChar (c : Char) : Bool := c ∉ ['@', '\t', '\n', '\x0c', '\r', ' ']

def reDecimal (s : String) : Bool := plus Char.isDigit s.toList

def reAppSub (s : String) : Bool :=
  s.toList.take 4 = "app:".toList && plus Char.isDigit (s.toList.drop 4)

def reUUID (s : String) : Bool :=
  separated '-' [times 8 isLowerHex, times 4 isLowerHex, times 4 isLowerHex, times 4 isLowerHex,
    times 12 isLowerHex] s.toList

def reB64URL (s : String) : Bool := plus isURLSafe s.toList

def reJWS (s : String) : Bool :=
  separated '.' [plus isURLSafe, plus isURLSafe, plus isURLSafe] s.toList

def reEmail (s : String) : Bool := separated '@' [plus isMailChar, plus isMailChar] s.toList

/-! ### Files -/

/-- The embedded file system: the text of `fixtures/NAME.json`. -/
abbrev Fixtures := String → Option String

inductive ParseError where
  | unknownFixture (name : String)
  | invalid (name : String)
  deriving DecidableEq, Repr

/-- `Raw`. -/
def raw (files : Fixtures) (name : String) : Except ParseError String :=
  if name = "" ∨ (cutAround "..".toList name.toList).isSome then .error (.unknownFixture name)
  else
    match files name with
    | none => .error (.unknownFixture name)
    | some text => .ok text

/-- Decode into a `map[string]any`: `null` leaves it nil, which is as good as empty. -/
def decodeMap (text : String) : Option (List (String × Any)) :=
  match (JsonText.parse text).bind (Any.ofJson false) with
  | some (.map entries) => some entries
  | some .nil => some []
  | _ => none

/-- `parse`. -/
def parse (files : Fixtures) (name : String) : Except ParseError (List (String × Any)) := do
  let text ← raw files name
  match decodeMap text with
  | none => .error (.invalid name)
  | some doc => .ok doc

/-- A file under a proper name is parsed. -/
theorem parse_eq_ok {files : Fixtures} {name text : String} {doc : List (String × Any)}
    (hname : ¬ (name = "" ∨ (cutAround "..".toList name.toList).isSome = true))
    (hfile : files name = some text) (hdoc : decodeMap text = some doc) :
    parse files name = .ok doc := by
  have hraw : raw files name = .ok text := by
    unfold raw
    rw [if_neg hname, hfile]
  unfold parse
  simp only [hraw, hdoc, bind, Except.bind]

/-- The shipped file `fixtures/jwks.json`. -/
def jwksText : String := String.ofList <| linesChars
  ["\x7b",
   "  \"keys\": [",
   "    \x7b",
   "      \"kty\": \"RSA\",",
   "      \"use\": \"sig\",",
   "      \"kid\": \"<kid>\",",
   "      \"alg\": \"RS256\",",
   "      \"n\": \"<n>\",",
   "      \"e\": \"AQAB\"",
   "    \x7d",
   "  ]",
   "\x7d"]

/-- The only key of the fixture `jwks`. -/
def keyTemplate : List (String × Any) :=
  [("kty", .string "RSA"), ("use", .string "sig"), ("kid", .string "<kid>"), ("alg", .string "RS256"),
   ("n", .string "<n>"), ("e", .string "AQAB")]

/-- The fixture `jwks`, decoded. -/
def jwksFixture : List (String × Any) := [("keys", .slice [.map keyTemplate])]

end Conformance
