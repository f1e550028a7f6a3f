import BackendKit.GoStd.Http
import BackendKit.GoStd.Net
import BackendKit.JwtAuth.Claims
import BackendKit.JwtAuth.Jwks

/-!
# The token middleware

`jwtauth.New` with its options, and `Middleware.Handler` (`jwtauth/middleware.go`): which
requests reach the next handler.

What `getKey` returns for a key id is arbitrary here: it depends on the state of the JWKS cache,
which is the subject of `BackendKit.JwtAuth.Jwks`. So are the functions of the packages outside
the repository (`Lib`). Of these, only the token parser needs an assumption, which is what its
documentation says (`Lib.Documented`).

* `Checks` lists the configured checks, each read off the list of options; `configured_new`
  relates the options to what `New` makes of them.
* `isNext_iff`: the request reaches the next handler exactly if it passes the checks.
* The checks do not include one of the issue time: `exact_iff`.
-/

open GoStd
open Duration (second)

namespace JwtAuth

/-! ### The token parser -/

/-- A UUID. -/
abbrev UUID := BitVec 128

/-- A token whose signature has not been looked at. -/
structure JwtToken where
  alg : String
  header : List (String × Json)
  signingInput : List Char
  signature : List UInt8
  payload : Json
  claims : SocrateClaims

/-- The options of `jwt.ParseWithClaims` that play a role. -/
inductive ParserOption where
  | validMethods (methods : List String)
  | expirationRequired
  | leeway (d : ℤ)
  | issuedAt
  | issuer (iss : String)
  | audience (auds : List String)
  deriving DecidableEq

/-- What `getKey` returns for a key id. -/
abbrev KeyLookup := String → Except Jwks.KeyLookupError PublicKey

/-- Why there is no key for a token. -/
inductive KeyfuncError where
  | unexpectedMethod (alg : String)
  | missingKid
  | lookup (err : Jwks.KeyLookupError)

/-- What is needed to take a token apart. -/
structure TokenFormat extends ClaimCodec where
  /-- The members of a token header. -/
  header : List UInt8 → Option (List (String × Json))

/-- The functions the middleware calls that are not in this repository. -/
structure Lib extends TokenFormat where
  /-- The signature check of an algorithm. -/
  verify : String → PublicKey → List Char → List UInt8 → Bool
  /-- `jwt.ParseWithClaims`, with the time it is called: the claims of a valid token. -/
  parseWithClaims : List ParserOption → String → (JwtToken → Except KeyfuncError PublicKey) → ℤ →
    Option SocrateClaims
  /-- `uuid.Parse`. -/
  parseUUID : String → Option UUID
  /-- `uuid.NewSHA1` in the DNS name space. -/
  newSHA1 : String → UUID

/-- Three parts in base64url: a header that names an algorithm, the claims, and a signature. -/
def unverified (fmt : TokenFormat) (token : String) : Option JwtToken :=
  match List.splitOn '.' token.toList with
  | [h, p, s] => do
    let header ← (Base64.decodeChars h).bind fmt.header
    let payload ← (Base64.decodeChars p).bind fmt.json
    let claims ← decodeClaims fmt.toClaimCodec payload
    let signature ← Base64.decodeChars s
    match Json.lookupLast "alg" header with
    | some (.str alg) =>
      some { alg, header, signingInput := h ++ '.' :: p, signature, payload, claims }
    | _ => none
  | _ => none

/-- The leeway that the options give. -/
def ParserOption.leewayOf (opts : List ParserOption) : ℤ :=
  (opts.filterMap fun o => match o with
    | .leeway d => some d
    | _ => none).getLast?.getD 0

/-- What an option demands of a token at the time `now`. The issue time is looked at only with
the option for it. -/
def ParserOption.Admits (leeway now : ℤ) (t : JwtToken) : ParserOption → Prop
  | .validMethods methods => t.alg ∈ methods
  | .expirationRequired => t.claims.expiresAt ≠ none
  | .leeway _ => True
  | .issuedAt => ∀ iat ∈ t.claims.issuedAt, iat - leeway ≤ now
  | .issuer iss => iss ≠ "" → t.claims.issuer = iss
  | .audience auds => auds ≠ [] → t.claims.audience ≠ [""] ∧ ∃ a ∈ t.claims.audience, a ∈ auds

/-- No option is given twice: of two the parser would keep the last. -/
def ParserOption.Once (opts : List ParserOption) : Prop :=
  (opts.map ParserOption.ctorIdx).Nodup

/-- What the documentation of `golang-jwt` says of `ParseWithClaims`: the signature must verify
under the key the callback returns, a claimed expiry and start time are always checked, and
everything else as the options say. -/
def Lib.Documented (lib : Lib) : Prop :=
  ∀ opts token keyfunc now claims, ParserOption.Once opts →
    (lib.parseWithClaims opts token keyfunc now = some claims ↔
      ∃ t key, unverified lib.toTokenFormat token = some t ∧ t.claims = claims ∧ keyfunc t = .ok key ∧
        lib.verify t.alg key t.signingInput t.signature = true ∧
        (∀ exp ∈ t.claims.expiresAt, now < exp + ParserOption.leewayOf opts) ∧
        (∀ nbf ∈ t.claims.notBefore, nbf - ParserOption.leewayOf opts ≤ now) ∧
        ∀ o ∈ opts, o.Admits (ParserOption.leewayOf opts) now t)

/-! ### Options -/

/-- Decides with the raw token and the claims whether a token has been revoked. -/
abbrev RevocationChecker := String → SocrateClaims → Option String

/-- The options of `New`. -/
inductive Opt where
  | withAudience (expectedAudience : String)
  | withAudiences (expectedAudiences : List String)
  | withErrorWriter (custom : Bool)
  | withRevocationCheck (fn : Option RevocationChecker)
  | withTenantClaim (name : String)
  | requireScopes (scopes : List String)
  | withLeeway (d : ℤ)
  | withMinRefetchInterval (d : ℤ)
  | withNegativeCacheTTL (d : ℤ)

structure Middleware where
  cache : Jwks.CacheConfig
  issuer : String
  audiences : List String
  audienceSet : Bool
  revocationCheck : Option RevocationChecker
  /-- An error writer is set. It decides how a rejection is written, not whether. -/
  customWriter : Bool
  tenantClaim : String
  tenantClaimSet : Bool
  requiredScopes : List String
  requiredScopesSet : Bool
  leeway : ℤ

/-- One turn of the loops over given values: empty strings and duplicates are ignored. -/
def addValue (set : List String) (a : String) : List String :=
  if a ≠ "" ∧ a ∉ set then set ++ [a] else set

theorem mem_foldl_addValue {values set : List String} {x : String} :
    x ∈ values.foldl addValue set ↔ x ∈ set ∨ (x ∈ values ∧ x ≠ "") := by
  induction values generalizing set with
  | nil => simp
  | cons a values ih =>
    have hadd : x ∈ addValue set a ↔ x ∈ set ∨ (x = a ∧ a ≠ "") := by
      unfold addValue
      split
      next hnew => simp [hnew.1]
      next hold =>
        -- `a` is empty or there already.
        constructor
        · exact .inl
        · rintro (h | ⟨rfl, hne⟩)
          · exact h
          · by_contra hnot
            exact hold ⟨hne, hnot⟩
    rw [List.foldl_cons, ih, hadd, List.mem_cons, or_assoc, or_and_right]
    refine or_congr_right (or_congr_left ?_)
    constructor
    · rintro ⟨rfl, hne⟩
      exact ⟨rfl, hne⟩
    · rintro ⟨rfl, hne⟩
      exact ⟨rfl, hne⟩

/-- A non-positive interval is ignored. -/
def setMinRefetchInterval (cfg : Jwks.CacheConfig) (d : ℤ) : Jwks.CacheConfig :=
  if h : 0 < d then { cfg with minRefetchInterval := d, minRefetchInterval_pos := h } else cfg

/-- A non-positive lifetime is ignored. -/
def setNegativeCacheTTL (cfg : Jwks.CacheConfig) (d : ℤ) : Jwks.CacheConfig :=
  if h : 0 < d then { cfg with negativeCacheTTL := d, negativeCacheTTL_pos := h } else cfg

/-- What an option does to the middleware. -/
def Opt.apply (m : Middleware) : Opt → Middleware
  | .withAudience a =>
    { m with audiences := if a = "" then [] else [a], audienceSet := decide (a ≠ "") }
  | .withAudiences values => { m with audiences := values.foldl addValue [], audienceSet := true }
  | .withErrorWriter custom => { m with customWriter := custom }
  | .withRevocationCheck fn => { m with revocationCheck := fn }
  | .withTenantClaim name => { m with tenantClaim := trimSpace name, tenantClaimSet := true }
  | .requireScopes scopes =>
    { m with
      requiredScopes := (scopes.map trimSpace).foldl addValue []
      requiredScopesSet := true }
  -- A negative leeway is ignored.
  | .withLeeway d => { m with leeway := if 0 ≤ d then d else m.leeway }
  | .withMinRefetchInterval d => { m with cache := setMinRefetchInterval m.cache d }
  | .withNegativeCacheTTL d => { m with cache := setNegativeCacheTTL m.cache d }

/-- The middleware before its options. -/
def base (jwksURL issuer : String) : Middleware where
  cache := { Jwks.defaultConfig with jwksURL }
  issuer := issuer
  audiences := []
  audienceSet := false
  revocationCheck := none
  customWriter := false
  tenantClaim := ""
  tenantClaimSet := false
  requiredScopes := []
  requiredScopesSet := false
  leeway := 60 * second

/-- `New`. -/
def new (jwksURL issuer : String) (opts : List Opt) : Middleware :=
  opts.foldl Opt.apply (base jwksURL issuer)

/-! ### The handler -/

/-- An error as the client gets it (`apierror.AppError`). -/
structure AppError where
  code : String
  statusCode : ℕ
  message : String
  deriving DecidableEq, Repr

/-- `apierror.Unauthorized`. -/
def unauthorized (msg : String) : AppError := ⟨"unauthorized", 401, msg⟩

/-- `apierror.Forbidden`. -/
def forbidden (msg : String) : AppError := ⟨"forbidden", 403, msg⟩

/-- The values of the context of an accepted request. What is not set has its zero value. -/
structure Context where
  rawJWT : String
  scopes : List String := []
  tenantID : Option UUID := none
  userID : Option UUID := none
  userSub : String := ""
  userEmail : String := ""
  userName : String := ""
  userRole : String := ""
  userPlan : String := ""
  appRoles : Json.StringMap := ∅
  tokenVersion : Int64 := 0
  authTime : Int64 := 0
  amr : Option (List String) := none
  audiences : List String := []

/-- What becomes of a request. A rejection for lack of a scope has a `WWW-Authenticate` header
that names the required ones. -/
inductive Outcome where
  | next (ctx : Context)
  | rejected (err : AppError) (wwwAuthenticate : Option (List String))

/-- The next handler is called. -/
def Outcome.isNext : Outcome → Bool
  | .next _ => true
  | .rejected _ _ => false

/-- The token of an `Authorization` header. -/
def extractBearer (r : Request) : Option String :=
  match cut ' ' (r.header.get "Authorization") with
  | some (scheme, token) => if scheme = "Bearer" then some token else none
  | none => none

namespace Middleware

/-- The options the token parser is called with. -/
def parserOptions (m : Middleware) : List ParserOption :=
  [.validMethods ["RS256"], .expirationRequired, .leeway m.leeway] ++
    (if m.issuer ≠ "" then [.issuer m.issuer] else []) ++
    (if m.audienceSet then [.audience m.audiences] else [])

/-- The callback that finds the key of a token. -/
def keyfunc (getKey : KeyLookup) (t : JwtToken) : Except KeyfuncError PublicKey :=
  if t.alg ∉ ["RS256", "RS384", "RS512"] then .error (.unexpectedMethod t.alg)
  else
    match Json.lookupLast "kid" t.header with
    | some (.str kid) =>
      if kid = "" then .error .missingKid
      else
        match getKey kid with
        | .ok key => .ok key
        | .error err => .error (.lookup err)
    | _ => .error .missingKid

/-- The claims with the scopes that the payload gives. -/
def attachScopes (codec : ClaimCodec) (token : String) (claims : SocrateClaims) : SocrateClaims :=
  match scopeClaims codec token with
  | .ok scopes => { claims with scopes, scopesErr := none }
  | .error err => { claims with scopes := [], scopesErr := some err }

/-- With a configured tenant claim, its value replaces the plain one. -/
def readTenant (codec : ClaimCodec) (m : Middleware) (token : String) (claims : SocrateClaims) :
    Option SocrateClaims :=
  if m.tenantClaimSet then
    match stringClaim codec token m.tenantClaim with
    | .ok tenant => some { claims with tenantID := tenant }
    | .error _ => none
  else some claims

/-- `validateToken`. All errors are answered alike, so none is told apart. -/
def validateToken (lib : Lib) (m : Middleware)
    (getKey : KeyLookup) (now : ℤ) (token : String) :
    Option SocrateClaims :=
  if m.audienceSet = true ∧ m.audiences = [] then none
  else
    match lib.parseWithClaims m.parserOptions token (keyfunc getKey) now with
    | none => none
    | some parsed =>
      m.readTenant lib.toClaimCodec token (attachScopes lib.toClaimCodec token parsed)

/-- The required scopes that a token lacks; `none`, the nil slice, means that it passes. -/
def missingScopes (m : Middleware) (claims : SocrateClaims) : Option (List String) :=
  if m.requiredScopes = [] then some []
  else if claims.scopesErr ≠ none then some m.requiredScopes
  else
    let missing := m.requiredScopes.filter (· ∉ claims.scopes)
    if missing = [] then none else some missing

/-- The audiences a token was accepted for. -/
def acceptedAudiences (m : Middleware) (tokenAud : List String) : List String :=
  tokenAud.foldl (fun out a =>
    if a = "" ∨ a ∈ out then out
    else if m.audienceSet = true ∧ a ∉ m.audiences then out
    else out ++ [a]) []

/-- The context of an accepted request. -/
def context (lib : Lib) (m : Middleware) (token : String) (claims : SocrateClaims)
    (tenantID : Option UUID) : Context where
  rawJWT := token
  scopes := claims.scopes
  tenantID := tenantID
  userID :=
    if claims.subject = "" then none
    else some ((lib.parseUUID claims.subject).getD (lib.newSHA1 ("socrate:" ++ claims.subject)))
  userSub := claims.subject
  userEmail := claims.email
  userName := claims.name
  userRole := claims.role
  userPlan := claims.plan
  appRoles := claims.appRoles
  tokenVersion := claims.tokenVersion
  authTime := claims.authTime
  amr := claims.amr
  audiences := m.acceptedAudiences claims.audience

/-- `Handler`. -/
def handler (lib : Lib) (m : Middleware)
    (getKey : KeyLookup) (now : ℤ) (r : Request) : Outcome :=
  match extractBearer r with
  | none => .rejected (unauthorized "missing or invalid authorization header") none
  | some token =>
    match m.validateToken lib getKey now token with
    | none => .rejected (unauthorized "invalid or expired token") none
    | some claims =>
      if (m.revocationCheck.bind fun check => check token claims) ≠ none then
        .rejected (unauthorized "token revoked") none
      else if m.requiredScopesSet = true ∧ m.missingScopes claims ≠ none then
        .rejected (forbidden "insufficient scope") (some m.requiredScopes)
      else if claims.tenantID = "" then .next (m.context lib token claims none)
      else
        match lib.parseUUID claims.tenantID with
        | none => .rejected (unauthorized "invalid tenant_id") none
        | some tenantID => .next (m.context lib token claims (some tenantID))

end Middleware

/-! ### The options in force -/

/-- What the last option says that says anything, or else the default. -/
def lastOf {β : Type} (f : Opt → Option β) (default : β) (opts : List Opt) : β :=
  (opts.filterMap f).getLast?.getD default

theorem lastOf_append {β : Type} (f : Opt → Option β) (default : β) (opts : List Opt) (o : Opt) :
    lastOf f default (opts ++ [o]) = (f o).getD (lastOf f default opts) := by
  unfold lastOf
  rw [List.filterMap_append]
  cases ho : f o with
  | none =>
    have hnil : List.filterMap f [o] = [] := by simp [ho]
    rw [hnil, List.append_nil, Option.getD_none]
  | some b =>
    have hone : List.filterMap f [o] = [b] := by simp [ho]
    rw [hone, List.getLast?_append, List.getLast?_singleton]
    rfl

/-- An audience option: `none` switches the check off. -/
def Opt.audiences? : Opt → Option (Option (List String))
  | .withAudience a => some (if a = "" then none else some [a])
  | .withAudiences values => some (some (values.filter (· ≠ "")))
  | _ => none

def Opt.checker? : Opt → Option (Option RevocationChecker)
  | .withRevocationCheck fn => some fn
  | _ => none

def Opt.tenantClaim? : Opt → Option (Option String)
  | .withTenantClaim name => some (some (trimSpace name))
  | _ => none

def Opt.scopes? : Opt → Option (Option (List String))
  | .requireScopes scopes => some (some ((scopes.map trimSpace).filter (· ≠ "")))
  | _ => none

/-- A negative leeway is ignored. -/
def Opt.leeway? : Opt → Option ℤ
  | .withLeeway d => if 0 ≤ d then some d else none
  | _ => none

/-- The audiences of which a token must name one, if there is a check. -/
def audiencesInForce (opts : List Opt) : Option (List String) := lastOf Opt.audiences? none opts

/-- The revocation check, if there is one. -/
def checkerInForce (opts : List Opt) : Option RevocationChecker := lastOf Opt.checker? none opts

/-- The claim that names the tenant, if it is not the plain `tenant_id`. -/
def tenantClaimInForce (opts : List Opt) : Option String := lastOf Opt.tenantClaim? none opts

/-- The required scopes, if there is a check. -/
def scopesInForce (opts : List Opt) : Option (List String) := lastOf Opt.scopes? none opts

/-- The leeway of the time checks. -/
def leewayInForce (opts : List Opt) : ℤ := lastOf Opt.leeway? (60 * second) opts

variable {opts : List Opt} {m : Middleware} {r : Request} {lib : Lib} {t : JwtToken} {now : ℤ}
  {claims : SocrateClaims}

/-- The empty string is never an audience in force. -/
theorem empty_notMem_audiencesInForce {auds : List String} (h : audiencesInForce opts = some auds) :
    "" ∉ auds := by
  induction opts using List.reverseRecOn with
  | nil => cases h
  | append_singleton opts o ih =>
    rw [audiencesInForce, lastOf_append] at h
    cases o with
    | withAudience a =>
      by_cases ha : a = ""
      · simp [Opt.audiences?, ha] at h
      · obtain rfl : [a] = auds := by simpa [Opt.audiences?, ha] using h
        simpa using Ne.symm ha
    | withAudiences values =>
      cases h
      simp
    | _ => exact ih h

/-- A flag and a list hold an optional list of values, whatever their order and number. -/
def Holds (flag : Bool) (values : List String) : Option (List String) → Prop
  | none => flag = false
  | some values' => flag = true ∧ ∀ a, a ∈ values ↔ a ∈ values'

theorem holds_foldl_addValue (values : List String) :
    Holds true (values.foldl addValue []) (some (values.filter (· ≠ ""))) := by
  refine ⟨rfl, fun a => ?_⟩
  rw [mem_foldl_addValue, List.mem_filter]
  simp

/-- The middleware has been configured by the options in force. -/
structure Configured (m : Middleware) (issuer : String) (opts : List Opt) : Prop where
  issuer : m.issuer = issuer
  audiences : Holds m.audienceSet m.audiences (audiencesInForce opts)
  checker : m.revocationCheck = checkerInForce opts
  tenantClaim : tenantClaimInForce opts = if m.tenantClaimSet then some m.tenantClaim else none
  scopes : Holds m.requiredScopesSet m.requiredScopes (scopesInForce opts)
  leeway : m.leeway = leewayInForce opts

variable {issuer : String} {getKey : KeyLookup}

/-- One more option. -/
theorem Configured.apply (h : Configured m issuer opts) (o : Opt) :
    Configured (o.apply m) issuer (opts ++ [o]) where
  issuer := by
    -- No option changes the issuer.
    cases o <;> exact h.issuer
  audiences := by
    rw [audiencesInForce, lastOf_append]
    cases o with
    | withAudience a =>
      by_cases ha : a = ""
      · simp [Opt.apply, Opt.audiences?, Holds, ha]
      · simp [Opt.apply, Opt.audiences?, Holds, ha]
    | withAudiences values => exact holds_foldl_addValue values
    | _ => exact h.audiences
  checker := by
    rw [checkerInForce, lastOf_append]
    cases o with
    | withRevocationCheck fn => rfl
    | _ => exact h.checker
  tenantClaim := by
    rw [tenantClaimInForce, lastOf_append]
    cases o with
    | withTenantClaim name => rfl
    | _ => exact h.tenantClaim
  scopes := by
    rw [scopesInForce, lastOf_append]
    cases o with
    | requireScopes scopes => exact holds_foldl_addValue (scopes.map trimSpace)
    | _ => exact h.scopes
  leeway := by
    rw [leewayInForce, lastOf_append]
    cases o with
    | withLeeway d =>
      have hleeway : m.leeway = lastOf Opt.leeway? (60 * second) opts := h.leeway
      by_cases hd : 0 ≤ d
      · simp [Opt.apply, Opt.leeway?, hd]
      · simp [Opt.apply, Opt.leeway?, hd, hleeway]
    | _ => exact h.leeway

/-- What `New` makes of its options. -/
theorem configured_new (jwksURL issuer : String) (opts : List Opt) :
    Configured (new jwksURL issuer opts) issuer opts := by
  unfold new
  induction opts using List.reverseRecOn with
  | nil => exact ⟨rfl, rfl, rfl, rfl, rfl, rfl⟩
  | append_singleton opts o ih =>
    rw [List.foldl_append]
    exact ih.apply o

/-! ### The configured checks -/

/-- The member of a payload with exactly this name. -/
def member? (name : String) : Json → Option Json
  | .obj members => Json.lookupLast name members
  | _ => none

/-- A tenant that is not there, or that is a UUID. -/
def TenantValue (lib : Lib) (tenant : String) : Prop :=
  tenant = "" ∨ (lib.parseUUID tenant).isSome = true

/-- The check of the tenant claim in force. A claim with a configured name must be absent or a
string; an empty name is no claim's name and lets no token pass. The plain `tenant_id` is what
the payload decodes to, where `null` counts as absent. -/
def TenantOk (lib : Lib) (t : JwtToken) : Option String → Prop
  | none => TenantValue lib t.claims.tenantID
  | some name => name ≠ "" ∧
    match member? name t.payload with
    | none => True
    | some (.str tenant) => TenantValue lib tenant
    | some _ => False

/-- The claims that a revocation check is given: with the scopes, and with the tenant that the
configured claim names. -/
def presented (lib : Lib) (opts : List Opt) (token : String) (t : JwtToken) : SocrateClaims :=
  let claims := Middleware.attachScopes lib.toClaimCodec token t.claims
  match tenantClaimInForce opts with
  | none => claims
  | some name =>
    match member? name t.payload with
    | some (.str tenant) => { claims with tenantID := tenant }
    | _ => { claims with tenantID := "" }

/-- A token that is well formed, signed and in time, from the right issuer for the right
audience. -/
structure Valid (lib : Lib) (issuer : String) (opts : List Opt)
    (getKey : KeyLookup) (now : ℤ) (token : String)
    (t : JwtToken) : Prop where
  decodes : unverified lib.toTokenFormat token = some t
  signature : t.alg = "RS256" ∧ ∃ kid key, kid ≠ "" ∧
    Json.lookupLast "kid" t.header = some (.str kid) ∧ getKey kid = .ok key ∧
    lib.verify "RS256" key t.signingInput t.signature = true
  exp : ∃ exp, t.claims.expiresAt = some exp ∧ now < exp + leewayInForce opts
  nbf : ∀ nbf, t.claims.notBefore = some nbf → nbf - leewayInForce opts ≤ now
  iss : issuer ≠ "" → t.claims.issuer = issuer
  aud : ∀ auds, audiencesInForce opts = some auds → ∃ a ∈ t.claims.audience, a ∈ auds

/-- The configured checks of a request with the token `t`, at the time `now`. -/
structure Checks (lib : Lib) (issuer : String) (opts : List Opt)
    (getKey : KeyLookup) (now : ℤ) (r : Request)
    (token : String) (t : JwtToken) : Prop extends Valid lib issuer opts getKey now token t where
  bearer : r.header.get "Authorization" = "Bearer " ++ token
  live : ∀ check, checkerInForce opts = some check → check token (presented lib opts token t) = none
  scopes : ∀ required, scopesInForce opts = some required → required ≠ [] ∧
    ∃ held, scopeClaims lib.toClaimCodec token = .ok held ∧ ∀ scope ∈ required, scope ∈ held
  tenant : TenantOk lib t (tenantClaimInForce opts)

/-! ### What the steps of the handler check -/

theorem extractBearer_eq_some {token : String} :
    extractBearer r = some token ↔ r.header.get "Authorization" = "Bearer " ++ token := by
  have hscheme : "Bearer " = "Bearer" ++ String.singleton ' ' := by decide
  rw [hscheme]
  constructor
  · intro h
    unfold extractBearer at h
    split at h
    next scheme rest hcut =>
      split_ifs at h with hbearer
      cases h
      rw [← hbearer]
      exact cut_eq_some hcut
    · cases h
  · intro h
    have hcut : cut ' ' (r.header.get "Authorization") = some ("Bearer", token) := by
      rw [h]
      exact cut_append (by decide)
    simp [extractBearer, hcut]

/-- The payload that is read again is the one of the token. -/
theorem payload_of_unverified {token : String} (h : unverified lib.toTokenFormat token = some t) :
    payload lib.toClaimCodec token = .ok t.payload ∧
      decodeClaims lib.toClaimCodec t.payload = some t.claims := by
  unfold unverified at h
  split at h
  next hd p sg hsplit =>
    simp only [Option.bind_eq_bind, Option.bind_eq_some_iff] at h
    obtain ⟨header, -, pl, hpl, claims, hclaims, sig, -, h⟩ := h
    split at h
    next alg halg =>
      cases h
      refine ⟨?_, hclaims⟩
      have hbind : (Base64.decodeChars p).bind lib.json = some pl :=
        Option.bind_eq_some_iff.mpr hpl
      simp [payload, hsplit, hbind]
    · cases h
  · cases h

theorem keyfunc_eq_ok {key : PublicKey} :
    Middleware.keyfunc getKey t = .ok key ↔ t.alg ∈ ["RS256", "RS384", "RS512"] ∧
      ∃ kid, kid ≠ "" ∧ Json.lookupLast "kid" t.header = some (.str kid) ∧ getKey kid = .ok key := by
  unfold Middleware.keyfunc
  by_cases halg : t.alg ∈ ["RS256", "RS384", "RS512"]
  · rw [if_neg (not_not.mpr halg)]
    split
    next kid hkid =>
      by_cases hempty : kid = ""
      · simp [hempty, hkid]
      · cases hget : getKey kid <;> simp [hempty, hget, hkid, halg]
    next hkid =>
      refine iff_of_false nofun ?_
      rintro ⟨-, kid, -, hlookup, -⟩
      exact hkid kid hlookup
  · simp [halg]

theorem leewayOf_parserOptions (m : Middleware) :
    ParserOption.leewayOf m.parserOptions = m.leeway := by
  unfold ParserOption.leewayOf Middleware.parserOptions
  split_ifs <;> rfl

/-- What the parser's options demand, in the words of the configuration. -/
theorem admits_parserOptions (h : Configured m issuer opts)
    (haud : ¬ (m.audienceSet = true ∧ m.audiences = [])) {leeway : ℤ} :
    (∀ o ∈ m.parserOptions, o.Admits leeway now t) ↔
      t.alg = "RS256" ∧ t.claims.expiresAt ≠ none ∧ (issuer ≠ "" → t.claims.issuer = issuer) ∧
        ∀ auds, audiencesInForce opts = some auds → ∃ a ∈ t.claims.audience, a ∈ auds := by
  have hiss : (∀ o ∈ (if m.issuer ≠ "" then [ParserOption.issuer m.issuer] else []),
      o.Admits leeway now t) ↔ (issuer ≠ "" → t.claims.issuer = issuer) := by
    rw [h.issuer]
    by_cases hempty : issuer = "" <;> simp [hempty, ParserOption.Admits]
  have hauds : (∀ o ∈ (if m.audienceSet then [ParserOption.audience m.audiences] else []),
      o.Admits leeway now t) ↔
      ∀ auds, audiencesInForce opts = some auds → ∃ a ∈ t.claims.audience, a ∈ auds := by
    have hholds := h.audiences
    cases hforce : audiencesInForce opts with
    | none =>
      rw [hforce] at hholds
      have hset : m.audienceSet = false := hholds
      simp [hset]
    | some auds =>
      rw [hforce] at hholds
      obtain ⟨hset, hmem⟩ := hholds
      have hne : m.audiences ≠ [] := fun hnil => haud ⟨hset, hnil⟩
      simp only [hset, if_true, List.mem_singleton, forall_eq, ParserOption.Admits, hne, ne_eq,
        not_false_eq_true, forall_const, hmem, Option.some.injEq, forall_eq']
      -- A token whose only audience is empty names none of the configured ones.
      refine ⟨And.right, fun hex => ⟨?_, hex⟩⟩
      intro hblank
      obtain ⟨a, ha, hain⟩ := hex
      rw [hblank, List.mem_singleton] at ha
      exact empty_notMem_audiencesInForce hforce (ha ▸ hain)
  unfold Middleware.parserOptions
  simp only [List.forall_mem_append, hiss, hauds, and_assoc]
  simp [ParserOption.Admits, and_assoc]

theorem once_parserOptions (m : Middleware) : ParserOption.Once m.parserOptions := by
  unfold ParserOption.Once Middleware.parserOptions
  split <;> split <;> simp [ParserOption.ctorIdx]

/-- The parser returns the claims of a valid token. -/
theorem parseWithClaims_iff (hlib : lib.Documented) (h : Configured m issuer opts)
    (haud : ¬ (m.audienceSet = true ∧ m.audiences = [])) {token : String} :
    lib.parseWithClaims m.parserOptions token (Middleware.keyfunc getKey) now = some claims ↔
      ∃ t, Valid lib issuer opts getKey now token t ∧ t.claims = claims := by
  rw [hlib _ _ _ _ _ (once_parserOptions m)]
  simp only [leewayOf_parserOptions, h.leeway, admits_parserOptions h haud, keyfunc_eq_ok]
  constructor
  · rintro ⟨t, key, hdecodes, rfl, ⟨-, kid, hkid, hheader, hget⟩, hverify, hexp, hnbf, halg,
      hsome, hiss, hauds⟩
    rw [halg] at hverify
    obtain ⟨exp, hsome⟩ := Option.ne_none_iff_exists'.mp hsome
    exact ⟨t, ⟨hdecodes, ⟨halg, kid, key, hkid, hheader, hget, hverify⟩,
      ⟨exp, hsome, hexp exp hsome⟩, hnbf, hiss, hauds⟩, rfl⟩
  · rintro ⟨t, hvalid, rfl⟩
    obtain ⟨halg, kid, key, hkid, hheader, hget, hverify⟩ := hvalid.signature
    obtain ⟨exp, hsome, hexp⟩ := hvalid.exp
    refine ⟨t, key, hvalid.decodes, rfl, ⟨by simp [halg], kid, hkid, hheader, hget⟩,
      by rwa [halg], ?_, hvalid.nbf, halg, by simp [hsome], hvalid.iss, hvalid.aud⟩
    -- the parser speaks of any expiry, `Valid` of the one there is
    intro exp' hexp'
    obtain rfl : exp = exp' := by simpa [hsome] using hexp'
    exact hexp

/-- An audience check without an audience lets no token pass. -/
theorem not_valid_of_no_audience (h : Configured m issuer opts)
    (haud : m.audienceSet = true ∧ m.audiences = []) {token : String} :
    ¬ Valid lib issuer opts getKey now token t := by
  intro hvalid
  have hholds := h.audiences
  cases hforce : audiencesInForce opts with
  | none =>
    rw [hforce] at hholds
    have hset : m.audienceSet = false := hholds
    simp [hset] at haud
  | some auds =>
    rw [hforce] at hholds
    obtain ⟨a, -, ha⟩ := hvalid.aud auds hforce
    have hmem := (hholds.2 a).mpr ha
    rw [haud.2] at hmem
    exact absurd hmem List.not_mem_nil

/-- Reading the configured tenant claim of a token. -/
theorem stringClaim_eq_ok {token name tenant : String}
    (h : unverified lib.toTokenFormat token = some t) :
    stringClaim lib.toClaimCodec token name = .ok tenant ↔ name ≠ "" ∧
      ((member? name t.payload = none ∧ tenant = "") ∨
        member? name t.payload = some (.str tenant)) := by
  obtain ⟨hpayload, hclaims⟩ := payload_of_unverified h
  unfold stringClaim
  by_cases hname : name = ""
  · simp [hname]
  rw [if_neg hname, hpayload]
  cases hp : t.payload with
  | obj members =>
    cases hm : Json.lookupLast name members with
    | none => simp [member?, hm, hname, eq_comm]
    | some v => cases v <;> simp [member?, hm, hname]
  | null => simp [member?, hname, eq_comm]
  | _ =>
    -- No other payload decodes into the claims.
    rw [hp] at hclaims
    cases hclaims

/-- The configured tenant claim can be read. -/
def TenantReadable (t : JwtToken) : Option String → Prop
  | none => True
  | some name => name ≠ "" ∧ (member? name t.payload = none ∨
      ∃ tenant, member? name t.payload = some (.str tenant))

theorem readTenant_eq_some (h : Configured m issuer opts) {token : String}
    (hdecodes : unverified lib.toTokenFormat token = some t) :
    m.readTenant lib.toClaimCodec token
        (Middleware.attachScopes lib.toClaimCodec token t.claims) = some claims ↔
      TenantReadable t (tenantClaimInForce opts) ∧ presented lib opts token t = claims := by
  unfold Middleware.readTenant presented
  rw [h.tenantClaim]
  by_cases hset : m.tenantClaimSet = true
  · simp only [hset, if_true, TenantReadable]
    cases hclaim : stringClaim lib.toClaimCodec token m.tenantClaim with
    | ok tenant =>
      obtain ⟨hname, ⟨hnone, rfl⟩ | hstr⟩ := (stringClaim_eq_ok hdecodes).mp hclaim
      · simp [hname, hnone]
      · simp [hname, hstr]
    | error err =>
      -- The claim cannot be read, and that is what makes it unreadable.
      refine iff_of_false nofun ?_
      rintro ⟨⟨hname, hnone | ⟨tenant, hstr⟩⟩, -⟩
      · have hok := (stringClaim_eq_ok hdecodes).mpr ⟨hname, .inl ⟨hnone, rfl⟩⟩
        rw [hclaim] at hok
        cases hok
      · have hok := (stringClaim_eq_ok hdecodes).mpr ⟨hname, .inr hstr⟩
        rw [hclaim] at hok
        cases hok
  · have hunset : m.tenantClaimSet = false := by simpa using hset
    simp [hunset, TenantReadable]

/-- `validateToken` accepts valid tokens with a readable tenant claim, and returns the claims as
they are presented to the revocation check. -/
theorem validateToken_eq_some (hlib : lib.Documented) (h : Configured m issuer opts)
    {token : String} :
    m.validateToken lib getKey now token = some claims ↔
      ∃ t, Valid lib issuer opts getKey now token t ∧ TenantReadable t (tenantClaimInForce opts) ∧
        presented lib opts token t = claims := by
  unfold Middleware.validateToken
  by_cases haud : m.audienceSet = true ∧ m.audiences = []
  · rw [if_pos haud]
    refine iff_of_false nofun ?_
    rintro ⟨t, hvalid, -⟩
    exact not_valid_of_no_audience h haud hvalid
  rw [if_neg haud]
  cases hparse : lib.parseWithClaims m.parserOptions token (Middleware.keyfunc getKey) now with
  | none =>
    refine iff_of_false nofun ?_
    rintro ⟨t, hvalid, -⟩
    have hsome := (parseWithClaims_iff hlib h haud).mpr ⟨t, hvalid, rfl⟩
    rw [hparse] at hsome
    cases hsome
  | some parsed =>
    obtain ⟨t, hvalid, rfl⟩ := (parseWithClaims_iff hlib h haud).mp hparse
    refine (readTenant_eq_some h hvalid.decodes).trans ⟨fun hread => ⟨t, hvalid, hread⟩, ?_⟩
    rintro ⟨t', hvalid', hread⟩
    -- A token decodes in one way only.
    obtain rfl : t = t' := by
      have hsame := hvalid.decodes.symm.trans hvalid'.decodes
      exact Option.some.inj hsame
    exact hread

theorem missingScopes_eq_none :
    m.missingScopes claims = none ↔ m.requiredScopes ≠ [] ∧ claims.scopesErr = none ∧
      ∀ scope ∈ m.requiredScopes, scope ∈ claims.scopes := by
  unfold Middleware.missingScopes
  by_cases hempty : m.requiredScopes = []
  · simp [hempty]
  by_cases herr : claims.scopesErr = none
  · simp [hempty, herr]
  · simp [hempty, herr]

/-- The ways through the handler that end at the next one. -/
theorem isNext_handler :
    (m.handler lib getKey now r).isNext = true ↔ ∃ token claims,
      extractBearer r = some token ∧ m.validateToken lib getKey now token = some claims ∧
      (∀ check, m.revocationCheck = some check → check token claims = none) ∧
      (m.requiredScopesSet = true → m.missingScopes claims = none) ∧
      TenantValue lib claims.tenantID := by
  unfold Middleware.handler
  cases hbearer : extractBearer r with
  | none => simp [Outcome.isNext]
  | some token =>
    cases hvalid : m.validateToken lib getKey now token with
    | none => simp [Outcome.isNext, hvalid]
    | some claims =>
      have hlive : (∀ check, m.revocationCheck = some check → check token claims = none) ↔
          (m.revocationCheck.bind fun check => check token claims) = none := by
        cases m.revocationCheck <;> simp
      have hscopes : (m.requiredScopesSet = true → m.missingScopes claims = none) ↔
          ¬ (m.requiredScopesSet = true ∧ m.missingScopes claims ≠ none) := by
        rw [not_and, not_not]
      simp only [Option.some.injEq, exists_and_left, exists_eq_left', hvalid, hlive, hscopes]
      split_ifs with hrevoked hmissing htenant
      · exact iff_of_false nofun fun h => hrevoked h.1
      · exact iff_of_false nofun fun h => h.2.1 hmissing
      · exact iff_of_true rfl ⟨not_not.mp hrevoked, hmissing, .inl htenant⟩
      · cases huuid : lib.parseUUID claims.tenantID with
        | none =>
          refine iff_of_false nofun ?_
          rintro ⟨-, -, hempty | hsome⟩
          · exact htenant hempty
          · simp [huuid] at hsome
        | some tenantID =>
          exact iff_of_true rfl ⟨not_not.mp hrevoked, hmissing, .inr (by simp [huuid])⟩

/-- The scopes that the claims are presented with. -/
theorem scopes_presented {token : String} {required : List String} :
    ((presented lib opts token t).scopesErr = none ∧
        ∀ scope ∈ required, scope ∈ (presented lib opts token t).scopes) ↔
      ∃ held, scopeClaims lib.toClaimCodec token = .ok held ∧ ∀ scope ∈ required, scope ∈ held := by
  -- The tenant does not matter here.
  have hsame : (presented lib opts token t).scopesErr =
        (Middleware.attachScopes lib.toClaimCodec token t.claims).scopesErr ∧
      (presented lib opts token t).scopes =
        (Middleware.attachScopes lib.toClaimCodec token t.claims).scopes := by
    unfold presented
    split
    · exact ⟨rfl, rfl⟩
    · split <;> exact ⟨rfl, rfl⟩
  rw [hsame.1, hsame.2]
  unfold Middleware.attachScopes
  cases hclaims : scopeClaims lib.toClaimCodec token <;> simp

/-- The tenant that the claims are presented with. -/
theorem tenantOk_iff {token : String} :
    TenantOk lib t (tenantClaimInForce opts) ↔ TenantReadable t (tenantClaimInForce opts) ∧
      TenantValue lib (presented lib opts token t).tenantID := by
  have hplain : (Middleware.attachScopes lib.toClaimCodec token t.claims).tenantID =
      t.claims.tenantID := by
    unfold Middleware.attachScopes
    split <;> rfl
  unfold presented
  cases tenantClaimInForce opts with
  | none => simp [TenantOk, TenantReadable, hplain]
  | some name =>
    cases hm : member? name t.payload with
    | none => simp [TenantOk, TenantReadable, hm, TenantValue]
    | some v => cases v <;> simp [TenantOk, TenantReadable, hm]

/-- The scope check, in the words of the options. -/
theorem missingScopes_presented (h : Configured m issuer opts) (token : String) (t : JwtToken) :
    (m.requiredScopesSet = true → m.missingScopes (presented lib opts token t) = none) ↔
      ∀ required, scopesInForce opts = some required → required ≠ [] ∧
        ∃ held, scopeClaims lib.toClaimCodec token = .ok held ∧
          ∀ scope ∈ required, scope ∈ held := by
  have hholds := h.scopes
  cases hforce : scopesInForce opts with
  | none =>
    rw [hforce] at hholds
    have hset : m.requiredScopesSet = false := hholds
    simp [hset]
  | some required =>
    rw [hforce] at hholds
    obtain ⟨hset, hmem⟩ := hholds
    have hnil : m.requiredScopes ≠ [] ↔ required ≠ [] := by
      simp only [ne_eq, List.eq_nil_iff_forall_not_mem, hmem]
    simp only [hset, forall_const, missingScopes_eq_none, hnil, hmem, scopes_presented,
      Option.some.injEq, forall_eq']

/-- The request reaches the next handler exactly if it passes the configured checks. -/
theorem isNext_iff (hlib : lib.Documented) (jwksURL issuer : String) (opts : List Opt)
    (getKey : KeyLookup) (now : ℤ) (r : Request) :
    ((new jwksURL issuer opts).handler lib getKey now r).isNext = true ↔
      ∃ token t, Checks lib issuer opts getKey now r token t := by
  have hconf := configured_new jwksURL issuer opts
  generalize new jwksURL issuer opts = m at hconf
  rw [isNext_handler]
  constructor
  · rintro ⟨token, claims, hbearer, hvalidate, hlive, hmissing, htenant⟩
    obtain ⟨t, hvalid, hreadable, rfl⟩ := (validateToken_eq_some hlib hconf).mp hvalidate
    exact ⟨token, t, { hvalid with
      bearer := extractBearer_eq_some.mp hbearer
      live := by rwa [← hconf.checker]
      scopes := (missingScopes_presented hconf token t).mp hmissing
      tenant := tenantOk_iff.mpr ⟨hreadable, htenant⟩ }⟩
  · rintro ⟨token, t, hchecks⟩
    obtain ⟨hreadable, htenant⟩ := tenantOk_iff.mp hchecks.tenant
    exact ⟨token, presented lib opts token t, extractBearer_eq_some.mpr hchecks.bearer,
      (validateToken_eq_some hlib hconf).mpr ⟨t, hchecks.toValid, hreadable, rfl⟩,
      by rw [hconf.checker]; exact hchecks.live,
      (missingScopes_presented hconf token t).mpr hchecks.scopes, htenant⟩

/-! ### The issue time -/

/-- A claimed issue time is not in the future, up to the leeway. -/
def IssuedInTime (opts : List Opt) (now : ℤ) (t : JwtToken) : Prop :=
  ∀ iat, t.claims.issuedAt = some iat → iat - leewayInForce opts ≤ now

/-- The request reaches the next handler exactly if it passes the configured checks and the
token's issue time holds within the leeway as its other times do. -/
def Exact (lib : Lib) (jwksURL issuer : String) (opts : List Opt)
    (getKey : KeyLookup) (now : ℤ) (r : Request) : Prop :=
  ((new jwksURL issuer opts).handler lib getKey now r).isNext = true ↔
    ∃ token t, Checks lib issuer opts getKey now r token t ∧ IssuedInTime opts now t

/-- A request has one token. -/
theorem Checks.unique {token token' : String} {t' : JwtToken}
    (h : Checks lib issuer opts getKey now r token t)
    (h' : Checks lib issuer opts getKey now r token' t') : t = t' := by
  obtain rfl : token = token' := by
    have hbearer := extractBearer_eq_some.mpr h.bearer
    rw [extractBearer_eq_some.mpr h'.bearer] at hbearer
    exact (Option.some.inj hbearer).symm
  have hdecodes := h.decodes
  rw [h'.decodes] at hdecodes
  exact (Option.some.inj hdecodes).symm

/-- **When acceptance is exact.** For every list of options, every request, every outcome of
`getKey` and every time, a request is accepted exactly on the configured checks and the issue
time, unless it passes all checks with a token whose issue time lies further in the future than
the leeway. -/
theorem exact_iff {lib : Lib} (hlib : lib.Documented) (jwksURL issuer : String) (opts : List Opt)
    (getKey : KeyLookup) (now : ℤ) (r : Request) :
    Exact lib jwksURL issuer opts getKey now r ↔
      ∀ token t, Checks lib issuer opts getKey now r token t → IssuedInTime opts now t := by
  unfold Exact
  rw [isNext_iff hlib]
  constructor
  · intro hexact token t hchecks
    obtain ⟨token', t', hchecks', hissued⟩ := hexact.mp ⟨token, t, hchecks⟩
    rw [hchecks.unique hchecks']
    exact hissued
  · intro hissued
    constructor
    · rintro ⟨token, t, hchecks⟩
      exact ⟨token, t, hchecks, hissued token t hchecks⟩
    · rintro ⟨token, t, hchecks, -⟩
      exact ⟨token, t, hchecks⟩

/-! ### A token parser that does what the documentation says -/

instance (leeway now : ℤ) (t : JwtToken) : (o : ParserOption) → Decidable (o.Admits leeway now t)
  | .validMethods methods => inferInstanceAs (Decidable (t.alg ∈ methods))
  | .expirationRequired => inferInstanceAs (Decidable (t.claims.expiresAt ≠ none))
  | .leeway _ => isTrue trivial
  | .issuedAt => inferInstanceAs (Decidable (∀ iat ∈ t.claims.issuedAt, iat - leeway ≤ now))
  | .issuer iss => inferInstanceAs (Decidable (iss ≠ "" → t.claims.issuer = iss))
  | .audience auds => inferInstanceAs (Decidable
      (auds ≠ [] → t.claims.audience ≠ [""] ∧ ∃ a ∈ t.claims.audience, a ∈ auds))

/-- Parse, find the key, verify, and validate the claims. -/
def referenceParse (fmt : TokenFormat) (verify : String → PublicKey → List Char → List UInt8 → Bool)
    (opts : List ParserOption) (token : String) (keyfunc : JwtToken → Except KeyfuncError PublicKey)
    (now : ℤ) : Option SocrateClaims :=
  match unverified fmt token with
  | none => none
  | some t =>
    match keyfunc t with
    | .error _ => none
    | .ok key =>
      if verify t.alg key t.signingInput t.signature = true ∧
          (∀ exp ∈ t.claims.expiresAt, now < exp + ParserOption.leewayOf opts) ∧
          (∀ nbf ∈ t.claims.notBefore, nbf - ParserOption.leewayOf opts ≤ now) ∧
          ∀ o ∈ opts, o.Admits (ParserOption.leewayOf opts) now t then
        some t.claims
      else none

/-- The library with that parser. -/
def referenceLib (fmt : TokenFormat) (verify : String → PublicKey → List Char → List UInt8 → Bool)
    (parseUUID : String → Option UUID) (newSHA1 : String → UUID) : Lib :=
  { fmt with verify, parseUUID, newSHA1, parseWithClaims := referenceParse fmt verify }

theorem documented_referenceLib (fmt : TokenFormat)
    (verify : String → PublicKey → List Char → List UInt8 → Bool)
    (parseUUID : String → Option UUID) (newSHA1 : String → UUID) :
    (referenceLib fmt verify parseUUID newSHA1).Documented := by
  intro opts token keyfunc now claims _
  show referenceParse fmt verify opts token keyfunc now = some claims ↔ _
  unfold referenceParse
  cases ht : unverified fmt token with
  | none =>
    refine iff_of_false nofun ?_
    rintro ⟨t, -, hsome, -⟩
    exact absurd (ht.symm.trans hsome) nofun
  | some t =>
    have hsame : ∀ t', unverified (referenceLib fmt verify parseUUID newSHA1).toTokenFormat token =
        some t' ↔ t = t' := fun t' => by
      show unverified fmt token = some t' ↔ t = t'
      rw [ht, Option.some.injEq]
    simp only [hsame, exists_and_left, exists_eq_left']
    cases hkey : keyfunc t with
    | error err => simp
    | ok key =>
      simp only [Except.ok.injEq, exists_eq_left', Option.ite_none_right_eq_some,
        Option.some.injEq, referenceLib]
      tauto

/-! ### A signed token -/

/-- The text of a token. -/
def compact (header payload signature : List UInt8) : String :=
  String.ofList (Base64.encodeChars header ++ '.' :: (Base64.encodeChars payload ++
    '.' :: Base64.encodeChars signature))

/-- A compact token has the three parts it was made of. -/
theorem splitOn_compact (hb pb sb : List UInt8) :
    List.splitOn '.' (compact hb pb sb).toList =
      [Base64.encodeChars hb, Base64.encodeChars pb, Base64.encodeChars sb] := by
  have hnodot : ∀ bs, ∀ c ∈ Base64.encodeChars bs, (c == '.') = false := by
    intro bs c hc
    refine beq_false_of_ne ?_
    rintro rfl
    exact Base64.dot_notMem_encodeChars bs hc
  rw [compact, String.toList_ofList, List.splitOn,
    List.splitOnP_append_cons_of_forall_mem (hnodot hb) '.' (by decide),
    List.splitOnP_append_cons_of_forall_mem (hnodot pb) '.' (by decide),
    List.splitOnP_eq_singleton (hnodot sb)]

/-- A compact token decodes to what it was made of. -/
theorem unverified_compact {fmt : TokenFormat} {hb pb sb : List UInt8}
    {header : List (String × Json)} {alg : String} {payload : Json}
    (hheader : fmt.header hb = some header) (halg : Json.lookupLast "alg" header = some (.str alg))
    (hpayload : fmt.json pb = some payload)
    (hclaims : decodeClaims fmt.toClaimCodec payload = some claims) :
    unverified fmt (compact hb pb sb) =
      some { alg, header, signature := sb, payload, claims
             signingInput := Base64.encodeChars hb ++ '.' :: Base64.encodeChars pb } := by
  simp [unverified, splitOn_compact, Base64.decodeChars_encodeChars, hheader, hpayload, hclaims,
    halg]

/-- RSASSA-PKCS1-v1_5 with SHA-256 (RFC 8017, section 8.2.2) on the messages whose digest is
known: the signature is a power of the encoded digest. -/
def rsaVerify (sha256 : List Char → Option ℕ) (alg : String) (key : PublicKey) (input : List Char)
    (signature : List UInt8) : Bool :=
  let k := (bitLen key.n + 7) / 8
  match sha256 input with
  | none => false
  | some digest =>
    let digestInfo := 0x3031300d060960864801650304020105000420
    let encoded := 2 ^ (8 * (k - 2) + 1) - 2 ^ 416 + digestInfo * 2 ^ 256 + digest
    alg = "RS256" && signature.length = k && bigEndian signature ^ key.e % key.n = encoded

/-- The big-endian bytes of a list of 16-byte words. -/
def wordBytes (words : List ℕ) : List UInt8 :=
  words.flatMap fun w => (List.range 16).map fun i => UInt8.ofNat (w / 256 ^ (15 - i))

/-- A key of 2049 bits, the product of two primes. -/
def signingKey : PublicKey where
  n := (2 ^ 1024 + 643) * (2 ^ 1024 + 1081)
  e := 3
  bitLen_n := by decide +kernel
  three_le_e := by decide
  e_le := by decide
  odd_e := by decide

def headerText : String := "\x7b\"alg\":\"RS256\",\"kid\":\"k1\"\x7d"

def payloadText : String := "\x7b\"exp\":2000003600,\"iat\":2000000000\x7d"

/-- The signature of the two under `signingKey`. -/
def signatureBytes : List UInt8 := 0 :: wordBytes
  [0x413371cbb85d98c2bb3a696b68b56cc0, 0x958407afcecd53e87185662d7de965a2,
    0x84a2d31c4fbd9c2a827599abe2c80310, 0xd5adccf1a662e3eea0fe02e3d6c56a2e,
    0x047e8fd044aed4b1248ae4166137318f, 0x2f2e6904e6d6c722788b65a02757beb1,
    0xcc721b6b82706b9fcc42fa6f5e99d374, 0xe030af78180f349463e09a8276822f5a,
    0x9cc075c8ef9a286505e3fb8b014f0d3a, 0x6727fb5ac2f3d01cfe17cc48674a3233,
    0xabed9122e23275ea632c166685ca9ec4, 0xa1902690796242effe43c451d1eac4c8,
    0x8fea6b9f5f6c039373c180461ed853c4, 0x102f9951b38feac535e444471ba067cd,
    0xc6940aac8b1a916619017b6d39902516, 0xe74d00a963211eb726f49ff732892001]

/-- What becomes of the two texts. -/
def signedFormat : TokenFormat where
  json bytes :=
    if bytes = ascii payloadText then
      some (.obj [("exp", .num "2000003600"), ("iat", .num "2000000000")])
    else none
  header bytes :=
    if bytes = ascii headerText then some [("alg", .str "RS256"), ("kid", .str "k1")] else none
  numericDate
    | .num literal => (Json.parseInt64 literal).map fun i => i.toInt * second
    | _ => none
  claimStrings old
    | .null => some old
    | .str s => some [s]
    | .arr vs => vs.mapM (Json.intoString "")
    | _ => none

/-- The digest of the signed text. -/
def signedDigest (input : List Char) : Option ℕ :=
  if input = Base64.encodeChars (ascii headerText) ++
      '.' :: Base64.encodeChars (ascii payloadText) then
    some 0x840fe2c87c2535e22a33a46c9c59521f0856deece941b7e8c3255de6d0d247b0
  else none

def signedLib : Lib :=
  referenceLib signedFormat (rsaVerify signedDigest) (fun _ => none) (fun _ => 0)

def signedToken : String := compact (ascii headerText) (ascii payloadText) signatureBytes

/-- A request with the signed token. -/
def signedRequest : Request where
  method := "GET"
  header := Header.empty.set "Authorization" ("Bearer " ++ signedToken)

/-- The key cache knows `signingKey`. -/
def signedKeys (kid : String) : Except Jwks.KeyLookupError PublicKey :=
  if kid = "k1" then .ok signingKey else .error (.notFound kid)

/-- What the token decodes to. -/
def signedJwt : JwtToken where
  alg := "RS256"
  header := [("alg", .str "RS256"), ("kid", .str "k1")]
  signingInput := Base64.encodeChars (ascii headerText) ++
    '.' :: Base64.encodeChars (ascii payloadText)
  signature := signatureBytes
  payload := .obj [("exp", .num "2000003600"), ("iat", .num "2000000000")]
  claims :=
    { expiresAt := some (2000003600 * second)
      issuedAt := some (2000000000 * second) }

theorem verify_signedJwt :
    signedLib.verify "RS256" signingKey signedJwt.signingInput signedJwt.signature = true := by
  have hverify : signedLib.verify = rsaVerify signedDigest := rfl
  rw [hverify]
  decide +kernel

theorem unverified_signedToken : unverified signedFormat signedToken = some signedJwt := by
  apply unverified_compact
  · simp [signedFormat]
  · rfl
  · simp [signedFormat]
  · rfl

/-- The signed token passes the checks of a middleware without options until it expires. -/
theorem checks_signedRequest (now : ℤ) (hnow : now < 2000003600 * second) :
    Checks signedLib "" [] signedKeys now signedRequest signedToken signedJwt where
  decodes := unverified_signedToken
  signature := ⟨rfl, "k1", signingKey, by decide, by rfl, by simp [signedKeys], verify_signedJwt⟩
  exp := by
    have hleeway : 0 < leewayInForce [] := by decide
    refine ⟨2000003600 * second, rfl, ?_⟩
    omega
  nbf := nofun
  iss h := absurd rfl h
  aud := nofun
  bearer := by
    simp [Header.get, signedRequest, canonicalKey_authorization,
      Header.values_set_self canonicalKey_authorization]
  live := nofun
  scopes := nofun
  tenant := .inl rfl

/-- A token that will be issued three years from now is accepted today. -/
theorem not_exact : signedLib.Documented ∧
    ¬ Exact signedLib "https://socrate.example/jwks" "" [] signedKeys (1900000000 * second)
      signedRequest := by
  have hdoc : signedLib.Documented := documented_referenceLib _ _ _ _
  refine ⟨hdoc, fun hexact => ?_⟩
  have hchecks := checks_signedRequest (1900000000 * second) (by decide)
  obtain ⟨token, t, hchecks', hissued⟩ :=
    hexact.mp ((isNext_iff hdoc _ _ _ _ _ _).mpr ⟨_, _, hchecks⟩)
  rw [← hchecks.unique hchecks'] at hissued
  exact absurd (hissued _ rfl) (by decide)

/-- The same token, a hundred seconds after its issue. -/
theorem exact_signedRequest : signedLib.Documented ∧
    Exact signedLib "https://socrate.example/jwks" "" [] signedKeys (2000000100 * second)
      signedRequest := by
  have hdoc : signedLib.Documented := documented_referenceLib _ _ _ _
  refine ⟨hdoc, (exact_iff hdoc _ _ _ _ _ _).mpr fun token t hchecks => ?_⟩
  have hsigned := checks_signedRequest (2000000100 * second) (by decide)
  rw [hchecks.unique hsigned]
  intro iat hiat
  cases hiat
  decide

end JwtAuth
