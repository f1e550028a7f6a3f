import BackendKit.Bff.Gateway
import BackendKit.GoStd.Base64
import BackendKit.GoStd.Json

/-!
# The token endpoint

What `socrate.Client` makes of an answer of `/oauth/token` (`socrate/bff.go`,
`socrate/client.go`): the refresh grant, whose answer becomes a `TokenSet`, and the
client-credentials grant, whose answer becomes a `TokenResponse` and an expiry.

The endpoint is a function of the form that is posted to it, so it may answer anything. The text
layer of JSON is a parameter (`Wire`), the decoding of the values is `GoStd.Json`.

Both grants read the body alike, and both decode a body without `access_token` into an empty
token. Only the second looks at it (`accessToken_ne_of_exchangeClientCredentials`).
-/

open GoStd

namespace Socrate

open Bff (OAuthError ErrorValue)

/-- An error of this package, with what it wraps. -/
abbrev Failure := GoStd.Error ErrorValue

/-- `errors.New(text)`. -/
def errorsNew (text : String) : Failure := .leaf (.other text)

/-- `fmt.Errorf(context + ": %w", err)` for an error with a text of its own. -/
def wrapText (context text : String) : Failure :=
  .wrap (.other (context ++ ": " ++ text)) (errorsNew text)

/-- How the bytes of a body are read. -/
structure Wire where
  /-- The value a JSON text stands for. -/
  json : List UInt8 → Option Json
  /-- What `json.Unmarshal` says of a body that it does not decode. -/
  complaint : List UInt8 → String
  /-- The bytes as a string. -/
  text : List UInt8 → String

/-- An answer over HTTP. The body may break off with an error. -/
structure Response where
  status : ℤ
  body : List UInt8
  broken : Option String := none

/-- A token endpoint: what becomes of a form that is posted to it. -/
abbrev Endpoint := List (String × String) → Except String Response

/-- The credentials of a client. -/
structure Client where
  clientID : String
  clientSecret : String

/-- How much of a body is read: 10 MiB. -/
def maxResponseBytes : ℕ := 10485760

/-- Read the body, up to one byte over the limit. -/
def readBody (resp : Response) : Except String (List UInt8) :=
  -- A body that is too long is not read to where it breaks off.
  if maxResponseBytes < resp.body.length then .error "socrate: response exceeds 10485760 bytes"
  else
    match resp.broken with
    | some err => .error err
    | none => .ok resp.body

/-- `OAuthError.Error`. -/
def oauthErrorText (e : OAuthError) : String :=
  if e.code ≠ "" then "token endpoint: " ++ e.code ++ ": " ++ e.description
  else "token endpoint HTTP " ++ toString e.statusCode ++ ": " ++ e.description

/-- `json.Unmarshal` into the `error` and `error_description` of RFC 6749. -/
def decodeOAuthError : Json → Option (String × String)
  | .null => some ("", "")
  | .obj members => do
    let error ← Json.decodeField Json.intoString "" "error" members
    let description ← Json.decodeField Json.intoString "" "error_description" members
    return (error, description)
  | _ => none

/-- The error of an answer that is not a 200. -/
def newOAuthError (wire : Wire) (status : ℤ) (b : List UInt8) : OAuthError :=
  match (wire.json b).bind decodeOAuthError with
  | some (error, description) =>
    if error ≠ "" then ⟨status, error, description⟩ else ⟨status, "", wire.text b⟩
  | none => ⟨status, "", wire.text b⟩

/-! ### The refresh grant -/

/-- The answer of the endpoint to the grants that are made for a user. -/
structure TokenSet where
  accessToken : String := ""
  refreshToken : String := ""
  idToken : String := ""
  tokenType : String := ""
  expiresIn : Int64 := 0
  scope : String := ""
  /-- `none` is the nil slice. -/
  roles : Option (List String) := none
  appRoles : Json.StringMap := ∅

/-- The part of a token set that a session keeps. -/
def TokenSet.forSession (ts : TokenSet) : Bff.TokenSet where
  accessToken := ts.accessToken
  refreshToken := ts.refreshToken
  idToken := ts.idToken
  expiresIn := ts.expiresIn.toInt

/-- `json.Unmarshal` into a `TokenSet`. -/
def TokenSet.ofJson : Json → Option TokenSet
  | .null => some {}
  | .obj members => do
    let accessToken ← Json.decodeField Json.intoString "" "access_token" members
    let refreshToken ← Json.decodeField Json.intoString "" "refresh_token" members
    let idToken ← Json.decodeField Json.intoString "" "id_token" members
    let tokenType ← Json.decodeField Json.intoString "" "token_type" members
    let expiresIn ← Json.decodeField Json.intoInt64 0 "expires_in" members
    let scope ← Json.decodeField Json.intoString "" "scope" members
    let roles ← Json.decodeField Json.intoStrings none "roles" members
    let appRoles ← Json.decodeField Json.intoStringMap ∅ "app_roles" members
    return { accessToken, refreshToken, idToken, tokenType, expiresIn, scope, roles, appRoles }
  | _ => none

/-- Decode an answer of the endpoint. Every 200 whose body decodes is a token set. -/
def decodeTokenSet (wire : Wire) (resp : Response) : Except Failure TokenSet :=
  match readBody resp with
  | .error err => .error (wrapText "read token response" err)
  | .ok b =>
    if resp.status ≠ 200 then .error (.leaf (.oauth (newOAuthError wire resp.status b)))
    else
      match (wire.json b).bind TokenSet.ofJson with
      | none => .error (wrapText "decode token response" (wire.complaint b))
      | some ts => .ok ts

/-- The form of the refresh grant. -/
def Client.refreshForm (c : Client) (refreshToken : String) : List (String × String) :=
  [("grant_type", "refresh_token"), ("refresh_token", refreshToken), ("client_id", c.clientID)] ++
    if c.clientSecret ≠ "" then [("client_secret", c.clientSecret)] else []

/-- Exchange a refresh token for a token set. -/
def Client.refreshToken (c : Client) (wire : Wire) (endpoint : Endpoint) (token : String) :
    Except Failure TokenSet :=
  match endpoint (c.refreshForm token) with
  | .error err => .error (wrapText "refresh token" err)
  | .ok resp => decodeTokenSet wire resp

/-- A client is the refresher of a gateway. It never returns a nil token set without an error. -/
def Client.refresher (c : Client) (wire : Wire) (endpoint : Endpoint) : Bff.TokenRefresher :=
  fun token => (c.refreshToken wire endpoint token).map fun ts => some ts.forSession

/-! ### The client-credentials grant -/

/-- The answer of the endpoint to the client-credentials grant. -/
structure TokenResponse where
  accessToken : String := ""
  expiresIn : Int64 := 0
  tokenType : String := ""
  /-- A `json.RawMessage`; `none` if there is no such member. -/
  scope : Option Json := none

/-- `json.Unmarshal` into a `tokenResponse`. -/
def TokenResponse.ofJson : Json → Option TokenResponse
  | .null => some {}
  | .obj members => do
    let accessToken ← Json.decodeField Json.intoString "" "access_token" members
    let expiresIn ← Json.decodeField Json.intoInt64 0 "expires_in" members
    let tokenType ← Json.decodeField Json.intoString "" "token_type" members
    return { accessToken, expiresIn, tokenType, scope := Json.rawField "scope" members }
  | _ => none

/-- How long a token without any expiry is trusted. -/
def unknownTokenLifetime : ℤ := Duration.minute

/-- `json.Unmarshal` into a struct with the `exp` claim. -/
def decodeExp : Json → Option Int64
  | .null => some 0
  | .obj members => Json.decodeField Json.intoInt64 0 "exp" members
  | _ => none

/-- The `exp` claim of an access token that has the three parts of a JWT. -/
def expClaim (wire : Wire) (token : String) : Option Int64 :=
  match List.splitOn '.' token.toList with
  | [_, payload, _] => ((Base64.decodeChars payload).bind wire.json).bind decodeExp
  | _ => none

/-- When a token expires that was asked for at `sent`: by its own claim, by `expires_in`, or
soon. -/
def tokenExpiry (wire : Wire) (tr : TokenResponse) (sent : ℤ) : ℤ :=
  let counted :=
    if 0 < tr.expiresIn then sent + Duration.seconds tr.expiresIn.toInt
    else sent + unknownTokenLifetime
  match expClaim wire tr.accessToken with
  | some exp => if sent / Duration.second < exp.toInt then Time.unix exp else counted
  | none => counted

/-- The form of the client-credentials grant. -/
def Client.credentialsForm (c : Client) (scope : String) : List (String × String) :=
  [("grant_type", "client_credentials"), ("client_id", c.clientID),
    ("client_secret", c.clientSecret)] ++ if scope ≠ "" then [("scope", scope)] else []

/-- What an answer of the endpoint to the client-credentials grant comes to: `httpErr` makes the
error of an answer that is not a 200. -/
def exchangeClientCredentials (wire : Wire) (httpErr : ℤ → List UInt8 → Failure) (sent : ℤ) :
    Except String Response → Except Failure (TokenResponse × ℤ)
  | .error err => .error (wrapText "token exchange" err)
  | .ok resp =>
    match readBody resp with
    | .error err => .error (wrapText "read token response" err)
    | .ok b =>
      if resp.status ≠ 200 then .error (httpErr resp.status b)
      else
        match (wire.json b).bind TokenResponse.ofJson with
        | none => .error (wrapText "decode token response" (wire.complaint b))
        | some tr =>
          if tr.accessToken = "" then
            .error (errorsNew "token exchange: no access_token in the response")
          else .ok (tr, tokenExpiry wire tr sent)

/-- The client-credentials grant yields what the body of a 200 decodes to, if that has a token. -/
theorem exchangeClientCredentials_eq_ok {wire : Wire} {httpErr : ℤ → List UInt8 → Failure}
    {sent expiry : ℤ} {answer : Except String Response} {tr : TokenResponse} :
    exchangeClientCredentials wire httpErr sent answer = .ok (tr, expiry) ↔
      ∃ resp b, answer = .ok resp ∧ readBody resp = .ok b ∧ resp.status = 200 ∧
        (wire.json b).bind TokenResponse.ofJson = some tr ∧ tr.accessToken ≠ "" ∧
        expiry = tokenExpiry wire tr sent := by
  constructor
  · intro h
    unfold exchangeClientCredentials at h
    split at h
    · cases h
    rename_i resp
    split at h
    · cases h
    rename_i b hb
    split at h
    · cases h
    rename_i hstatus
    split at h
    · cases h
    rename_i tr' htr
    split at h
    · cases h
    · rename_i htoken
      cases h
      exact ⟨resp, b, rfl, hb, not_not.mp hstatus, htr, htoken, rfl⟩
  · rintro ⟨resp, b, rfl, hb, hstatus, htr, htoken, rfl⟩
    simp [exchangeClientCredentials, hb, hstatus, htr, htoken]

/-- The client-credentials grant never yields an empty token. -/
theorem accessToken_ne_of_exchangeClientCredentials {wire : Wire}
    {httpErr : ℤ → List UInt8 → Failure} {sent expiry : ℤ} {answer : Except String Response}
    {tr : TokenResponse}
    (h : exchangeClientCredentials wire httpErr sent answer = .ok (tr, expiry)) :
    tr.accessToken ≠ "" := by
  obtain ⟨-, -, -, -, -, -, htoken, -⟩ := exchangeClientCredentials_eq_ok.mp h
  exact htoken

/-- The refresh grant yields every token set that the body of a 200 decodes to. -/
theorem Client.refreshToken_eq_ok {c : Client} {wire : Wire} {endpoint : Endpoint}
    {token : String} {ts : TokenSet} :
    c.refreshToken wire endpoint token = .ok ts ↔
      ∃ resp b, endpoint (c.refreshForm token) = .ok resp ∧ readBody resp = .ok b ∧
        resp.status = 200 ∧ (wire.json b).bind TokenSet.ofJson = some ts := by
  unfold Client.refreshToken decodeTokenSet
  constructor
  · intro h
    split at h
    · cases h
    rename_i resp hresp
    split at h
    · cases h
    rename_i b hb
    split at h
    · cases h
    rename_i hstatus
    split at h
    · cases h
    · rename_i hts
      cases h
      exact ⟨resp, b, hresp, hb, not_not.mp hstatus, hts⟩
  · rintro ⟨resp, b, hresp, hb, hstatus, hts⟩
    simp [hresp, hb, hstatus, hts]

end Socrate
