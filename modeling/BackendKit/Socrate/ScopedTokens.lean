import BackendKit.Socrate.Scopes
import BackendKit.Socrate.TokenEndpoint
import BackendKit.ToMathlib.CallSystem
import Mathlib.Data.List.AList

/-!
# Service tokens with scopes

`ServiceTokenWithScopes` and `InvalidateServiceToken` (`socrate/service_token_scopes.go`,
`socrate/client.go`), called any number of times and interleaved in any way (`CallSystem`).

An entry of the cache is looked up under the lock of the map and filled under its own lock. The two
are not held together, so an entry may be evicted, or dropped by an invalidation, while a call still
waits for it or exchanges a token for it. Entries therefore have addresses: the map has the address
of the entry of a key, and a call keeps the address that it was given (`Frame`).

Clock readings, the order in which the map is ranged over and the answers of the token endpoint are
arbitrary.
-/

open GoStd

namespace Socrate

/-- What the exchanges of a client depend on. -/
structure ServiceClient where
  client : Client
  wire : Wire
  /-- A string as the verb `%q` prints it. -/
  quote : String → String

/-- How many distinct scope sets are cached. -/
def maxScopedServiceTokens : ℕ := 16

/-- How long before its expiry a cached token is exchanged again. -/
def serviceTokenRenewBefore : ℤ := 30 * Duration.second

/-! ### One exchange -/

/-- `ErrScopeNotGranted`. -/
def errScopeNotGranted : Failure := errorsNew "socrate: scope not granted"

/-- An error that wraps `ErrScopeNotGranted`. -/
def notGranted (detail : String) : Failure :=
  .wrap (.other ("socrate: scope not granted: " ++ detail)) errScopeNotGranted

/-- The error of an answer that is not a 200. -/
def scopedHTTPError (wire : Wire) (status : ℤ) (body : List UInt8) : Failure :=
  let oe := newOAuthError wire status body
  if oe.code = "invalid_scope" then
    .node (.other ("socrate: scope not granted: " ++ oauthErrorText oe))
      [errScopeNotGranted, .leaf (.oauth oe)]
  else .leaf (.oauth oe)

namespace ServiceClient

/-- What is wrong with the granted scope of a response. -/
def checkGranted (sv : ServiceClient) (set : List String) : Option Json → Option Failure
  | none | some .null => none
  | some (.str grantedScope) =>
    let missing := set.filter fun s => !(fields grantedScope).contains s
    if missing ≠ [] then
      some (notGranted ("the token response lacks " ++ sv.quote (" ".intercalate missing) ++
        " (granted " ++ sv.quote grantedScope ++ ")"))
    else none
  | some _ => some (notGranted "the token response's scope is not a string")

/-- What an answer to the request for a scope set comes to: the token and its expiry. -/
def exchangeScoped (sv : ServiceClient) (set : List String) (sent : ℤ)
    (answer : Except String Response) : Except Failure (String × ℤ) :=
  match exchangeClientCredentials sv.wire (scopedHTTPError sv.wire) sent answer with
  | .error err => .error err
  | .ok (tr, expiry) =>
    match sv.checkGranted set tr.scope with
    | some err => .error err
    | none => .ok (tr.accessToken, expiry)

/-- The error for a list of scopes that is not accepted. -/
def scopesFailure (sv : ServiceClient) : ScopesError → Failure
  | .noScope => errorsNew
    "socrate: ServiceTokenWithScopes needs at least one scope (use ServiceToken for the default scope)"
  | .invalid s => errorsNew
    ("socrate: invalid scope " ++ sv.quote s ++ ": not an RFC 6749 scope-token")

end ServiceClient

/-- A response with this granted scope is taken for the scope set: there is none, or it is a string
with all scopes of the set. -/
def ScopeGranted (set : List String) (scope : Option Json) : Prop :=
  scope = none ∨ scope = some .null ∨
    ∃ granted, scope = some (.str granted) ∧ ∀ s ∈ set, s ∈ fields granted

/-- The answer is a 200 with the access token, for the scope set. -/
def Grants (wire : Wire) (set : List String) (answer : Except String Response) (token : String) :
    Prop :=
  ∃ resp b tr, answer = .ok resp ∧ readBody resp = .ok b ∧ resp.status = 200 ∧
    (wire.json b).bind TokenResponse.ofJson = some tr ∧ tr.accessToken = token ∧ token ≠ "" ∧
    ScopeGranted set tr.scope

theorem ServiceClient.scopeGranted_of_checkGranted {sv : ServiceClient} {set : List String}
    {scope : Option Json} (h : sv.checkGranted set scope = none) : ScopeGranted set scope := by
  unfold ServiceClient.checkGranted at h
  split at h
  · exact .inl rfl
  · exact .inr (.inl rfl)
  · rename_i granted
    -- nothing is missing, so every scope is among the fields
    have hall : ∀ s ∈ set, s ∈ fields granted := by simpa using h
    exact .inr (.inr ⟨granted, rfl, hall⟩)
  · cases h

/-- A token comes from an answer that grants the scope set. -/
theorem ServiceClient.grants_of_exchangeScoped {sv : ServiceClient} {set : List String} {sent : ℤ}
    {answer : Except String Response} {token : String} {expiry : ℤ}
    (h : sv.exchangeScoped set sent answer = .ok (token, expiry)) :
    Grants sv.wire set answer token := by
  unfold ServiceClient.exchangeScoped at h
  split at h
  · cases h
  rename_i tr expiry' hexchange
  split at h
  · cases h
  rename_i hcheck
  cases h
  obtain ⟨resp, b, hanswer, hb, hstatus, htr, htoken, -⟩ :=
    exchangeClientCredentials_eq_ok.mp hexchange
  exact ⟨resp, b, tr, hanswer, hb, hstatus, htr, rfl, htoken,
    ServiceClient.scopeGranted_of_checkGranted hcheck⟩

/-! ### The state that the calls share -/

/-- The cache entry of one scope set. -/
structure ScopedServiceToken where
  token : String := ""
  expiry : ℤ := Time.zero
  /-- The tick of the last lookup; a `uint64` in the code, which no run is long enough to wrap. -/
  lastUsed : ℕ
  /-- The lock of the entry is taken. -/
  locked : Bool := false

/-- The fields of the client that the calls share. -/
structure Shared where
  svcToken : String
  svcTokenExpiry : ℤ
  /-- The map `scoped`: the address of the entry of a key. The nil map is the empty one. -/
  scopedTokens : AList fun _ : String => ℕ
  scopedTick : ℕ
  /-- The entries that were made, by their addresses, and the next address. -/
  heap : ℕ → ScopedServiceToken
  next : ℕ

namespace Shared

/-- Write to an entry. -/
def set (sh : Shared) (p : ℕ) (e : ScopedServiceToken) : Shared :=
  { sh with heap := Function.update sh.heap p e }

/-- Lock or unlock an entry. -/
def setLock (sh : Shared) (p : ℕ) (locked : Bool) : Shared :=
  sh.set p { sh.heap p with locked }

/-- When the entry of a key was looked up last. -/
def lastUsed (sh : Shared) (key : String) : ℕ :=
  match sh.scopedTokens.lookup key with
  | some p => (sh.heap p).lastUsed
  | none => 0

/-- The body of the loop for the oldest entry: its key and its tick so far. -/
def older (sh : Shared) (found : String × ℕ) (k : String) : String × ℕ :=
  if found.1 = "" ∨ sh.lastUsed k < found.2 then (k, sh.lastUsed k) else found

/-- The loop over the map, in the given order. -/
def oldest (sh : Shared) (order : List String) : String × ℕ := order.foldl sh.older ("", 0)

/-- The map with room for one more entry. -/
def evicted (sh : Shared) (order : List String) : AList fun _ : String => ℕ :=
  if maxScopedServiceTokens ≤ sh.scopedTokens.entries.length then sh.scopedTokens.erase (sh.oldest order).1
  else sh.scopedTokens

/-- Mark an entry as used. -/
def touch (sh : Shared) (p : ℕ) : Shared :=
  ({ sh with scopedTick := sh.scopedTick + 1 }).set p
    { sh.heap p with lastUsed := sh.scopedTick + 1 }

/-- Make an entry for a key, and make room for it. -/
def allocate (sh : Shared) (key : String) (order : List String) : Shared :=
  ({ sh with
    scopedTick := sh.scopedTick + 1
    scopedTokens := (sh.evicted order).insert key sh.next
    next := sh.next + 1 }).set sh.next { lastUsed := sh.scopedTick + 1 }

/-- The entry of a key, which is made if there is none. The map is ranged over in the given order. -/
def scopedEntry (sh : Shared) (key : String) (order : List String) : Shared × ℕ :=
  match sh.scopedTokens.lookup key with
  | some p => (sh.touch p, p)
  | none => (sh.allocate key order, sh.next)

end Shared

/-! ### The calls -/

/-- A call of one of the methods. -/
inductive Request where
  /-- `ServiceTokenWithScopes`. -/
  | token (scopes : List String)
  /-- `InvalidateServiceToken`. -/
  | invalidate

/-- The local variables of a call: the scope set, and the address of its entry. -/
structure Frame where
  set : List String
  entry : ℕ

/-- An exchange at the token endpoint. -/
structure Exchange where
  form : List (String × String)
  sent : ℤ
  answer : Except String Response

/-- What a call has returned. -/
inductive Outcome where
  /-- An error, before an entry was looked up. -/
  | refused (err : Failure)
  /-- The result of a call that had an entry, and the exchange that it made. -/
  | returned (f : Frame) (result : Except Failure (String × ℤ)) (exchange : Option Exchange)
  | invalidated

/-- Where a call stands in the code. -/
inductive Phase where
  | begun
  /-- Before `scopedEntry`. -/
  | looking (set : List String)
  /-- Before the lock of the entry is taken, and with the lock, before the entry is read. -/
  | waiting (f : Frame)
  | holding (f : Frame)
  /-- With the lock: the entry has no fresh token, and the request for one was sent. -/
  | missed (f : Frame)
  | exchanging (f : Frame) (sent : ℤ)
  /-- In `InvalidateServiceToken`, after the first lock was released. -/
  | clearing
  | done (outcome : Outcome)

/-- What a step of a call is given from outside. -/
inductive Input where
  /-- Nothing. -/
  | go
  /-- The order in which a loop ranges over the map. -/
  | order (keys : List String)
  /-- A clock reading. -/
  | clock (now : ℤ)
  /-- The request cannot be built. -/
  | unbuilt (err : String)
  /-- The answer of the token endpoint. -/
  | answer (a : Except String Response)

/-- The first step of a call. -/
def ServiceClient.start (sv : ServiceClient) (sh : Shared) : Request → Shared × Phase
  | .token scopes =>
    match normaliseScopes scopes with
    | .error err => (sh, .done (.refused (sv.scopesFailure err)))
    | .ok set =>
      if sv.client.clientSecret = "" then
        (sh, .done (.refused
          (errorsNew "socrate: client_secret required for service-account token exchange")))
      else (sh, .looking set)
  | .invalidate => ({ sh with svcToken := "", svcTokenExpiry := Time.zero }, .clearing)

/-- The code between two phases of a call. -/
def ServiceClient.advance (sv : ServiceClient) (sh : Shared) (request : Request) :
    Phase → Input → Option (Shared × Phase)
  | .begun, .go => some (sv.start sh request)
  | .looking set, .order keys =>
    if keys.Perm sh.scopedTokens.keys then
      let r := sh.scopedEntry (scopeKey set) keys
      some (r.1, .waiting ⟨set, r.2⟩)
    else none
  | .waiting f, .go =>
    if (sh.heap f.entry).locked then none else some (sh.setLock f.entry true, .holding f)
  | .holding f, .clock now =>
    let e := sh.heap f.entry
    if e.token ≠ "" ∧ now + serviceTokenRenewBefore < e.expiry then
      some (sh.setLock f.entry false, .done (.returned f (.ok (e.token, e.expiry)) none))
    else some (sh, .missed f)
  | .missed f, .unbuilt err =>
    some (sh.setLock f.entry false,
      .done (.returned f (.error (wrapText "build token request" err)) none))
  | .missed f, .clock sent => some (sh, .exchanging f sent)
  | .exchanging f sent, .answer a =>
    let exchange : Exchange := ⟨sv.client.credentialsForm (scopeKey f.set), sent, a⟩
    match sv.exchangeScoped f.set sent a with
    | .error err =>
      some (sh.setLock f.entry false, .done (.returned f (.error err) (some exchange)))
    | .ok (token, expiry) =>
      some (sh.set f.entry { sh.heap f.entry with token, expiry, locked := false },
        .done (.returned f (.ok (token, expiry)) (some exchange)))
  | .clearing, .go => some ({ sh with scopedTokens := ∅ }, .done .invalidated)
  | _, _ => none

/-- The methods of a client. -/
def ServiceClient.methods (sv : ServiceClient) : CallSystem Shared Request Phase Input :=
  ⟨.begun, sv.advance⟩

/-- The shared state and the calls that were made so far. -/
abbrev State := CallSystem.State Shared Request Phase

/-- A new call, or a step of one. -/
abbrev Event := CallSystem.Event Request Input

/-- All interleavings on a new client. -/
def system (sv : ServiceClient) : StepSystem State Event :=
  sv.methods.system fun sh => sh.scopedTokens = ∅ ∧ sh.scopedTick = 0 ∧ sh.next = 0 ∧
    ∀ p, (sh.heap p).token = ""

/-! ### What a step of a call does -/

/-- The ways from one phase to the next. -/
inductive Advances (sv : ServiceClient) (sh : Shared) (request : Request) :
    Phase → Shared → Phase → Prop
  | refuse (err : Failure) : Advances sv sh request .begun sh (.done (.refused err))
  | accept (scopes set : List String) (hrequest : request = .token scopes)
      (hset : normaliseScopes scopes = .ok set) :
      Advances sv sh request .begun sh (.looking set)
  | invalidate (hrequest : request = .invalidate) :
      Advances sv sh request .begun { sh with svcToken := "", svcTokenExpiry := Time.zero } .clearing
  | found (set : List String) (p : ℕ) (hfound : sh.scopedTokens.lookup (scopeKey set) = some p) :
      Advances sv sh request (.looking set) (sh.touch p) (.waiting ⟨set, p⟩)
  | make (set keys : List String) (hnone : sh.scopedTokens.lookup (scopeKey set) = none)
      (hkeys : keys.Perm sh.scopedTokens.keys) :
      Advances sv sh request (.looking set) (sh.allocate (scopeKey set) keys)
        (.waiting ⟨set, sh.next⟩)
  | lock (f : Frame) : Advances sv sh request (.waiting f) (sh.setLock f.entry true) (.holding f)
  | hit (f : Frame) (htoken : (sh.heap f.entry).token ≠ "") :
      Advances sv sh request (.holding f) (sh.setLock f.entry false)
        (.done (.returned f (.ok ((sh.heap f.entry).token, (sh.heap f.entry).expiry)) none))
  | miss (f : Frame) : Advances sv sh request (.holding f) sh (.missed f)
  | unbuilt (f : Frame) (err : Failure) :
      Advances sv sh request (.missed f) (sh.setLock f.entry false)
        (.done (.returned f (.error err) none))
  | send (f : Frame) (sent : ℤ) : Advances sv sh request (.missed f) sh (.exchanging f sent)
  | fail (f : Frame) (sent : ℤ) (a : Except String Response) (err : Failure)
      (hresult : sv.exchangeScoped f.set sent a = .error err) :
      Advances sv sh request (.exchanging f sent) (sh.setLock f.entry false)
        (.done (.returned f (.error err)
          (some ⟨sv.client.credentialsForm (scopeKey f.set), sent, a⟩)))
  | store (f : Frame) (sent : ℤ) (a : Except String Response) (token : String) (expiry : ℤ)
      (hresult : sv.exchangeScoped f.set sent a = .ok (token, expiry)) :
      Advances sv sh request (.exchanging f sent)
        (sh.set f.entry { sh.heap f.entry with token, expiry, locked := false })
        (.done (.returned f (.ok (token, expiry))
          (some ⟨sv.client.credentialsForm (scopeKey f.set), sent, a⟩)))
  | clear : Advances sv sh request .clearing { sh with scopedTokens := ∅ } (.done .invalidated)

/-- There are no other ways. -/
theorem advances_of_advance {sv : ServiceClient} {sh sh' : Shared} {request : Request}
    {phase phase' : Phase} {input : Input}
    (h : sv.advance sh request phase input = some (sh', phase')) :
    Advances sv sh request phase sh' phase' := by
  unfold ServiceClient.advance at h
  split at h
  · -- the first step
    unfold ServiceClient.start at h
    split at h
    · rename_i scopes
      split at h
      · cases h
        exact .refuse _
      · rename_i set hset
        split at h
        · cases h
          exact .refuse _
        · cases h
          exact .accept scopes set rfl hset
    · cases h
      exact .invalidate rfl
  · split at h
    · rename_i set keys hkeys
      simp only [Shared.scopedEntry] at h
      split at h
      · rename_i p hfound
        cases h
        exact .found set p hfound
      · rename_i hnone
        cases h
        exact .make set keys hnone hkeys
    · cases h
  · split at h
    · cases h
    · cases h
      exact .lock _
  · dsimp only at h
    split at h
    · rename_i hfresh
      cases h
      exact .hit _ hfresh.1
    · cases h
      exact .miss _
  · cases h
    exact .unbuilt _ _
  · cases h
    exact .send _ _
  · dsimp only at h
    split at h
    · rename_i err hresult
      cases h
      exact .fail _ _ _ err hresult
    · rename_i token expiry hresult
      cases h
      exact .store _ _ _ token expiry hresult
  · cases h
    exact .clear
  · cases h

end Socrate
