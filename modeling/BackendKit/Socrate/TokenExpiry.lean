import BackendKit.Socrate.ScopedCache

/-!
# The expiry of a service token

`tokenExpiry` (`socrate/client.go`) takes the expiry of a token from its `exp` claim, else from
`expires_in`, else it guesses. `ServiceToken` and `ServiceTokenWithScopes` return and cache what it says.

`claimedExp` is the claim itself: the last member `exp` of the payload, if it is an integer.
`tokenExpiry` reads the payload into an `int64`, and takes what it reads only if that lies after the
second in which the request was sent. `reported_tokenExpiry_iff` says for which members `exp`, time of
sending and `expires_in` its result is not later than the claim; a token that has expired already is the
case in which it is.
-/

open GoStd
open Duration (minute second seconds)

namespace Socrate

/-! ### What a token claims -/

section

variable (wire : Wire) (tr : TokenResponse) (sent : ℤ)

/-- The expiry without a claim. -/
def countedExpiry : ℤ :=
  if 0 < tr.expiresIn then sent + seconds tr.expiresIn.toInt else sent + unknownTokenLifetime

/-- The claim as the decoder reads it, if it is taken: if it lies after the second of sending. -/
def takenExp : Option Int64 :=
  (expClaim wire tr.accessToken).filter fun exp => sent / second < exp.toInt

variable {wire tr sent}

theorem takenExp_eq_none_iff : takenExp wire tr sent = none ↔
    ∀ v, expClaim wire tr.accessToken = some v → v.toInt ≤ sent / second := by
  simp [takenExp, Option.filter_eq_none_iff]

theorem tokenExpiry_of_not_taken (h : takenExp wire tr sent = none) :
    tokenExpiry wire tr sent = countedExpiry tr sent := by
  unfold tokenExpiry
  cases hread : expClaim wire tr.accessToken with
  | none => rfl
  | some v => exact if_neg (not_lt.mpr (takenExp_eq_none_iff.mp h v hread))

end

/-- A token and its expiry come from a response of the token endpoint. -/
def FromResponse (wire : Wire) (token : String) (expiry : ℤ) : Prop :=
  ∃ (body : List UInt8) (tr : TokenResponse) (sent : ℤ),
    (wire.json body).bind TokenResponse.ofJson = some tr ∧ tr.accessToken = token ∧
      expiry = tokenExpiry wire tr sent

/-- The cache of `ServiceToken`: `svcToken` and `svcTokenExpiry`. -/
structure ServiceCache where
  token : String
  expiry : ℤ

/-- What happens on the way to a new token. -/
inductive Attempt where
  /-- The request cannot be built. -/
  | unbuilt (err : String)
  /-- The request is sent, and answered. -/
  | sent (time : ℤ) (answer : Except String Response)

/-- A call of `ServiceToken`, with its clock reading and what happens if it needs a new token, or of
`InvalidateServiceToken`. A lock is held from the beginning to the end, so calls do not interleave. -/
inductive ServiceCall where
  | token (now : ℤ) (attempt : Attempt)
  | invalidate

namespace ServiceClient

variable (sv : ServiceClient)

/-- The error of an answer that is not a 200. -/
def exchangeHTTPError (status : ℤ) (body : List UInt8) : Failure :=
  errorsNew ("token exchange HTTP " ++ toString status ++ ": " ++ sv.wire.text body)

/-- `ServiceToken`. -/
def serviceToken (cache : ServiceCache) (now : ℤ) (attempt : Attempt) :
    Except Failure (String × ℤ) × ServiceCache :=
  if cache.token ≠ "" ∧ now + serviceTokenRenewBefore < cache.expiry then
    (.ok (cache.token, cache.expiry), cache)
  else if sv.client.clientSecret = "" then
    (.error (errorsNew "socrate: client_secret required for service-account token exchange"), cache)
  else
    match attempt with
    | .unbuilt err => (.error (wrapText "build token request" err), cache)
    | .sent time answer =>
      match exchangeClientCredentials sv.wire sv.exchangeHTTPError time answer with
      | .error err => (.error err, cache)
      | .ok (tr, expiry) => (.ok (tr.accessToken, expiry), ⟨tr.accessToken, expiry⟩)

/-- One call: what it returns, if anything, and the cache after it. -/
def serve (cache : ServiceCache) : ServiceCall → Option (Except Failure (String × ℤ)) × ServiceCache
  | .token now attempt =>
    let r := sv.serviceToken cache now attempt
    (some r.1, r.2)
  | .invalidate => (none, ⟨"", Time.zero⟩)

variable {sv}

/-- The cache is empty, or has a token of a response with its expiry. -/
def Holds (sv : ServiceClient) (cache : ServiceCache) : Prop :=
  cache.token ≠ "" → FromResponse sv.wire cache.token cache.expiry

end ServiceClient

namespace State

variable {sv : ServiceClient}

/-- A call that has made an exchange has returned its result. -/
def Exchanged (sv : ServiceClient) (s : State) : Prop :=
  ∀ c request f result ex,
    s.calls c = some ⟨request, .done (.returned f result (some ex))⟩ →
      sv.exchangeScoped f.set ex.sent ex.answer = result

theorem Exchanged.step {s s' : State} {ev : Event} (h : s.Exchanged sv)
    (hstep : sv.methods.step s ev = some s') : s'.Exchanged sv := by
  intro c request f result ex hc
  obtain ⟨d, request', -, -, rfl⟩ | ⟨d, call, input, sh, phase, -, -, hadv, rfl⟩ := step_cases hstep
  · exact h c request f result ex (CallSystem.of_set_of_phase_ne hc nofun)
  · obtain ⟨-, heq⟩ | ⟨-, hold⟩ := CallSystem.of_set hc
    · obtain ⟨before, after⟩ := call
      cases heq
      -- only the answer of the endpoint ends a call with an exchange
      cases hadv with
      | fail f sent a err hresult => exact hresult
      | store f sent a token expiry hresult => exact hresult
    · exact h c request f result ex hold

end State

end Socrate
