import BackendKit.Bff.Activity
import BackendKit.Socrate.TokenEndpoint

/-!
# A refresh and the access token of the session

A gateway whose refresher is a `socrate.Client`, over any token endpoint. `applyTokens` keeps the
refresh token and the ID token of a session when the new token set has none, but takes over the
access token whatever it is. `decodeTokenSet` lets a 200 without `access_token` through, as an
empty access token.

So the session of a browser stays usable exactly as long as no answer of that kind comes back
(`keepsAccessToken_iff`). One such answer costs the session its access token, and the request that
triggered the refresh is forwarded with an empty bearer (`not_keepsAccessToken`). The
client-credentials grant refuses the same answer
(`Socrate.accessToken_ne_of_exchangeClientCredentials`).
-/

open GoStd

namespace Socrate

/-- A 200 that decodes to a token set with an empty access token. -/
def Response.LacksAccessToken (wire : Wire) (resp : Response) : Prop :=
  resp.status = 200 ∧ ∃ b ts, readBody resp = .ok b ∧
    (wire.json b).bind TokenSet.ofJson = some ts ∧ ts.accessToken = ""

/-- What the refresher returns without an error is what the endpoint's answer decodes to. -/
theorem Client.refresher_eq_ok {c : Client} {wire : Wire} {endpoint : Endpoint} {token : String}
    {ts : Option Bff.TokenSet} :
    c.refresher wire endpoint token = .ok ts ↔
      ∃ ts', c.refreshToken wire endpoint token = .ok ts' ∧ ts = some ts'.forSession := by
  unfold Client.refresher
  cases c.refreshToken wire endpoint token with
  | error err => simp [Except.map]
  | ok ts' => simp [Except.map, eq_comm]

end Socrate

namespace Bff

open Socrate

/-- What a refresh can replace in a session. -/
def Session.tokens (s : Session) : String × String × String × ℤ :=
  (s.accessToken, s.refreshToken, s.idToken, s.accessExpiry)

namespace Gateway

section

variable (g : Gateway) (c : Client) (wire : Wire) (endpoint : Endpoint) (t : Readings) (m : Memory)
variable (p : ℕ)

/-- A refresh does not leave the session at `p` without an access token: `EnsureFresh` returns one
that is not empty, or fails and leaves the tokens of the session alone, and the session's requests
are not forwarded with an empty bearer. -/
structure KeepsAccessToken : Prop where
  returned : ∀ access, (g.ensureFresh (c.refresher wire endpoint) t m p).2 = .ok access →
    access ≠ ""
  failed : ∀ err, (g.ensureFresh (c.refresher wire endpoint) t m p).2 = .error err →
    ((g.ensureFresh (c.refresher wire endpoint) t m p).1.heap p).tokens = (m.heap p).tokens
  forwarded : g.disableAuth = false → ∀ r id fwd, g.Resolves t m r id p →
    (g.proxyWithSession (c.refresher wire endpoint) t m r).2 = .forwarded fwd →
    fwd.header.values "Authorization" ≠ ["Bearer "]

/-- No answer without an access token can reach the session: no refresh is due, or the endpoint's
answer to it is not of that kind. -/
def AnsweredWithToken : Prop :=
  (m.heap p).accessValid t.outer g.refreshLeewayOrDefault = true ∨
    (m.heap p).accessValid t.inner g.refreshLeewayOrDefault = true ∨
    ∀ resp, endpoint (c.refreshForm (m.heap p).refreshToken) = .ok resp →
      ¬ resp.LacksAccessToken wire

end

variable {g : Gateway} {c : Client} {wire : Wire} {endpoint : Endpoint} {t : Readings} {m : Memory}
variable {p : ℕ}

/-- The access token of a session after a refresh is the one of the token set. -/
theorem ensureFresh_of_refreshToken {ts : Socrate.TokenSet}
    (houter : (m.heap p).accessValid t.outer g.refreshLeewayOrDefault = false)
    (hinner : (m.heap p).accessValid t.inner g.refreshLeewayOrDefault = false)
    (hts : c.refreshToken wire endpoint (m.heap p).refreshToken = .ok ts) :
    (g.ensureFresh (c.refresher wire endpoint) t m p).2 = .ok ts.accessToken := by
  have href : c.refresher wire endpoint (m.heap p).refreshToken = .ok (some ts.forSession) :=
    Client.refresher_eq_ok.mpr ⟨ts, hts, rfl⟩
  simp only [ensureFresh, houter, hinner, href, Bool.false_eq_true, if_false]
  simp [Memory.setTokens, Memory.put, Memory.modify, Session.setTokens, Session.applyTokens,
    Socrate.TokenSet.forSession]

/-- What `EnsureFresh` returns is the token of the session, still valid, or that of a token set. -/
theorem ensureFresh_eq_ok {access : String}
    (h : (g.ensureFresh (c.refresher wire endpoint) t m p).2 = .ok access) :
    access = (m.heap p).accessToken ∨
      (m.heap p).accessValid t.outer g.refreshLeewayOrDefault = false ∧
      (m.heap p).accessValid t.inner g.refreshLeewayOrDefault = false ∧
      ∃ ts, c.refreshToken wire endpoint (m.heap p).refreshToken = .ok ts ∧
        access = ts.accessToken := by
  by_cases houter : (m.heap p).accessValid t.outer g.refreshLeewayOrDefault = true
  · rw [ensureFresh, if_pos houter] at h
    exact .inl (Except.ok.inj h).symm
  by_cases hinner : (m.heap p).accessValid t.inner g.refreshLeewayOrDefault = true
  · rw [ensureFresh, if_neg houter, if_pos hinner] at h
    exact .inl (Except.ok.inj h).symm
  rw [Bool.not_eq_true] at houter hinner
  refine .inr ⟨houter, hinner, ?_⟩
  cases hts : c.refreshToken wire endpoint (m.heap p).refreshToken with
  | error err =>
    have href : c.refresher wire endpoint (m.heap p).refreshToken = .error err := by
      rw [Client.refresher, hts]
      rfl
    simp only [ensureFresh, houter, hinner, href, Bool.false_eq_true, if_false] at h
    cases h
  | ok ts =>
    rw [ensureFresh_of_refreshToken houter hinner hts] at h
    exact ⟨ts, rfl, (Except.ok.inj h).symm⟩

/-- A request of the session that is forwarded carries what `EnsureFresh` returned. -/
theorem bearer_of_forwarded {refresher : TokenRefresher} {r fwd : Request} {id : String}
    (hauth : g.disableAuth = false) (hr : g.Resolves t m r id p)
    (hfwd : (g.proxyWithSession refresher t m r).2 = .forwarded fwd) :
    ∃ access, (g.ensureFresh refresher t m p).2 = .ok access ∧ fwd = withBearer r access := by
  simp only [proxyWithSession, hauth, hr.sessionFromRequest_eq, Bool.false_eq_true, if_false]
    at hfwd
  split at hfwd
  · cases hfwd
  rcases hf : g.ensureFresh refresher t m p with ⟨m', err | access⟩
  · rw [hf] at hfwd
    dsimp only at hfwd
    split at hfwd <;> cases hfwd
  · rw [hf] at hfwd
    cases hfwd
    exact ⟨access, rfl, rfl⟩

/-- A bearer is empty only if the token is. -/
theorem values_withBearer_ne {access : String} (r : Request) (h : access ≠ "") :
    (withBearer r access).header.values "Authorization" ≠ ["Bearer "] := by
  rw [values_withBearer_authorization r access canonicalKey_authorization, if_pos rfl]
  intro heq
  have hlist : ("Bearer " ++ access).toList = "Bearer ".toList := congrArg String.toList
    (List.cons.inj heq).1
  rw [String.toList_append, List.append_right_eq_self, String.toList_eq_nil_iff] at hlist
  exact h hlist

/-- A session keeps an access token if the answer it may be given has one. -/
theorem KeepsAccessToken.of_answered (hne : (m.heap p).accessToken ≠ "")
    (hcond : g.AnsweredWithToken c wire endpoint t m p) :
    g.KeepsAccessToken c wire endpoint t m p := by
  have hreturned : ∀ access,
      (g.ensureFresh (c.refresher wire endpoint) t m p).2 = .ok access → access ≠ "" := by
    intro access haccess
    obtain rfl | ⟨houter, hinner, ts, hts, rfl⟩ := ensureFresh_eq_ok haccess
    · exact hne
    -- the two checks have failed, so it is the endpoint that the condition speaks of
    obtain hvalid | hvalid | hendpoint := hcond
    · rw [houter] at hvalid
      cases hvalid
    · rw [hinner] at hvalid
      cases hvalid
    obtain ⟨resp, b, hresp, hb, hstatus, hjson⟩ := Client.refreshToken_eq_ok.mp hts
    exact fun hempty => hendpoint resp hresp ⟨hstatus, b, ts, hb, hjson, hempty⟩
  refine ⟨hreturned, ?_, ?_⟩
  · intro err herr
    have hsame : (g.ensureFresh (c.refresher wire endpoint) t m p).1 = m :=
      ensureFresh_error (Prod.ext rfl herr)
    rw [hsame]
  · intro hauth r id fwd hr hfwd
    obtain ⟨access, haccess, rfl⟩ := bearer_of_forwarded hauth hr hfwd
    exact values_withBearer_ne r (hreturned access haccess)

/-- A refresh keeps the access token of every session that has one, except when it is due and the
token endpoint answers it with a 200 that lacks an access token. -/
theorem keepsAccessToken_iff (g : Gateway) (c : Client) (wire : Wire) (endpoint : Endpoint)
    (t : Readings) (m : Memory) (p : ℕ) (hne : (m.heap p).accessToken ≠ "") :
    g.KeepsAccessToken c wire endpoint t m p ↔ g.AnsweredWithToken c wire endpoint t m p := by
  refine ⟨fun hkeeps => ?_, KeepsAccessToken.of_answered hne⟩
  by_contra hcond
  simp only [AnsweredWithToken, not_or, Bool.not_eq_true, not_forall, not_not] at hcond
  obtain ⟨houter, hinner, resp, hresp, hstatus, b, ts, hb, hts, hempty⟩ := hcond
  have hrefresh : c.refreshToken wire endpoint (m.heap p).refreshToken = .ok ts :=
    Client.refreshToken_eq_ok.mpr ⟨resp, b, hresp, hb, hstatus, hts⟩
  exact hkeeps.returned _ (ensureFresh_of_refreshToken houter hinner hrefresh) hempty

section Example

/-- An endpoint that answers every form with a 200 and the body `b`. -/
def answering (b : List UInt8) : Endpoint := fun _ => .ok { status := 200, body := b }

/-- The bytes of an empty JSON object. -/
def emptyObject : List UInt8 := [0x7b, 0x7d]

/-- The bytes of a JSON object whose `access_token` is `at2` and that has no other member. -/
def freshObject : List UInt8 :=
  [0x7b, 0x22, 0x61, 0x63, 0x63, 0x65, 0x73, 0x73, 0x5f, 0x74, 0x6f, 0x6b, 0x65, 0x6e, 0x22, 0x3a,
    0x22, 0x61, 0x74, 0x32, 0x22, 0x7d]

/-- The bytes of the answer to a refresh token that was revoked. -/
def revokedObject : List UInt8 :=
  "\x7b\"error\":\"invalid_grant\"\x7d".toList.map fun c => UInt8.ofNat c.toNat

/-- A reader of the three bodies. -/
def sampleWire : Wire where
  json b :=
    if b = emptyObject then some (.obj [])
    else if b = freshObject then some (.obj [("access_token", .str "at2")])
    else if b = revokedObject then some (.obj [("error", .str "invalid_grant")])
    else none
  complaint _ := "unexpected end of JSON input"
  text _ := ""

/-- A client without a secret. -/
def sampleClient : Client := ⟨"client", ""⟩

/-- A gateway with the default settings. -/
def sampleGateway : Gateway := { cookie := { name := "sid", secure := true } }

/-- Every reading is the same instant. -/
def atZero : Readings := ⟨0, 0, 0, 0, 0, 0, 0⟩

/-- The access token of the session has expired and the endpoint answers an empty object:
`EnsureFresh` returns an empty token without an error, the session has lost its token, and the
request is forwarded with an empty bearer. -/
theorem not_keepsAccessToken :
    let refresher := sampleClient.refresher sampleWire (answering emptyObject)
    ((oneSession 0).heap 0).accessToken = "at" ∧
    (sampleGateway.ensureFresh refresher atZero (oneSession 0) 0).2 = .ok "" ∧
    ((sampleGateway.ensureFresh refresher atZero (oneSession 0) 0).1.heap 0).accessToken = "" ∧
    (∃ fwd, (sampleGateway.proxyWithSession refresher atZero (oneSession 0) postWithBearer).2 =
      .forwarded fwd ∧ fwd.header.values "Authorization" = ["Bearer "]) ∧
    ¬ sampleGateway.KeepsAccessToken sampleClient sampleWire (answering emptyObject) atZero
      (oneSession 0) 0 := by
  intro refresher
  have hfresh : (sampleGateway.ensureFresh refresher atZero (oneSession 0) 0).2 = .ok "" := rfl
  have hid : sampleGateway.cookie.sessionID postWithBearer = some "s1" := sessionID_postWithBearer
  have hcsrf : sampleGateway.checkCSRF postWithBearer ((oneSession 0).heap 0) = true := by
    have : postWithBearer.header.get sampleGateway.csrfHeaderOrDefault = "c" := by decide +kernel
    simp [checkCSRF, this, oneSession, Session.matchCSRF]
  have hs : sampleGateway.sessionFromRequest atZero (oneSession 0) postWithBearer =
      (oneSession 0, some 0) := Resolves.sessionFromRequest_eq ⟨hid, rfl, rfl⟩
  have hout : (sampleGateway.proxyWithSession refresher atZero (oneSession 0) postWithBearer).2 =
      .forwarded (withBearer postWithBearer "") := by
    simp only [proxyWithSession, hs, hcsrf]
    rfl
  refine ⟨rfl, hfresh, rfl, ⟨_, hout, ?_⟩, fun hkeeps => hkeeps.returned "" hfresh rfl⟩
  exact values_withBearer_authorization _ _ canonicalKey_authorization

theorem answeredWithToken_fresh (t : Readings) (m : Memory) (p : ℕ) :
    sampleGateway.AnsweredWithToken sampleClient sampleWire (answering freshObject) t m p := by
  refine .inr (.inr ?_)
  rintro resp hresp ⟨-, b, ts, hb, hts, hempty⟩
  cases hresp
  obtain rfl : freshObject = b := Except.ok.inj hb
  obtain rfl : ({ accessToken := "at2" } : Socrate.TokenSet) = ts := Option.some.inj hts
  exact absurd hempty (by decide)

/-- With an access token in the answer the same request is forwarded with it. -/
theorem keepsAccessToken_fresh :
    sampleGateway.KeepsAccessToken sampleClient sampleWire (answering freshObject) atZero
      (oneSession 0) 0 :=
  (keepsAccessToken_iff sampleGateway sampleClient sampleWire (answering freshObject) atZero
    (oneSession 0) 0 (by decide)).mpr (answeredWithToken_fresh _ _ _)

end Example

/-! ### One request after the other -/

/-- No session is added from `m` to `m'`, and none loses its access token. -/
structure Preserves (m m' : Memory) : Prop where
  stored : ∀ id p, m'.store.sessions id = some p → m.store.sessions id = some p
  token : ∀ p, (m.heap p).accessToken ≠ "" → (m'.heap p).accessToken ≠ ""

theorem Preserves.refl (m : Memory) : Preserves m m := ⟨fun _ _ h => h, fun _ h => h⟩

theorem Preserves.trans {m m' m'' : Memory} (h : Preserves m m') (h' : Preserves m' m'') :
    Preserves m m'' :=
  ⟨fun id p hp => h.stored id p (h'.stored id p hp), fun p hp => h'.token p (h.token p hp)⟩

theorem preserves_delete (m : Memory) (id : String) (now : ℤ) : Preserves m (m.delete id now) := by
  refine ⟨fun id' p hp => ?_, fun _ h => h⟩
  by_cases heq : id' = id
  · subst heq
    simp [Memory.delete] at hp
  · exact (MemoryStore.sessions_delete_of_ne _ _ heq).symm.trans hp

/-- Changing a stored session and writing it back is enough if it leaves an access token. -/
theorem preserves_modify_put {f : Session → Session} {hf : ∀ s, (f s).id = s.id} {id : String}
    (hp : m.store.sessions id = some p)
    (htoken : (m.heap p).accessToken ≠ "" → (f (m.heap p)).accessToken ≠ "") :
    Preserves m ((m.modify p f hf).put p) := by
  refine ⟨fun id' q hq => ?_, fun q hq => ?_⟩
  · rw [Memory.sessions_modify_put hp] at hq
    exact hq
  · by_cases heq : q = p
    · subst heq
      simpa [Memory.put, Memory.modify] using htoken hq
    · simpa [Memory.put, Memory.modify, Function.update_of_ne heq] using hq

theorem preserves_sessionFromRequest (g : Gateway) (t : Readings) (m : Memory) (r : Request) :
    Preserves m (g.sessionFromRequest t m r).1 := by
  unfold sessionFromRequest
  split
  · exact Preserves.refl m
  unfold Memory.get
  split
  · exact Preserves.refl m
  split
  · exact preserves_delete m _ _
  · exact Preserves.refl m

theorem preserves_touchSession {id : String} (hp : m.store.sessions id = some p) :
    Preserves m (g.touchSession t m p) := by
  unfold touchSession
  split
  · exact preserves_modify_put hp fun h => h
  · exact Preserves.refl m

/-- What becomes of the session in a refresh is what `EnsureFresh` returns. -/
theorem preserves_ensureFresh {refresher : TokenRefresher} {id : String}
    (hp : m.store.sessions id = some p)
    (hreturned : ∀ access, (g.ensureFresh refresher t m p).2 = .ok access → access ≠ "") :
    Preserves m (g.ensureFresh refresher t m p).1 := by
  unfold ensureFresh at hreturned ⊢
  split
  · exact Preserves.refl m
  rename_i houter
  split
  · exact Preserves.refl m
  rename_i hinner
  rw [if_neg houter, if_neg hinner] at hreturned
  split
  · exact Preserves.refl m
  rename_i ts hts
  rw [hts] at hreturned
  refine preserves_modify_put hp fun _ => ?_
  simpa [Memory.put, Memory.setTokens, Memory.modify] using hreturned _ rfl

/-- The answers of the token endpoint that the request can meet all have an access token. -/
def RequestAnsweredWithToken (g : Gateway) (c : Client) (wire : Wire) (endpoint : Endpoint)
    (t : Readings) (m : Memory) (r : Request) : Prop :=
  ∀ id p, g.Resolves t m r id p → g.AnsweredWithToken c wire endpoint t m p

/-- Every stored session has an access token. -/
def HoldsTokens (m : Memory) : Prop :=
  ∀ id p, m.store.sessions id = some p → (m.heap p).accessToken ≠ ""

theorem HoldsTokens.of_preserves {m m' : Memory} (hm : HoldsTokens m) (h : Preserves m m') :
    HoldsTokens m' :=
  fun id p hp => h.token p (hm id p (h.stored id p hp))

/-- One request leaves every session with an access token. -/
theorem holdsTokens_proxyWithSession {r : Request} (hm : HoldsTokens m)
    (hcond : g.RequestAnsweredWithToken c wire endpoint t m r) :
    HoldsTokens (g.proxyWithSession (c.refresher wire endpoint) t m r).1 := by
  apply hm.of_preserves
  unfold proxyWithSession
  split
  · exact Preserves.refl m
  have hfirst := preserves_sessionFromRequest g t m r
  split
  · rename_i m' hs
    rw [hs] at hfirst
    split <;> exact hfirst
  rename_i m' q hs
  obtain ⟨rfl, id, hr⟩ := resolves_of_sessionFromRequest hs
  split
  · exact Preserves.refl m'
  have hkeeps : g.KeepsAccessToken c wire endpoint t m' q :=
    .of_answered (hm id q hr.stored) (hcond id q hr)
  have hfresh := preserves_ensureFresh hr.stored hkeeps.returned
  have hstored : (g.ensureFresh (c.refresher wire endpoint) t m' q).1.store.sessions id = some q := by
    rw [sessions_ensureFresh hr.stored]
    exact hr.stored
  split
  · rename_i m₁ err hf
    rw [hf] at hfresh
    split
    · exact hfresh.trans (preserves_delete m₁ _ _)
    · exact hfresh
  · rename_i m₁ access hf
    rw [hf] at hfresh hstored
    exact hfresh.trans (preserves_touchSession hstored)

/-- The refresher of the request is the client, over an endpoint whose answers have an access
token. -/
def VisitAnsweredWithToken (g : Gateway) (c : Client) (wire : Wire) (m : Memory) (v : Visit) :
    Prop :=
  ∃ endpoint, v.refresher = c.refresher wire endpoint ∧
    g.RequestAnsweredWithToken c wire endpoint v.readings m v.request

/-- The request is not forwarded with an empty bearer, if it is one of a session. -/
def BearerNotEmpty (g : Gateway) (m : Memory) (v : Visit) : Prop :=
  ∀ id p fwd, g.Resolves v.readings m v.request id p →
    (g.proxyWithSession v.refresher v.readings m v.request).2 = .forwarded fwd →
    fwd.header.values "Authorization" ≠ ["Bearer "]

/-- No request of a session is forwarded with an empty bearer, as long as no answer of the token
endpoint lacks an access token. -/
theorem everyStep_bearerNotEmpty (hauth : g.disableAuth = false) {visits : List Visit}
    (hm : HoldsTokens m) (hcond : g.serving.EveryStep (g.VisitAnsweredWithToken c wire) m visits) :
    g.serving.EveryStep g.BearerNotEmpty m visits := by
  induction visits generalizing m with
  | nil => trivial
  | cons v visits ih =>
    obtain ⟨⟨endpoint, hrefresher, hanswered⟩, hrest⟩ := hcond
    refine ⟨fun id p fwd hr hfwd => ?_, fun m' hm' => ih ?_ (hrest m' hm')⟩
    · rw [hrefresher] at hfwd
      have hkeeps : g.KeepsAccessToken c wire endpoint v.readings m p :=
        .of_answered (hm id p hr.stored) (hanswered id p hr)
      exact hkeeps.forwarded hauth v.request id fwd hr hfwd
    · cases hm'
      rw [hrefresher]
      exact holdsTokens_proxyWithSession hm hanswered

/-- A request, with what the endpoint answers to a refresh. -/
def visitWith (endpoint : Endpoint) : Visit :=
  ⟨postWithBearer, atZero, sampleClient.refresher sampleWire endpoint⟩

/-- The refresh token has been revoked. -/
def revoking : Endpoint := fun _ => .ok { status := 400, body := revokedObject }

/-- The session gets a new access token, is deleted with the second request, and is gone at the
third. -/
theorem everyStep_bearerNotEmpty_visit :
    sampleGateway.serving.EveryStep sampleGateway.BearerNotEmpty (oneSession 0)
        [visitWith (answering freshObject), visitWith revoking, visitWith (answering freshObject)] ∧
      (sampleGateway.serving.run (oneSession 0)
        [visitWith (answering freshObject), visitWith revoking]).map (·.store.sessions "s1") =
          some none := by
  have hfresh : ∀ m, sampleGateway.VisitAnsweredWithToken sampleClient sampleWire m
      (visitWith (answering freshObject)) :=
    fun m => ⟨answering freshObject, rfl, fun _ p _ => answeredWithToken_fresh _ m p⟩
  have hrevoked : ∀ m, sampleGateway.VisitAnsweredWithToken sampleClient sampleWire m
      (visitWith revoking) := by
    refine fun m => ⟨revoking, rfl, fun _ _ _ => .inr (.inr ?_)⟩
    rintro resp hresp ⟨hstatus, -⟩
    cases hresp
    exact absurd hstatus (by decide)
  refine ⟨@everyStep_bearerNotEmpty _ sampleClient sampleWire _ rfl _
    (fun _ _ _ => (by decide : "at" ≠ "")) ?_, by decide +kernel⟩
  exact ⟨hfresh _, fun _ _ => ⟨hrevoked _, fun _ _ => ⟨hfresh _, fun _ _ => trivial⟩⟩⟩

end Gateway

end Bff
