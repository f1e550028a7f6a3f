import BackendKit.Bff.Gateway
import BackendKit.GoStd.ReverseProxy

/-!
# What the upstream sees of a browser's request

`NewSingleHostProxy` (`bff/gateway.go`) behind `ProxyWithSession`: the header that the gateway hands
to the reverse proxy, with what the proxy and its director make of it. The director that
`NewSingleHostReverseProxy` sets rewrites the URL only, and is left out.

The browser chooses every field of its request, `Connection` included, and the proxy removes the
fields that `Connection` lists after the gateway has set the session's bearer. So a browser can have
the bearer removed, and that is all it can do (`Gateway.forwarded_upstream`).
-/

open GoStd

namespace Bff

/-- The fields by which a client claims an address. -/
def clientIPHeaders : List String := ["X-Real-IP", "True-Client-IP", "Forwarded"]

/-- The director of `NewSingleHostProxy`. -/
def stripClientIP (h : Header) : Header := clientIPHeaders.foldl Header.del h

/-- The header that a proxy of `NewSingleHostProxy` sends; `none` if it refuses the request. -/
def upstreamHeader (remoteAddr : Bytes) (r : Request) : Option Header :=
  reverseProxyHeader stripClientIP remoteAddr r.header

/-- The client has listed the field in its `Connection` field. -/
def Listed (r : Request) (key : String) : Prop :=
  key ∈ (connectionNames r.header).map canonicalKey

instance (r : Request) (key : String) : Decidable (Listed r key) :=
  inferInstanceAs (Decidable (_ ∈ _))

/-- Whatever the gateway decides, the client's claims about its address do not get through, and
`X-Forwarded-For` ends with the address that the connection has. -/
structure Attributed (r : Request) (remoteAddr : Bytes) (out : Header) : Prop where
  claims : ∀ name ∈ clientIPHeaders, out.values (canonicalKey name) = []
  forwardedFor : out.values "X-Forwarded-For" = forwardedForOf remoteAddr
    (if Listed r "X-Forwarded-For" then [] else r.header.values "X-Forwarded-For")

/-- A field that neither the director nor the proxy sets or removes for its name. -/
def IsPlain (key : String) : Prop :=
  ¬ IsProxyField key ∧ key ∉ hopHeaders.map canonicalKey ∧ key ∉ clientIPHeaders.map canonicalKey

/-- The request carries the session's bearer and nothing else of the client's credentials. -/
structure SeesSession (r : Request) (access : String) (out : Header) : Prop where
  cookie : out.values "Cookie" = []
  authorization : out.values "Authorization" =
    if Listed r "Authorization" then [] else ["Bearer " ++ access]
  plain : ∀ key, IsPlain key → key ≠ "Cookie" → key ≠ "Authorization" →
    out.values key = if Listed r key then [] else r.header.values key

/-- The request carries what the client sent. -/
structure SeesClient (r : Request) (out : Header) : Prop where
  plain : ∀ key, IsPlain key →
    out.values key = if Listed r key then [] else r.header.values key

/-! ### The director -/

theorem values_stripClientIP (h : Header) (key : String) :
    (stripClientIP h).values key =
      if key ∈ clientIPHeaders.map canonicalKey then [] else h.values key :=
  values_foldl_del clientIPHeaders h key

/-- The names that the director and the proxy remove. -/
theorem canonicalKey_removed :
    hopHeaders.map canonicalKey = hopHeaders ∧
      clientIPHeaders.map canonicalKey = ["X-Real-Ip", "True-Client-Ip", "Forwarded"] := by
  simp only [hopHeaders, clientIPHeaders, List.map_cons, List.map_nil, canonicalKey, tokenChars_eq]
  decide +kernel

theorem connectionNames_congr {h h' : Header} (heq : h.values "Connection" = h'.values "Connection") :
    connectionNames h = connectionNames h' := by
  unfold connectionNames
  rw [heq]

theorem connectionNames_stripClientIP (h : Header) :
    connectionNames (stripClientIP h) = connectionNames h := by
  apply connectionNames_congr
  rw [values_stripClientIP, canonicalKey_removed.2, if_neg (by decide)]

variable {r : Request} {remoteAddr : Bytes} {out : Header}

/-- Of the fields that are not hop-by-hop, the proxy removes those that the client has listed. -/
theorem isHopByHop_stripClientIP {key : String} (hhop : key ∉ hopHeaders.map canonicalKey) :
    IsHopByHop (stripClientIP r.header) key ↔ Listed r key := by
  unfold IsHopByHop Listed
  rw [connectionNames_stripClientIP]
  exact or_iff_right hhop

/-- What is left of a field on its way through the proxy. -/
theorem values_upstream (hout : upstreamHeader remoteAddr r = some out) {key : String}
    (hkey : ¬ IsProxyField key) (hhop : key ∉ hopHeaders.map canonicalKey) :
    out.values key =
      if Listed r key then []
      else if key ∈ clientIPHeaders.map canonicalKey then [] else r.header.values key := by
  rw [values_reverseProxyHeader hout hkey, values_stripClientIP]
  simp only [isHopByHop_stripClientIP hhop]

theorem attributed_upstream (hout : upstreamHeader remoteAddr r = some out) :
    Attributed r remoteAddr out := by
  constructor
  · intro name hname
    have hmem : canonicalKey name ∈ clientIPHeaders.map canonicalKey := List.mem_map_of_mem hname
    have hplain : ¬ IsProxyField (canonicalKey name) ∧
        canonicalKey name ∉ hopHeaders.map canonicalKey := by
      rw [canonicalKey_removed.2] at hmem
      rw [canonicalKey_removed.1]
      simp only [List.mem_cons, List.not_mem_nil, or_false] at hmem
      rcases hmem with h | h | h <;> rw [h] <;> decide
    -- removed for its name, whether the client lists it or not
    rw [values_upstream hout hplain.1 hplain.2, if_pos hmem, ite_self]
  · have hhop : "X-Forwarded-For" ∉ hopHeaders.map canonicalKey := by
      rw [canonicalKey_removed.1]
      decide
    rw [forwardedFor_reverseProxyHeader hout, values_stripClientIP, canonicalKey_removed.2,
      if_neg (show "X-Forwarded-For" ∉ ["X-Real-Ip", "True-Client-Ip", "Forwarded"] by decide)]
    simp only [isHopByHop_stripClientIP hhop]

theorem seesClient_upstream (hout : upstreamHeader remoteAddr r = some out) : SeesClient r out := by
  refine ⟨fun key hkey => ?_⟩
  rw [values_upstream hout hkey.1 hkey.2.1, if_neg hkey.2.2]

/-! ### The gateway -/

/-- The header with the session's bearer. -/
theorem values_withBearer (r : Request) (access key : String) :
    (withBearer r access).header.values key =
      if key = "Authorization" then ["Bearer " ++ access]
      else if key = "Cookie" then [] else r.header.values key := by
  by_cases hauth : key = "Authorization"
  · rw [hauth, if_pos rfl]
    exact Header.values_set_self canonicalKey_authorization
  · rw [if_neg hauth, withBearer,
      Header.values_set_of_ne (by rw [canonicalKey_authorization]; exact hauth), values_del,
      canonicalKey_cookie, values_del, canonicalKey_authorization, if_neg hauth]

theorem listed_withBearer (r : Request) (access key : String) :
    Listed (withBearer r access) key ↔ Listed r key := by
  unfold Listed
  rw [connectionNames_congr]
  rw [values_withBearer, if_neg (by decide), if_neg (by decide)]

theorem seesSession_upstream {access : String}
    (hout : upstreamHeader remoteAddr (withBearer r access) = some out) :
    SeesSession r access out := by
  have hvalues : ∀ key, IsPlain key →
      out.values key = if Listed r key then [] else (withBearer r access).header.values key := by
    intro key hkey
    rw [(seesClient_upstream hout).plain key hkey]
    simp only [listed_withBearer]
  have hplain : IsPlain "Cookie" ∧ IsPlain "Authorization" := by
    unfold IsPlain
    rw [canonicalKey_removed.1, canonicalKey_removed.2]
    decide
  refine ⟨?_, ?_, fun key hkey hcookie hauth => ?_⟩
  · have hcookie : (withBearer r access).header.values "Cookie" = [] := by
      rw [values_withBearer, if_neg (by decide), if_pos rfl]
    rw [hvalues _ hplain.1, hcookie, ite_self]
  · rw [hvalues _ hplain.2, values_withBearer, if_pos rfl]
  · rw [hvalues key hkey, values_withBearer, if_neg hauth, if_neg hcookie]

namespace Gateway

variable {g : Gateway} {refresher : TokenRefresher} {t : Readings} {m : Memory} {r : Request}

/-- Why a request is forwarded: there are no sessions, there is none and that is allowed, or it has
one. -/
theorem forwarded_cases {r' : Request}
    (h : (g.proxyWithSession refresher t m r).2 = .forwarded r') :
    (r' = r ∧ (g.disableAuth = true ∨ g.allowPassthrough = true ∧ ∀ id p, ¬ g.Resolves t m r id p)) ∨
      ∃ id p access, g.disableAuth = false ∧ g.Resolves t m r id p ∧
        g.checkCSRF r (m.heap p) = true ∧ (g.ensureFresh refresher t m p).2 = .ok access ∧
        r' = withBearer r access := by
  unfold proxyWithSession at h
  split at h
  next hauth =>
    cases h
    exact .inl ⟨rfl, .inl hauth⟩
  next hauth =>
    split at h
    next m' hs =>
      split at h
      next hpass =>
        cases h
        refine .inl ⟨rfl, .inr ⟨hpass, fun id p hr => ?_⟩⟩
        rw [hr.sessionFromRequest_eq] at hs
        cases hs
      · cases h
    next m' p hs =>
      obtain ⟨rfl, id, hr⟩ := resolves_of_sessionFromRequest hs
      split at h
      · cases h
      next hcsrf =>
        split at h
        · split at h <;> cases h
        next m₁ access hfresh =>
          cases h
          exact .inr ⟨id, p, access, by simpa using hauth, hr, by simpa using hcsrf, by rw [hfresh],
            rfl⟩

/-- **What the upstream sees.** Of every request that the gateway forwards, the client's claims
about its address are gone. A request with a session carries that session's bearer, no cookie and no
other credential, however the client has filled in its header; all it can do is to have the bearer
removed, by listing `Authorization` in `Connection`. Only without sessions, or where requests without one are
let through, does the upstream see the client's own fields. -/
theorem forwarded_upstream {remoteAddr : Bytes} {r' : Request} {out : Header}
    (h : (g.proxyWithSession refresher t m r).2 = .forwarded r')
    (hout : upstreamHeader remoteAddr r' = some out) :
    Attributed r remoteAddr out ∧
      ((SeesClient r out ∧
          (g.disableAuth = true ∨ g.allowPassthrough = true ∧ ∀ id p, ¬ g.Resolves t m r id p)) ∨
        ∃ id p access, g.disableAuth = false ∧ g.Resolves t m r id p ∧
          g.checkCSRF r (m.heap p) = true ∧ (g.ensureFresh refresher t m p).2 = .ok access ∧
          SeesSession r access out) := by
  obtain ⟨rfl, hwhy⟩ | ⟨id, p, access, hauth, hr, hcsrf, hfresh, rfl⟩ := forwarded_cases h
  · exact ⟨attributed_upstream hout, .inl ⟨seesClient_upstream hout, hwhy⟩⟩
  · have hattributed := attributed_upstream hout
    refine ⟨⟨hattributed.claims, ?_⟩, .inr ⟨id, p, access, hauth, hr, hcsrf, hfresh,
      seesSession_upstream hout⟩⟩
    have hprior : (withBearer r access).header.values "X-Forwarded-For" =
        r.header.values "X-Forwarded-For" := by
      rw [values_withBearer, if_neg (by decide), if_neg (by decide)]
    rw [hattributed.forwardedFor, hprior]
    simp only [listed_withBearer]

/-- A request that lists `Authorization` among the fields of its connection. -/
def getListing : Request where
  method := "GET"
  header := Header.ofFields [("cookie", "__Host-sid=s1"), ("connection", "close, authorization"),
    ("x-real-ip", "192.0.2.1"), ("authorization", "Bearer mine")]

theorem forwarded_upstream_listing :
    let g : Gateway := { cookie := { name := "sid", secure := true } }
    let fails : TokenRefresher := fun _ => .error (.leaf (.other "connection refused"))
    let t : Readings := ⟨0, 0, 0, 0, 0, 0, 0⟩
    ∃ r' out, (g.proxyWithSession fails t (oneSession Duration.hour) getListing).2 = .forwarded r' ∧
      upstreamHeader (ascii "10.0.0.9:1234") r' = some out ∧ out.values "Authorization" = [] ∧
      Attributed getListing (ascii "10.0.0.9:1234") out := by
  intro g fails t
  have hid : g.cookie.sessionID getListing = some "s1" := by decide +kernel
  have hs : g.sessionFromRequest t (oneSession Duration.hour) getListing =
      (oneSession Duration.hour, some 0) := Resolves.sessionFromRequest_eq ⟨hid, rfl, rfl⟩
  have hforwarded : (g.proxyWithSession fails t (oneSession Duration.hour) getListing).2 =
      .forwarded (withBearer getListing "at") := by
    simp only [proxyWithSession, hs]
    rfl
  have hsome : (upstreamHeader (ascii "10.0.0.9:1234") (withBearer getListing "at")).isSome := by
    decide +kernel
  obtain ⟨out, hout⟩ := Option.isSome_iff_exists.mp hsome
  obtain ⟨hattributed, ⟨-, hwhy⟩ | ⟨_, _, access, -, -, -, -, hsees⟩⟩ :=
    forwarded_upstream hforwarded hout
  · rcases hwhy with hwhy | ⟨hwhy, -⟩ <;> cases hwhy
  · refine ⟨_, out, hforwarded, hout, ?_, hattributed⟩
    rw [hsees.authorization, if_pos (by decide +kernel)]

end Gateway

end Bff
