import BackendKit.Bff.MemoryStore
import BackendKit.GoStd.Errors
import BackendKit.GoStd.Http

/-!
# The session gateway

`Gateway.ProxyWithSession` (`bff/gateway.go`): the handler that turns a session cookie into a
bearer token and forwards the request.

This module has the handler as one request runs it, over an in-memory store: no other goroutine
interferes, but every clock reading is arbitrary and so is the answer of the token endpoint. The
interleaving of several requests is the subject of `BackendKit.Bff.Refresh`, which uses the same
functions.

* `Memory` is a store together with the sessions it points to. Its fields state what
  `MemoryStore.State.Inv` states of every reachable state (`Memory.ofState`).
* `Gateway.Exit` lists the ways through the handler; `Gateway.exit_proxyWithSession` says that
  there are no others, and everything about the handler follows from it.
-/

open GoStd
open StepSystem (run_cons_eq_some)

namespace Bff

/-! ### The session cookie -/

/-- How the session cookie is emitted. -/
structure CookieConfig where
  name : String
  secure : Bool
  maxAge : ℤ := 0

namespace CookieConfig

/-- The name on the wire: with the `__Host-` prefix when `Secure`. -/
def cookieName (c : CookieConfig) : String :=
  if c.secure then "__Host-" ++ c.name else c.name

/-- The cookie that expires the session cookie. -/
def clearSession (c : CookieConfig) : Cookie :=
  { name := c.cookieName, value := "", path := "/", httpOnly := true, secure := c.secure,
    sameSiteStrict := true, maxAge := -1 }

/-- The session id in the request's cookie. -/
def sessionID (c : CookieConfig) (r : Request) : Option String :=
  match r.cookie c.cookieName with
  | none => none
  | some value => if value = "" then none else some value

end CookieConfig

/-! ### Refresh errors -/

/-- A non-2xx answer of the token endpoint (`socrate.OAuthError`). -/
structure OAuthError where
  statusCode : ℤ
  code : String
  description : String
  deriving DecidableEq, Repr

/-- An error value, as far as the gateway tells them apart. -/
inductive ErrorValue where
  | oauth (e : OAuthError)
  | other (text : String)
  deriving DecidableEq, Repr

/-- The target type of `errors.As(err, &oe)`. -/
def ErrorValue.oauth? : ErrorValue → Option OAuthError
  | .oauth e => some e
  | .other _ => none

/-- What a refresh can fail with. -/
abbrev RefreshError := GoStd.Error ErrorValue

/-- The refresh token has been rejected, so that the session is dead. -/
def isFatalRefreshError (err : RefreshError) : Bool :=
  match err.as ErrorValue.oauth? with
  | none => false
  | some oe =>
    match oe.code with
    | "invalid_grant" | "invalid_client" | "unauthorized_client" | "invalid_scope" => true
    | _ => false

/-- `TokenRefresher`: the answer to a refresh token. The token set is a pointer, so it may be
nil without an error. -/
abbrev TokenRefresher := String → Except RefreshError (Option TokenSet)

/-! ### The gateway's settings -/

/-- The header of the double-submit CSRF token, unless another is set. -/
def defaultCSRFHeader : String := "X-CSRF-Token"

/-- How far ahead of its expiry the access token is refreshed. -/
def defaultRefreshLeeway : ℤ := 30 * Duration.second

/-- How often the idle timestamp is written back. -/
def defaultTouchInterval : ℤ := Duration.minute

/-- The settings of a gateway. -/
structure Gateway where
  cookie : CookieConfig
  disableAuth : Bool := false
  allowPassthrough : Bool := false
  csrfHeader : String := ""
  refreshLeeway : ℤ := 0
  touchInterval : ℤ := 0

/-- `http.MethodPost`, `MethodPut`, `MethodPatch` and `MethodDelete` need a CSRF token. -/
def isUnsafeMethod (method : String) : Bool :=
  match method with
  | "POST" | "PUT" | "PATCH" | "DELETE" => true
  | _ => false

namespace Gateway

/-- The method `csrfHeader`. -/
def csrfHeaderOrDefault (g : Gateway) : String :=
  if g.csrfHeader ≠ "" then g.csrfHeader else defaultCSRFHeader

/-- The method `refreshLeeway`. -/
def refreshLeewayOrDefault (g : Gateway) : ℤ :=
  if 0 < g.refreshLeeway then g.refreshLeeway else defaultRefreshLeeway

/-- The method `touchInterval`. -/
def touchIntervalOrDefault (g : Gateway) : ℤ :=
  if g.touchInterval ≠ 0 then g.touchInterval else defaultTouchInterval

/-- The request carries the session's CSRF token, or does not need one. -/
def checkCSRF (g : Gateway) (r : Request) (s : Session) : Bool :=
  if !isUnsafeMethod r.method then true
  else s.matchCSRF (r.header.get g.csrfHeaderOrDefault)

/-- The idle timestamp is due to be written back at `now`. -/
def touchDue (g : Gateway) (s : Session) (now : ℤ) : Bool :=
  g.touchIntervalOrDefault < 0 || g.touchIntervalOrDefault ≤ Time.sub now s.lastSeen

theorem checkCSRF_iff (g : Gateway) (r : Request) (s : Session) :
    g.checkCSRF r s = true ↔ (isUnsafeMethod r.method = true →
      s.csrf ≠ "" ∧ r.header.get g.csrfHeaderOrDefault = s.csrf) := by
  unfold checkCSRF
  by_cases hmutating : isUnsafeMethod r.method = true
  · simp [hmutating, Session.matchCSRF_iff]
  · simp [hmutating]

end Gateway

/-! ### A store and its sessions -/

/-- An in-memory store and the sessions it points to. -/
structure Memory where
  store : MemoryStore
  heap : ℕ → Session
  disjoint : ∀ id, store.sessions id ≠ none → store.tombstones id = none
  keyed : ∀ id p, store.sessions id = some p → (heap p).id = id

namespace Memory

/-- The memory of a state that goroutines can reach. -/
def ofState (s : MemoryStore.State) (h : s.Inv) : Memory where
  store := s.store
  heap := s.heap
  disjoint := h.disjoint
  keyed id p hp := (h.keyed id p hp).2

/-- Change a session in a way that keeps its id. -/
def modify (m : Memory) (p : ℕ) (f : Session → Session) (hf : ∀ s, (f s).id = s.id) : Memory where
  store := m.store
  heap := Function.update m.heap p (f (m.heap p))
  disjoint := m.disjoint
  keyed id q hq := by
    by_cases heq : q = p
    · subst heq
      rw [Function.update_self, hf]
      exact m.keyed id q hq
    · rw [Function.update_of_ne heq]
      exact m.keyed id q hq

def touch (m : Memory) (p : ℕ) (now : ℤ) : Memory :=
  m.modify p (·.touch now) fun s => s.touch_id now

def setTokens (m : Memory) (p : ℕ) (ts : Option TokenSet) (now : ℤ) : Memory :=
  m.modify p (·.setTokens ts now) fun s => s.setTokens_id ts now

/-- `Store.Put`. -/
def put (m : Memory) (p : ℕ) : Memory where
  store := m.store.put p (m.heap p)
  heap := m.heap
  disjoint id hid := by
    rw [MemoryStore.tombstones_put]
    by_contra hgone
    by_cases heq : id = (m.heap p).id
    · subst heq
      rw [MemoryStore.put_eq_self _ hgone] at hid
      exact hgone (m.disjoint _ hid)
    · rw [MemoryStore.sessions_put_of_ne _ heq] at hid
      exact hgone (m.disjoint id hid)
  keyed id q hq := by
    by_cases heq : id = (m.heap p).id
    · subst heq
      by_cases hgone : m.store.tombstones (m.heap p).id = none
      · rw [MemoryStore.sessions_put_self _ hgone, Option.some.injEq] at hq
        rw [hq]
      · rw [MemoryStore.put_eq_self _ hgone] at hq
        exact m.keyed _ q hq
    · rw [MemoryStore.sessions_put_of_ne _ heq] at hq
      exact m.keyed id q hq

/-- `Store.Delete`. -/
def delete (m : Memory) (id : String) (now : ℤ) : Memory where
  store := m.store.delete id now
  heap := m.heap
  disjoint id' hid' := by
    by_cases heq : id' = id
    · subst heq
      simp at hid'
    · rw [MemoryStore.sessions_delete_of_ne _ _ heq] at hid'
      rw [MemoryStore.tombstones_delete_of_ne _ _ heq]
      exact m.disjoint id' hid'
  keyed id' q hq := by
    by_cases heq : id' = id
    · subst heq
      simp at hq
    · rw [MemoryStore.sessions_delete_of_ne _ _ heq] at hq
      exact m.keyed id' q hq

/-- `Store.Get`: the expiry check reads the clock, and so does the `Delete` of an expired
session. -/
def get (m : Memory) (id : String) (checkAt deleteAt : ℤ) : Memory × Option ℕ :=
  match m.store.sessions id with
  | none => (m, none)
  | some p =>
    if m.store.expired (m.heap p) checkAt then (m.delete id deleteAt, none) else (m, some p)

/-- `Get` is what the steps of a `Get` amount to when no other goroutine comes in between. -/
theorem exists_run_get {idle absolute : ℤ} {s : MemoryStore.State} (h : s.Inv) {g : ℕ}
    (id : String) {t : ℤ} (hg : s.gets g = none) (ht : s.clock ≤ t) :
    ∃ es s', (∀ e ∈ es, e.now = t ∧ e.action.getter = some g) ∧
      (MemoryStore.system idle absolute).run s es = some s' ∧
      s'.store = ((ofState s h).get id t t).1.store ∧
      s'.heap = ((ofState s h).get id t t).1.heap ∧ s'.gets g = none := by
  let after (store : MemoryStore) (c : Option MemoryStore.GetCall) : MemoryStore.State :=
    { s with clock := t, store, gets := Function.update s.gets g c }
  have hlookup : s.step ⟨t, .getLookup g id⟩ =
      some (after s.store ((s.store.sessions id).map (.looked id))) := by
    simp [MemoryStore.State.step, ht, MemoryStore.State.perform, hg, after]
  cases hp : s.store.sessions id with
  | none =>
    have hget : (ofState s h).get id t t = (ofState s h, none) := by
      simp [get, ofState, hp]
    refine ⟨[⟨t, .getLookup g id⟩], _, by simp [MemoryStore.Action.getter],
      (run_cons_eq_some _).mpr ⟨_, hlookup, rfl⟩, ?_⟩
    rw [hget]
    exact ⟨rfl, rfl, by simp [after, hp]⟩
  | some p =>
    rw [hp, Option.map_some] at hlookup
    have hcheck : (after s.store (some (.looked id p))).step ⟨t, .getCheck g⟩ = some (after s.store
        (if s.store.expired (s.heap p) t then some (.expired id) else none)) := by
      simp [MemoryStore.State.step, MemoryStore.State.perform, after]
    by_cases hexp : s.store.expired (s.heap p) t = true
    · have hget : (ofState s h).get id t t = ((ofState s h).delete id t, none) := by
        simp [get, ofState, hp, hexp]
      have hdelete : (after s.store (some (.expired id))).step ⟨t, .getDelete g⟩ =
          some (after (s.store.delete id t) none) := by
        simp [MemoryStore.State.step, MemoryStore.State.perform, after]
      rw [if_pos hexp] at hcheck
      refine ⟨[⟨t, .getLookup g id⟩, ⟨t, .getCheck g⟩, ⟨t, .getDelete g⟩], _,
        by simp [MemoryStore.Action.getter],
        (run_cons_eq_some _).mpr ⟨_, hlookup, (run_cons_eq_some _).mpr
          ⟨_, hcheck, (run_cons_eq_some _).mpr ⟨_, hdelete, rfl⟩⟩⟩, ?_⟩
      rw [hget]
      exact ⟨rfl, rfl, Function.update_self g _ _⟩
    · have hget : (ofState s h).get id t t = (ofState s h, some p) := by
        simp [get, ofState, hp, hexp]
      rw [if_neg hexp] at hcheck
      refine ⟨[⟨t, .getLookup g id⟩, ⟨t, .getCheck g⟩], _, by simp [MemoryStore.Action.getter],
        (run_cons_eq_some _).mpr ⟨_, hlookup, (run_cons_eq_some _).mpr
          ⟨_, hcheck, rfl⟩⟩, ?_⟩
      rw [hget]
      exact ⟨rfl, rfl, Function.update_self g _ _⟩

variable {id : String} {m : Memory} {p : ℕ} {checkAt deleteAt : ℤ}

theorem get_of_expired_eq_false (hp : m.store.sessions id = some p)
    (hexp : m.store.expired (m.heap p) checkAt = false) :
    m.get id checkAt deleteAt = (m, some p) := by
  simp [get, hp, hexp]

/-- A session that `Get` returns is stored under the id and has not expired, and `Get` has changed
nothing. -/
theorem get_eq_some (h : (m.get id checkAt deleteAt).2 = some p) :
    (m.get id checkAt deleteAt).1 = m ∧ m.store.sessions id = some p ∧
      m.store.expired (m.heap p) checkAt = false := by
  unfold get at h ⊢
  split at h
  · cases h
  · rename_i q hq
    split at h
    · cases h
    · rename_i hexp
      cases h
      simp [hexp, hq]

/-- `Get` removes no session that has not expired. -/
theorem sessions_get {id' : String} (hp : m.store.sessions id' = some p)
    (hexp : m.store.expired (m.heap p) checkAt = false) :
    (m.get id checkAt deleteAt).1.store.sessions id' = some p := by
  unfold get
  split
  · exact hp
  · rename_i q hq
    split
    · rename_i hgone
      -- the session that is deleted is another one
      have hne : id' ≠ id := by
        rintro rfl
        rw [hq] at hp
        cases hp
        rw [hexp] at hgone
        cases hgone
      exact (MemoryStore.sessions_delete_of_ne _ _ hne).trans hp
    · exact hp

@[simp]
theorem modify_id (m : Memory) (p q : ℕ) (f : Session → Session) (hf : ∀ s, (f s).id = s.id) :
    ((m.modify p f hf).heap q).id = (m.heap q).id := by
  by_cases heq : q = p
  · subst heq
    simp [modify, hf]
  · simp [modify, Function.update_of_ne heq]

/-- Writing a stored session back after changing it keeps every session where it is. -/
theorem sessions_modify_put {f : Session → Session} {hf : ∀ s, (f s).id = s.id}
    (hp : m.store.sessions id = some p) :
    ((m.modify p f hf).put p).store.sessions = m.store.sessions := by
  have hid : ((m.modify p f hf).heap p).id = id := (m.modify_id p p f hf).trans (m.keyed id p hp)
  have hnone : m.store.tombstones id = none := m.disjoint id (by rw [hp]; exact Option.some_ne_none p)
  funext id'
  by_cases heq : id' = id
  · subst heq
    have := MemoryStore.sessions_put_self (m.modify p f hf).store (p := p)
      (s := (m.modify p f hf).heap p) (by rw [hid]; exact hnone)
    rw [hid] at this
    exact this.trans hp.symm
  · exact MemoryStore.sessions_put_of_ne _ (by rw [hid]; exact heq)

end Memory

/-! ### The handler -/

/-- The clock readings of one request, in the order in which they are taken. -/
structure Readings where
  /-- `Store.Get`: the expiry check, and the `Delete` of an expired session. -/
  getCheck : ℤ
  getDelete : ℤ
  /-- `EnsureFresh`: the outer and the inner validity check, and `SetTokens`. -/
  outer : ℤ
  inner : ℤ
  setTokens : ℤ
  /-- `Store.Delete` after a rejected refresh. -/
  delete : ℤ
  /-- The touch of the idle timestamp. -/
  touch : ℤ

/-- What becomes of a request. -/
inductive Outcome where
  /-- It is handed to the reverse proxy. -/
  | forwarded (r : Request)
  /-- The gateway answers it. -/
  | answered (resp : Response)

/-- The request that is forwarded: without the client's `Authorization` and `Cookie`, with the
session's bearer. -/
def withBearer (r : Request) (access : String) : Request :=
  { r with
    header := ((r.header.del "Authorization").del "Cookie").set "Authorization"
      ("Bearer " ++ access) }

namespace Gateway

variable (g : Gateway) (refresher : TokenRefresher) (t : Readings) (m : Memory) (r : Request)

/-- Resolve the session of the request's cookie. -/
def sessionFromRequest : Memory × Option ℕ :=
  match g.cookie.sessionID r with
  | none => (m, none)
  | some id => m.get id t.getCheck t.getDelete

/-- A valid access token for the session at `p`, refreshed if it is about to expire. -/
def ensureFresh (p : ℕ) : Memory × Except RefreshError String :=
  if (m.heap p).accessValid t.outer g.refreshLeewayOrDefault then
    (m, .ok (m.heap p).accessToken)
  else if (m.heap p).accessValid t.inner g.refreshLeewayOrDefault then
    (m, .ok (m.heap p).accessToken)
  else
    match refresher (m.heap p).refreshToken with
    | .error err => (m, .error err)
    | .ok ts =>
      let m := (m.setTokens p ts t.setTokens).put p
      (m, .ok (m.heap p).accessToken)

/-- Slide the idle timestamp and write the session back, if that is due. -/
def touchSession (p : ℕ) : Memory :=
  if g.touchDue (m.heap p) t.touch then (m.touch p t.touch).put p else m

/-- The handler of `ProxyWithSession`. -/
def proxyWithSession : Memory × Outcome :=
  if g.disableAuth then (m, .forwarded r)
  else
    match g.sessionFromRequest t m r with
    | (m, none) =>
      if g.allowPassthrough then (m, .forwarded r)
      else (m, .answered (httpError "authentication required" 401 []))
    | (m, some p) =>
      if !g.checkCSRF r (m.heap p) then
        (m, .answered (httpError "missing or invalid CSRF token" 403 []))
      else
        match g.ensureFresh refresher t m p with
        | (m, .error err) =>
          if isFatalRefreshError err then
            (m.delete (m.heap p).id t.delete,
              .answered (httpError "session expired" 401 [g.cookie.clearSession]))
          else (m, .answered (httpError "token refresh unavailable" 502 []))
        | (m, .ok access) => (g.touchSession t m p, .forwarded (withBearer r access))

/-! ### The ways through the handler -/

/-- The request's cookie resolves to the session at `p`, stored under `id` and not expired. -/
structure Resolves (id : String) (p : ℕ) : Prop where
  cookie : g.cookie.sessionID r = some id
  stored : m.store.sessions id = some p
  live : m.store.expired (m.heap p) t.getCheck = false

/-- The ways through the handler when sessions are enforced, with the memory and the outcome at
the end. -/
inductive Exit : Memory × Outcome → Prop
  /-- No live session. -/
  | unauthenticated (hnone : ∀ id p, ¬ g.Resolves t m r id p)
      (hkept : ∀ id p, m.store.sessions id = some p →
        m.store.expired (m.heap p) t.getCheck = false →
        (g.sessionFromRequest t m r).1.store.sessions id = some p) :
      Exit ((g.sessionFromRequest t m r).1,
        .answered (httpError "authentication required" 401 []))
  /-- The CSRF token is missing or wrong. -/
  | csrf (id : String) (p : ℕ) (hr : g.Resolves t m r id p)
      (hcsrf : g.checkCSRF r (m.heap p) = false) :
      Exit (m, .answered (httpError "missing or invalid CSRF token" 403 []))
  /-- The refresh token was rejected. -/
  | rejected (id : String) (p : ℕ) (err : RefreshError) (hr : g.Resolves t m r id p)
      (hcsrf : g.checkCSRF r (m.heap p) = true)
      (hfresh : (g.ensureFresh refresher t m p).2 = .error err)
      (hfatal : isFatalRefreshError err = true) :
      Exit (m.delete id t.delete,
        .answered (httpError "session expired" 401 [g.cookie.clearSession]))
  /-- The refresh failed for another reason. -/
  | unavailable (id : String) (p : ℕ) (err : RefreshError) (hr : g.Resolves t m r id p)
      (hcsrf : g.checkCSRF r (m.heap p) = true)
      (hfresh : (g.ensureFresh refresher t m p).2 = .error err)
      (hfatal : isFatalRefreshError err = false) :
      Exit (m, .answered (httpError "token refresh unavailable" 502 []))
  /-- The request is forwarded. -/
  | forwarded (id : String) (p : ℕ) (access : String) (m' : Memory)
      (hr : g.Resolves t m r id p) (hcsrf : g.checkCSRF r (m.heap p) = true)
      (hfresh : (g.ensureFresh refresher t m p).2 = .ok access)
      (hkept : m'.store.sessions = m.store.sessions) :
      Exit (m', .forwarded (withBearer r access))

variable {g refresher t m r}

variable {id : String} {p : ℕ}

/-- At most one session is the request's. -/
theorem Resolves.unique {id' : String} {p' : ℕ} (h : g.Resolves t m r id p)
    (h' : g.Resolves t m r id' p') : id' = id ∧ p' = p := by
  have hid : id' = id := Option.some.inj (h'.cookie.symm.trans h.cookie)
  subst hid
  exact ⟨rfl, Option.some.inj (h'.stored.symm.trans h.stored)⟩

theorem Resolves.sessionFromRequest_eq (h : g.Resolves t m r id p) :
    g.sessionFromRequest t m r = (m, some p) := by
  simp only [sessionFromRequest, h.cookie]
  exact Memory.get_of_expired_eq_false h.stored h.live

/-- The session that the handler goes on with is the one the cookie resolves to. -/
theorem resolves_of_sessionFromRequest {m' : Memory} (h : g.sessionFromRequest t m r = (m', some p)) :
    m' = m ∧ ∃ id, g.Resolves t m r id p := by
  unfold sessionFromRequest at h
  split at h
  · cases h
  · rename_i id hid
    obtain ⟨hsame, hstored, hlive⟩ := Memory.get_eq_some (congrArg Prod.snd h)
    exact ⟨(congrArg Prod.fst h).symm.trans hsame, id, hid, hstored, hlive⟩

/-- Resolving the cookie removes no live session. -/
theorem sessions_sessionFromRequest (hp : m.store.sessions id = some p)
    (hlive : m.store.expired (m.heap p) t.getCheck = false) :
    (g.sessionFromRequest t m r).1.store.sessions id = some p := by
  unfold sessionFromRequest
  split
  · exact hp
  · exact Memory.sessions_get hp hlive

/-- A failed refresh changes nothing. -/
theorem ensureFresh_error {m' : Memory} {err : RefreshError}
    (h : g.ensureFresh refresher t m p = (m', .error err)) : m' = m := by
  unfold ensureFresh at h
  split at h
  · cases h
  split at h
  · cases h
  split at h
  · cases h
    rfl
  · cases h

/-- Refreshing a stored session leaves every session where it is. -/
theorem sessions_ensureFresh (hp : m.store.sessions id = some p) :
    (g.ensureFresh refresher t m p).1.store.sessions = m.store.sessions := by
  unfold ensureFresh
  split
  · rfl
  split
  · rfl
  split
  · rfl
  · exact Memory.sessions_modify_put hp

/-- Touching a stored session leaves every session where it is. -/
theorem sessions_touchSession (hp : m.store.sessions id = some p) :
    (g.touchSession t m p).store.sessions = m.store.sessions := by
  unfold touchSession
  split
  · exact Memory.sessions_modify_put hp
  · rfl

/-- When sessions are enforced there are no other ways through the handler. -/
theorem exit_proxyWithSession (hauth : g.disableAuth = false) (hpass : g.allowPassthrough = false) :
    g.Exit refresher t m r (g.proxyWithSession refresher t m r) := by
  rw [proxyWithSession, hauth, hpass, if_neg Bool.false_ne_true]
  rcases hs : g.sessionFromRequest t m r with ⟨m', _ | p⟩
  · -- no live session: the memory is what the lookup left
    have hm' : m' = (g.sessionFromRequest t m r).1 := by rw [hs]
    simp only [Bool.false_eq_true, if_false, hm']
    refine .unauthenticated (fun id p h => ?_) fun id p => sessions_sessionFromRequest
    rw [h.sessionFromRequest_eq] at hs
    cases hs
  · obtain ⟨rfl, id, hr⟩ := resolves_of_sessionFromRequest hs
    by_cases hcsrf : g.checkCSRF r (m'.heap p) = true
    · simp only [hcsrf, Bool.not_true, Bool.false_eq_true, if_false]
      rcases hf : g.ensureFresh refresher t m' p with ⟨m₁, err | access⟩
      · -- a failed refresh has not touched the session, so only the fatal branch removes anything
        have hsame := ensureFresh_error hf
        subst hsame
        have hfresh : (g.ensureFresh refresher t m₁ p).2 = .error err := by rw [hf]
        by_cases hfatal : isFatalRefreshError err = true
        · simp only [hfatal, if_true, m₁.keyed id p hr.stored]
          exact .rejected id p err hr hcsrf hfresh hfatal
        · simp only [hfatal, Bool.false_eq_true, if_false]
          exact .unavailable id p err hr hcsrf hfresh (Bool.not_eq_true _ ▸ hfatal)
      · have hfresh : (g.ensureFresh refresher t m' p).2 = .ok access := by rw [hf]
        have hkept : m₁.store.sessions = m'.store.sessions := by
          have hsame : (g.ensureFresh refresher t m' p).1.store.sessions = m'.store.sessions :=
            sessions_ensureFresh hr.stored
          rw [← hsame, hf]
        refine .forwarded id p access _ hr hcsrf hfresh ?_
        have hstored : m₁.store.sessions id = some p := by
          rw [hkept]
          exact hr.stored
        rw [sessions_touchSession hstored, hkept]
    · rw [Bool.not_eq_true] at hcsrf
      simp only [hcsrf, Bool.not_false, if_true]
      exact .csrf id p hr hcsrf

/-! ### The handler is fail-closed -/

/-- The request gets as far as a refresh of the session at `p`, stored under `id`, and the refresh
token is rejected. -/
def RefreshRejected (g : Gateway) (refresher : TokenRefresher) (t : Readings) (m : Memory)
    (r : Request) (id : String) (p : ℕ) : Prop :=
  g.cookie.sessionID r = some id ∧ g.checkCSRF r (m.heap p) = true ∧
    ∃ err, (g.ensureFresh refresher t m p).2 = .error err ∧ isFatalRefreshError err = true

/-- No `Cookie` field, however it is spelled, is forwarded. -/
theorem values_withBearer_cookie (r : Request) (access : String) {key : String}
    (hkey : canonicalKey key = "Cookie") : (withBearer r access).header.values key = [] := by
  by_cases heq : key = "Cookie"
  · have hne : key ≠ canonicalKey "Authorization" := by
      rw [heq, canonicalKey_authorization]
      decide
    rw [withBearer, Header.values_set_of_ne hne, heq, Header.values_del_self canonicalKey_cookie]
  · exact Header.values_eq_nil (by rw [hkey]; exact fun h => heq h.symm)

/-- The only `Authorization` value that is forwarded is the session's bearer. -/
theorem values_withBearer_authorization (r : Request) (access : String) {key : String}
    (hkey : canonicalKey key = "Authorization") :
    (withBearer r access).header.values key =
      if key = "Authorization" then ["Bearer " ++ access] else [] := by
  split
  · rename_i heq
    subst heq
    exact Header.values_set_self hkey
  · rename_i hne
    exact Header.values_eq_nil (by rw [hkey]; exact fun h => hne h.symm)

/-- The handler is fail-closed and its error paths touch what they say. With sessions enforced:

* a request is forwarded only if its cookie resolves to a live session and, for a mutating
  method, it carries that session's CSRF token; it then has no `Cookie` and, whatever the client
  sent, one `Authorization` value, the bearer that `EnsureFresh` returned;
* a 403 or 502 answer leaves the store and its sessions unchanged;
* a live session is removed exactly if it is the request's and its refresh was rejected. -/
theorem proxyWithSession_failClosed (g : Gateway) (refresher : TokenRefresher) (t : Readings)
    (m : Memory) (r : Request) (hauth : g.disableAuth = false)
    (hpass : g.allowPassthrough = false) :
    (∀ fwd, (g.proxyWithSession refresher t m r).2 = .forwarded fwd →
      ∃ id p access, g.Resolves t m r id p ∧
        (isUnsafeMethod r.method = true →
          (m.heap p).csrf ≠ "" ∧ r.header.get g.csrfHeaderOrDefault = (m.heap p).csrf) ∧
        (g.ensureFresh refresher t m p).2 = .ok access ∧
        (∀ key, canonicalKey key = "Cookie" → fwd.header.values key = []) ∧
        ∀ key, canonicalKey key = "Authorization" →
          fwd.header.values key = if key = "Authorization" then ["Bearer " ++ access] else []) ∧
    (∀ resp, (g.proxyWithSession refresher t m r).2 = .answered resp →
      resp.status = 403 ∨ resp.status = 502 → (g.proxyWithSession refresher t m r).1 = m) ∧
    ∀ id p, m.store.sessions id = some p → m.store.expired (m.heap p) t.getCheck = false →
      ((g.proxyWithSession refresher t m r).1.store.sessions id = none ↔
        g.RefreshRejected refresher t m r id p) := by
  have hexit : g.Exit refresher t m r (g.proxyWithSession refresher t m r) :=
    exit_proxyWithSession hauth hpass
  generalize g.proxyWithSession refresher t m r = out at hexit
  refine ⟨?_, ?_, ?_⟩
  · intro fwd hfwd
    cases hexit with
    | forwarded id p access m' hr hcsrf hfresh hkept =>
      cases hfwd
      exact ⟨id, p, access, hr, (g.checkCSRF_iff r _).mp hcsrf, hfresh,
        fun key => values_withBearer_cookie r access,
        fun key => values_withBearer_authorization r access⟩
    | unauthenticated | csrf | rejected | unavailable => cases hfwd
  · intro resp hresp hstatus
    cases hexit with
    | csrf | unavailable => rfl
    | unauthenticated | rejected =>
      cases hresp
      rcases hstatus with h | h <;> cases h
    | forwarded => cases hresp
  · intro id p hp hlive
    -- a live session stays unless the request resolved to it and its refresh was rejected
    have hkeeps : ∀ {m' : Memory}, m'.store.sessions id = some p →
        ¬ g.RefreshRejected refresher t m r id p →
        (m'.store.sessions id = none ↔ g.RefreshRejected refresher t m r id p) := by
      intro m' hstored hnot
      rw [hstored]
      exact iff_of_false (Option.some_ne_none p) hnot
    cases hexit with
    | unauthenticated hnone hkept =>
      exact hkeeps (hkept id p hp hlive) fun h => hnone id p ⟨h.1, hp, hlive⟩
    | csrf id' p' hr hcsrf =>
      refine hkeeps hp fun h => ?_
      obtain ⟨rfl, rfl⟩ := hr.unique ⟨h.1, hp, hlive⟩
      have hpassed := h.2.1
      rw [hcsrf] at hpassed
      cases hpassed
    | rejected id' p' err hr hcsrf hfresh hfatal =>
      by_cases heq : id = id'
      · subst heq
        obtain ⟨-, rfl⟩ := hr.unique ⟨hr.cookie, hp, hlive⟩
        exact iff_of_true (MemoryStore.sessions_delete_self _ _ _)
          ⟨hr.cookie, hcsrf, err, hfresh, hfatal⟩
      · refine hkeeps ((MemoryStore.sessions_delete_of_ne _ _ heq).trans hp) fun h => ?_
        exact heq (hr.unique ⟨h.1, hp, hlive⟩).1
    | unavailable id' p' err hr hcsrf hfresh hfatal =>
      refine hkeeps hp fun h => ?_
      obtain ⟨rfl, rfl⟩ := hr.unique ⟨h.1, hp, hlive⟩
      obtain ⟨err', hfresh', hfatal'⟩ := h.2.2
      rw [hfresh] at hfresh'
      cases hfresh'
      rw [hfatal] at hfatal'
      cases hfatal'
    | forwarded id' p' access m' hr hcsrf hfresh hkept =>
      refine hkeeps (by rw [hkept]; exact hp) fun h => ?_
      obtain ⟨rfl, rfl⟩ := hr.unique ⟨h.1, hp, hlive⟩
      obtain ⟨err, herr, -⟩ := h.2.2
      rw [hfresh] at herr
      cases herr

section Example

/-- One logged-in browser. -/
def oneSession (accessExpiry : ℤ) : Memory where
  store := { MemoryStore.new 0 0 with sessions := fun id => if id = "s1" then some 0 else none }
  heap _ := { id := "s1", accessToken := "at", refreshToken := "rt", accessExpiry, csrf := "c" }
  disjoint _ _ := rfl
  keyed id p hp := by
    simp only [Option.ite_none_right_eq_some] at hp
    exact hp.1.symm

/-- A `POST` with a bearer of its own. -/
def postWithBearer : Request where
  method := "POST"
  header := Header.ofFields [("cookie", "a=b; __Host-sid=s1"), ("x-csrf-token", "c"),
    ("authorization", "Bearer mine"), ("AUTHORIZATION", "Basic mine")]

theorem sessionID_postWithBearer :
    ({ name := "sid", secure := true } : CookieConfig).sessionID postWithBearer = some "s1" := by
  decide +kernel

/-- With a valid access token the session's bearer is forwarded, alone; with an expired one that
cannot be renewed the session is removed if the refresh token was rejected, and nothing changes
if the token endpoint was out of reach. -/
theorem proxyWithSession_failClosed_post :
    let g : Gateway := { cookie := { name := "sid", secure := true } }
    let rejects : TokenRefresher := fun _ => .error (.leaf (.oauth ⟨400, "invalid_grant", ""⟩))
    let fails : TokenRefresher := fun _ => .error (.leaf (.other "connection refused"))
    let t : Readings := ⟨0, 0, 0, 0, 0, 0, 0⟩
    (∃ fwd, (g.proxyWithSession fails t (oneSession Duration.hour) postWithBearer).2
        = .forwarded fwd ∧
      fwd.header.values "Authorization" = ["Bearer at"] ∧ fwd.header.values "Cookie" = []) ∧
    (g.proxyWithSession fails t (oneSession 0) postWithBearer).1 = oneSession 0 ∧
    (g.proxyWithSession rejects t (oneSession 0) postWithBearer).1.store.sessions "s1" = none := by
  intro g rejects fails t
  have hid : g.cookie.sessionID postWithBearer = some "s1" := sessionID_postWithBearer
  have hcsrf : ∀ e, g.checkCSRF postWithBearer ((oneSession e).heap 0) = true := by
    intro e
    have : postWithBearer.header.get g.csrfHeaderOrDefault = "c" := by decide +kernel
    simp [checkCSRF, this, oneSession, Session.matchCSRF]
  have hs : ∀ e, g.sessionFromRequest t (oneSession e) postWithBearer = (oneSession e, some 0) :=
    fun e => Resolves.sessionFromRequest_eq ⟨hid, rfl, rfl⟩
  refine ⟨?_, ?_, ?_⟩
  · have hout : (g.proxyWithSession fails t (oneSession Duration.hour) postWithBearer).2 =
        .forwarded (withBearer postWithBearer "at") := by
      simp only [proxyWithSession, hs, hcsrf]
      rfl
    obtain ⟨id, p, access, hr, -, hfresh, hcookie, hauthz⟩ :=
      (proxyWithSession_failClosed g fails t (oneSession Duration.hour) postWithBearer rfl rfl).1
        _ hout
    refine ⟨_, hout, ?_, hcookie "Cookie" canonicalKey_cookie⟩
    cases hfresh
    exact hauthz "Authorization" canonicalKey_authorization
  · refine (proxyWithSession_failClosed g fails t (oneSession 0) postWithBearer rfl rfl).2.1
      (httpError "token refresh unavailable" 502 []) ?_ (.inr rfl)
    simp only [proxyWithSession, hs, hcsrf]
    rfl
  · exact ((proxyWithSession_failClosed g rejects t (oneSession 0) postWithBearer rfl rfl).2.2
      "s1" 0 rfl rfl).mpr ⟨hid, hcsrf 0, _, rfl, rfl⟩

end Example

end Gateway

end Bff
