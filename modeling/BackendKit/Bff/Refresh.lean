import BackendKit.Bff.Gateway
import BackendKit.GoStd.SingleFlight

/-!
# Concurrent token refresh

`ProxyWithSession` and `EnsureFresh` (`bff/gateway.go`) as any number of requests run them that
carry the same session cookie.

Each request goes through the handler of `BackendKit.Bff.Gateway` step by step: a step is one
critical section of a session or of the store, one SQL statement, or one clock reading. The
requests that find the access token stale meet in a single flight, whose body runs on the session
of the request that entered first. Every clock reading is arbitrary, and so are the answers of the
token endpoint; `Honest` is the assumption that a successful answer carries a new refresh token.

The store is a `Backend`: it hands out the address of a live session, as the in-memory store does,
or a snapshot from which `Get` rehydrates a session of its own, as the durable store does.

With the in-memory store all requests share one session. Then the single flight is enough:
`single_use` says that no refresh token is presented again once it has been exchanged, and that
all callers of one flight leave with the same result. The durable store is the subject of
`BackendKit.Bff.RefreshDurable`.
-/

open GoStd GoStd.SingleFlight
open Function (forall_update_iff update update_of_ne update_self)

namespace Bff

namespace Refresh

/-! ### Stores -/

/-- What a store's lookup yields. -/
inductive Found where
  /-- The address of a live session. -/
  | shared (p : ℕ)
  /-- The state of a session, to be rehydrated. -/
  | copy (snap : SessionSnapshot)

/-- What the gateway uses of a `SessionStore`. `Get` is a lookup, an expiry check and, if the
session has expired, a removal. -/
structure Backend (σ : Type) where
  lookup : σ → String → Option Found
  expired : σ → Session → ℤ → Bool
  remove : σ → String → ℤ → σ
  put : σ → ℕ → Session → σ
  delete : σ → String → ℤ → σ
  sweep : σ → (ℕ → Session) → (String → ℤ) → ℤ → σ

/-- The in-memory store. -/
def Backend.memory : Backend MemoryStore where
  lookup m id := (m.sessions id).map .shared
  expired m s now := m.expired s now
  remove m id now := m.delete id now
  put m p s := m.put p s
  delete m id now := m.delete id now
  sweep m heap nowAt now := m.sweep heap nowAt now

/-! ### Requests and flights -/

/-- Where a request is in the handler. -/
inductive Pc where
  | start
  /-- `Store.Get` has read the store. -/
  | looked (f : Found)
  /-- `Store.Get` found the session expired and removes it next. -/
  | expired
  /-- `Store.Get` has returned the session at `p`. -/
  | fetched (p : ℕ)
  /-- The CSRF check has passed. -/
  | checked (p : ℕ)
  /-- The outer check found the access token valid. -/
  | valid (p : ℕ)
  /-- The outer check found it stale; `refreshGroup.Do` is entered next. -/
  | stale (p : ℕ)
  /-- In `refreshGroup.Do`, on flight `n`. -/
  | waiting (p n : ℕ)
  /-- The refresh was rejected; the session is deleted next. -/
  | rejected (p : ℕ)
  /-- `EnsureFresh` has returned an access token. -/
  | fresh (p : ℕ) (access : String)
  /-- The idle timestamp is due; the session is touched next. -/
  | due (p : ℕ) (access : String) (now : ℤ)
  /-- The session was touched; it is written back next. -/
  | touched (p : ℕ) (access : String)
  /-- `Store.Put` has taken its snapshot. -/
  | putting (p : ℕ) (access : String) (snap : Session)
  | done (o : Outcome)

/-- The session a request holds. -/
def Pc.session : Pc → Option ℕ
  | .looked (.shared p) => some p
  | .fetched p => some p
  | .checked p => some p
  | .valid p => some p
  | .stale p => some p
  | .waiting p _ => some p
  | .rejected p => some p
  | .fresh p _ => some p
  | .due p _ _ => some p
  | .touched p _ => some p
  | .putting p _ _ => some p
  | _ => none

/-- The request holds nothing but its session: it has not just read the store, is in no flight and
has taken no snapshot. -/
def Pc.plain : Pc → Bool
  | .looked _ => false
  | .waiting _ _ => false
  | .putting _ _ _ => false
  | _ => true

/-- Where the body of a flight is. -/
inductive Phase where
  | start
  /-- The inner check found the access token valid. -/
  | valid
  /-- The inner check found it stale; the refresher is called next. -/
  | stale
  /-- The refresher was called with `token`. -/
  | calling (token : String)
  /-- It has exchanged `token`; the token set is applied next. -/
  | granted (token : String) (ts : Option TokenSet)
  /-- The token set was applied; the session is written through next. -/
  | applied (token : String)
  /-- `Store.Put` has taken its snapshot. -/
  | putting (token : String) (snap : Session)
  /-- The session was written through. -/
  | written
  /-- The body returns. -/
  | returning (result : Except RefreshError String)

/-- The token that the flight has exchanged and not yet written through. -/
def Phase.exchanged : Phase → Option String
  | .granted token _ => some token
  | .applied token => some token
  | .putting token _ => some token
  | _ => none

/-- The flight has exchanged a token and not yet applied the new one to its session. -/
def Phase.isGranted : Phase → Bool
  | .granted _ _ => true
  | _ => false

/-- The flight has called the refresher and waits for its answer. -/
def Phase.isCalling : Phase → Bool
  | .calling _ => true
  | _ => false

/-- A running flight: the request that leads it, its session and its body. -/
structure Flight where
  leader : ℕ
  session : ℕ
  phase : Phase

/-- The gateway, its store and the requests in progress. -/
structure State (σ : Type) where
  store : σ
  heap : ℕ → Session
  /-- The first unused address of the heap. -/
  next : ℕ
  requests : ℕ → Pc
  group : Group String (Except RefreshError String)
  /-- The bodies of the running flights. -/
  flights : ℕ → Option Flight
  /-- Every refresh token that was presented or issued so far. -/
  seen : List String
  /-- The refresh tokens that a successful refresh has exchanged. -/
  spent : List String
  /-- What the callers of a flight have left with. -/
  received : List (ℕ × Except RefreshError String)
  /-- How many refreshes have been written through to the store. -/
  writes : ℕ
  /-- How many there were when a request last read or refreshed its session. -/
  readAt : ℕ → ℕ

/-- A step of a request, with the clock reading it takes. -/
inductive RequestStep where
  | lookup
  | checkExpiry (now : ℤ)
  | removeExpired (now : ℤ)
  | checkCSRF
  | outerCheck (now : ℤ)
  | readToken
  | enterDo
  | leaveDo
  | deleteSession (now : ℤ)
  | touchCheck (now : ℤ)
  | touch
  | putSnapshot
  | putExec

/-- A step of the body of a flight, with the clock reading it takes. -/
inductive FlightStep where
  | innerCheck (now : ℤ)
  | callRefresh
  | refreshReturns (answer : Except RefreshError (Option TokenSet))
  | setTokens (now : ℤ)
  | putSnapshot
  | putExec
  | returnToken
  | finish

/-- A step of the system. -/
inductive Action where
  | request (i : ℕ) (a : RequestStep)
  | flight (n : ℕ) (a : FlightStep)
  /-- A logout elsewhere. -/
  | logout (now : ℤ)
  | sweep (nowAt : String → ℤ) (now : ℤ)

/-- A gateway over a store, the session id in the cookie, and the requests that carry it. -/
structure Setup (σ : Type) where
  gateway : Gateway
  backend : Backend σ
  sid : String
  request : ℕ → Request

variable {σ : Type}

namespace State

/-- The request `i` goes on to `pc`. -/
def move (s : State σ) (i : ℕ) (pc : Pc) : State σ :=
  { s with requests := update s.requests i pc }

/-- The body of the flight `n`, which is `f`, goes on to `phase`. -/
def advance (s : State σ) (n : ℕ) (f : Flight) (phase : Phase) : State σ :=
  { s with flights := update s.flights n (some { f with phase }) }

/-- The store changes. -/
def setStore (s : State σ) (store : σ) : State σ := { s with store }

/-- Change the session at `p`. -/
def modify (s : State σ) (p : ℕ) (f : Session → Session) : State σ :=
  { s with heap := update s.heap p (f (s.heap p)) }

/-- `NewSessionFromSnapshot`: a session of its own. -/
def rehydrate (s : State σ) (snap : SessionSnapshot) : State σ :=
  { s with heap := update s.heap s.next (Session.ofSnapshot snap), next := s.next + 1 }

/-- The request `i` reads the store. -/
def noteRead (s : State σ) (i : ℕ) : State σ :=
  { s with readAt := update s.readAt i s.writes }

/-- The flight led by the request `i` has written its session through. -/
def noteWrite (s : State σ) (i : ℕ) : State σ :=
  { s with writes := s.writes + 1, readAt := update s.readAt i (s.writes + 1) }

/-- A caller leaves the flight `n` with `result`. -/
def noteReceived (s : State σ) (n : ℕ) (result : Except RefreshError String) : State σ :=
  { s with received := (n, result) :: s.received }

/-- The refresher is called with `token`. -/
def noteCall (s : State σ) (token : String) : State σ := { s with seen := token :: s.seen }

/-- A refresh has exchanged `token` for a new one. -/
def noteExchange (s : State σ) (token : String) (ts : Option TokenSet) : State σ :=
  { s with spent := token :: s.spent, seen := (ts.map TokenSet.refreshToken).toList ++ s.seen }

/-- The request `i`, which holds the session at `p`, enters `refreshGroup.Do`: it joins the flight
of the session's id or leads a new one. -/
def enterDo (s : State σ) (i p : ℕ) : State σ :=
  let key := (s.heap p).id
  let n := s.group.flightOf key
  let flights := match s.group.running key with
    | some _ => s.flights
    | none => update s.flights n (some ⟨i, p, .start⟩)
  { s with group := s.group.enter key, flights }.move i (.waiting p n)

/-- The flight `n` for the id `key` ends. -/
def endFlight (s : State σ) (n : ℕ) (key : String) (result : Except RefreshError String) : State σ :=
  { s with group := s.group.finish key result, flights := update s.flights n none }

end State

namespace Setup

variable (M : Setup σ)

/-- What a request does with the answer of `EnsureFresh`. -/
def answer (p : ℕ) : Except RefreshError String → Pc
  | .ok access => .fresh p access
  | .error err =>
    if isFatalRefreshError err then .rejected p
    else .done (.answered (httpError "token refresh unavailable" 502 []))

/-- What becomes of a request whose session is missing or has expired. -/
def unauthenticated (i : ℕ) : Pc :=
  if M.gateway.allowPassthrough then .done (.forwarded (M.request i))
  else .done (.answered (httpError "authentication required" 401 []))

/-- A step of the request `i`. -/
def requestStep (s : State σ) (i : ℕ) (a : RequestStep) : Option (State σ) :=
  match a, s.requests i with
  | .lookup, .start =>
    match M.backend.lookup s.store M.sid with
    | none => some (s.move i (M.unauthenticated i))
    | some f => some ((s.noteRead i).move i (.looked f))
  | .checkExpiry now, .looked (.shared p) =>
    some (s.move i (if M.backend.expired s.store (s.heap p) now then .expired else .fetched p))
  | .checkExpiry now, .looked (.copy snap) =>
    if M.backend.expired s.store (Session.ofSnapshot snap) now then some (s.move i .expired)
    else some ((s.rehydrate snap).move i (.fetched s.next))
  | .removeExpired now, .expired =>
    some ((s.setStore (M.backend.remove s.store M.sid now)).move i (M.unauthenticated i))
  | .checkCSRF, .fetched p =>
    some (s.move i (if M.gateway.checkCSRF (M.request i) (s.heap p) then .checked p
      else .done (.answered (httpError "missing or invalid CSRF token" 403 []))))
  | .outerCheck now, .checked p =>
    some (s.move i (if (s.heap p).accessValid now M.gateway.refreshLeewayOrDefault then .valid p
      else .stale p))
  | .readToken, .valid p => some (s.move i (.fresh p (s.heap p).accessToken))
  | .enterDo, .stale p => some (s.enterDo i p)
  | .leaveDo, .waiting p n =>
    match s.group.results n with
    | none => none
    | some result => some ((s.noteReceived n result).move i (answer p result))
  | .deleteSession now, .rejected p =>
    some ((s.setStore (M.backend.delete s.store (s.heap p).id now)).move i
      (.done (.answered (httpError "session expired" 401 [M.gateway.cookie.clearSession]))))
  | .touchCheck now, .fresh p access =>
    some (s.move i (if M.gateway.touchDue (s.heap p) now then .due p access now
      else .done (.forwarded (withBearer (M.request i) access))))
  | .touch, .due p access now =>
    some ((s.modify p (·.touch now)).move i (.touched p access))
  | .putSnapshot, .touched p access => some (s.move i (.putting p access (s.heap p)))
  | .putExec, .putting p access snap =>
    some ((s.setStore (M.backend.put s.store p snap)).move i
      (.done (.forwarded (withBearer (M.request i) access))))
  | _, _ => none

/-- A step of the body of the flight `n`, which is `f`. -/
def flightStep (s : State σ) (n : ℕ) (f : Flight) (a : FlightStep) : Option (State σ) :=
  match a, f.phase with
  | .innerCheck now, .start =>
    some (s.advance n f
      (if (s.heap f.session).accessValid now M.gateway.refreshLeewayOrDefault then .valid
        else .stale))
  | .callRefresh, .stale =>
    let token := (s.heap f.session).refreshToken
    some ((s.noteCall token).advance n f (.calling token))
  | .refreshReturns (.error err), .calling _ => some (s.advance n f (.returning (.error err)))
  | .refreshReturns (.ok ts), .calling token =>
    some ((s.noteExchange token ts).advance n f (.granted token ts))
  | .setTokens now, .granted token ts =>
    some ((s.modify f.session (·.setTokens ts now)).advance n f (.applied token))
  | .putSnapshot, .applied token => some (s.advance n f (.putting token (s.heap f.session)))
  | .putExec, .putting _ snap =>
    some (((s.setStore (M.backend.put s.store f.session snap)).noteWrite f.leader).advance n f
      .written)
  | .returnToken, .valid =>
    some (s.advance n f (.returning (.ok (s.heap f.session).accessToken)))
  | .returnToken, .written =>
    some (s.advance n f (.returning (.ok (s.heap f.session).accessToken)))
  | .finish, .returning result => some (s.endFlight n (s.heap f.session).id result)
  | _, _ => none

/-- One step. -/
def step (s : State σ) : Action → Option (State σ)
  | .request i a => M.requestStep s i a
  | .flight n a =>
    match s.flights n with
    | none => none
    | some f => M.flightStep s n f a
  | .logout now => some (s.setStore (M.backend.delete s.store M.sid now))
  | .sweep nowAt now => some (s.setStore (M.backend.sweep s.store s.heap nowAt now))

/-- All interleavings of the requests. At the start no request has begun. -/
def system : StepSystem (State σ) Action where
  IsInit s :=
    (∀ i, s.requests i = .start) ∧ s.group = .empty ∧ (∀ n, s.flights n = none) ∧
      s.spent = [] ∧ s.received = [] ∧ s.writes = 0 ∧ ∀ i, s.readAt i = 0
  step := M.step

end Setup

/-- A successful answer of the token endpoint carries a refresh token that has not been presented
or issued before. -/
def Honest (s : State σ) : Action → Prop
  | .flight _ (.refreshReturns (.ok none)) => False
  | .flight _ (.refreshReturns (.ok (some t))) => t.refreshToken ≠ "" ∧ t.refreshToken ∉ s.seen
  | _ => True

instance (s : State σ) : (a : Action) → Decidable (Honest s a)
  | .flight _ (.refreshReturns (.ok none)) => isFalse id
  | .flight _ (.refreshReturns (.ok (some _))) => inferInstanceAs (Decidable (_ ∧ _))
  | .flight _ (.refreshReturns (.error _)) => isTrue trivial
  | .flight _ (.innerCheck _) => isTrue trivial
  | .flight _ .callRefresh => isTrue trivial
  | .flight _ (.setTokens _) => isTrue trivial
  | .flight _ .putSnapshot => isTrue trivial
  | .flight _ .putExec => isTrue trivial
  | .flight _ .returnToken => isTrue trivial
  | .flight _ .finish => isTrue trivial
  | .request _ _ => isTrue trivial
  | .logout _ => isTrue trivial
  | .sweep _ _ => isTrue trivial

variable {s : State σ} {M : Setup σ} {s' : State σ}

theorem Honest.exists_token {n : ℕ} {ts : Option TokenSet}
    (h : Honest s (.flight n (.refreshReturns (.ok ts)))) :
    ∃ t, ts = some t ∧ t.refreshToken ≠ "" ∧ t.refreshToken ∉ s.seen := by
  cases ts with
  | none => exact h.elim
  | some t => exact ⟨t, rfl, h⟩

/-- The refresh token that the step `a` presents to the refresher. -/
def State.presents (s : State σ) (a : Action) : Option String :=
  match a with
  | .flight n .callRefresh =>
    match s.flights n with
    | some ⟨_, p, .stale⟩ => some (s.heap p).refreshToken
    | _ => none
  | _ => none

/-! ### What one step can do -/

/-- Everything a step can do. Steps that only move one request or one flight along are taken
together. -/
inductive Change (M : Setup σ) (s : State σ) : Action → State σ → Prop
  | quiet (i : ℕ) (a : RequestStep) (pc : Pc)
      (hbefore : (s.requests i).plain = true ∨ ∃ f, s.requests i = .looked f)
      (hplain : pc.plain = true) (hsession : pc.session = none ∨ pc.session = (s.requests i).session) :
      Change M s (.request i a) (s.move i pc)
  | looked (i : ℕ) (f : Found) (hpc : s.requests i = .start)
      (hf : M.backend.lookup s.store M.sid = some f) :
      Change M s (.request i .lookup) ((s.noteRead i).move i (.looked f))
  | rehydrated (i : ℕ) (now : ℤ) (snap : SessionSnapshot)
      (hpc : s.requests i = .looked (.copy snap)) :
      Change M s (.request i (.checkExpiry now)) ((s.rehydrate snap).move i (.fetched s.next))
  | removed (i : ℕ) (a : RequestStep) (store : σ) (pc : Pc)
      (hstore : ∃ id now, store = M.backend.remove s.store id now ∨
        store = M.backend.delete s.store id now)
      (hbefore : (s.requests i).plain = true)
      (hplain : pc.plain = true) (hsession : pc.session = none) :
      Change M s (.request i a) ((s.setStore store).move i pc)
  | entered (i p : ℕ) (hpc : s.requests i = .stale p) :
      Change M s (.request i .enterDo) (s.enterDo i p)
  | left (i p n : ℕ) (result : Except RefreshError String) (hpc : s.requests i = .waiting p n)
      (hresult : s.group.results n = some result) :
      Change M s (.request i .leaveDo)
        ((s.noteReceived n result).move i (Setup.answer p result))
  | touched (i p : ℕ) (access : String) (now : ℤ) (hpc : s.requests i = .due p access now) :
      Change M s (.request i .touch) ((s.modify p (·.touch now)).move i (.touched p access))
  | snapshot (i p : ℕ) (access : String) (hpc : s.requests i = .touched p access) :
      Change M s (.request i .putSnapshot) (s.move i (.putting p access (s.heap p)))
  | put (i p : ℕ) (access : String) (snap : Session) (hpc : s.requests i = .putting p access snap) :
      Change M s (.request i .putExec) ((s.setStore (M.backend.put s.store p snap)).move i
        (.done (.forwarded (withBearer (M.request i) access))))
  | advanced (n : ℕ) (a : FlightStep) (f : Flight) (phase : Phase) (hf : s.flights n = some f)
      (hbefore : f.phase.exchanged = none) (hafter : phase.exchanged = none)
      (hcalling : phase.isCalling = false) : Change M s (.flight n a) (s.advance n f phase)
  | called (n : ℕ) (f : Flight) (hf : s.flights n = some f) (hphase : f.phase = .stale) :
      Change M s (.flight n .callRefresh) ((s.noteCall (s.heap f.session).refreshToken).advance n f
        (.calling (s.heap f.session).refreshToken))
  | exchanged (n : ℕ) (f : Flight) (token : String) (ts : Option TokenSet)
      (hf : s.flights n = some f) (hphase : f.phase = .calling token) :
      Change M s (.flight n (.refreshReturns (.ok ts)))
        ((s.noteExchange token ts).advance n f (.granted token ts))
  | applied (n : ℕ) (f : Flight) (token : String) (ts : Option TokenSet) (now : ℤ)
      (hf : s.flights n = some f) (hphase : f.phase = .granted token ts) :
      Change M s (.flight n (.setTokens now))
        ((s.modify f.session (·.setTokens ts now)).advance n f (.applied token))
  | flightSnapshot (n : ℕ) (f : Flight) (token : String) (hf : s.flights n = some f)
      (hphase : f.phase = .applied token) :
      Change M s (.flight n .putSnapshot) (s.advance n f (.putting token (s.heap f.session)))
  | written (n : ℕ) (f : Flight) (token : String) (snap : Session) (hf : s.flights n = some f)
      (hphase : f.phase = .putting token snap) :
      Change M s (.flight n .putExec)
        (((s.setStore (M.backend.put s.store f.session snap)).noteWrite f.leader).advance n f
          .written)
  | finished (n : ℕ) (f : Flight) (result : Except RefreshError String)
      (hf : s.flights n = some f) (hphase : f.phase = .returning result) :
      Change M s (.flight n .finish) (s.endFlight n (s.heap f.session).id result)
  | loggedOut (now : ℤ) :
      Change M s (.logout now) (s.setStore (M.backend.delete s.store M.sid now))
  | swept (nowAt : String → ℤ) (now : ℤ) :
      Change M s (.sweep nowAt now) (s.setStore (M.backend.sweep s.store s.heap nowAt now))

/-- A request that keeps its session or drops it holds no other. -/
theorem session_of_kept {x y : Option ℕ} {p : ℕ} (h : x = none ∨ x = y) (hp : x = some p) :
    y = some p := by
  rcases h with rfl | rfl
  · cases hp
  · exact hp

theorem answer_plain (p : ℕ) (result : Except RefreshError String) :
    (Setup.answer p result).plain = true ∧
      ((Setup.answer p result).session = none ∨ (Setup.answer p result).session = some p) := by
  unfold Setup.answer
  split
  · exact ⟨rfl, Or.inr rfl⟩
  · split
    · exact ⟨rfl, Or.inr rfl⟩
    · exact ⟨rfl, Or.inl rfl⟩

theorem unauthenticated_plain (M : Setup σ) (i : ℕ) :
    (M.unauthenticated i).plain = true ∧ (M.unauthenticated i).session = none := by
  unfold Setup.unauthenticated
  split <;> exact ⟨rfl, rfl⟩

/-- Every step of a request is one of the changes. -/
theorem requestStep_cases {i : ℕ} {a : RequestStep} (h : M.requestStep s i a = some s') :
    Change M s (.request i a) s' := by
  unfold Setup.requestStep at h
  have hplain : ∀ {pc : Pc}, s.requests i = pc → pc.plain = true →
      (s.requests i).plain = true := fun hpc h => hpc ▸ h
  split at h
  · rename_i hpc
    split at h
    · cases h
      exact .quiet i _ _ (.inl (hplain hpc rfl)) (unauthenticated_plain M i).1
        (.inl (unauthenticated_plain M i).2)
    · rename_i f hf
      cases h
      exact .looked i f hpc hf
  · rename_i now p hpc
    cases h
    refine .quiet i _ _ (.inr ⟨_, hpc⟩) ?_ ?_
    · split <;> rfl
    · rw [hpc]
      split
      · exact .inl rfl
      · exact .inr rfl
  · rename_i now snap hpc
    split at h
    · cases h
      exact .quiet i _ _ (.inr ⟨_, hpc⟩) rfl (.inl rfl)
    · cases h
      exact .rehydrated i now snap hpc
  · rename_i now hpc
    cases h
    exact .removed i _ _ _ ⟨_, _, Or.inl rfl⟩ (hplain hpc rfl) (unauthenticated_plain M i).1
      (unauthenticated_plain M i).2
  · rename_i p hpc
    cases h
    refine .quiet i _ _ (.inl (hplain hpc rfl)) ?_ ?_
    · split <;> rfl
    · rw [hpc]
      split
      · exact .inr rfl
      · exact .inl rfl
  · rename_i now p hpc
    cases h
    refine .quiet i _ _ (.inl (hplain hpc rfl)) ?_ ?_
    · split <;> rfl
    · rw [hpc]
      split <;> exact .inr rfl
  · rename_i p hpc
    cases h
    exact .quiet i _ _ (.inl (hplain hpc rfl)) rfl (.inr (by rw [hpc]; rfl))
  · rename_i p hpc
    cases h
    exact .entered i p hpc
  · rename_i p n hpc
    split at h
    · cases h
    · rename_i result hresult
      cases h
      exact .left i p n result hpc hresult
  · rename_i now p hpc
    cases h
    exact .removed i _ _ _ ⟨_, _, Or.inr rfl⟩ (hplain hpc rfl) rfl rfl
  · rename_i now p access hpc
    cases h
    refine .quiet i _ _ (.inl (hplain hpc rfl)) ?_ ?_
    · split <;> rfl
    · rw [hpc]
      split
      · exact .inr rfl
      · exact .inl rfl
  · rename_i p access now hpc
    cases h
    exact .touched i p access now hpc
  · rename_i p access hpc
    cases h
    exact .snapshot i p access hpc
  · rename_i p access snap hpc
    cases h
    exact .put i p access snap hpc
  · cases h

/-- Every step of a flight is one of the changes. -/
theorem flightStep_cases {n : ℕ} {f : Flight} {a : FlightStep} (hf : s.flights n = some f)
    (h : M.flightStep s n f a = some s') :
    Change M s (.flight n a) s' := by
  unfold Setup.flightStep at h
  split at h
  · rename_i now hphase
    cases h
    refine .advanced n _ f _ hf (by rw [hphase]; rfl) ?_ ?_
    · split <;> rfl
    · split <;> rfl
  · rename_i hphase
    cases h
    exact .called n f hf hphase
  · rename_i err token hphase
    cases h
    exact .advanced n _ f _ hf (by rw [hphase]; rfl) rfl rfl
  · rename_i ts token hphase
    cases h
    exact .exchanged n f token ts hf hphase
  · rename_i now token ts hphase
    cases h
    exact .applied n f token ts now hf hphase
  · rename_i token hphase
    cases h
    exact .flightSnapshot n f token hf hphase
  · rename_i token snap hphase
    cases h
    exact .written n f token snap hf hphase
  · rename_i hphase
    cases h
    exact .advanced n _ f _ hf (by rw [hphase]; rfl) rfl rfl
  · rename_i hphase
    cases h
    exact .advanced n _ f _ hf (by rw [hphase]; rfl) rfl rfl
  · rename_i result hphase
    cases h
    exact .finished n f result hf hphase
  · cases h

/-- Every step is one of the changes. -/
theorem step_cases {a : Action} (h : M.system.step s a = some s') : Change M s a s' := by
  change M.step s a = some s' at h
  cases a with
  | request i a => exact requestStep_cases h
  | flight n a =>
    simp only [Setup.step] at h
    split at h
    · cases h
    · rename_i f hf
      exact flightStep_cases hf h
  | logout now =>
    cases h
    exact .loggedOut now
  | sweep nowAt now =>
    cases h
    exact .swept nowAt now

/-! ### The running flights after a step -/

section Flights

variable {s : State σ} {n m : ℕ} {f f' : Flight}

theorem flights_advance {phase : Phase} (h : (s.advance n f phase).flights m = some f') :
    m = n ∧ f' = { f with phase } ∨ m ≠ n ∧ s.flights m = some f' := by
  by_cases heq : m = n
  · subst heq
    simp only [State.advance, update_self, Option.some.injEq] at h
    exact .inl ⟨rfl, h.symm⟩
  · simp only [State.advance, update_of_ne heq] at h
    exact .inr ⟨heq, h⟩

theorem flights_endFlight {key : String} {result : Except RefreshError String}
    (h : (s.endFlight n key result).flights m = some f') : m ≠ n ∧ s.flights m = some f' := by
  by_cases heq : m = n
  · subst heq
    simp [State.endFlight] at h
  · simp only [State.endFlight, update_of_ne heq] at h
    exact ⟨heq, h⟩

theorem flights_enterDo {i p : ℕ} (h : (s.enterDo i p).flights m = some f') :
    s.flights m = some f' ∨ s.group.running (s.heap p).id = none ∧
      m = s.group.flightOf (s.heap p).id ∧ f' = ⟨i, p, .start⟩ := by
  simp only [State.enterDo, State.move] at h
  split at h
  · exact .inl h
  · rename_i hnone
    by_cases heq : m = s.group.flightOf (s.heap p).id
    · subst heq
      rw [update_self, Option.some.injEq] at h
      exact .inr ⟨hnone, rfl, h.symm⟩
    · rw [update_of_ne heq] at h
      exact .inl h

end Flights

/-! ### One flight at a time -/

/-- A store files sessions under their ids, and only `Put` adds to it. -/
structure Backend.Lawful (B : Backend σ) : Prop where
  lookup_put : ∀ store p s id f, B.lookup (B.put store p s) id = some f →
    B.lookup store id = some f ∨ s.id = id ∧ (f = .shared p ∨ f = .copy s.snapshot)
  lookup_remove : ∀ store id now id' f, B.lookup (B.remove store id now) id' = some f →
    B.lookup store id' = some f
  lookup_delete : ∀ store id now id' f, B.lookup (B.delete store id now) id' = some f →
    B.lookup store id' = some f
  lookup_sweep : ∀ store heap nowAt now id f,
    B.lookup (B.sweep store heap nowAt now) id = some f → B.lookup store id = some f

section Holds

variable (heap : ℕ → Session) (next : ℕ) (id : String)

/-- The address `p` is in use, by a session of the given id. -/
def Holds (p : ℕ) : Prop :=
  p < next ∧ (heap p).id = id

/-- What a lookup yields is a session of the given id. -/
def Yields : Found → Prop
  | .shared p => Holds heap next id p
  | .copy snap => snap.id = id

/-- The sessions and snapshots of a request belong to the given id. -/
structure Owns (pc : Pc) : Prop where
  session : ∀ p, pc.session = some p → Holds heap next id p
  looked : ∀ snap, pc = .looked (.copy snap) → snap.id = id
  putting : ∀ p access snap, pc = .putting p access snap → snap.id = id

/-- The sessions and snapshots of a flight belong to the given id. -/
structure Flies (f : Flight) : Prop where
  session : Holds heap next id f.session
  putting : ∀ token snap, f.phase = .putting token snap → snap.id = id

variable {heap next id}

theorem Holds.modify {p q : ℕ} {x : Session} (hx : x.id = (heap q).id) (h : Holds heap next id p) :
    Holds (update heap q x) next id p := by
  refine ⟨h.1, ?_⟩
  by_cases heq : p = q
  · subst heq
    rw [update_self, hx]
    exact h.2
  · rw [update_of_ne heq]
    exact h.2

theorem Holds.rehydrate {p : ℕ} (x : Session) (h : Holds heap next id p) :
    Holds (update heap next x) (next + 1) id p := by
  refine ⟨Nat.lt_succ_of_lt h.1, ?_⟩
  rw [update_of_ne (Nat.ne_of_lt h.1)]
  exact h.2

theorem holds_rehydrate_next {x : Session} (h : x.id = id) :
    Holds (update heap next x) (next + 1) id next := by
  refine ⟨Nat.lt_succ_self _, ?_⟩
  rw [update_self]
  exact h

section Mono

variable {heap' : ℕ → Session} {next' : ℕ}
  (hmono : ∀ p, Holds heap next id p → Holds heap' next' id p)

include hmono

theorem Yields.mono {f : Found} (h : Yields heap next id f) : Yields heap' next' id f := by
  cases f with
  | shared p => exact hmono p h
  | copy snap => exact h

theorem Owns.mono {pc : Pc} (h : Owns heap next id pc) : Owns heap' next' id pc :=
  ⟨fun p hp => hmono p (h.session p hp), h.looked, h.putting⟩

theorem Flies.mono {f : Flight} (h : Flies heap next id f) : Flies heap' next' id f :=
  ⟨hmono _ h.session, h.putting⟩

end Mono

/-- A plain request belongs to the id of its session. -/
theorem owns_of_plain {pc : Pc} (hplain : pc.plain = true)
    (hsession : ∀ p, pc.session = some p → Holds heap next id p) : Owns heap next id pc where
  session := hsession
  looked snap heq := by
    rw [heq] at hplain
    cases hplain
  putting p access snap heq := by
    rw [heq] at hplain
    cases hplain

end Holds

/-- Everything in the system belongs to one id, so at most one flight is running, and a caller
leaves a flight with the flight's result. -/
structure Coherent (M : Setup σ) (s : State σ) : Prop where
  group : s.group.WellFormed
  stored : ∀ f, M.backend.lookup s.store M.sid = some f → Yields s.heap s.next M.sid f
  requests : ∀ i, Owns s.heap s.next M.sid (s.requests i)
  flights : ∀ n f, s.flights n = some f →
    Flies s.heap s.next M.sid f ∧ s.group.running M.sid = some n
  received : ∀ n result, (n, result) ∈ s.received → s.group.results n = some result

namespace Coherent

variable {M : Setup σ} {s : State σ}

theorem move (h : Coherent M s) {i : ℕ} {pc : Pc} (hpc : Owns s.heap s.next M.sid pc) :
    Coherent M (s.move i pc) where
  group := h.group
  stored := h.stored
  requests := (forall_update_iff _ fun _ pc => Owns s.heap s.next M.sid pc).mpr
    ⟨hpc, fun j _ => h.requests j⟩
  flights := h.flights
  received := h.received

theorem setStore (h : Coherent M s) {store : σ}
    (hstore : ∀ f, M.backend.lookup store M.sid = some f → Yields s.heap s.next M.sid f) :
    Coherent M (s.setStore store) :=
  ⟨h.group, hstore, h.requests, h.flights, h.received⟩

theorem noteRead (h : Coherent M s) (i : ℕ) : Coherent M (s.noteRead i) :=
  ⟨h.group, h.stored, h.requests, h.flights, h.received⟩

theorem noteWrite (h : Coherent M s) (i : ℕ) : Coherent M (s.noteWrite i) :=
  ⟨h.group, h.stored, h.requests, h.flights, h.received⟩

theorem noteCall (h : Coherent M s) (token : String) : Coherent M (s.noteCall token) :=
  ⟨h.group, h.stored, h.requests, h.flights, h.received⟩

theorem noteExchange (h : Coherent M s) (token : String) (ts : Option TokenSet) :
    Coherent M (s.noteExchange token ts) :=
  ⟨h.group, h.stored, h.requests, h.flights, h.received⟩

theorem advance (h : Coherent M s) {n : ℕ} {f : Flight} (hf : s.flights n = some f) {phase : Phase}
    (hphase : ∀ token snap, phase = .putting token snap → snap.id = M.sid) :
    Coherent M (s.advance n f phase) where
  group := h.group
  stored := h.stored
  requests := h.requests
  flights := by
    intro m f' hf'
    rcases flights_advance hf' with ⟨rfl, rfl⟩ | ⟨-, hf'⟩
    · obtain ⟨hflies, hrunning⟩ := h.flights m f hf
      exact ⟨⟨hflies.session, hphase⟩, hrunning⟩
    · exact h.flights m f' hf'
  received := h.received

theorem modify (h : Coherent M s) {p : ℕ} {f : Session → Session} (hf : ∀ x, (f x).id = x.id) :
    Coherent M (s.modify p f) where
  group := h.group
  stored f' hf' := (h.stored f' hf').mono fun _ => Holds.modify (hf _)
  requests i := (h.requests i).mono fun _ => Holds.modify (hf _)
  flights n f' hf' := ⟨(h.flights n f' hf').1.mono fun _ => Holds.modify (hf _),
    (h.flights n f' hf').2⟩
  received := h.received

theorem rehydrate (h : Coherent M s) (snap : SessionSnapshot) : Coherent M (s.rehydrate snap) where
  group := h.group
  stored f hf := (h.stored f hf).mono fun _ => Holds.rehydrate _
  requests i := (h.requests i).mono fun _ => Holds.rehydrate _
  flights n f hf := ⟨(h.flights n f hf).1.mono fun _ => Holds.rehydrate _,
    (h.flights n f hf).2⟩
  received := h.received

/-- The only flight that can be running is that of the session's id. -/
theorem flight_unique (h : Coherent M s) {n m : ℕ} {f f' : Flight} (hf : s.flights n = some f)
    (hf' : s.flights m = some f') : m = n ∧ f' = f := by
  have hmn : m = n := Option.some.inj ((h.flights m f' hf').2.symm.trans (h.flights n f hf).2)
  subst hmn
  exact ⟨rfl, Option.some.inj (hf'.symm.trans hf)⟩

theorem enterDo (h : Coherent M s) {i p : ℕ} (hp : Holds s.heap s.next M.sid p) :
    Coherent M (s.enterDo i p) where
  group := h.group.enter _
  stored := h.stored
  requests := (forall_update_iff _ fun _ pc => Owns s.heap s.next M.sid pc).mpr
    ⟨⟨fun q hq => by cases hq; exact hp, fun _ heq => (by cases heq),
      fun _ _ _ heq => (by cases heq)⟩, fun j _ => h.requests j⟩
  flights n f hf := by
    have hgroup : (s.enterDo i p).group = s.group.enter M.sid := by
      rw [← hp.2]
      rfl
    rw [hgroup]
    rcases flights_enterDo hf with hf | ⟨-, rfl, rfl⟩
    · obtain ⟨hflies, hrunning⟩ := h.flights n f hf
      rw [Group.enter_of_running hrunning]
      exact ⟨hflies, hrunning⟩
    · rw [Group.running_enter, hp.2]
      exact ⟨⟨hp, fun _ _ heq => by cases heq⟩, rfl⟩
  received n result hr := by
    have hresults : (s.enterDo i p).group.results = s.group.results := Group.results_enter _ _
    rw [hresults]
    exact h.received n result hr

theorem endFlight (h : Coherent M s) {n : ℕ} {f : Flight} (hf : s.flights n = some f)
    (result : Except RefreshError String) : Coherent M (s.endFlight n M.sid result) where
  group := h.group.finish _ _
  stored := h.stored
  requests := h.requests
  flights m f' hf' := by
    -- the flight that ends was the only one
    obtain ⟨hne, hf'⟩ := flights_endFlight hf'
    exact absurd (h.flight_unique hf hf').1 hne
  received m r hr := Group.results_finish h.group (h.received m r hr)

end Coherent

variable {M : Setup σ} {s : State σ}

/-- Writing a session of the cookie's id keeps the store coherent, whoever writes it. -/
theorem Coherent.put (hB : M.backend.Lawful) (hs : Coherent M s) {q : ℕ} {x : Session}
    (hq : Holds s.heap s.next M.sid q) :
    Coherent M (s.setStore (M.backend.put s.store q x)) := by
  refine hs.setStore fun f hf => ?_
  rcases hB.lookup_put _ _ _ _ f hf with hf | ⟨hid, rfl | rfl⟩
  · exact hs.stored f hf
  · exact hq
  · exact hid

/-- Every step keeps the system coherent. -/
theorem coherent_step (hB : M.backend.Lawful) {s' : State σ} {a : Action} (hs : Coherent M s)
    (h : M.system.step s a = some s') : Coherent M s' := by
  have hdone : ∀ {o}, Owns s.heap s.next M.sid (.done o) :=
    owns_of_plain rfl fun p hp => by cases hp
  cases step_cases h with
  | quiet i a pc hbefore hplain hsession =>
    refine hs.move (owns_of_plain hplain fun p hp => ?_)
    exact (hs.requests i).session p (session_of_kept hsession hp)
  | looked i f hpc hf =>
    have hyields := hs.stored f hf
    refine (hs.noteRead i).move
      ⟨fun p hp => ?_, fun snap heq => ?_, fun _ _ _ heq => (by cases heq)⟩
    · cases f with
      | shared q =>
        cases hp
        exact hyields
      | copy snap => cases hp
    · cases heq
      exact hyields
  | rehydrated i now snap hpc =>
    refine (hs.rehydrate snap).move (owns_of_plain rfl fun p hp => ?_)
    cases hp
    exact holds_rehydrate_next ((hs.requests i).looked snap hpc)
  | removed i a store pc hstore hbefore hplain hsession =>
    refine (hs.setStore fun f hf => hs.stored f ?_).move
      (owns_of_plain hplain fun p hp => by rw [hsession] at hp; cases hp)
    obtain ⟨id, now, rfl | rfl⟩ := hstore
    · exact hB.lookup_remove _ _ _ _ f hf
    · exact hB.lookup_delete _ _ _ _ f hf
  | entered i p hpc => exact hs.enterDo ((hs.requests i).session p (by rw [hpc]; rfl))
  | left i p n result hpc hresult =>
    have hp : Holds s.heap s.next M.sid p := (hs.requests i).session p (by rw [hpc]; rfl)
    refine Coherent.move (s := s.noteReceived n result)
      ⟨hs.group, hs.stored, hs.requests, hs.flights, fun m r hr => ?_⟩
      (owns_of_plain (answer_plain p result).1 fun q hq => ?_)
    · rcases List.mem_cons.mp hr with heq | hr
      · cases heq
        exact hresult
      · exact hs.received m r hr
    · cases session_of_kept (answer_plain p result).2 hq
      exact hp
  | touched i p access now hpc =>
    refine (hs.modify fun x => x.touch_id now).move (owns_of_plain rfl fun q hq => ?_)
    cases hq
    exact Holds.modify rfl ((hs.requests i).session p (by rw [hpc]; rfl))
  | snapshot i p access hpc =>
    have hp : Holds s.heap s.next M.sid p := (hs.requests i).session p (by rw [hpc]; rfl)
    refine hs.move ⟨fun q hq => ?_, fun _ heq => (by cases heq), fun _ _ _ heq => ?_⟩
    · cases hq
      exact hp
    · cases heq
      exact hp.2
  | put i p access snap hpc =>
    exact (hs.put hB ((hs.requests i).session p (by rw [hpc]; rfl))).move hdone
  | advanced n a f phase hf hbefore hafter hcalling =>
    refine hs.advance hf fun token snap heq => ?_
    rw [heq] at hafter
    cases hafter
  | called n f hf hphase =>
    exact (hs.noteCall _).advance hf fun token snap heq => by cases heq
  | exchanged n f token ts hf hphase =>
    exact (hs.noteExchange token ts).advance hf fun _ _ heq => by cases heq
  | applied n f token ts now hf hphase =>
    exact (hs.modify fun x => x.setTokens_id ts now).advance hf fun _ _ heq => by cases heq
  | flightSnapshot n f token hf hphase =>
    refine hs.advance hf fun _ _ heq => ?_
    cases heq
    exact (hs.flights n f hf).1.session.2
  | written n f token snap hf hphase =>
    have hput : Coherent M (s.setStore (M.backend.put s.store f.session snap)) :=
      hs.put hB (hs.flights n f hf).1.session
    exact (hput.noteWrite f.leader).advance hf fun _ _ heq => by cases heq
  | finished n f result hf hphase =>
    rw [(hs.flights n f hf).1.session.2]
    exact hs.endFlight hf result
  | loggedOut now => exact hs.setStore fun f hf => hs.stored f (hB.lookup_delete _ _ _ _ f hf)
  | swept nowAt now => exact hs.setStore fun f hf => hs.stored f (hB.lookup_sweep _ _ _ _ _ f hf)

theorem coherent_run (hB : M.backend.Lawful) {s' : State σ} {as : List Action}
    (h : M.system.run s as = some s') (hs : Coherent M s) : Coherent M s' :=
  StepSystem.run_invariant' (I := Coherent M) (fun _ _ _ hs h => coherent_step hB hs h) h hs

/-- At the start the system is coherent if the store holds nothing but the session of its id. -/
theorem coherent_of_isInit (h : M.system.IsInit s)
    (hstored : ∀ f, M.backend.lookup s.store M.sid = some f → Yields s.heap s.next M.sid f) :
    Coherent M s := by
  obtain ⟨hrequests, hgroup, hflights, -, hreceived, -, -⟩ := h
  refine ⟨hgroup ▸ Group.wellFormed_empty, hstored, fun i => ?_, fun n f hf => ?_, fun n r hr => ?_⟩
  · rw [hrequests i]
    exact owns_of_plain rfl fun p hp => by cases hp
  · rw [hflights n] at hf
    cases hf
  · rw [hreceived] at hr
    cases hr

/-! ### Requests that share one session -/

/-- The store hands out addresses: after a `Put` it may yield the session that was put. -/
def Backend.Live (B : Backend σ) : Prop :=
  ∀ store p s id f, B.lookup (B.put store p s) id = some f → B.lookup store id = some f ∨ f = .shared p

/-- The session at `p` is the only one that the store yields and that requests and flights hold. -/
structure Sharing (M : Setup σ) (p : ℕ) (s : State σ) : Prop where
  stored : ∀ f, M.backend.lookup s.store M.sid = some f → f = .shared p
  looked : ∀ i f, s.requests i = .looked f → f = .shared p
  requests : ∀ i q, (s.requests i).session = some q → q = p
  flights : ∀ n f, s.flights n = some f → f.session = p

namespace Sharing

variable {M : Setup σ} {p : ℕ} {s : State σ}

theorem move (h : Sharing M p s) {i : ℕ} {pc : Pc} (hlooked : ∀ f, pc = .looked f → f = .shared p)
    (hsession : ∀ q, pc.session = some q → q = p) : Sharing M p (s.move i pc) where
  stored := h.stored
  looked := (forall_update_iff _ fun _ pc => ∀ f, pc = Pc.looked f → f = .shared p).mpr
    ⟨hlooked, fun j _ => h.looked j⟩
  requests := (forall_update_iff _ fun _ pc => ∀ q, Pc.session pc = some q → q = p).mpr
    ⟨hsession, fun j _ => h.requests j⟩
  flights := h.flights

theorem move_plain (h : Sharing M p s) {i : ℕ} {pc : Pc} (hplain : pc.plain = true)
    (hsession : ∀ q, pc.session = some q → q = p) : Sharing M p (s.move i pc) :=
  h.move (fun f heq => by rw [heq] at hplain; cases hplain) hsession

theorem advance (h : Sharing M p s) {n : ℕ} {f : Flight} (hf : s.flights n = some f)
    (phase : Phase) : Sharing M p (s.advance n f phase) where
  stored := h.stored
  looked := h.looked
  requests := h.requests
  flights m f' hf' := by
    rcases flights_advance hf' with ⟨rfl, rfl⟩ | ⟨-, hf'⟩
    · exact h.flights m f hf
    · exact h.flights m f' hf'

theorem setStore (h : Sharing M p s) {store : σ}
    (hstore : ∀ f, M.backend.lookup store M.sid = some f → f = .shared p) :
    Sharing M p (s.setStore store) :=
  ⟨hstore, h.looked, h.requests, h.flights⟩

end Sharing

/-- Writing the shared session leaves the store with that session, or without one. -/
theorem Sharing.put {M : Setup σ} (hlive : M.backend.Live) {p q : ℕ} {s : State σ}
    (hs : Sharing M p s) (hq : q = p) {x : Session} :
    Sharing M p (s.setStore (M.backend.put s.store q x)) := by
  refine hs.setStore fun f hf => ?_
  rcases hlive _ _ _ _ f hf with hf | rfl
  · exact hs.stored f hf
  · rw [hq]

/-- Every step keeps the session shared. -/
theorem sharing_step {M : Setup σ} (hB : M.backend.Lawful) (hlive : M.backend.Live) {p : ℕ}
    {s s' : State σ} {a : Action} (hs : Sharing M p s) (h : M.system.step s a = some s') :
    Sharing M p s' := by
  cases step_cases h with
  | quiet i a pc hbefore hplain hsession =>
    exact hs.move_plain hplain fun q hq => hs.requests i q (session_of_kept hsession hq)
  | looked i f hpc hf =>
    have hshared := hs.stored f hf
    refine Sharing.move (s := s.noteRead i) ⟨hs.stored, hs.looked, hs.requests, hs.flights⟩
      (fun f' heq => ?_) fun q hq => ?_
    · cases heq
      exact hshared
    · rw [hshared] at hq
      cases hq
      rfl
  | rehydrated i now snap hpc => cases hs.looked i _ hpc
  | removed i a store pc hstore hbefore hplain hsession =>
    refine (hs.setStore fun f hf => hs.stored f ?_).move_plain hplain
      fun q hq => by rw [hsession] at hq; cases hq
    obtain ⟨id, now, rfl | rfl⟩ := hstore
    · exact hB.lookup_remove _ _ _ _ f hf
    · exact hB.lookup_delete _ _ _ _ f hf
  | entered i q hpc =>
    have hq : q = p := hs.requests i q (by rw [hpc]; rfl)
    have hmove : Sharing M p (s.move i (.waiting q (s.group.flightOf (s.heap q).id))) :=
      hs.move (fun f heq => by cases heq) fun q' hq' => by cases hq'; exact hq
    refine ⟨hmove.stored, hmove.looked, hmove.requests, fun n f hf => ?_⟩
    rcases flights_enterDo hf with hf | ⟨-, -, rfl⟩
    · exact hs.flights n f hf
    · exact hq
  | left i q n result hpc hresult =>
    have hq : q = p := hs.requests i q (by rw [hpc]; rfl)
    refine Sharing.move_plain (s := s.noteReceived n result)
      ⟨hs.stored, hs.looked, hs.requests, hs.flights⟩ (answer_plain q result).1 fun q' hq' => ?_
    cases session_of_kept (answer_plain q result).2 hq'
    exact hq
  | touched i q access now hpc =>
    refine Sharing.move_plain (s := s.modify q _)
      ⟨hs.stored, hs.looked, hs.requests, hs.flights⟩ rfl fun q' hq' => ?_
    cases hq'
    exact hs.requests i q (by rw [hpc]; rfl)
  | snapshot i q access hpc =>
    refine hs.move (fun f heq => by cases heq) fun q' hq' => ?_
    cases hq'
    exact hs.requests i q (by rw [hpc]; rfl)
  | put i q access snap hpc =>
    have hq : q = p := hs.requests i q (by rw [hpc]; rfl)
    exact (hs.put hlive hq).move_plain rfl fun q' hq' => by cases hq'
  | advanced n a f phase hf => exact hs.advance hf phase
  | called n f hf hphase =>
    exact Sharing.advance (s := s.noteCall _) ⟨hs.stored, hs.looked, hs.requests, hs.flights⟩ hf _
  | exchanged n f token ts hf hphase =>
    exact Sharing.advance (s := s.noteExchange token ts)
      ⟨hs.stored, hs.looked, hs.requests, hs.flights⟩ hf _
  | applied n f token ts now hf hphase =>
    exact Sharing.advance (s := s.modify f.session _)
      ⟨hs.stored, hs.looked, hs.requests, hs.flights⟩ hf _
  | flightSnapshot n f token hf hphase => exact hs.advance hf _
  | written n f token snap hf hphase =>
    have hput : Sharing M p (s.setStore (M.backend.put s.store f.session snap)) :=
      hs.put hlive (hs.flights n f hf)
    have hnoted : Sharing M p (State.noteWrite (s.setStore _) f.leader) :=
      ⟨hput.stored, hput.looked, hput.requests, hput.flights⟩
    exact hnoted.advance hf _
  | finished n f result hf hphase =>
    exact ⟨hs.stored, hs.looked, hs.requests,
      fun m f' hf' => hs.flights m f' (flights_endFlight hf').2⟩
  | loggedOut now => exact hs.setStore fun f hf => hs.stored f (hB.lookup_delete _ _ _ _ f hf)
  | swept nowAt now => exact hs.setStore fun f hf => hs.stored f (hB.lookup_sweep _ _ _ _ _ f hf)

/-! ### Refresh tokens are used once -/

/-- The token a flight has presented has occurred before, and the one it was granted has not been
exchanged. -/
def Phase.TokensKnown (seen spent : List String) : Phase → Prop
  | .calling token => token ∈ seen
  | .granted _ ts => ∃ t, ts = some t ∧ t.refreshToken ≠ "" ∧ t.refreshToken ∈ seen ∧
      t.refreshToken ∉ spent
  | _ => True

/-- The refresh token of the session at `p` has not been exchanged, except while a flight is about
to replace it. -/
structure Unspent (p : ℕ) (s : State σ) : Prop where
  spent_seen : ∀ token ∈ s.spent, token ∈ s.seen
  phases : ∀ n f, s.flights n = some f → f.phase.TokensKnown s.seen s.spent
  unspent : (s.heap p).refreshToken ∈ s.spent → ∃ n f, s.flights n = some f ∧ f.phase.isGranted = true

namespace Unspent

variable {M : Setup σ} {p : ℕ} {s : State σ}

/-- While a flight is running that is not about to replace it, the token is unspent. -/
theorem notMem_spent (h : Unspent p s) (hc : Coherent M s) {n : ℕ} {f : Flight}
    (hf : s.flights n = some f) (hphase : f.phase.isGranted = false) :
    (s.heap p).refreshToken ∉ s.spent := by
  intro hspent
  obtain ⟨m, f', hf', hgranted⟩ := h.unspent hspent
  rw [(hc.flight_unique hf hf').2, hphase] at hgranted
  cases hgranted

/-- The only flight goes on, to a phase in which the session's token is unspent or about to be
replaced. -/
theorem of_advance (hc : Coherent M s) {n : ℕ} {f : Flight} (hf : s.flights n = some f)
    (hspent_seen : ∀ token ∈ s.spent, token ∈ s.seen) {phase : Phase}
    (hknown : phase.TokensKnown s.seen s.spent)
    (hunspent : (s.heap p).refreshToken ∈ s.spent → phase.isGranted = true) :
    Unspent p (s.advance n f phase) where
  spent_seen := hspent_seen
  phases m f' hf' := by
    rcases flights_advance hf' with ⟨rfl, rfl⟩ | ⟨hne, hf'⟩
    · exact hknown
    · exact absurd (hc.flight_unique hf hf').1 hne
  unspent hspent := ⟨n, { f with phase }, update_self n _ _, hunspent hspent⟩

end Unspent

theorem Phase.tokensKnown_of_exchanged {phase : Phase} {seen spent : List String}
    (hexchanged : phase.exchanged = none) (hcalling : phase.isCalling = false) :
    phase.TokensKnown seen spent := by
  cases phase with
  | calling token => cases hcalling
  | granted token ts => cases hexchanged
  | start | valid | stale | applied | putting | written | returning => trivial

theorem Phase.isGranted_of_exchanged {phase : Phase} (h : phase.exchanged = none) :
    phase.isGranted = false := by
  cases phase <;> first | rfl | cases h

/-- A new token is none of the exchanged ones, and all of them have been seen. -/
theorem notMem_exchanged {seen spent : List String} {token new : String} (htoken : token ∈ seen)
    (hspent : ∀ x ∈ spent, x ∈ seen) (hnew : new ∉ seen) :
    new ∉ token :: spent ∧ ∀ x ∈ token :: spent, x ∈ new :: seen := by
  have hsub : ∀ x ∈ token :: spent, x ∈ seen := List.forall_mem_cons.mpr ⟨htoken, hspent⟩
  exact ⟨fun hmem => hnew (hsub new hmem), fun x hx => List.mem_cons_of_mem _ (hsub x hx)⟩

/-- With an honest token endpoint, every step keeps the shared session's token unspent. -/
theorem unspent_step {M : Setup σ} {p : ℕ} {s s' : State σ} {a : Action} (hc : Coherent M s)
    (hshare : Sharing M p s) (hs : Unspent p s) (henv : Honest s a)
    (h : M.system.step s a = some s') : Unspent p s' := by
  cases step_cases h with
  | quiet | looked | removed | left | snapshot | put | loggedOut | swept =>
    exact ⟨hs.spent_seen, hs.phases, hs.unspent⟩
  | rehydrated i now snap hpc => cases hshare.looked i _ hpc
  | entered i q hpc =>
    refine ⟨hs.spent_seen, fun n f hf => ?_, fun hspent => ?_⟩
    · rcases flights_enterDo hf with hf | ⟨-, -, rfl⟩
      · exact hs.phases n f hf
      · trivial
    · -- a flight that is about to replace the token is the one that is joined
      obtain ⟨n, f, hf, hgranted⟩ := hs.unspent hspent
      have hq : Holds s.heap s.next M.sid q := (hc.requests i).session q (by rw [hpc]; rfl)
      refine ⟨n, f, ?_, hgranted⟩
      simp only [State.enterDo, State.move, hq.2, (hc.flights n f hf).2]
      exact hf
  | touched i q access now hpc =>
    have htoken : ((s.modify q (·.touch now)).heap p).refreshToken = (s.heap p).refreshToken := by
      by_cases heq : p = q
      · subst heq
        simp [State.modify]
      · simp [State.modify, update_of_ne heq]
    exact ⟨hs.spent_seen, hs.phases, fun hspent => hs.unspent (htoken ▸ hspent)⟩
  | advanced n a f phase hf hbefore hafter hcalling =>
    refine .of_advance hc hf hs.spent_seen
      (Phase.tokensKnown_of_exchanged hafter hcalling) fun hspent => ?_
    exact absurd hspent (hs.notMem_spent hc hf (Phase.isGranted_of_exchanged hbefore))
  | called n f hf hphase =>
    refine .of_advance (hc.noteCall _) hf
      (fun token htoken => List.mem_cons_of_mem _ (hs.spent_seen token htoken))
      List.mem_cons_self fun hspent => ?_
    exact absurd hspent (hs.notMem_spent hc hf (by rw [hphase]; rfl))
  | exchanged n f token ts hf hphase =>
    -- the session's token is spent from here on; the flight that spent it holds the new one
    obtain ⟨t, rfl, hne, hnew⟩ := henv.exists_token
    have htoken : token ∈ s.seen := by
      have hknown := hs.phases n f hf
      rw [hphase] at hknown
      exact hknown
    obtain ⟨hunspent, hseen⟩ := notMem_exchanged htoken hs.spent_seen hnew
    exact .of_advance (hc.noteExchange token (some t)) hf hseen
      ⟨t, rfl, hne, List.mem_cons_self, hunspent⟩ fun _ => rfl
  | applied n f token ts now hf hphase =>
    -- all requests share this session, so all of them see the new token at once
    obtain ⟨t, rfl, hne, hseen, hunspent⟩ : Phase.TokensKnown s.seen s.spent (.granted token ts) :=
      hphase ▸ hs.phases n f hf
    have hheap : ((s.modify f.session (·.setTokens (some t) now)).heap p).refreshToken =
        t.refreshToken := by
      rw [hshare.flights n f hf]
      simp only [State.modify, update_self]
      exact Session.setTokens_refreshToken _ t now hne
    refine .of_advance (hc.modify fun x => x.setTokens_id (some t) now) hf hs.spent_seen
      trivial fun hspent => ?_
    rw [hheap] at hspent
    exact absurd hspent hunspent
  | flightSnapshot n f token hf hphase =>
    refine .of_advance hc hf hs.spent_seen trivial fun hspent => ?_
    exact absurd hspent (hs.notMem_spent hc hf (by rw [hphase]; rfl))
  | written n f token snap hf hphase =>
    have hunspent := hs.notMem_spent hc hf (by rw [hphase]; rfl)
    have hnext : Unspent p (s.advance n f .written) :=
      .of_advance hc hf hs.spent_seen trivial fun hspent => absurd hspent hunspent
    exact ⟨hnext.spent_seen, hnext.phases, hnext.unspent⟩
  | finished n f result hf hphase =>
    refine ⟨hs.spent_seen, fun m f' hf' => hs.phases m f' (flights_endFlight hf').2,
      fun hspent => ?_⟩
    exact absurd hspent (hs.notMem_spent hc hf (by rw [hphase]; rfl))

/-! ### The in-memory store -/

/-- A gateway over an in-memory store. -/
def Setup.memory (gateway : Gateway) (sid : String) (request : ℕ → Request) :
    Setup MemoryStore :=
  { gateway, backend := .memory, sid, request }

/-- A `Put` files the address under the session's id, or changes nothing. -/
theorem memory_lookup_put (m : MemoryStore) (p : ℕ) (s : Session) (id : String) (f : Found)
    (h : Backend.memory.lookup (Backend.memory.put m p s) id = some f) :
    Backend.memory.lookup m id = some f ∨ s.id = id ∧ f = .shared p := by
  simp only [Backend.memory] at h ⊢
  by_cases heq : id = s.id
  · subst heq
    by_cases hgone : m.tombstones s.id = none
    · rw [MemoryStore.sessions_put_self _ hgone] at h
      cases h
      exact .inr ⟨rfl, rfl⟩
    · rw [MemoryStore.put_eq_self _ hgone] at h
      exact .inl h
  · rw [MemoryStore.sessions_put_of_ne _ heq] at h
    exact .inl h

theorem memory_lookup_delete (m : MemoryStore) (id : String) (now : ℤ) (id' : String) (f : Found)
    (h : Backend.memory.lookup (m.delete id now) id' = some f) :
    Backend.memory.lookup m id' = some f := by
  simp only [Backend.memory] at h ⊢
  by_cases heq : id' = id
  · subst heq
    simp at h
  · rw [MemoryStore.sessions_delete_of_ne _ _ heq] at h
    exact h

theorem memory_lawful : Backend.memory.Lawful where
  lookup_put m p s id f h :=
    (memory_lookup_put m p s id f h).imp_right fun ⟨hid, hf⟩ => ⟨hid, Or.inl hf⟩
  lookup_remove := memory_lookup_delete
  lookup_delete := memory_lookup_delete
  lookup_sweep m heap nowAt now id f h := by
    obtain ⟨p, hp, rfl⟩ := Option.map_eq_some_iff.mp h
    exact Option.map_eq_some_iff.mpr ⟨p, ((m.sessions_sweep_eq_some).mp hp).1, rfl⟩

theorem memory_live : Backend.memory.Live := fun m p s id f h =>
  (memory_lookup_put m p s id f h).imp_right And.right

/-- Single use of refresh tokens. Let any number of requests share the session at `p` of an
in-memory store, and let the token endpoint be honest. Then, in every interleaving, a refresh
token that a successful refresh has exchanged is not presented again, and all callers of one
flight leave with the same result. -/
theorem single_use (gateway : Gateway) (sid : String) (request : ℕ → Request)
    (s₀ s : State MemoryStore) (p : ℕ) (as : List Action)
    (hinit : (Setup.memory gateway sid request).system.IsInit s₀)
    (hstored : s₀.store.sessions sid = some p) (hp : p < s₀.next) (hid : (s₀.heap p).id = sid)
    (hhonest : (Setup.memory gateway sid request).system.EveryStep Honest s₀ as)
    (hrun : (Setup.memory gateway sid request).system.run s₀ as = some s) :
    (∀ a token, s.presents a = some token → token ∉ s.spent) ∧
      ∀ n r r', (n, r) ∈ s.received → (n, r') ∈ s.received → r = r' := by
  let M := Setup.memory gateway sid request
  have hfound : ∀ f, M.backend.lookup s₀.store M.sid = some f → f = .shared p := by
    intro f hf
    obtain ⟨q, hq, rfl⟩ := Option.map_eq_some_iff.mp hf
    rw [Option.some.inj (hq.symm.trans hstored)]
  have hinv₀ : Coherent M s₀ ∧ Sharing M p s₀ ∧ Unspent p s₀ := by
    have hc : Coherent M s₀ := coherent_of_isInit hinit fun f hf => by
      rw [hfound f hf]
      exact ⟨hp, hid⟩
    obtain ⟨hrequests, -, hflights, hspent, -, -, -⟩ := hinit
    refine ⟨hc, ⟨hfound, fun i f heq => ?_, fun i q hq => ?_, fun n f hf => ?_⟩,
      ⟨by simp [hspent], fun n f hf => ?_, by simp [hspent]⟩⟩
    · rw [hrequests i] at heq
      cases heq
    · rw [hrequests i] at hq
      cases hq
    all_goals
      rw [hflights n] at hf
      cases hf
  -- all three invariants are kept together, since the third needs the first two
  obtain ⟨hc, hshare, hunspent⟩ : Coherent M s ∧ Sharing M p s ∧ Unspent p s :=
    StepSystem.run_invariant (I := fun s => Coherent M s ∧ Sharing M p s ∧ Unspent p s)
      (fun _ _ _ ⟨hc, hshare, hunspent⟩ hh hstep => ⟨coherent_step memory_lawful hc hstep,
        sharing_step memory_lawful memory_live hshare hstep,
        unspent_step hc hshare hunspent hh hstep⟩) hhonest hrun hinv₀
  constructor
  · intro a token htoken
    unfold State.presents at htoken
    split at htoken
    · split at htoken
      · rename_i n _ leader q hf
        cases htoken
        have hq : q = p := hshare.flights n _ hf
        rw [hq]
        exact hunspent.notMem_spent hc hf rfl
      · cases htoken
    · cases htoken
  · intro n r r' hr hr'
    exact Option.some.inj ((hc.received n r hr).symm.trans (hc.received n r' hr'))

section Example

/-- One session whose access token has expired. -/
def State.expiredAccess : State MemoryStore where
  store := { MemoryStore.new 0 0 with sessions := fun id => if id = "s1" then some 0 else none }
  heap _ := { id := "s1", refreshToken := "rt0" }
  next := 1
  requests _ := .start
  group := .empty
  flights _ := none
  seen := []
  spent := []
  received := []
  writes := 0
  readAt _ := 0

/-- A request up to its entry into `refreshGroup.Do`. -/
def toDo (i : ℕ) : List Action :=
  [.lookup, .checkExpiry 0, .checkCSRF, .outerCheck 0, .enterDo].map (.request i)

/-- The body of a flight that refreshes its session. -/
def refreshing (n : ℕ) (ts : TokenSet) : List Action :=
  [.innerCheck 0, .callRefresh, .refreshReturns (.ok (some ts)), .setTokens 0, .putSnapshot, .putExec,
    .returnToken, .finish].map (.flight n)

/-- Two requests refresh the session together: one token is exchanged, and both leave with the new
access token. -/
theorem single_use_two_requests :
    let M := Setup.memory { cookie := { name := "sid", secure := true } } "s1"
      fun _ => { method := "GET", header := Header.empty }
    ∃ s, M.system.run State.expiredAccess (toDo 0 ++ toDo 1 ++
        refreshing 0 { accessToken := "at1", refreshToken := "rt1", expiresIn := 3600 } ++
        [.request 0 .leaveDo, .request 1 .leaveDo]) = some s ∧
      s.spent = ["rt0"] ∧ s.received.length = 2 ∧
      (∀ a token, s.presents a = some token → token ∉ s.spent) ∧
      ∀ n r r', (n, r) ∈ s.received → (n, r') ∈ s.received → r = r' := by
  intro M
  obtain ⟨s, hrun⟩ : ∃ s, M.system.run State.expiredAccess (toDo 0 ++ toDo 1 ++
      refreshing 0 { accessToken := "at1", refreshToken := "rt1", expiresIn := 3600 } ++
      [.request 0 .leaveDo, .request 1 .leaveDo]) = some s :=
    Option.isSome_iff_exists.mp (by decide +kernel)
  have hend : (M.system.run State.expiredAccess (toDo 0 ++ toDo 1 ++
      refreshing 0 { accessToken := "at1", refreshToken := "rt1", expiresIn := 3600 } ++
      [.request 0 .leaveDo, .request 1 .leaveDo])).map (fun s => (s.spent, s.received.length)) =
        some (["rt0"], 2) := by
    decide +kernel
  rw [hrun, Option.map_some, Option.some.injEq, Prod.mk.injEq] at hend
  refine ⟨s, hrun, hend.1, hend.2, ?_⟩
  exact single_use _ "s1" _ State.expiredAccess s 0 _
    ⟨fun _ => rfl, rfl, fun _ => rfl, rfl, rfl, rfl, fun _ => rfl⟩ rfl (by decide) rfl
    (StepSystem.everyStep_of_checkEvery (by decide +kernel)) hrun

end Example

end Refresh

end Bff
