import BackendKit.GoStd.SingleFlight
import BackendKit.GoStd.Time
import BackendKit.JwtAuth.Keys
import BackendKit.ToMathlib.StepSystem

/-!
# The JWKS cache

`Middleware.getKey`, `rememberUnknownKid` and `fetchJWKS` (`jwtauth/middleware.go`), run by any
number of requests at once.

A call of `getKey` takes a snapshot under the read lock and decides from it alone. If it has to
refetch, it enters the single flight, where one leader records the attempt, asks the endpoint and
publishes the result; when the flight is over, the call looks the key up again. Every one of these
is a step of its own, and the steps of different calls interleave freely. Clock readings lie
between the surrounding steps.

Two fields of `State` are history that the program does not keep: when the outbound fetches
started, and which documents were published by which flight.

A call with an old snapshot can start a second fetch right after the first (`not_fetchesApart`).
`fetchesApart_of_orderly` says when that cannot happen.
-/

open GoStd SingleFlight
open GoStd.Duration (hour minValue second)

namespace JwtAuth

/-! ### Asking the endpoint -/

/-- What becomes of an outbound request: it fails, or there is an answer whose body is a key
document or cannot be decoded. -/
inductive Response where
  | transportError (text : String)
  | http (status : ℕ) (body : Except String (List JwksKey))

/-- The errors of `fetchJWKS`. -/
inductive FetchError where
  | urlNotConfigured
  | transport (text : String)
  | status (code : ℕ)
  | decode (text : String)
  | noUsableKeys
  deriving DecidableEq, Repr

/-- The text of an error. -/
def FetchError.text : FetchError → String
  | urlNotConfigured => "jwtauth: JWKS URL not configured"
  | transport text => "fetch JWKS: " ++ text
  | status code => "JWKS endpoint returned HTTP " ++ toString code
  | decode text => "decode JWKS: " ++ text
  | noUsableKeys => "no usable RSA signing keys in JWKS"

/-- `fetchJWKS` between the request and the lock: the document to publish. -/
def Response.document : Response → Except FetchError (List JwksKey)
  | .transportError text => .error (.transport text)
  | .http status body =>
    if status ≠ 200 then .error (.status status)
    else
      match body with
      | .error text => .error (.decode text)
      | .ok doc => if (loadKeys doc).entries = [] then .error .noUsableKeys else .ok doc

namespace Jwks

/-! ### One call -/

/-- The settings of the cache. `New` and the options keep the two intervals positive. -/
structure CacheConfig where
  jwksURL : String
  cacheTTL : ℤ
  minRefetchInterval : ℤ
  negativeCacheTTL : ℤ
  minRefetchInterval_pos : 0 < minRefetchInterval
  negativeCacheTTL_pos : 0 < negativeCacheTTL

/-- The errors of `getKey`. -/
inductive KeyLookupError where
  | notFound (kid : String)
  | fetch (err : FetchError)
  deriving DecidableEq, Repr

/-- What a call reads under the read lock. -/
structure Snapshot where
  key : Option PublicKey
  expired : Bool
  inCooldown : Bool
  negFresh : Bool
  /-- The value of `lastRefetchAttempt` that `inCooldown` was computed from. -/
  attempt : ℤ
  deriving DecidableEq

/-- What a call answers from its snapshot alone; `none` if it has to refetch. -/
def Snapshot.answer? (snap : Snapshot) (kid : String) : Option (Except KeyLookupError PublicKey) :=
  match snap.key with
  | some key => if !snap.expired || snap.inCooldown then some (.ok key) else none
  | none => if snap.negFresh || snap.inCooldown then some (.error (.notFound kid)) else none

/-- A call of `getKey`. -/
structure Call where
  kid : String
  /-- How many documents had been published when the call began. -/
  since : ℕ
  deriving DecidableEq

/-- Where a call is. -/
inductive Pc where
  | idle
  | begun (c : Call) (start : ℤ)
  | toDo (c : Call) (snap : Snapshot)
  | waiting (c : Call) (snap : Snapshot) (flight : ℕ)
  | refetched (c : Call)
  | missing (c : Call) (start : ℤ)
  | done (c : Call) (result : Except KeyLookupError PublicKey)
  deriving DecidableEq

/-- The call after its snapshot. -/
def Snapshot.next (snap : Snapshot) (c : Call) : Pc :=
  match snap.answer? c.kid with
  | some result => .done c result
  | none => .toDo c snap

/-- The call after its flight: a failed refresh falls back to the key of the snapshot. -/
def Snapshot.afterFlight (snap : Snapshot) (c : Call) : Option FetchError → Pc
  | none => .refetched c
  | some err =>
    match snap.key with
    | some key => .done c (.ok key)
    | none => .done c (.error (.fetch err))

/-- `rememberUnknownKid`: drop what is too old, then record `kid`. -/
def rememberUnknownKid (ttl : ℤ) (cache : String → Option ℤ) (kid : String) (now : ℤ) :
    String → Option ℤ :=
  Function.update (fun k => (cache k).filter fun t => Time.sub now t < ttl) kid (some now)

/-! ### The system -/

/-- Where the leader of the running flight is. -/
inductive Phase where
  | idle
  | starting
  | attempted
  | fetching
  | fetched (doc : List JwksKey)
  | returning (result : Option FetchError)
  deriving DecidableEq

/-- A document that a flight has published. -/
structure Publication where
  flight : ℕ
  doc : List JwksKey
  deriving DecidableEq

/-- The key of the flight group. -/
def refetchKey : String := "jwks-refetch"

structure State where
  now : ℤ
  keys : KeySet
  lastFetch : ℤ
  lastRefetchAttempt : ℤ
  negativeCache : String → Option ℤ
  /-- The result of a flight is its error, if any. -/
  group : Group String (Option FetchError)
  phase : Phase
  calls : ℕ → Pc
  /-- When the outbound fetches started, the latest first. -/
  fetchStarts : List ℤ
  /-- What has been published, in order. -/
  published : List Publication

namespace State

/-- The state `New` leaves behind. -/
def initial (now : ℤ) : State where
  now := now
  keys := ∅
  lastFetch := Time.zero
  lastRefetchAttempt := Time.zero
  negativeCache := fun _ => none
  group := Group.empty
  phase := .idle
  calls := fun _ => .idle
  fetchStarts := []
  published := []

/-- Call `i` moves on. -/
def move (s : State) (i : ℕ) (pc : Pc) : State := { s with calls := Function.update s.calls i pc }

/-- The critical section at the start of `getKey`, with its three clock readings. -/
def snapshot (s : State) (cfg : CacheConfig) (kid : String) (t₁ t₂ t₃ : ℤ) : Snapshot where
  key := s.keys.lookup kid
  expired := cfg.cacheTTL < Time.sub t₁ s.lastFetch
  inCooldown := Time.sub t₂ s.lastRefetchAttempt < cfg.minRefetchInterval
  negFresh := (s.negativeCache kid).any fun t => Time.sub t₃ t < cfg.negativeCacheTTL
  attempt := s.lastRefetchAttempt

/-- A call enters `Do`: without a running flight it leads a new one. -/
def enterDo (s : State) : State :=
  { s with
    group := s.group.enter refetchKey
    phase := if s.group.running refetchKey = none then .starting else s.phase }

/-- The critical section at the end of `fetchJWKS`. -/
def publish (s : State) (doc : List JwksKey) : State :=
  { s with
    keys := loadKeys doc
    lastFetch := s.now
    negativeCache := fun _ => none
    phase := .returning none
    published := s.published ++ [{ flight := s.group.flightOf refetchKey, doc }] }

end State

/-- The steps of a call. A `snapshot` comes with its clock readings, and so does the note about
an unknown key id. -/
inductive CallStep where
  | invoke (kid : String)
  | snapshot (t₁ t₂ t₃ : ℤ)
  | enter
  | leave
  | reread
  | remember (t : ℤ)

/-- The steps of the leader of a flight. -/
inductive FlightStep where
  | attempt
  | start
  | respond (r : Response)
  | publish
  | finish

inductive Action where
  | tick (t : ℤ)
  | call (i : ℕ) (a : CallStep)
  | flight (a : FlightStep)

/-- One step of call `i`. -/
def callStep (cfg : CacheConfig) (s : State) (i : ℕ) : CallStep → Option State
  | .invoke kid =>
    match s.calls i with
    | .idle => some (s.move i (.begun { kid, since := s.published.length } s.now))
    | _ => none
  | .snapshot t₁ t₂ t₃ =>
    match s.calls i with
    | .begun c start =>
      if start ≤ t₁ ∧ t₁ ≤ t₂ ∧ t₂ ≤ t₃ ∧ t₃ ≤ s.now then
        some (s.move i ((s.snapshot cfg c.kid t₁ t₂ t₃).next c))
      else none
    | _ => none
  | .enter =>
    match s.calls i with
    | .toDo c snap => some (s.enterDo.move i (.waiting c snap (s.group.flightOf refetchKey)))
    | _ => none
  | .leave =>
    match s.calls i with
    | .waiting c snap n => (s.group.results n).map fun r => s.move i (snap.afterFlight c r)
    | _ => none
  | .reread =>
    match s.calls i with
    | .refetched c =>
      match s.keys.lookup c.kid with
      | some key => some (s.move i (.done c (.ok key)))
      | none => some (s.move i (.missing c s.now))
    | _ => none
  | .remember t =>
    match s.calls i with
    | .missing c start =>
      if start ≤ t ∧ t ≤ s.now then
        some { s.move i (.done c (.error (.notFound c.kid))) with
          negativeCache := rememberUnknownKid cfg.negativeCacheTTL s.negativeCache c.kid t }
      else none
    | _ => none

/-- One step of the running flight. -/
def flightStep (cfg : CacheConfig) (s : State) : FlightStep → Option State
  | .attempt =>
    match s.phase with
    | .starting => some { s with lastRefetchAttempt := s.now, phase := .attempted }
    | _ => none
  | .start =>
    match s.phase with
    | .attempted =>
      -- Without a URL there is nothing to ask.
      if cfg.jwksURL = "" then some { s with phase := .returning (some .urlNotConfigured) }
      else some { s with phase := .fetching, fetchStarts := s.now :: s.fetchStarts }
    | _ => none
  | .respond r =>
    match s.phase with
    | .fetching =>
      match r.document with
      | .error err => some { s with phase := .returning (some err) }
      | .ok doc => some { s with phase := .fetched doc }
    | _ => none
  | .publish =>
    match s.phase with
    | .fetched doc => some (s.publish doc)
    | _ => none
  | .finish =>
    match s.phase with
    | .returning r => some { s with group := s.group.finish refetchKey r, phase := .idle }
    | _ => none

/-- The cache and its callers, from the moment `New` returns. -/
def system (cfg : CacheConfig) : StepSystem State Action where
  IsInit s := s = State.initial s.now
  step s
    | .tick t => if s.now ≤ t then some { s with now := t } else none
    | .call i a => callStep cfg s i a
    | .flight a => flightStep cfg s a

/-! ### What a step can do -/

/-- The steps of the system, each with what it needs and what it leaves behind. -/
inductive Change (cfg : CacheConfig) (s : State) : Action → State → Prop
  | tick (t : ℤ) (ht : s.now ≤ t) : Change cfg s (.tick t) { s with now := t }
  | invoke (i : ℕ) (kid : String) (hpc : s.calls i = .idle) :
      Change cfg s (.call i (.invoke kid))
        (s.move i (.begun { kid, since := s.published.length } s.now))
  | snapshot (i : ℕ) (t₁ t₂ t₃ : ℤ) (c : Call) (start : ℤ) (hpc : s.calls i = .begun c start)
      (ht : t₂ ≤ s.now) :
      Change cfg s (.call i (.snapshot t₁ t₂ t₃))
        (s.move i ((s.snapshot cfg c.kid t₁ t₂ t₃).next c))
  | enter (i : ℕ) (c : Call) (snap : Snapshot) (hpc : s.calls i = .toDo c snap) :
      Change cfg s (.call i .enter)
        (s.enterDo.move i (.waiting c snap (s.group.flightOf refetchKey)))
  | leave (i : ℕ) (c : Call) (snap : Snapshot) (n : ℕ) (r : Option FetchError)
      (hpc : s.calls i = .waiting c snap n) (hr : s.group.results n = some r) :
      Change cfg s (.call i .leave) (s.move i (snap.afterFlight c r))
  | found (i : ℕ) (c : Call) (key : PublicKey) (hpc : s.calls i = .refetched c)
      (hkey : s.keys.lookup c.kid = some key) :
      Change cfg s (.call i .reread) (s.move i (.done c (.ok key)))
  | missed (i : ℕ) (c : Call) (hpc : s.calls i = .refetched c) :
      Change cfg s (.call i .reread) (s.move i (.missing c s.now))
  | remember (i : ℕ) (t : ℤ) (c : Call) (cache : String → Option ℤ) :
      Change cfg s (.call i (.remember t))
        { s.move i (.done c (.error (.notFound c.kid))) with negativeCache := cache }
  | attempt (hphase : s.phase = .starting) :
      Change cfg s (.flight .attempt) { s with lastRefetchAttempt := s.now, phase := .attempted }
  | start (hphase : s.phase = .attempted) :
      Change cfg s (.flight .start)
        { s with phase := .fetching, fetchStarts := s.now :: s.fetchStarts }
  | failed (a : FlightStep) (err : FetchError) (hphase : s.phase = .attempted ∨ s.phase = .fetching) :
      Change cfg s (.flight a) { s with phase := .returning (some err) }
  | fetched (r : Response) (doc : List JwksKey) (hphase : s.phase = .fetching)
      (hdoc : r.document = .ok doc) :
      Change cfg s (.flight (.respond r)) { s with phase := .fetched doc }
  | publish (doc : List JwksKey) (hphase : s.phase = .fetched doc) :
      Change cfg s (.flight .publish) (s.publish doc)
  | finish (r : Option FetchError) (hphase : s.phase = .returning r) :
      Change cfg s (.flight .finish)
        { s with group := s.group.finish refetchKey r, phase := .idle }

variable {cfg : CacheConfig} {s s' : State}

theorem callStep_cases {i : ℕ} {a : CallStep} (h : callStep cfg s i a = some s') :
    Change cfg s (.call i a) s' := by
  cases a with
  | invoke kid =>
    simp only [callStep] at h
    split at h
    next hpc =>
      cases h
      exact .invoke i kid hpc
    · cases h
  | snapshot t₁ t₂ t₃ =>
    simp only [callStep] at h
    split at h
    next c start hpc =>
      split_ifs at h with ht
      cases h
      exact .snapshot i t₁ t₂ t₃ c start hpc (ht.2.2.1.trans ht.2.2.2)
    · cases h
  | enter =>
    simp only [callStep] at h
    split at h
    next c snap hpc =>
      cases h
      exact .enter i c snap hpc
    · cases h
  | leave =>
    simp only [callStep] at h
    split at h
    next c snap n hpc =>
      obtain ⟨r, hr, rfl⟩ := Option.map_eq_some_iff.mp h
      exact .leave i c snap n r hpc hr
    · cases h
  | reread =>
    simp only [callStep] at h
    split at h
    next c hpc =>
      split at h
      next key hkey =>
        cases h
        exact .found i c key hpc hkey
      · cases h
        exact .missed i c hpc
    · cases h
  | remember t =>
    simp only [callStep] at h
    split at h
    next c start hpc =>
      split_ifs at h with ht
      cases h
      exact .remember i t c _
    · cases h

theorem flightStep_cases {a : FlightStep} (h : flightStep cfg s a = some s') :
    Change cfg s (.flight a) s' := by
  cases a with
  | attempt =>
    simp only [flightStep] at h
    split at h
    next hphase =>
      cases h
      exact .attempt hphase
    · cases h
  | start =>
    simp only [flightStep] at h
    split at h
    next hphase =>
      split_ifs at h with hurl
      · cases h
        exact .failed _ _ (.inl hphase)
      · cases h
        exact .start hphase
    · cases h
  | respond r =>
    simp only [flightStep] at h
    split at h
    next hphase =>
      split at h
      · cases h
        exact .failed _ _ (.inr hphase)
      next doc hdoc =>
        cases h
        exact .fetched r doc hphase hdoc
    · cases h
  | publish =>
    simp only [flightStep] at h
    split at h
    next doc hphase =>
      cases h
      exact .publish doc hphase
    · cases h
  | finish =>
    simp only [flightStep] at h
    split at h
    next r hphase =>
      cases h
      exact .finish r hphase
    · cases h

/-- There are no other steps. -/
theorem step_cases {a : Action} (h : (system cfg).step s a = some s') : Change cfg s a s' := by
  cases a with
  | tick t =>
    simp only [system] at h
    split_ifs at h with ht
    cases h
    exact .tick t ht
  | call i a => exact callStep_cases h
  | flight a => exact flightStep_cases h

/-- A property of all calls survives a move to a place that has it. -/
theorem State.forall_move {P : Pc → Prop} {i : ℕ} {pc : Pc} (h : ∀ j, P (s.calls j)) (hpc : P pc)
    (j : ℕ) : P ((s.move i pc).calls j) := by
  have hall : ∀ k, P (Function.update s.calls i pc k) :=
    (Function.forall_update_iff s.calls fun _ pc => P pc).mpr ⟨hpc, fun k _ => h k⟩
  exact hall j

/-! ### How far apart the fetches are -/

/-- Any two outbound fetches start at least `gap` apart. -/
def FetchesApart (gap : ℤ) (s : State) : Prop :=
  s.fetchStarts.Pairwise fun later earlier => earlier + gap ≤ later

/-- A condition on the schedule. A fetch starts between `lo` and `hi` after its attempt was recorded. A
call leads a new flight only when the cooldown is over, and with it what the delays may differ by; where
they do not differ, it is enough that no attempt has been recorded since the snapshot of the call. -/
def Orderly (cfg : CacheConfig) (lo hi : ℤ) (s : State) : Action → Prop
  | .call i .enter =>
    match s.calls i with
    | .toDo _ snap => s.group.running refetchKey = none →
        s.lastRefetchAttempt + cfg.minRefetchInterval + (hi - lo) ≤ s.now ∨
          lo = hi ∧ snap.attempt = s.lastRefetchAttempt
    | _ => True
  | .flight .start => s.lastRefetchAttempt + lo ≤ s.now ∧ s.now ≤ s.lastRefetchAttempt + hi
  | _ => True

instance (cfg : CacheConfig) (lo hi : ℤ) (s : State) (a : Action) :
    Decidable (Orderly cfg lo hi s a) := by
  unfold Orderly
  split
  · split <;> infer_instance
  · infer_instance
  · infer_instance

/-- The attempt a call has seen lies at least `interval` back when the call wants to refetch. -/
def Pc.Due (interval now : ℤ) : Pc → Prop
  | .toDo _ snap => snap.attempt + interval ≤ now
  | _ => True

theorem Pc.Due.mono {interval now now' : ℤ} (h : now ≤ now') {pc : Pc}
    (hpc : pc.Due interval now) : pc.Due interval now' := by
  cases pc with
  | toDo c snap => exact le_trans hpc h
  | _ => trivial

/-- Nobody refetches from a snapshot that was taken in the cooldown. -/
theorem Snapshot.inCooldown_of_answer? {snap : Snapshot} {kid : String}
    (h : snap.answer? kid = none) : snap.inCooldown = false := by
  unfold Snapshot.answer? at h
  split at h <;> simp_all

theorem due_next {c : Call} {t₁ t₂ t₃ : ℤ} (ht : t₂ ≤ s.now) :
    ((s.snapshot cfg c.kid t₁ t₂ t₃).next c).Due cfg.minRefetchInterval s.now := by
  unfold Snapshot.next
  split
  · trivial
  next hnone =>
    have hcooldown := Snapshot.inCooldown_of_answer? hnone
    have hpos := cfg.minRefetchInterval_pos
    simp only [State.snapshot, decide_eq_false_iff_not, not_lt] at hcooldown
    show s.lastRefetchAttempt + cfg.minRefetchInterval ≤ s.now
    -- A difference of instants may be saturated, but never above its true value.
    have hexact : Time.sub t₂ s.lastRefetchAttempt ≤ max minValue (t₂ - s.lastRefetchAttempt) :=
      max_le_max_left _ (min_le_right _ _)
    have hmin : minValue < 0 := by decide
    omega

theorem due_afterFlight (interval now : ℤ) (snap : Snapshot) (c : Call) (r : Option FetchError) :
    (snap.afterFlight c r).Due interval now := by
  unfold Snapshot.afterFlight
  split
  · trivial
  · split <;> trivial

/-- What an orderly schedule keeps up. -/
structure Spaced (cfg : CacheConfig) (lo hi : ℤ) (s : State) : Prop where
  /-- No fetch has started long after the last attempt was recorded. -/
  starts_le : ∀ f ∈ s.fetchStarts, f ≤ s.lastRefetchAttempt + hi
  apart : FetchesApart cfg.minRefetchInterval s
  /-- A flight is led by a call whose cooldown is over. -/
  starting : s.phase = .starting →
    s.lastRefetchAttempt + cfg.minRefetchInterval + (hi - lo) ≤ s.now
  attempted : s.phase = .attempted →
    ∀ f ∈ s.fetchStarts, f + cfg.minRefetchInterval ≤ s.lastRefetchAttempt + lo
  due : ∀ i, (s.calls i).Due cfg.minRefetchInterval s.now

section Spaced

variable {cfg : CacheConfig} {lo hi : ℤ} {s : State}

theorem spaced_initial (now : ℤ) : Spaced cfg lo hi (State.initial now) where
  starts_le := fun _ hf => absurd hf List.not_mem_nil
  apart := List.Pairwise.nil
  starting := nofun
  attempted := nofun
  due := fun _ => trivial

/-- A call that moves without entering `Do` leaves the fetches alone. -/
theorem Spaced.move (h : Spaced cfg lo hi s) {i : ℕ} {pc : Pc}
    (hpc : pc.Due cfg.minRefetchInterval s.now) : Spaced cfg lo hi (s.move i pc) where
  starts_le := h.starts_le
  apart := h.apart
  starting := h.starting
  attempted := h.attempted
  due := State.forall_move h.due hpc

/-- A flight that is past its fetch is not before it. -/
theorem Spaced.setPhase (h : Spaced cfg lo hi s) {phase : Phase} (hstarting : phase ≠ .starting)
    (hattempted : phase ≠ .attempted) : Spaced cfg lo hi { s with phase } where
  starts_le := h.starts_le
  apart := h.apart
  starting := fun heq => absurd heq hstarting
  attempted := fun heq => absurd heq hattempted
  due := h.due

/-- Entering `Do` after the cooldown, or after an up-to-date snapshot. -/
theorem Spaced.enter (h : Spaced cfg lo hi s) {i : ℕ} {c : Call} {snap : Snapshot}
    (hpc : s.calls i = .toDo c snap)
    (horderly : s.group.running refetchKey = none →
      s.lastRefetchAttempt + cfg.minRefetchInterval + (hi - lo) ≤ s.now ∨
        lo = hi ∧ snap.attempt = s.lastRefetchAttempt) (n : ℕ) :
    Spaced cfg lo hi (s.enterDo.move i (.waiting c snap n)) where
  starts_le := h.starts_le
  apart := h.apart
  starting := by
    intro heq
    by_cases hnone : s.group.running refetchKey = none
    · -- The call leads a new flight. A snapshot that shows the recorded attempt shows its cooldown over.
      have hdue := h.due i
      rw [hpc] at hdue
      show s.lastRefetchAttempt + cfg.minRefetchInterval + (hi - lo) ≤ s.now
      rcases horderly hnone with hover | ⟨rfl, hfresh⟩
      · exact hover
      · rw [← hfresh, sub_self, add_zero]
        exact hdue
    · refine h.starting ?_
      simpa [State.enterDo, State.move, hnone] using heq
  attempted := by
    intro heq
    by_cases hnone : s.group.running refetchKey = none
    · simp [State.enterDo, State.move, hnone] at heq
    · refine h.attempted ?_
      simpa [State.enterDo, State.move, hnone] using heq
  due := State.forall_move h.due trivial

theorem spaced_step (hle : lo ≤ hi) {s' : State} {a : Action} (h : Spaced cfg lo hi s)
    (horderly : Orderly cfg lo hi s a) (hstep : (system cfg).step s a = some s') :
    Spaced cfg lo hi s' := by
  rcases step_cases hstep with ⟨t, ht⟩ | ⟨i, kid, hpc⟩ | ⟨i, t₁, t₂, t₃, c, start, hpc, ht⟩ |
    ⟨i, c, snap, hpc⟩ | ⟨i, c, snap, n, r, hpc, hr⟩ | ⟨i, c, key, hpc, hkey⟩ | ⟨i, c, hpc⟩ |
    ⟨i, t, c, cache⟩ | hphase | hphase | ⟨_, err, hphase⟩ | ⟨r, doc, hphase, hdoc⟩ |
    ⟨doc, hphase⟩ | ⟨r, hphase⟩
  · -- Time passes.
    exact
      { starts_le := h.starts_le
        apart := h.apart
        starting := fun heq => (h.starting heq).trans ht
        attempted := h.attempted
        due := fun i => (h.due i).mono ht }
  · exact h.move trivial
  · exact h.move (due_next ht)
  · refine h.enter hpc ?_ _
    simpa only [Orderly, hpc] using horderly
  · exact h.move (due_afterFlight _ _ snap c r)
  · exact h.move trivial
  · exact h.move trivial
  · have hmove : Spaced cfg lo hi (s.move i (.done c (.error (.notFound c.kid)))) := h.move trivial
    exact ⟨hmove.starts_le, hmove.apart, hmove.starting, hmove.attempted, hmove.due⟩
  · -- The attempt is recorded: all earlier fetches lie a cooldown back.
    have hover := h.starting hphase
    have hpos := cfg.minRefetchInterval_pos
    exact
      { starts_le := fun f hf => by
          have hstart : f ≤ s.lastRefetchAttempt + hi := h.starts_le f hf
          show f ≤ s.now + hi
          omega
        apart := h.apart
        starting := nofun
        attempted := fun _ f hf => by
          have hstart : f ≤ s.lastRefetchAttempt + hi := h.starts_le f hf
          show f + cfg.minRefetchInterval ≤ s.now + lo
          omega
        due := h.due }
  · -- The fetch starts, in time.
    exact
      { starts_le := List.forall_mem_cons.mpr ⟨horderly.2, h.starts_le⟩
        apart := List.pairwise_cons.mpr
          ⟨fun f hf => (h.attempted hphase f hf).trans horderly.1, h.apart⟩
        starting := nofun
        attempted := nofun
        due := h.due }
  · exact h.setPhase nofun nofun
  · exact h.setPhase nofun nofun
  · have hphase' : Spaced cfg lo hi { s with phase := .returning none } := h.setPhase nofun nofun
    exact ⟨hphase'.starts_le, hphase'.apart, hphase'.starting, hphase'.attempted, hphase'.due⟩
  · have hphase' : Spaced cfg lo hi { s with phase := .idle } := h.setPhase nofun nofun
    exact ⟨hphase'.starts_le, hphase'.apart, hphase'.starting, hphase'.attempted, hphase'.due⟩

end Spaced

/-- **Orderly schedules bound the traffic.** Where a fetch starts between `lo` and `hi` after its attempt
is recorded, and a new flight is only led after the cooldown and the time by which the delays may differ
(or, for equal delays, by a call that has seen the last recorded attempt), any two outbound fetches start
at least `minRefetchInterval` apart. -/
theorem fetchesApart_of_orderly {cfg : CacheConfig} {lo hi : ℤ} (hle : lo ≤ hi) {s₀ s : State}
    {as : List Action} (hinit : (system cfg).IsInit s₀) (hrun : (system cfg).run s₀ as = some s)
    (horderly : (system cfg).EveryStep (Orderly cfg lo hi) s₀ as) :
    FetchesApart cfg.minRefetchInterval s := by
  have hspaced : Spaced cfg lo hi s := by
    refine StepSystem.run_invariant (fun _ _ _ h hP hstep => spaced_step hle h hP hstep)
      horderly hrun ?_
    rw [show s₀ = State.initial s₀.now from hinit]
    exact spaced_initial s₀.now
  exact hspaced.apart

/-- The settings `New` starts from. -/
def defaultConfig : CacheConfig where
  jwksURL := "/jwks"
  cacheTTL := hour
  minRefetchInterval := 15 * second
  negativeCacheTTL := 30 * second
  minRefetchInterval_pos := by decide
  negativeCacheTTL_pos := by decide

/-- The endpoint is down. -/
def outage : Response := .http 503 (.error "")

/-- A call finds that it has to refetch, leads a flight and starts the fetch. -/
def refetch (i : ℕ) (kid : String) (t : ℤ) : List Action :=
  [.call i (.invoke kid), .call i (.snapshot t t t), .call i .enter, .flight .attempt,
    .flight .start]

/-- Call 1 takes its snapshot before call 0 refetches in vain, and enters `Do` a second after
that flight is over. -/
def staleSnapshot : List Action :=
  [.call 1 (.invoke "b"), .call 1 (.snapshot 0 0 0)] ++ refetch 0 "a" 0 ++
    [.flight (.respond outage), .flight .finish, .call 0 .leave, .tick second,
      .call 1 .enter, .flight .attempt, .flight .start]

/-- The cooldown does not hold: the second fetch starts a second after the first. -/
theorem not_fetchesApart :
    ¬ ∀ s, (system defaultConfig).Reachable s →
      FetchesApart defaultConfig.minRefetchInterval s := by
  intro hall
  obtain ⟨s, hrun⟩ : ∃ s, (system defaultConfig).run (.initial 0) staleSnapshot = some s :=
    Option.isSome_iff_exists.mp (by decide +kernel)
  have hstarts : s.fetchStarts = [second, 0] := by
    have h : ((system defaultConfig).run (.initial 0) staleSnapshot).map (·.fetchStarts) =
        some [second, 0] := by decide +kernel
    rw [hrun] at h
    exact Option.some.inj h
  have hapart := hall s ⟨.initial 0, staleSnapshot, rfl, hrun⟩
  rw [FetchesApart, hstarts] at hapart
  exact absurd hapart (by decide)

/-- Two refetches. The fetch of the first starts a second after its attempt, and the second call comes a
second after the cooldown. -/
def patientCalls : List Action :=
  [.call 0 (.invoke "a"), .call 0 (.snapshot 0 0 0), .call 0 .enter, .flight .attempt,
    .tick second, .flight .start, .flight (.respond outage), .flight .finish, .call 0 .leave,
    .tick (16 * second)] ++ refetch 1 "a" (16 * second)

/-- A patient second call does refetch, a cooldown later. -/
theorem fetchesApart_of_orderly_patient :
    ∃ s, (system defaultConfig).run (.initial 0) patientCalls = some s ∧
      s.fetchStarts.length = 2 ∧ FetchesApart defaultConfig.minRefetchInterval s := by
  obtain ⟨s, hrun⟩ : ∃ s, (system defaultConfig).run (.initial 0) patientCalls = some s :=
    Option.isSome_iff_exists.mp (by decide +kernel)
  have hlength : s.fetchStarts.length = 2 := by
    have h : ((system defaultConfig).run (.initial 0) patientCalls).map (·.fetchStarts.length) =
        some 2 := by decide +kernel
    rw [hrun] at h
    exact Option.some.inj h
  have horderly : (system defaultConfig).EveryStep (Orderly defaultConfig 0 second)
      (.initial 0) patientCalls :=
    StepSystem.everyStep_of_checkEvery (by decide +kernel)
  have hinit : (system defaultConfig).IsInit (.initial 0) := rfl
  exact ⟨s, hrun, hlength, fetchesApart_of_orderly (by decide) hinit hrun horderly⟩

end Jwks

end JwtAuth
