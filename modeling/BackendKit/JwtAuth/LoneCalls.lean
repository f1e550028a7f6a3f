import BackendKit.JwtAuth.Jwks

/-!
# Calls that do not overlap

`Middleware.getKey` (`jwtauth/middleware.go`) as a function: one call from its start to its end, with
the instants of its steps and the answer of the endpoint. `exists_run_serve` says that a sequence of
such calls is a run of the cache and its callers (`Jwks.system`).
-/

open GoStd SingleFlight
open Function (update update_idem update_self)
open StepSystem (run run_append_eq_some)

namespace JwtAuth

namespace Jwks

/-! ### A call on its own -/

/-- What the middleware keeps between calls. -/
structure Cache where
  keys : KeySet
  lastFetch : ℤ
  lastRefetchAttempt : ℤ
  negativeCache : String → Option ℤ
  /-- The documents that have been published, in order. The program does not keep them. -/
  published : List (List JwksKey)

/-- A call that no other call overlaps: when it does what it may do, and what the endpoint answers
if it is asked. The first three instants after the start are the clock readings under the read
lock. -/
structure LoneCall where
  kid : String
  began : ℤ
  expiryRead : ℤ
  cooldownRead : ℤ
  negativeRead : ℤ
  attempted : ℤ
  fetchStarted : ℤ
  published : ℤ
  noted : ℤ
  response : Response
  began_le : began ≤ expiryRead
  expiryRead_le : expiryRead ≤ cooldownRead
  cooldownRead_le : cooldownRead ≤ negativeRead
  negativeRead_le : negativeRead ≤ attempted
  attempted_le : attempted ≤ fetchStarted
  fetchStarted_le : fetchStarted ≤ published
  published_le : published ≤ noted

/-- `fetchJWKS` up to the lock: the document to publish. -/
def fetchJWKS (cfg : CacheConfig) (r : Response) : Except FetchError (List JwksKey) :=
  if cfg.jwksURL = "" then .error .urlNotConfigured else r.document

namespace Cache

/-- The cache `New` leaves behind. -/
def initial : Cache where
  keys := ∅
  lastFetch := Time.zero
  lastRefetchAttempt := Time.zero
  negativeCache := fun _ => none
  published := []

/-- What a call reads under the read lock. -/
def snapshot (c : Cache) (cfg : CacheConfig) (call : LoneCall) : Snapshot where
  key := c.keys.lookup call.kid
  expired := cfg.cacheTTL < Time.sub call.expiryRead c.lastFetch
  inCooldown := Time.sub call.cooldownRead c.lastRefetchAttempt < cfg.minRefetchInterval
  negFresh := (c.negativeCache call.kid).any fun t =>
    Time.sub call.negativeRead t < cfg.negativeCacheTTL
  attempt := c.lastRefetchAttempt

/-- The cache after a refetch that published `doc`. -/
def publish (c : Cache) (doc : List JwksKey) (call : LoneCall) : Cache where
  keys := loadKeys doc
  lastFetch := call.published
  lastRefetchAttempt := call.attempted
  negativeCache := fun _ => none
  published := c.published ++ [doc]

/-- The cache with a note that a key id is unknown. -/
def remember (c : Cache) (cfg : CacheConfig) (call : LoneCall) : Cache :=
  { c with negativeCache :=
      rememberUnknownKid cfg.negativeCacheTTL c.negativeCache call.kid call.noted }

/-- The key that the last published document has for a key id. -/
def currentKey (c : Cache) (kid : String) : Option PublicKey :=
  c.published.getLast?.bind fun doc => usableKey doc kid

end Cache

/-- The answer of a call whose refresh failed: the key that it read at the start, if there is
one. -/
def Snapshot.fallback (snap : Snapshot) (err : FetchError) : Except KeyLookupError PublicKey :=
  match snap.key with
  | some key => .ok key
  | none => .error (.fetch err)

/-- `getKey`. -/
def getKey (cfg : CacheConfig) (c : Cache) (call : LoneCall) :
    Cache × Except KeyLookupError PublicKey :=
  let snap := c.snapshot cfg call
  match snap.answer? call.kid with
  | some result => (c, result)
  | none =>
    match fetchJWKS cfg call.response with
    | .error err => ({ c with lastRefetchAttempt := call.attempted }, snap.fallback err)
    | .ok doc =>
      let c := c.publish doc call
      match c.keys.lookup call.kid with
      | some key => (c, .ok key)
      | none => (c.remember cfg call, .error (.notFound call.kid))

/-- The cache after a sequence of calls. -/
def serve (cfg : CacheConfig) (c : Cache) (calls : List LoneCall) : Cache :=
  calls.foldl (fun c call => (getKey cfg c call).1) c

section

variable {cfg : CacheConfig} {c : Cache} {call : LoneCall} {key : PublicKey}

theorem getKey_of_answer {result : Except KeyLookupError PublicKey}
    (h : (c.snapshot cfg call).answer? call.kid = some result) : getKey cfg c call = (c, result) := by
  simp [getKey, h]

theorem getKey_of_published {doc : List JwksKey}
    (hanswer : (c.snapshot cfg call).answer? call.kid = none)
    (hfetch : fetchJWKS cfg call.response = .ok doc) (hkey : usableKey doc call.kid = some key) :
    getKey cfg c call = (c.publish doc call, .ok key) := by
  have hlookup : (c.publish doc call).keys.lookup call.kid = some key :=
    (lookup_loadKeys doc call.kid).trans hkey
  simp [getKey, hanswer, hfetch, hlookup]

/-- A call refetches for an unknown key id after the cooldown, if there is no note about it. -/
theorem answer?_eq_none (hkey : c.keys.lookup call.kid = none)
    (hnote : c.negativeCache call.kid = none)
    (hcooled : ¬ Time.sub call.cooldownRead c.lastRefetchAttempt < cfg.minRefetchInterval) :
    (c.snapshot cfg call).answer? call.kid = none := by
  simp [Cache.snapshot, Snapshot.answer?, hkey, hnote, hcooled]

/-- In the cooldown a call answers from its snapshot. -/
theorem answer?_of_inCooldown (found : Option PublicKey) (hkey : c.keys.lookup call.kid = found)
    (hcooling : Time.sub call.cooldownRead c.lastRefetchAttempt < cfg.minRefetchInterval) :
    (c.snapshot cfg call).answer? call.kid =
      some (found.elim (.error (.notFound call.kid)) .ok) := by
  cases found <;> simp [Cache.snapshot, Snapshot.answer?, hkey, hcooling]

end

/-- What a call does to the cache: nothing, it records a failed attempt, or it publishes a
document and, if that lacks the key id, makes a note. -/
theorem getKey_cases (cfg : CacheConfig) (c : Cache) (call : LoneCall) :
    (∃ result, (c.snapshot cfg call).answer? call.kid = some result ∧
      getKey cfg c call = (c, result)) ∨
    ((c.snapshot cfg call).answer? call.kid = none ∧ ∃ err,
      fetchJWKS cfg call.response = .error err ∧
      getKey cfg c call = ({ c with lastRefetchAttempt := call.attempted },
        (c.snapshot cfg call).fallback err)) ∨
    ((c.snapshot cfg call).answer? call.kid = none ∧ ∃ doc key,
      fetchJWKS cfg call.response = .ok doc ∧ usableKey doc call.kid = some key ∧
      getKey cfg c call = (c.publish doc call, .ok key)) ∨
    ((c.snapshot cfg call).answer? call.kid = none ∧ ∃ doc,
      fetchJWKS cfg call.response = .ok doc ∧ usableKey doc call.kid = none ∧
      getKey cfg c call = ((c.publish doc call).remember cfg call, .error (.notFound call.kid))) := by
  unfold getKey
  dsimp only
  cases hanswer : (c.snapshot cfg call).answer? call.kid with
  | some result => exact .inl ⟨result, rfl, rfl⟩
  | none =>
    refine .inr ?_
    cases hfetch : fetchJWKS cfg call.response with
    | error err => exact .inl ⟨rfl, err, rfl, rfl⟩
    | ok doc =>
      have hlookup : (c.publish doc call).keys.lookup call.kid = usableKey doc call.kid :=
        lookup_loadKeys doc call.kid
      cases hkey : usableKey doc call.kid with
      | some key =>
        rw [hkey] at hlookup
        exact .inr (.inl ⟨rfl, doc, key, rfl, hkey, by simp only [hlookup]⟩)
      | none =>
        rw [hkey] at hlookup
        exact .inr (.inr ⟨rfl, doc, rfl, hkey, by simp only [hlookup]⟩)

/-- The calls come one after the other, the first not before `now`. -/
def Chronological : ℤ → List LoneCall → Prop
  | _, [] => True
  | now, call :: calls => now ≤ call.began ∧ Chronological call.noted calls

theorem Chronological.mono {now now' : ℤ} {calls : List LoneCall} (h : Chronological now' calls)
    (hle : now ≤ now') : Chronological now calls := by
  cases calls with
  | nil => trivial
  | cons call calls => exact ⟨hle.trans h.1, h.2⟩

/-! ### Calls on their own are runs of the cache -/

/-- No call is under way, and the middleware keeps what `c` says. -/
structure Rests (s : State) (c : Cache) : Prop where
  keys : s.keys = c.keys
  lastFetch : s.lastFetch = c.lastFetch
  lastRefetchAttempt : s.lastRefetchAttempt = c.lastRefetchAttempt
  negativeCache : s.negativeCache = c.negativeCache
  published : s.published.map (·.doc) = c.published
  phase : s.phase = .idle
  running : s.group.running refetchKey = none

/-- Some steps lead from `s` to `s'`. -/
def Leads (cfg : CacheConfig) (s s' : State) : Prop :=
  ∃ as, (system cfg).run s as = some s'

variable {cfg : CacheConfig} {i : ℕ} {s : State} {c : Cache} {snap : Snapshot} {pending : Call}

theorem Leads.trans {s' s'' : State} (h : Leads cfg s s') (h' : Leads cfg s' s'') :
    Leads cfg s s'' := by
  obtain ⟨as, hrun⟩ := h
  obtain ⟨bs, hrun'⟩ := h'
  exact ⟨as ++ bs, (run_append_eq_some _).mpr ⟨s', hrun, hrun'⟩⟩

/-- A call begins and takes its snapshot. -/
theorem leads_snapshot (cfg : CacheConfig) (h : Rests s c) (hpc : s.calls i = .idle)
    {call : LoneCall} (hnow : s.now ≤ call.began) :
    ∃ s', Leads cfg s s' ∧ Rests s' c ∧ s'.now = call.negativeRead ∧
      s'.calls = update s.calls i
        ((c.snapshot cfg call).next { kid := call.kid, since := s.published.length }) := by
  have hbegan : call.began ≤ call.negativeRead :=
    call.began_le.trans (call.expiryRead_le.trans call.cooldownRead_le)
  have hsnap : ∀ now calls, State.snapshot { s with now, calls } cfg call.kid call.expiryRead
      call.cooldownRead call.negativeRead = c.snapshot cfg call := by
    intro now calls
    simp [State.snapshot, Cache.snapshot, h.keys, h.lastFetch, h.lastRefetchAttempt,
      h.negativeCache]
  have hrun : Leads cfg s { s with
      now := call.negativeRead
      calls := update s.calls i
        ((c.snapshot cfg call).next { kid := call.kid, since := s.published.length }) } := by
    refine ⟨[.tick call.began, .call i (.invoke call.kid), .tick call.negativeRead,
      .call i (.snapshot call.expiryRead call.cooldownRead call.negativeRead)], ?_⟩
    simp [run, system, callStep, State.move, hnow, hpc, hbegan, call.began_le,
      call.expiryRead_le, call.cooldownRead_le, hsnap]
  exact ⟨_, hrun, ⟨h.keys, h.lastFetch, h.lastRefetchAttempt, h.negativeCache, h.published, h.phase,
    h.running⟩, rfl, rfl⟩

theorem Snapshot.afterFlight_some (snap : Snapshot) (pending : Call) (err : FetchError) :
    snap.afterFlight pending (some err) = .done pending (snap.fallback err) := by
  unfold Snapshot.afterFlight Snapshot.fallback
  cases snap.key <;> rfl

/-- Call `i` has led a flight up to the request. -/
def State.attempting (s : State) (i : ℕ) (pending : Call) (snap : Snapshot) (call : LoneCall) :
    State :=
  { s with
    now := call.fetchStarted
    lastRefetchAttempt := call.attempted
    group := s.group.enter refetchKey
    phase := .attempted
    calls := update s.calls i (.waiting pending snap (s.group.flightOf refetchKey)) }

theorem leads_attempting (cfg : CacheConfig) (h : Rests s c) (hpc : s.calls i = .toDo pending snap)
    {call : LoneCall} (hnow : s.now ≤ call.attempted) :
    Leads cfg s (s.attempting i pending snap call) := by
  refine ⟨[.call i .enter, .tick call.attempted, .flight .attempt, .tick call.fetchStarted], ?_⟩
  simp [run, system, callStep, flightStep, State.enterDo, State.move, State.attempting,
    hpc, h.running, hnow, call.attempted_le]

/-- The flight returns, and so does the call from it. -/
theorem leads_finish (cfg : CacheConfig) {n : ℕ} {r : Option FetchError}
    (hpc : s.calls i = .waiting pending snap n) (hrunning : s.group.running refetchKey = some n)
    (hphase : s.phase = .returning r) :
    Leads cfg s { s with
      group := s.group.finish refetchKey r
      phase := .idle
      calls := update s.calls i (snap.afterFlight pending r) } := by
  refine ⟨[.flight .finish, .call i .leave], ?_⟩
  simp [run, system, callStep, flightStep, State.move, hpc, hphase,
    Group.results_finish_self r hrunning]

/-- A flight that fails. -/
theorem leads_failed (h : Rests s c) (hpc : s.calls i = .toDo pending snap) {call : LoneCall}
    (hnow : s.now ≤ call.attempted) {err : FetchError}
    (hfetch : fetchJWKS cfg call.response = .error err) :
    ∃ s', Leads cfg s s' ∧ Rests s' { c with lastRefetchAttempt := call.attempted } ∧
      s'.calls = update s.calls i (snap.afterFlight pending (some err)) ∧
      s'.now ≤ call.noted := by
  have hattempting := leads_attempting cfg h hpc hnow
  -- Without a URL the flight fails at once, otherwise by the answer.
  obtain ⟨fetchStarts, hreturning⟩ : ∃ fetchStarts, Leads cfg (s.attempting i pending snap call)
      { s.attempting i pending snap call with phase := .returning (some err), fetchStarts } := by
    unfold fetchJWKS at hfetch
    split_ifs at hfetch with hurl
    · cases hfetch
      refine ⟨s.fetchStarts, [.flight .start], ?_⟩
      simp [run, system, flightStep, State.attempting, hurl]
    · refine ⟨call.fetchStarted :: s.fetchStarts, [.flight .start, .flight (.respond call.response)], ?_⟩
      simp [run, system, flightStep, State.attempting, hurl, hfetch]
  refine ⟨_, hattempting.trans (hreturning.trans (leads_finish cfg (update_self i _ _)
    (Group.running_enter s.group refetchKey) rfl)), ?_, ?_, ?_⟩
  · exact ⟨h.keys, h.lastFetch, rfl, h.negativeCache, h.published, rfl, Group.running_finish _ _ _⟩
  · exact update_idem _ _ _
  · exact call.fetchStarted_le.trans call.published_le

/-- A flight that publishes a document. -/
theorem leads_published (h : Rests s c) (hpc : s.calls i = .toDo pending snap) {call : LoneCall}
    (hnow : s.now ≤ call.attempted) {doc : List JwksKey}
    (hfetch : fetchJWKS cfg call.response = .ok doc) :
    ∃ s', Leads cfg s s' ∧ Rests s' (c.publish doc call) ∧
      s'.calls = update s.calls i (.refetched pending) ∧ s'.now = call.published := by
  have hattempting := leads_attempting cfg h hpc hnow
  have hurl : cfg.jwksURL ≠ "" := by
    intro hempty
    simp [fetchJWKS, hempty] at hfetch
  have hdoc : call.response.document = .ok doc := by
    simpa [fetchJWKS, hurl] using hfetch
  have hreturning : Leads cfg (s.attempting i pending snap call)
      { s.attempting i pending snap call with
        now := call.published
        keys := loadKeys doc
        lastFetch := call.published
        negativeCache := fun _ => none
        phase := .returning none
        fetchStarts := call.fetchStarted :: s.fetchStarts
        published := s.published ++
          [{ flight := (s.group.enter refetchKey).flightOf refetchKey, doc }] } := by
    refine ⟨[.flight .start, .flight (.respond call.response), .tick call.published,
      .flight .publish], ?_⟩
    simp [run, system, flightStep, State.attempting, State.publish, hurl, hdoc,
      call.fetchStarted_le]
  refine ⟨_, hattempting.trans (hreturning.trans (leads_finish cfg (update_self i _ _)
    (Group.running_enter s.group refetchKey) rfl)), ?_, ?_, rfl⟩
  · refine ⟨rfl, rfl, rfl, rfl, ?_, rfl, Group.running_finish _ _ _⟩
    simp [Cache.publish, h.published]
  · exact update_idem _ _ _

/-- After the flight the call finds its key. -/
theorem leads_found (cfg : CacheConfig) (h : Rests s c) (hpc : s.calls i = .refetched pending)
    {key : PublicKey} (hkey : c.keys.lookup pending.kid = some key) :
    ∃ s', Leads cfg s s' ∧ Rests s' c ∧ s'.now = s.now ∧
      s'.calls = update s.calls i (.done pending (.ok key)) := by
  have hrun : Leads cfg s (s.move i (.done pending (.ok key))) := by
    refine ⟨[.call i .reread], ?_⟩
    rw [← h.keys] at hkey
    simp [run, system, callStep, hpc, hkey]
  exact ⟨_, hrun, ⟨h.keys, h.lastFetch, h.lastRefetchAttempt, h.negativeCache, h.published, h.phase,
    h.running⟩, rfl, rfl⟩

/-- After the flight the key is still missing, and the call makes a note. -/
theorem leads_noted (cfg : CacheConfig) (h : Rests s c) (hpc : s.calls i = .refetched pending)
    {call : LoneCall} (hkid : pending.kid = call.kid) (hkey : c.keys.lookup call.kid = none)
    (hnow : s.now ≤ call.noted) :
    ∃ s', Leads cfg s s' ∧ Rests s' (c.remember cfg call) ∧ s'.now = call.noted ∧
      s'.calls = update s.calls i (.done pending (.error (.notFound call.kid))) := by
  have hrun : Leads cfg s { s with
      now := call.noted
      negativeCache :=
        rememberUnknownKid cfg.negativeCacheTTL s.negativeCache call.kid call.noted
      calls := update s.calls i (.done pending (.error (.notFound call.kid))) } := by
    refine ⟨[.call i .reread, .tick call.noted, .call i (.remember call.noted)], ?_⟩
    rw [← h.keys, ← hkid] at hkey
    simp [run, system, callStep, State.move, hpc, hkey, hkid, hnow]
  refine ⟨_, hrun, ⟨h.keys, h.lastFetch, h.lastRefetchAttempt, ?_, h.published, h.phase,
    h.running⟩, rfl, rfl⟩
  simp [Cache.remember, h.negativeCache]

/-- **`getKey` is what the steps of a call amount to** when no other call comes in between. -/
theorem exists_leads_getKey (cfg : CacheConfig) (h : Rests s c) (hpc : s.calls i = .idle)
    {call : LoneCall} (hnow : s.now ≤ call.began) :
    ∃ s', Leads cfg s s' ∧ Rests s' (getKey cfg c call).1 ∧
      s'.calls = update s.calls i
        (.done { kid := call.kid, since := s.published.length } (getKey cfg c call).2) ∧
      s'.now ≤ call.noted := by
  obtain ⟨s₁, hread, hrests, hnow₁, hcalls₁⟩ := leads_snapshot cfg h hpc hnow
  generalize hpending : ({ kid := call.kid, since := s.published.length } : Call) = pending at *
  have hkid : pending.kid = call.kid := by rw [← hpending]
  have h₄ := call.negativeRead_le
  have h₅ := call.attempted_le
  have h₆ := call.fetchStarted_le
  have h₇ := call.published_le
  have hattempted : s₁.now ≤ call.attempted := hnow₁.trans_le h₄
  cases hanswer : (c.snapshot cfg call).answer? call.kid with
  | some result =>
    -- The call answers from its snapshot.
    have heq := getKey_of_answer hanswer
    refine ⟨s₁, hread, by rwa [heq], ?_, by omega⟩
    simp [hcalls₁, heq, Snapshot.next, hkid, hanswer]
  | none =>
    have hpc₁ : s₁.calls i = .toDo pending (c.snapshot cfg call) := by
      simp [hcalls₁, Snapshot.next, hkid, hanswer]
    cases hfetch : fetchJWKS cfg call.response with
    | error err =>
      obtain ⟨s₂, hleads, hrests₂, hcalls₂, hnow₂⟩ := leads_failed hrests hpc₁ hattempted hfetch
      have heq : getKey cfg c call = ({ c with lastRefetchAttempt := call.attempted },
          (c.snapshot cfg call).fallback err) := by simp [getKey, hanswer, hfetch]
      refine ⟨s₂, hread.trans hleads, by rwa [heq], ?_, hnow₂⟩
      rw [hcalls₂, hcalls₁, update_idem, heq, Snapshot.afterFlight_some]
    | ok doc =>
      obtain ⟨s₂, hleads, hrests₂, hcalls₂, hnow₂⟩ := leads_published hrests hpc₁ hattempted hfetch
      have hpc₂ : s₂.calls i = .refetched pending := by simp [hcalls₂]
      cases hkey : (c.publish doc call).keys.lookup call.kid with
      | some key =>
        obtain ⟨s₃, hfound, hrests₃, hnow₃, hcalls₃⟩ := leads_found cfg hrests₂ hpc₂ (hkid ▸ hkey)
        have heq := getKey_of_published hanswer hfetch ((lookup_loadKeys doc call.kid).symm.trans hkey)
        refine ⟨s₃, hread.trans (hleads.trans hfound), by rwa [heq], ?_, by omega⟩
        rw [hcalls₃, hcalls₂, hcalls₁, update_idem, update_idem, heq]
      | none =>
        obtain ⟨s₃, hmissed, hrests₃, hnow₃, hcalls₃⟩ :=
          leads_noted cfg hrests₂ hpc₂ hkid hkey (hnow₂.trans_le h₇)
        have heq : getKey cfg c call =
            ((c.publish doc call).remember cfg call, .error (.notFound call.kid)) := by
          simp [getKey, hanswer, hfetch, hkey]
        refine ⟨s₃, hread.trans (hleads.trans hmissed), by rwa [heq], ?_, hnow₃.le⟩
        rw [hcalls₃, hcalls₂, hcalls₁, update_idem, update_idem, heq]

/-- The cache after calls that do not overlap is the one that a run of the system ends with: call
after call, each under a number of its own. -/
theorem exists_run_serve (h : Rests s c) {calls : List LoneCall}
    (hchron : Chronological s.now calls) {k : ℕ} (hidle : ∀ i, k ≤ i → s.calls i = .idle) :
    ∃ as s', (system cfg).run s as = some s' ∧ Rests s' (serve cfg c calls) := by
  induction calls generalizing s c k with
  | nil => exact ⟨[], s, rfl, h⟩
  | cons call calls ih =>
    obtain ⟨s₁, ⟨as, hrun⟩, hrests, hcalls, hnow⟩ :=
      exists_leads_getKey cfg h (hidle k le_rfl) hchron.1
    have hidle' : ∀ i, k + 1 ≤ i → s₁.calls i = .idle := by
      intro i hi
      have hne : i ≠ k := by omega
      rw [hcalls, Function.update_of_ne hne]
      exact hidle i (by omega)
    obtain ⟨bs, s₂, hrun', hrests'⟩ := ih hrests (hchron.2.mono hnow) hidle'
    exact ⟨as ++ bs, s₂, (run_append_eq_some _).mpr ⟨s₁, hrun, hrun'⟩, hrests'⟩

/-- A call on its own leads from one reachable state to the next. -/
theorem exists_reachable_getKey (hs : (system cfg).Reachable s) (h : Rests s c) (i : ℕ)
    (call : LoneCall) (hpc : s.calls i = .idle) (hnow : s.now ≤ call.began) :
    ∃ s', (system cfg).Reachable s' ∧ Rests s' (getKey cfg c call).1 ∧
      s'.calls = update s.calls i
        (.done { kid := call.kid, since := c.published.length } (getKey cfg c call).2) ∧
      s'.now ≤ call.noted := by
  obtain ⟨s₀, as, hinit, hrun⟩ := hs
  obtain ⟨s', ⟨bs, hrun'⟩, hrests, hcalls, hnow'⟩ := exists_leads_getKey cfg h hpc hnow
  have hlength : s.published.length = c.published.length := by
    rw [← h.published, List.length_map]
  rw [hlength] at hcalls
  exact ⟨s', ⟨s₀, as ++ bs, hinit, (run_append_eq_some _).mpr ⟨s, hrun, hrun'⟩⟩, hrests,
    hcalls, hnow'⟩

/-- A call whose fetch, if it makes one, takes `d`. -/
def LoneCall.lasting (kid : String) (t d : ℤ) (hd : 0 ≤ d) (response : Response) : LoneCall where
  kid := kid
  began := t
  expiryRead := t
  cooldownRead := t
  negativeRead := t
  attempted := t
  fetchStarted := t
  published := t + d
  noted := t + d
  response := response
  began_le := le_rfl
  expiryRead_le := le_rfl
  cooldownRead_le := le_rfl
  negativeRead_le := le_rfl
  attempted_le := le_rfl
  fetchStarted_le := Int.le_add_of_nonneg_right hd
  published_le := le_rfl

end Jwks

end JwtAuth
