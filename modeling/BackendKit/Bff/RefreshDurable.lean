import BackendKit.Bff.PostgresStore
import BackendKit.Bff.Refresh

/-!
# Concurrent token refresh over the durable store

The requests of `BackendKit.Bff.Refresh` over `PostgresStore`. Every `Get` rehydrates a session of
its own, and every `Put` writes the whole session back.

A refresh runs on the session of the request that leads the flight, and is written through to the
table. The requests that only joined the flight keep their copies from before. When one of them
slides its idle timestamp it writes its copy back, and with it the refresh token that the flight
has just spent: `not_rotationNeverLost` is that run.

`rotation_kept_of_upToDate` says that nothing else goes wrong: as long as every such write-back is
of a session that was read, or refreshed by its own request, after the last refresh was written
through, and the session a refresh writes through can be encoded, the table never holds a spent
token, except while the flight that spent it is on its way to the table.
-/

open GoStd GoStd.SingleFlight
open Function (update update_of_ne update_self)

namespace Bff

namespace Refresh

/-! ### The durable store -/

/-- The durable store over a table: what `PostgresStore` does to its rows. -/
def Backend.postgres {β δ : Type} (codec : PostgresStore.Codec β δ) (idle absolute : ℤ) :
    Backend (String → Option (Row δ)) :=
  let table (rows : String → Option (Row δ)) : PostgresStore β δ := { codec, idle, absolute, rows }
  { lookup := fun rows id => ((table rows).stored id).map .copy
    expired := fun rows s now => (table rows).expired s.created s.lastSeen now
    remove := fun rows id _ => ((table rows).remove id).rows
    put := fun rows _ s => ((table rows).put s.snapshot).rows
    delete := fun rows id now => ((table rows).delete id now).rows
    sweep := fun rows _ _ now => ((table rows).sweep now).rows }

/-- The store hands out copies, and what was put last under an id is what it hands out, if
anything, unless it cannot be encoded: then nothing changes. -/
structure Backend.Rehydrates {σ : Type} (B : Backend σ) (encodes : Session → Prop) : Prop where
  copies : ∀ store id f, B.lookup store id = some f → ∃ snap, f = .copy snap ∧ snap.id = id
  lookup_put : ∀ store p s f, B.lookup (B.put store p s) s.id = some f →
    f = .copy s.snapshot ∨ ¬ encodes s ∧ B.lookup store s.id = some f

section Postgres

variable {β δ : Type} {codec : PostgresStore.Codec β δ} {idle absolute : ℤ}

theorem lookup_postgres {rows : String → Option (Row δ)} {id : String} {f : Found} :
    (Backend.postgres codec idle absolute).lookup rows id = some f ↔
      ∃ snap, PostgresStore.stored { codec, idle, absolute, rows } id = some snap ∧
        .copy snap = f :=
  Option.map_eq_some_iff

/-- A statement that changes the rows keeps the rest of the store. -/
theorem put_postgres {p : PostgresStore β δ} (snap : SessionSnapshot) :
    { p with rows := (p.put snap).rows } = p.put snap := by
  unfold PostgresStore.put PostgresStore.upsert
  repeat' split
  all_goals rfl

theorem lookup_postgres_put {rows : String → Option (Row δ)} {q : ℕ} {s : Session} {id : String}
    {f : Found} (h : (Backend.postgres codec idle absolute).lookup
      ((Backend.postgres codec idle absolute).put rows q s) id = some f) :
    ∃ snap, (PostgresStore.put { codec, idle, absolute, rows } s.snapshot).stored id = some snap ∧
      .copy snap = f := by
  obtain ⟨snap, hsnap, rfl⟩ := lookup_postgres.mp h
  refine ⟨snap, ?_, rfl⟩
  rw [← put_postgres]
  exact hsnap

theorem delete_postgres {p : PostgresStore β δ} (id : String) (now : ℤ) :
    { p with rows := (p.delete id now).rows } = p.delete id now := by
  unfold PostgresStore.delete
  split <;> rfl

variable (hcodec : codec.Documented)

include hcodec

theorem rehydrates_postgres :
    (Backend.postgres codec idle absolute).Rehydrates fun s => codec.encodes s.snapshot = true where
  copies rows id f h := by
    obtain ⟨snap, hsnap, rfl⟩ := lookup_postgres.mp h
    exact ⟨snap, rfl, PostgresStore.id_of_stored hsnap⟩
  lookup_put rows p s f h := by
    obtain ⟨snap, hsnap, rfl⟩ := lookup_postgres_put h
    rcases PostgresStore.stored_put_cases hcodec hsnap with rfl | ⟨hencodes, hold⟩
    · exact .inl rfl
    · exact .inr ⟨Bool.not_eq_true _ ▸ hencodes, lookup_postgres.mpr ⟨snap, hold, rfl⟩⟩

theorem lawful_postgres : (Backend.postgres codec idle absolute).Lawful where
  lookup_put rows p s id f h := by
    by_cases heq : id = s.id
    · subst heq
      rcases (rehydrates_postgres hcodec).lookup_put rows p s f h with hput | ⟨-, hold⟩
      · exact .inr ⟨rfl, Or.inr hput⟩
      · exact .inl hold
    · obtain ⟨snap, hsnap, rfl⟩ := lookup_postgres_put h
      refine .inl (lookup_postgres.mpr ⟨snap, ?_, rfl⟩)
      rw [PostgresStore.stored_congr (PostgresStore.codec_put _)
        (PostgresStore.rows_put_of_ne heq)] at hsnap
      exact hsnap
  lookup_remove rows id now id' f h := by
    obtain ⟨snap, hsnap, rfl⟩ := lookup_postgres.mp h
    exact lookup_postgres.mpr ⟨snap, PostgresStore.stored_of_stored_remove hsnap, rfl⟩
  lookup_delete rows id now id' f h := by
    obtain ⟨snap, hsnap, rfl⟩ := lookup_postgres.mp h
    have hdelete := delete_postgres (p := { codec, idle, absolute, rows }) id now
    simp only [Backend.postgres] at hsnap
    rw [hdelete] at hsnap
    exact lookup_postgres.mpr ⟨snap, PostgresStore.stored_of_stored_delete hsnap, rfl⟩
  lookup_sweep rows heap nowAt now id f h := by
    obtain ⟨snap, hsnap, rfl⟩ := lookup_postgres.mp h
    exact lookup_postgres.mpr ⟨snap, PostgresStore.stored_of_stored_sweep hsnap, rfl⟩

end Postgres

/-! ### Rotated tokens -/

variable {σ : Type}

/-- The store holds no refresh token that a refresh has spent, except while the flight that spent
it is on its way to the store. -/
def RotationKept (M : Setup σ) (s : State σ) : Prop :=
  ∀ snap, M.backend.lookup s.store M.sid = some (.copy snap) → snap.refreshToken ∈ s.spent →
    ∃ n f, s.flights n = some f ∧ f.phase.exchanged = some snap.refreshToken

/-- The token that a successful answer of the token endpoint exchanges. -/
def State.exchanges (s : State σ) : Action → Option String
  | .flight n (.refreshReturns (.ok _)) =>
    match s.flights n with
    | some ⟨_, _, .calling token⟩ => some token
    | _ => none
  | _ => none

/-- Refresh tokens are single-use: a success spends a token that was not spent, and returns a new
one. -/
def SingleUse (s : State σ) (a : Action) : Prop :=
  Honest s a ∧ ∀ token ∈ s.exchanges a, token ∉ s.spent

instance (s : State σ) (a : Action) : Decidable (SingleUse s a) :=
  inferInstanceAs (Decidable (_ ∧ _))

/-- The request that writes its session back after sliding the idle timestamp. -/
def Action.writesBack : Action → Option ℕ
  | .request i .putExec => some i
  | _ => none

/-- The write-back of an idle timestamp is up to date: no refresh was written through since the
request read, or itself refreshed, its session. -/
def UpToDate (s : State σ) (a : Action) : Prop :=
  ∀ i ∈ a.writesBack, s.readAt i = s.writes

instance (s : State σ) (a : Action) : Decidable (UpToDate s a) :=
  inferInstanceAs (Decidable (∀ i ∈ a.writesBack, _))

/-- The session that a flight writes through. -/
def State.writesThrough (s : State σ) : Action → Option Session
  | .flight n .putExec =>
    match s.flights n with
    | some ⟨_, _, .putting _ snap⟩ => some snap
    | _ => none
  | _ => none

/-- A session that a flight writes through can be encoded. -/
def Written {β δ : Type} (codec : PostgresStore.Codec β δ) (s : State σ) (a : Action) : Prop :=
  ∀ session ∈ s.writesThrough a, codec.encodes session.snapshot = true

instance {β δ : Type} (codec : PostgresStore.Codec β δ) (s : State σ) (a : Action) :
    Decidable (Written codec s a) :=
  inferInstanceAs (Decidable (∀ session ∈ s.writesThrough a, _))

/-! ### Every request has a session of its own -/

/-- No two requests hold the same session, a flight's leader waits for it, and nobody has read
later than the last write. -/
structure Exclusive (s : State σ) : Prop where
  looked : ∀ i f, s.requests i = .looked f → ∃ snap, f = .copy snap
  owner : ∀ i j p, (s.requests i).session = some p → (s.requests j).session = some p → i = j
  leader : ∀ n f, s.flights n = some f → s.requests f.leader = .waiting f.session n
  readAt_le : ∀ i, s.readAt i ≤ s.writes

theorem not_waiting_of_plain {pc : Pc} (h : pc.plain = true ∨ ∃ f, pc = .looked f) (p n : ℕ) :
    pc ≠ .waiting p n := by
  rintro rfl
  rcases h with h | ⟨f, h⟩ <;> cases h

theorem not_putting_of_plain {pc : Pc} (h : pc.plain = true ∨ ∃ f, pc = .looked f) (p : ℕ)
    (access : String) (snap : Session) : pc ≠ .putting p access snap := by
  rintro rfl
  rcases h with h | ⟨f, h⟩ <;> cases h

namespace Exclusive

variable {s : State σ}

/-- A request that leads no flight goes on with its own session, or a new one. -/
theorem move (h : Exclusive s) {i : ℕ} {pc₀ pc : Pc} (hpc : s.requests i = pc₀)
    (hleader : ∀ p n, pc₀ = .waiting p n → s.flights n = none)
    (hlooked : ∀ f, pc = .looked f → ∃ snap, f = .copy snap)
    (hsession : ∀ p, pc.session = some p → pc₀.session = some p ∨
      ∀ j, (s.requests j).session ≠ some p) : Exclusive (s.move i pc) where
  looked := (Function.forall_update_iff _ fun _ pc => ∀ f, pc = Pc.looked f → ∃ snap, f = .copy snap).mpr
    ⟨hlooked, fun j _ => h.looked j⟩
  owner j k p hj hk := by
    -- whoever else holds a session of the request held it before
    have hother : ∀ j', j' ≠ i → ∀ p, pc.session = some p → (s.requests j').session ≠ some p := by
      intro j' hne p hp hp'
      rcases hsession p hp with hown | hnew
      · exact hne (h.owner j' i p hp' (hpc ▸ hown))
      · exact hnew j' hp'
    simp only [State.move] at hj hk
    by_cases hji : j = i <;> by_cases hki : k = i
    · rw [hji, hki]
    · rw [hji, update_self] at hj
      rw [update_of_ne hki] at hk
      exact absurd hk (hother k hki p hj)
    · rw [hki, update_self] at hk
      rw [update_of_ne hji] at hj
      exact absurd hj (hother j hji p hk)
    · rw [update_of_ne hji] at hj
      rw [update_of_ne hki] at hk
      exact h.owner j k p hj hk
  leader n f hf := by
    have hne : f.leader ≠ i := by
      intro heq
      have hnone := hleader f.session n (hpc.symm.trans (heq ▸ h.leader n f hf))
      exact Option.some_ne_none f (hf.symm.trans hnone)
    simp only [State.move, update_of_ne hne]
    exact h.leader n f hf
  readAt_le := h.readAt_le

theorem advance (h : Exclusive s) {n : ℕ} {f : Flight} (hf : s.flights n = some f)
    (phase : Phase) : Exclusive (s.advance n f phase) where
  looked := h.looked
  owner := h.owner
  leader m f' hf' := by
    rcases flights_advance hf' with ⟨rfl, rfl⟩ | ⟨-, hf'⟩
    · exact h.leader m f hf
    · exact h.leader m f' hf'
  readAt_le := h.readAt_le

end Exclusive

/-- Every step leaves every request a session of its own. -/
theorem exclusive_step {M : Setup σ} {encodes : Session → Prop}
    (hB : M.backend.Rehydrates encodes) {s s' : State σ} {a : Action}
    (hc : Coherent M s) (hs : Exclusive s) (h : M.system.step s a = some s') : Exclusive s' := by
  have hplainLooked : ∀ {pc : Pc}, pc.plain = true →
      ∀ f, pc = .looked f → ∃ snap, f = .copy snap := by
    rintro pc hplain f rfl
    cases hplain
  cases step_cases h with
  | quiet i a pc hbefore hplain hsession =>
    exact hs.move rfl (fun p n heq => absurd heq (not_waiting_of_plain hbefore p n))
      (hplainLooked hplain) fun p hp => .inl (session_of_kept hsession hp)
  | looked i f hpc hf =>
    have hread : Exclusive (s.noteRead i) := by
      refine ⟨hs.looked, hs.owner, hs.leader, fun j => ?_⟩
      by_cases heq : j = i
      · subst heq
        simp [State.noteRead]
      · simp only [State.noteRead, update_of_ne heq]
        exact hs.readAt_le j
    obtain ⟨snap, rfl, -⟩ := hB.copies _ _ f hf
    exact hread.move hpc (fun p n heq => by cases heq) (fun f' heq => by cases heq; exact ⟨snap, rfl⟩)
      fun p hp => by cases hp
  | rehydrated i now snap hpc =>
    have hnew : Exclusive (s.rehydrate snap) := ⟨hs.looked, hs.owner, hs.leader, hs.readAt_le⟩
    refine hnew.move hpc (fun p n heq => by cases heq) (hplainLooked rfl)
      fun p hp => .inr fun j hj => ?_
    -- a new address is held by nobody
    cases hp
    exact absurd ((hc.requests j).session _ hj).1 (Nat.lt_irrefl _)
  | removed i a store pc hstore hbefore hplain hsession =>
    have hset : Exclusive (s.setStore store) := ⟨hs.looked, hs.owner, hs.leader, hs.readAt_le⟩
    exact hset.move rfl (fun p n heq => absurd heq (not_waiting_of_plain (.inl hbefore) p n))
      (hplainLooked hplain) fun p hp => by rw [hsession] at hp; cases hp
  | entered i p hpc =>
    have hmove : Exclusive (s.move i (.waiting p (s.group.flightOf (s.heap p).id))) :=
      hs.move hpc (fun q n heq => by cases heq) (fun f heq => by cases heq) fun q hq => .inl hq
    refine ⟨hmove.looked, hmove.owner, fun n f hf => ?_, hmove.readAt_le⟩
    rcases flights_enterDo hf with hf | ⟨-, rfl, rfl⟩
    · exact hmove.leader n f hf
    · exact update_self i _ _
  | left i p n result hpc hresult =>
    have hnoted : Exclusive (s.noteReceived n result) :=
      ⟨hs.looked, hs.owner, hs.leader, hs.readAt_le⟩
    refine hnoted.move hpc (fun q m heq => ?_) (hplainLooked (answer_plain p result).1)
      fun q hq => .inl ?_
    · -- the flight has a result, so it is not running
      cases heq
      cases hf : s.flights n with
      | none => exact hf
      | some f =>
        have hnone := (hc.group.running_lt _ _ (hc.flights n f hf).2).2
        rw [hresult] at hnone
        cases hnone
    · exact session_of_kept (answer_plain p result).2 hq
  | touched i p access now hpc =>
    have hmod : Exclusive (s.modify p (·.touch now)) :=
      ⟨hs.looked, hs.owner, hs.leader, hs.readAt_le⟩
    exact hmod.move hpc (fun q n heq => by cases heq) (hplainLooked rfl) fun q hq => .inl hq
  | snapshot i p access hpc =>
    exact hs.move hpc (fun q n heq => by cases heq) (fun f heq => by cases heq) fun q hq => .inl hq
  | put i p access snap hpc =>
    have hset : Exclusive (s.setStore (M.backend.put s.store p snap)) :=
      ⟨hs.looked, hs.owner, hs.leader, hs.readAt_le⟩
    exact hset.move hpc (fun q n heq => by cases heq) (hplainLooked rfl) fun q hq => by cases hq
  | advanced n a f phase hf => exact hs.advance hf phase
  | called n f hf hphase =>
    exact Exclusive.advance (s := s.noteCall _) ⟨hs.looked, hs.owner, hs.leader, hs.readAt_le⟩ hf _
  | exchanged n f token ts hf hphase =>
    exact Exclusive.advance (s := s.noteExchange token ts)
      ⟨hs.looked, hs.owner, hs.leader, hs.readAt_le⟩ hf _
  | applied n f token ts now hf hphase =>
    exact Exclusive.advance (s := s.modify f.session (·.setTokens ts now))
      ⟨hs.looked, hs.owner, hs.leader, hs.readAt_le⟩ hf _
  | flightSnapshot n f token hf hphase => exact hs.advance hf _
  | written n f token snap hf hphase =>
    have hnext := hs.advance hf .written
    refine ⟨hnext.looked, hnext.owner, hnext.leader, fun j => ?_⟩
    simp only [State.advance, State.noteWrite]
    by_cases heq : j = f.leader
    · rw [heq, update_self]
    · rw [update_of_ne heq]
      exact Nat.le_succ_of_le (hs.readAt_le j)
  | finished n f result hf hphase =>
    exact ⟨hs.looked, hs.owner, fun m f' hf' => hs.leader m f' (flights_endFlight hf').2,
      hs.readAt_le⟩
  | loggedOut | swept => exact ⟨hs.looked, hs.owner, hs.leader, hs.readAt_le⟩

/-! ### The current token -/

/-- The refresh token that a request would write back. -/
def Pc.token (heap : ℕ → Session) : Pc → Option String
  | .looked (.copy snap) => some snap.refreshToken
  | .putting _ _ snap => some snap.refreshToken
  | pc => pc.session.map fun p => (heap p).refreshToken

/-- The flight has applied a new token to its session and not yet written it through. -/
def Phase.isApplied : Phase → Bool
  | .applied _ => true
  | .putting _ _ => true
  | _ => false

/-- The new token of a flight has not been spent. -/
def Flight.TokenNew (heap : ℕ → Session) (seen spent : List String) (f : Flight) : Prop :=
  match f.phase with
  | .applied _ => (heap f.session).refreshToken ∉ spent
  | .putting _ snap => snap.refreshToken = (heap f.session).refreshToken ∧
      (heap f.session).refreshToken ∉ spent
  | phase => phase.TokensKnown seen spent

/-- `cur` is the refresh token of the last refresh that was written through. The store holds no
other, requests that are up to date hold no other, and it is unspent, except while a flight is
about to replace it. -/
structure Current (M : Setup σ) (cur : String) (s : State σ) : Prop where
  stored : ∀ snap, M.backend.lookup s.store M.sid = some (.copy snap) → snap.refreshToken = cur
  requests : ∀ i x, (s.requests i).token s.heap = some x → s.readAt i = s.writes →
    x = cur ∨ ∃ n f, s.flights n = some f ∧ f.leader = i ∧ f.phase.isApplied = true
  spent_seen : ∀ token ∈ s.spent, token ∈ s.seen
  flights : ∀ n f, s.flights n = some f → f.TokenNew s.heap s.seen s.spent
  unspent : cur ∈ s.spent → ∃ n f, s.flights n = some f ∧ f.phase.exchanged = some cur

/-- A request that has neither just read the store nor taken a snapshot has its session's token. -/
theorem token_eq {pc : Pc} (heap : ℕ → Session) (hlooked : ∀ snap, pc ≠ .looked (.copy snap))
    (hputting : ∀ p access snap, pc ≠ .putting p access snap) :
    pc.token heap = pc.session.map fun p => (heap p).refreshToken := by
  cases pc with
  | looked f =>
    cases f with
    | shared p => rfl
    | copy snap => exact absurd rfl (hlooked snap)
  | putting p access snap => exact absurd rfl (hputting p access snap)
  | start | expired | fetched | checked | valid | stale | waiting | rejected | fresh | due
  | touched | done => rfl

theorem token_of_plain {pc : Pc} (heap : ℕ → Session) (h : pc.plain = true) :
    pc.token heap = pc.session.map fun p => (heap p).refreshToken :=
  token_eq heap (fun _ heq => by rw [heq] at h; cases h) fun _ _ _ heq => by rw [heq] at h; cases h

/-- A request's token depends on its own session only. -/
theorem token_congr {pc : Pc} {heap heap' : ℕ → Session}
    (h : ∀ p, pc.session = some p → (heap' p).refreshToken = (heap p).refreshToken) :
    pc.token heap' = pc.token heap := by
  by_cases hlooked : ∃ snap, pc = .looked (.copy snap)
  · obtain ⟨snap, rfl⟩ := hlooked
    rfl
  by_cases hputting : ∃ p access snap, pc = .putting p access snap
  · obtain ⟨p, access, snap, rfl⟩ := hputting
    rfl
  have hl : ∀ snap, pc ≠ .looked (.copy snap) := fun snap heq => hlooked ⟨snap, heq⟩
  have hp : ∀ p access snap, pc ≠ .putting p access snap :=
    fun p access snap heq => hputting ⟨p, access, snap, heq⟩
  rw [token_eq heap hl hp, token_eq heap' hl hp]
  cases hs : pc.session with
  | none => rfl
  | some p => simp [h p hs]

namespace Current

variable {M : Setup σ} {cur : String} {s : State σ}

variable {i n : ℕ} {f : Flight}

/-- A request that is in no flight and up to date holds the current token. -/
theorem eq_of_not_waiting (h : Current M cur s) (he : Exclusive s)
    (hpc : ∀ p n, s.requests i ≠ .waiting p n) {x : String}
    (hx : (s.requests i).token s.heap = some x) (hread : s.readAt i = s.writes) : x = cur := by
  rcases h.requests i x hx hread with heq | ⟨n, f, hf, rfl, -⟩
  · exact heq
  · exact absurd (he.leader n f hf) (hpc _ _)

/-- A request goes on with the current token, if it is up to date. -/
theorem move (h : Current M cur s) {pc : Pc}
    (hpc : ∀ x, pc.token s.heap = some x → s.readAt i = s.writes →
      x = cur ∨ ∃ n f, s.flights n = some f ∧ f.leader = i ∧ f.phase.isApplied = true) :
    Current M cur (s.move i pc) where
  stored := h.stored
  requests j := by
    by_cases heq : j = i
    · subst heq
      simp only [State.move, update_self]
      exact hpc
    · simp only [State.move, update_of_ne heq]
      exact h.requests j
  spent_seen := h.spent_seen
  flights := h.flights
  unspent := h.unspent

/-- The only flight goes on. -/
theorem advance (hc : Coherent M s) (hf : s.flights n = some f) {phase : Phase}
    (hstored : ∀ snap, M.backend.lookup s.store M.sid = some (.copy snap) → snap.refreshToken = cur)
    (hrequests : ∀ i x, (s.requests i).token s.heap = some x → s.readAt i = s.writes →
      x = cur ∨ f.leader = i ∧ phase.isApplied = true)
    (hspent_seen : ∀ token ∈ s.spent, token ∈ s.seen)
    (hnew : Flight.TokenNew s.heap s.seen s.spent { f with phase })
    (hunspent : cur ∈ s.spent → phase.exchanged = some cur) :
    Current M cur (s.advance n f phase) where
  stored := hstored
  requests i x hx hread := (hrequests i x hx hread).imp_right fun ⟨hleader, happlied⟩ =>
    ⟨n, { f with phase }, update_self n _ _, hleader, happlied⟩
  spent_seen := hspent_seen
  flights m f' hf' := by
    rcases flights_advance hf' with ⟨rfl, rfl⟩ | ⟨hne, hf'⟩
    · exact hnew
    · exact absurd (hc.flight_unique hf hf').1 hne
  unspent hspent := ⟨n, { f with phase }, update_self n _ _, hunspent hspent⟩

/-- While the only flight has applied no new token, everybody who is up to date holds the current
token. -/
theorem eq_of_not_applied (h : Current M cur s) (hc : Coherent M s) (hf : s.flights n = some f)
    (hphase : f.phase.isApplied = false) {x : String} (hx : (s.requests i).token s.heap = some x)
    (hread : s.readAt i = s.writes) : x = cur := by
  rcases h.requests i x hx hread with heq | ⟨m, f', hf', -, happlied⟩
  · exact heq
  · rw [(hc.flight_unique hf hf').2, hphase] at happlied
    cases happlied

/-- While the only flight has exchanged no token, the current one is unspent. -/
theorem notMem_spent (h : Current M cur s) (hc : Coherent M s) (hf : s.flights n = some f)
    (hphase : f.phase.exchanged = none) : cur ∉ s.spent := by
  intro hspent
  obtain ⟨m, f', hf', hexchanged⟩ := h.unspent hspent
  rw [(hc.flight_unique hf hf').2, hphase] at hexchanged
  cases hexchanged

end Current

theorem Phase.isApplied_of_exchanged {phase : Phase} (h : phase.exchanged = none) :
    phase.isApplied = false := by
  cases phase <;> first | rfl | cases h

/-- The new token of a flight depends on its own session only. -/
theorem Flight.tokenNew_congr {f : Flight} {heap heap' : ℕ → Session} {seen spent : List String}
    (h : (heap' f.session).refreshToken = (heap f.session).refreshToken)
    (hf : f.TokenNew heap seen spent) : f.TokenNew heap' seen spent := by
  unfold Flight.TokenNew at hf ⊢
  rw [h]
  exact hf

theorem Flight.tokenNew_of_exchanged {f : Flight} {heap : ℕ → Session} {seen spent : List String}
    {phase : Phase} (hexchanged : phase.exchanged = none) (hcalling : phase.isCalling = false) :
    Flight.TokenNew heap seen spent { f with phase } := by
  have hknown : phase.TokensKnown seen spent := Phase.tokensKnown_of_exchanged hexchanged hcalling
  unfold Flight.TokenNew
  cases phase with
  | applied | putting => cases hexchanged
  | start | valid | stale | calling | granted | written | returning => exact hknown

namespace Current

variable {M : Setup σ} {cur : String} {s : State σ}

/-- Sessions come and change, but no request or flight sees another token. -/
theorem setHeap (h : Current M cur s) {heap : ℕ → Session} {next : ℕ}
    (hrequests : ∀ i p, (s.requests i).session = some p →
      (heap p).refreshToken = (s.heap p).refreshToken)
    (hflights : ∀ n f, s.flights n = some f →
      (heap f.session).refreshToken = (s.heap f.session).refreshToken) :
    Current M cur { s with heap, next } where
  stored := h.stored
  requests i x hx := h.requests i x (token_congr (hrequests i) ▸ hx)
  spent_seen := h.spent_seen
  flights n f hf := Flight.tokenNew_congr (hflights n f hf) (h.flights n f hf)
  unspent := h.unspent

theorem setStore (h : Current M cur s) {store : σ}
    (hstore : ∀ snap, M.backend.lookup store M.sid = some (.copy snap) → snap.refreshToken = cur) :
    Current M cur (s.setStore store) :=
  ⟨hstore, h.requests, h.spent_seen, h.flights, h.unspent⟩

theorem rehydrate (h : Current M cur s) (hc : Coherent M s) (snap : SessionSnapshot) :
    Current M cur (s.rehydrate snap) := by
  refine h.setHeap (fun i p hp => ?_) fun n f hf => ?_
  · rw [update_of_ne (Nat.ne_of_lt ((hc.requests i).session p hp).1)]
  · rw [update_of_ne (Nat.ne_of_lt (hc.flights n f hf).1.session.1)]

theorem touch (h : Current M cur s) (p : ℕ) (now : ℤ) :
    Current M cur (s.modify p (·.touch now)) := by
  have htoken : ∀ q, (update s.heap p ((s.heap p).touch now) q).refreshToken =
      (s.heap q).refreshToken := by
    intro q
    by_cases heq : q = p
    · subst heq
      rw [update_self, Session.touch_refreshToken]
    · rw [update_of_ne heq]
  exact h.setHeap (fun _ p _ => htoken p) fun _ f _ => htoken f.session

/-- The request reads the current token from the store. -/
theorem looked (h : Current M cur s) {i : ℕ} {snap : SessionSnapshot}
    (hsnap : M.backend.lookup s.store M.sid = some (.copy snap)) :
    Current M cur ((s.noteRead i).move i (.looked (.copy snap))) where
  stored := h.stored
  requests j := by
    by_cases heq : j = i
    · subst heq
      rintro x hx -
      simp only [State.move, update_self] at hx
      cases hx
      exact .inl (h.stored snap hsnap)
    · simp only [State.move, State.noteRead, update_of_ne heq]
      exact h.requests j
  spent_seen := h.spent_seen
  flights := h.flights
  unspent := h.unspent

theorem enterDo (h : Current M cur s) (hc : Coherent M s) (he : Exclusive s) {i p : ℕ}
    (hpc : s.requests i = .stale p) : Current M cur (s.enterDo i p) := by
  have hmove : Current M cur (s.move i (.waiting p (s.group.flightOf (s.heap p).id))) := by
    refine h.move fun x hx hread => .inl ?_
    exact h.eq_of_not_waiting he (fun q n heq => by rw [hpc] at heq; cases heq)
      (by rw [hpc]; exact hx) hread
  -- a flight that is running goes on running
  have hkept : ∀ n f, s.flights n = some f → (s.enterDo i p).flights n = some f := by
    intro n f hf
    have hid : (s.heap p).id = M.sid := ((hc.requests i).session p (by rw [hpc]; rfl)).2
    simp only [State.enterDo, State.move, hid, (hc.flights n f hf).2]
    exact hf
  refine ⟨hmove.stored, fun j x hx hread => ?_, hmove.spent_seen, fun n f hf => ?_,
    fun hspent => ?_⟩
  · refine (hmove.requests j x hx hread).imp_right ?_
    rintro ⟨n, f, hf, hleader, happlied⟩
    exact ⟨n, f, hkept n f hf, hleader, happlied⟩
  · rcases flights_enterDo hf with hf | ⟨-, -, rfl⟩
    · exact h.flights n f hf
    · trivial
  · obtain ⟨n, f, hf, hexchanged⟩ := h.unspent hspent
    exact ⟨n, f, hkept n f hf, hexchanged⟩

variable {n : ℕ} {f : Flight}

/-- The only flight keeps hold of the token it has exchanged. -/
theorem exchanged_eq (h : Current M cur s) (hc : Coherent M s) (hf : s.flights n = some f)
    (hspent : cur ∈ s.spent) : f.phase.exchanged = some cur := by
  obtain ⟨m, f', hf', hexchanged⟩ := h.unspent hspent
  rw [← (hc.flight_unique hf hf').2]
  exact hexchanged

theorem exchange (h : Current M cur s) (hc : Coherent M s) {token : String}
    (hf : s.flights n = some f) (hphase : f.phase = .calling token) {t : TokenSet}
    (hne : t.refreshToken ≠ "") (hnew : t.refreshToken ∉ s.seen) :
    Current M cur ((s.noteExchange token (some t)).advance n f (.granted token (some t))) := by
  have htoken : token ∈ s.seen := by
    have hknown := h.flights n f hf
    rw [Flight.TokenNew, hphase] at hknown
    exact hknown
  obtain ⟨hunspent, hseen⟩ := notMem_exchanged htoken h.spent_seen hnew
  refine .advance (hc.noteExchange token (some t)) hf h.stored (fun i x hx hread => .inl ?_) hseen
    ⟨t, rfl, hne, List.mem_cons_self, hunspent⟩ fun hspent => ?_
  · exact h.eq_of_not_applied hc hf (by rw [hphase]; rfl) hx hread
  · rcases List.mem_cons.mp hspent with rfl | hspent
    · rfl
    · exact absurd hspent (h.notMem_spent hc hf (by rw [hphase]; rfl))

theorem apply (h : Current M cur s) (hc : Coherent M s) (he : Exclusive s) {token : String}
    {ts : Option TokenSet} (hf : s.flights n = some f) (hphase : f.phase = .granted token ts)
    (now : ℤ) :
    Current M cur ((s.modify f.session (·.setTokens ts now)).advance n f (.applied token)) := by
  obtain ⟨t, rfl, hne, -, hunspent⟩ : Phase.TokensKnown s.seen s.spent (.granted token ts) := by
    have hknown := h.flights n f hf
    rw [Flight.TokenNew, hphase] at hknown
    exact hknown
  refine .advance (hc.modify fun x => x.setTokens_id _ now) hf h.stored (fun i x hx hread => ?_)
    h.spent_seen ?_ fun hspent => ?_
  · by_cases hi : f.leader = i
    · exact .inr ⟨hi, rfl⟩
    · -- the session belongs to the leader, so the others keep their tokens
      left
      refine h.eq_of_not_applied hc hf (by rw [hphase]; rfl) ?_ hread
      rw [← hx]
      refine (token_congr fun p hp => ?_).symm
      have hne : p ≠ f.session := by
        rintro rfl
        exact hi (he.owner _ _ f.session (by rw [he.leader n f hf]; rfl) hp)
      simp only [State.modify, update_of_ne hne]
  · change ((s.modify f.session _).heap f.session).refreshToken ∉ s.spent
    simp only [State.modify, update_self]
    rw [Session.setTokens_refreshToken _ t now hne]
    exact hunspent
  · have hexchanged := h.exchanged_eq hc hf hspent
    rw [hphase] at hexchanged
    exact hexchanged

theorem flightSnapshot (h : Current M cur s) (hc : Coherent M s) {token : String}
    (hf : s.flights n = some f) (hphase : f.phase = .applied token) :
    Current M cur (s.advance n f (.putting token (s.heap f.session))) := by
  refine .advance hc hf h.stored (fun i x hx hread => ?_) h.spent_seen ⟨rfl, ?_⟩ fun hspent => ?_
  · refine (h.requests i x hx hread).imp_right ?_
    rintro ⟨m, f', hf', hleader, -⟩
    rw [(hc.flight_unique hf hf').2] at hleader
    exact ⟨hleader, rfl⟩
  · have hnew := h.flights n f hf
    rw [Flight.TokenNew, hphase] at hnew
    exact hnew
  · have hexchanged := h.exchanged_eq hc hf hspent
    rw [hphase] at hexchanged
    exact hexchanged

/-- The token that is written through becomes the current one: the leader holds it, and nobody
else is up to date any more. -/
theorem write {encodes : Session → Prop} (hR : M.backend.Rehydrates encodes) (h : Current M cur s)
    (hc : Coherent M s) (he : Exclusive s) {token : String} {snap : Session}
    (hf : s.flights n = some f) (hphase : f.phase = .putting token snap) (hencodes : encodes snap) :
    Current M snap.refreshToken
      (((s.setStore (M.backend.put s.store f.session snap)).noteWrite f.leader).advance n f
        .written) := by
  obtain ⟨hsame, hunspent⟩ : snap.refreshToken = (s.heap f.session).refreshToken ∧
      (s.heap f.session).refreshToken ∉ s.spent := by
    have hnew := h.flights n f hf
    rw [Flight.TokenNew, hphase] at hnew
    exact hnew
  have hid : snap.id = M.sid := (hc.flights n f hf).1.putting token snap hphase
  refine ⟨fun snap' hsnap' => ?_, fun i x hx hread => .inl ?_, h.spent_seen, fun m f' hf' => ?_,
    fun hspent => absurd (hsame ▸ hspent) hunspent⟩
  · rw [← hid] at hsnap'
    rcases hR.lookup_put _ _ _ _ hsnap' with heq | ⟨hnot, -⟩
    · cases heq
      rfl
    · exact absurd hencodes hnot
  · by_cases hi : i = f.leader
    · subst hi
      change (s.requests f.leader).token s.heap = some x at hx
      rw [he.leader n f hf] at hx
      cases hx
      exact hsame.symm
    · have hle := he.readAt_le i
      simp only [State.advance, State.noteWrite, update_of_ne hi] at hread
      change s.readAt i = s.writes + 1 at hread
      omega
  · rcases flights_advance hf' with ⟨rfl, rfl⟩ | ⟨hne, hf'⟩
    · trivial
    · exact absurd (hc.flight_unique hf hf').1 hne

end Current

/-- With an honest token endpoint, write-backs that are up to date and sessions that can be encoded,
every step keeps the token current, or makes the one that is written through current. -/
theorem current_step {M : Setup σ} {encodes : Session → Prop} (hB : M.backend.Lawful)
    (hR : M.backend.Rehydrates encodes) {cur : String} {s s' : State σ} {a : Action}
    (hc : Coherent M s) (he : Exclusive s) (hs : Current M cur s) (hhonest : Honest s a)
    (hdate : UpToDate s a) (hencodes : ∀ session ∈ s.writesThrough a, encodes session)
    (h : M.system.step s a = some s') :
    ∃ cur', Current M cur' s' := by
  cases step_cases h with
  | quiet i a pc hbefore hplain hsession =>
    refine ⟨cur, hs.move fun x hx hread => .inl ?_⟩
    rw [token_of_plain _ hplain] at hx
    rcases hsession with hnone | hsame
    · rw [hnone] at hx
      cases hx
    · -- the request keeps its session, and with it the token
      refine hs.eq_of_not_waiting he (not_waiting_of_plain hbefore) ?_ hread
      rw [token_eq _ (fun snap heq => ?_) (not_putting_of_plain hbefore), ← hsame]
      · exact hx
      · rw [hsame, heq] at hx
        cases hx
  | looked i f hpc hf =>
    obtain ⟨snap, rfl, -⟩ := hR.copies _ _ f hf
    exact ⟨cur, hs.looked hf⟩
  | rehydrated i now snap hpc =>
    refine ⟨cur, (hs.rehydrate hc snap).move fun x hx hread => .inl ?_⟩
    refine hs.eq_of_not_waiting he (fun p n heq => by rw [hpc] at heq; cases heq) ?_ hread
    rw [token_of_plain _ rfl] at hx
    simp only [Pc.session, Option.map_some, State.rehydrate, update_self] at hx
    rw [hpc]
    exact hx
  | removed i a store pc hstore hbefore hplain hsession =>
    refine ⟨cur, (hs.setStore fun snap hsnap => hs.stored snap ?_).move fun x hx => ?_⟩
    · obtain ⟨id, now, rfl | rfl⟩ := hstore
      · exact hB.lookup_remove _ _ _ _ _ hsnap
      · exact hB.lookup_delete _ _ _ _ _ hsnap
    · rw [token_of_plain _ hplain, hsession] at hx
      cases hx
  | entered i p hpc => exact ⟨cur, hs.enterDo hc he hpc⟩
  | left i p n result hpc hresult =>
    have hnoted : Current M cur (s.noteReceived n result) :=
      ⟨hs.stored, hs.requests, hs.spent_seen, hs.flights, hs.unspent⟩
    refine ⟨cur, hnoted.move fun x hx hread => hs.requests i x ?_ hread⟩
    rw [token_of_plain _ (answer_plain p result).1] at hx
    rw [hpc]
    rcases (answer_plain p result).2 with hnone | hsome
    · rw [hnone] at hx
      cases hx
    · rw [hsome] at hx
      exact hx
  | touched i p access now hpc =>
    refine ⟨cur, (hs.touch p now).move fun x hx hread => (hs.touch p now).requests i x ?_ hread⟩
    change (s.requests i).token _ = some x
    rw [hpc]
    exact hx
  | snapshot i p access hpc =>
    refine ⟨cur, hs.move fun x hx hread => hs.requests i x ?_ hread⟩
    rw [hpc]
    exact hx
  | put i p access snap hpc =>
    -- the write-back is up to date, so it writes the current token, or nothing
    have hcur : snap.refreshToken = cur :=
      hs.eq_of_not_waiting he (fun q n heq => by rw [hpc] at heq; cases heq) (by rw [hpc]; rfl)
        (hdate i rfl)
    have hid : snap.id = M.sid := (hc.requests i).putting p access snap hpc
    refine ⟨cur, (hs.setStore fun snap' hsnap' => ?_).move fun x hx => by cases hx⟩
    rw [← hid] at hsnap'
    rcases hR.lookup_put _ _ _ _ hsnap' with heq | ⟨-, hold⟩
    · cases heq
      exact hcur
    · exact hs.stored snap' (hid ▸ hold)
  | advanced n a f phase hf hbefore hafter hcalling =>
    refine ⟨cur, .advance hc hf hs.stored (fun i x hx hread => .inl ?_) hs.spent_seen
      (Flight.tokenNew_of_exchanged hafter hcalling) fun hspent => ?_⟩
    · exact hs.eq_of_not_applied hc hf (Phase.isApplied_of_exchanged hbefore) hx hread
    · exact absurd hspent (hs.notMem_spent hc hf hbefore)
  | called n f hf hphase =>
    refine ⟨cur, .advance (hc.noteCall _) hf hs.stored (fun i x hx hread => .inl ?_)
      (fun token htoken => List.mem_cons_of_mem _ (hs.spent_seen token htoken))
      List.mem_cons_self fun hspent => ?_⟩
    · exact hs.eq_of_not_applied hc hf (by rw [hphase]; rfl) hx hread
    · exact absurd hspent (hs.notMem_spent hc hf (by rw [hphase]; rfl))
  | exchanged n f token ts hf hphase =>
    -- the table still holds the spent token: this is the exception `RotationKept` allows
    obtain ⟨t, rfl, hne, hnew⟩ := hhonest.exists_token
    exact ⟨cur, hs.exchange hc hf hphase hne hnew⟩
  | applied n f token ts now hf hphase => exact ⟨cur, hs.apply hc he hf hphase now⟩
  | flightSnapshot n f token hf hphase => exact ⟨cur, hs.flightSnapshot hc hf hphase⟩
  -- only the write-through of a flight changes which token is current
  | written n f token snap hf hphase =>
    refine ⟨_, hs.write hR hc he hf hphase (hencodes snap ?_)⟩
    obtain ⟨leader, session, phase⟩ := f
    simp only at hphase
    subst hphase
    simp only [State.writesThrough, hf]
    rfl
  | finished n f result hf hphase =>
    refine ⟨cur, hs.stored, fun i x hx hread => .inl ?_, hs.spent_seen,
      fun m f' hf' => hs.flights m f' (flights_endFlight hf').2, fun hspent => ?_⟩
    · exact hs.eq_of_not_applied hc hf (by rw [hphase]; rfl) hx hread
    · exact absurd hspent (hs.notMem_spent hc hf (by rw [hphase]; rfl))
  | loggedOut now =>
    exact ⟨cur, hs.setStore fun snap hsnap => hs.stored snap (hB.lookup_delete _ _ _ _ _ hsnap)⟩
  | swept nowAt now =>
    exact ⟨cur, hs.setStore fun snap hsnap => hs.stored snap (hB.lookup_sweep _ _ _ _ _ _ hsnap)⟩

/-! ### The gateway over the durable store -/

/-- A gateway over a durable store. -/
def Setup.postgres {β δ : Type} (gateway : Gateway) (codec : PostgresStore.Codec β δ)
    (idle absolute : ℤ) (sid : String) (request : ℕ → Request) :
    Setup (String → Option (Row δ)) :=
  { gateway, backend := .postgres codec idle absolute, sid, request }

/-- Rotated refresh tokens are never lost, whatever the requests do, if the refresh tokens are
single-use. -/
def RotationNeverLost (M : Setup σ) : Prop :=
  ∀ s₀ as s, M.system.IsInit s₀ → M.system.EveryStep SingleUse s₀ as →
    M.system.run s₀ as = some s → RotationKept M s

/-- Rotated refresh tokens are not lost in any run in which every write-back of an idle timestamp
is up to date and every refreshed session can be encoded. -/
theorem rotation_kept_of_upToDate {β δ : Type} (gateway : Gateway)
    (codec : PostgresStore.Codec β δ) (hcodec : codec.Documented) (idle absolute : ℤ)
    (sid : String) (request : ℕ → Request) (s₀ s : State (String → Option (Row δ)))
    (as : List Action)
    (hinit : (Setup.postgres gateway codec idle absolute sid request).system.IsInit s₀)
    (hsteps : (Setup.postgres gateway codec idle absolute sid request).system.EveryStep
      (fun s a => SingleUse s a ∧ UpToDate s a ∧ Written codec s a) s₀ as)
    (hrun : (Setup.postgres gateway codec idle absolute sid request).system.run s₀ as = some s) :
    RotationKept (Setup.postgres gateway codec idle absolute sid request) s := by
  let M := Setup.postgres gateway codec idle absolute sid request
  have hB : M.backend.Lawful := lawful_postgres hcodec
  have hR : M.backend.Rehydrates fun s => codec.encodes s.snapshot = true := rehydrates_postgres hcodec
  have hinv₀ : Coherent M s₀ ∧ Exclusive s₀ ∧ ∃ cur, Current M cur s₀ := by
    have hc : Coherent M s₀ := coherent_of_isInit hinit fun f hf => by
      obtain ⟨snap, rfl, hid⟩ := hR.copies _ _ f hf
      exact hid
    obtain ⟨hrequests, -, hflights, hspent, -, hwrites, hread⟩ := hinit
    refine ⟨hc, ⟨fun i f heq => ?_, fun i j p hp => ?_, fun n f hf => ?_, fun i => ?_⟩, ?_⟩
    · rw [hrequests i] at heq
      cases heq
    · rw [hrequests i] at hp
      cases hp
    · rw [hflights n] at hf
      cases hf
    · rw [hread i]
      exact Nat.zero_le _
    · -- the current token is the one in the table, if there is one
      obtain ⟨cur, hcur⟩ : ∃ cur, ∀ snap, M.backend.lookup s₀.store M.sid = some (.copy snap) →
          snap.refreshToken = cur := by
        cases hl : M.backend.lookup s₀.store M.sid with
        | none => exact ⟨"", fun snap h => by cases h⟩
        | some f =>
          obtain ⟨snap, rfl, -⟩ := hR.copies _ _ f hl
          exact ⟨snap.refreshToken, fun snap' h => by cases h; rfl⟩
      refine ⟨cur, hcur, fun i x hx => ?_, by simp [hspent], fun n f hf => ?_, by simp [hspent]⟩
      · rw [hrequests i] at hx
        cases hx
      · rw [hflights n] at hf
        cases hf
  -- the current token changes along the run, so the invariant only says that there is one
  obtain ⟨-, -, cur, hcur⟩ : Coherent M s ∧ Exclusive s ∧ ∃ cur, Current M cur s :=
    StepSystem.run_invariant (I := fun s => Coherent M s ∧ Exclusive s ∧ ∃ cur, Current M cur s)
      (fun _ _ _ ⟨hc, he, cur, hcur⟩ hstep h => ⟨coherent_step hB hc h, exclusive_step hR hc he h,
        current_step hB hR hc he hcur hstep.1.1 hstep.2.1 hstep.2.2 h⟩) hsteps hrun hinv₀
  intro snap hsnap hspent
  rw [hcur.stored snap hsnap] at hspent ⊢
  exact hcur.unspent hspent

section Example

open Duration (minute)

/-- A table with one session whose access token has expired. -/
def State.expiredRow : State (String → Option (Row (Option (String × SessionSnapshot)))) where
  store := fun id => if id = "s1" then
      some { data := some ("s1", (Session.snapshot { id := "s1", refreshToken := "rt0" })),
             createdAt := Time.zero, lastSeen := Time.zero, deletedAt := none }
    else none
  heap _ := { id := "" }
  next := 0
  requests _ := .start
  group := .empty
  flights _ := none
  seen := []
  spent := []
  received := []
  writes := 0
  readAt _ := 0

/-- A request from its exit from `refreshGroup.Do` to the write-back of the idle timestamp. -/
def touchBack (i : ℕ) (now : ℤ) : List Action :=
  [.leaveDo, .touchCheck now, .touch, .putSnapshot, .putExec].map (.request i)

/-- The gateway of the examples. -/
def durableSetup : Setup (String → Option (Row (Option (String × SessionSnapshot)))) :=
  .postgres { cookie := { name := "sid", secure := true } } PostgresStore.Codec.strict 0 0 "s1"
    fun _ => { method := "GET", header := Header.empty }

/-- The refresh token of a row that was found. -/
def Found.rowToken : Found → Option String
  | .shared _ => none
  | .copy snap => some snap.refreshToken

/-- Two requests refresh the session together, and each slides its idle timestamp. The one that
only joined the flight writes the spent refresh token back over the new one. -/
theorem not_rotationNeverLost : ¬ RotationNeverLost durableSetup := by
  intro hkept
  let as := toDo 0 ++ toDo 1 ++
    refreshing 0 { accessToken := "at1", refreshToken := "rt1", expiresIn := 3600 } ++
    touchBack 0 (2 * minute) ++ touchBack 1 (2 * minute)
  obtain ⟨s, hrun⟩ : ∃ s, durableSetup.system.run State.expiredRow as = some s :=
    Option.isSome_iff_exists.mp (by decide +kernel)
  have hend : (durableSetup.system.run State.expiredRow as).map (fun s =>
      ((durableSetup.backend.lookup s.store "s1").bind Found.rowToken, s.spent,
        s.group.running "s1")) = some (some "rt0", ["rt0"], none) := by
    decide +kernel
  rw [hrun, Option.map_some, Option.some.injEq] at hend
  obtain ⟨hrow, hspent, hidle⟩ : _ ∧ s.spent = ["rt0"] ∧ s.group.running "s1" = none := by
    simpa only [Prod.mk.injEq] using hend
  obtain ⟨snap, hsnap, htoken⟩ : ∃ snap, durableSetup.backend.lookup s.store "s1" =
      some (.copy snap) ∧ snap.refreshToken = "rt0" := by
    obtain ⟨found, hfound, hrt⟩ := Option.bind_eq_some_iff.mp hrow
    cases found with
    | shared p => cases hrt
    | copy snap => exact ⟨snap, hfound, Option.some.inj hrt⟩
  have hinit : durableSetup.system.IsInit State.expiredRow :=
    ⟨fun _ => rfl, rfl, fun _ => rfl, rfl, rfl, rfl, fun _ => rfl⟩
  obtain ⟨n, f, hf, -⟩ := hkept State.expiredRow as s hinit
    (StepSystem.everyStep_of_checkEvery (by decide +kernel)) hrun snap hsnap
    (by rw [htoken, hspent]; exact List.mem_singleton.mpr rfl)
  -- no flight is running, so none is on its way to the table
  have hc : Coherent durableSetup s :=
    coherent_run (lawful_postgres PostgresStore.Codec.documented_strict) hrun
    (coherent_of_isInit hinit fun f hf => by
      obtain ⟨snap, rfl, hid⟩ := (rehydrates_postgres PostgresStore.Codec.documented_strict).copies _ _ f hf
      exact hid)
  exact Option.some_ne_none n ((hc.flights n f hf).2.symm.trans hidle)

/-- With one request after the other, both sliding the idle timestamp, the new token stays. -/
theorem rotation_kept_of_upToDate_sequential : ∃ s,
    durableSetup.system.run State.expiredRow (toDo 0 ++
      refreshing 0 { accessToken := "at1", refreshToken := "rt1", expiresIn := 10 } ++
      touchBack 0 (2 * minute) ++ toDo 1 ++
      refreshing 1 { accessToken := "at2", refreshToken := "rt2", expiresIn := 10 } ++
      touchBack 1 (4 * minute)) = some s ∧ s.spent = ["rt1", "rt0"] ∧ RotationKept durableSetup s := by
  let as := toDo 0 ++
    refreshing 0 { accessToken := "at1", refreshToken := "rt1", expiresIn := 10 } ++
    touchBack 0 (2 * minute) ++ toDo 1 ++
    refreshing 1 { accessToken := "at2", refreshToken := "rt2", expiresIn := 10 } ++
    touchBack 1 (4 * minute)
  obtain ⟨s, hrun⟩ : ∃ s, durableSetup.system.run State.expiredRow as = some s :=
    Option.isSome_iff_exists.mp (by decide +kernel)
  have hspent : (durableSetup.system.run State.expiredRow as).map State.spent =
      some ["rt1", "rt0"] := by
    decide +kernel
  rw [hrun, Option.map_some, Option.some.injEq] at hspent
  exact ⟨s, hrun, hspent, rotation_kept_of_upToDate _ _ PostgresStore.Codec.documented_strict 0 0 "s1" _
    State.expiredRow s as ⟨fun _ => rfl, rfl, fun _ => rfl, rfl, rfl, rfl, fun _ => rfl⟩
    (StepSystem.everyStep_of_checkEvery (by decide +kernel)) hrun⟩

end Example

end Refresh

end Bff
