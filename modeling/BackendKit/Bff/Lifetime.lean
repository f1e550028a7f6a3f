import BackendKit.Bff.MemoryStore
import BackendKit.Bff.PostgresStore
import BackendKit.ToMathlib.Tracing

/-!
# The absolute lifetime of a session

A session may be touched, refreshed, rehydrated from a snapshot, written back after it was
removed, and read back from a row, by any number of requests. None of that moves the end of its
absolute lifetime.

The stores keep the time of the login in different places: in the live session, in the encrypted
snapshot of a row, in a snapshot that a request holds. So every place that can hold a session is
labelled with the login its contents stem from (`StepSystem.traced`), and the time of the login is
the value that copying keeps. `World` adds to each store's system the requests that take
snapshots and rehydrate sessions from them. It assumes nothing about the clock.

`lifetime_final` is the result for both stores: a session that `Get` returns at `t` stems from a
login less than the absolute lifetime before `t`.
-/

open GoStd
open Function (update update_of_ne update_self)
open StepSystem (reachable_invariant reachable_of_traced supplies_update value_of_traced)

namespace Bff

open StepSystem (Supplies)

/-- A login: the address of the session that `NewSession` built, and the time it was given. -/
structure Login where
  address : ℕ
  time : ℤ
  deriving DecidableEq, Repr

/-- The login time of the session at an address in use. -/
def createdAt (heap : ℕ → Session) (next p : ℕ) : Option ℤ :=
  if p < next then some (heap p).created else none

section CreatedAt

variable {heap : ℕ → Session} {next p : ℕ} {c : ℤ}

theorem createdAt_eq_some : createdAt heap next p = some c ↔ p < next ∧ (heap p).created = c := by
  simp [createdAt]

theorem createdAt_alloc_self (s : Session) :
    createdAt (update heap next s) (next + 1) next = some s.created := by
  simp [createdAt]

theorem createdAt_alloc_of_ne (s : Session) (h : p ≠ next) :
    createdAt (update heap next s) (next + 1) p = createdAt heap next p := by
  have hlt : p < next + 1 ↔ p < next := by omega
  simp only [createdAt, update_of_ne h, hlt]

end CreatedAt

/-- Taking another snapshot leaves the ones taken before in place. -/
theorem getElem?_concat_of_ne {snaps : List SessionSnapshot} {snap : SessionSnapshot} {k : ℕ}
    (h : k ≠ snaps.length) : (snaps ++ [snap])[k]? = snaps[k]? := by
  rcases Nat.lt_or_gt_of_ne h with hlt | hgt
  · exact List.getElem?_append_left hlt
  · rw [List.getElem?_eq_none (by simp; omega), List.getElem?_eq_none (by omega)]

namespace MemoryStore

/-- The sessions and the store, and the snapshots that requests hold. -/
structure World where
  base : State
  snaps : List SessionSnapshot

namespace World

/-- One atomic step of some request. -/
inductive Action where
  | store (a : MemoryStore.Action)
  /-- `Snapshot` of the session at `p`. -/
  | snapshot (p : ℕ)
  /-- `NewSessionFromSnapshot` of the `k`-th snapshot. -/
  | fromSnapshot (k : ℕ)

/-- A step and the clock reading it takes. -/
structure Event where
  now : ℤ
  action : Action

/-- Perform an action of the store's system with a clock that may be set back at any time: the
readings of the loop of `Sweep` are arbitrary too. -/
def performStore (s : State) (now : ℤ) : MemoryStore.Action → Option State
  | .sweep nowAt => some { s with store := s.store.sweep s.heap nowAt now }
  | a => s.perform now a

def step (w : World) (e : Event) : Option World :=
  match e.action with
  | .store a => (performStore w.base e.now a).map fun base => { w with base }
  | .snapshot p =>
    if p < w.base.next then some { w with snaps := w.snaps ++ [(w.base.heap p).snapshot] } else none
  | .fromSnapshot k =>
    (w.snaps[k]?).map fun snap =>
      { w with
        base := { w.base with
          heap := update w.base.heap w.base.next (Session.ofSnapshot snap)
          next := w.base.next + 1 } }

/-- All interleavings of requests that share one store. -/
def system (idle absolute : ℤ) : StepSystem World Event where
  IsInit w := (MemoryStore.system idle absolute).IsInit w.base ∧ w.snaps = []
  step := step

/-- A place that can hold a session: an address, or a snapshot. -/
inductive Place where
  | heap (p : ℕ)
  | snap (k : ℕ)
  deriving DecidableEq

/-- The time of the login of the session at a place. -/
def holds (w : World) : Place → Option ℤ
  | .heap p => createdAt w.base.heap w.base.next p
  | .snap k => (w.snaps[k]?).map SessionSnapshot.created

/-- Where the contents of each place come from in a step. -/
def source (w : World) (e : Event) : Place → Place ⊕ Login :=
  match e.action with
  | .store (.newSession _ _ _ _ at') =>
    update Sum.inl (.heap w.base.next) (.inr ⟨w.base.next, at'⟩)
  | .store _ => Sum.inl
  | .snapshot p => update Sum.inl (.snap w.snaps.length) (.inl (.heap p))
  | .fromSnapshot k => update Sum.inl (.heap w.base.next) (.inl (.snap k))

/-- The system with the login every session stems from. -/
def traced (idle absolute : ℤ) : StepSystem (World × (Place → Login)) Event :=
  (system idle absolute).traced source

/-- A `Get` on goroutine `g` returns the session at `p` when its expiry check reads `t`. -/
def Returns (w : World) (t : ℤ) (g p : ℕ) : Prop :=
  ∃ id, w.base.gets g = some (.looked id p) ∧ w.base.store.expired (w.base.heap p) t = false

/-! ### What one step can do -/

variable {s s' : State} {now : ℤ} {a : MemoryStore.Action}

/-- A step of the store is one of its system, or a `Sweep` with readings of its own. -/
theorem performStore_cases (h : performStore s now a = some s') :
    s.perform now a = some s' ∨
      ∃ nowAt, s' = { s with store := s.store.sweep s.heap nowAt now } := by
  cases a with
  | sweep nowAt => exact .inr ⟨nowAt, (Option.some.inj h).symm⟩
  | _ => exact .inl h

/-- Only `NewSession` takes a new address. -/
theorem next_performStore (h : performStore s now a = some s') :
    s'.next = s.next ∨ ∃ id csrf ts user at', a = .newSession id csrf ts user at' := by
  cases a with
  | newSession id csrf ts user at' => exact .inr ⟨id, csrf, ts, user, at', rfl⟩
  | touch p at' | setTokens p ts at' | setUser p user | put p =>
    simp only [performStore, State.perform, State.modify] at h
    split at h
    · cases h
      exact .inl rfl
    · cases h
  | delete id | sweep nowAt =>
    cases h
    exact .inl rfl
  | getLookup g id | getCheck g | getDelete g =>
    simp only [performStore, State.perform] at h
    split at h <;> cases h
    exact .inl rfl

/-- A session that is in memory after a step was there before, with the same login time, or is
the one that `NewSession` has just built. -/
theorem created_performStore (h : performStore s now a = some s') {p : ℕ} (hp : p < s'.next) :
    (p < s.next ∧ (s'.heap p).created = (s.heap p).created) ∨
      (p = s.next ∧ ∃ id csrf ts user at', a = .newSession id csrf ts user at' ∧
        (s'.heap p).created = at') := by
  have hkept : ∀ q < s.next, (s'.heap q).created = (s.heap q).created := by
    rcases performStore_cases h with hperform | ⟨nowAt, rfl⟩
    · exact (State.perform_cases hperform).1.created_eq
    · exact fun _ _ => rfl
  rcases next_performStore h with hnext | ⟨id, csrf, ts, user, at', rfl⟩
  · exact .inl ⟨hnext ▸ hp, hkept p (hnext ▸ hp)⟩
  · by_cases hold : p < s.next
    · exact .inl ⟨hold, hkept p hold⟩
    · cases h
      have heq : p = s.next := by
        simp only at hp
        omega
      refine .inr ⟨heq, id, csrf, ts, user, at', rfl, ?_⟩
      simp [heq, Session.new]

/-- What is filed under an id after a step was filed there before, or has just been put. -/
theorem sessions_performStore (h : performStore s now a = some s') {id : String} {p : ℕ}
    (hp : s'.store.sessions id = some p) : s.store.sessions id = some p ∨ p < s.next := by
  rcases performStore_cases h with hperform | ⟨nowAt, rfl⟩
  · obtain ⟨-, hstore⟩ := State.perform_cases hperform
    generalize s'.store = m at hstore hp
    cases hstore with
    | same => exact .inl hp
    | put q hq =>
      by_cases heq : id = (s.heap q).id
      · subst heq
        by_cases hgone : s.store.tombstones (s.heap q).id = none
        · rw [sessions_put_self _ hgone, Option.some.injEq] at hp
          exact .inr (hp ▸ hq)
        · rw [put_eq_self _ hgone] at hp
          exact .inl hp
      · rw [sessions_put_of_ne _ heq] at hp
        exact .inl hp
    | delete id' =>
      by_cases heq : id = id'
      · subst heq
        simp at hp
      · rw [sessions_delete_of_ne _ _ heq] at hp
        exact .inl hp
    | sweep nowAt _ => exact .inl ((sessions_sweep_eq_some _).mp hp).1
  · exact .inl ((sessions_sweep_eq_some _).mp hp).1

/-- A `Get` that has looked a session up did so before, or finds it in the store now. -/
theorem gets_performStore (h : performStore s now a = some s') {g p : ℕ} {id : String}
    (hg : s'.gets g = some (.looked id p)) :
    s.gets g = some (.looked id p) ∨ s.store.sessions id = some p := by
  cases a with
  | touch p at' | setTokens p ts at' | setUser p user | put p =>
    simp only [performStore, State.perform, State.modify] at h
    split at h
    · cases h
      exact .inl hg
    · cases h
  | newSession id csrf ts user at' | delete id | sweep nowAt =>
    cases h
    exact .inl hg
  | getLookup g' id' =>
    simp only [performStore, State.perform] at h
    split at h <;> cases h
    by_cases heq : g = g'
    · subst heq
      simp only [update_self, Option.map_eq_some_iff, GetCall.looked.injEq] at hg
      obtain ⟨q, hq, rfl, rfl⟩ := hg
      exact .inr hq
    · simp only [update_of_ne heq] at hg
      exact .inl hg
  | getCheck g' | getDelete g' =>
    simp only [performStore, State.perform] at h
    split at h <;> cases h
    by_cases heq : g = g'
    · subst heq
      simp at hg
    · simp only [update_of_ne heq] at hg
      exact .inl hg

/-! ### Where sessions come from -/

/-- Whoever reads a session through the store reads an address in use. -/
structure Valid (w : World) : Prop where
  stored : ∀ id p, w.base.store.sessions id = some p → p < w.base.next
  looked : ∀ g id p, w.base.gets g = some (.looked id p) → p < w.base.next

variable {idle absolute : ℤ} {w w' : World} {e : Event}

theorem valid_step (hw : w.Valid) (h : w.step e = some w') : w'.Valid := by
  obtain ⟨now, a⟩ := e
  cases a with
  | store a =>
    obtain ⟨base, hbase, rfl⟩ := Option.map_eq_some_iff.mp h
    have hle : w.base.next ≤ base.next := by
      rcases performStore_cases hbase with hperform | ⟨nowAt, rfl⟩
      · exact (State.perform_cases hperform).1.next_le
      · exact le_refl _
    have hstored : ∀ id p, w.base.store.sessions id = some p → p < base.next :=
      fun id p hp => (hw.stored id p hp).trans_le hle
    constructor
    · intro id p hp
      rcases sessions_performStore hbase hp with hold | hput
      · exact hstored id p hold
      · exact hput.trans_le hle
    · intro g id p hg
      rcases gets_performStore hbase hg with hold | hfound
      · exact (hw.looked g id p hold).trans_le hle
      · exact hstored id p hfound
  | snapshot p =>
    simp only [step] at h
    split at h
    · cases h
      exact ⟨hw.stored, hw.looked⟩
    · cases h
  | fromSnapshot k =>
    obtain ⟨snap, -, rfl⟩ := Option.map_eq_some_iff.mp h
    exact ⟨fun id p hp => (hw.stored id p hp).trans (Nat.lt_succ_self _),
      fun g id p hg => (hw.looked g id p hg).trans (Nat.lt_succ_self _)⟩

theorem valid_of_reachable (h : (system idle absolute).Reachable w) : w.Valid := by
  apply reachable_invariant (I := Valid) _ _ h
  · rintro w₀ ⟨⟨hstore, -, hgets⟩, -⟩
    constructor
    · intro id p hp
      rw [hstore] at hp
      cases hp
    · intro g id p hg
      rw [hgets g] at hg
      cases hg
  · intro w e w' hw hstep
    exact valid_step hw hstep

/-- No step changes the configured bounds. -/
theorem absolute_of_reachable (h : (system idle absolute).Reachable w) :
    w.base.store.absolute = absolute := by
  apply reachable_invariant (I := fun w : World => w.base.store.absolute = absolute) _ _ h
  · rintro w₀ ⟨⟨hstore, -, -⟩, -⟩
    rw [hstore]
    rfl
  · rintro w ⟨now, a⟩ w' hw hstep
    change w.step ⟨now, a⟩ = some w' at hstep
    cases a with
    | store a =>
      obtain ⟨base, hbase, rfl⟩ := Option.map_eq_some_iff.mp hstep
      rcases performStore_cases hbase with hperform | ⟨nowAt, rfl⟩
      · exact (State.perform_cases hperform).2.config.2.trans hw
      · exact hw
    | snapshot p =>
      simp only [step] at hstep
      split at hstep <;> cases hstep
      exact hw
    | fromSnapshot k =>
      obtain ⟨snap, -, rfl⟩ := Option.map_eq_some_iff.mp hstep
      exact hw

/-- What a place holds after a step is what its source held before, or a new login. -/
theorem holds_step (h : w.step e = some w') (x : Place) (c : ℤ) (hx : w'.holds x = some c) :
    Supplies w.holds Login.time c (source w e x) := by
  obtain ⟨now, a⟩ := e
  cases a with
  | store a =>
    obtain ⟨base, hbase, rfl⟩ := Option.map_eq_some_iff.mp h
    cases x with
    | snap k =>
      have hsource : source w ⟨now, .store a⟩ (.snap k) = .inl (.snap k) := by
        cases a <;> simp [source]
      rw [hsource]
      exact hx
    | heap p =>
      obtain ⟨hp, hcreated⟩ := createdAt_eq_some.mp hx
      rcases created_performStore hbase hp with
        ⟨hold, hsame⟩ | ⟨rfl, id, csrf, ts, user, at', rfl, hnew⟩
      · have hsource : source w ⟨now, .store a⟩ (.heap p) = .inl (.heap p) := by
          cases a <;> simp [source, Nat.ne_of_lt hold]
        rw [hsource]
        exact createdAt_eq_some.mpr ⟨hold, hsame.symm.trans hcreated⟩
      · simpa [Supplies, source, hnew] using hcreated
  | snapshot p =>
    simp only [step] at h
    split at h <;> cases h
    rename_i hp
    refine supplies_update (fun hx => ?_) (fun y hy => ?_) x hx
    · simpa [Supplies, holds, createdAt, hp, Session.snapshot] using hx
    · cases y with
      | heap q => rfl
      | snap k => simp only [holds, getElem?_concat_of_ne fun hk => hy (hk ▸ rfl)]
  | fromSnapshot k =>
    obtain ⟨snap, hsnap, rfl⟩ := Option.map_eq_some_iff.mp h
    refine supplies_update (fun hx => ?_) (fun y hy => ?_) x hx
    · simpa [Supplies, holds, hsnap, createdAt_alloc_self, Session.ofSnapshot] using hx
    · cases y with
      | snap j => rfl
      | heap p =>
        have hne : p ≠ w.base.next := fun hp => hy (by rw [hp])
        simp only [holds, createdAt_alloc_of_ne _ hne]

/-- In memory, a session that `Get` returns stems from a login less than the absolute lifetime
before the reading of its expiry check. -/
theorem lt_of_returns (hpos : 0 < absolute) (hmax : absolute ≤ Duration.maxValue)
    {s : World × (Place → Login)} (hs : (traced idle absolute).Reachable s) {t : ℤ} {g p : ℕ}
    (h : s.1.Returns t g p) : t < (s.2 (.heap p)).time + absolute := by
  obtain ⟨id, hlooked, hexp⟩ := h
  have hreach := reachable_of_traced hs
  have hlt : p < s.1.base.next := (valid_of_reachable hreach).looked g id p hlooked
  have horigin : (s.2 (.heap p)).time = (s.1.base.heap p).created := by
    refine value_of_traced holds Login.time ?_ ?_ hs ?_
    · rintro w₀ ⟨⟨-, hnext, -⟩, hsnaps⟩ x
      cases x <;> simp [holds, createdAt, hnext, hsnaps]
    · intro w e w' _ hstep x c hx
      exact holds_step hstep x c hx
    · exact createdAt_eq_some.mpr ⟨hlt, rfl⟩
  rw [MemoryStore.expired, absolute_of_reachable hreach] at hexp
  rw [horigin]
  exact lt_of_expiredAt_eq_false hpos hmax hexp

end World

end MemoryStore

/-! ### The durable store -/

namespace PostgresStore

variable {β δ : Type}

/-- The time of the login of the session a call carries. -/
def Call.created? : Call → Option ℤ
  | .selected _ snap => some snap.created
  | .putting snap => some snap.created
  | _ => none

/-- The sessions in memory, the table and the calls, and the snapshots that requests hold. -/
structure World (β δ : Type) where
  base : State β δ
  snaps : List SessionSnapshot

namespace World

/-- One atomic step of some request. -/
inductive Action where
  | store (a : PostgresStore.Action)
  /-- `Snapshot` of the session at `p`. -/
  | snapshot (p : ℕ)
  /-- `NewSessionFromSnapshot` of the `k`-th snapshot. -/
  | fromSnapshot (k : ℕ)

/-- A step and the clock reading it takes. -/
structure Event where
  now : ℤ
  action : Action

def step (w : World β δ) (e : Event) : Option (World β δ) :=
  match e.action with
  | .store a => (w.base.perform e.now a).map fun base => { w with base }
  | .snapshot p =>
    if p < w.base.next then some { w with snaps := w.snaps ++ [(w.base.heap p).snapshot] } else none
  | .fromSnapshot k =>
    (w.snaps[k]?).map fun snap =>
      { w with
        base := { w.base with
          heap := update w.base.heap w.base.next (Session.ofSnapshot snap)
          next := w.base.next + 1 } }

/-- All interleavings of requests, in any number of processes, that share one table. -/
def system (codec : Codec β δ) (idle absolute : ℤ) : StepSystem (World β δ) Event where
  IsInit w := (PostgresStore.system codec idle absolute).IsInit w.base ∧ w.snaps = []
  step := step

/-- A place that can hold a session: an address, a snapshot, a row, or a call in progress. -/
inductive Place where
  | heap (p : ℕ)
  | snap (k : ℕ)
  | row (id : String)
  | call (g : ℕ)
  deriving DecidableEq

/-- The time of the login of the session at a place. -/
def holds (w : World β δ) : Place → Option ℤ
  | .heap p => createdAt w.base.heap w.base.next p
  | .snap k => (w.snaps[k]?).map SessionSnapshot.created
  | .row id => (w.base.store.stored id).map SessionSnapshot.created
  | .call g => (w.base.calls g).bind Call.created?

/-- Where the contents of each place come from in a step of the store's system. -/
def storeSource (s : State β δ) : PostgresStore.Action → Place → Place ⊕ Login
  | .newSession _ _ _ _ at' => update Sum.inl (.heap s.next) (.inr ⟨s.next, at'⟩)
  | .getSelect g id => update Sum.inl (.call g) (.inl (.row id))
  | .getCheck g => update Sum.inl (.heap s.next) (.inl (.call g))
  | .putSnapshot g p => update Sum.inl (.call g) (.inl (.heap p))
  | .putExec g =>
    match s.calls g with
    | some (.putting snap) =>
      if s.store.writes snap then update Sum.inl (.row snap.id) (.inl (.call g))
      else Sum.inl
    | _ => Sum.inl
  | _ => Sum.inl

/-- Where the contents of each place come from in a step. -/
def source (w : World β δ) (e : Event) : Place → Place ⊕ Login :=
  match e.action with
  | .store a => storeSource w.base a
  | .snapshot p => update Sum.inl (.snap w.snaps.length) (.inl (.heap p))
  | .fromSnapshot k => update Sum.inl (.heap w.base.next) (.inl (.snap k))

/-- The system with the login every session stems from. -/
def traced (codec : Codec β δ) (idle absolute : ℤ) :
    StepSystem (World β δ × (Place → Login)) Event :=
  (system codec idle absolute).traced source

/-- A `Get` on goroutine `g` returns `snap` when its expiry check reads `t`. -/
def Returns (w : World β δ) (t : ℤ) (g : ℕ) (snap : SessionSnapshot) : Prop :=
  ∃ id, w.base.calls g = some (.selected id snap) ∧
    w.base.store.expired snap.created snap.lastSeen t = false

/-! ### What one step can do -/

variable {s s' : State β δ} {now : ℤ} {a : PostgresStore.Action} {w w' : World β δ} {e : Event}

/-- The sessions in memory keep their addresses and their login times. -/
def Kept (s s' : State β δ) : Prop :=
  s'.next = s.next ∧ ∀ p, (s'.heap p).created = (s.heap p).created

theorem Kept.createdAt_eq (h : Kept s s') (p : ℕ) :
    createdAt s'.heap s'.next p = createdAt s.heap s.next p := by
  simp only [createdAt, h.1, h.2 p]

theorem kept_of_modify {p : ℕ} {f : Session → Session} (h : s.modify p f = some s')
    (hf : ∀ x, (f x).created = x.created) : Kept s s' := by
  unfold State.modify at h
  split at h <;> cases h
  refine ⟨rfl, fun q => ?_⟩
  by_cases hq : q = p
  · subst hq
    simp [hf]
  · simp [update_of_ne hq]

theorem kept_of_begin {g : ℕ} {c : Option Call} (h : s.begin g c = some s') : Kept s s' := by
  unfold State.begin at h
  split at h <;> cases h
  exact ⟨rfl, fun _ => rfl⟩

/-- Only `NewSession` and a `Get` that returns a session take a new address. -/
theorem kept_of_perform (h : s.perform now a = some s')
    (hnew : ∀ id csrf ts user at', a ≠ .newSession id csrf ts user at')
    (hcheck : ∀ g, a ≠ .getCheck g) : Kept s s' := by
  cases a with
  | newSession id csrf ts user at' => exact absurd rfl (hnew id csrf ts user at')
  | getCheck g => exact absurd rfl (hcheck g)
  | touch p at' | setUser p user =>
    simp only [State.perform] at h
    exact kept_of_modify h fun _ => rfl
  | setTokens p ts at' =>
    simp only [State.perform] at h
    exact kept_of_modify h fun x => x.setTokens_created ts at'
  | getSelect g id | deleteNow g id | sweepNow g =>
    simp only [State.perform] at h
    exact kept_of_begin h
  | putSnapshot g p =>
    simp only [State.perform] at h
    split at h
    · exact kept_of_begin h
    · cases h
  | getRemove g | putExec g | deleteExec g | sweepExec g =>
    simp only [State.perform] at h
    split at h <;> cases h
    exact ⟨rfl, fun _ => rfl⟩

/-- The statement of a `Put` fills rows only. -/
theorem storeSource_putExec {g : ℕ} {x : Place} (hx : ∀ id, x ≠ .row id) :
    storeSource s (.putExec g) x = .inl x := by
  rcases hcall : s.calls g with _ | c
  · simp [storeSource, hcall]
  · cases c with
    | putting snap =>
      by_cases hwrites : s.store.writes snap = true
      · simp [storeSource, hcall, hwrites, hx snap.id]
      · simp [storeSource, hcall, hwrites]
    | _ => simp [storeSource, hcall]

/-- A place that the step does not fill keeps what it holds. -/
theorem supplies_of_kept {x : Place} {c : ℤ} (hsource : storeSource w.base a x = .inl x)
    (hbefore : w.holds x = some c) :
    Supplies w.holds Login.time c (storeSource w.base a x) := by
  rw [hsource]
  exact hbefore

/-- A session in memory stems from where the step says. -/
theorem holds_heap (h : w.base.perform now a = some s') (p : ℕ) (c : ℤ)
    (hx : ({ w with base := s' } : World β δ).holds (.heap p) = some c) :
    Supplies w.holds Login.time c (storeSource w.base a (.heap p)) := by
  change createdAt s'.heap s'.next p = some c at hx
  cases a with
  | newSession id csrf ts user at' =>
    cases h
    by_cases heq : p = w.base.next
    · subst heq
      simpa [Supplies, storeSource, createdAt_alloc_self, Session.new] using hx
    · rw [createdAt_alloc_of_ne _ heq] at hx
      exact supplies_of_kept (by simp [storeSource, heq]) hx
  | getCheck g =>
    simp only [State.perform] at h
    split at h
    · rename_i id snap hcall
      split at h
      · cases h
        have hne := Nat.ne_of_lt (createdAt_eq_some.mp hx).1
        exact supplies_of_kept (by simp [storeSource, hne]) hx
      · cases h
        by_cases heq : p = w.base.next
        · -- the session is built from what the call has read
          subst heq
          simpa [Supplies, storeSource, holds, hcall, Call.created?, createdAt_alloc_self,
            Session.ofSnapshot]
            using hx
        · rw [createdAt_alloc_of_ne _ heq] at hx
          exact supplies_of_kept (by simp [storeSource, heq]) hx
    · cases h
  | putExec g =>
    rw [(kept_of_perform h (by simp) (by simp)).createdAt_eq] at hx
    exact supplies_of_kept (storeSource_putExec (by simp)) hx
  | _ =>
    rw [(kept_of_perform h (by simp) (by simp)).createdAt_eq] at hx
    exact supplies_of_kept (by simp [storeSource]) hx

/-- A row stems from where the step says. -/
theorem holds_row (hcodec : w.base.store.codec.Documented) (h : w.base.perform now a = some s')
    (id : String) (c : ℤ) (hx : ({ w with base := s' } : World β δ).holds (.row id) = some c) :
    Supplies w.holds Login.time c (storeSource w.base a (.row id)) := by
  obtain ⟨snap, hstored, rfl⟩ : ∃ snap, s'.store.stored id = some snap ∧ snap.created = c := by
    simpa [holds] using hx
  have hrow : w.base.store.stored id = some snap → w.holds (.row id) = some snap.created :=
    fun hbefore => by simp [holds, hbefore]
  by_cases hput : ∃ g, a = .putExec g
  · obtain ⟨g, rfl⟩ := hput
    simp only [State.perform] at h
    split at h <;> cases h
    rename_i put hcall
    change (w.base.store.put put).stored id = some snap at hstored
    by_cases hwrites : w.base.store.writes put = true
    · by_cases heq : id = put.id
      · -- the row has just been written by this call
        subst heq
        rw [stored_put_of_writes hcodec hwrites] at hstored
        cases hstored
        simp [Supplies, storeSource, hcall, hwrites, holds, Call.created?]
      · refine supplies_of_kept (by simp [storeSource, hcall, hwrites, heq]) ?_
        exact hrow ((stored_congr (codec_put put) (rows_put_of_ne heq)).symm.trans hstored)
    · rw [Bool.not_eq_true] at hwrites
      rw [put_of_writes_eq_false hwrites] at hstored
      exact supplies_of_kept (by simp [storeSource, hcall, hwrites]) (hrow hstored)
  · have hsource : storeSource w.base a (.row id) = .inl (.row id) := by
      cases a with
      | putExec g => exact absurd ⟨g, rfl⟩ hput
      | _ => simp [storeSource]
    refine supplies_of_kept hsource (hrow ?_)
    obtain ⟨hstore, -⟩ := State.perform_cases h
    generalize s'.store = m at hstore hstored
    cases hstore with
    | same => exact hstored
    | put g snap ha hc => exact absurd ⟨g, ha⟩ hput
    | delete g id' at' ha hc => exact stored_of_stored_delete hstored
    | remove g id' ha hc => exact stored_of_stored_remove hstored
    | sweep g at' ha hc => exact stored_of_stored_sweep hstored

/-- What a call carries stems from where the step says. -/
theorem holds_call (h : w.base.perform now a = some s') (g : ℕ) (c : ℤ)
    (hx : ({ w with base := s' } : World β δ).holds (.call g) = some c) :
    Supplies w.holds Login.time c (storeSource w.base a (.call g)) := by
  obtain ⟨call, hcall, hc⟩ : ∃ call, s'.calls g = some call ∧ call.created? = some c := by
    simpa [holds, Option.bind_eq_some_iff] using hx
  by_cases hcaller : a.caller = some g
  · -- the step belongs to the call
    cases a with
    | getSelect g' id =>
      cases hcaller
      simp only [State.perform] at h
      rw [(State.begin_cases h).2, update_self, Option.map_eq_some_iff] at hcall
      obtain ⟨snap, hstored, rfl⟩ := hcall
      simpa [Supplies, storeSource, holds, hstored, Call.created?] using hc
    | putSnapshot g' p =>
      cases hcaller
      simp only [State.perform] at h
      split at h
      · rename_i hp
        rw [(State.begin_cases h).2, update_self, Option.some.injEq] at hcall
        subst hcall
        simpa [Supplies, storeSource, holds, createdAt, hp, Call.created?, Session.snapshot] using hc
      · cases h
    | deleteNow g' id | sweepNow g' =>
      cases hcaller
      simp only [State.perform] at h
      rw [(State.begin_cases h).2, update_self, Option.some.injEq] at hcall
      subst hcall
      cases hc
    | getCheck g' =>
      cases hcaller
      simp only [State.perform] at h
      split at h
      · split at h <;> cases h <;> simp at hcall
        subst hcall
        cases hc
      · cases h
    | getRemove g' | putExec g' | deleteExec g' | sweepExec g' =>
      cases hcaller
      simp only [State.perform] at h
      split at h <;> cases h
      simp [State.exec] at hcall
    | newSession | touch | setTokens | setUser => cases hcaller
  · have hbefore := (State.calls_perform h hcaller).symm.trans hcall
    refine supplies_of_kept ?_ (by simp [holds, hbefore, hc])
    cases a with
    | getSelect g' id | putSnapshot g' p =>
      have hne : g ≠ g' := fun heq => hcaller (by rw [heq]; rfl)
      simp [storeSource, hne]
    | putExec g' => exact storeSource_putExec (by simp)
    | _ => simp [storeSource]

/-- What a place holds after a step is what its source held before, or a new login. -/
theorem holds_step (hcodec : w.base.store.codec.Documented) (h : w.step e = some w') (x : Place)
    (c : ℤ) (hx : w'.holds x = some c) :
    Supplies w.holds Login.time c (source w e x) := by
  obtain ⟨now, a⟩ := e
  cases a with
  | store a =>
    obtain ⟨base, hbase, rfl⟩ := Option.map_eq_some_iff.mp h
    change Supplies w.holds _ c (storeSource w.base a x)
    cases x with
    | heap p => exact holds_heap hbase p c hx
    | row id => exact holds_row hcodec hbase id c hx
    | call g => exact holds_call hbase g c hx
    | snap k =>
      have hsource : storeSource w.base a (.snap k) = .inl (.snap k) := by
        cases a with
        | putExec g => exact storeSource_putExec (by simp)
        | _ => simp [storeSource]
      rw [hsource]
      exact hx
  | snapshot p =>
    simp only [step] at h
    split at h <;> cases h
    rename_i hp
    refine supplies_update (fun hx => ?_) (fun y hy => ?_) x hx
    · simpa [Supplies, holds, createdAt, hp, Session.snapshot] using hx
    · cases y with
      | snap k => simp only [holds, getElem?_concat_of_ne fun hk => hy (hk ▸ rfl)]
      | _ => rfl
  | fromSnapshot k =>
    obtain ⟨snap, hsnap, rfl⟩ := Option.map_eq_some_iff.mp h
    refine supplies_update (fun hx => ?_) (fun y hy => ?_) x hx
    · simpa [Supplies, holds, hsnap, createdAt_alloc_self, Session.ofSnapshot] using hx
    · cases y with
      | heap p =>
        have hne : p ≠ w.base.next := fun hp => hy (by rw [hp])
        simp only [holds, createdAt_alloc_of_ne _ hne]
      | _ => rfl

/-- No step changes the configuration. -/
theorem config_of_reachable {codec : Codec β δ} {idle absolute : ℤ}
    (h : (system codec idle absolute).Reachable w) :
    w.base.store.codec = codec ∧ w.base.store.absolute = absolute := by
  apply reachable_invariant
    (I := fun w : World β δ => w.base.store.codec = codec ∧ w.base.store.absolute = absolute) _ _ h
  · rintro w₀ ⟨⟨hstore, -, -⟩, -⟩
    rw [hstore]
    exact ⟨rfl, rfl⟩
  · rintro w ⟨now, a⟩ w' hw hstep
    change w.step ⟨now, a⟩ = some w' at hstep
    cases a with
    | store a =>
      obtain ⟨base, hbase, rfl⟩ := Option.map_eq_some_iff.mp hstep
      obtain ⟨hcodec, -, habs⟩ := (State.perform_cases hbase).1.config
      exact ⟨hcodec.trans hw.1, habs.trans hw.2⟩
    | snapshot p =>
      simp only [step] at hstep
      split at hstep <;> cases hstep
      exact hw
    | fromSnapshot k =>
      obtain ⟨snap, -, rfl⟩ := Option.map_eq_some_iff.mp hstep
      exact hw

/-- In the durable store, a session that `Get` returns stems from a login less than the absolute
lifetime before the reading of its expiry check. -/
theorem lt_of_returns {codec : Codec β δ} (hcodec : codec.Documented) {idle absolute : ℤ}
    (hpos : 0 < absolute) (hmax : absolute ≤ Duration.maxValue)
    {s : World β δ × (Place → Login)} (hs : (traced codec idle absolute).Reachable s) {t : ℤ}
    {g : ℕ} {snap : SessionSnapshot} (h : s.1.Returns t g snap) :
    t < (s.2 (.call g)).time + absolute := by
  obtain ⟨id, hselected, hexp⟩ := h
  have hreach := reachable_of_traced hs
  have horigin : (s.2 (.call g)).time = snap.created := by
    refine value_of_traced holds Login.time ?_ ?_ hs ?_
    · rintro w₀ ⟨⟨hstore, hnext, hcalls⟩, hsnaps⟩ x
      cases x <;> simp [holds, createdAt, stored, select, hstore, hnext, hcalls, hsnaps]
    · intro w e w' hw hstep x c hx
      exact holds_step ((config_of_reachable hw).1 ▸ hcodec) hstep x c hx
    · simp [holds, hselected, Call.created?]
  rw [PostgresStore.expired, (config_of_reachable hreach).2] at hexp
  rw [horigin]
  exact lt_of_expiredAt_eq_false hpos hmax hexp

end World

end PostgresStore

/-- The absolute lifetime cannot be extended: whatever requests do with a session and with the
snapshots and rows made of it, no `Get` whose expiry check reads a time at least the absolute
lifetime after the login returns it. -/
theorem lifetime_final {β δ : Type} {codec : PostgresStore.Codec β δ} (hcodec : codec.Documented)
    (idle : ℤ) {absolute : ℤ} (hpos : 0 < absolute) (hmax : absolute ≤ Duration.maxValue) :
    (∀ s t g p, (MemoryStore.World.traced idle absolute).Reachable s →
      (s.2 (.heap p)).time + absolute ≤ t → ¬ s.1.Returns t g p) ∧
    ∀ s t g snap, (PostgresStore.World.traced codec idle absolute).Reachable s →
      (s.2 (.call g)).time + absolute ≤ t → ¬ s.1.Returns t g snap := by
  constructor
  · intro s t g p hs hle hret
    have hlt := MemoryStore.World.lt_of_returns hpos hmax hs hret
    omega
  · intro s t g snap hs hle hret
    have hlt := PostgresStore.World.lt_of_returns hcodec hpos hmax hs hret
    omega

section Runs

open Duration (minute)

/-- A login at 0; at 20 minutes the session is touched, copied through a snapshot, and the copy is
stored in its place. -/
def MemoryStore.World.copied : List MemoryStore.World.Event :=
  [⟨0, .store (.newSession "sid" "csrf" none {} 0)⟩, ⟨0, .store (.put 0)⟩,
    ⟨20 * minute, .store (.touch 0 (20 * minute))⟩, ⟨20 * minute, .snapshot 0⟩,
    ⟨20 * minute, .fromSnapshot 0⟩, ⟨20 * minute, .store (.put 1)⟩,
    ⟨40 * minute, .store (.getLookup 0 "sid")⟩]

/-- A login at 0; at 20 minutes the session is read back, touched and written again. -/
def PostgresStore.World.rewritten : List PostgresStore.World.Event :=
  [⟨0, .store (.newSession "sid" "csrf" none {} 0)⟩, ⟨0, .store (.putSnapshot 0 0)⟩,
    ⟨0, .store (.putExec 0)⟩, ⟨20 * minute, .store (.getSelect 0 "sid")⟩,
    ⟨20 * minute, .store (.getCheck 0)⟩, ⟨20 * minute, .store (.touch 1 (20 * minute))⟩,
    ⟨20 * minute, .store (.putSnapshot 0 1)⟩, ⟨20 * minute, .store (.putExec 0)⟩,
    ⟨40 * minute, .store (.getSelect 0 "sid")⟩]

/-- With an absolute lifetime of an hour and an idle bound of half an hour, the copy and the
rewritten row are returned at 40 minutes and not at an hour. -/
theorem lifetime_final_copied :
    (∃ s, (MemoryStore.World.traced (30 * minute) (60 * minute)).Reachable s ∧
      s.1.Returns (40 * minute) 0 1 ∧ s.2 (.heap 1) = ⟨0, 0⟩ ∧
      ¬ s.1.Returns (60 * minute) 0 1) ∧
    ∃ s snap, (PostgresStore.World.traced PostgresStore.Codec.strict (30 * minute)
        (60 * minute)).Reachable s ∧ s.1.Returns (40 * minute) 0 snap ∧ s.2 (.call 0) = ⟨0, 0⟩ ∧
      ¬ s.1.Returns (60 * minute) 0 snap := by
  have hpos : 0 < 60 * minute := by decide
  obtain ⟨hmem, hpg⟩ := lifetime_final PostgresStore.Codec.documented_strict (30 * minute) hpos
    (by decide)
  constructor
  · let M := MemoryStore.World.traced (30 * minute) (60 * minute)
    let start : MemoryStore.World := ⟨.start (30 * minute) (60 * minute), []⟩
    obtain ⟨s, hrun⟩ : ∃ s, M.run (start, fun _ => ⟨9, 9⟩) MemoryStore.World.copied = some s :=
      Option.isSome_iff_exists.mp (by decide +kernel)
    have hend : (M.run (start, fun _ => ⟨9, 9⟩) MemoryStore.World.copied).map (fun s =>
        (s.1.base.gets 0, s.1.base.store.expired (s.1.base.heap 1) (40 * minute), s.2 (.heap 1)))
          = some (some (.looked "sid" 1), false, ⟨0, 0⟩) := by decide +kernel
    rw [hrun, Option.map_some, Option.some.injEq] at hend
    simp only [Prod.mk.injEq] at hend
    obtain ⟨hlooked, hfresh, horigin⟩ := hend
    have hs : M.Reachable s := ⟨_, _, ⟨⟨rfl, rfl, fun _ => rfl⟩, rfl⟩, hrun⟩
    refine ⟨s, hs, ⟨"sid", hlooked, hfresh⟩, horigin, hmem s _ 0 1 hs ?_⟩
    rw [horigin]
    decide
  · let M := PostgresStore.World.traced PostgresStore.Codec.strict (30 * minute) (60 * minute)
    let start : PostgresStore.World _ _ := ⟨.start .strict (30 * minute) (60 * minute), []⟩
    let snap := ((Session.new "sid" "csrf" none {} 0).touch (20 * minute)).snapshot
    obtain ⟨s, hrun⟩ : ∃ s, M.run (start, fun _ => ⟨9, 9⟩) PostgresStore.World.rewritten = some s :=
      Option.isSome_iff_exists.mp (by decide +kernel)
    have hend : (M.run (start, fun _ => ⟨9, 9⟩) PostgresStore.World.rewritten).map (fun s =>
        (s.1.base.calls 0, s.1.base.store.expired snap.created snap.lastSeen (40 * minute),
          s.2 (.call 0))) = some (some (.selected "sid" snap), false, ⟨0, 0⟩) := rfl
    rw [hrun, Option.map_some, Option.some.injEq] at hend
    simp only [Prod.mk.injEq] at hend
    obtain ⟨hselected, hfresh, horigin⟩ := hend
    have hs : M.Reachable s := ⟨_, _, ⟨⟨rfl, rfl, fun _ => rfl⟩, rfl⟩, hrun⟩
    refine ⟨s, snap, hs, ⟨"sid", hselected, hfresh⟩, horigin, hpg s _ 0 snap hs ?_⟩
    rw [horigin]
    decide

end Runs

end Bff
