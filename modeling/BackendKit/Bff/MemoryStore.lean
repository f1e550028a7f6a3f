import BackendKit.Bff.Session
import BackendKit.ToMathlib.StepSystem
import Mathlib.Logic.Function.Basic

/-!
# The in-memory session store

`MemoryStore` (`bff/session.go`) and the system of goroutines that use one.

The store keeps pointers to live sessions, and for every deleted id a tombstone with the time
of the `Delete`. `Put`, `Delete` and `Sweep` are one critical section each. `Get` is three
steps: the lookup under the read lock, the expiry check under the session's lock, and, when the
session has expired, a `Delete`. `MemoryStore.system` interleaves these steps, and the methods
of the sessions themselves, in every order and with every non-decreasing clock.

Main results:

* `MemoryStore.State.Inv`: `sessions` and `tombstones` are disjoint and every session is filed
  under its own id, in every reachable state;
* `MemoryStore.State.tombstoned_run`: a tombstone, or one that is younger, stays until the clock has
  passed its lifetime;
* `MemoryStore.logout_final`: no `Get` returns a session within the lifetime of a tombstone.
-/

open GoStd
open Function (update update_of_ne)

namespace Bff

/-- The in-memory store. `sessions` holds addresses of sessions on the heap. -/
structure MemoryStore where
  sessions : String → Option ℕ
  /-- When `Delete` removed an id. -/
  tombstones : String → Option ℤ
  idle : ℤ
  absolute : ℤ

namespace MemoryStore

/-- `NewMemoryStore`. -/
def new (idle absolute : ℤ) : MemoryStore :=
  { sessions := fun _ => none, tombstones := fun _ => none, idle, absolute }

/-- The session has expired at `now`. -/
def expired (m : MemoryStore) (s : Session) (now : ℤ) : Bool :=
  expiredAt m.idle m.absolute s.created s.lastSeen now

/-- Store the session `s` at address `p`, unless its id has a tombstone. -/
def put (m : MemoryStore) (p : ℕ) (s : Session) : MemoryStore :=
  if (m.tombstones s.id).isSome then m
  else { m with sessions := update m.sessions s.id (some p) }

/-- Remove a session and keep a tombstone. -/
def delete (m : MemoryStore) (id : String) (now : ℤ) : MemoryStore :=
  { m with
    sessions := update m.sessions id none
    tombstones := update m.tombstones id (some now) }

/-- Remove the expired sessions and the old tombstones. The loop reads the clock for every
session it looks at (`nowAt`) and once more for the tombstones (`now`). -/
def sweep (m : MemoryStore) (heap : ℕ → Session) (nowAt : String → ℤ) (now : ℤ) : MemoryStore :=
  { m with
    sessions := fun id => (m.sessions id).filter fun p => !m.expired (heap p) (nowAt id)
    tombstones := fun id =>
      (m.tombstones id).filter fun at' => !(at' < now - postgresStoreTombstoneTTL : Bool) }

/-! ### The system of goroutines -/

/-- What a `Get` in progress will do next. -/
inductive GetCall where
  /-- The lookup found the session at `p`; its expiry is checked next. -/
  | looked (id : String) (p : ℕ)
  /-- The session had expired; it is deleted next. -/
  | expired (id : String)
  deriving DecidableEq, Repr

/-- The store, the sessions in memory and the `Get` calls in progress. -/
structure State where
  /-- The clock at the last step. -/
  clock : ℤ
  store : MemoryStore
  heap : ℕ → Session
  /-- The first unused address of the heap. -/
  next : ℕ
  /-- The `Get` a goroutine is in. -/
  gets : ℕ → Option GetCall

/-- One atomic step of some goroutine. -/
inductive Action where
  /-- `NewSession`: a login builds a session. -/
  | newSession (id csrf : String) (ts : Option TokenSet) (user : UserInfo) (at' : ℤ)
  | touch (p : ℕ) (at' : ℤ)
  | setTokens (p : ℕ) (ts : Option TokenSet) (at' : ℤ)
  | setUser (p : ℕ) (user : UserInfo)
  | put (p : ℕ)
  | delete (id : String)
  /-- `Sweep`, with the clock readings of its loop. -/
  | sweep (nowAt : String → ℤ)
  /-- `Get` on goroutine `g`: the lookup under the read lock. -/
  | getLookup (g : ℕ) (id : String)
  /-- `Get` on goroutine `g`: the expiry check. -/
  | getCheck (g : ℕ)
  /-- `Get` on goroutine `g`: the `Delete` of an expired session. -/
  | getDelete (g : ℕ)

/-- The goroutine whose `Get` a step belongs to. -/
def Action.getter : Action → Option ℕ
  | .getLookup g _ => some g
  | .getCheck g => some g
  | .getDelete g => some g
  | _ => none

/-- A step and the clock reading it takes. -/
structure Event where
  now : ℤ
  action : Action

namespace State

/-- Change the session at address `p`, which some goroutine holds. -/
def modify (s : State) (p : ℕ) (f : Session → Session) : Option State :=
  if p < s.next then some { s with heap := update s.heap p (f (s.heap p)) } else none

/-- Perform an action at time `now`. -/
def perform (s : State) (now : ℤ) : Action → Option State
  | .newSession id csrf ts user at' =>
    some { s with
      heap := update s.heap s.next (Session.new id csrf ts user at')
      next := s.next + 1 }
  | .touch p at' => s.modify p fun x => x.touch at'
  | .setTokens p ts at' => s.modify p fun x => x.setTokens ts at'
  | .setUser p user => s.modify p fun x => x.setUser user
  | .put p => if p < s.next then some { s with store := s.store.put p (s.heap p) } else none
  | .delete id => some { s with store := s.store.delete id now }
  | .sweep nowAt =>
    -- every reading of the loop lies between the last step and the final reading
    some { s with
      store := s.store.sweep s.heap (fun id => max s.clock (min now (nowAt id))) now }
  | .getLookup g id =>
    match s.gets g with
    | some _ => none
    | none =>
      some { s with gets := update s.gets g ((s.store.sessions id).map (.looked id)) }
  | .getCheck g =>
    match s.gets g with
    | some (.looked id p) =>
      some { s with
        gets := update s.gets g
          (if s.store.expired (s.heap p) now then some (.expired id) else none) }
    | _ => none
  | .getDelete g =>
    match s.gets g with
    | some (.expired id) =>
      some { s with store := s.store.delete id now, gets := update s.gets g none }
    | _ => none

/-- A step is taken at a time not before the last one. -/
def step (s : State) (e : Event) : Option State :=
  if s.clock ≤ e.now then (s.perform e.now e.action).map fun s' => { s' with clock := e.now }
  else none

/-- The step `e` is the critical section of a `Delete` of `id`, called on its own or by a `Get`
that found the session expired. -/
def Deletes (s : State) (e : Event) (id : String) : Prop :=
  e.action = .delete id ∨ ∃ g, e.action = .getDelete g ∧ s.gets g = some (.expired id)

/-- The session a `Get` returns by the step `e`: its expiry check passes. -/
def returns (s : State) (e : Event) : Option ℕ :=
  match e.action with
  | .getCheck g =>
    match s.gets g with
    | some (.looked _ p) =>
      if s.clock ≤ e.now ∧ s.store.expired (s.heap p) e.now = false then some p else none
    | _ => none
  | _ => none

end State

/-- All interleavings of goroutines that share one store. -/
def system (idle absolute : ℤ) : StepSystem State Event where
  IsInit s := s.store = new idle absolute ∧ s.next = 0 ∧ ∀ g, s.gets g = none
  step := State.step

/-- A `Get` of `id` that looks `id` up in the state `s` at time `t` can return the session at
`p`, whatever the other goroutines do before its expiry check. -/
def GetReturns (idle absolute : ℤ) (s : State) (t : ℤ) (id : String) (p : ℕ) : Prop :=
  ∃ g s₁ es s₂ t', s.step ⟨t, .getLookup g id⟩ = some s₁ ∧
    (∀ e ∈ es, e.action.getter ≠ some g) ∧ (system idle absolute).run s₁ es = some s₂ ∧
    s₂.returns ⟨t', .getCheck g⟩ = some p

/-! ### The operations on the two maps -/

section Maps

variable (m : MemoryStore)

variable {p : ℕ} {s : Session} {id : String}

theorem sessions_put_self (h : m.tombstones s.id = none) : (m.put p s).sessions s.id = some p := by
  simp [put, h]

@[simp]
theorem tombstones_put (p : ℕ) (s : Session) : (m.put p s).tombstones = m.tombstones := by
  unfold put
  split <;> rfl

theorem sessions_put_of_ne (h : id ≠ s.id) : (m.put p s).sessions id = m.sessions id := by
  unfold put
  split
  · rfl
  · simp [update_of_ne h]

theorem put_eq_self (h : m.tombstones s.id ≠ none) : m.put p s = m := by
  simp [put, Option.isSome_iff_ne_none.mpr h]

@[simp]
theorem sessions_delete_self (id : String) (now : ℤ) : (m.delete id now).sessions id = none := by
  simp [delete]

@[simp]
theorem tombstones_delete_self (id : String) (now : ℤ) :
    (m.delete id now).tombstones id = some now := by
  simp [delete]

theorem sessions_delete_of_ne {id' : String} (now : ℤ) (h : id' ≠ id) :
    (m.delete id now).sessions id' = m.sessions id' := by
  simp [delete, update_of_ne h]

theorem tombstones_delete_of_ne {id' : String} (now : ℤ) (h : id' ≠ id) :
    (m.delete id now).tombstones id' = m.tombstones id' := by
  simp [delete, update_of_ne h]

theorem sessions_sweep_eq_some {heap : ℕ → Session} {nowAt : String → ℤ} {now : ℤ} :
    (m.sweep heap nowAt now).sessions id = some p ↔
      m.sessions id = some p ∧ m.expired (heap p) (nowAt id) = false := by
  simp [sweep, Option.filter_eq_some_iff]

theorem tombstones_sweep_eq_some {heap : ℕ → Session} {nowAt : String → ℤ} {now : ℤ} {τ : ℤ} :
    (m.sweep heap nowAt now).tombstones id = some τ ↔
      m.tombstones id = some τ ∧ now - postgresStoreTombstoneTTL ≤ τ := by
  simp [sweep, Option.filter_eq_some_iff]

end Maps

/-! ### What one step can do -/

namespace State

/-- The four ways a step can change the store. -/
inductive StoreChange (s : State) (now : ℤ) : MemoryStore → Prop
  | same : StoreChange s now s.store
  | put (p : ℕ) (hp : p < s.next) : StoreChange s now (s.store.put p (s.heap p))
  | delete (id : String) : StoreChange s now (s.store.delete id now)
  | sweep (nowAt : String → ℤ) (h : ∀ id, s.clock ≤ nowAt id) :
      StoreChange s now (s.store.sweep s.heap nowAt now)

/-- What a step leaves alone on the heap: sessions in memory keep their id and the time of
their login, and addresses are handed out once. -/
structure HeapExtends (s s' : State) : Prop where
  next_le : s.next ≤ s'.next
  id_eq : ∀ p < s.next, (s'.heap p).id = (s.heap p).id
  created_eq : ∀ p < s.next, (s'.heap p).created = (s.heap p).created

theorem HeapExtends.refl (s : State) : HeapExtends s s :=
  ⟨le_refl _, fun _ _ => rfl, fun _ _ => rfl⟩

variable {s s' : State} {g : ℕ}

theorem HeapExtends.trans {t u : State} (h : HeapExtends s t) (h' : HeapExtends t u) :
    HeapExtends s u where
  next_le := h.next_le.trans h'.next_le
  id_eq p hp := (h'.id_eq p (hp.trans_le h.next_le)).trans (h.id_eq p hp)
  created_eq p hp := (h'.created_eq p (hp.trans_le h.next_le)).trans (h.created_eq p hp)

/-- A change of one session that keeps its id and login time extends the heap. -/
theorem heapExtends_of_modify {p : ℕ} {f : Session → Session} (h : s.modify p f = some s')
    (hid : ∀ x, (f x).id = x.id) (hcreated : ∀ x, (f x).created = x.created) :
    HeapExtends s s' ∧ s'.store = s.store ∧ s'.gets = s.gets := by
  unfold modify at h
  split at h
  · cases h
    refine ⟨⟨le_refl _, fun q _ => ?_, fun q _ => ?_⟩, rfl, rfl⟩
    · by_cases hq : q = p
      · subst hq
        simp [hid]
      · simp [update_of_ne hq]
    · by_cases hq : q = p
      · subst hq
        simp [hcreated]
      · simp [update_of_ne hq]
  · cases h

/-- Everything an action can do to the store and to the heap. -/
theorem perform_cases {now : ℤ} {a : Action} (h : s.perform now a = some s') :
    HeapExtends s s' ∧ StoreChange s now s'.store := by
  cases a with
  | newSession id csrf ts user at' =>
    cases h
    refine ⟨⟨Nat.le_succ _, fun p hp => ?_, fun p hp => ?_⟩, .same⟩ <;>
      simp [update_of_ne (Nat.ne_of_lt hp)]
  | touch p at' =>
    simp only [perform] at h
    obtain ⟨hx, hs, -⟩ := heapExtends_of_modify h (fun _ => rfl) fun _ => rfl
    exact ⟨hx, hs ▸ .same⟩
  | setTokens p ts at' =>
    simp only [perform] at h
    obtain ⟨hx, hs, -⟩ := heapExtends_of_modify h (fun x => x.setTokens_id ts at')
      fun x => x.setTokens_created ts at'
    exact ⟨hx, hs ▸ .same⟩
  | setUser p user =>
    simp only [perform] at h
    obtain ⟨hx, hs, -⟩ := heapExtends_of_modify h (fun _ => rfl) fun _ => rfl
    exact ⟨hx, hs ▸ .same⟩
  | put p =>
    simp only [perform] at h
    split at h
    · rename_i hp
      cases h
      exact ⟨⟨le_refl _, fun _ _ => rfl, fun _ _ => rfl⟩, .put p hp⟩
    · cases h
  | delete id =>
    cases h
    exact ⟨⟨le_refl _, fun _ _ => rfl, fun _ _ => rfl⟩, .delete id⟩
  | sweep nowAt =>
    cases h
    exact ⟨⟨le_refl _, fun _ _ => rfl, fun _ _ => rfl⟩, .sweep _ fun id => le_max_left _ _⟩
  | getLookup g id =>
    simp only [perform] at h
    split at h
    · cases h
    · cases h
      exact ⟨⟨le_refl _, fun _ _ => rfl, fun _ _ => rfl⟩, .same⟩
  | getCheck g =>
    simp only [perform] at h
    split at h
    · cases h
      exact ⟨⟨le_refl _, fun _ _ => rfl, fun _ _ => rfl⟩, .same⟩
    · cases h
  | getDelete g =>
    simp only [perform] at h
    split at h
    · rename_i id _
      cases h
      exact ⟨⟨le_refl _, fun _ _ => rfl, fun _ _ => rfl⟩, .delete id⟩
    · cases h

/-- Everything a step can do to the clock, the store and the heap. -/
theorem step_cases {e : Event} (h : s.step e = some s') :
    s.clock ≤ e.now ∧ s'.clock = e.now ∧ HeapExtends s s' ∧ StoreChange s e.now s'.store := by
  unfold step at h
  split at h
  · rename_i hle
    obtain ⟨s₁, h₁, rfl⟩ := Option.map_eq_some_iff.mp h
    obtain ⟨⟨hnext, hid, hcreated⟩, hstore⟩ := perform_cases h₁
    exact ⟨hle, rfl, ⟨hnext, hid, hcreated⟩, hstore⟩
  · cases h

/-- A `Get` in progress is not disturbed by the steps of other goroutines. -/
theorem gets_step {e : Event} (h : s.step e = some s') (hg : e.action.getter ≠ some g) :
    s'.gets g = s.gets g := by
  obtain ⟨now, a⟩ := e
  unfold step at h
  split at h
  · obtain ⟨s₁, h₁, rfl⟩ := Option.map_eq_some_iff.mp h
    change s₁.gets g = s.gets g
    cases a with
    | getLookup g' id | getCheck g' | getDelete g' =>
      have hne : g ≠ g' := fun heq => hg (by rw [heq]; rfl)
      simp only [perform] at h₁
      split at h₁ <;> cases h₁
      exact update_of_ne hne _ _
    | touch p at' | setTokens p ts at' | setUser p user | put p =>
      simp only [perform, modify] at h₁
      split at h₁
      · cases h₁
        rfl
      · cases h₁
    | newSession id csrf ts user at' | delete id | sweep nowAt =>
      cases h₁
      rfl
  · cases h

/-- The lookup of a `Get` notes what the store has under the id. -/
theorem gets_lookup {t : ℤ} {id : String} (h : s.step ⟨t, .getLookup g id⟩ = some s') :
    s.clock ≤ t ∧ s'.gets g = (s.store.sessions id).map (.looked id) := by
  simp only [step, perform] at h
  split at h
  · rename_i hle
    refine ⟨hle, ?_⟩
    split at h
    · cases h
    · cases h
      exact Function.update_self g _ s.gets
  · cases h

/-- A `Get` returns the session its lookup noted, if that has not expired by the check. -/
theorem returns_getCheck {t : ℤ} {p : ℕ} :
    s.returns ⟨t, .getCheck g⟩ = some p ↔ ∃ id, s.gets g = some (.looked id p) ∧
      s.clock ≤ t ∧ s.store.expired (s.heap p) t = false := by
  simp only [returns]
  rcases s.gets g with _ | ⟨id, q⟩ | id
  · simp
  · simp only [Option.ite_none_right_eq_some, Option.some.injEq, GetCall.looked.injEq]
    constructor
    · rintro ⟨h, rfl⟩
      exact ⟨id, ⟨rfl, rfl⟩, h⟩
    · rintro ⟨_, ⟨_, rfl⟩, h⟩
      exact ⟨h, rfl⟩
  · simp

end State

variable {idle absolute : ℤ}

variable {s s' : State} {es : List Event} {e : Event} {id : String} {t₀ : ℤ}

theorem gets_run {g : ℕ} (hes : ∀ e ∈ es, e.action.getter ≠ some g)
    (h : (system idle absolute).run s es = some s') : s'.gets g = s.gets g :=
  StepSystem.run_invariant (P := fun _ e => e.action.getter ≠ some g)
    (I := fun t => t.gets g = s.gets g) (fun _ _ _ hs hg h => (State.gets_step h hg).trans hs)
    (StepSystem.everyStep_of_forall_mem s hes) h rfl

/-- The clock does not run backwards along a run, and the heap only grows. -/
theorem run_extends (h : (system idle absolute).run s es = some s') :
    s.clock ≤ s'.clock ∧ State.HeapExtends s s' := by
  refine StepSystem.run_relation
    (R := fun s s' : State => s.clock ≤ s'.clock ∧ State.HeapExtends s s')
    (fun s => ⟨le_refl _, .refl s⟩) (fun s t u h h' => ⟨h.1.trans h'.1, h.2.trans h'.2⟩) ?_ h
  intro s e s' hstep
  obtain ⟨hle, hclock, hheap, -⟩ := State.step_cases hstep
  exact ⟨hclock ▸ hle, hheap⟩

/-- No change of the store touches the configured bounds. -/
theorem State.StoreChange.config {now : ℤ} {m : MemoryStore} (h : State.StoreChange s now m) :
    m.idle = s.store.idle ∧ m.absolute = s.store.absolute := by
  cases h with
  | same | delete | sweep => exact ⟨rfl, rfl⟩
  | put p hp =>
    unfold MemoryStore.put
    split <;> exact ⟨rfl, rfl⟩

theorem State.config_step (h : s.step e = some s') :
    s'.store.idle = s.store.idle ∧ s'.store.absolute = s.store.absolute :=
  (State.step_cases h).2.2.2.config

theorem State.config_run (h : (system idle absolute).run s es = some s') :
    s'.store.idle = s.store.idle ∧ s'.store.absolute = s.store.absolute :=
  StepSystem.run_relation (R := fun s s' : State =>
      s'.store.idle = s.store.idle ∧ s'.store.absolute = s.store.absolute)
    (fun _ => ⟨rfl, rfl⟩) (fun _ _ _ h h' => ⟨h'.1.trans h.1, h'.2.trans h.2⟩)
    (fun _ _ _ h => State.config_step h) h

theorem State.config_of_reachable (h : (system idle absolute).Reachable s) :
    s.store.idle = idle ∧ s.store.absolute = absolute := by
  obtain ⟨s₀, es, ⟨hstore, -, -⟩, hrun⟩ := h
  obtain ⟨hidle, habs⟩ := State.config_run hrun
  rw [hstore] at hidle habs
  exact ⟨hidle, habs⟩

/-! ### The invariant of the two maps -/

/-- No id is both stored and tombstoned, and a stored session is filed under its own id. -/
structure State.Inv (s : State) : Prop where
  disjoint : ∀ id, s.store.sessions id ≠ none → s.store.tombstones id = none
  keyed : ∀ id p, s.store.sessions id = some p → p < s.next ∧ (s.heap p).id = id

theorem State.inv_of_isInit (h : (system idle absolute).IsInit s) : s.Inv := by
  obtain ⟨hstore, -, -⟩ := h
  exact ⟨by simp [hstore, new], by simp [hstore, new]⟩

/-- One step keeps the maps disjoint and the sessions filed under their ids. -/
theorem State.inv_step (hs : s.Inv) (h : s.step e = some s') : s'.Inv := by
  obtain ⟨-, -, hheap, hstore⟩ := State.step_cases h
  -- a session that was stored before stays filed under its id on the new heap
  have hkeep : ∀ id p, s.store.sessions id = some p → p < s'.next ∧ (s'.heap p).id = id := by
    intro id p hp
    obtain ⟨hlt, hid⟩ := hs.keyed id p hp
    exact ⟨hlt.trans_le hheap.next_le, (hheap.id_eq p hlt).trans hid⟩
  generalize hm : s'.store = m at hstore
  cases hstore with
  | same => exact ⟨hm ▸ hs.disjoint, hm ▸ hkeep⟩
  | put p hp =>
    constructor
    · intro id hid
      rw [hm, tombstones_put]
      by_cases heq : id = (s.heap p).id
      · -- the write was not dropped, so the id has no tombstone
        subst heq
        by_contra hgone
        rw [hm, put_eq_self _ hgone] at hid
        exact hgone (hs.disjoint _ hid)
      · rw [hm, sessions_put_of_ne _ heq] at hid
        exact hs.disjoint id hid
    · intro id q hq
      by_cases heq : id = (s.heap p).id
      · subst heq
        by_cases hgone : s.store.tombstones (s.heap p).id = none
        · rw [hm, sessions_put_self _ hgone, Option.some.injEq] at hq
          subst hq
          exact ⟨hp.trans_le hheap.next_le, hheap.id_eq p hp⟩
        · rw [hm, put_eq_self _ hgone] at hq
          exact hkeep _ q hq
      · rw [hm, sessions_put_of_ne _ heq] at hq
        exact hkeep id q hq
  | delete id =>
    constructor
    · intro id' hid'
      by_cases heq : id' = id
      · subst heq
        simp [hm] at hid'
      · rw [hm, sessions_delete_of_ne _ _ heq] at hid'
        rw [hm, tombstones_delete_of_ne _ _ heq]
        exact hs.disjoint id' hid'
    · intro id' q hq
      by_cases heq : id' = id
      · subst heq
        simp [hm] at hq
      · rw [hm, sessions_delete_of_ne _ _ heq] at hq
        exact hkeep id' q hq
  | sweep nowAt hnow =>
    constructor
    · intro id hid
      obtain ⟨p, hp⟩ := Option.ne_none_iff_exists'.mp hid
      rw [hm, sessions_sweep_eq_some] at hp
      have hnone := hs.disjoint id (by simp [hp.1])
      simp [hm, sweep, hnone]
    · intro id q hq
      rw [hm, sessions_sweep_eq_some] at hq
      exact hkeep id q hq.1

theorem State.inv_of_reachable (h : (system idle absolute).Reachable s) : s.Inv :=
  StepSystem.reachable_invariant (fun _ h => State.inv_of_isInit h)
    (fun _ _ _ hs h => State.inv_step hs h) h

/-! ### Tombstones last -/

/-- `id` was deleted at `t₀` or later, unless the tombstone's time has run out. -/
structure State.Tombstoned (s : State) (id : String) (t₀ : ℤ) : Prop where
  inv : s.Inv
  since : t₀ ≤ s.clock
  kept : t₀ + postgresStoreTombstoneTTL < s.clock ∨
    ∃ τ, s.store.tombstones id = some τ ∧ t₀ ≤ τ

/-- A tombstone stays, or is renewed, until the clock has passed its lifetime. -/
theorem State.tombstoned_step (hs : s.Tombstoned id t₀) (h : s.step e = some s') :
    s'.Tombstoned id t₀ := by
  obtain ⟨hle, hclock, -, hstore⟩ := State.step_cases h
  have hsince := hs.since
  refine ⟨State.inv_step hs.inv h, by omega, ?_⟩
  rcases hs.kept with hover | ⟨τ, hτ, hge⟩
  · left
    omega
  · generalize hm : s'.store = m at hstore
    cases hstore with
    | same => exact .inr ⟨τ, hτ, hge⟩
    | put p hp => exact .inr ⟨τ, by rw [tombstones_put]; exact hτ, hge⟩
    | delete id' =>
      by_cases heq : id = id'
      · subst heq
        exact .inr ⟨e.now, tombstones_delete_self _ _ _, by omega⟩
      · exact .inr ⟨τ, by rw [tombstones_delete_of_ne _ _ heq]; exact hτ, hge⟩
    | sweep nowAt hnow =>
      -- `Sweep` drops only tombstones whose lifetime is over
      by_cases hold : e.now - postgresStoreTombstoneTTL ≤ τ
      · exact .inr ⟨τ, (tombstones_sweep_eq_some _).mpr ⟨hτ, hold⟩, hge⟩
      · left
        omega

theorem State.tombstoned_run (hs : s.Tombstoned id t₀)
    (h : (system idle absolute).run s es = some s') :
    s'.Tombstoned id t₀ :=
  StepSystem.run_invariant' (I := fun s => s.Tombstoned id t₀)
    (fun _ _ _ hs h => State.tombstoned_step hs h) h hs

/-- While the tombstone's time runs, the store has no session under the id. -/
theorem State.Tombstoned.sessions_eq_none (hs : s.Tombstoned id t₀)
    (h : s.clock ≤ t₀ + postgresStoreTombstoneTTL) :
    s.store.sessions id = none := by
  rcases hs.kept with hover | ⟨τ, hτ, -⟩
  · omega
  · by_contra hne
    rw [hs.inv.disjoint id hne] at hτ
    cases hτ

/-- `Delete` leaves a tombstone. -/
theorem State.tombstoned_of_deletes (hs : s.Inv) (hdel : s.Deletes e id) (h : s.step e = some s') :
    s'.Tombstoned id e.now := by
  obtain ⟨now, a⟩ := e
  have hinv := State.inv_step hs h
  obtain ⟨hle, hclock, -, -⟩ := State.step_cases h
  refine ⟨hinv, hclock.ge, Or.inr ⟨now, ?_, le_refl _⟩⟩
  rw [State.step, if_pos hle] at h
  rcases hdel with rfl | ⟨g, rfl, hg⟩
  · cases h
    exact tombstones_delete_self _ id now
  · simp only [State.perform, hg] at h
    cases h
    exact tombstones_delete_self _ id now

/-- A `Get` that returns a session found it by its lookup, and the session had not expired when
it was checked. -/
theorem sessions_of_getReturns {t : ℤ} {p : ℕ} (h : GetReturns idle absolute s t id p) :
    s.clock ≤ t ∧ s.store.sessions id = some p ∧
      (p < s.next → ∃ t' ≥ t, ¬ PastAbsolute s.store.absolute (s.heap p).created t') := by
  obtain ⟨g, s₁, es, s₂, t', hlookup, hes, hrun, hret⟩ := h
  obtain ⟨hle, hnoted⟩ := State.gets_lookup hlookup
  obtain ⟨-, hclock, hheap, -⟩ := State.step_cases hlookup
  obtain ⟨hclock', hheap'⟩ := run_extends hrun
  obtain ⟨id', hgets, hle', hexp⟩ := State.returns_getCheck.mp hret
  rw [gets_run hes hrun, hnoted] at hgets
  obtain ⟨q, hq, heq⟩ := Option.map_eq_some_iff.mp hgets
  cases heq
  refine ⟨hle, hq, fun hp => ⟨t', by simp only at hclock; omega, fun hpast => ?_⟩⟩
  -- neither the bounds nor the time of the login have changed since the lookup
  have habs : s₂.store.absolute = s.store.absolute :=
    (State.config_run hrun).2.trans (State.config_step hlookup).2
  have hcreated : (s₂.heap p).created = (s.heap p).created :=
    (hheap.trans hheap').created_eq p hp
  rw [← habs, ← hcreated] at hpast
  have : s₂.store.expired (s₂.heap p) t' = true := expiredAt_iff.mpr (.inl hpast)
  rw [hexp] at this
  cases this

/-- A `Get` that no other goroutine disturbs returns what its lookup found. -/
theorem getReturns_of_check {t t' : ℤ} {g : ℕ} {p : ℕ}
    (hlookup : s.step ⟨t, .getLookup g id⟩ = some s') (hret : s'.returns ⟨t', .getCheck g⟩ = some p)
    : GetReturns idle absolute s t id p :=
  ⟨g, s', [], s', t', hlookup, by simp, rfl, hret⟩

/-- Logout is final: after a `Delete` of `id`, whatever the goroutines do, no `Get` of `id` that
looks it up at most a tombstone's lifetime later returns a session; and no id is ever both
stored and tombstoned. -/
theorem logout_final (idle absolute : ℤ) :
    (∀ s id, (system idle absolute).Reachable s →
      ¬ (s.store.sessions id ≠ none ∧ s.store.tombstones id ≠ none)) ∧
    ∀ s e s₁ es s₂ id t p, (system idle absolute).Reachable s →
      s.Deletes e id → (system idle absolute).step s e = some s₁ →
      (system idle absolute).run s₁ es = some s₂ → t - e.now ≤ postgresStoreTombstoneTTL →
      ¬ GetReturns idle absolute s₂ t id p := by
  constructor
  · intro s id hs hboth
    exact hboth.2 ((State.inv_of_reachable hs).disjoint id hboth.1)
  · intro s e s₁ es s₂ id t p hs hdel hstep hrun ht hget
    obtain ⟨hle, hp, -⟩ := sessions_of_getReturns hget
    have htomb := State.tombstoned_run
      (State.tombstoned_of_deletes (State.inv_of_reachable hs) hdel hstep) hrun
    rw [htomb.sessions_eq_none (by omega)] at hp
    cases hp

/-- An empty store at time zero. -/
def State.start (idle absolute : ℤ) : State where
  clock := 0
  store := new idle absolute
  heap := fun _ => { id := "" }
  next := 0
  gets := fun _ => none

/-- A login, a logout at time 10 and a stale write-back at time 20: a `Get` at time 30 finds
nothing. -/
theorem logout_final_staleWrite : ∃ s s₁ s₂,
    (system 0 0).run (State.start 0 0) [⟨1, .newSession "sid" "c" none {} 1⟩, ⟨2, .put 0⟩]
      = some s ∧
    (system 0 0).step s ⟨10, .delete "sid"⟩ = some s₁ ∧
    (system 0 0).run s₁ [⟨20, .put 0⟩] = some s₂ ∧ ¬ GetReturns 0 0 s₂ 30 "sid" 0 := by
  obtain ⟨s₂, h⟩ : ∃ s₂, (system 0 0).run (State.start 0 0)
      ([⟨1, .newSession "sid" "c" none {} 1⟩, ⟨2, .put 0⟩] ++
        [⟨10, .delete "sid"⟩, ⟨20, .put 0⟩]) = some s₂ :=
    Option.isSome_iff_exists.mp (by decide)
  obtain ⟨s, hlogin, hrest⟩ := (system 0 0).run_append_eq_some.mp h
  obtain ⟨s₁, hdel, hput⟩ := (system 0 0).run_cons_eq_some.mp hrest
  have hreach : (system 0 0).Reachable s :=
    ⟨State.start 0 0, _, ⟨rfl, rfl, fun _ => rfl⟩, hlogin⟩
  exact ⟨s, s₁, s₂, hlogin, hdel, hput,
    (logout_final 0 0).2 s _ s₁ _ s₂ "sid" 30 0 hreach (.inl rfl) hdel hput (by decide)⟩

end MemoryStore

end Bff
