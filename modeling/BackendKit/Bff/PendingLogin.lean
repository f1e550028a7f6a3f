import BackendKit.GoStd.Time
import BackendKit.ToMathlib.AList
import Mathlib.Data.List.Induction

/-!
# Pending logins in memory

`MemoryPendingLoginStore` (`bff/pending_login.go`): the server-side half of a login between the
redirect to the authorization server and the callback, filed under the OAuth state.

Every method is one critical section, so a run of any number of goroutines is a sequence of
calls (`Op`), each with the clock readings it takes. `Clocked` says that the readings do not go
back. A store cannot be built over its bound: `MemoryPendingLoginStore.store` asks for room.

* `MemoryPendingLoginStore.Similar`: two stores that hold the same unexpired logins give the same
  results from then on (`Similar.log_eq`). That is why sweeping is invisible.
* `MemoryPendingLoginStore.Tracks`: the unexpired logins of the store are those that the log of
  the run says are pending.
* `MemoryPendingLoginStore.singleUse`: a login state is honoured at most once and in time, and the
  store stays bounded without losing live logins.
-/

open GoStd
open Function (update update_of_ne)

namespace Bff

/-- How long a login may take (`DefaultPendingLoginTTL`). -/
def defaultPendingLoginTTL : ℤ := 10 * Duration.minute

/-- The bound on the number of pending logins when none is given. -/
def defaultMaxPendingLogins : ℕ := 10000

/-- The server-side half of a login in flight. -/
structure PendingLogin where
  verifier : String := ""
  nonce : String := ""
  returnTo : String := ""
  created : ℤ := Time.zero
  deriving DecidableEq, Repr

/-- A zero creation time is set to now. -/
def PendingLogin.stamped (p : PendingLogin) (now : ℤ) : PendingLogin :=
  if p.created = Time.zero then { p with created := now } else p

/-- What `Put` can fail with. -/
inductive PutError where
  | emptyState
  /-- `ErrPendingLoginsFull`. -/
  | full
  /-- The login cannot be encoded; only the durable store does that. -/
  | encode (text : String)
  deriving DecidableEq, Repr

def PutError.text : PutError → String
  | emptyState => "bff: pending login: empty state"
  | full => "bff: too many pending logins"
  | encode text => text

/-- The in-memory store. -/
structure MemoryPendingLoginStore where
  m : AList fun _ : String => PendingLogin
  ttl : ℤ
  max : ℕ
  ttl_pos : 0 < ttl
  max_pos : 0 < max
  length_le : m.entries.length ≤ max

namespace MemoryPendingLoginStore

/-- The lifetime after `NewMemoryPendingLoginStore`. -/
def ttlOrDefault (ttl : ℤ) : ℤ := if ttl ≤ 0 then defaultPendingLoginTTL else ttl

/-- The bound after `NewMemoryPendingLoginStore`. -/
def maxOrDefault (max : ℤ) : ℕ := if max ≤ 0 then defaultMaxPendingLogins else max.toNat

theorem ttlOrDefault_pos (ttl : ℤ) : 0 < ttlOrDefault ttl := by
  unfold ttlOrDefault
  split
  · decide
  · omega

theorem maxOrDefault_pos (max : ℤ) : 0 < maxOrDefault max := by
  unfold maxOrDefault
  split
  · decide
  · omega

/-- `NewMemoryPendingLoginStore`. -/
def new (ttl max : ℤ) : MemoryPendingLoginStore where
  m := ∅
  ttl := ttlOrDefault ttl
  max := maxOrDefault max
  ttl_pos := ttlOrDefault_pos ttl
  max_pos := maxOrDefault_pos max
  length_le := Nat.zero_le _

variable (s : MemoryPendingLoginStore)

/-- The pending login has expired at `now`. -/
def expired (p : PendingLogin) (now : ℤ) : Bool := s.ttl < Time.sub now p.created

/-- `s.m[state] = p`, where there is room for it. -/
def store (state : String) (p : PendingLogin) (h : state ∈ s.m ∨ s.m.entries.length < s.max) :
    MemoryPendingLoginStore :=
  { s with
    m := s.m.insert state p
    length_le := by
      by_cases hmem : state ∈ s.m
      · rw [AList.length_insert_of_mem p hmem]
        exact s.length_le
      · rw [AList.length_insert_of_notMem p hmem]
        exact h.resolve_left hmem }

/-- `sweepLocked`, and `Sweep` under the lock: remove the expired logins. -/
def sweep (now : ℤ) : MemoryPendingLoginStore :=
  { s with
    m := s.m.filter fun _ p => !s.expired p now
    length_le := (AList.length_filter_le _ _).trans s.length_le }

/-- There is room unless the state is new and the store is full. -/
theorem room {s : MemoryPendingLoginStore} {state : String}
    (h : ¬ (state ∉ s.m ∧ s.max ≤ s.m.entries.length)) :
    state ∈ s.m ∨ s.m.entries.length < s.max := by
  rcases not_and_or.mp h with hmem | hlt
  · exact .inl (not_not.mp hmem)
  · exact .inr (not_le.mp hlt)

/-- Store `p` under `state`. The clock is read for a creation time that is missing (`now`) and,
when the store is full, by the sweep that makes room (`sweepNow`). -/
def put (state : String) (p : PendingLogin) (now sweepNow : ℤ) :
    MemoryPendingLoginStore × Option PutError :=
  if state = "" then (s, some .emptyState)
  else if hfull : state ∉ s.m ∧ s.max ≤ s.m.entries.length then
    let s' := s.sweep sweepNow
    if hfull' : s'.max ≤ s'.m.entries.length then (s', some .full)
    else (s'.store state (p.stamped now) (.inr (not_le.mp hfull')), none)
  else (s.store state (p.stamped now) (room hfull), none)

/-- Return and remove the pending login of `state`. -/
def take (state : String) (now : ℤ) : MemoryPendingLoginStore × Option PendingLogin :=
  match s.m.lookup state with
  | none => (s, none)
  | some p =>
    let s' := { s with
      m := s.m.erase state
      length_le := (AList.length_erase_le _ _).trans s.length_le }
    (s', if s.expired p now then none else some p)

/-! ### The unexpired logins -/

/-- The unexpired logins at `t`. -/
def view (t : ℤ) : String → Option PendingLogin :=
  fun state => (s.m.lookup state).filter fun p => !s.expired p t

/-- The number of unexpired logins at `t`. -/
def unexpired (t : ℤ) : ℕ := (s.m.filter fun _ p => !s.expired p t).entries.length

variable {s}

theorem expired_mono {p : PendingLogin} {t t' : ℤ} (h : s.expired p t = true) (ht : t ≤ t') :
    s.expired p t' = true := by
  simp only [expired, decide_eq_true_eq] at h ⊢
  exact h.trans_le (Time.sub_le_sub_left ht _)

theorem expired_congr {s' : MemoryPendingLoginStore} (h : s'.ttl = s.ttl) : s'.expired = s.expired := by
  funext p now
  simp only [expired, h]

/-- What is unexpired later is what is unexpired now and does not expire in between. -/
theorem view_of_le {t t' : ℤ} (ht : t ≤ t') (state : String) :
    s.view t' state = (s.view t state).filter fun p => !s.expired p t' := by
  unfold view
  rw [Option.filter_filter]
  congr 1
  ext p
  cases hp : s.expired p t with
  | false => simp
  | true => simp [expired_mono hp ht]

theorem lookup_sweep (now : ℤ) (state : String) :
    (s.sweep now).m.lookup state = s.view now state :=
  AList.lookup_filter _ _ _

/-- Sweeping removes nothing that is unexpired. -/
@[simp]
theorem view_sweep (now : ℤ) : (s.sweep now).view now = s.view now := by
  ext1 state
  show ((s.sweep now).m.lookup state).filter _ = _
  rw [lookup_sweep]
  exact (view_of_le le_rfl state).symm

/-- `Take` returns the login if it is there and unexpired, and removes it in any case. -/
theorem take_eq (s : MemoryPendingLoginStore) (state : String) (now : ℤ) :
    (s.take state now).2 = s.view now state ∧
      (s.take state now).1.view now = update (s.view now) state none := by
  unfold take
  cases hlookup : s.m.lookup state with
  | none =>
    have hview : s.view now state = none := by simp [view, hlookup]
    refine ⟨hview.symm, ?_⟩
    show s.view now = _
    rw [← hview, Function.update_eq_self]
  | some p =>
    refine ⟨by cases h : s.expired p now <;> simp [view, hlookup, h, Option.filter], ?_⟩
    ext1 state'
    show ((s.m.erase state).lookup state').filter (fun p => !s.expired p now) = _
    by_cases hstate : state' = state
    · subst hstate
      simp
    · rw [update_of_ne hstate, AList.lookup_erase_ne hstate]
      rfl

theorem view_store (state : String) (p : PendingLogin)
    (h : state ∈ s.m ∨ s.m.entries.length < s.max) (t : ℤ) :
    (s.store state p h).view t =
      update (s.view t) state ((some p).filter fun p => !s.expired p t) := by
  ext1 state'
  show ((s.m.insert state p).lookup state').filter (fun p => !s.expired p t) = _
  by_cases hstate : state' = state
  · subst hstate
    simp
  · rw [update_of_ne hstate, AList.lookup_insert_ne hstate]
    rfl

/-- Everything `Put` can do to a login with a state: the store is full of unexpired logins, or
the login is stored, after a sweep or without one. -/
theorem put_cases (s : MemoryPendingLoginStore) {state : String} (hne : state ≠ "")
    (p : PendingLogin) (now sweepNow : ℤ) :
    (s.put state p now sweepNow = (s.sweep sweepNow, some .full) ∧ state ∉ s.m ∧
        s.max ≤ s.unexpired sweepNow) ∨
      (¬ (state ∉ s.m ∧ s.max ≤ s.unexpired sweepNow) ∧
        ∃ s' hroom, (s' = s ∨ s' = s.sweep sweepNow) ∧
          s.put state p now sweepNow = (s'.store state (p.stamped now) hroom, none)) := by
  unfold put
  rw [if_neg hne]
  split
  next hfull =>
    dsimp only
    split
    next hfull' => exact .inl ⟨rfl, hfull.1, hfull'⟩
    next hroom =>
      exact .inr ⟨fun h => hroom h.2, s.sweep sweepNow, .inr (not_le.mp hroom), .inr rfl, rfl⟩
  next hroom =>
    refine .inr ⟨fun h => hroom ⟨h.1, ?_⟩, s, room hroom, .inl rfl, rfl⟩
    exact h.2.trans (AList.length_filter_le _ _)

/-- `Put` of a login with a state fails exactly if the state is new and the store is full of
unexpired logins. -/
theorem put_eq_error_iff {state : String} (hne : state ≠ "") (p : PendingLogin)
    (now sweepNow : ℤ) (err : PutError) :
    (s.put state p now sweepNow).2 = some err ↔
      err = .full ∧ state ∉ s.m ∧ s.max ≤ s.unexpired sweepNow := by
  rcases s.put_cases hne p now sweepNow with ⟨h, hfull⟩ | ⟨hroom, s', hroom', -, h⟩
  · simp [h, hfull, eq_comm]
  · rw [h]
    constructor
    · rintro ⟨⟩
    · rintro ⟨-, hfull⟩
      exact absurd hfull hroom

/-- What a `Put` leaves unexpired. -/
theorem view_put {state : String} (hne : state ≠ "") (p : PendingLogin) (now sweepNow : ℤ) :
    (s.put state p now sweepNow).1.view sweepNow =
      if (s.put state p now sweepNow).2 = none then
        update (s.view sweepNow) state
          ((some (p.stamped now)).filter fun p => !s.expired p sweepNow)
      else s.view sweepNow := by
  rcases s.put_cases hne p now sweepNow with ⟨h, -⟩ | ⟨-, s', hroom, hs', h⟩
  · simp [h]
  · rw [h, if_pos rfl]
    rw [view_store]
    rcases hs' with rfl | rfl
    · rfl
    · rw [view_sweep]
      rfl

/-! ### Runs -/

/-- A call, with its clock readings. -/
inductive Op where
  | put (state : String) (p : PendingLogin) (now sweepNow : ℤ)
  | take (state : String) (now : ℤ)
  | sweep (now : ℤ)
  deriving DecidableEq, Repr

/-- What a call returns. -/
inductive Outcome where
  | put (err : Option PutError)
  | take (p : Option PendingLogin)
  | sweep
  deriving DecidableEq, Repr

/-- Perform a call. -/
def step (s : MemoryPendingLoginStore) : Op → MemoryPendingLoginStore × Outcome
  | .put state p now sweepNow => ((s.put state p now sweepNow).1, .put (s.put state p now sweepNow).2)
  | .take state now => ((s.take state now).1, .take (s.take state now).2)
  | .sweep now => (s.sweep now, .sweep)

/-- The store after a sequence of calls. -/
def after (s : MemoryPendingLoginStore) (ops : List Op) : MemoryPendingLoginStore :=
  ops.foldl (fun s op => (s.step op).1) s

/-- The calls of a run with what they returned. -/
def log (s : MemoryPendingLoginStore) : List Op → List (Op × Outcome)
  | [] => []
  | op :: ops => (op, (s.step op).2) :: log (s.step op).1 ops

/-- What the `Take` calls of a run returned. -/
def takes (s : MemoryPendingLoginStore) (ops : List Op) : List (Option PendingLogin) :=
  (s.log ops).filterMap fun e =>
    match e.2 with
    | .take p => some p
    | _ => none

/-- The first clock reading of a call. -/
def Op.first : Op → ℤ
  | .put _ _ now _ => now
  | .take _ now => now
  | .sweep now => now

/-- The last clock reading of a call. -/
def Op.last : Op → ℤ
  | .put _ _ _ sweepNow => sweepNow
  | .take _ now => now
  | .sweep now => now

/-- The clock readings of a run do not go back, and start at `t` or later. -/
def Clocked (t : ℤ) : List Op → Prop
  | [] => True
  | op :: ops => t ≤ op.first ∧ op.first ≤ op.last ∧ Clocked op.last ops

/-- A call leaves the parameters alone. -/
theorem config_step (s : MemoryPendingLoginStore) (op : Op) :
    (s.step op).1.ttl = s.ttl ∧ (s.step op).1.max = s.max := by
  cases op with
  | sweep now => exact ⟨rfl, rfl⟩
  | take state now =>
    simp only [step, take]
    split <;> exact ⟨rfl, rfl⟩
  | put state p now sweepNow =>
    by_cases hne : state = ""
    · simp [step, put, hne]
    · simp only [step]
      rcases s.put_cases hne p now sweepNow with ⟨h, -⟩ | ⟨-, s', hroom, rfl | rfl, h⟩ <;> rw [h] <;>
        exact ⟨rfl, rfl⟩

/-- Two stores with the same parameters and the same unexpired logins at `t`. -/
structure Similar (t : ℤ) (s₁ s₂ : MemoryPendingLoginStore) : Prop where
  ttl_eq : s₁.ttl = s₂.ttl
  max_eq : s₁.max = s₂.max
  view_eq : s₁.view t = s₂.view t

namespace Similar

variable {t t' : ℤ} {s₁ s₂ : MemoryPendingLoginStore}

theorem expired_eq (h : Similar t s₁ s₂) : s₁.expired = s₂.expired := expired_congr h.ttl_eq

theorem mono (h : Similar t s₁ s₂) (ht : t ≤ t') : Similar t' s₁ s₂ where
  ttl_eq := h.ttl_eq
  max_eq := h.max_eq
  view_eq := by
    funext state
    rw [view_of_le ht, view_of_le ht, h.view_eq, h.expired_eq]

theorem trans {s₃ : MemoryPendingLoginStore} (h : Similar t s₁ s₂) (h' : Similar t s₂ s₃) :
    Similar t s₁ s₃ :=
  ⟨h.ttl_eq.trans h'.ttl_eq, h.max_eq.trans h'.max_eq, h.view_eq.trans h'.view_eq⟩

theorem unexpired_eq (h : Similar t s₁ s₂) : s₁.unexpired t = s₂.unexpired t := by
  apply AList.length_eq_of_lookup_eq
  intro state
  rw [AList.lookup_filter, AList.lookup_filter]
  exact congrFun h.view_eq state

/-- If one store is full of unexpired logins, the other one is, and holds no others. -/
theorem notMem_of_full (h : Similar t s₁ s₂) {state : String} (hnew : state ∉ s₁.m)
    (hfull : s₁.max ≤ s₁.unexpired t) : state ∉ s₂.m := by
  intro hmem
  obtain ⟨p, hp⟩ := Option.isSome_iff_exists.mp (AList.lookup_isSome.mpr hmem)
  -- The login can only be an expired one, and then the second store is over its bound.
  have hexpired : (!s₂.expired p t) = false := by
    have hview : s₂.view t state = none := by
      rw [← h.view_eq]
      simp [view, AList.lookup_eq_none.mpr hnew]
    simpa [view, hp, Option.filter] using hview
  have hlt : s₂.unexpired t < s₂.m.entries.length :=
    AList.length_filter_lt (p := fun _ p => !s₂.expired p t) hp hexpired
  have hle := s₂.length_le
  rw [h.unexpired_eq, h.max_eq] at hfull
  omega

theorem put_eq (h : Similar t s₁ s₂) (state : String) (p : PendingLogin) (now : ℤ) :
    (s₁.put state p now t).2 = (s₂.put state p now t).2 := by
  by_cases hne : state = ""
  · simp [put, hne]
  · have hiff : (state ∉ s₁.m ∧ s₁.max ≤ s₁.unexpired t) ↔
        (state ∉ s₂.m ∧ s₂.max ≤ s₂.unexpired t) := by
      constructor
      · rintro ⟨hnew, hfull⟩
        refine ⟨h.notMem_of_full hnew hfull, ?_⟩
        rwa [← h.max_eq, ← h.unexpired_eq]
      · rintro ⟨hnew, hfull⟩
        have hsymm : Similar t s₂ s₁ := ⟨h.ttl_eq.symm, h.max_eq.symm, h.view_eq.symm⟩
        refine ⟨hsymm.notMem_of_full hnew hfull, ?_⟩
        rwa [h.max_eq, h.unexpired_eq]
    apply Option.ext
    intro err
    rw [put_eq_error_iff hne, put_eq_error_iff hne, hiff]

/-- Similar stores return the same, and stay similar. -/
theorem step_eq (h : Similar t s₁ s₂) {op : Op} (hfirst : t ≤ op.first)
    (hlast : op.first ≤ op.last) :
    (s₁.step op).2 = (s₂.step op).2 ∧ Similar op.last (s₁.step op).1 (s₂.step op).1 := by
  have hop := h.mono (hfirst.trans hlast)
  have hconfig : (s₁.step op).1.ttl = (s₂.step op).1.ttl ∧
      (s₁.step op).1.max = (s₂.step op).1.max := by
    rw [(s₁.config_step op).1, (s₁.config_step op).2, (s₂.config_step op).1, (s₂.config_step op).2]
    exact ⟨h.ttl_eq, h.max_eq⟩
  suffices hsuff : (s₁.step op).2 = (s₂.step op).2 ∧
      (s₁.step op).1.view op.last = (s₂.step op).1.view op.last from
    ⟨hsuff.1, hconfig.1, hconfig.2, hsuff.2⟩
  cases op with
  | put state p now sweepNow =>
    have herr := hop.put_eq state p now
    refine ⟨congrArg Outcome.put herr, ?_⟩
    by_cases hne : state = ""
    · simpa [step, put, hne] using hop.view_eq
    · show (s₁.put state p now sweepNow).1.view sweepNow =
        (s₂.put state p now sweepNow).1.view sweepNow
      rw [view_put hne, view_put hne]
      simp only [Op.last] at herr hop
      rw [herr, hop.view_eq, hop.expired_eq]
  | take state now =>
    simp only [Op.last] at hop
    constructor
    · show Outcome.take (s₁.take state now).2 = Outcome.take (s₂.take state now).2
      rw [(s₁.take_eq state now).1, (s₂.take_eq state now).1, hop.view_eq]
    · show (s₁.take state now).1.view now = (s₂.take state now).1.view now
      rw [(s₁.take_eq state now).2, (s₂.take_eq state now).2, hop.view_eq]
  | sweep now =>
    refine ⟨rfl, ?_⟩
    show (s₁.sweep now).view now = (s₂.sweep now).view now
    rw [view_sweep, view_sweep]
    exact hop.view_eq

/-- From similar stores, the same calls have the same results. -/
theorem log_eq (h : Similar t s₁ s₂) {ops : List Op} (hclock : Clocked t ops) :
    s₁.log ops = s₂.log ops := by
  induction ops generalizing t s₁ s₂ with
  | nil => rfl
  | cons op ops ih =>
    obtain ⟨hfirst, hlast, hrest⟩ := hclock
    obtain ⟨houtcome, hnext⟩ := h.step_eq hfirst hlast
    rw [log, log, houtcome, ih hnext hrest]

end Similar

/-- A store is similar to what sweeping leaves of it. -/
theorem similar_sweep (s : MemoryPendingLoginStore) (now : ℤ) : Similar now s (s.sweep now) :=
  ⟨rfl, rfl, (view_sweep now).symm⟩

/-! ### What the log of a run says -/

/-- The call stored `p` under `state`. -/
def Stores (e : Op × Outcome) (state : String) (p : PendingLogin) : Prop :=
  ∃ q now sweepNow, e = (.put state q now sweepNow, .put none) ∧ p = q.stamped now

/-- The call took `p` from `state`. -/
def Takes (e : Op × Outcome) (state : String) (p : PendingLogin) : Prop :=
  ∃ now, e = (.take state now, .take (some p))

/-- The latest successful `Put` of `state` stored `p`, and it has not been taken since. -/
def Pending (log : List (Op × Outcome)) (state : String) (p : PendingLogin) : Prop :=
  ∃ pre e post, log = pre ++ e :: post ∧ Stores e state p ∧
    ∀ e' ∈ post, ∀ q, ¬ Stores e' state q ∧ ¬ Takes e' state q

/-- What one call makes of the login pending under `state`. -/
def track (state : String) (pending : Option PendingLogin) : Op × Outcome → Option PendingLogin
  | (.put state' q now _, .put none) => if state' = state then some (q.stamped now) else pending
  | (.take state' _, .take (some _)) => if state' = state then none else pending
  | _ => pending

theorem track_cases (state : String) (pending : Option PendingLogin) (e : Op × Outcome) :
    (∃ p, Stores e state p ∧ track state pending e = some p) ∨
      (∃ p, Takes e state p ∧ track state pending e = none) ∨
      ((∀ p, ¬ Stores e state p ∧ ¬ Takes e state p) ∧ track state pending e = pending) := by
  unfold track
  split
  next state' q now sweepNow =>
    split
    next h => exact .inl ⟨_, ⟨q, now, sweepNow, by rw [h], rfl⟩, rfl⟩
    next h =>
      refine .inr (.inr ⟨fun p => ⟨?_, ?_⟩, rfl⟩)
      · rintro ⟨_, _, _, heq, -⟩
        simp only [Prod.mk.injEq, Op.put.injEq, and_true] at heq
        exact h heq.1
      · rintro ⟨_, heq⟩
        cases heq
  next state' now p =>
    split
    next h => exact .inr (.inl ⟨p, ⟨now, by rw [h]⟩, rfl⟩)
    next h =>
      refine .inr (.inr ⟨fun p => ⟨?_, ?_⟩, rfl⟩)
      · rintro ⟨_, _, _, heq, -⟩
        cases heq
      · rintro ⟨_, heq⟩
        simp only [Prod.mk.injEq, Op.take.injEq] at heq
        exact h heq.1.1
  next hput htake =>
    refine .inr (.inr ⟨fun p => ⟨?_, ?_⟩, rfl⟩)
    · rintro ⟨q, now, sweepNow, rfl, -⟩
      exact hput _ _ _ _ rfl
    · rintro ⟨now, rfl⟩
      exact htake _ _ _ rfl

variable {state : String} {pending : String → Option PendingLogin} {e : Op × Outcome}
  {p : PendingLogin} {t : ℤ} {ops : List Op}

theorem Stores.unique {q : PendingLogin} (hp : Stores e state p) (hq : Stores e state q) :
    p = q := by
  obtain ⟨p', now, sweepNow, rfl, rfl⟩ := hp
  obtain ⟨q', now', sweepNow', heq, rfl⟩ := hq
  cases heq
  rfl

theorem pending_concat_iff {log : List (Op × Outcome)} :
    Pending (log ++ [e]) state p ↔
      Stores e state p ∨ (∀ q, ¬ Stores e state q ∧ ¬ Takes e state q) ∧ Pending log state p := by
  constructor
  · rintro ⟨pre, e', post, heq, hstores, hpost⟩
    rcases List.eq_nil_or_concat' post with rfl | ⟨post', e'', rfl⟩
    · obtain ⟨-, h⟩ := List.append_inj' heq rfl
      cases h
      exact .inl hstores
    · rw [← List.cons_append, ← List.append_assoc] at heq
      obtain ⟨rfl, h⟩ := List.append_inj' heq rfl
      cases h
      refine .inr ⟨hpost _ (by simp), pre, e', post', rfl, hstores, fun e'' he'' => ?_⟩
      exact hpost e'' (List.mem_append_left _ he'')
  · rintro (hstores | ⟨hnone, pre, e', post, rfl, hstores, hpost⟩)
    · exact ⟨log, e, [], rfl, hstores, by simp⟩
    · refine ⟨pre, e', post ++ [e], by simp, hstores, fun e'' he'' => ?_⟩
      rcases List.mem_append.mp he'' with he'' | he''
      · exact hpost e'' he''
      · obtain rfl := List.mem_singleton.mp he''
        exact hnone

/-- Tracking the calls one by one finds the pending login. -/
theorem pending_iff {log : List (Op × Outcome)} :
    Pending log state p ↔ log.foldl (track state) none = some p := by
  induction log using List.reverseRecOn with
  | nil =>
    constructor
    · rintro ⟨pre, e, post, heq, -⟩
      simp at heq
    · rintro ⟨⟩
  | append_singleton log e ih =>
    rw [pending_concat_iff, ih, List.foldl_append]
    show _ ↔ track state (log.foldl (track state) none) e = some p
    rcases track_cases state (log.foldl (track state) none) e with
      ⟨q, hq, h⟩ | ⟨q, hq, h⟩ | ⟨hnone, h⟩ <;> rw [h]
    · constructor
      · rintro (hp | ⟨hno, -⟩)
        · rw [hq.unique hp]
        · exact absurd hq (hno q).1
      · rintro ⟨⟩
        exact .inl hq
    · constructor
      · rintro (⟨_, _, _, rfl, -⟩ | ⟨hno, -⟩)
        · obtain ⟨_, heq⟩ := hq
          cases heq
        · exact absurd hq (hno q).2
      · rintro ⟨⟩
    · constructor
      · rintro (hp | ⟨-, hp⟩)
        · exact absurd hp (hnone p).1
        · exact hp
      · exact fun hp => .inr ⟨hnone, hp⟩

/-- The clock after a sequence of calls. -/
def clockAfter (t : ℤ) (ops : List Op) : ℤ := ops.foldl (fun _ op => op.last) t

theorem clocked_append {ops' : List Op} :
    Clocked t (ops ++ ops') ↔ Clocked t ops ∧ Clocked (clockAfter t ops) ops' := by
  induction ops generalizing t with
  | nil => simp [Clocked, clockAfter]
  | cons op ops ih =>
    simp only [List.cons_append, Clocked, ih, and_assoc]
    rfl

/-- The store holds of `pending`, at `t`, what has not expired. -/
def Tracks (s : MemoryPendingLoginStore) (t : ℤ) (pending : String → Option PendingLogin) : Prop :=
  ∀ state, s.view t state = (pending state).filter fun p => !s.expired p t

theorem Tracks.mono {s : MemoryPendingLoginStore} {t' : ℤ} (h : s.Tracks t pending) (ht : t ≤ t') :
    s.Tracks t' pending := by
  intro state
  rw [view_of_le ht, h state, Option.filter_filter]
  congr 1
  ext p
  cases hp : s.expired p t with
  | false => simp
  | true => simp [expired_mono hp ht]

/-- A call keeps the store in line with its log. -/
theorem Tracks.step {s : MemoryPendingLoginStore} (h : s.Tracks t pending) {op : Op}
    (hfirst : t ≤ op.first) (hlast : op.first ≤ op.last) :
    (s.step op).1.Tracks op.last fun state => track state (pending state) (op, (s.step op).2) := by
  have hexpired : (s.step op).1.expired = s.expired := expired_congr (s.config_step op).1
  have hop := h.mono (hfirst.trans hlast)
  intro state'
  rw [hexpired]
  cases op with
  | sweep now => exact (congrFun (view_sweep now) state').trans (hop state')
  | take state now =>
    obtain ⟨hresult, hview⟩ := s.take_eq state now
    simp only [Op.last] at hop
    show (s.take state now).1.view now state' =
      (track state' (pending state') (.take state now, .take (s.take state now).2)).filter
        fun p => !s.expired p now
    rw [hview]
    by_cases hstate : state' = state
    · -- What the `Take` did not return has expired.
      subst hstate
      rw [Function.update_self, hresult]
      cases hv : s.view now state' with
      | some p => simp [track]
      | none => exact hv.symm.trans (hop state')
    · rw [update_of_ne hstate, hop state']
      cases (s.take state now).2 <;> simp [track, Ne.symm hstate]
  | put state p now sweepNow =>
    simp only [Op.last] at hop
    show (s.put state p now sweepNow).1.view sweepNow state' =
      (track state' (pending state') (.put state p now sweepNow,
        .put (s.put state p now sweepNow).2)).filter fun p => !s.expired p sweepNow
    by_cases hne : state = ""
    · simpa [put, hne, track] using hop state'
    · rw [view_put hne]
      cases (s.put state p now sweepNow).2 with
      | some err => simpa [track] using hop state'
      | none =>
        by_cases hstate : state' = state
        · subst hstate
          simp [track]
        · rw [if_pos rfl, update_of_ne hstate, hop state']
          simp [track, Ne.symm hstate]

theorem Tracks.run {s : MemoryPendingLoginStore} (h : s.Tracks t pending) (hclock : Clocked t ops) :
    (s.after ops).Tracks (clockAfter t ops)
      fun state => (s.log ops).foldl (track state) (pending state) := by
  induction ops generalizing s t pending with
  | nil => exact h
  | cons op ops ih =>
    obtain ⟨hfirst, hlast, hrest⟩ := hclock
    exact ih (h.step hfirst hlast) hrest

theorem tracks_new (ttl max t : ℤ) : (new ttl max).Tracks t fun _ => none := by
  intro state
  simp [view, new]

/-- The parameters never change. -/
theorem config_after (s : MemoryPendingLoginStore) (ops : List Op) :
    (s.after ops).ttl = s.ttl ∧ (s.after ops).max = s.max := by
  induction ops generalizing s with
  | nil => exact ⟨rfl, rfl⟩
  | cons op ops ih =>
    obtain ⟨httl, hmax⟩ := ih (s.step op).1
    exact ⟨httl.trans (s.config_step op).1, hmax.trans (s.config_step op).2⟩

/-- `Take` succeeds exactly for a login that is pending and unexpired. -/
theorem take_eq_some_iff {ttl max : ℤ} {now : ℤ} (hclock : Clocked t (ops ++ [.take state now]))
    (p : PendingLogin) :
    (((new ttl max).after ops).take state now).2 = some p ↔
      Pending ((new ttl max).log ops) state p ∧ Time.sub now p.created ≤ ttlOrDefault ttl := by
  obtain ⟨hops, hnow, -⟩ := clocked_append.mp hclock
  have htracks := ((tracks_new ttl max t).run hops).mono (show clockAfter t ops ≤ now from hnow)
  rw [(take_eq _ state now).1, htracks state, Option.filter_eq_some_iff, pending_iff]
  refine and_congr_right fun _ => ?_
  have httl : ((new ttl max).after ops).ttl = ttlOrDefault ttl := (config_after _ ops).1
  simp [expired, httl]

/-- A call in the log of a run was made after the calls logged before it. -/
theorem log_eq_append {s : MemoryPendingLoginStore} {pre post : List (Op × Outcome)}
    (h : s.log ops = pre ++ e :: post) :
    ∃ ops₁ op ops₂, ops = ops₁ ++ op :: ops₂ ∧ pre = s.log ops₁ ∧
      e = (op, ((s.after ops₁).step op).2) := by
  induction ops generalizing s pre with
  | nil => simp [log] at h
  | cons op ops ih =>
    cases pre with
    | nil =>
      simp only [log, List.nil_append, List.cons.injEq] at h
      exact ⟨[], op, ops, rfl, rfl, h.1.symm⟩
    | cons e' pre =>
      simp only [log, List.cons_append, List.cons.injEq] at h
      obtain ⟨ops₁, op', ops₂, rfl, rfl, rfl⟩ := ih h.2
      exact ⟨op :: ops₁, op', ops₂, rfl, by rw [log, h.1], rfl⟩

/-- `ops'` is `ops` with more `Sweep` calls in it. -/
inductive Padded : List Op → List Op → Prop
  | nil : Padded [] []
  | cons (op : Op) {ops ops' : List Op} (h : Padded ops ops') : Padded (op :: ops) (op :: ops')
  | sweep (now : ℤ) {ops ops' : List Op} (h : Padded ops ops') : Padded ops (.sweep now :: ops')

/-- More `Sweep` calls change no result of a `Take`. -/
theorem takes_of_padded {ops' : List Op} (h : Padded ops ops') {s₁ s₂ : MemoryPendingLoginStore}
    (hsim : Similar t s₁ s₂) (hclock : Clocked t ops') :
    s₁.takes ops = s₂.takes ops' := by
  induction h generalizing t s₁ s₂ with
  | nil => rfl
  | cons op _ ih =>
    obtain ⟨hfirst, hlast, hrest⟩ := hclock
    obtain ⟨houtcome, hnext⟩ := hsim.step_eq hfirst hlast
    have htail := ih hnext hrest
    unfold takes at htail ⊢
    simp only [log, List.filterMap_cons, houtcome, htail]
  | sweep now _ ih =>
    -- Only the second run sweeps, and the stores stay similar.
    obtain ⟨hfirst, -, hrest⟩ := hclock
    exact ih ((hsim.mono hfirst).trans (similar_sweep s₂ now)) hrest

/-- What a run of calls from a new store keeps to. -/
structure SingleUse (s₀ : MemoryPendingLoginStore) (t : ℤ) (ops : List Op) : Prop where
  /-- The store stays bounded. -/
  bounded : (s₀.after ops).m.entries.length ≤ s₀.max
  /-- A `Take` succeeds exactly for a login that is pending and in time. -/
  take_iff : ∀ state now p, Clocked t (ops ++ [.take state now]) →
    (((s₀.after ops).take state now).2 = some p ↔
      Pending (s₀.log ops) state p ∧ Time.sub now p.created ≤ s₀.ttl)
  /-- Between two successful `Take`s of a state there is a successful `Put` of it. -/
  put_between : ∀ pre e mid e' post state p q, s₀.log ops = pre ++ e :: mid ++ e' :: post →
    Takes e state p → Takes e' state q → ∃ e'' ∈ mid, ∃ r, Stores e'' state r
  /-- A `Put` is refused exactly if the store is full of other unexpired logins. -/
  put_iff : ∀ state p now sweepNow err, state ≠ "" →
    (((s₀.after ops).put state p now sweepNow).2 = some err ↔
      err = .full ∧ state ∉ (s₀.after ops).m ∧ s₀.max ≤ (s₀.after ops).unexpired sweepNow)
  /-- A refused `Put` changes no result that comes after it. -/
  put_silent : ∀ state p now sweepNow rest, ((s₀.after ops).put state p now sweepNow).2 ≠ none →
    Clocked t (ops ++ .put state p now sweepNow :: rest) →
    ((s₀.after ops).put state p now sweepNow).1.log rest = (s₀.after ops).log rest
  /-- More `Sweep` calls change no result of a `Take`. -/
  sweep_silent : ∀ ops', Padded ops ops' → Clocked t ops' → s₀.takes ops' = s₀.takes ops

/-- Two successful `Take`s in a log have a successful `Put` between them, if the second one took a
login that was pending. -/
theorem exists_stores_between {pre mid : List (Op × Outcome)} {q : PendingLogin}
    (htake : Takes e state p) (hpending : Pending (pre ++ e :: mid) state q) :
    ∃ e' ∈ mid, ∃ r, Stores e' state r := by
  obtain ⟨pre', e', post, heq, hstores, hpost⟩ := hpending
  have hne : e ≠ e' := by
    rintro rfl
    obtain ⟨_, rfl⟩ := htake
    obtain ⟨_, _, _, hput, -⟩ := hstores
    cases hput
  -- The `Put` stands before the first `Take`, which is then after it, or between the two.
  rcases List.append_eq_append_iff.mp heq with ⟨l, rfl, hl⟩ | ⟨l, rfl, hl⟩
  · cases l with
    | nil => exact absurd (List.cons.inj hl).1 hne
    | cons _ l =>
      refine ⟨e', ?_, q, hstores⟩
      rw [(List.cons.inj hl).2]
      simp
  · cases l with
    | nil => exact absurd (List.cons.inj hl).1.symm hne
    | cons _ l =>
      have hmem : e ∈ post := by
        rw [(List.cons.inj hl).2]
        simp
      exact absurd htake (hpost e hmem p).2

/-- **A login state is honoured at most once and in time, and the store stays bounded without
losing live logins.** -/
theorem singleUse (ttl max t : ℤ) (ops : List Op) (hclock : Clocked t ops) :
    (new ttl max).SingleUse t ops := by
  obtain ⟨httl, hmax⟩ := config_after (new ttl max) ops
  refine ⟨?_, ?_, ?_, ?_, ?_, ?_⟩
  · rw [← hmax]
    exact ((new ttl max).after ops).length_le
  · intro state now p hnow
    exact take_eq_some_iff hnow p
  · intro pre e mid e' post state p q heq htake htake'
    obtain ⟨ops₁, op, ops₂, rfl, hlog, rfl⟩ := log_eq_append heq
    obtain ⟨now, hop⟩ := htake'
    simp only [Prod.mk.injEq] at hop
    obtain ⟨rfl, hop⟩ := hop
    have hnow : Clocked t (ops₁ ++ [.take state now]) := by
      obtain ⟨hops₁, hfirst, hlast, -⟩ := clocked_append.mp hclock
      exact clocked_append.mpr ⟨hops₁, hfirst, hlast, trivial⟩
    apply exists_stores_between htake
    rw [hlog]
    exact ((take_eq_some_iff hnow q).mp (Outcome.take.inj hop)).1
  · intro state p now sweepNow err hne
    rw [put_eq_error_iff hne, hmax]
  · intro state p now sweepNow rest herr hrest
    obtain ⟨-, -, -, hrest⟩ := clocked_append.mp hrest
    by_cases hne : state = ""
    · simp [put, hne]
    rcases ((new ttl max).after ops).put_cases hne p now sweepNow with ⟨h, -⟩ | ⟨-, _, _, -, h⟩
    · rw [h]
      exact ((similar_sweep _ sweepNow).log_eq hrest).symm
    · exact absurd (congrArg Prod.snd h) herr
  · intro ops' hpadded hclock'
    exact (takes_of_padded hpadded ⟨rfl, rfl, rfl⟩ hclock').symm

/-- A store with room for one login: a second one is refused while the first is live, the first
is taken once, and the clock readings are in order. -/
theorem singleUse_one :
    (new Duration.minute 1).SingleUse 0
        [.put "a" { verifier := "v" } 5 5, .put "b" {} 6 6, .take "a" 7, .take "a" 8] ∧
      (new Duration.minute 1).log
        [.put "a" { verifier := "v" } 5 5, .put "b" {} 6 6, .take "a" 7, .take "a" 8] =
      [(.put "a" { verifier := "v" } 5 5, .put none), (.put "b" {} 6 6, .put (some .full)),
        (.take "a" 7, .take (some { verifier := "v", created := 5 })), (.take "a" 8, .take none)] :=
  ⟨singleUse _ _ _ _ (by simp [Clocked, Op.first, Op.last]), by decide +kernel⟩

end MemoryPendingLoginStore

end Bff
