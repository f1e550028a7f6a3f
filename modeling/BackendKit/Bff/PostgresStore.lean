import BackendKit.Bff.Session
import BackendKit.ToMathlib.StepSystem
import Mathlib.Logic.Function.Basic

/-!
# The durable session store

`PostgresStore` (`bff/postgres_store.go`) and the system of goroutines, in any number of
processes, that share its table.

Each method runs one SQL statement, and `Get` a second one when the session it read has expired.
A statement is atomic; everything else a method does (reading the clock, taking a snapshot,
judging expiry) is a step of its own, so the steps of all calls interleave in every order.

* `PostgresStore.Codec` stands for `encoding/json` and the AEAD the store seals its rows with;
* `PostgresStore.put`, `delete`, `remove`, `sweep` and `select` are the statements;
* `PostgresStore.system` is the system of goroutines.

The tombstone of a deleted session is the row itself, marked by `deleted_at`. A `Delete` that
finds no row leaves no tombstone, and the removal of an expired row does not look at the mark.
`PostgresStore.not_logoutFinal` is a run in which a logged-out session comes back;
`PostgresStore.logout_final_of_orderly` says which steps have to be excluded for logout to be final.
-/

open GoStd
open Function (update update_of_ne update_self)

namespace Bff

/-- One row of the table. -/
structure Row (δ : Type) where
  data : δ
  createdAt : ℤ
  lastSeen : ℤ
  /-- Set by `Delete`: the row is a tombstone. -/
  deletedAt : Option ℤ

/-- The times of the snapshot lie in the years 0 to 9999, which `encoding/json` can write. -/
def SessionSnapshot.InYears (snap : SessionSnapshot) : Prop :=
  ∀ t ∈ [snap.accessExpiry, snap.created, snap.lastSeen], Time.year0 ≤ t ∧ t < Time.year10000

instance : DecidablePred SessionSnapshot.InYears :=
  fun _ => inferInstanceAs (Decidable (∀ t ∈ _, _))

namespace PostgresStore

/-- What the store uses of `encoding/json` (plaintexts `β`) and of its AEAD (column values `δ`).
`sealData` and `openData` take the session id as additional data. -/
structure Codec (β δ : Type) where
  marshal : SessionSnapshot → Option β
  unmarshal : β → Option SessionSnapshot
  sealData : String → β → Option δ
  openData : String → δ → Option β
  /-- The empty `bytea` that `Delete` leaves behind. -/
  wiped : δ

/-- An ideal codec: it loses nothing and opens exactly what it sealed, under the same id. -/
def Codec.ideal : Codec SessionSnapshot (Option (String × SessionSnapshot)) where
  marshal snap := some snap
  unmarshal plain := some plain
  sealData id plain := some (some (id, plain))
  openData id data :=
    match data with
    | some (id', plain) => if id' = id then some plain else none
    | none => none
  wiped := none

/-- The codec gives a sealed session back. -/
def Codec.RoundTrips (codec : Codec β δ) (snap : SessionSnapshot) : Prop :=
  ∃ plain data, codec.marshal snap = some plain ∧ codec.sealData snap.id plain = some data ∧
    codec.openData snap.id data = some plain ∧ codec.unmarshal plain = some snap

theorem Codec.roundTrips_ideal (snap : SessionSnapshot) : Codec.ideal.RoundTrips snap :=
  ⟨snap, some (snap.id, snap), rfl, rfl, if_pos rfl, rfl⟩

/-- What is documented of the encoding: `encoding/json` refuses a time it cannot write and loses
nothing of the others, and the AEAD opens what it sealed under the same id. -/
structure Codec.Documented (codec : Codec β δ) : Prop where
  refuses : ∀ snap, ¬ snap.InYears → codec.marshal snap = none
  lossless : ∀ snap plain, snap.InYears → codec.marshal snap = some plain →
    codec.unmarshal plain = some snap
  opens : ∀ id plain data, codec.sealData id plain = some data → codec.openData id data = some plain

/-- The session can be encoded and sealed. -/
def Codec.encodes (codec : Codec β δ) (snap : SessionSnapshot) : Bool :=
  ((codec.marshal snap).bind (codec.sealData snap.id)).isSome

/-- The codec that loses nothing and refuses what `encoding/json` refuses. -/
def Codec.strict : Codec SessionSnapshot (Option (String × SessionSnapshot)) :=
  { Codec.ideal with marshal := fun snap => if snap.InYears then some snap else none }

theorem Codec.documented_strict : Codec.strict.Documented where
  refuses snap h := if_neg h
  lossless _ plain hyears hmarshal := (if_pos hyears).symm.trans hmarshal ▸ rfl
  opens id plain data hseal := by
    cases hseal
    exact if_pos rfl

end PostgresStore

/-- The durable store: its configuration and its table. -/
structure PostgresStore (β δ : Type) where
  codec : PostgresStore.Codec β δ
  idle : ℤ
  absolute : ℤ
  rows : String → Option (Row δ)

namespace PostgresStore

variable {β δ : Type}

/-- The session has expired at `now`. -/
def expired (p : PostgresStore β δ) (created lastSeen now : ℤ) : Bool :=
  expiredAt p.idle p.absolute created lastSeen now

/-- `SELECT data … WHERE id = $1 AND deleted_at IS NULL`. -/
def select (p : PostgresStore β δ) (id : String) : Option δ :=
  match p.rows id with
  | some row => if row.deletedAt = none then some row.data else none
  | none => none

/-- Decrypt and decode a row's data; `none` when it is unreadable or belongs to another id. -/
def decode (p : PostgresStore β δ) (id : String) (data : δ) : Option SessionSnapshot :=
  match p.codec.openData id data with
  | none => none
  | some plain =>
    match p.codec.unmarshal plain with
    | none => none
    | some snap => if snap.id = id then some snap else none

/-- The live session stored under `id`, as `Get` reads it. -/
def stored (p : PostgresStore β δ) (id : String) : Option SessionSnapshot :=
  (p.select id).bind (p.decode id)

/-- `INSERT … ON CONFLICT (id) DO UPDATE … WHERE deleted_at IS NULL`: the update leaves
`created_at` as it is, and a tombstone alone. -/
def upsert (p : PostgresStore β δ) (id : String) (data : δ) (created lastSeen : ℤ) :
    PostgresStore β δ :=
  match p.rows id with
  | none =>
    { p with
      rows := update p.rows id
        (some { data, createdAt := created, lastSeen, deletedAt := none }) }
  | some row =>
    if row.deletedAt = none then
      { p with rows := update p.rows id (some { row with data, lastSeen }) }
    else p

/-- Store or replace a session. -/
def put (p : PostgresStore β δ) (snap : SessionSnapshot) : PostgresStore β δ :=
  match p.codec.marshal snap with
  | none => p
  | some plain =>
    match p.codec.sealData snap.id plain with
    | none => p
    | some data => p.upsert snap.id data snap.created snap.lastSeen

/-- `UPDATE … SET data = '\x', deleted_at = $2 WHERE id = $1`: without a row, nothing happens. -/
def delete (p : PostgresStore β δ) (id : String) (now : ℤ) : PostgresStore β δ :=
  match p.rows id with
  | none => p
  | some row =>
    { p with
      rows := update p.rows id
        (some { row with data := p.codec.wiped, deletedAt := some now }) }

/-- `DELETE … WHERE id = $1`. -/
def remove (p : PostgresStore β δ) (id : String) : PostgresStore β δ :=
  { p with rows := update p.rows id none }

/-- The `WHERE` clause of `Sweep`. -/
def swept (p : PostgresStore β δ) (row : Row δ) (now : ℤ) : Bool :=
  match row.deletedAt with
  | some deletedAt => deletedAt < now - postgresStoreTombstoneTTL
  | none =>
    (0 < p.absolute && row.createdAt ≤ now - p.absolute) ||
      (0 < p.idle && row.lastSeen ≤ now - p.idle)

/-- Remove expired sessions and old tombstones. -/
def sweep (p : PostgresStore β δ) (now : ℤ) : PostgresStore β δ :=
  { p with rows := fun id => (p.rows id).filter fun row => !p.swept row now }

/-! ### The system of goroutines -/

/-- What a call in progress will do next. -/
inductive Call where
  /-- `Get` has read and decoded a live row; its expiry is judged next. -/
  | selected (id : String) (snap : SessionSnapshot)
  /-- `Get` found the session expired; the row is removed next. -/
  | expired (id : String)
  /-- `Put` has taken its snapshot; the statement comes next. -/
  | putting (snap : SessionSnapshot)
  /-- `Delete` has read the clock; the statement comes next. -/
  | deleting (id : String) (at' : ℤ)
  /-- `Sweep` has read the clock; the statement comes next. -/
  | sweeping (at' : ℤ)

/-- The table, the sessions in memory and the calls in progress. -/
structure State (β δ : Type) where
  /-- The clock at the last step. -/
  clock : ℤ
  store : PostgresStore β δ
  heap : ℕ → Session
  /-- The first unused address of the heap. -/
  next : ℕ
  /-- The store call a goroutine is in. -/
  calls : ℕ → Option Call

/-- One atomic step of some goroutine. -/
inductive Action where
  /-- `NewSession`: a login builds a session. -/
  | newSession (id csrf : String) (ts : Option TokenSet) (user : UserInfo) (at' : ℤ)
  | touch (p : ℕ) (at' : ℤ)
  | setTokens (p : ℕ) (ts : Option TokenSet) (at' : ℤ)
  | setUser (p : ℕ) (user : UserInfo)
  | getSelect (g : ℕ) (id : String)
  | getCheck (g : ℕ)
  | getRemove (g : ℕ)
  | putSnapshot (g p : ℕ)
  | putExec (g : ℕ)
  | deleteNow (g : ℕ) (id : String)
  | deleteExec (g : ℕ)
  | sweepNow (g : ℕ)
  | sweepExec (g : ℕ)

/-- The goroutine whose store call a step belongs to. -/
def Action.caller : Action → Option ℕ
  | .getSelect g _ => some g
  | .getCheck g => some g
  | .getRemove g => some g
  | .putSnapshot g _ => some g
  | .putExec g => some g
  | .deleteNow g _ => some g
  | .deleteExec g => some g
  | .sweepNow g => some g
  | .sweepExec g => some g
  | _ => none

/-- A step and the clock reading it takes. -/
structure Event where
  now : ℤ
  action : Action

namespace State

/-- Change the session at address `p`, which some goroutine holds. -/
def modify (s : State β δ) (p : ℕ) (f : Session → Session) : Option (State β δ) :=
  if p < s.next then some { s with heap := update s.heap p (f (s.heap p)) } else none

/-- A goroutine that is in no store call starts one. -/
def begin (s : State β δ) (g : ℕ) (c : Option Call) : Option (State β δ) :=
  match s.calls g with
  | some _ => none
  | none => some { s with calls := update s.calls g c }

/-- The statement of a call runs and the call ends. -/
def exec (s : State β δ) (g : ℕ) (store : PostgresStore β δ) : State β δ :=
  { s with store, calls := update s.calls g none }

/-- Perform an action at time `now`. -/
def perform (s : State β δ) (now : ℤ) : Action → Option (State β δ)
  | .newSession id csrf ts user at' =>
    some { s with
      heap := update s.heap s.next (Session.new id csrf ts user at')
      next := s.next + 1 }
  | .touch p at' => s.modify p fun x => x.touch at'
  | .setTokens p ts at' => s.modify p fun x => x.setTokens ts at'
  | .setUser p user => s.modify p fun x => x.setUser user
  | .getSelect g id => s.begin g ((s.store.stored id).map (.selected id))
  | .getCheck g =>
    match s.calls g with
    | some (.selected id snap) =>
      if s.store.expired snap.created snap.lastSeen now then
        some { s with calls := update s.calls g (some (.expired id)) }
      else
        -- the caller gets a session of its own
        some { s with
          calls := update s.calls g none
          heap := update s.heap s.next (Session.ofSnapshot snap)
          next := s.next + 1 }
    | _ => none
  | .getRemove g =>
    match s.calls g with
    | some (.expired id) => some (s.exec g (s.store.remove id))
    | _ => none
  | .putSnapshot g p => if p < s.next then s.begin g (some (.putting (s.heap p).snapshot)) else none
  | .putExec g =>
    match s.calls g with
    | some (.putting snap) => some (s.exec g (s.store.put snap))
    | _ => none
  | .deleteNow g id => s.begin g (some (.deleting id now))
  | .deleteExec g =>
    match s.calls g with
    | some (.deleting id at') => some (s.exec g (s.store.delete id at'))
    | _ => none
  | .sweepNow g => s.begin g (some (.sweeping now))
  | .sweepExec g =>
    match s.calls g with
    | some (.sweeping at') => some (s.exec g (s.store.sweep at'))
    | _ => none

/-- A step is taken at a time not before the last one. -/
def step (s : State β δ) (e : Event) : Option (State β δ) :=
  if s.clock ≤ e.now then (s.perform e.now e.action).map fun s' => { s' with clock := e.now }
  else none

/-- The step `e` completes a `Delete` of `id`. -/
def Deletes (s : State β δ) (e : Event) (id : String) : Prop :=
  ∃ g at', e.action = .deleteExec g ∧ s.calls g = some (.deleting id at')

/-- The session a `Get` returns by the step `e`: it has not expired. -/
def returns (s : State β δ) (e : Event) : Option SessionSnapshot :=
  match e.action with
  | .getCheck g =>
    match s.calls g with
    | some (.selected _ snap) =>
      if s.clock ≤ e.now ∧ s.store.expired snap.created snap.lastSeen e.now = false then some snap
      else none
    | _ => none
  | _ => none

end State

/-- All interleavings of the calls of goroutines that share one table. -/
def system (codec : Codec β δ) (idle absolute : ℤ) : StepSystem (State β δ) Event where
  IsInit s := s.store = { codec, idle, absolute, rows := fun _ => none } ∧ s.next = 0 ∧
    ∀ g, s.calls g = none
  step := State.step

/-- A `Get` of `id` whose `SELECT` runs in the state `s` at time `t` can return `snap`, whatever
the other goroutines do before it has judged the expiry. -/
def GetReturns (codec : Codec β δ) (idle absolute : ℤ) (s : State β δ) (t : ℤ) (id : String)
    (snap : SessionSnapshot) : Prop :=
  ∃ g s₁ es s₂ t', s.step ⟨t, .getSelect g id⟩ = some s₁ ∧
    (∀ e ∈ es, e.action.caller ≠ some g) ∧ (system codec idle absolute).run s₁ es = some s₂ ∧
    s₂.returns ⟨t', .getCheck g⟩ = some snap

/-- Logout is final: once a `Delete` of `id` has completed, no `Get` of `id` less than a
tombstone's lifetime later returns a session. -/
def LogoutFinal (codec : Codec β δ) (idle absolute : ℤ) : Prop :=
  ∀ s e s₁ es s₂ id t snap, (system codec idle absolute).Reachable s → s.Deletes e id →
    (system codec idle absolute).step s e = some s₁ →
    (system codec idle absolute).run s₁ es = some s₂ → t - e.now < postgresStoreTombstoneTTL →
    ¬ GetReturns codec idle absolute s₂ t id snap

/-! ### The statements on one row -/

section Rows

variable (p : PostgresStore β δ)

/-- The row of `id` is a tombstone, marked with the time `τ`. -/
def Tombstone (id : String) (τ : ℤ) : Prop :=
  ∃ row, p.rows id = some row ∧ row.deletedAt = some τ

variable {p}

variable {id : String} {τ : ℤ} {snap : SessionSnapshot} {now : ℤ} {id' : String}

/-- A tombstone is not a session. -/
theorem Tombstone.select_eq_none (h : p.Tombstone id τ) : p.select id = none := by
  obtain ⟨row, hrow, hdel⟩ := h
  simp [select, hrow, hdel]

/-- A statement on another row leaves a tombstone alone. -/
theorem Tombstone.congr {q : PostgresStore β δ} (h : p.Tombstone id τ)
    (hrows : q.rows id = p.rows id) : q.Tombstone id τ := by
  obtain ⟨row, hrow, hdel⟩ := h
  exact ⟨row, hrows.trans hrow, hdel⟩

theorem rows_put_of_ne (hne : id ≠ snap.id) : (p.put snap).rows id = p.rows id := by
  unfold PostgresStore.put upsert
  repeat' split
  all_goals first | rfl | simp [update_of_ne hne]

/-- `Put` leaves a tombstone alone. -/
theorem Tombstone.put (h : p.Tombstone id τ) (snap : SessionSnapshot) :
    (p.put snap).Tombstone id τ := by
  by_cases heq : id = snap.id
  · refine h.congr ?_
    obtain ⟨row, hrow, hdel⟩ := h
    subst heq
    unfold PostgresStore.put
    repeat' split
    all_goals simp [upsert, hrow, hdel]
  · exact h.congr (rows_put_of_ne heq)

/-- A `Delete` that finds a row leaves a tombstone. -/
theorem tombstone_delete (h : p.rows id ≠ none) : (p.delete id now).Tombstone id now := by
  obtain ⟨row, hrow⟩ := Option.ne_none_iff_exists'.mp h
  exact ⟨{ row with data := p.codec.wiped, deletedAt := some now }, by simp [delete, hrow], rfl⟩

/-- A `Delete` of `id` marks a tombstone anew; a `Delete` of another id leaves it alone. -/
theorem Tombstone.delete (h : p.Tombstone id τ) (id' : String) (now : ℤ) :
    ∃ τ', (p.delete id' now).Tombstone id τ' := by
  by_cases heq : id = id'
  · subst heq
    obtain ⟨row, hrow, -⟩ := h
    exact ⟨now, tombstone_delete (by simp [hrow])⟩
  · refine ⟨τ, h.congr ?_⟩
    unfold PostgresStore.delete
    split
    · rfl
    · exact update_of_ne heq _ _

/-- `Sweep` keeps the tombstones whose lifetime is not over. -/
theorem Tombstone.sweep (h : p.Tombstone id τ) (hnow : now - postgresStoreTombstoneTTL ≤ τ) :
    (p.sweep now).Tombstone id τ := by
  obtain ⟨row, hrow, hdel⟩ := h
  refine ⟨row, ?_, hdel⟩
  have hkeep : p.swept row now = false := by
    simp only [swept, hdel, decide_eq_false_iff_not]
    omega
  simp [PostgresStore.sweep, hrow, hkeep]

/-- The removal of another row leaves a tombstone alone. -/
theorem Tombstone.remove (h : p.Tombstone id τ) (hne : id ≠ id') :
    (p.remove id').Tombstone id τ :=
  h.congr (update_of_ne hne _ _)

/-- Under an id that has no tombstone, `Get` reads the data of the last upsert. -/
theorem stored_upsert {p : PostgresStore β δ} {data : δ} {created lastSeen : ℤ}
    (hlive : ∀ row, p.rows id = some row → row.deletedAt = none) :
    (p.upsert id data created lastSeen).stored id = p.decode id data := by
  cases hrow : p.rows id with
  | none => simp [upsert, hrow, stored, select, decode]
  | some row => simp [upsert, hrow, hlive row hrow, stored, select, decode]

/-- A session written where there is no tombstone is what `Get` reads next. -/
theorem stored_put {p : PostgresStore β δ}
    (hlive : ∀ row, p.rows snap.id = some row → row.deletedAt = none)
    (hcodec : p.codec.RoundTrips snap) : (p.put snap).stored snap.id = some snap := by
  obtain ⟨plain, data, hmarshal, hseal, hopen, hunmarshal⟩ := hcodec
  have hput : p.put snap = p.upsert snap.id data snap.created snap.lastSeen := by
    simp only [put, hmarshal, hseal]
  rw [hput, stored_upsert hlive]
  simp [decode, hopen, hunmarshal]

/-- What `Get` reads depends on the row and the codec only. -/
theorem stored_congr {q : PostgresStore β δ} (hcodec : q.codec = p.codec)
    (hrows : q.rows id = p.rows id) : q.stored id = p.stored id := by
  have hdecode : q.decode id = p.decode id := by
    funext data
    simp only [decode, hcodec]
  simp only [stored, select, hrows, hdecode]

/-- `Get` returns a session of the id it was asked for. -/
theorem id_of_stored (h : p.stored id = some snap) : snap.id = id := by
  obtain ⟨data, -, hdecode⟩ := Option.bind_eq_some_iff.mp h
  unfold decode at hdecode
  split at hdecode
  · cases hdecode
  split at hdecode
  · cases hdecode
  split at hdecode
  · rename_i hid
    cases hdecode
    exact hid
  · cases hdecode

theorem codec_put (snap : SessionSnapshot) : (p.put snap).codec = p.codec := by
  unfold PostgresStore.put upsert
  repeat' split
  all_goals rfl

/-- `Put` writes the row of the session: it can be encoded, and the row is not a tombstone. -/
def writes (p : PostgresStore β δ) (snap : SessionSnapshot) : Bool :=
  p.codec.encodes snap && (p.rows snap.id).all fun row => row.deletedAt = none

/-- A `Put` that does not write changes nothing. -/
theorem put_of_writes_eq_false {p : PostgresStore β δ} (h : p.writes snap = false) :
    p.put snap = p := by
  unfold put upsert
  unfold writes Codec.encodes at h
  split
  · rfl
  split
  · rfl
  split
  · simp_all
  · split
    · simp_all
    · rfl

/-- After a `Put` that writes, `Get` reads the session that was put. -/
theorem stored_put_of_writes {p : PostgresStore β δ} (hcodec : p.codec.Documented)
    (h : p.writes snap = true) :
    (p.put snap).stored snap.id = some snap := by
  simp only [writes, Codec.encodes, Bool.and_eq_true, Option.isSome_iff_exists, Option.bind_eq_some_iff] at h
  obtain ⟨⟨data, plain, hmarshal, hseal⟩, hlive⟩ := h
  have hyears : snap.InYears := by
    by_contra hnot
    rw [hcodec.refuses snap hnot] at hmarshal
    cases hmarshal
  refine stored_put ?_ ⟨plain, data, hmarshal, hseal, hcodec.opens _ _ _ hseal,
    hcodec.lossless snap plain hyears hmarshal⟩
  intro row hrow
  simpa [hrow] using hlive

/-- After a `Put`, `Get` reads the session that was put, or nothing if there is a tombstone, or what it
read before if the session cannot be encoded. -/
theorem stored_put_cases {snap' : SessionSnapshot} (hcodec : p.codec.Documented)
    (h : (p.put snap).stored snap.id = some snap') :
    snap' = snap ∨ p.codec.encodes snap = false ∧ p.stored snap.id = some snap' := by
  cases hwrites : p.writes snap with
  | true =>
    rw [stored_put_of_writes hcodec hwrites] at h
    exact .inl (Option.some.inj h).symm
  | false =>
    rw [put_of_writes_eq_false hwrites] at h
    refine .inr ⟨?_, h⟩
    by_contra hencodes
    rw [Bool.not_eq_false] at hencodes
    -- there is a tombstone then, and `Get` does not look past it
    cases hrow : p.rows snap.id with
    | none => simp [writes, hencodes, hrow] at hwrites
    | some row =>
      have hdeleted : row.deletedAt ≠ none := by simpa [writes, hencodes, hrow] using hwrites
      obtain ⟨τ, hτ⟩ := Option.ne_none_iff_exists'.mp hdeleted
      have htomb : p.Tombstone snap.id τ := ⟨row, hrow, hτ⟩
      rw [stored, htomb.select_eq_none] at h
      cases h

theorem stored_of_stored_remove (h : (p.remove id).stored id' = some snap) :
    p.stored id' = some snap := by
  by_cases heq : id' = id
  · subst heq
    simp [PostgresStore.remove, stored, select] at h
  · have hsame : (p.remove id).stored id' = p.stored id' :=
      stored_congr rfl (update_of_ne heq _ _)
    exact hsame ▸ h

theorem stored_of_stored_delete (h : (p.delete id now).stored id' = some snap) :
    p.stored id' = some snap := by
  unfold PostgresStore.delete at h
  split at h
  · exact h
  · rename_i row hrow
    by_cases heq : id' = id
    · subst heq
      simp [stored, select] at h
    · rw [← h]
      symm
      exact stored_congr rfl (update_of_ne heq _ _)

theorem stored_of_stored_sweep (h : (p.sweep now).stored id = some snap) :
    p.stored id = some snap := by
  cases hrow : (p.sweep now).rows id with
  | none => simp [stored, select, hrow] at h
  | some row =>
    have hsame : (p.sweep now).stored id = p.stored id :=
      stored_congr rfl (hrow.trans (Option.filter_eq_some_iff.mp hrow).1.symm)
    exact hsame ▸ h

end Rows

/-! ### What one step can do -/

namespace State

/-- The ways a step can change the table. -/
inductive StoreChange (s : State β δ) (e : Event) : PostgresStore β δ → Prop
  | same : StoreChange s e s.store
  | put (g : ℕ) (snap : SessionSnapshot) (ha : e.action = .putExec g)
      (hc : s.calls g = some (.putting snap)) : StoreChange s e (s.store.put snap)
  | delete (g : ℕ) (id : String) (at' : ℤ) (ha : e.action = .deleteExec g)
      (hc : s.calls g = some (.deleting id at')) : StoreChange s e (s.store.delete id at')
  | remove (g : ℕ) (id : String) (ha : e.action = .getRemove g)
      (hc : s.calls g = some (.expired id)) : StoreChange s e (s.store.remove id)
  | sweep (g : ℕ) (at' : ℤ) (ha : e.action = .sweepExec g)
      (hc : s.calls g = some (.sweeping at')) : StoreChange s e (s.store.sweep at')

/-- What a step does to the call of a goroutine: it is left alone, or it moves on, and a clock
reading it keeps is the current one. -/
inductive CallChange (s : State β δ) (now : ℤ) (g : ℕ) : Option Call → Prop
  | same : CallChange s now g (s.calls g)
  | done : CallChange s now g none
  | selected (id : String) (snap : SessionSnapshot) (h : s.store.stored id = some snap) :
      CallChange s now g (some (.selected id snap))
  | expired (id : String) : CallChange s now g (some (.expired id))
  | putting (p : ℕ) : CallChange s now g (some (.putting (s.heap p).snapshot))
  | deleting (id : String) : CallChange s now g (some (.deleting id now))
  | sweeping : CallChange s now g (some (.sweeping now))

variable {s : State β δ} {now : ℤ} {g : ℕ} {s' : State β δ}

/-- A call that starts or moves on touches the goroutine it belongs to only. -/
theorem callChange_update {c : Option Call} (hc : CallChange s now g c) (g' : ℕ) :
    CallChange s now g' (update s.calls g c g') := by
  by_cases heq : g' = g
  · subst heq
    rw [update_self]
    exact hc
  · rw [update_of_ne heq]
    exact .same

theorem begin_cases {c : Option Call} (h : s.begin g c = some s') :
    s'.store = s.store ∧ s'.calls = update s.calls g c := by
  unfold begin at h
  split at h
  · cases h
  · cases h
    exact ⟨rfl, rfl⟩

theorem modify_cases {p : ℕ} {f : Session → Session} (h : s.modify p f = some s') :
    s'.store = s.store ∧ s'.calls = s.calls := by
  unfold modify at h
  split at h
  · cases h
    exact ⟨rfl, rfl⟩
  · cases h

/-- Everything an action can do to the table and to the calls in progress. -/
theorem perform_cases {a : Action} (h : s.perform now a = some s') :
    StoreChange s ⟨now, a⟩ s'.store ∧ ∀ g, CallChange s now g (s'.calls g) := by
  cases a with
  | newSession id csrf ts user at' =>
    cases h
    exact ⟨.same, fun _ => .same⟩
  | touch p at' | setTokens p ts at' | setUser p user =>
    simp only [perform] at h
    obtain ⟨hstore, hcalls⟩ := modify_cases h
    rw [hstore, hcalls]
    exact ⟨.same, fun _ => .same⟩
  | getSelect g id =>
    simp only [perform] at h
    obtain ⟨hstore, hcalls⟩ := begin_cases h
    rw [hstore, hcalls]
    refine ⟨.same, callChange_update ?_⟩
    cases hst : s.store.stored id with
    | none => exact .done
    | some snap => exact .selected id snap hst
  | getCheck g =>
    simp only [perform] at h
    split at h
    · split at h
      · rename_i id snap _ _
        cases h
        exact ⟨.same, callChange_update (.expired id)⟩
      · cases h
        exact ⟨.same, callChange_update .done⟩
    · cases h
  | getRemove g =>
    simp only [perform] at h
    split at h
    · rename_i id hc
      cases h
      exact ⟨.remove g id rfl hc, callChange_update .done⟩
    · cases h
  | putSnapshot g p =>
    simp only [perform] at h
    split at h
    · obtain ⟨hstore, hcalls⟩ := begin_cases h
      rw [hstore, hcalls]
      exact ⟨.same, callChange_update (.putting p)⟩
    · cases h
  | putExec g =>
    simp only [perform] at h
    split at h
    · rename_i snap hc
      cases h
      exact ⟨.put g snap rfl hc, callChange_update .done⟩
    · cases h
  | deleteNow g id =>
    simp only [perform] at h
    obtain ⟨hstore, hcalls⟩ := begin_cases h
    rw [hstore, hcalls]
    exact ⟨.same, callChange_update (.deleting id)⟩
  | deleteExec g =>
    simp only [perform] at h
    split at h
    · rename_i id at' hc
      cases h
      exact ⟨.delete g id at' rfl hc, callChange_update .done⟩
    · cases h
  | sweepNow g =>
    simp only [perform] at h
    obtain ⟨hstore, hcalls⟩ := begin_cases h
    rw [hstore, hcalls]
    exact ⟨.same, callChange_update .sweeping⟩
  | sweepExec g =>
    simp only [perform] at h
    split at h
    · rename_i at' hc
      cases h
      exact ⟨.sweep g at' rfl hc, callChange_update .done⟩
    · cases h

/-- Everything a step can do to the clock, the table and the calls in progress. -/
theorem step_cases {e : Event} (h : s.step e = some s') :
    s.clock ≤ e.now ∧ s'.clock = e.now ∧ StoreChange s e s'.store ∧
      ∀ g, CallChange s e.now g (s'.calls g) := by
  unfold step at h
  split at h
  · rename_i hle
    obtain ⟨s₁, h₁, rfl⟩ := Option.map_eq_some_iff.mp h
    obtain ⟨hstore, hcalls⟩ := perform_cases h₁
    exact ⟨hle, rfl, hstore, hcalls⟩
  · cases h

/-- A call in progress is not disturbed by what other goroutines do. -/
theorem calls_perform {a : Action} (h : s.perform now a = some s') (hg : a.caller ≠ some g) :
    s'.calls g = s.calls g := by
  cases a with
  | newSession id csrf ts user at' =>
    cases h
    rfl
  | touch p at' | setTokens p ts at' | setUser p user =>
    simp only [perform] at h
    rw [(modify_cases h).2]
  | getSelect g' id | deleteNow g' id | sweepNow g' =>
    have hne : g ≠ g' := fun heq => hg (by rw [heq]; rfl)
    simp only [perform] at h
    rw [(begin_cases h).2, update_of_ne hne]
  | putSnapshot g' p =>
    have hne : g ≠ g' := fun heq => hg (by rw [heq]; rfl)
    simp only [perform] at h
    split at h
    · rw [(begin_cases h).2, update_of_ne hne]
    · cases h
  | getCheck g' =>
    have hne : g ≠ g' := fun heq => hg (by rw [heq]; rfl)
    simp only [perform] at h
    split at h
    · split at h <;> cases h <;> exact update_of_ne hne _ _
    · cases h
  | getRemove g' | putExec g' | deleteExec g' | sweepExec g' =>
    have hne : g ≠ g' := fun heq => hg (by rw [heq]; rfl)
    simp only [perform] at h
    split at h
    · cases h
      exact update_of_ne hne _ _
    · cases h

/-- A call in progress is not disturbed by the steps of other goroutines. -/
theorem calls_step {e : Event} (h : s.step e = some s') (hg : e.action.caller ≠ some g) :
    s'.calls g = s.calls g := by
  unfold step at h
  split at h
  · obtain ⟨s₁, h₁, rfl⟩ := Option.map_eq_some_iff.mp h
    show s₁.calls g = s.calls g
    exact calls_perform h₁ hg
  · cases h

/-- The `SELECT` of a `Get` notes the session it read. -/
theorem calls_select {t : ℤ} {id : String} (h : s.step ⟨t, .getSelect g id⟩ = some s') :
    s.clock ≤ t ∧ s'.calls g = (s.store.stored id).map (.selected id) := by
  simp only [step, perform] at h
  split at h
  · rename_i hle
    obtain ⟨s₁, h₁, rfl⟩ := Option.map_eq_some_iff.mp h
    refine ⟨hle, ?_⟩
    change s₁.calls g = _
    rw [(begin_cases h₁).2, update_self]
  · cases h

/-- A `Get` returns the session it read, if that has not expired by the check. -/
theorem returns_getCheck {t : ℤ} {snap : SessionSnapshot} :
    s.returns ⟨t, .getCheck g⟩ = some snap ↔ ∃ id, s.calls g = some (.selected id snap) ∧
      s.clock ≤ t ∧ s.store.expired snap.created snap.lastSeen t = false := by
  simp only [returns]
  rcases s.calls g with _ | c
  · simp
  · cases c with
    | selected id snap' =>
      simp only [Option.ite_none_right_eq_some, Option.some.injEq, Call.selected.injEq]
      constructor
      · rintro ⟨h, rfl⟩
        exact ⟨id, ⟨rfl, rfl⟩, h⟩
      · rintro ⟨_, ⟨_, rfl⟩, h⟩
        exact ⟨h, rfl⟩
    | expired id => simp
    | putting snap' => simp
    | deleting id at' => simp
    | sweeping at' => simp

end State

variable {codec : Codec β δ} {idle absolute : ℤ}

variable {s s' : State β δ} {es : List Event} {e : Event} {id : String}

theorem calls_run {g : ℕ} (hes : ∀ e ∈ es, e.action.caller ≠ some g)
    (h : (system codec idle absolute).run s es = some s') : s'.calls g = s.calls g :=
  StepSystem.run_invariant (P := fun _ e => e.action.caller ≠ some g)
    (I := fun t => t.calls g = s.calls g) (fun _ _ _ hs hg h => (State.calls_step h hg).trans hs)
    (StepSystem.everyStep_of_forall_mem s hes) h rfl

/-- The clock does not run backwards along a run. -/
theorem clock_le_of_run (h : (system codec idle absolute).run s es = some s') :
    s.clock ≤ s'.clock := by
  refine StepSystem.run_relation (R := fun s s' : State β δ => s.clock ≤ s'.clock)
    (fun _ => le_refl _) (fun _ _ _ => le_trans) ?_ h
  intro s e s' hstep
  obtain ⟨hle, hclock, -, -⟩ := State.step_cases hstep
  exact hclock ▸ hle

/-- No step changes the codec and the configured bounds. -/
theorem State.StoreChange.config {p : PostgresStore β δ} (h : State.StoreChange s e p) :
    p.codec = s.store.codec ∧ p.idle = s.store.idle ∧
      p.absolute = s.store.absolute := by
  cases h with
  | same | remove | sweep => exact ⟨rfl, rfl, rfl⟩
  | put g snap =>
    unfold PostgresStore.put upsert
    repeat' split
    all_goals exact ⟨rfl, rfl, rfl⟩
  | delete g id at' =>
    unfold PostgresStore.delete
    split <;> exact ⟨rfl, rfl, rfl⟩

theorem State.config_step (h : s.step e = some s') :
    s'.store.codec = s.store.codec ∧ s'.store.idle = s.store.idle ∧
      s'.store.absolute = s.store.absolute :=
  (State.step_cases h).2.2.1.config

theorem State.config_run (h : (system codec idle absolute).run s es = some s') :
    s'.store.codec = s.store.codec ∧ s'.store.idle = s.store.idle ∧
      s'.store.absolute = s.store.absolute :=
  StepSystem.run_relation (R := fun s s' : State β δ => s'.store.codec = s.store.codec ∧
      s'.store.idle = s.store.idle ∧ s'.store.absolute = s.store.absolute)
    (fun _ => ⟨rfl, rfl, rfl⟩)
    (fun _ _ _ h h' => ⟨h'.1.trans h.1, h'.2.1.trans h.2.1, h'.2.2.trans h.2.2⟩)
    (fun _ _ _ h => State.config_step h) h

theorem State.config_of_reachable (h : (system codec idle absolute).Reachable s) :
    s.store.codec = codec ∧ s.store.idle = idle ∧ s.store.absolute = absolute := by
  obtain ⟨s₀, es, ⟨hstore, -, -⟩, hrun⟩ := h
  obtain ⟨hcodec, hidle, habs⟩ := State.config_run hrun
  rw [hstore] at hcodec hidle habs
  exact ⟨hcodec, hidle, habs⟩

/-- A `Get` that returns a session read it by its `SELECT`, and the session had not expired when
it was checked. -/
theorem stored_of_getReturns {t : ℤ} {snap : SessionSnapshot}
    (h : GetReturns codec idle absolute s t id snap) :
    s.clock ≤ t ∧ s.store.stored id = some snap ∧
      ∃ t' ≥ t, ¬ PastAbsolute s.store.absolute snap.created t' := by
  obtain ⟨g, s₁, es, s₂, t', hselect, hes, hrun, hret⟩ := h
  obtain ⟨hle, hnoted⟩ := State.calls_select hselect
  obtain ⟨-, hclock, -, -⟩ := State.step_cases hselect
  have hclock' := clock_le_of_run hrun
  obtain ⟨id', hcalls, hle', hexp⟩ := State.returns_getCheck.mp hret
  rw [calls_run hes hrun, hnoted] at hcalls
  obtain ⟨snap', hsnap, heq⟩ := Option.map_eq_some_iff.mp hcalls
  cases heq
  refine ⟨hle, hsnap, t', by simp only at hclock; omega, fun hpast => ?_⟩
  have habs : s₂.store.absolute = s.store.absolute :=
    (State.config_run hrun).2.2.trans (State.config_step hselect).2.2
  rw [← habs] at hpast
  have : s₂.store.expired snap.created snap.lastSeen t' = true := expiredAt_iff.mpr (.inl hpast)
  rw [hexp] at this
  cases this

/-- A `Get` that no other goroutine disturbs returns what its `SELECT` read. -/
theorem getReturns_of_check {t t' : ℤ} {g : ℕ} {snap : SessionSnapshot}
    (hselect : s.step ⟨t, .getSelect g id⟩ = some s')
    (hret : s'.returns ⟨t', .getCheck g⟩ = some snap) :
    GetReturns codec idle absolute s t id snap :=
  ⟨g, s', [], s', t', hselect, by simp, rfl, hret⟩

/-! ### When logout is final -/

/-- A step that does not disturb the logout of `id` at `t₀`. A `Get` that removes the row of an expired
session does not find that it has become a tombstone meanwhile. And a `Sweep` in the lifetime of the
tombstone has read a clock that is not past that lifetime, counted from the reading in the row: a
`Delete` reads the clock before its statement runs. -/
structure Orderly (id : String) (t₀ : ℤ) (s : State β δ) (e : Event) : Prop where
  remove_live : ∀ g row, e.action = .getRemove g → s.calls g = some (.expired id) →
    s.store.rows id = some row → row.deletedAt = none
  sweep_kept : ∀ g at' τ, e.action = .sweepExec g → s.calls g = some (.sweeping at') →
    s.store.Tombstone id τ → e.now < t₀ + postgresStoreTombstoneTTL →
    at' - postgresStoreTombstoneTTL ≤ τ

/-- Only the removal of a row and a `Sweep` can be disorderly. -/
theorem orderly_of_action {t₀ : ℤ} (hrem : ∀ g, e.action ≠ .getRemove g)
    (hsweep : ∀ g, e.action ≠ .sweepExec g) : Orderly id t₀ s e :=
  ⟨fun g _ ha => absurd ha (hrem g), fun g _ _ ha => absurd ha (hsweep g)⟩

/-- `id` has a tombstone, unless its time since `t₀` has run out. -/
def State.Tombstoned (s : State β δ) (id : String) (t₀ : ℤ) : Prop :=
  t₀ + postgresStoreTombstoneTTL ≤ s.clock ∨ ∃ τ, s.store.Tombstone id τ

/-- In an orderly step a tombstone stays until the clock has passed its lifetime. -/
theorem State.tombstoned_step {t₀ : ℤ} (hs : s.Tombstoned id t₀) (ho : Orderly id t₀ s e)
    (h : s.step e = some s') :
    s'.Tombstoned id t₀ := by
  obtain ⟨hle, hclock, hstore, -⟩ := State.step_cases h
  unfold State.Tombstoned at hs ⊢
  by_cases hover : t₀ + postgresStoreTombstoneTTL ≤ e.now
  · exact .inl (hclock ▸ hover)
  obtain ⟨τ, htomb⟩ := hs.resolve_left (by omega)
  right
  generalize hm : s'.store = m at hstore
  cases hstore with
  | same => exact ⟨τ, htomb⟩
  | put g snap ha hc => exact ⟨τ, htomb.put snap⟩
  | delete g id' at' ha hc => exact htomb.delete id' at'
  | remove g id' ha hc =>
    refine ⟨τ, htomb.remove ?_⟩
    -- the removed row is live, so it is not the tombstone
    rintro rfl
    obtain ⟨row, hrow, hdel⟩ := htomb
    rw [ho.remove_live g row ha hc hrow] at hdel
    cases hdel
  | sweep g at' ha hc =>
    exact ⟨τ, htomb.sweep (ho.sweep_kept g at' τ ha hc htomb (not_le.mp hover))⟩

/-- A `Delete` that finds a row leaves a tombstone. -/
theorem State.tombstoned_of_deletes (t₀ : ℤ) (hdel : s.Deletes e id) (hrow : s.store.rows id ≠ none)
    (h : s.step e = some s') :
    s'.Tombstoned id t₀ := by
  obtain ⟨now, a⟩ := e
  obtain ⟨g, at', rfl, hc⟩ := hdel
  obtain ⟨hle, -, -, -⟩ := State.step_cases h
  simp only [State.step, if_pos hle, State.perform, hc] at h
  cases h
  exact .inr ⟨at', tombstone_delete hrow⟩

/-- Logout is final where the `Delete` of `id` finds a row and every later step is orderly: no `Get` of
`id` less than a tombstone's lifetime after the `Delete` has completed returns a session. -/
theorem logout_final_of_orderly (codec : Codec β δ) (idle absolute : ℤ) (s : State β δ) (e : Event)
    (s₁ : State β δ) (es : List Event) (s₂ : State β δ) (id : String) (t : ℤ)
    (snap : SessionSnapshot) (hdel : s.Deletes e id) (hrow : s.store.rows id ≠ none)
    (hstep : (system codec idle absolute).step s e = some s₁)
    (hrun : (system codec idle absolute).run s₁ es = some s₂)
    (horderly : (system codec idle absolute).EveryStep (Orderly id e.now) s₁ es)
    (ht : t - e.now < postgresStoreTombstoneTTL) :
    ¬ GetReturns codec idle absolute s₂ t id snap := by
  intro hget
  obtain ⟨hle, hstored, -⟩ := stored_of_getReturns hget
  have htomb : s₂.Tombstoned id e.now :=
    StepSystem.run_invariant (I := fun s => s.Tombstoned id e.now)
      (fun _ _ _ hs ho h => State.tombstoned_step hs ho h) horderly hrun
      (State.tombstoned_of_deletes e.now hdel hrow hstep)
  rcases htomb with hover | ⟨τ, hkept⟩
  · omega
  · rw [stored, hkept.select_eq_none] at hstored
    cases hstored

/-- An empty table at time zero. -/
def State.start (codec : Codec β δ) (idle absolute : ℤ) : State β δ where
  clock := 0
  store := { codec, idle, absolute, rows := fun _ => none }
  heap := fun _ => { id := "" }
  next := 0
  calls := fun _ => none

section Runs

open Duration (minute)

/-- A login, and a request that fetches the session a minute later. -/
def loginAndFetch : List Event :=
  [⟨0, .newSession "sid" "csrf" none {} 0⟩, ⟨0, .putSnapshot 0 0⟩, ⟨0, .putExec 0⟩,
    ⟨minute, .getSelect 1 "sid"⟩, ⟨minute, .getCheck 1⟩]

/-- The session idles out and another `Get` removes its row. -/
def idleOut : List Event :=
  [⟨40 * minute, .getSelect 2 "sid"⟩, ⟨40 * minute, .getCheck 2⟩, ⟨40 * minute, .getRemove 2⟩,
    ⟨41 * minute, .deleteNow 3 "sid"⟩]

/-- The request that fetched the session touches it and writes it back. -/
def staleWrite : List Event :=
  [⟨42 * minute, .touch 1 (42 * minute)⟩, ⟨42 * minute, .putSnapshot 1 1⟩,
    ⟨42 * minute, .putExec 1⟩]

/-- A session that idled out has no row left when the user logs out, so the logout leaves no
tombstone and a stale write-back brings the session back a minute later. -/
theorem not_logoutFinal : ¬ LogoutFinal Codec.ideal (30 * minute) 0 := by
  intro hfinal
  obtain ⟨snap, h⟩ : ∃ snap, ((system Codec.ideal (30 * minute) 0).run
      (State.start Codec.ideal (30 * minute) 0)
      ((loginAndFetch ++ idleOut) ++ (⟨41 * minute, .deleteExec 3⟩ :: staleWrite))).bind
        (fun s₂ => (s₂.step ⟨43 * minute, .getSelect 4 "sid"⟩).bind
          fun s₃ => s₃.returns ⟨43 * minute, .getCheck 4⟩) = some snap :=
    Option.isSome_iff_exists.mp (by decide +kernel)
  obtain ⟨s₂, hrun, h⟩ := Option.bind_eq_some_iff.mp h
  obtain ⟨s₃, hselect, hret⟩ := Option.bind_eq_some_iff.mp h
  obtain ⟨s, hbefore, hrest⟩ := (StepSystem.run_append_eq_some _).mp hrun
  obtain ⟨s₁, hdel, hafter⟩ := (StepSystem.run_cons_eq_some _).mp hrest
  -- the `Delete` that completes is the one of the session's id
  have hcall : s.calls 3 = some (.deleting "sid" (41 * minute)) := by
    have : ((system Codec.ideal (30 * minute) 0).run (State.start Codec.ideal (30 * minute) 0)
        (loginAndFetch ++ idleOut)).map (fun s => s.calls 3) =
          some (some (.deleting "sid" (41 * minute))) := rfl
    rw [hbefore] at this
    exact Option.some.inj this
  exact hfinal s ⟨41 * minute, .deleteExec 3⟩ s₁ staleWrite s₂ "sid" (43 * minute) snap
    ⟨_, _, ⟨rfl, rfl, fun _ => rfl⟩, hbefore⟩ ⟨3, _, rfl, hcall⟩ hdel hafter (by decide)
    (getReturns_of_check hselect hret)

/-- A user logs out of a live session, with a minute between the clock reading and the statement: the
stale write-back of a request that fetched it before does not bring it back. -/
theorem logout_final_of_orderly_staleWrite : ∃ s s₁ s₂,
    (system Codec.ideal (30 * minute) 0).run (State.start Codec.ideal (30 * minute) 0)
      (loginAndFetch ++ [⟨2 * minute, .deleteNow 3 "sid"⟩]) = some s ∧
    (system Codec.ideal (30 * minute) 0).step s ⟨3 * minute, .deleteExec 3⟩ = some s₁ ∧
    (system Codec.ideal (30 * minute) 0).run s₁ staleWrite = some s₂ ∧
    ∀ snap, ¬ GetReturns Codec.ideal (30 * minute) 0 s₂ (43 * minute) "sid" snap := by
  obtain ⟨s₂, h⟩ : ∃ s₂, (system Codec.ideal (30 * minute) 0).run
      (State.start Codec.ideal (30 * minute) 0)
      ((loginAndFetch ++ [⟨2 * minute, .deleteNow 3 "sid"⟩]) ++
        (⟨3 * minute, .deleteExec 3⟩ :: staleWrite)) = some s₂ :=
    Option.isSome_iff_exists.mp (by decide +kernel)
  obtain ⟨s, hbefore, hrest⟩ := (StepSystem.run_append_eq_some _).mp h
  obtain ⟨s₁, hdel, hafter⟩ := (StepSystem.run_cons_eq_some _).mp hrest
  obtain ⟨hcall, hrow⟩ : s.calls 3 = some (.deleting "sid" (2 * minute)) ∧
      (s.store.rows "sid").isSome = true := by
    have : ((system Codec.ideal (30 * minute) 0).run (State.start Codec.ideal (30 * minute) 0)
        (loginAndFetch ++ [⟨2 * minute, .deleteNow 3 "sid"⟩])).map
          (fun s => (s.calls 3, (s.store.rows "sid").isSome)) =
            some (some (.deleting "sid" (2 * minute)), true) := rfl
    rw [hbefore] at this
    exact Prod.mk.inj (Option.some.inj this)
  have horderly : (system Codec.ideal (30 * minute) 0).EveryStep (Orderly "sid" (3 * minute)) s₁
      staleWrite :=
    (StepSystem.everyStep_of_forall_mem (P := fun e : Event =>
      (∀ g, e.action ≠ .getRemove g) ∧ ∀ g, e.action ≠ .sweepExec g) s₁
      (by simp [staleWrite])).imp fun _ _ h => orderly_of_action h.1 h.2
  refine ⟨s, s₁, s₂, hbefore, hdel, hafter, fun snap => ?_⟩
  exact logout_final_of_orderly Codec.ideal (30 * minute) 0 s _ s₁ staleWrite s₂ "sid" _ snap
    ⟨3, _, rfl, hcall⟩ (Option.isSome_iff_ne_none.mp hrow) hdel hafter horderly (by decide)

end Runs

end PostgresStore

end Bff
