import BackendKit.Bff.PendingLogin
import Mathlib.Logic.Function.Basic

/-!
# Pending logins in PostgreSQL

`PostgresPendingLoginStore` (`bff/pending_login.go`), and whether it agrees with
`MemoryPendingLoginStore`.

Every method makes one SQL statement, and statements are atomic and succeed, so a store is a
table and a call is a function on it. The encoding and the AEAD are a parameter (`Codec`), with
what is assumed about them in `Codec.Lawful`. The random nonce of a `Put` comes with the call.

The two stores are run side by side on the same calls and clock readings. `Mirrors` is what ties
the table to the map: they hold the same logins, except that the table still holds expired ones
that a full map has dropped to make room. Two things break it. `Sweep` compares instants where
everything else compares a `time.Duration`, which is cut off at its largest value; and a `Take` whose
clock has gone back may find a dropped login (`Dropped`) live again, in the table only.
`agree_of_agreeable` is the agreement of all runs in which neither happens.
-/

open GoStd
open Function (update update_of_ne)
open Duration (maxValue minute second)

namespace Bff

namespace PostgresPendingLoginStore

/-- What the store uses of `encoding/json` (plaintexts `β`) and of its AEAD (column values `δ`,
nonces `ν`). The state is the additional data. -/
structure Codec (ν β δ : Type) where
  marshal : PendingLogin → Except String β
  unmarshal : β → Option PendingLogin
  sealData : ν → String → β → δ
  openData : String → δ → Option β

/-- The encoding loses nothing of a login created in the years 0 to 9999, and the AEAD opens
exactly what it sealed under the same state. -/
structure Codec.Lawful {ν β δ : Type} (codec : Codec ν β δ) : Prop where
  lossless : ∀ p : PendingLogin, Time.year0 ≤ p.created → p.created < Time.year10000 →
    ∃ plain, codec.marshal p = .ok plain ∧ codec.unmarshal plain = some p
  open_iff : ∀ state data plain,
    codec.openData state data = some plain ↔ ∃ nonce, data = codec.sealData nonce state plain

/-- One row of the table. -/
structure Row (δ : Type) where
  data : δ
  createdAt : ℤ

end PostgresPendingLoginStore

/-- The durable store: its configuration and its table. -/
structure PostgresPendingLoginStore (ν β δ : Type) where
  codec : PostgresPendingLoginStore.Codec ν β δ
  ttl : ℤ
  rows : String → Option (PostgresPendingLoginStore.Row δ)

namespace PostgresPendingLoginStore

variable {ν β δ : Type}

/-- `NewPostgresPendingLoginStore` on an empty table. -/
def new (codec : Codec ν β δ) (ttl : ℤ) : PostgresPendingLoginStore ν β δ where
  codec := codec
  ttl := MemoryPendingLoginStore.ttlOrDefault ttl
  rows := fun _ => none

variable (s : PostgresPendingLoginStore ν β δ)

/-- `INSERT … ON CONFLICT (state) DO UPDATE`. -/
def upsert (state : String) (data : δ) (createdAt : ℤ) : PostgresPendingLoginStore ν β δ :=
  { s with rows := update s.rows state (some { data, createdAt }) }

/-- `DELETE … WHERE state = $1`. -/
def delete (state : String) : PostgresPendingLoginStore ν β δ :=
  { s with rows := update s.rows state none }

/-- Store `p` under `state`. -/
def put (state : String) (p : PendingLogin) (now : ℤ) (nonce : ν) :
    PostgresPendingLoginStore ν β δ × Option PutError :=
  if state = "" then (s, some .emptyState)
  else
    match s.codec.marshal (p.stamped now) with
    | .error text => (s, some (.encode text))
    | .ok plain =>
      (s.upsert state (s.codec.sealData nonce state plain) (p.stamped now).created, none)

/-- Decrypt and decode a row's data; `none` when it is unreadable. -/
def decode (state : String) (data : δ) : Option PendingLogin :=
  (s.codec.openData state data).bind s.codec.unmarshal

/-- Return and remove the pending login of `state`: `DELETE … RETURNING data`. -/
def take (state : String) (now : ℤ) : PostgresPendingLoginStore ν β δ × Option PendingLogin :=
  match s.rows state with
  | none => (s, none)
  | some row =>
    match s.decode state row.data with
    | none => (s.delete state, none)
    | some p => (s.delete state, if s.ttl < Time.sub now p.created then none else some p)

/-- Remove expired pending logins: `DELETE … WHERE created_at < $1`. -/
def sweep (now : ℤ) : PostgresPendingLoginStore ν β δ :=
  { s with rows := fun state => (s.rows state).filter fun row => !(row.createdAt < now - s.ttl : Bool) }

open MemoryPendingLoginStore (Op Outcome)

/-- Perform a call. The durable store never makes room, so the second clock reading of a `Put`
is not taken. -/
def step : Op × ν → PostgresPendingLoginStore ν β δ × Outcome
  | (.put state p now _, nonce) =>
    ((s.put state p now nonce).1, .put (s.put state p now nonce).2)
  | (.take state now, _) => ((s.take state now).1, .take (s.take state now).2)
  | (.sweep now, _) => (s.sweep now, .sweep)

/-- What the calls of a run return. -/
def outcomes (s : PostgresPendingLoginStore ν β δ) : List (Op × ν) → List Outcome
  | [] => []
  | op :: ops => (s.step op).2 :: outcomes (s.step op).1 ops

/-! ### Side by side with the memory store -/

/-- A `Put` that finds the map full sweeps it to make room. -/
def MakesRoom (mem : MemoryPendingLoginStore) : Op → Prop
  | .put state _ _ _ => state ≠ "" ∧ state ∉ mem.m ∧ mem.max ≤ mem.m.entries.length
  | _ => False

instance (mem : MemoryPendingLoginStore) : ∀ op, Decidable (MakesRoom mem op)
  | .put _ _ _ _ => inferInstanceAs (Decidable (_ ∧ _))
  | .take _ _ => inferInstanceAs (Decidable False)
  | .sweep _ => inferInstanceAs (Decidable False)

/-- The logins that a full map has dropped to make room and the table still has. -/
abbrev Dropped := String → Option PendingLogin

namespace Dropped

/-- The map makes room: it drops what has expired at `now`. -/
def makeRoom (dropped : Dropped) (mem : MemoryPendingLoginStore) (now : ℤ) : Dropped :=
  fun state => ((mem.m.lookup state).filter fun p => mem.expired p now).or (dropped state)

/-- The dropped logins after a call. A `Put` replaces that of its state, a `Take` removes it, and a
`Sweep` removes those that are too old by their instant. -/
def after (dropped : Dropped) (mem : MemoryPendingLoginStore) : Op → Dropped
  | .put state p now sweepNow =>
    if state = "" then dropped
    else if MakesRoom mem (.put state p now sweepNow) then
      update (dropped.makeRoom mem sweepNow) state none
    else update dropped state none
  | .take state _ => update dropped state none
  | .sweep now => fun state => (dropped state).filter fun p => !(p.created < now - mem.ttl : Bool)

end Dropped

/-- The table holds `p` under `state`. -/
def Holds (s : PostgresPendingLoginStore ν β δ) (state : String) (p : PendingLogin) : Prop :=
  ∃ row, s.rows state = some row ∧ s.decode state row.data = some p ∧ row.createdAt = p.created

/-- The table holds what the map holds. What else it holds are the `dropped` logins. -/
structure Mirrors (dropped : Dropped) (mem : MemoryPendingLoginStore)
    (pg : PostgresPendingLoginStore ν β δ) : Prop where
  lawful : pg.codec.Lawful
  ttl_eq : pg.ttl = mem.ttl
  held : ∀ state p, mem.m.lookup state = some p → pg.Holds state p
  dropped : ∀ state row, mem.m.lookup state = none → pg.rows state = some row →
    ∃ p, dropped state = some p ∧ pg.decode state row.data = some p ∧ row.createdAt = p.created

namespace Mirrors

variable {dropped : Dropped} {mem : MemoryPendingLoginStore} {pg : PostgresPendingLoginStore ν β δ}

/-- The map makes room: what it drops stays in the table. -/
theorem drop (h : Mirrors dropped mem pg) (now : ℤ) :
    Mirrors (dropped.makeRoom mem now) (mem.sweep now) pg where
  lawful := h.lawful
  ttl_eq := h.ttl_eq
  held state p hp := by
    rw [MemoryPendingLoginStore.lookup_sweep] at hp
    exact h.held state p (Option.filter_eq_some_iff.mp hp).1
  dropped state row hnone hrow := by
    rw [MemoryPendingLoginStore.lookup_sweep] at hnone
    cases hlookup : mem.m.lookup state with
    | none =>
      obtain ⟨p, hp, hrest⟩ := h.dropped state row hlookup hrow
      exact ⟨p, by simpa [Dropped.makeRoom, hlookup] using hp, hrest⟩
    | some p =>
      -- The map held the login until now, so it has just expired.
      obtain ⟨row', hrow', hrest⟩ := h.held state p hlookup
      obtain rfl : row = row' := Option.some.inj (hrow.symm.trans hrow')
      have hexpired : mem.expired p now = true := by
        simpa [MemoryPendingLoginStore.view, hlookup, Option.filter] using hnone
      exact ⟨p, by simp [Dropped.makeRoom, hlookup, Option.filter, hexpired], hrest⟩

/-- Both stores file the same login. -/
theorem store (h : Mirrors dropped mem pg) {state : String} {p : PendingLogin} {plain : β}
    (hroom : state ∈ mem.m ∨ mem.m.entries.length < mem.max)
    (hplain : pg.codec.unmarshal plain = some p) (nonce : ν) :
    Mirrors (update dropped state none) (mem.store state p hroom)
      (pg.upsert state (pg.codec.sealData nonce state plain) p.created) where
  lawful := h.lawful
  ttl_eq := h.ttl_eq
  held state' p' hp' := by
    by_cases hstate : state' = state
    · subst hstate
      obtain rfl : p = p' := by simpa [MemoryPendingLoginStore.store] using hp'
      refine ⟨_, Function.update_self _ _ _, ?_, rfl⟩
      have hopen := (h.lawful.open_iff state' _ plain).mpr ⟨nonce, rfl⟩
      simp [decode, upsert, hopen, hplain]
    · have hp : mem.m.lookup state' = some p' := by
        simpa [MemoryPendingLoginStore.store, AList.lookup_insert_ne hstate] using hp'
      obtain ⟨row, hrow, hrest⟩ := h.held state' p' hp
      exact ⟨row, by simpa [upsert, update_of_ne hstate] using hrow, hrest⟩
  dropped state' row hnone hrow := by
    by_cases hstate : state' = state
    · subst hstate
      simp [MemoryPendingLoginStore.store] at hnone
    · have hnone' : mem.m.lookup state' = none := by
        simpa [MemoryPendingLoginStore.store, AList.lookup_insert_ne hstate] using hnone
      rw [update_of_ne hstate]
      exact h.dropped state' row hnone' (by simpa [upsert, update_of_ne hstate] using hrow)

/-- Both stores drop the login of `state`. -/
theorem delete (h : Mirrors dropped mem pg) {mem' : MemoryPendingLoginStore} {state : String}
    (hself : mem'.m.lookup state = none)
    (hother : ∀ state', state' ≠ state → mem'.m.lookup state' = mem.m.lookup state')
    (httl : mem'.ttl = mem.ttl) :
    Mirrors (update dropped state none) mem' (pg.delete state) where
  lawful := h.lawful
  ttl_eq := h.ttl_eq.trans httl.symm
  held state' p hp := by
    have hstate : state' ≠ state := by
      rintro rfl
      simp [hself] at hp
    rw [hother state' hstate] at hp
    obtain ⟨row, hrow, hrest⟩ := h.held state' p hp
    exact ⟨row, by simpa [PostgresPendingLoginStore.delete, update_of_ne hstate] using hrow,
      hrest⟩
  dropped state' row hnone hrow := by
    have hstate : state' ≠ state := by
      rintro rfl
      simp [PostgresPendingLoginStore.delete] at hrow
    rw [hother state' hstate] at hnone
    rw [update_of_ne hstate]
    exact h.dropped state' row hnone
      (by simpa [PostgresPendingLoginStore.delete, update_of_ne hstate] using hrow)

/-- A `Take` at a time when the dropped login of its state is still expired returns the same. -/
theorem take (h : Mirrors dropped mem pg) (state : String) {now : ℤ}
    (hnow : ∀ p, dropped state = some p → mem.expired p now = true) :
    (mem.take state now).2 = (pg.take state now).2 ∧
      Mirrors (update dropped state none) (mem.take state now).1 (pg.take state now).1 := by
  unfold MemoryPendingLoginStore.take PostgresPendingLoginStore.take
  cases hlookup : mem.m.lookup state with
  | some p =>
    obtain ⟨row, hrow, hdecode, -⟩ := h.held state p hlookup
    simp only [hrow, hdecode]
    refine ⟨?_, h.delete (AList.lookup_erase state mem.m) ?_ rfl⟩
    · simp [MemoryPendingLoginStore.expired, h.ttl_eq]
    · intro state' hstate
      exact AList.lookup_erase_ne hstate
  | none =>
    cases hrow : pg.rows state with
    | none =>
      have hself : pg.delete state = pg := by
        rw [PostgresPendingLoginStore.delete, ← hrow, Function.update_eq_self]
      exact ⟨rfl, hself ▸ h.delete hlookup (fun _ _ => rfl) rfl⟩
    | some row =>
      obtain ⟨p, hdropped, hdecode, -⟩ := h.dropped state row hlookup hrow
      have hstill := hnow p hdropped
      simp only [hdecode]
      refine ⟨?_, h.delete hlookup (fun _ _ => rfl) rfl⟩
      rw [if_pos (by simpa [MemoryPendingLoginStore.expired, h.ttl_eq] using hstill)]

/-- `Sweep` removes the same logins, if the cut-off age of a login is not taken for less than
the lifetime. -/
theorem sweep (h : Mirrors dropped mem pg) {now : ℤ}
    (hexact : ∀ state p, mem.m.lookup state = some p → mem.ttl < now - p.created →
      mem.ttl < Time.sub now p.created) :
    Mirrors (dropped.after mem (.sweep now)) (mem.sweep now) (pg.sweep now) where
  lawful := h.lawful
  ttl_eq := h.ttl_eq
  held state p hp := by
    rw [MemoryPendingLoginStore.lookup_sweep] at hp
    obtain ⟨hlookup, hlive⟩ := Option.filter_eq_some_iff.mp hp
    obtain ⟨row, hrow, hdecode, hcreated⟩ := h.held state p hlookup
    refine ⟨row, Option.filter_eq_some_iff.mpr ⟨hrow, ?_⟩, hdecode, hcreated⟩
    simp only [MemoryPendingLoginStore.expired, Bool.not_eq_true', decide_eq_false_iff_not] at hlive ⊢
    have := mt (hexact state p hlookup) hlive
    rw [hcreated, h.ttl_eq]
    omega
  dropped state row hnone hrow := by
    obtain ⟨hrow, hkept⟩ := Option.filter_eq_some_iff.mp hrow
    cases hlookup : mem.m.lookup state with
    | none =>
      obtain ⟨p, hp, hdecode, hcreated⟩ := h.dropped state row hlookup hrow
      refine ⟨p, Option.filter_eq_some_iff.mpr ⟨hp, ?_⟩, hdecode, hcreated⟩
      rwa [hcreated, h.ttl_eq] at hkept
    | some p =>
      -- The map has removed the login, but then the table has too.
      exfalso
      rw [MemoryPendingLoginStore.lookup_sweep] at hnone
      obtain ⟨row', hrow', hdecode, hcreated⟩ := h.held state p hlookup
      obtain rfl : row = row' := Option.some.inj (hrow.symm.trans hrow')
      have hexpired : mem.expired p now = true := by
        simpa [MemoryPendingLoginStore.view, hlookup, Option.filter] using hnone
      have hage := Time.lt_of_lt_sub mem.ttl_pos (by simpa [MemoryPendingLoginStore.expired] using hexpired)
      simp only [Bool.not_eq_true', decide_eq_false_iff_not] at hkept
      rw [hcreated, h.ttl_eq] at hkept
      omega

end Mirrors

/-- A call that cannot tell the two stores apart. The login that a full map has dropped from the state
of a `Take` has expired by its clock too, and at a `Sweep` the map holds no login whose exact age
exceeds the lifetime while its age as a `time.Duration` does not. -/
def Safe (dropped : Dropped) (mem : MemoryPendingLoginStore) : Op → Prop
  | .put _ _ _ _ => True
  | .take state now => ∀ p, dropped state = some p → mem.expired p now = true
  | .sweep now => ∀ state p, mem.m.lookup state = some p → mem.ttl < now - p.created →
    mem.ttl < Time.sub now p.created

/-- A `Sweep` is safe for every lifetime but the largest. -/
theorem safe_sweep_of_ttl_lt (dropped : Dropped) {mem : MemoryPendingLoginStore}
    (h : mem.ttl < maxValue) (now : ℤ) : Safe dropped mem (.sweep now) := by
  intro state p _ hage
  unfold Time.sub
  omega

/-- Every call of the run is safe. -/
def Agreeable (dropped : Dropped) (mem : MemoryPendingLoginStore) : List Op → Prop
  | [] => True
  | op :: ops => Safe dropped mem op ∧ Agreeable (dropped.after mem op) (mem.step op).1 ops

/-- The call stores no login from outside the years 0 to 9999. -/
def InYears : Op → Prop
  | .put _ p now _ => Time.year0 ≤ (p.stamped now).created ∧ (p.stamped now).created < Time.year10000
  | _ => True

instance : DecidablePred InYears
  | .put _ _ _ _ => inferInstanceAs (Decidable (_ ∧ _))
  | .take _ _ => inferInstanceAs (Decidable True)
  | .sweep _ => inferInstanceAs (Decidable True)

section Agreement

variable {dropped : Dropped} {mem : MemoryPendingLoginStore} {pg : PostgresPendingLoginStore ν β δ}

/-- One `Put` on both stores. -/
theorem Mirrors.put (h : Mirrors dropped mem pg) {state : String} {p : PendingLogin}
    {now sweepNow : ℤ} (hyears : InYears (.put state p now sweepNow))
    (hfull : (mem.put state p now sweepNow).2 ≠ some .full) (nonce : ν) :
    (mem.put state p now sweepNow).2 = (pg.put state p now nonce).2 ∧
      Mirrors (dropped.after mem (.put state p now sweepNow)) (mem.put state p now sweepNow).1
        (pg.put state p now nonce).1 := by
  by_cases hne : state = ""
  · simpa [MemoryPendingLoginStore.put, PostgresPendingLoginStore.put, Dropped.after, hne] using h
  obtain ⟨plain, hmarshal, hplain⟩ := h.lawful.lossless _ hyears.1 hyears.2
  have hpg : pg.put state p now nonce =
      (pg.upsert state (pg.codec.sealData nonce state plain) (p.stamped now).created, none) := by
    simp [PostgresPendingLoginStore.put, hne, hmarshal]
  rw [hpg, Dropped.after, if_neg hne]
  unfold MemoryPendingLoginStore.put at hfull ⊢
  rw [if_neg hne] at hfull ⊢
  by_cases hroom : state ∉ mem.m ∧ mem.max ≤ mem.m.entries.length
  · rw [if_pos ⟨hne, hroom⟩]
    simp only [dif_pos hroom] at hfull ⊢
    split at hfull
    · exact absurd rfl hfull
    next hroom' =>
      rw [dif_neg hroom']
      exact ⟨rfl, (h.drop sweepNow).store (.inr (not_le.mp hroom')) hplain nonce⟩
  · rw [if_neg fun hmakes => hroom hmakes.2, dif_neg hroom]
    exact ⟨rfl, h.store (MemoryPendingLoginStore.room hroom) hplain nonce⟩

/-- One call on both stores. -/
theorem Mirrors.step (h : Mirrors dropped mem pg) {op : Op} (hyears : InYears op)
    (hsafe : Safe dropped mem op) (hfull : (mem.step op).2 ≠ .put (some .full)) (nonce : ν) :
    (mem.step op).2 = (pg.step (op, nonce)).2 ∧
      Mirrors (dropped.after mem op) (mem.step op).1 (pg.step (op, nonce)).1 := by
  cases op with
  | put state p now sweepNow =>
    obtain ⟨houtcome, hnext⟩ := h.put hyears (fun herr => hfull (congrArg Outcome.put herr)) nonce
    exact ⟨congrArg Outcome.put houtcome, hnext⟩
  | take state now =>
    obtain ⟨houtcome, hnext⟩ := h.take state hsafe
    exact ⟨congrArg Outcome.take houtcome, hnext⟩
  | sweep now => exact ⟨rfl, h.sweep hsafe⟩

theorem Mirrors.run {ops : List (Op × ν)} (h : Mirrors dropped mem pg)
    (hyears : ∀ op ∈ ops.map Prod.fst, InYears op)
    (hfull : ∀ e ∈ mem.log (ops.map Prod.fst), e.2 ≠ .put (some .full))
    (hagreeable : Agreeable dropped mem (ops.map Prod.fst)) :
    (mem.log (ops.map Prod.fst)).map Prod.snd = pg.outcomes ops := by
  induction ops generalizing dropped mem pg with
  | nil => rfl
  | cons op ops ih =>
    simp only [List.map_cons, List.forall_mem_cons, MemoryPendingLoginStore.log] at hyears hfull ⊢
    obtain ⟨hsafe, hrest⟩ := hagreeable
    obtain ⟨houtcome, hnext⟩ := h.step hyears.1 hsafe hfull.1 op.2
    rw [outcomes, houtcome, ih hnext hyears.2 hfull.2 hrest]

/-- Two new stores mirror each other. -/
theorem mirrors_new {codec : Codec ν β δ} (hcodec : codec.Lawful) (ttl max : ℤ) :
    Mirrors (fun _ => none) (MemoryPendingLoginStore.new ttl max) (new codec ttl) where
  lawful := hcodec
  ttl_eq := rfl
  held state p hp := by simp [MemoryPendingLoginStore.new] at hp
  dropped state row _ hrow := by cases hrow

end Agreement

/-- The two stores return the same for every call. -/
def Agree (codec : Codec ν β δ) (ttl max : ℤ) (ops : List (Op × ν)) : Prop :=
  ((MemoryPendingLoginStore.new ttl max).log (ops.map Prod.fst)).map Prod.snd =
    (new codec ttl).outcomes ops

/-- **When the two stores agree.** On every run of safe calls in which the memory store is never
full, both stores return the same for every call. -/
theorem agree_of_agreeable {codec : Codec ν β δ} (hcodec : codec.Lawful) (ttl max : ℤ)
    (ops : List (Op × ν)) (hyears : ∀ op ∈ ops.map Prod.fst, InYears op)
    (hfull : ∀ e ∈ (MemoryPendingLoginStore.new ttl max).log (ops.map Prod.fst),
      e.2 ≠ .put (some .full))
    (hagreeable : Agreeable (fun _ => none) (MemoryPendingLoginStore.new ttl max)
      (ops.map Prod.fst)) :
    Agree codec ttl max ops :=
  (mirrors_new hcodec ttl max).run hyears hfull hagreeable

/-- An ideal codec: sealed data is the state and the login themselves. -/
def Codec.ideal : Codec Unit PendingLogin (String × PendingLogin) where
  marshal p := .ok p
  unmarshal plain := some plain
  sealData _ state plain := (state, plain)
  openData state data := if data.1 = state then some data.2 else none

theorem Codec.lawful_ideal : Codec.ideal.Lawful where
  lossless p _ _ := ⟨p, rfl, rfl⟩
  open_iff state data plain := by
    constructor
    · intro h
      simp only [Codec.ideal, Option.ite_none_right_eq_some] at h
      exact ⟨(), Prod.ext h.1 (Option.some.inj h.2)⟩
    · rintro ⟨-, rfl⟩
      exact if_pos rfl

/-- The largest lifetime, and a login from the year 1700 that is swept in 2026: the age of the
login is cut to the lifetime, so the memory store keeps it, while the table loses it. -/
theorem not_agree :
    ¬ Agree Codec.ideal maxValue 10
      [(.put "st" { verifier := "v", created := -8520336000 * second }
          (1767225600 * second) (1767225600 * second), ()),
        (.sweep (1767225600 * second), ()),
        (.take "st" (1767225600 * second), ())] := by
  unfold Agree
  decide +kernel

/-- A map with room for one login that drops an expired one for another. The clock goes back, but not so
far that the dropped login lives again, and the stores agree. -/
theorem agree_of_agreeable_dropped :
    Agree Codec.ideal minute 1
      [(.put "old" { created := -100 * second } 0 0, ()), (.put "st" { verifier := "v" } 1 2, ()),
        (.sweep (-50 * second), ()), (.take "old" 1, ()), (.take "st" 5, ())] := by
  apply agree_of_agreeable Codec.lawful_ideal
  · decide +kernel
  · decide +kernel
  · refine ⟨trivial, trivial, safe_sweep_of_ttl_lt _ (by decide +kernel) _, ?_, ?_, trivial⟩
    · show ∀ p, _ → _
      decide +kernel
    · show ∀ p, _ → _
      decide +kernel

end PostgresPendingLoginStore

end Bff
