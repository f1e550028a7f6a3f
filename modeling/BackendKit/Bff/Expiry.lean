import BackendKit.Bff.MemoryStore
import BackendKit.Bff.PostgresStore

/-!
# Removal of expired sessions

What the removal of an expired session leaves behind in the two stores, and which sessions a
request that fetched them earlier can bring back by touching them and writing them back.

* The `Get` of the in-memory store goes through `Delete`, so it leaves a tombstone. Its `Sweep`
  leaves none, and neither `Get` nor `Sweep` of the durable store does.
* Without a tombstone, a session that was removed on its idle bound comes back: the write-back
  carries a new idle timestamp. One that was past its absolute lifetime stays away, since the
  time of its login never changes.

`expired_final_iff` says so for every removal in every run; `not_expiryFinal` is the run of each
store in which an idled-out session comes back.
-/

open GoStd
open Function (update update_self)
open StepSystem (run_append_eq_some run_cons_eq_some run_nil)

namespace Bff

namespace MemoryStore

variable {idle absolute : ℤ}

/-- The step `e` from `s` to `s'` removes the session at `p`, filed under `id`, because it has
expired. -/
structure State.RemovesExpired (s : State) (e : Event) (s' : State) (id : String) (p : ℕ) :
    Prop where
  action : (∃ g, e.action = .getDelete g ∧ s.gets g = some (.expired id)) ∨
    ∃ nowAt, e.action = .sweep nowAt
  before : s.store.sessions id = some p
  after : s'.store.sessions id = none

/-- In every run from `s₁`, no `Get` of `id` before `until'` returns the session at `p`. -/
def StaysAway (idle absolute : ℤ) (s₁ : State) (id : String) (p : ℕ) (until' : ℤ) : Prop :=
  ∀ es s₂ t, (system idle absolute).run s₁ es = some s₂ → t < until' →
    ¬ GetReturns idle absolute s₂ t id p

/-- Expiry is final: a session that was removed because it had expired does not come back
within a tombstone's lifetime. -/
def ExpiryFinal (idle absolute : ℤ) : Prop :=
  ∀ s e s₁ id p, (system idle absolute).Reachable s →
    (system idle absolute).step s e = some s₁ → s.RemovesExpired e s₁ id p →
    StaysAway idle absolute s₁ id p (e.now + postgresStoreTombstoneTTL)

variable {s s₁ : State} {id : String} {p : ℕ}

/-- Only finitely many goroutines are in a `Get`. -/
theorem State.exists_idle (h : (system idle absolute).Reachable s) : ∃ g, s.gets g = none := by
  obtain ⟨g, hg⟩ := h.exists_idle (fun s g => s.gets g ≠ none) (fun e => e.action.getter)
    (fun s₀ (h₀ : (system idle absolute).IsInit s₀) g hne => hne (h₀.2.2 g))
    (fun s e s' g hstep hg hne => State.gets_step hstep hg ▸ hne)
  exact ⟨g, not_not.mp hg⟩

/-- A session past its absolute lifetime is not returned again. -/
theorem staysAway_of_pastAbsolute {until' : ℤ} (hp : p < s₁.next)
    (hpast : PastAbsolute s₁.store.absolute (s₁.heap p).created s₁.clock) :
    StaysAway idle absolute s₁ id p until' := by
  intro es s₂ t hrun _ hget
  obtain ⟨hclock, hheap⟩ := run_extends hrun
  obtain ⟨hle, -, hnot⟩ := sessions_of_getReturns hget
  obtain ⟨t', ht', hfresh⟩ := hnot (hp.trans_le hheap.next_le)
  rw [(State.config_run hrun).2, hheap.created_eq p hp] at hfresh
  exact hfresh (hpast.mono (by omega))

/-- A deleted session is not returned again within the lifetime of its tombstone. -/
theorem State.Tombstoned.staysAway {t₀ : ℤ} (h : s₁.Tombstoned id t₀) :
    StaysAway idle absolute s₁ id p (t₀ + postgresStoreTombstoneTTL) := by
  intro es s₂ t hrun ht hget
  obtain ⟨hle, hp, -⟩ := sessions_of_getReturns hget
  rw [(State.tombstoned_run h hrun).sessions_eq_none (by omega)] at hp
  cases hp

/-- Whoever holds a session whose id has no tombstone can bring it back by touching it and
writing it back, unless it is past its absolute lifetime. -/
theorem revived_of_no_tombstone (idle absolute : ℤ) {g : ℕ} (hp : p < s.next)
    (hgone : s.store.tombstones (s.heap p).id = none) (hg : s.gets g = none)
    (hfresh : ¬ PastAbsolute s.store.absolute (s.heap p).created s.clock) :
    ∃ s₂, (system idle absolute).run s [⟨s.clock, .touch p s.clock⟩, ⟨s.clock, .put p⟩]
        = some s₂ ∧ GetReturns idle absolute s₂ s.clock (s.heap p).id p := by
  let touched : State :=
    { s with heap := update s.heap p ((s.heap p).touch s.clock) }
  let written : State := { touched with store := touched.store.put p (touched.heap p) }
  have hpself : touched.heap p = (s.heap p).touch s.clock := update_self p _ _
  have htouch : s.step ⟨s.clock, .touch p s.clock⟩ = some touched := by
    simp [State.step, State.perform, State.modify, hp, touched]
  have hput : touched.step ⟨s.clock, .put p⟩ = some written := by
    have hp' : p < touched.next := hp
    simp [State.step, State.perform, hp', written, touched]
  have hrun : (system idle absolute).run s [⟨s.clock, .touch p s.clock⟩, ⟨s.clock, .put p⟩]
      = some written := by
    refine (run_cons_eq_some _).mpr ⟨touched, htouch, ?_⟩
    exact (run_cons_eq_some _).mpr ⟨written, hput, run_nil _ _⟩
  have hstored : written.store.sessions (s.heap p).id = some p := by
    have hid : (touched.heap p).id = (s.heap p).id := by rw [hpself, Session.touch_id]
    have := sessions_put_self touched.store (p := p) (s := touched.heap p) (by rw [hid]; exact hgone)
    rw [hid] at this
    exact this
  refine ⟨written, hrun, ?_⟩
  -- the lookup finds the session, and at the same instant it is neither idle nor too old
  let looked : State :=
    { written with gets := update s.gets g (some (.looked (s.heap p).id p)) }
  have hlookup : written.step ⟨s.clock, .getLookup g (s.heap p).id⟩ = some looked := by
    have hg' : written.gets g = none := hg
    have hclock : written.clock = s.clock := rfl
    simp only [State.step, State.perform, hg', hstored, hclock, le_refl, if_true, Option.map_some]
    rfl
  suffices hret : looked.returns ⟨s.clock, .getCheck g⟩ = some p from
    getReturns_of_check hlookup hret
  refine State.returns_getCheck.mpr ⟨(s.heap p).id, update_self _ _ _, le_refl _, ?_⟩
  have habs : looked.store.absolute = s.store.absolute :=
    (State.config_step hlookup).2.trans (State.config_run hrun).2
  have hheap : looked.heap p = (s.heap p).touch s.clock := hpself
  rw [← Bool.not_eq_true, MemoryStore.expired, hheap, expiredAt_iff, habs]
  rintro (hpast | hidle)
  · exact hfresh hpast
  · exact not_pastIdle_self _ _ hidle

/-- The removal of an expired session is final exactly if it went through `Get`, which leaves a
tombstone, or the session is past its absolute lifetime. -/
theorem staysAway_iff {e : Event} (hs : (system idle absolute).Reachable s)
    (hstep : (system idle absolute).step s e = some s₁) (hrem : s.RemovesExpired e s₁ id p) :
    StaysAway idle absolute s₁ id p (e.now + postgresStoreTombstoneTTL) ↔
      (∃ g, e.action = .getDelete g) ∨ PastAbsolute absolute (s.heap p).created e.now := by
  have hinv := State.inv_of_reachable hs
  obtain ⟨hp, hid⟩ := hinv.keyed id p hrem.before
  obtain ⟨hle, hclock, hheap, -⟩ := State.step_cases hstep
  have hs₁ := hs.step hstep
  have hp₁ := hp.trans_le hheap.next_le
  constructor
  · intro haway
    by_contra hnot
    rw [not_or] at hnot
    -- a `Sweep` leaves no tombstone, so a write-back at the same instant is accepted
    obtain ⟨g, hget, -⟩ | ⟨nowAt, hsweep⟩ := hrem.action
    · exact hnot.1 ⟨g, hget⟩
    have hnone : s₁.store.tombstones id = none := by
      obtain ⟨now, a⟩ := e
      cases hsweep
      have hnone := hinv.disjoint id (by rw [hrem.before]; exact Option.some_ne_none p)
      change s.step _ = some s₁ at hstep
      rw [State.step, if_pos hle] at hstep
      cases hstep
      simp [sweep, hnone]
    obtain ⟨g, hg⟩ := State.exists_idle hs₁
    have hid₁ : (s₁.heap p).id = id := (hheap.id_eq p hp).trans hid
    obtain ⟨s₂, hrun, hget⟩ := revived_of_no_tombstone idle absolute hp₁
      (by rw [hid₁]; exact hnone) hg (by
        rw [(State.config_of_reachable hs₁).2, hheap.created_eq p hp, hclock]
        exact hnot.2)
    rw [hid₁] at hget
    have hpos := postgresStoreTombstoneTTL_pos
    exact haway _ s₂ s₁.clock hrun (by omega) hget
  · rintro (⟨g, hget⟩ | hpast)
    · obtain ⟨g', hget', hexp⟩ | ⟨nowAt, hsweep⟩ := hrem.action
      · exact (State.tombstoned_of_deletes hinv (.inr ⟨g', hget', hexp⟩) hstep).staysAway
      · rw [hget] at hsweep
        cases hsweep
    · refine staysAway_of_pastAbsolute hp₁ ?_
      rw [(State.config_of_reachable hs₁).2, hheap.created_eq p hp, hclock]
      exact hpast

end MemoryStore

namespace PostgresStore

variable {β δ : Type} {codec : Codec β δ} {idle absolute : ℤ}

/-- The step `e` from `s` to `s'` removes the session `snap`, stored under `id`, because it has
expired. -/
structure State.RemovesExpired (s : State β δ) (e : Event) (s' : State β δ) (id : String)
    (snap : SessionSnapshot) : Prop where
  action : (∃ g, e.action = .getRemove g ∧ s.calls g = some (.expired id)) ∨
    ∃ g at', e.action = .sweepExec g ∧ s.calls g = some (.sweeping at')
  before : s.store.stored id = some snap
  after : s'.store.stored id = none

/-- In every run from `s₁`, no `Get` of `id` before `until'` returns the session of the login at
`created`. The store hands out copies, so the id and the login are what makes two of them the
same session. -/
def StaysAway (codec : Codec β δ) (idle absolute : ℤ) (s₁ : State β δ) (id : String)
    (created until' : ℤ) : Prop :=
  ∀ es s₂ t snap, (system codec idle absolute).run s₁ es = some s₂ → t < until' →
    GetReturns codec idle absolute s₂ t id snap → snap.created ≠ created

/-- Expiry is final: a session that was removed because it had expired does not come back
within a tombstone's lifetime. -/
def ExpiryFinal (codec : Codec β δ) (idle absolute : ℤ) : Prop :=
  ∀ s e s₁ id snap, (system codec idle absolute).Reachable s →
    (system codec idle absolute).step s e = some s₁ → s.RemovesExpired e s₁ id snap →
    StaysAway codec idle absolute s₁ id snap.created (e.now + postgresStoreTombstoneTTL)

variable {s s₁ : State β δ} {id : String} {e : Event}

/-- Only finitely many goroutines are in a call. -/
theorem State.exists_idle (h : (system codec idle absolute).Reachable s) :
    ∃ g, s.calls g = none := by
  obtain ⟨g, hg⟩ := h.exists_idle (fun s g => s.calls g ≠ none)
    (fun e => e.action.caller)
    (fun s₀ (h₀ : (system codec idle absolute).IsInit s₀) g hne => hne (h₀.2.2 g))
    (fun s e s' g hstep hg hne => State.calls_step hstep hg ▸ hne)
  exact ⟨g, not_not.mp hg⟩

/-- A session past its absolute lifetime is not returned again. -/
theorem staysAway_of_pastAbsolute {created until' : ℤ}
    (hpast : PastAbsolute s₁.store.absolute created s₁.clock) :
    StaysAway codec idle absolute s₁ id created until' := by
  intro es s₂ t snap hrun _ hget heq
  have hclock := clock_le_of_run hrun
  obtain ⟨hle, -, t', ht', hfresh⟩ := stored_of_getReturns hget
  rw [(State.config_run hrun).2.2, heq] at hfresh
  exact hfresh (hpast.mono (by omega))

/-- Whoever holds a session that has no row can bring it back by touching it and writing it
back, unless it is past its absolute lifetime. -/
theorem revived_of_no_row (codec : Codec β δ) (idle absolute : ℤ) {p g : ℕ} (hp : p < s.next)
    (hrow : s.store.rows (s.heap p).id = none) (hg : s.calls g = none)
    (hcodec : s.store.codec.RoundTrips ((s.heap p).touch s.clock).snapshot)
    (hfresh : ¬ PastAbsolute s.store.absolute (s.heap p).created s.clock) :
    ∃ s₂, (system codec idle absolute).run s
        [⟨s.clock, .touch p s.clock⟩, ⟨s.clock, .putSnapshot g p⟩, ⟨s.clock, .putExec g⟩]
        = some s₂ ∧ GetReturns codec idle absolute s₂ s.clock (s.heap p).id
          ((s.heap p).touch s.clock).snapshot := by
  let snap := ((s.heap p).touch s.clock).snapshot
  let touched : State β δ :=
    { s with heap := update s.heap p ((s.heap p).touch s.clock) }
  let begun : State β δ :=
    { touched with calls := update s.calls g (some (.putting snap)) }
  let written : State β δ := begun.exec g (s.store.put snap)
  have htouch : s.step ⟨s.clock, .touch p s.clock⟩ = some touched := by
    simp [State.step, State.perform, State.modify, hp, touched]
  have hbegin : touched.step ⟨s.clock, .putSnapshot g p⟩ = some begun := by
    have hheap : touched.heap p = (s.heap p).touch s.clock := update_self p _ _
    have hp' : p < touched.next := hp
    have hg' : touched.calls g = none := hg
    have hclock : touched.clock = s.clock := rfl
    simp only [State.step, State.perform, State.begin, hp', hg', hheap, hclock, le_refl, if_true,
      Option.map_some]
    rfl
  have hexec : begun.step ⟨s.clock, .putExec g⟩ = some written := by
    have hcall : begun.calls g = some (.putting snap) := update_self g _ _
    have hclock : begun.clock = s.clock := rfl
    simp only [State.step, State.perform, hcall, hclock, le_refl, if_true, Option.map_some]
    rfl
  have hrun : (system codec idle absolute).run s
      [⟨s.clock, .touch p s.clock⟩, ⟨s.clock, .putSnapshot g p⟩, ⟨s.clock, .putExec g⟩]
      = some written := by
    refine (run_cons_eq_some _).mpr ⟨touched, htouch, ?_⟩
    refine (run_cons_eq_some _).mpr ⟨begun, hbegin, ?_⟩
    exact (run_cons_eq_some _).mpr ⟨written, hexec, run_nil _ _⟩
  refine ⟨written, hrun, ?_⟩
  -- the `SELECT` reads the new row, and at the same instant it is neither idle nor too old
  let selected : State β δ :=
    { written with
      calls := update written.calls g (some (.selected (s.heap p).id snap)) }
  have hselect : written.step ⟨s.clock, .getSelect g (s.heap p).id⟩ = some selected := by
    have hg' : written.calls g = none := update_self g _ _
    have hlive : ∀ row, s.store.rows (s.heap p).id = some row → row.deletedAt = none := by
      intro row h
      rw [hrow] at h
      cases h
    have hstored : written.store.stored (s.heap p).id = some snap := stored_put hlive hcodec
    have hclock : written.clock = s.clock := rfl
    simp only [State.step, State.perform, State.begin, hg', hstored, hclock, le_refl, if_true,
      Option.map_some]
    rfl
  suffices hret : selected.returns ⟨s.clock, .getCheck g⟩ = some snap from
    getReturns_of_check hselect hret
  refine State.returns_getCheck.mpr ⟨(s.heap p).id, update_self _ _ _, le_refl _, ?_⟩
  have habs : selected.store.absolute = s.store.absolute :=
    (State.config_step hselect).2.2.trans (State.config_run hrun).2.2
  rw [← Bool.not_eq_true, PostgresStore.expired, expiredAt_iff, habs]
  rintro (hpast | hidle)
  · exact hfresh hpast
  · exact not_pastIdle_self _ _ hidle

/-- The removal of an expired session takes its row away. -/
theorem State.RemovesExpired.rows_eq_none {snap : SessionSnapshot} (hstep : s.step e = some s₁)
    (hrem : s.RemovesExpired e s₁ id snap) :
    s₁.store.rows id = none := by
  obtain ⟨hle, -, -, -⟩ := State.step_cases hstep
  obtain ⟨now, a⟩ := e
  rw [State.step, if_pos hle] at hstep
  obtain ⟨g, ha, hc⟩ | ⟨g, at', ha, hc⟩ := hrem.action
  · cases ha
    simp only [State.perform, hc] at hstep
    cases hstep
    exact update_self id _ _
  · cases ha
    simp only [State.perform, hc] at hstep
    cases hstep
    -- a row that `Sweep` keeps would still be read
    change (s.store.rows id).filter (fun row => !s.store.swept row at') = none
    by_contra hkept
    obtain ⟨row, hrow⟩ := Option.ne_none_iff_exists'.mp hkept
    have hbefore := hrem.before
    have hafter : (s.store.sweep at').stored id = none := hrem.after
    have hsame : (s.store.sweep at').rows id = s.store.rows id :=
      hrow.trans (Option.filter_eq_some_iff.mp hrow).1.symm
    have : (s.store.sweep at').stored id = s.store.stored id := by
      unfold stored select
      rw [hsame]
      rfl
    rw [this, hbefore] at hafter
    cases hafter

/-- A session that is past its absolute lifetime when it is removed stays away. -/
theorem staysAway_of_step {created until' : ℤ} (hs : (system codec idle absolute).Reachable s)
    (hstep : (system codec idle absolute).step s e = some s₁)
    (hpast : PastAbsolute absolute created e.now) :
    StaysAway codec idle absolute s₁ id created until' := by
  obtain ⟨-, hclock, -, -⟩ := State.step_cases hstep
  refine staysAway_of_pastAbsolute ?_
  rw [(State.config_of_reachable (hs.step hstep)).2.2, hclock]
  exact hpast

/-- The removal of an expired session that some request still holds is final exactly if the
session is past its absolute lifetime. -/
theorem staysAway_iff {snap : SessionSnapshot} {p : ℕ}
    (hs : (system codec idle absolute).Reachable s)
    (hstep : (system codec idle absolute).step s e = some s₁) (hrem : s.RemovesExpired e s₁ id snap)
    (hp : p < s₁.next) (hid : (s₁.heap p).id = id) (hcreated : (s₁.heap p).created = snap.created)
    (hcodec : codec.RoundTrips ((s₁.heap p).touch e.now).snapshot) :
    StaysAway codec idle absolute s₁ id snap.created (e.now + postgresStoreTombstoneTTL) ↔
      PastAbsolute absolute snap.created e.now := by
  obtain ⟨-, hclock, -, -⟩ := State.step_cases hstep
  have hs₁ := hs.step hstep
  obtain ⟨hcodec₁, -, habs⟩ := State.config_of_reachable hs₁
  constructor
  · intro haway
    by_contra hfresh
    obtain ⟨g, hg⟩ := State.exists_idle hs₁
    obtain ⟨s₂, hrun, hget⟩ := revived_of_no_row codec idle absolute hp
      (by rw [hid]; exact hrem.rows_eq_none hstep) hg
      (by rw [hcodec₁, hclock]; exact hcodec) (by rw [habs, hcreated, hclock]; exact hfresh)
    rw [hid] at hget
    have hpos := postgresStoreTombstoneTTL_pos
    exact haway _ s₂ s₁.clock _ hrun (by omega) hget hcreated
  · exact staysAway_of_step hs hstep

end PostgresStore

/-- Which removals of an expired session are final, for every removal in every run. In memory:
those by `Get`, and those of a session past its absolute lifetime. In the durable store: only the
latter, if a request that fetched the session earlier still holds it. -/
theorem expired_final_iff {β δ : Type} (codec : PostgresStore.Codec β δ) (idle absolute : ℤ) :
    (∀ s e s₁ id p, (MemoryStore.system idle absolute).Reachable s →
      (MemoryStore.system idle absolute).step s e = some s₁ → s.RemovesExpired e s₁ id p →
      (MemoryStore.StaysAway idle absolute s₁ id p (e.now + postgresStoreTombstoneTTL) ↔
        (∃ g, e.action = .getDelete g) ∨ PastAbsolute absolute (s.heap p).created e.now)) ∧
    (∀ s e s₁ id snap, (PostgresStore.system codec idle absolute).Reachable s →
      (PostgresStore.system codec idle absolute).step s e = some s₁ →
      s.RemovesExpired e s₁ id snap → PastAbsolute absolute snap.created e.now →
      PostgresStore.StaysAway codec idle absolute s₁ id snap.created
        (e.now + postgresStoreTombstoneTTL)) ∧
    ∀ s e s₁ id snap p, (PostgresStore.system codec idle absolute).Reachable s →
      (PostgresStore.system codec idle absolute).step s e = some s₁ →
      s.RemovesExpired e s₁ id snap → p < s₁.next → (s₁.heap p).id = id →
      (s₁.heap p).created = snap.created →
      codec.RoundTrips ((s₁.heap p).touch e.now).snapshot →
      (PostgresStore.StaysAway codec idle absolute s₁ id snap.created
        (e.now + postgresStoreTombstoneTTL) ↔ PastAbsolute absolute snap.created e.now) := by
  refine ⟨?_, ?_, ?_⟩
  · intro s e s₁ id p hs hstep hrem
    exact MemoryStore.staysAway_iff hs hstep hrem
  · intro s e s₁ id snap hs hstep hrem hpast
    exact PostgresStore.staysAway_of_step hs hstep hpast
  · intro s e s₁ id snap p hs hstep hrem hp hid hcreated hcodec
    exact PostgresStore.staysAway_iff hs hstep hrem hp hid hcreated hcodec

section Runs

open Duration (minute)

/-- A session idles out in memory and is swept. -/
theorem MemoryStore.exists_swept : ∃ s s₁,
    (system (30 * minute) 0).Reachable s ∧
    (system (30 * minute) 0).step s ⟨40 * minute, .sweep fun _ => 40 * minute⟩ = some s₁ ∧
    s.RemovesExpired ⟨40 * minute, .sweep fun _ => 40 * minute⟩ s₁ "sid" 0 := by
  let login : List Event := [⟨0, .newSession "sid" "csrf" none {} 0⟩, ⟨0, .put 0⟩]
  obtain ⟨s₁, h⟩ : ∃ s₁, (system (30 * minute) 0).run (State.start (30 * minute) 0)
      (login ++ [⟨40 * minute, .sweep fun _ => 40 * minute⟩]) = some s₁ :=
    Option.isSome_iff_exists.mp (by decide)
  have hafter : ((system (30 * minute) 0).run (State.start (30 * minute) 0)
      (login ++ [⟨40 * minute, .sweep fun _ => 40 * minute⟩])).map
        (fun s => s.store.sessions "sid") = some none := by decide
  rw [h, Option.map_some] at hafter
  obtain ⟨s, hlogin, hsweep⟩ := (run_append_eq_some _).mp h
  have hbefore : ((system (30 * minute) 0).run (State.start (30 * minute) 0) login).map
      (fun s => s.store.sessions "sid") = some (some 0) := by decide
  rw [hlogin, Option.map_some] at hbefore
  obtain ⟨s', hstep, hnil⟩ := (run_cons_eq_some _).mp hsweep
  cases hnil
  exact ⟨s, s₁, ⟨_, login, ⟨rfl, rfl, fun _ => rfl⟩, hlogin⟩, hstep,
    ⟨Or.inr ⟨_, rfl⟩, Option.some.inj hbefore, Option.some.inj hafter⟩⟩

/-- A session is fetched by one request and idles out; the `Get` of another removes its row. -/
theorem PostgresStore.exists_removed {absolute : ℤ} (h : absolute = 0 ∨ absolute = 30 * minute) :
    ∃ s s₁ snap, (system Codec.ideal (30 * minute) absolute).Reachable s ∧
      (system Codec.ideal (30 * minute) absolute).step s ⟨40 * minute, .getRemove 2⟩ = some s₁ ∧
      s.RemovesExpired ⟨40 * minute, .getRemove 2⟩ s₁ "sid" snap ∧ snap.created = 0 ∧
      1 < s₁.next ∧ (s₁.heap 1).id = "sid" ∧ (s₁.heap 1).created = 0 := by
  let es := loginAndFetch ++ [⟨40 * minute, .getSelect 2 "sid"⟩, ⟨40 * minute, .getCheck 2⟩]
  let M := system Codec.ideal (30 * minute) absolute
  let start := State.start Codec.ideal (30 * minute) absolute
  obtain ⟨s₁, hrun⟩ : ∃ s₁, M.run start (es ++ [⟨40 * minute, .getRemove 2⟩]) = some s₁ := by
    refine Option.isSome_iff_exists.mp ?_
    rcases h with rfl | rfl <;> decide +kernel
  have hafter : (M.run start (es ++ [⟨40 * minute, .getRemove 2⟩])).map (fun s =>
      ((s.store.stored "sid").isNone, s.next, (s.heap 1).id, (s.heap 1).created))
        = some (true, 2, "sid", 0) := by
    rcases h with rfl | rfl <;> decide +kernel
  rw [hrun, Option.map_some, Option.some.injEq] at hafter
  simp only [Prod.mk.injEq, Option.isNone_iff_eq_none] at hafter
  obtain ⟨hnone, hnext, hid, hcreated⟩ := hafter
  obtain ⟨s, hes, hremove⟩ := (run_append_eq_some _).mp hrun
  have hbefore : (M.run start es).map (fun s =>
      ((s.store.stored "sid").map SessionSnapshot.created)) = some (some 0) := by
    rcases h with rfl | rfl <;> decide +kernel
  rw [hes, Option.map_some, Option.some.injEq] at hbefore
  obtain ⟨snap, hsnap, hzero⟩ := Option.map_eq_some_iff.mp hbefore
  have hcall : (M.run start es).map (fun s => s.calls 2) = some (some (.expired "sid")) := by
    rcases h with rfl | rfl <;> rfl
  rw [hes, Option.map_some, Option.some.injEq] at hcall
  obtain ⟨s', hstep, hnil⟩ := (run_cons_eq_some _).mp hremove
  cases hnil
  exact ⟨s, s₁, snap, ⟨_, es, ⟨rfl, rfl, fun _ => rfl⟩, hes⟩, hstep,
    ⟨Or.inl ⟨2, rfl, hcall⟩, hsnap, hnone⟩, hzero, by omega, hid, hcreated⟩

/-- Neither store makes expiry final: a session idles out after half an hour, is removed ten
minutes later, and its last request brings it back by touching it and writing it back. -/
theorem not_expiryFinal : ¬ MemoryStore.ExpiryFinal (30 * minute) 0 ∧
    ¬ PostgresStore.ExpiryFinal PostgresStore.Codec.ideal (30 * minute) 0 := by
  constructor
  · intro hfinal
    obtain ⟨s, s₁, hs, hstep, hrem⟩ := MemoryStore.exists_swept
    rcases (MemoryStore.staysAway_iff hs hstep hrem).mp (hfinal s _ s₁ _ _ hs hstep hrem) with
      ⟨g, hg⟩ | ⟨hpos, -⟩
    · cases hg
    · omega
  · intro hfinal
    obtain ⟨s, s₁, snap, hs, hstep, hrem, hzero, hnext, hid, hcreated⟩ :=
      PostgresStore.exists_removed (.inl rfl)
    obtain ⟨hpos, -⟩ := (PostgresStore.staysAway_iff hs hstep hrem hnext hid
      (hcreated.trans hzero.symm) (PostgresStore.Codec.roundTrips_ideal _)).mp
        (hfinal s _ s₁ _ _ hs hstep hrem)
    omega

/-- The swept session and the one whose row `Get` removed come back; with an absolute lifetime of
half an hour the second stays away. -/
theorem expired_final_iff_idleOut :
    (∃ s s₁, (MemoryStore.system (30 * minute) 0).step s
        ⟨40 * minute, .sweep fun _ => 40 * minute⟩ = some s₁ ∧
      ¬ MemoryStore.StaysAway (30 * minute) 0 s₁ "sid" 0 (40 * minute + Duration.hour)) ∧
    (∃ s s₁, (PostgresStore.system PostgresStore.Codec.ideal (30 * minute) 0).step s
        ⟨40 * minute, .getRemove 2⟩ = some s₁ ∧
      ¬ PostgresStore.StaysAway PostgresStore.Codec.ideal (30 * minute) 0 s₁ "sid" 0
        (40 * minute + Duration.hour)) ∧
    ∃ s s₁, (PostgresStore.system PostgresStore.Codec.ideal (30 * minute) (30 * minute)).step s
        ⟨40 * minute, .getRemove 2⟩ = some s₁ ∧
      PostgresStore.StaysAway PostgresStore.Codec.ideal (30 * minute) (30 * minute) s₁ "sid" 0
        (40 * minute + Duration.hour) := by
  refine ⟨?_, ?_, ?_⟩
  · obtain ⟨s, s₁, hs, hstep, hrem⟩ := MemoryStore.exists_swept
    refine ⟨s, s₁, hstep, fun haway => ?_⟩
    rcases ((expired_final_iff PostgresStore.Codec.ideal (30 * minute) 0).1 s _ s₁ "sid" 0 hs hstep
      hrem).mp haway with ⟨g, hg⟩ | ⟨hpos, -⟩
    · cases hg
    · omega
  · obtain ⟨s, s₁, snap, hs, hstep, hrem, hzero, hnext, hid, hcreated⟩ :=
      PostgresStore.exists_removed (.inl rfl)
    refine ⟨s, s₁, hstep, fun haway => ?_⟩
    obtain ⟨hpos, -⟩ := ((expired_final_iff PostgresStore.Codec.ideal (30 * minute) 0).2.2 s _ s₁
      "sid" snap 1 hs hstep hrem hnext hid (hcreated.trans hzero.symm)
      (PostgresStore.Codec.roundTrips_ideal _)).mp (hzero ▸ haway)
    omega
  · obtain ⟨s, s₁, snap, hs, hstep, hrem, hzero, -⟩ := PostgresStore.exists_removed (.inr rfl)
    refine ⟨s, s₁, hstep, ?_⟩
    have haway := (expired_final_iff PostgresStore.Codec.ideal (30 * minute) (30 * minute)).2.1 s _
      s₁ "sid" snap hs hstep hrem (by rw [hzero]; decide)
    rw [hzero] at haway
    exact haway

end Runs

end Bff
