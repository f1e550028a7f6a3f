import BackendKit.HttpWare.KeyedRateLimit

/-!
# Refused requests

The middleware (`httpware/keyed_ratelimit.go`) reserves a token for every request, and cancels the
reservation of a request that it refuses. The two are critical sections of the bucket, so
requests that come at the same instant can take them in any order.

`Rush` is such an instant. The limiter can only give back what was reserved last: a reservation
that is cancelled after a later one was made, and before that one is cancelled, is lost.
`Rush.restored_iff` says that refused requests leave the bucket as it was if and only if this does
not happen.
-/

open GoStd XTime
open Function (update update_of_ne)

namespace HttpWare

/-! ### Buckets that cannot be told apart -/

/-- At `now` the buckets hold as many tokens, and from then on a request cannot tell them apart: it
gets the same reservation, and leaves the same bucket behind. -/
structure Restored (now : ℚ) (lim lim₀ : Limiter) : Prop where
  tokens : lim.advance now = lim₀.advance now
  reserve : ∀ t ≥ now, lim.reserve t = lim₀.reserve t

/-- A reservation only depends on the number of tokens. -/
theorem reserve_eq_of_advance_eq {lim lim₀ : Limiter} {t : ℚ} (hlimit : lim.limit = lim₀.limit)
    (hburst : lim.burst = lim₀.burst) (htokens : lim.advance t = lim₀.advance t) :
    lim.reserve t = lim₀.reserve t := by
  obtain ⟨limit, burst, tokens, last, event, ok, act⟩ := lim.reserve_spec t
  obtain ⟨limit₀, burst₀, tokens₀, last₀, event₀, ok₀, act₀⟩ := lim₀.reserve_spec t
  have hact : (lim.reserve t).2.timeToAct = (lim₀.reserve t).2.timeToAct := by
    rw [act, act₀, htokens, Limiter.rate, hlimit, ← Limiter.rate]
  apply Prod.ext
  · apply Limiter.ext
    · rw [limit, limit₀, hlimit]
    · rw [burst, burst₀, hburst]
    · rw [tokens, tokens₀, htokens]
    · rw [last, last₀]
    · rw [event, event₀, hact]
  · apply Reservation.ext
    · rw [ok, ok₀]
    · exact hact

theorem restored_iff_owes_zero {lim lim₀ : Limiter} {now : ℚ} {n : ℕ}
    (h : lim.Owes (lim₀.advance now) now n) (hlast : lim₀.last ≤ now)
    (hlimit : lim.limit = lim₀.limit) (hburst : lim.burst = lim₀.burst) :
    Restored now lim lim₀ ↔ n = 0 := by
  rw [← h.advance_eq_iff hlast hlimit hburst]
  constructor
  · intro hrestored t ht
    -- what is left behind tells the number of tokens
    have hleft := congrArg (fun x => x.1.tokens) (hrestored.reserve t ht)
    simp only [(lim.reserve_spec t).2.2.1, (lim₀.reserve_spec t).2.2.1] at hleft
    linarith
  · intro hsame
    exact ⟨hsame now le_rfl, fun t ht => reserve_eq_of_advance_eq hlimit hburst (hsame t ht)⟩

/-! ### Requests at one instant -/

/-- How far the middleware is with a request. -/
inductive Call where
  /-- It has not reserved a token yet. -/
  | waiting
  /-- It is refused, and its reservation is not cancelled yet. -/
  | holding (res : Reservation)
  | admitted
  /-- It was refused, and its reservation was cancelled. -/
  | refused
  deriving DecidableEq

/-- The bucket, and the requests that were given it. -/
structure Rush where
  lim : Limiter
  calls : ℕ → Call

namespace Rush

/-- A critical section of the bucket. -/
inductive Event where
  | reserve (i : ℕ)
  | cancel (i : ℕ)

def step (now : ℚ) (s : Rush) : Event → Option Rush
  | .reserve i =>
    match s.calls i with
    | .waiting =>
      let (lim, res) := s.lim.reserve now
      let call := if refused res now then .holding res else .admitted
      some { lim, calls := update s.calls i call }
    | _ => none
  | .cancel i =>
    match s.calls i with
    | .holding res =>
      some { lim := s.lim.cancel res now, calls := update s.calls i .refused }
    | _ => none

/-- No request has come yet. -/
def start (lim₀ : Limiter) : Rush where
  lim := lim₀
  calls := fun _ => .waiting

/-- All interleavings of the critical sections at `now`. -/
def system (now : ℚ) (lim₀ : Limiter) : StepSystem Rush Event where
  IsInit s := s = start lim₀
  step := step now

/-- What is cancelled is the newest reservation that the limiter knows of. -/
def Newest (s : Rush) : Event → Prop
  | .reserve _ => True
  | .cancel i => ∀ res, s.calls i = .holding res → res.timeToAct = s.lim.lastEvent

instance (s : Rush) (e : Event) : Decidable (Newest s e) :=
  match e with
  | .reserve _ => .isTrue trivial
  | .cancel i =>
    match h : s.calls i with
    | .holding res => decidable_of_iff (res.timeToAct = s.lim.lastEvent) <| by simp [Newest, h]
    | .waiting => .isTrue fun _ h' => by simp [h] at h'
    | .admitted => .isTrue fun _ h' => by simp [h] at h'
    | .refused => .isTrue fun _ h' => by simp [h] at h'

variable {now : ℚ} {lim₀ : Limiter} {s s' : Rush} {e : Event} {n k l : ℕ} {i : ℕ}

/-- What a step can do. -/
theorem step_cases (h : step now s e = some s') :
    (∃ i, e = .reserve i ∧ s.calls i = .waiting ∧ s'.lim = (s.lim.reserve now).1 ∧
      s'.calls = update s.calls i
        (if refused (s.lim.reserve now).2 now then .holding (s.lim.reserve now).2
          else .admitted)) ∨
    (∃ i res, e = .cancel i ∧ s.calls i = .holding res ∧ s'.lim = s.lim.cancel res now ∧
      s'.calls = update s.calls i .refused) := by
  rcases e with i | i
  · left
    simp only [step] at h
    split at h
    · cases h
      exact ⟨i, rfl, ‹_›, rfl, rfl⟩
    · cases h
  · right
    simp only [step] at h
    split at h
    · cases h
      exact ⟨i, _, rfl, ‹_›, rfl, rfl⟩
    · cases h

/-! ### What is owed and what is held -/

/-- When the reservation of the `k`th token that is not there may act. -/
def due (now : ℚ) (lim₀ : Limiter) (k : ℕ) : ℚ := now + (k - lim₀.advance now) / lim₀.rate

theorem due_inj : due now lim₀ k = due now lim₀ l ↔ k = l := by
  have hrate := lim₀.rate_pos.ne'
  unfold due
  rw [add_right_inj, div_left_inj' hrate, sub_left_inj, Nat.cast_inj]

/-- `n` tokens are owed, and each reservation that is held is one of them. -/
structure Inv (now : ℚ) (lim₀ : Limiter) (n : ℕ) (s : Rush) : Prop where
  limit : s.lim.limit = lim₀.limit
  burst : s.lim.burst = lim₀.burst
  owes : s.lim.Owes (lim₀.advance now) now n
  held : ∀ i res, s.calls i = .holding res →
    res.ok = true ∧ ∃ k, k < n ∧ res.timeToAct = due now lim₀ (k + 1)
  apart : ∀ i j res res', s.calls i = .holding res → s.calls j = .holding res' →
    res.timeToAct = res'.timeToAct → i = j

/-- Every token that is owed will be given back. -/
def Covered (now : ℚ) (lim₀ : Limiter) (n : ℕ) (s : Rush) : Prop :=
  ∀ k < n, ∃ i res, s.calls i = .holding res ∧ res.timeToAct = due now lim₀ (k + 1)

theorem Inv.rate (h : Inv now lim₀ n s) : s.lim.rate = lim₀.rate := by
  rw [Limiter.rate, h.limit, ← Limiter.rate]

theorem inv_start (hlast : lim₀.last ≤ now) (h : lim₀.advance now < 1) :
    Inv now lim₀ 0 (start lim₀) where
  limit := rfl
  burst := rfl
  owes := Limiter.owes_zero hlast h
  held _ _ h := by cases h
  apart _ _ _ _ h := by cases h

/-- One more token is owed, and it is held. -/
theorem Inv.reserve (h : Inv now lim₀ n s) (hi : s.calls i = .waiting)
    (hlim : s'.lim = (s.lim.reserve now).1)
    (hcalls : s'.calls = update s.calls i
      (if refused (s.lim.reserve now).2 now then .holding (s.lim.reserve now).2 else .admitted)) :
    Inv now lim₀ (n + 1) s' ∧ (Covered now lim₀ (n + 1) s' ↔ Covered now lim₀ n s) := by
  obtain ⟨howes, hok, hact⟩ := h.owes.reserve
  obtain ⟨hlimit, hburst, -⟩ := s.lim.reserve_spec now
  set res := (s.lim.reserve now).2 with hres
  have hdue : res.timeToAct = due now lim₀ (n + 1) := by rw [hact, h.rate, due]
  have hrefused : refused res now = true := by
    simp [refused, hres, h.owes.delay_pos]
  rw [if_pos hrefused] at hcalls
  -- the calls that hold a reservation afterwards
  have hholding : ∀ j r, s'.calls j = .holding r ↔
      j = i ∧ r = res ∨ s.calls j = .holding r := by
    intro j r
    rw [hcalls]
    by_cases hj : j = i
    · subst hj
      simp [hi, eq_comm]
    · simp [hj]
  have hnew : s'.calls i = .holding res := (hholding i res).mpr (.inl ⟨rfl, rfl⟩)
  -- a reservation that was held before is not due when the new one is
  have hne : ∀ j r, s.calls j = .holding r → r.timeToAct ≠ res.timeToAct := by
    intro j r hj heq
    obtain ⟨-, k, hk, hkdue⟩ := h.held j r hj
    rw [hkdue, hdue, due_inj] at heq
    omega
  refine ⟨⟨?_, ?_, ?_, ?_, ?_⟩, ?_⟩
  · rw [hlim, hlimit, h.limit]
  · rw [hlim, hburst, h.burst]
  · rw [hlim]
    exact howes
  · intro j r hj
    rcases (hholding j r).mp hj with ⟨-, rfl⟩ | hj
    · exact ⟨hok, n, Nat.lt_succ_self n, hdue⟩
    · obtain ⟨hrok, k, hk, hkdue⟩ := h.held j r hj
      exact ⟨hrok, k, hk.trans (Nat.lt_succ_self n), hkdue⟩
  · intro j j' r r' hj hj' heq
    rcases (hholding j r).mp hj with ⟨rfl, rfl⟩ | hj <;>
      rcases (hholding j' r').mp hj' with ⟨rfl, rfl⟩ | hj'
    · rfl
    · exact absurd heq.symm (hne j' r' hj')
    · exact absurd heq (hne j r hj)
    · exact h.apart j j' r r' hj hj' heq
  · constructor
    · intro hcov k hk
      obtain ⟨j, r, hj, hkdue⟩ := hcov k (hk.trans (Nat.lt_succ_self n))
      rcases (hholding j r).mp hj with ⟨-, rfl⟩ | hj
      · rw [hdue, due_inj] at hkdue
        omega
      · exact ⟨j, r, hj, hkdue⟩
    · intro hcov k hk
      rcases Nat.lt_succ_iff_lt_or_eq.mp hk with hk | rfl
      · obtain ⟨j, r, hj, hkdue⟩ := hcov k hk
        exact ⟨j, r, (hholding j r).mpr (.inr hj), hkdue⟩
      · exact ⟨i, res, hnew, hdue⟩

/-! ### Cancelling a reservation -/

section Cancel

variable {res : Reservation}

theorem holding_cancel_iff (hcalls : s'.calls = update s.calls i .refused) {j : ℕ}
    {r : Reservation} : s'.calls j = .holding r ↔ j ≠ i ∧ s.calls j = .holding r := by
  rw [hcalls]
  by_cases hj : j = i
  · subst hj
    simp
  · simp [hj]

theorem Inv.apart_cancel (h : Inv now lim₀ n s)
    (hcalls : s'.calls = update s.calls i .refused) (j j' : ℕ) (r r' : Reservation)
    (hj : s'.calls j = .holding r) (hj' : s'.calls j' = .holding r') :
    r.timeToAct = r'.timeToAct → j = j' :=
  h.apart j j' r r' ((holding_cancel_iff hcalls).mp hj).2 ((holding_cancel_iff hcalls).mp hj').2

/-- No other call holds the token that `i` gives up. -/
theorem Inv.ne_of_cancel (h : Inv now lim₀ n s) (hi : s.calls i = .holding res)
    (hcalls : s'.calls = update s.calls i .refused) {j : ℕ} {r : Reservation}
    (hj : s'.calls j = .holding r) : r.timeToAct ≠ res.timeToAct := by
  intro heq
  obtain ⟨hne, hj⟩ := (holding_cancel_iff hcalls).mp hj
  exact hne (h.apart j i r res hj hi heq)

/-- The newest reservation is given back. -/
theorem Inv.cancel_newest (h : Inv now lim₀ (k + 1) s) (hi : s.calls i = .holding res)
    (hdue : res.timeToAct = due now lim₀ (k + 1)) (hlim : s'.lim = s.lim.cancel res now)
    (hcalls : s'.calls = update s.calls i .refused) :
    Inv now lim₀ k s' ∧ (Covered now lim₀ k s' ↔ Covered now lim₀ (k + 1) s) := by
  obtain ⟨howes, hlimit, hburst⟩ :=
    h.owes.cancel_newest (h.held i res hi).1 (by rw [hdue, due, h.rate])
  refine ⟨⟨?_, ?_, ?_, ?_, h.apart_cancel hcalls⟩, ?_, ?_⟩
  · rw [hlim, hlimit, h.limit]
  · rw [hlim, hburst, h.burst]
  · rw [hlim]
    exact howes
  · intro j r hj
    obtain ⟨hok, l, hl, hldue⟩ := h.held j r ((holding_cancel_iff hcalls).mp hj).2
    have hlk : l ≠ k := by
      rintro rfl
      exact h.ne_of_cancel hi hcalls hj (hldue.trans hdue.symm)
    exact ⟨hok, l, by omega, hldue⟩
  · intro hcov l hl
    rcases Nat.lt_succ_iff_lt_or_eq.mp hl with hl | rfl
    · obtain ⟨j, r, hj, hldue⟩ := hcov l hl
      exact ⟨j, r, ((holding_cancel_iff hcalls).mp hj).2, hldue⟩
    · exact ⟨i, res, hi, hdue⟩
  · intro hcov l hl
    obtain ⟨j, r, hj, hldue⟩ := hcov l (hl.trans (Nat.lt_succ_self k))
    refine ⟨j, r, (holding_cancel_iff hcalls).mpr ⟨?_, hj⟩, hldue⟩
    rintro rfl
    obtain rfl : res = r := by simpa [hi] using hj
    rw [hdue, due_inj] at hldue
    omega

/-- An older reservation is lost: nothing comes back, and nobody holds its token any more. -/
theorem Inv.cancel_older (h : Inv now lim₀ n s) (hi : s.calls i = .holding res) (hk : k + 1 < n)
    (hdue : res.timeToAct = due now lim₀ (k + 1)) (hlim : s'.lim = s.lim.cancel res now)
    (hcalls : s'.calls = update s.calls i .refused) :
    Inv now lim₀ n s' ∧ ¬ Covered now lim₀ n s' := by
  have hsame : s'.lim = s.lim := by
    rw [hlim]
    exact h.owes.cancel_older hk (by rw [hdue, due, h.rate])
  refine ⟨⟨?_, ?_, ?_, ?_, h.apart_cancel hcalls⟩, ?_⟩
  · rw [hsame, h.limit]
  · rw [hsame, h.burst]
  · rw [hsame]
    exact h.owes
  · intro j r hj
    exact h.held j r ((holding_cancel_iff hcalls).mp hj).2
  · intro hcov
    obtain ⟨j, r, hj, hkdue⟩ := hcov k (by omega)
    exact h.ne_of_cancel hi hcalls hj (hkdue.trans hdue.symm)

/-- Only the newest reservation is given back; any other is lost. -/
theorem Inv.cancel (h : Inv now lim₀ n s) (hi : s.calls i = .holding res)
    (hlim : s'.lim = s.lim.cancel res now) (hcalls : s'.calls = update s.calls i .refused) :
    ∃ n', Inv now lim₀ n' s' ∧
      (Covered now lim₀ n' s' ↔ Covered now lim₀ n s ∧ res.timeToAct = s.lim.lastEvent) := by
  obtain ⟨-, k, hk, hdue⟩ := h.held i res hi
  have hnewest : res.timeToAct = s.lim.lastEvent ↔ k + 1 = n := by
    rw [h.owes.lastEvent_eq (by omega), h.rate, ← due, hdue, due_inj]
  rw [hnewest]
  by_cases hlast : k + 1 = n
  · subst hlast
    obtain ⟨hinv, hcov⟩ := h.cancel_newest hi hdue hlim hcalls
    exact ⟨k, hinv, by rw [hcov, eq_self_iff_true, and_true]⟩
  · obtain ⟨hinv, hcov⟩ := h.cancel_older hi (by omega) hdue hlim hcalls
    exact ⟨n, hinv, iff_of_false hcov fun hboth => hlast hboth.2⟩

end Cancel

theorem inv_step (h : Inv now lim₀ n s) (hstep : step now s e = some s') :
    ∃ n', Inv now lim₀ n' s' ∧
      (Covered now lim₀ n' s' ↔ Covered now lim₀ n s ∧ Newest s e) := by
  obtain ⟨i, rfl, hi, hlim, hcalls⟩ | ⟨i, res, rfl, hi, hlim, hcalls⟩ := step_cases hstep
  · obtain ⟨hinv, hcov⟩ := h.reserve hi hlim hcalls
    exact ⟨n + 1, hinv, by rw [hcov]; simp [Newest]⟩
  · obtain ⟨n', hinv, hcov⟩ := h.cancel hi hlim hcalls
    refine ⟨n', hinv, ?_⟩
    rw [hcov]
    simp [Newest, hi]

/-- In a run nothing is lost if and only if each step cancels the newest reservation. -/
theorem inv_run {as : List Event} (h : Inv now lim₀ n s)
    (hrun : (system now lim₀).run s as = some s') :
    ∃ n', Inv now lim₀ n' s' ∧ (Covered now lim₀ n' s' ↔
      Covered now lim₀ n s ∧ (system now lim₀).EveryStep Newest s as) := by
  induction as generalizing s n with
  | nil =>
    cases hrun
    exact ⟨n, h, by simp [StepSystem.EveryStep]⟩
  | cons e as ih =>
    obtain ⟨m, hm, hrest⟩ := (system now lim₀).run_cons_eq_some.mp hrun
    obtain ⟨n₁, hinv, hcov⟩ := inv_step h hm
    obtain ⟨n', hinv', hcov'⟩ := ih hinv hrest
    refine ⟨n', hinv', ?_⟩
    rw [hcov', hcov, StepSystem.EveryStep, and_assoc]
    simp [hm]

/-- A request that was admitted stays admitted. -/
theorem admitted_run {as : List Event} (h : s.calls i = .admitted)
    (hrun : (system now lim₀).run s as = some s') : s'.calls i = .admitted := by
  refine StepSystem.run_invariant' (I := fun s => s.calls i = .admitted) ?_ hrun h
  intro s e s' hs hstep
  obtain ⟨j, rfl, hj, -, hcalls⟩ | ⟨j, res, rfl, hj, -, hcalls⟩ := step_cases hstep
  all_goals
    have hne : i ≠ j := by
      rintro rfl
      rw [hs] at hj
      cases hj
    rw [hcalls, update_of_ne hne, hs]

/-- A bucket that has a token admits the first request. -/
theorem admitted_of_step_start (h : 1 ≤ lim₀.advance now)
    (hstep : step now (start lim₀) e = some s') : ∃ i, s'.calls i = .admitted := by
  obtain ⟨i, rfl, -, -, hcalls⟩ | ⟨i, res, rfl, hi, -, -⟩ := step_cases hstep
  · have hdelay : ¬ 0 < (lim₀.reserve now).2.delay now := by
      rw [Limiter.delay_reserve_pos_iff]
      exact not_lt.mpr h
    have hrefused : refused (lim₀.reserve now).2 now = false := by
      simp [refused, (lim₀.reserve_spec now).2.2.2.2.2.1, not_lt.mp hdelay]
    refine ⟨i, ?_⟩
    rw [hcalls, Function.update_self]
    simp [start, hrefused]
  · cases hi

/-- Requests that come at one instant and are all refused leave the bucket as it was if and only if
each of them cancels the newest reservation there is. -/
theorem restored_iff (hlast : lim₀.last ≤ now) {as : List Event}
    (hrun : (system now lim₀).run (start lim₀) as = some s)
    (hrefused : ∀ i, s.calls i = .waiting ∨ s.calls i = .refused) :
    Restored now s.lim lim₀ ↔ (system now lim₀).EveryStep Newest (start lim₀) as := by
  by_cases hempty : lim₀.advance now < 1
  · obtain ⟨n, hinv, hcov⟩ := inv_run (inv_start hlast hempty) hrun
    have hzero : Covered now lim₀ n s ↔ n = 0 := by
      constructor
      · intro hall
        by_contra hne
        obtain ⟨i, res, hi, -⟩ := hall 0 (Nat.pos_of_ne_zero hne)
        rcases hrefused i with h | h <;> simp [hi] at h
      · rintro rfl k hk
        omega
    rw [restored_iff_owes_zero hinv.owes hlast hinv.limit hinv.burst, ← hzero, hcov]
    simp [Covered]
  · -- with a token in the bucket, no request can have come
    cases as with
    | nil =>
      cases hrun
      exact iff_of_true ⟨rfl, fun _ _ => rfl⟩ trivial
    | cons e as =>
      obtain ⟨m, hm, hrest⟩ := (system now lim₀).run_cons_eq_some.mp hrun
      obtain ⟨i, hi⟩ := admitted_of_step_start (not_lt.mp hempty) hm
      have hadmitted := admitted_run hi hrest
      rcases hrefused i with h | h <;> simp [hadmitted] at h

section Example

/-- A bucket of one token that has just been taken. -/
def drained : Limiter where
  limit := 1
  burst := 1
  tokens := 0
  last := 0
  lastEvent := 0
  limit_pos := by norm_num
  burst_pos := by norm_num
  tokens_le := by norm_num

/-- A request that does not come stays out. -/
theorem waiting_run {as : List Event} (h : s.calls i = .waiting) (has : .reserve i ∉ as)
    (hrun : (system now lim₀).run s as = some s') : s'.calls i = .waiting := by
  have hother : (system now lim₀).EveryStep (fun _ e => e ≠ .reserve i) s as :=
    StepSystem.everyStep_of_forall_mem s fun e he heq => has (heq ▸ he)
  refine StepSystem.run_invariant (I := fun s => s.calls i = .waiting) ?_ hother hrun h
  intro s e s' hs hne hstep
  obtain ⟨j, rfl, -, -, hcalls⟩ | ⟨j, res, rfl, hj, -, hcalls⟩ := step_cases hstep
  · have hij : i ≠ j := fun heq => hne (heq ▸ rfl)
    rw [hcalls, update_of_ne hij, hs]
  · have hij : i ≠ j := by
      rintro rfl
      rw [hs] at hj
      cases hj
    rw [hcalls, update_of_ne hij, hs]

/-- Two requests that are refused, and how many tokens they leave. -/
theorem exists_run_of_eval (now : ℚ) (lim₀ : Limiter) (as : List Event) (x : ℚ)
    (has : ∀ i ≥ 2, .reserve i ∉ as)
    (heval : ((system now lim₀).run (start lim₀) as).map
      (fun s => (s.calls 0, s.calls 1, s.lim.advance now)) = some (.refused, .refused, x)) :
    ∃ s, (system now lim₀).run (start lim₀) as = some s ∧
      (∀ i, s.calls i = .waiting ∨ s.calls i = .refused) ∧ s.lim.advance now = x := by
  obtain ⟨s, hrun, hs⟩ := Option.map_eq_some_iff.mp heval
  simp only [Prod.mk.injEq] at hs
  obtain ⟨hzero, hone, htokens⟩ := hs
  refine ⟨s, hrun, fun i => ?_, htokens⟩
  match i with
  | 0 => exact .inr hzero
  | 1 => exact .inr hone
  | i + 2 => exact .inl (waiting_run rfl (has (i + 2) (by omega)) hrun)

/-- The second reservation is cancelled first: nothing is lost. -/
theorem restored_nested : ∃ s,
    (system 0 drained).run (start drained) [.reserve 0, .reserve 1, .cancel 1, .cancel 0] = some s ∧
      (∀ i, s.calls i = .waiting ∨ s.calls i = .refused) ∧ Restored 0 s.lim drained := by
  obtain ⟨s, hrun, hrefused, -⟩ := exists_run_of_eval 0 drained
    [.reserve 0, .reserve 1, .cancel 1, .cancel 0] 0 (by simp; omega) (by decide +kernel)
  refine ⟨s, hrun, hrefused, (restored_iff le_rfl hrun hrefused).mpr ?_⟩
  exact StepSystem.everyStep_of_checkEvery (by decide +kernel)

/-- The first reservation is cancelled first: a token is gone, although both requests were
refused. -/
theorem not_restored : ∃ s,
    (system 0 drained).run (start drained) [.reserve 0, .reserve 1, .cancel 0, .cancel 1] = some s ∧
      (∀ i, s.calls i = .waiting ∨ s.calls i = .refused) ∧
      drained.advance 0 = 0 ∧ s.lim.advance 0 = -1 ∧ ¬ Restored 0 s.lim drained := by
  obtain ⟨s, hrun, hrefused, htokens⟩ := exists_run_of_eval 0 drained
    [.reserve 0, .reserve 1, .cancel 0, .cancel 1] (-1) (by simp; omega) (by decide +kernel)
  have hdrained : drained.advance 0 = 0 := by decide +kernel
  refine ⟨s, hrun, hrefused, hdrained, htokens, fun hrestored => ?_⟩
  have := hrestored.tokens
  rw [htokens, hdrained] at this
  norm_num at this

end Example

end Rush

end HttpWare
