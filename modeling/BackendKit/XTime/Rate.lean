import BackendKit.GoStd.Time
import Mathlib.Algebra.Order.Field.Rat
import Mathlib.Tactic.FieldSimp
import Mathlib.Tactic.Linarith
import Mathlib.Tactic.Ring

/-!
# The rate limiter of `golang.org/x/time/rate`

`rate.Limiter` with exact arithmetic: tokens and instants (in nanoseconds) are rational numbers.

`Reserve` takes a token, also when there is none, and tells when its holder may act. `Cancel`
gives the token back, except for what was reserved after it: the limiter only remembers the time
to act of the newest reservation, and reads off it how much that was.

Everything about the passing of time is in `Limiter.advance`, the number of tokens at an instant.
`Limiter.Owes` describes a limiter from which tokens were reserved at one instant that it did not
have: `Owes.reserve` says what a further reservation does, `Owes.cancel_newest` and
`Owes.cancel_older` which of the reservations can be taken back.
-/

open GoStd

namespace XTime

/-- A bucket of at most `burst` tokens that is filled at `limit` tokens per second. -/
@[ext]
structure Limiter where
  limit : ℚ
  burst : ℤ
  tokens : ℚ
  /-- When `tokens` was last updated. -/
  last : ℚ
  /-- The time to act of the newest reservation. -/
  lastEvent : ℚ
  limit_pos : 0 < limit
  burst_pos : 0 < burst
  tokens_le : tokens ≤ burst

/-- A permission to act at `timeToAct`. -/
@[ext]
structure Reservation where
  ok : Bool
  timeToAct : ℚ
  deriving DecidableEq

/-- How many tokens are filled in during `d`. -/
def tokensFromDuration (limit d : ℚ) : ℚ := limit * (d / Duration.second)

/-- How long it takes to fill in `tokens`. -/
def durationFromTokens (limit tokens : ℚ) : ℚ := tokens / limit * Duration.second

/-- `NewLimiter`: a full bucket. -/
def Limiter.new (limit : ℚ) (burst : ℤ) (hlimit : 0 < limit) (hburst : 0 < burst) : Limiter where
  limit := limit
  burst := burst
  tokens := burst
  last := Time.zero
  lastEvent := Time.zero
  limit_pos := hlimit
  burst_pos := hburst
  tokens_le := le_refl _

namespace Limiter

variable (lim : Limiter)

/-- The number of tokens at `t`. A clock that has gone back fills in nothing. -/
def advance (t : ℚ) : ℚ :=
  min lim.burst (lim.tokens + tokensFromDuration lim.limit (t - min lim.last t))

theorem advance_le_burst (t : ℚ) : lim.advance t ≤ lim.burst := min_le_left _ _

/-- `ReserveN(t, 1)`. -/
def reserve (t : ℚ) : Limiter × Reservation :=
  let tokens := lim.advance t - 1
  let wait := if tokens < 0 then durationFromTokens lim.limit (-tokens) else 0
  if 1 ≤ lim.burst then
    ({ lim with
        tokens
        last := t
        lastEvent := t + wait
        tokens_le := (sub_le_self _ zero_le_one).trans (lim.advance_le_burst t) },
      { ok := true, timeToAct := t + wait })
  else (lim, { ok := false, timeToAct := Time.zero })

/-- `AllowN(t, 1)`: a token is taken if its taker need not wait. -/
def allow (t : ℚ) : Limiter × Bool :=
  let tokens := lim.advance t - 1
  let wait := if tokens < 0 then durationFromTokens lim.limit (-tokens) else 0
  if 1 ≤ lim.burst ∧ wait ≤ 0 then
    ({ lim with
        tokens
        last := t
        lastEvent := t + wait
        tokens_le := (sub_le_self _ zero_le_one).trans (lim.advance_le_burst t) }, true)
  else (lim, false)

/-- `CancelAt(t)` of a reservation of one token. -/
def cancel (r : Reservation) (t : ℚ) : Limiter :=
  if !r.ok || r.timeToAct < t then lim
  else
    -- what was reserved after `r` is not given back
    let restore := 1 - tokensFromDuration lim.limit (lim.lastEvent - r.timeToAct)
    if restore ≤ 0 then lim
    else
      let prevEvent := r.timeToAct + durationFromTokens lim.limit (-1)
      { lim with
        tokens := min lim.burst (lim.advance t + restore)
        last := t
        lastEvent :=
          if r.timeToAct = lim.lastEvent ∧ t ≤ prevEvent then prevEvent else lim.lastEvent
        tokens_le := min_le_left _ _ }

end Limiter

/-- `DelayFrom(t)`. -/
def Reservation.delay (r : Reservation) (t : ℚ) : ℚ :=
  if r.ok then max 0 (r.timeToAct - t) else Duration.maxValue

namespace Limiter

/-! ### The passing of time -/

/-- Tokens per nanosecond. -/
def rate (lim : Limiter) : ℚ := lim.limit / Duration.second

variable {lim : Limiter} {t now : ℚ}

theorem second_pos : (0 : ℚ) < Duration.second := by
  norm_num [Duration.second]

theorem rate_pos (lim : Limiter) : 0 < lim.rate := div_pos lim.limit_pos second_pos

theorem tokensFromDuration_eq (d : ℚ) : tokensFromDuration lim.limit d = lim.rate * d := by
  unfold tokensFromDuration rate
  ring

theorem durationFromTokens_eq (x : ℚ) : durationFromTokens lim.limit x = x / lim.rate := by
  have hlimit := lim.limit_pos.ne'
  have hsecond := second_pos.ne'
  unfold durationFromTokens rate
  field_simp

theorem advance_of_le (h : lim.last ≤ t) :
    lim.advance t = min (lim.burst : ℚ) (lim.tokens + lim.rate * (t - lim.last)) := by
  rw [advance, min_eq_left h, tokensFromDuration_eq]

theorem advance_of_last_eq (h : lim.last = t) : lim.advance t = lim.tokens := by
  rw [advance_of_le h.le, h, sub_self, mul_zero, add_zero, min_eq_right lim.tokens_le]

/-- A full bucket stays full. -/
theorem advance_of_tokens_eq (h : lim.tokens = lim.burst) (t : ℚ) : lim.advance t = lim.burst := by
  have hgain : 0 ≤ lim.rate * (t - min lim.last t) :=
    mul_nonneg lim.rate_pos.le (sub_nonneg.mpr (min_le_right _ _))
  rw [advance, tokensFromDuration_eq, h]
  exact min_eq_left (by linarith)

/-- A bucket gains at most what the rate gives. -/
theorem advance_le_add (hlast : lim.last ≤ now) (ht : now ≤ t) :
    lim.advance t ≤ lim.advance now + lim.rate * (t - now) := by
  have hgain : 0 ≤ lim.rate * (t - now) := mul_nonneg lim.rate_pos.le (sub_nonneg.mpr ht)
  rw [advance_of_le (hlast.trans ht), advance_of_le hlast]
  rcases min_choice (lim.burst : ℚ) (lim.tokens + lim.rate * (now - lim.last)) with hmin | hmin
  · rw [hmin]
    exact (min_le_left _ _).trans (by linarith)
  · rw [hmin]
    refine (min_le_right _ _).trans (le_of_eq ?_)
    ring

/-- To look at a bucket now and later is to look at it later. -/
theorem advance_eq_of_le (hlast : lim.last ≤ now) (ht : now ≤ t) :
    lim.advance t = min (lim.burst : ℚ) (lim.advance now + lim.rate * (t - now)) := by
  have hgain : 0 ≤ lim.rate * (t - now) := mul_nonneg lim.rate_pos.le (sub_nonneg.mpr ht)
  apply le_antisymm
  · exact le_min (lim.advance_le_burst t) (advance_le_add hlast ht)
  · rw [advance_of_le (hlast.trans ht), advance_of_le hlast]
    refine le_min (min_le_left _ _) ?_
    have hle : min (lim.burst : ℚ) (lim.tokens + lim.rate * (now - lim.last)) ≤
        lim.tokens + lim.rate * (now - lim.last) := min_le_right _ _
    refine (min_le_right _ _).trans ?_
    linarith

/-! ### One reservation -/

/-- A reservation takes one token; whoever finds none waits until it would have been filled in. -/
theorem reserve_spec (lim : Limiter) (t : ℚ) :
    (lim.reserve t).1.limit = lim.limit ∧ (lim.reserve t).1.burst = lim.burst ∧
      (lim.reserve t).1.tokens = lim.advance t - 1 ∧ (lim.reserve t).1.last = t ∧
      (lim.reserve t).1.lastEvent = (lim.reserve t).2.timeToAct ∧ (lim.reserve t).2.ok = true ∧
      (lim.reserve t).2.timeToAct = t + max 0 (1 - lim.advance t) / lim.rate := by
  have hburst : 1 ≤ lim.burst := lim.burst_pos
  have hwait : (if lim.advance t - 1 < 0 then durationFromTokens lim.limit (-(lim.advance t - 1))
      else 0) = max 0 (1 - lim.advance t) / lim.rate := by
    split
    · rw [max_eq_right (by linarith), durationFromTokens_eq, neg_sub]
    · rw [max_eq_left (by linarith), zero_div]
  simp only [reserve, if_pos hburst, hwait, and_self]

theorem rate_reserve (lim : Limiter) (t : ℚ) : (lim.reserve t).1.rate = lim.rate := by
  rw [rate, (reserve_spec lim t).1, rate]

/-- Whoever finds a token need not wait. -/
theorem delay_reserve_pos_iff (lim : Limiter) (t : ℚ) :
    0 < (lim.reserve t).2.delay t ↔ lim.advance t < 1 := by
  obtain ⟨-, -, -, -, -, hok, htime⟩ := reserve_spec lim t
  have hdelay : (lim.reserve t).2.delay t = max 0 (1 - lim.advance t) / lim.rate := by
    have hnonneg : 0 ≤ max 0 (1 - lim.advance t) / lim.rate :=
      div_nonneg (le_max_left _ _) lim.rate_pos.le
    rw [Reservation.delay, if_pos hok, htime, add_sub_cancel_left, max_eq_right hnonneg]
  rw [hdelay]
  constructor
  · intro hpos
    by_contra hle
    rw [max_eq_left (by linarith), zero_div] at hpos
    exact lt_irrefl 0 hpos
  · intro hlt
    exact div_pos (lt_max_of_lt_right (by linarith)) lim.rate_pos

/-! ### Reservations of tokens that are not there -/

/-- At `now` the bucket would hold `x < 1` tokens, and `n` tokens have been reserved then and not
given back. -/
structure Owes (x now : ℚ) (n : ℕ) (lim : Limiter) : Prop where
  lt_one : x < 1
  le_burst : x ≤ lim.burst
  last_le : lim.last ≤ now
  advance_eq : lim.advance now = x - n
  /-- The newest of them is the last event. -/
  lastEvent_eq : n ≠ 0 → lim.lastEvent = now + (n - x) / lim.rate

theorem owes_zero (hlast : lim.last ≤ now) (h : lim.advance now < 1) :
    lim.Owes (lim.advance now) now 0 where
  lt_one := h
  le_burst := lim.advance_le_burst now
  last_le := hlast
  advance_eq := by simp
  lastEvent_eq h := absurd rfl h

variable {x : ℚ} {n k : ℕ}

/-- The tokens that were there before are there again if and only if none is owed. -/
theorem Owes.advance_eq_iff {lim₀ : Limiter} (h : lim.Owes (lim₀.advance now) now n)
    (hlast : lim₀.last ≤ now) (hlimit : lim.limit = lim₀.limit) (hburst : lim.burst = lim₀.burst) :
    (∀ t ≥ now, lim.advance t = lim₀.advance t) ↔ n = 0 := by
  constructor
  · intro hsame
    have := h.advance_eq.symm.trans (hsame now le_rfl)
    have hzero : (n : ℚ) = 0 := by linarith
    exact_mod_cast hzero
  · rintro rfl t ht
    rw [advance_eq_of_le h.last_le ht, advance_eq_of_le hlast ht, h.advance_eq, hburst, rate, hlimit,
      ← rate, Nat.cast_zero, sub_zero]

theorem Owes.delay_pos (h : lim.Owes x now n) : 0 < (lim.reserve now).2.delay now := by
  rw [delay_reserve_pos_iff, h.advance_eq]
  have hx := h.lt_one
  have hn : (0 : ℚ) ≤ n := Nat.cast_nonneg n
  linarith

/-- The next reservation owes one more token, and is the last event. -/
theorem Owes.reserve (h : lim.Owes x now n) :
    (lim.reserve now).1.Owes x now (n + 1) ∧ (lim.reserve now).2.ok = true ∧
      (lim.reserve now).2.timeToAct = now + ((n + 1 : ℕ) - x) / lim.rate := by
  obtain ⟨hlimit, hburst, htokens, hlast, hevent, hok, htime⟩ := reserve_spec lim now
  have hx := h.lt_one
  have hn : (0 : ℚ) ≤ n := Nat.cast_nonneg n
  have hact : (lim.reserve now).2.timeToAct = now + ((n + 1 : ℕ) - x) / lim.rate := by
    rw [htime, h.advance_eq, max_eq_right (by linarith)]
    congr 2
    push_cast
    ring
  refine ⟨⟨h.lt_one, hburst ▸ h.le_burst, hlast.le, ?_, fun _ => ?_⟩, hok, hact⟩
  · rw [advance_of_last_eq hlast, htokens, h.advance_eq]
    push_cast
    ring
  · rw [hevent, hact, rate_reserve]

/-- Cancelling the newest reservation gives its token back. -/
theorem Owes.cancel_newest (h : lim.Owes x now (n + 1)) {r : Reservation} (hok : r.ok = true)
    (hact : r.timeToAct = now + ((n + 1 : ℕ) - x) / lim.rate) :
    (lim.cancel r now).Owes x now n ∧ (lim.cancel r now).limit = lim.limit ∧
      (lim.cancel r now).burst = lim.burst := by
  have hrate := lim.rate_pos
  have hx := h.lt_one
  have hn : (0 : ℚ) ≤ n := Nat.cast_nonneg n
  have hnewest : r.timeToAct = lim.lastEvent := by rw [hact, h.lastEvent_eq (Nat.succ_ne_zero n)]
  have hlater : ¬ r.timeToAct < now := by
    rw [hact, not_lt, le_add_iff_nonneg_right]
    refine div_nonneg ?_ hrate.le
    push_cast
    linarith
  have hrestore : 1 - tokensFromDuration lim.limit (lim.lastEvent - r.timeToAct) = 1 := by
    rw [hnewest, sub_self, tokensFromDuration_eq, mul_zero, sub_zero]
  have hprev : r.timeToAct + durationFromTokens lim.limit (-1) = now + (n - x) / lim.rate := by
    rw [hact, durationFromTokens_eq]
    push_cast
    ring
  have htokens : min (lim.burst : ℚ) (lim.advance now + 1) = x - n := by
    have hburst := h.le_burst
    rw [h.advance_eq, min_eq_right]
    · push_cast
      ring
    · push_cast
      linarith
  have hcancel : lim.cancel r now =
      { lim with
        tokens := min lim.burst (lim.advance now + 1)
        last := now
        lastEvent := if now ≤ now + (n - x) / lim.rate then now + (n - x) / lim.rate
          else lim.lastEvent
        tokens_le := min_le_left _ _ } := by
    have hguard : (!r.ok || decide (r.timeToAct < now)) = false := by simp [hok, hlater]
    have hlast : (r.timeToAct = lim.lastEvent) = True := eq_true hnewest
    simp only [cancel, hguard, Bool.false_eq_true, if_false, hrestore, hprev, hlast, true_and,
      not_le.mpr one_pos]
  rw [hcancel]
  refine ⟨⟨hx, h.le_burst, le_refl now, ?_, fun hne => ?_⟩, rfl, rfl⟩
  · rw [advance_of_last_eq rfl]
    exact htokens
  · -- the one before is still to come, so it becomes the last event again
    have hone : (1 : ℚ) ≤ n := by exact_mod_cast Nat.one_le_iff_ne_zero.mpr hne
    refine if_pos ?_
    rw [le_add_iff_nonneg_right]
    exact div_nonneg (by linarith) hrate.le

/-- Cancelling any other reservation gives nothing back. -/
theorem Owes.cancel_older (h : lim.Owes x now n) {r : Reservation} (hk : k < n)
    (hact : r.timeToAct = now + (k - x) / lim.rate) : lim.cancel r now = lim := by
  have hrate := lim.rate_pos
  have hevent : lim.lastEvent - r.timeToAct = (n - k) / lim.rate := by
    rw [h.lastEvent_eq (by omega), hact]
    ring
  have hle : (k : ℚ) + 1 ≤ n := by exact_mod_cast hk
  have hrestore : 1 - tokensFromDuration lim.limit (lim.lastEvent - r.timeToAct) ≤ 0 := by
    rw [tokensFromDuration_eq, hevent, mul_div_cancel₀ _ hrate.ne']
    linarith
  unfold cancel
  split
  · rfl
  · exact if_pos hrestore

end Limiter

end XTime
