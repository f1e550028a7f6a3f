import BackendKit.HttpWare.Tiers
import BackendKit.ToMathlib.TokenBucket

/-!
# What a key may spend

Over any schedule of requests, handled one at a time, and of cleanups (`httpware/keyed_ratelimit.go`):
how many requests of a key are admitted in a window of time.

A bucket that is dropped is replaced by a full one. That is harmless if the dropped bucket would
have been full by then, which needs the tier's burst to be refilled within `IdleTTL`. If requests take
no time, the budget of a tier is kept in all schedules if and only if this is so. If time passes between
the two clock readings of a request, the bucket is younger than its `lastSeen` says, and that time has
to be refilled as well (`Ledger.withinBudget_iff`).

`State.bucket` forgets the addresses and has a bucket for each key; `State.handle_cases` is the
middleware in these terms. `Ledger.Logged` ties the bucket of a key to a log of a token bucket, of
which `TokenBucket.takenIn_le` is the bound.
-/

open GoStd XTime
open GoStd.Duration (minute second)

namespace HttpWare

/-! ### One request and its bucket -/

/-- A request is admitted if it finds a token, and then takes it. Otherwise it takes nothing. -/
theorem ask_spec {lim : Limiter} {now : ℚ} (h : lim.last ≤ now ∨ 1 ≤ lim.advance now) :
    (ask lim now).1.limit = lim.limit ∧ (ask lim now).1.burst = lim.burst ∧
      (ask lim now).1.last ≤ now ∧
      ((1 ≤ lim.advance now ∧ (ask lim now).2 = .next ∧
          (ask lim now).1.advance now = lim.advance now - 1) ∨
        (lim.advance now < 1 ∧ (ask lim now).2 ≠ .next ∧
          (ask lim now).1.advance now = lim.advance now)) := by
  obtain ⟨hlimit, hburst, htokens, hlast, -, hok, -⟩ := lim.reserve_spec now
  have hdelay := lim.delay_reserve_pos_iff now
  by_cases htoken : 1 ≤ lim.advance now
  · have hadmit : refused (lim.reserve now).2 now = false := by
      have : ¬ 0 < (lim.reserve now).2.delay now := by
        rw [hdelay]
        exact not_lt.mpr htoken
      simp [refused, hok, not_lt.mp this]
    have hask : ask lim now = ((lim.reserve now).1, .next) := by simp [ask, hadmit]
    rw [hask]
    refine ⟨hlimit, hburst, hlast.le, Or.inl ⟨htoken, rfl, ?_⟩⟩
    rw [Limiter.advance_of_last_eq hlast, htokens]
  · have hlt := not_le.mp htoken
    have hrefuse : refused (lim.reserve now).2 now = true := by
      simp [refused, hdelay.mpr hlt]
    have hask : (ask lim now).1 = (lim.reserve now).1.cancel (lim.reserve now).2 now ∧
        (ask lim now).2 ≠ .next := by
      simp [ask, hrefuse, writeRateLimited]
    -- the reservation is the newest one, so cancelling it gives the token back
    obtain ⟨howes, -, hact⟩ :=
      (Limiter.owes_zero (h.resolve_right htoken) hlt).reserve
    rw [← Limiter.rate_reserve lim now] at hact
    obtain ⟨hback, hlimit', hburst'⟩ := howes.cancel_newest hok hact
    rw [hask.1]
    refine ⟨hlimit'.trans hlimit, hburst'.trans hburst, hback.last_le, Or.inr ⟨hlt, hask.2, ?_⟩⟩
    rw [hback.advance_eq, Nat.cast_zero, sub_zero]

theorem advance_newLimiter (cfg : Limits) (anonymous : Bool) (t : ℚ) :
    (cfg.newLimiter anonymous).advance t = (cfg.newLimiter anonymous).burst := by
  apply Limiter.advance_of_tokens_eq
  cases anonymous <;> rfl

/-! ### Buckets by key -/

namespace State

/-- The bucket of a key, and when it was last asked for. -/
def bucket (s : State) (key : Bytes) : Option (Limiter × ℤ) :=
  (s.rl.keys.lookup key).map fun kl => (s.limiters kl.limiter, kl.lastSeen)

/-- The bucket that a request finds, or a new one of its tier. -/
def found (s : State) (key : Bytes) (tier : Limiter) : Limiter :=
  ((s.bucket key).map Prod.fst).getD tier

/-- No two keys have the same bucket. -/
structure Separate (s : State) : Prop where
  lt_next : ∀ key kl, s.rl.keys.lookup key = some kl → kl.limiter < s.next
  apart : ∀ key key' kl kl', s.rl.keys.lookup key = some kl →
    s.rl.keys.lookup key' = some kl' → kl.limiter = kl'.limiter → key = key'

variable {s : State} {key key' : Bytes}

theorem Separate.seen (h : s.Separate) {kl : TenantLimiter} (hkl : s.rl.keys.lookup key = some kl)
    (now : ℤ) : (s.seen key kl now).Separate := by
  -- every entry has the address it had
  have hold : ∀ k v, (s.seen key kl now).rl.keys.lookup k = some v →
      ∃ v', s.rl.keys.lookup k = some v' ∧ v'.limiter = v.limiter := by
    intro k v hv
    by_cases hk : k = key
    · subst hk
      simp only [State.seen, AList.lookup_insert, Option.some.injEq] at hv
      exact ⟨kl, hkl, by rw [← hv]⟩
    · simp only [State.seen, AList.lookup_insert_ne hk] at hv
      exact ⟨v, hv, rfl⟩
  refine ⟨?_, ?_⟩
  · intro k v hv
    obtain ⟨v', hv', heq⟩ := hold k v hv
    exact heq ▸ h.lt_next k v' hv'
  · intro k k' v v' hv hv' heq
    obtain ⟨w, hw, hwv⟩ := hold k v hv
    obtain ⟨w', hw', hwv'⟩ := hold k' v' hv'
    exact h.apart k k' w w' hw hw' (by rw [hwv, hwv', heq])

theorem Separate.created (h : s.Separate) (key : Bytes) (anonymous : Bool) (now : ℤ) :
    (s.created key anonymous now).Separate := by
  -- an entry is the new one, or has an address that was in use
  have hold : ∀ k v, (s.created key anonymous now).rl.keys.lookup k = some v →
      (k = key ∧ v.limiter = s.next) ∨ (s.rl.keys.lookup k = some v ∧ v.limiter < s.next) := by
    intro k v hv
    by_cases hk : k = key
    · subst hk
      simp only [State.created, AList.lookup_insert, Option.some.injEq] at hv
      exact .inl ⟨rfl, by rw [← hv]⟩
    · simp only [State.created, AList.lookup_insert_ne hk] at hv
      exact .inr ⟨hv, h.lt_next k v hv⟩
  refine ⟨?_, ?_⟩
  · intro k v hv
    show v.limiter < s.next + 1
    rcases hold k v hv with ⟨-, heq⟩ | ⟨-, hlt⟩ <;> omega
  · intro k k' v v' hv hv' heq
    rcases hold k v hv with ⟨hk, hnew⟩ | ⟨hk, hlt⟩ <;>
      rcases hold k' v' hv' with ⟨hk', hnew'⟩ | ⟨hk', hlt'⟩
    · rw [hk, hk']
    · omega
    · omega
    · exact h.apart k k' v v' hk hk' heq

theorem bucket_seen_of_ne (hne : key' ≠ key) (kl : TenantLimiter) (now : ℤ) :
    (s.seen key kl now).bucket key' = s.bucket key' := by
  simp [bucket, State.seen, AList.lookup_insert_ne hne]

theorem Separate.bucket_created_of_ne (h : s.Separate) (hne : key' ≠ key) (anonymous : Bool)
    (now : ℤ) : (s.created key anonymous now).bucket key' = s.bucket key' := by
  simp only [bucket, State.created, AList.lookup_insert_ne hne]
  rcases hkl : s.rl.keys.lookup key' with _ | kl
  · rfl
  · -- the new address was not in use
    have hlt : kl.limiter ≠ s.next := (h.lt_next key' kl hkl).ne
    simp [Function.update_of_ne hlt]

/-- Putting a limiter behind the address of one key leaves the other keys alone. -/
theorem Separate.bucket_update (h : s.Separate) {kl : TenantLimiter}
    (hkl : s.rl.keys.lookup key = some kl) (lim : Limiter) (key' : Bytes) :
    ({ s with limiters := Function.update s.limiters kl.limiter lim } : State).bucket key' =
      if key' = key then some (lim, kl.lastSeen) else s.bucket key' := by
  by_cases hkey : key' = key
  · subst hkey
    simp [bucket, hkl]
  · rw [if_neg hkey]
    unfold bucket
    rcases hkl' : s.rl.keys.lookup key' with _ | kl'
    · rfl
    · have hne : kl'.limiter ≠ kl.limiter := fun heq => hkey (h.apart _ _ _ _ hkl' hkl heq)
      simp [Function.update_of_ne hne]

theorem Separate.evictIdle (h : s.Separate) (cutoff : ℤ) : (s.evictIdle cutoff).Separate := by
  have hold : ∀ k v, (s.evictIdle cutoff).rl.keys.lookup k = some v →
      s.rl.keys.lookup k = some v := by
    intro k v hv
    simp only [State.evictIdle, AList.lookup_filter] at hv
    exact (Option.filter_eq_some_iff.mp hv).1
  refine ⟨?_, ?_⟩
  · intro k v hv
    exact h.lt_next k v (hold k v hv)
  · intro k k' v v' hv hv'
    exact h.apart k k' v v' (hold k v hv) (hold k' v' hv')

/-- The cleanup drops the buckets that were not asked for since `cutoff`. -/
theorem bucket_evictIdle (s : State) (cutoff : ℤ) (key : Bytes) :
    (s.evictIdle cutoff).bucket key = (s.bucket key).filter fun b => !decide (b.2 < cutoff) := by
  simp only [bucket, State.evictIdle, AList.lookup_filter]
  rcases s.rl.keys.lookup key with _ | kl
  · rfl
  · by_cases hidle : kl.lastSeen < cutoff <;> simp [Option.filter, hidle]

/-- What the middleware does with a request: refuse a new address when there is no room for it, or
ask the bucket of its key. -/
theorem handle_cases (lib : Lib) (h : s.Separate) (hcount : s.Counted) (r : Request) (seen now : ℤ) :
    (s.bucket (s.rl.cfg.key lib r).1 = none ∧ (s.rl.cfg.key lib r).2 = true ∧
      s.rl.cfg.maxAnonymousKeys ≤ s.rl.anon ∧ (s.handle lib r seen now).1 = s ∧
      (s.handle lib r seen now).2 ≠ .next) ∨
    ∃ lim, lim = s.found (s.rl.cfg.key lib r).1 (s.rl.cfg.newLimiter (s.rl.cfg.key lib r).2) ∧
      (s.handle lib r seen now).2 = (ask lim now).2 ∧ (s.handle lib r seen now).1.rl.cfg = s.rl.cfg ∧
      (s.handle lib r seen now).1.Separate ∧ (s.handle lib r seen now).1.Counted ∧
      ∀ key, (s.handle lib r seen now).1.bucket key =
        if key = (s.rl.cfg.key lib r).1 then some ((ask lim now).1, seen) else s.bucket key := by
  have hstarts := startsWithA_key s.rl.cfg lib r
  revert hstarts
  rcases hk : s.rl.cfg.key lib r with ⟨k, anonymous⟩
  intro hstarts
  rcases s.limiter_cases k anonymous seen with
    ⟨kl, hkl, heq⟩ | ⟨hkl, -, heq⟩ | ⟨hkl, hanon, hfull, heq⟩
  · right
    have hsep := h.seen hkl seen
    have hentry : (s.seen k kl seen).rl.keys.lookup k = some { kl with lastSeen := seen } := by
      simp [State.seen]
    refine ⟨s.limiters kl.limiter, by simp [found, bucket, hkl], ?_⟩
    simp only [handle, hk, heq]
    refine ⟨rfl, rfl, ⟨hsep.lt_next, hsep.apart⟩, hcount.seen hkl seen, fun key => ?_⟩
    refine (hsep.bucket_update hentry _ key).trans (ite_congr rfl (fun _ => rfl) fun hne => ?_)
    exact bucket_seen_of_ne hne kl seen
  · right
    have hsep := h.created k anonymous seen
    have hentry : (s.created k anonymous seen).rl.keys.lookup k =
        some { limiter := s.next, lastSeen := seen } := by
      simp [State.created]
    refine ⟨s.rl.cfg.newLimiter anonymous, by simp [found, bucket, hkl], ?_⟩
    have hnew : (s.created k anonymous seen).limiters s.next = s.rl.cfg.newLimiter anonymous := by
      simp [State.created]
    simp only [handle, hk, heq, hnew]
    refine ⟨trivial, rfl, ⟨hsep.lt_next, hsep.apart⟩, hcount.created hkl hstarts seen, fun key => ?_⟩
    refine (hsep.bucket_update hentry _ key).trans (ite_congr rfl (fun _ => rfl) fun hne => ?_)
    exact h.bucket_created_of_ne hne anonymous seen
  · left
    have hhandle : s.handle lib r seen now = (s, writeRateLimited s.rl.cfg.idleTTL) := by
      simp only [handle, hk, heq]
    rw [hhandle]
    exact ⟨by simp [bucket, hkl], hanon, hfull, rfl, by simp [writeRateLimited]⟩

end State

/-- A bucket of the tier of a request, as it is made. -/
def Limits.tier (cfg : Limits) (lib : Lib) (r : Request) : Limiter :=
  cfg.newLimiter (cfg.key lib r).2

theorem tier_eq_of_key_eq {cfg : Limits} {lib : Lib} {r r' : Request}
    (h : (cfg.key lib r').1 = (cfg.key lib r).1) : cfg.tier lib r' = cfg.tier lib r := by
  rw [Limits.tier, ← startsWithA_key, h, startsWithA_key, ← Limits.tier]

/-! ### Schedules -/

/-- The limiter over time. The requests that were admitted are a record that the program does not
have. -/
structure Ledger where
  state : State
  /-- When the last event was. -/
  clock : ℤ
  admitted : List (Request × ℤ)

namespace Ledger

inductive Event where
  /-- A request, with the reading for `lastSeen` and the one of its bucket. -/
  | request (r : Request) (seen now : ℤ)
  /-- A round of `cleanupLoop`. -/
  | cleanup (now : ℤ)

/-- One event. At most `lag` passes between the two readings of a request. -/
def step (lib : Lib) (lag : ℤ) (l : Ledger) : Event → Option Ledger
  | .request r seen now =>
    if l.clock ≤ seen ∧ seen ≤ now ∧ now ≤ seen + lag then
      let (state, outcome) := l.state.handle lib r seen now
      some
        { state
          clock := now
          admitted := if outcome = .next then l.admitted ++ [(r, now)] else l.admitted }
    else none
  | .cleanup now =>
    if l.clock ≤ now then
      some { l with state := l.state.evictIdle (now - l.state.rl.cfg.idleTTL), clock := now }
    else none

/-- All schedules, from a new limiter on. -/
def system (lib : Lib) (config : KeyedRateLimiterConfig) (lag : ℤ) : StepSystem Ledger Event where
  IsInit l := KeyedRateLimiter.new config = .ok l.state.rl ∧ l.state.next = 0 ∧ l.admitted = []
  step := step lib lag

/-- How many requests with the key of `r` were admitted from `a` to `b`. -/
def admittedIn (lib : Lib) (r : Request) (a b : ℚ) (l : Ledger) : ℕ :=
  l.admitted.countP fun x =>
    (l.state.rl.cfg.key lib x.1).1 = (l.state.rl.cfg.key lib r).1 ∧ a ≤ x.2 ∧ x.2 ≤ b

/-- In no schedule are more requests with the key of `r` admitted in a window of time than the
burst of the tier, and what its rate gives for the length of the window. -/
def WithinBudget (lib : Lib) (config : KeyedRateLimiterConfig) (lag : ℤ) (tier : Limiter)
    (r : Request) : Prop :=
  ∀ l, (system lib config lag).Reachable l → ∀ a b : ℚ, a ≤ b →
    (l.admittedIn lib r a b : ℚ) ≤ tier.burst + tokensFromDuration tier.limit (b - a)

variable {lib : Lib} {config : KeyedRateLimiterConfig} {lag : ℤ} {cfg : Limits} {r₀ : Request}
  {l l' : Ledger} {e : Event}

/-- A bucket of a tier as requests leave it. -/
structure Sound (tier : Limiter) (lag clock : ℤ) (b : Limiter × ℤ) : Prop where
  limit : b.1.limit = tier.limit
  burst : b.1.burst = tier.burst
  seen_le : b.2 ≤ clock
  /-- When the bucket was asked last, it was left without a debt. -/
  asked : ∃ t : ℤ, b.1.last ≤ t ∧ t ≤ clock ∧ t ≤ b.2 + lag ∧ 0 ≤ b.1.advance t

/-- The buckets are in order, and the one of the key of `r₀` is of its tier. -/
structure Valid (lib : Lib) (cfg : Limits) (lag : ℤ) (r₀ : Request) (l : Ledger) : Prop where
  cfg_eq : l.state.rl.cfg = cfg
  separate : l.state.Separate
  counted : l.state.Counted
  sound : ∀ b, l.state.bucket (cfg.key lib r₀).1 = some b → Sound (cfg.tier lib r₀) lag l.clock b

/-- The bucket that a request like `r₀` finds. -/
def found (lib : Lib) (cfg : Limits) (r₀ : Request) (l : Ledger) : Limiter :=
  l.state.found (cfg.key lib r₀).1 (cfg.tier lib r₀)

variable {clock : ℤ} {b : Limiter × ℤ} {now : ℤ} {r : Request} {rl : KeyedRateLimiter}

theorem Sound.rate {tier : Limiter} (h : Sound tier lag clock b) : b.1.rate = tier.rate := by
  rw [Limiter.rate, h.limit, ← Limiter.rate]

/-- Since it was asked last, the bucket has only been refilled. -/
theorem Sound.le_advance {tier : Limiter} (h : Sound tier lag clock b) {t : ℚ} (ht : clock ≤ t) :
    b.1.last ≤ t ∧
      ∃ t₀ : ℚ, t₀ ≤ clock ∧ t₀ ≤ b.2 + lag ∧
        min (tier.burst : ℚ) (tier.rate * (t - t₀)) ≤ b.1.advance t := by
  obtain ⟨t₀, hlast, hclock, hlag, hnonneg⟩ := h.asked
  have hclock' : (t₀ : ℚ) ≤ clock := by exact_mod_cast hclock
  refine ⟨hlast.trans (hclock'.trans ht), t₀, hclock', by exact_mod_cast hlag, ?_⟩
  rw [Limiter.advance_eq_of_le hlast (hclock'.trans ht), h.burst, h.rate]
  exact min_le_min_left _ (by linarith)

theorem Sound.later {tier : Limiter} (h : Sound tier lag clock b) (hnow : clock ≤ now) :
    Sound tier lag now b := by
  obtain ⟨t, hlast, hclock, hlag, hnonneg⟩ := h.asked
  exact ⟨h.limit, h.burst, h.seen_le.trans hnow, t, hlast, hclock.trans hnow, hlag, hnonneg⟩

/-- The bucket that is found is of the tier, and is not in debt. -/
theorem Valid.found (h : Valid lib cfg lag r₀ l) {now : ℚ} (hnow : l.clock ≤ now) :
    (l.found lib cfg r₀).limit = (cfg.tier lib r₀).limit ∧
      (l.found lib cfg r₀).burst = (cfg.tier lib r₀).burst ∧
      0 ≤ (l.found lib cfg r₀).advance now ∧
      ((l.found lib cfg r₀).last ≤ now ∨ 1 ≤ (l.found lib cfg r₀).advance now) := by
  unfold Ledger.found State.found
  rcases hb : l.state.bucket (cfg.key lib r₀).1 with _ | b
  · -- a new bucket is full
    have hone : (1 : ℚ) ≤ (cfg.tier lib r₀).burst := by exact_mod_cast (cfg.tier lib r₀).burst_pos
    have hfull : (cfg.tier lib r₀).advance now = (cfg.tier lib r₀).burst :=
      advance_newLimiter cfg _ now
    refine ⟨rfl, rfl, ?_, Or.inr ?_⟩
    · show 0 ≤ (cfg.tier lib r₀).advance now
      linarith
    · show 1 ≤ (cfg.tier lib r₀).advance now
      linarith
  · have hsound := h.sound b hb
    obtain ⟨hlast, t₀, hclock, -, hle⟩ := hsound.le_advance hnow
    refine ⟨hsound.limit, hsound.burst, ?_, Or.inl hlast⟩
    have hburst : (0 : ℚ) ≤ (cfg.tier lib r₀).burst := by
      exact_mod_cast (cfg.tier lib r₀).burst_pos.le
    have hgain := mul_nonneg (cfg.tier lib r₀).rate_pos.le (sub_nonneg.mpr (hclock.trans hnow))
    exact (le_min hburst hgain).trans hle

/-- The admitted request has the key of `r₀`. -/
def ofKey (lib : Lib) (cfg : Limits) (r₀ : Request) (x : Request × ℤ) : Bool :=
  (cfg.key lib x.1).1 = (cfg.key lib r₀).1

/-- From `l` to `l'` a request with the key of `r₀` was admitted at `now`. -/
structure Spent (lib : Lib) (cfg : Limits) (r₀ r : Request) (now : ℤ) (l l' : Ledger) : Prop where
  key_eq : (cfg.key lib r).1 = (cfg.key lib r₀).1
  admitted : l'.admitted = l.admitted ++ [(r, now)]
  one_le : 1 ≤ (l.found lib cfg r₀).advance now
  advance_eq : (l'.found lib cfg r₀).advance now = (l.found lib cfg r₀).advance now - 1
  last_le : (l'.found lib cfg r₀).last ≤ now

/-- From `l` to `l'` no request with the key of `r₀` was admitted, and its bucket is at `now` and
later as it would have been. -/
structure Kept (lib : Lib) (cfg : Limits) (r₀ : Request) (now : ℤ) (l l' : Ledger) : Prop where
  admitted : l'.admitted.filter (ofKey lib cfg r₀) = l.admitted.filter (ofKey lib cfg r₀)
  advance_eq : ∀ t : ℚ, now ≤ t → (l'.found lib cfg r₀).advance t = (l.found lib cfg r₀).advance t

/-- The bucket of `r₀` is asked. -/
theorem Valid.asked {r : Request} {seen now : ℤ} (h : Valid lib cfg lag r₀ l) (hnow : l.clock ≤ now)
    (hseen : seen ≤ now) (hlag : now ≤ seen + lag) (hclock : l'.clock = now)
    (hcfg : l'.state.rl.cfg = cfg) (hsep : l'.state.Separate)
    (hcount : l'.state.Counted) (hkey : (cfg.key lib r).1 = (cfg.key lib r₀).1)
    (hbucket : l'.state.bucket (cfg.key lib r₀).1 = some ((ask (l.found lib cfg r₀) now).1, seen))
    (hadmitted : l'.admitted = if (ask (l.found lib cfg r₀) now).2 = .next
      then l.admitted ++ [(r, now)] else l.admitted) :
    Valid lib cfg lag r₀ l' ∧ (Spent lib cfg r₀ r now l l' ∨
      (Kept lib cfg r₀ now l l' ∧ (l.found lib cfg r₀).advance now < 1)) := by
  have hnow' : (l.clock : ℚ) ≤ now := by exact_mod_cast hnow
  obtain ⟨hlimit, hburst, hnonneg, hask⟩ := h.found hnow'
  obtain ⟨hlimit', hburst', hlast', hcases⟩ := ask_spec hask
  have hfound : l'.found lib cfg r₀ = (ask (l.found lib cfg r₀) now).1 := by
    rw [Ledger.found, State.found, hbucket]
    rfl
  refine ⟨⟨hcfg, hsep, hcount, ?_⟩, ?_⟩
  · intro b hb
    obtain rfl := Option.some.inj (hbucket.symm.trans hb)
    refine ⟨hlimit'.trans hlimit, hburst'.trans hburst, hclock.symm ▸ hseen, now, hlast', hclock.ge,
      hlag, ?_⟩
    rcases hcases with ⟨hone, -, heq⟩ | ⟨-, -, heq⟩ <;> linarith
  · rcases hcases with ⟨hone, hnext, heq⟩ | ⟨hlt, hrefused, heq⟩
    · left
      rw [if_pos hnext] at hadmitted
      exact ⟨hkey, hadmitted, hone, by rw [hfound, heq], by rw [hfound]; exact hlast'⟩
    · right
      rw [if_neg hrefused] at hadmitted
      refine ⟨⟨by rw [hadmitted], fun t ht => ?_⟩, hlt⟩
      have hlast := hask.resolve_right (not_le.mpr hlt)
      rw [hfound, Limiter.advance_eq_of_le hlast' ht, Limiter.advance_eq_of_le hlast ht, heq,
        hburst', Limiter.rate, hlimit', ← Limiter.rate]

/-- The bucket of `r₀` is not asked. -/
theorem Valid.unasked (h : Valid lib cfg lag r₀ l) (hnow : l.clock ≤ now) (hclock : l'.clock = now)
    (hcfg : l'.state.rl.cfg = cfg) (hsep : l'.state.Separate) (hcount : l'.state.Counted)
    (hbucket : l'.state.bucket (cfg.key lib r₀).1 = l.state.bucket (cfg.key lib r₀).1)
    (hadmitted : l'.admitted.filter (ofKey lib cfg r₀) = l.admitted.filter (ofKey lib cfg r₀)) :
    Valid lib cfg lag r₀ l' ∧ Kept lib cfg r₀ now l l' := by
  refine ⟨⟨hcfg, hsep, hcount, fun b hb => ?_⟩, hadmitted, fun t _ => ?_⟩
  · rw [hclock]
    exact (h.sound b (hbucket.symm.trans hb)).later hnow
  · rw [Ledger.found, State.found, hbucket, ← State.found, ← Ledger.found]

theorem step_request {seen : ℤ} (h : step lib lag l (.request r seen now) = some l') :
    (l.clock ≤ seen ∧ seen ≤ now ∧ now ≤ seen + lag) ∧ l'.clock = now ∧
      l'.state = (l.state.handle lib r seen now).1 ∧
      l'.admitted = if (l.state.handle lib r seen now).2 = .next then l.admitted ++ [(r, now)]
        else l.admitted := by
  simp only [step] at h
  split at h
  · cases h
    exact ⟨‹_›, rfl, rfl, rfl⟩
  · cases h

/-- What a request does to the bucket of `r₀`. -/
theorem request_cases {seen : ℤ} (h : Valid lib cfg lag r₀ l)
    (hstep : step lib lag l (.request r seen now) = some l') :
    Valid lib cfg lag r₀ l' ∧ l.clock ≤ now ∧ l'.clock = now ∧
      (∀ key ≠ (cfg.key lib r).1, l'.state.bucket key = l.state.bucket key) ∧
      (Spent lib cfg r₀ r now l l' ∨
        (Kept lib cfg r₀ now l l' ∧ ((cfg.key lib r).1 = (cfg.key lib r₀).1 →
          1 ≤ (l.found lib cfg r₀).advance now →
            l.state.bucket (cfg.key lib r).1 = none ∧ (cfg.key lib r).2 = true ∧
              cfg.maxAnonymousKeys ≤ l.state.rl.anon))) := by
  obtain ⟨⟨hbefore, hseen, hlag⟩, hclock, hstate, hadmitted⟩ := step_request hstep
  have hnow : l.clock ≤ now := hbefore.trans hseen
  have hhandle := l.state.handle_cases lib h.separate h.counted r seen now
  rw [h.cfg_eq, ← hstate] at hhandle
  rcases hhandle with
    ⟨hnone, hanon, hfull, hsame, hout⟩ | ⟨lim, hlim, hout, hcfg, hsep, hcount, hbucket⟩
  · -- no room for a new address
    rw [if_neg hout] at hadmitted
    obtain ⟨hvalid, hkept⟩ := h.unasked hnow hclock (hsame ▸ h.cfg_eq) (hsame ▸ h.separate)
      (hsame ▸ h.counted) (by rw [hsame]) (by rw [hadmitted])
    exact ⟨hvalid, hnow, hclock, fun _ _ => by rw [hsame],
      Or.inr ⟨hkept, fun _ _ => ⟨hnone, hanon, hfull⟩⟩⟩
  · have hother : ∀ key ≠ (cfg.key lib r).1, l'.state.bucket key = l.state.bucket key := by
      intro key hne
      rw [hbucket, if_neg hne]
    rw [hout] at hadmitted
    by_cases hkey : (cfg.key lib r).1 = (cfg.key lib r₀).1
    · have htier : cfg.newLimiter (cfg.key lib r).2 = cfg.tier lib r₀ := tier_eq_of_key_eq hkey
      obtain rfl : lim = l.found lib cfg r₀ := by
        rw [hlim, htier, hkey, Ledger.found]
      obtain ⟨hvalid, hcases⟩ := h.asked hnow hseen hlag hclock hcfg hsep hcount hkey
        ((hbucket _).trans (if_pos hkey.symm)) hadmitted
      refine ⟨hvalid, hnow, hclock, hother, hcases.imp_right fun ⟨hkept, hlt⟩ => ⟨hkept, ?_⟩⟩
      exact fun _ hone => absurd hone (not_le.mpr hlt)
    · have hnot : ofKey lib cfg r₀ (r, now) = false := by simp [ofKey, hkey]
      have hfilter : l'.admitted.filter (ofKey lib cfg r₀) =
          l.admitted.filter (ofKey lib cfg r₀) := by
        rw [hadmitted]
        split <;> simp [hnot]
      obtain ⟨hvalid, hkept⟩ := h.unasked hnow hclock hcfg hsep hcount
        (hother _ fun heq => hkey heq.symm) hfilter
      exact ⟨hvalid, hnow, hclock, hother, Or.inr ⟨hkept, fun heq => absurd heq hkey⟩⟩

theorem cleanup_spec (h : Valid lib cfg lag r₀ l) (hstep : step lib lag l (.cleanup now) = some l') :
    Valid lib cfg lag r₀ l' ∧ l.clock ≤ now ∧ l'.clock = now ∧ l'.admitted = l.admitted ∧
      ∀ key, l'.state.bucket key =
        (l.state.bucket key).filter fun b => !decide (b.2 < now - cfg.idleTTL) := by
  simp only [step] at hstep
  split at hstep
  case isFalse => cases hstep
  case isTrue hnow =>
  cases hstep
  rw [h.cfg_eq]
  have hbucket := l.state.bucket_evictIdle (now - cfg.idleTTL)
  refine ⟨⟨h.cfg_eq, h.separate.evictIdle _, h.counted.evictIdle _, ?_⟩, hnow, rfl, rfl, hbucket⟩
  intro b hb
  rw [hbucket] at hb
  exact (h.sound b (Option.filter_eq_some_iff.mp hb).1).later hnow

/-- A tier whose burst is refilled within `IdleTTL`, less the time that a request may take. Idle buckets
are dropped after more than `IdleTTL`, and time goes in nanoseconds. -/
def Refills (cfg : Limits) (lag : ℤ) (tier : Limiter) : Prop :=
  (tier.burst : ℚ) ≤ tokensFromDuration tier.limit (cfg.idleTTL + 1 - lag)

/-- A bucket that is dropped would have been full. -/
theorem cleanup_kept (hrefills : Refills cfg lag (cfg.tier lib r₀)) (h : Valid lib cfg lag r₀ l)
    (hstep : step lib lag l (.cleanup now) = some l') :
    Kept lib cfg r₀ now l l' := by
  obtain ⟨-, hnow, -, hadmitted, hbucket⟩ := cleanup_spec h hstep
  refine ⟨by rw [hadmitted], fun t ht => ?_⟩
  unfold Ledger.found State.found
  rw [hbucket]
  rcases hb : l.state.bucket (cfg.key lib r₀).1 with _ | b
  · rfl
  · by_cases hidle : b.2 < now - cfg.idleTTL
    · have hsound := h.sound b hb
      have hclock : (l.clock : ℚ) ≤ t := le_trans (by exact_mod_cast hnow) ht
      obtain ⟨-, t₀, -, hlag, hle⟩ := hsound.le_advance hclock
      have hpause : (cfg.idleTTL + 1 - lag : ℚ) ≤ t - t₀ := by
        have : (b.2 + cfg.idleTTL + 1 : ℚ) ≤ now := by
          exact_mod_cast (by omega : b.2 + cfg.idleTTL + 1 ≤ now)
        linarith
      have hgain := mul_le_mul_of_nonneg_left hpause (cfg.tier lib r₀).rate_pos.le
      unfold Refills at hrefills
      rw [Limiter.tokensFromDuration_eq] at hrefills
      have hfull : b.1.advance t = (cfg.tier lib r₀).burst := by
        rw [min_eq_left (hrefills.trans hgain)] at hle
        exact le_antisymm (hsound.burst ▸ b.1.advance_le_burst t) hle
      have hnew : (cfg.tier lib r₀).advance t = (cfg.tier lib r₀).burst :=
        advance_newLimiter cfg _ t
      simp [Option.filter, hidle, hfull, hnew]
    · simp [Option.filter, hidle]

/-! ### The log of a bucket -/

/-- The admitted requests with the key of `r₀` are the log of one token bucket, and what is found
now or later follows its last entry. -/
def Logged (lib : Lib) (cfg : Limits) (r₀ : Request) (l : Ledger) : Prop :=
  ∃ log : List (TokenBucket.Entry ℚ),
    TokenBucket.Conforms ((cfg.tier lib r₀).burst : ℚ) (cfg.tier lib r₀).rate log ∧
    log.map (fun e => (e.time, e.taken)) =
      (l.admitted.filter (ofKey lib cfg r₀)).map (fun x => ((x.2 : ℚ), 1)) ∧
    ∀ e ∈ log.getLast?, e.time ≤ l.clock ∧ ∀ t : ℚ, l.clock ≤ t →
      (l.found lib cfg r₀).advance t ≤ e.level + (cfg.tier lib r₀).rate * (t - e.time)

theorem Logged.kept (h : Logged lib cfg r₀ l) (hnow : l.clock ≤ now) (hclock : l'.clock = now)
    (hkept : Kept lib cfg r₀ now l l') : Logged lib cfg r₀ l' := by
  obtain ⟨log, hconforms, hlog, hlast⟩ := h
  have hnow' : (l.clock : ℚ) ≤ now := by exact_mod_cast hnow
  refine ⟨log, hconforms, by rw [hlog, hkept.admitted], fun e he => ?_⟩
  obtain ⟨htime, hlevel⟩ := hlast e he
  rw [hclock]
  refine ⟨htime.trans hnow', fun t ht => ?_⟩
  rw [hkept.advance_eq t ht]
  exact hlevel t (hnow'.trans ht)

theorem Logged.spent (h : Logged lib cfg r₀ l) (hvalid : Valid lib cfg lag r₀ l)
    (hvalid' : Valid lib cfg lag r₀ l') (hnow : l.clock ≤ now) (hclock : l'.clock = now)
    (hspent : Spent lib cfg r₀ r now l l') : Logged lib cfg r₀ l' := by
  obtain ⟨log, hconforms, hlog, hlast⟩ := h
  have hnow' : (l.clock : ℚ) ≤ now := by exact_mod_cast hnow
  have hclock' : (l'.clock : ℚ) ≤ now := by rw [hclock]
  obtain ⟨-, hburst, -, -⟩ := hvalid.found hnow'
  obtain ⟨hlimit', -, -, -⟩ := hvalid'.found hclock'
  have hone := hspent.one_le
  refine ⟨log ++ [⟨now, 1, (l.found lib cfg r₀).advance now - 1⟩], ?_, ?_, ?_⟩
  · refine hconforms.concat (by simpa using hone) ?_ ?_
    · show 1 + ((l.found lib cfg r₀).advance now - 1) ≤ _
      have := (l.found lib cfg r₀).advance_le_burst now
      rw [hburst] at this
      linarith
    · intro e he
      obtain ⟨htime, hlevel⟩ := hlast e he
      refine ⟨htime.trans hnow', ?_⟩
      show 1 + ((l.found lib cfg r₀).advance now - 1) ≤ _
      linarith [hlevel now hnow']
  · have hkey : ofKey lib cfg r₀ (r, now) = true := by simp [ofKey, hspent.key_eq]
    rw [hspent.admitted, List.filter_append, List.map_append, List.map_append, hlog]
    simp [hkey]
  · intro e he
    obtain rfl : _ = e := by simpa using he
    rw [hclock]
    refine ⟨le_rfl, fun t ht => ?_⟩
    have hgain := Limiter.advance_le_add hspent.last_le ht
    rw [hspent.advance_eq, Limiter.rate, hlimit', ← Limiter.rate] at hgain
    exact hgain

/-- The admitted requests are counted in the log. -/
theorem takenIn_eq_admittedIn (hcfg : l.state.rl.cfg = cfg) {log : List (TokenBucket.Entry ℚ)}
    (h : log.map (fun e => (e.time, e.taken)) =
      (l.admitted.filter (ofKey lib cfg r₀)).map (fun x => ((x.2 : ℚ), 1))) (a b : ℚ) :
    TokenBucket.takenIn a b log = l.admittedIn lib r₀ a b := by
  have hpairs : TokenBucket.takenIn a b log =
      (((log.map fun e => (e.time, e.taken)).filter fun p => a ≤ p.1 ∧ p.1 ≤ b).map Prod.snd).sum := by
    rw [List.filter_map, List.map_map]
    rfl
  rw [hpairs, h, List.filter_map, List.map_map, List.filter_filter]
  unfold admittedIn
  rw [hcfg, List.countP_eq_length_filter]
  -- every admitted request takes one token
  show ((List.filter _ l.admitted).map fun _ => (1 : ℚ)).sum = _
  rw [List.map_const', List.sum_replicate, nsmul_one]
  congr 2
  apply List.filter_congr
  intro x _
  simp [ofKey, and_comm]

/-! ### The budget is kept -/

theorem inv_of_isInit (hnew : KeyedRateLimiter.new config = .ok rl)
    (h : (system lib config lag).IsInit l) :
    Valid lib rl.cfg lag r₀ l ∧ Logged lib rl.cfg r₀ l := by
  obtain ⟨hinit, -, hadmitted⟩ := h
  obtain rfl : rl = l.state.rl := Except.ok.inj (hnew.symm.trans hinit)
  obtain ⟨hkeys, hanon⟩ := KeyedRateLimiter.empty_of_new hnew
  refine ⟨⟨rfl, ⟨?_, ?_⟩, ?_, ?_⟩, [], ⟨by simp, by simp, by simp⟩, by simp [hadmitted], by simp⟩
  · intro key kl hkl
    simp [hkeys] at hkl
  · intro key key' kl kl' hkl
    simp [hkeys] at hkl
  · simp [State.Counted, hkeys, hanon]
  · intro b hb
    simp [State.bucket, hkeys] at hb

theorem inv_step (hrefills : Refills cfg lag (cfg.tier lib r₀))
    (h : Valid lib cfg lag r₀ l ∧ Logged lib cfg r₀ l) (hstep : step lib lag l e = some l') :
    Valid lib cfg lag r₀ l' ∧ Logged lib cfg r₀ l' := by
  obtain ⟨hvalid, hlogged⟩ := h
  cases e with
  | request r seen now =>
    obtain ⟨hvalid', hnow, hclock, -, hspent | ⟨hkept, -⟩⟩ := request_cases hvalid hstep
    · exact ⟨hvalid', hlogged.spent hvalid hvalid' hnow hclock hspent⟩
    · exact ⟨hvalid', hlogged.kept hnow hclock hkept⟩
  | cleanup now =>
    obtain ⟨hvalid', hnow, hclock, -, -⟩ := cleanup_spec hvalid hstep
    exact ⟨hvalid', hlogged.kept hnow hclock (cleanup_kept hrefills hvalid hstep)⟩

theorem withinBudget_of_refills (hnew : KeyedRateLimiter.new config = .ok rl)
    (hrefills : Refills rl.cfg lag (rl.cfg.tier lib r₀)) :
    WithinBudget lib config lag (rl.cfg.tier lib r₀) r₀ := by
  intro l hl a b hab
  obtain ⟨hvalid, log, hconforms, hlog, -⟩ :=
    StepSystem.reachable_invariant (fun _ h => inv_of_isInit hnew h)
      (fun _ _ _ h hstep => inv_step hrefills h hstep) hl
  have hburst : (0 : ℚ) ≤ (rl.cfg.tier lib r₀).burst := by
    exact_mod_cast (rl.cfg.tier lib r₀).burst_pos.le
  rw [← takenIn_eq_admittedIn hvalid.cfg_eq hlog, Limiter.tokensFromDuration_eq]
  exact TokenBucket.takenIn_le hconforms hburst (rl.cfg.tier lib r₀).rate_pos.le hab

/-! ### The budget is exceeded -/

/-- Only requests like `r₀` have come. -/
structure Alone (lib : Lib) (cfg : Limits) (lag : ℤ) (r₀ : Request) (l : Ledger) : Prop where
  valid : Valid lib cfg lag r₀ l
  alone : ∀ key ≠ (cfg.key lib r₀).1, l.state.bucket key = none

theorem Alone.anon_eq_zero (h : Alone lib cfg lag r₀ l)
    (hnone : l.state.bucket (cfg.key lib r₀).1 = none) : l.state.rl.anon = 0 := by
  have hempty : ∀ key, l.state.rl.keys.lookup key = none := by
    intro key
    by_cases hkey : key = (cfg.key lib r₀).1
    · subst hkey
      simpa [State.bucket] using hnone
    · simpa [State.bucket] using h.alone key hkey
  have hcounted : l.state.rl.anon = _ := h.valid.counted
  rw [hcounted, Nat.cast_eq_zero, List.countP_eq_zero]
  intro key hkey
  exact absurd (AList.mem_keys.mpr hkey) (AList.lookup_eq_none.mp (hempty key))

/-- A request that finds a token is admitted. It takes no time. -/
theorem Alone.request (h : Alone lib cfg lag r₀ l) (hlag : 0 ≤ lag) (hnow : l.clock ≤ now)
    (hone : 1 ≤ (l.found lib cfg r₀).advance now) :
    ∃ l', step lib lag l (.request r₀ now now) = some l' ∧ Alone lib cfg lag r₀ l' ∧ l'.clock = now ∧
      l'.admitted = l.admitted ++ [(r₀, now)] ∧
      (l'.found lib cfg r₀).advance now = (l.found lib cfg r₀).advance now - 1 := by
  obtain ⟨l', hstep⟩ : ∃ l', step lib lag l (.request r₀ now now) = some l' := by
    simp [step, hnow, hlag]
  obtain ⟨hvalid, -, hclock, hother, hspent | ⟨-, hfull⟩⟩ := request_cases h.valid hstep
  · refine ⟨l', hstep, ⟨hvalid, ?_⟩, hclock, hspent.admitted, hspent.advance_eq⟩
    intro key hkey
    rw [hother key hkey, h.alone key hkey]
  · -- the address tier is empty, so there is room
    obtain ⟨hnone, -, hle⟩ := hfull rfl hone
    rw [h.anon_eq_zero hnone] at hle
    exact absurd cfg.maxAnonymousKeys_pos (not_lt.mpr hle)

/-- As many requests as there are tokens are admitted at once. -/
theorem Alone.requests (h : Alone lib cfg lag r₀ l) (hlag : 0 ≤ lag)
    (hreach : (system lib config lag).Reachable l) (hnow : l.clock ≤ now) (n : ℕ)
    (hn : (n : ℚ) ≤ (l.found lib cfg r₀).advance now) :
    ∃ l', (system lib config lag).Reachable l' ∧ Alone lib cfg lag r₀ l' ∧ l'.clock ≤ now ∧
      l'.admitted = l.admitted ++ List.replicate n (r₀, now) := by
  induction n generalizing l with
  | zero => exact ⟨l, hreach, h, hnow, by simp⟩
  | succ n ih =>
    push_cast at hn
    have hnonneg : (0 : ℚ) ≤ n := Nat.cast_nonneg n
    obtain ⟨m, hm, halone, hclock, hadmitted, hleft⟩ := h.request hlag hnow (by linarith)
    obtain ⟨l', hreach', halone', hclock', hadmitted'⟩ :=
      ih halone (hreach.step (a := .request r₀ now now) hm) hclock.le (by linarith)
    refine ⟨l', hreach', halone', hclock', ?_⟩
    rw [hadmitted', hadmitted, List.replicate_succ, List.append_assoc, List.singleton_append]

/-- A cleanup after more than `IdleTTL` drops the bucket. -/
theorem Alone.cleanup (h : Alone lib cfg lag r₀ l) (hnow : l.clock + cfg.idleTTL < now) :
    ∃ l', step lib lag l (.cleanup now) = some l' ∧ Alone lib cfg lag r₀ l' ∧ l'.clock = now ∧
      l'.admitted = l.admitted ∧ l'.found lib cfg r₀ = cfg.tier lib r₀ := by
  have hle : l.clock ≤ now := by
    have := cfg.idleTTL_pos
    omega
  obtain ⟨l', hstep⟩ : ∃ l', step lib lag l (.cleanup now) = some l' := by
    simp [step, hle]
  obtain ⟨hvalid, -, hclock, hadmitted, hbucket⟩ := cleanup_spec h.valid hstep
  refine ⟨l', hstep, ⟨hvalid, fun key hkey => ?_⟩, hclock, hadmitted, ?_⟩
  · rw [hbucket, h.alone key hkey]
    rfl
  · rw [Ledger.found, State.found, hbucket]
    rcases hb : l.state.bucket (cfg.key lib r₀).1 with _ | b
    · rfl
    · have hseen := (h.valid.sound b hb).seen_le
      have hidle : b.2 < now - cfg.idleTTL := by omega
      simp [Option.filter, hidle]

/-- The burst can be spent twice, before and after a cleanup. -/
theorem exists_spent_twice (hnew : KeyedRateLimiter.new config = .ok rl) (hlag : 0 ≤ lag) {n : ℕ}
    (hn : (n : ℚ) = (rl.cfg.tier lib r₀).burst) :
    ∃ l, (system lib config lag).Reachable l ∧
      l.admitted = List.replicate n (r₀, 0) ++ List.replicate n (r₀, rl.cfg.idleTTL + 1) ∧
      l.admittedIn lib r₀ 0 (rl.cfg.idleTTL + 1) = n + n := by
  have hfull : ∀ t, (n : ℚ) ≤ (rl.cfg.tier lib r₀).advance t := fun t =>
    hn.le.trans (advance_newLimiter rl.cfg _ t).ge
  -- a new limiter has no bucket
  let l₀ : Ledger := ⟨⟨rl, fun _ => rl.cfg.tier lib r₀, 0⟩, 0, []⟩
  have hinit : (system lib config lag).IsInit l₀ := ⟨hnew, rfl, rfl⟩
  have hbucket₀ : ∀ key, l₀.state.bucket key = none := by
    intro key
    simp [l₀, State.bucket, (KeyedRateLimiter.empty_of_new hnew).1]
  have halone₀ : Alone lib rl.cfg lag r₀ l₀ :=
    ⟨(inv_of_isInit hnew hinit).1, fun key _ => hbucket₀ key⟩
  have hfound₀ : l₀.found lib rl.cfg r₀ = rl.cfg.tier lib r₀ := by
    rw [Ledger.found, State.found, hbucket₀]
    rfl
  obtain ⟨l₁, hreach₁, halone₁, hclock₁, hadmitted₁⟩ :=
    halone₀.requests hlag ⟨l₀, [], hinit, rfl⟩ le_rfl n (hfound₀ ▸ hfull 0)
  have hpause : l₁.clock + rl.cfg.idleTTL < rl.cfg.idleTTL + 1 := by
    have : l₁.clock ≤ 0 := hclock₁
    omega
  obtain ⟨l₂, hstep₂, halone₂, hclock₂, hadmitted₂, hfound₂⟩ := halone₁.cleanup hpause
  obtain ⟨l₃, hreach₃, halone₃, -, hadmitted₃⟩ :=
    halone₂.requests hlag (hreach₁.step (a := .cleanup (rl.cfg.idleTTL + 1)) hstep₂) hclock₂.le n
      (hfound₂ ▸ hfull _)
  have hadmitted : l₃.admitted =
      List.replicate n (r₀, 0) ++ List.replicate n (r₀, rl.cfg.idleTTL + 1) := by
    rw [hadmitted₃, hadmitted₂, hadmitted₁]
    rfl
  have hwindow : (0 : ℚ) ≤ rl.cfg.idleTTL + 1 := by
    exact_mod_cast (by have := rl.cfg.idleTTL_pos; omega : 0 ≤ rl.cfg.idleTTL + 1)
  refine ⟨l₃, hreach₃, hadmitted, ?_⟩
  rw [admittedIn, hadmitted, List.countP_append, List.countP_replicate, List.countP_replicate]
  simp [hwindow]

theorem refills_of_withinBudget (hnew : KeyedRateLimiter.new config = .ok rl) (hlag : 0 ≤ lag)
    (h : WithinBudget lib config lag (rl.cfg.tier lib r₀) r₀) :
    Refills rl.cfg 0 (rl.cfg.tier lib r₀) := by
  have hn : (((rl.cfg.tier lib r₀).burst.toNat : ℕ) : ℚ) = (rl.cfg.tier lib r₀).burst := by
    exact_mod_cast Int.toNat_of_nonneg (rl.cfg.tier lib r₀).burst_pos.le
  obtain ⟨l, hreach, -, hcount⟩ := exists_spent_twice hnew hlag hn
  have hwindow : (0 : ℚ) ≤ rl.cfg.idleTTL + 1 := by
    exact_mod_cast (by have := rl.cfg.idleTTL_pos; omega : 0 ≤ rl.cfg.idleTTL + 1)
  have hbound := h l hreach 0 (rl.cfg.idleTTL + 1) hwindow
  rw [hcount, sub_zero, Nat.cast_add, hn] at hbound
  rw [Refills, Int.cast_zero, sub_zero]
  linarith

/-- If requests take no time, the budget of a tier is kept in all schedules if and only if the tier
refills its burst within `IdleTTL`. That is needed also if they take up to `lag`, and it is enough to
refill the burst in that much less. -/
theorem withinBudget_iff {rl : KeyedRateLimiter} (hnew : KeyedRateLimiter.new config = .ok rl)
    (lib : Lib) (r : Request) :
    (WithinBudget lib config 0 (rl.cfg.tier lib r) r ↔ Refills rl.cfg 0 (rl.cfg.tier lib r)) ∧
      ∀ lag ≥ 0,
        (Refills rl.cfg lag (rl.cfg.tier lib r) → WithinBudget lib config lag (rl.cfg.tier lib r) r) ∧
        (WithinBudget lib config lag (rl.cfg.tier lib r) r → Refills rl.cfg 0 (rl.cfg.tier lib r)) :=
  ⟨⟨refills_of_withinBudget hnew le_rfl, withinBudget_of_refills hnew⟩,
    fun _ hlag => ⟨withinBudget_of_refills hnew, refills_of_withinBudget hnew hlag⟩⟩

section Example

/-- A configuration that leaves everything but the tenant tier to the defaults. -/
def tenantConfig (rps : ℚ) (burst : ℤ) : KeyedRateLimiterConfig where
  rps := rps
  burst := burst

/-- A request of a tenant. -/
def visitor : Request where
  tenantID := some (Vector.replicate 16 0xab)

theorem exists_new_tenantConfig {rps : ℚ} {burst : ℤ} (hrps : 0 < rps) (hburst : 0 < burst) :
    ∃ rl, KeyedRateLimiter.new (tenantConfig rps burst) = .ok rl ∧
      (rl.cfg.tier Traffic.hexLib visitor).limit = rps ∧
      (rl.cfg.tier Traffic.hexLib visitor).burst = burst ∧ rl.cfg.idleTTL = rateLimiterTTL := by
  have hpos : ¬ ((tenantConfig rps burst).rps ≤ 0 ∨ (tenantConfig rps burst).burst ≤ 0) := by
    rw [not_or, not_le, not_le]
    exact ⟨hrps, hburst⟩
  have htenant : visitor.getTenantID ≠ UUID.nil := by decide
  unfold KeyedRateLimiter.new KeyedRateLimiterConfig.validate
  rw [dif_neg hpos, dif_neg (by simp [tenantConfig])]
  refine ⟨_, rfl, ?_, ?_, rfl⟩
  all_goals simp [Limits.tier, Limits.key, htenant, Limits.newLimiter, Limiter.new, tenantConfig]

/-- A hundred requests at one a second are refilled in ten minutes, and also in a minute less. -/
theorem withinBudget_hundred : ∃ rl, KeyedRateLimiter.new (tenantConfig 1 100) = .ok rl ∧
    ∀ lag ∈ [0, minute], WithinBudget Traffic.hexLib (tenantConfig 1 100) lag
      (rl.cfg.tier Traffic.hexLib visitor) visitor := by
  obtain ⟨rl, hnew, hlimit, hburst, httl⟩ :=
    exists_new_tenantConfig (one_pos : (0 : ℚ) < 1) (by norm_num : (0 : ℤ) < 100)
  have hrefills : ∀ lag ∈ [0, minute],
      Refills rl.cfg lag (rl.cfg.tier Traffic.hexLib visitor) := by
    intro lag hlag
    rw [Refills, hlimit, hburst, httl]
    rcases List.mem_pair.mp hlag with rfl | rfl <;>
      norm_num [tokensFromDuration, rateLimiterTTL, minute, second]
  refine ⟨rl, hnew, fun lag hlag => ?_⟩
  refine ((withinBudget_iff hnew Traffic.hexLib visitor).2 lag ?_).1 (hrefills lag hlag)
  rcases List.mem_pair.mp hlag with rfl | rfl <;> decide

/-- Three requests at one in 256 seconds are not: six requests are admitted in ten minutes and a
nanosecond, where the budget is less than five and a half. -/
theorem not_withinBudget : ∃ rl l, KeyedRateLimiter.new (tenantConfig (1 / 256) 3) = .ok rl ∧
    (system Traffic.hexLib (tenantConfig (1 / 256) 3) 0).Reachable l ∧
    l.admitted = List.replicate 3 (visitor, 0) ++ List.replicate 3 (visitor, rateLimiterTTL + 1) ∧
    l.admittedIn Traffic.hexLib visitor 0 (rateLimiterTTL + 1) = 6 ∧
    3 + tokensFromDuration (1 / 256) (rateLimiterTTL + 1 - 0) < 11 / 2 ∧
    ¬ WithinBudget Traffic.hexLib (tenantConfig (1 / 256) 3) 0 (rl.cfg.tier Traffic.hexLib visitor)
      visitor := by
  obtain ⟨rl, hnew, hlimit, hburst, httl⟩ :=
    exists_new_tenantConfig (by norm_num : (0 : ℚ) < 1 / 256) (by norm_num : (0 : ℤ) < 3)
  obtain ⟨l, hreach, hadmitted, hcount⟩ := exists_spent_twice (n := 3) hnew le_rfl
    (by rw [hburst]; norm_num : ((3 : ℕ) : ℚ) = (rl.cfg.tier Traffic.hexLib visitor).burst)
  rw [httl] at hadmitted hcount
  have hbudget : (3 : ℚ) + tokensFromDuration (1 / 256) (rateLimiterTTL + 1 - 0) < 11 / 2 := by
    norm_num [tokensFromDuration, rateLimiterTTL, minute, second]
  refine ⟨rl, l, hnew, hreach, hadmitted, hcount, hbudget, fun hwithin => ?_⟩
  have hbound := hwithin l hreach 0 (rateLimiterTTL + 1)
    (by norm_num [rateLimiterTTL, minute, second])
  rw [hcount, hlimit, hburst] at hbound
  push_cast at hbound
  norm_num at hbound hbudget
  linarith

end Example

end Ledger

end HttpWare
