import BackendKit.GoStd.Net
import BackendKit.ToMathlib.AList
import BackendKit.ToMathlib.StepSystem
import BackendKit.XTime.Rate
import Mathlib.Algebra.Order.Floor.Ring
import Mathlib.Data.Rat.Floor

/-!
# The keyed rate limiter

`KeyedRateLimiter` (`httpware/keyed_ratelimit.go`): every request is counted against a bucket, of
its tenant, else of its subject, else of its client address.

The limiter keeps pointers to `rate.Limiter`s, so a bucket is an address here, and `State` holds
what is behind the addresses. `State.limiter` and `State.evictIdle` are the two critical sections
of the limiter's lock; `State.handle` is the middleware when requests come one at a time.

Subjects and addresses come from outside and the cleanup looks at the first byte of a key, so keys
are byte strings.
-/

open GoStd XTime

namespace HttpWare

/-- `uuid.UUID`. -/
abbrev UUID := Vector UInt8 16

/-- `uuid.Nil`. -/
def UUID.nil : UUID := Vector.replicate 16 0

/-- What the limiter reads of a request. -/
structure Request where
  /-- The tenant in the request's context. -/
  tenantID : Option UUID := none
  /-- The subject in the request's context. -/
  userSub : Option Bytes := none
  remoteAddr : Bytes := []
  header : Bytes → List Bytes := fun _ => []

/-- `ctxutil.GetTenantID`. -/
def Request.getTenantID (r : Request) : UUID := r.tenantID.getD UUID.nil

/-- `ctxutil.GetUserSub`. -/
def Request.getUserSub (r : Request) : Bytes := r.userSub.getD []

/-- The library functions that bucket keys are made with. -/
structure Lib where
  /-- `UUID.String`. -/
  uuidString : UUID → Bytes
  /-- `net.ParseIP`: the 16 bytes of an address. -/
  parseIP : Bytes → Option Bytes
  /-- `IP.String`. -/
  ipString : Bytes → Bytes

/-! ### The configuration -/

/-- The configuration as the caller gives it; zero and nil ask for a default. -/
structure KeyedRateLimiterConfig where
  rps : ℚ
  burst : ℤ
  anonymousRPS : ℚ := 0
  anonymousBurst : ℤ := 0
  clientIP : Option (Request → Bytes) := none
  maxAnonymousKeys : ℤ := 0
  idleTTL : ℤ := 0

/-- `DefaultMaxAnonymousKeys`. -/
def defaultMaxAnonymousKeys : ℤ := 10000

def rateLimiterTTL : ℤ := 10 * Duration.minute

/-- The connection's peer address, without its port. -/
def peerAddress (r : Request) : Bytes :=
  match Net.splitHostPort r.remoteAddr with
  | none => r.remoteAddr
  | some (host, _) => host

/-- A configuration that was accepted, with the defaults filled in. -/
structure Limits where
  rps : ℚ
  burst : ℤ
  anonymousRPS : ℚ
  anonymousBurst : ℤ
  clientIP : Request → Bytes
  maxAnonymousKeys : ℤ
  idleTTL : ℤ
  rps_pos : 0 < rps
  burst_pos : 0 < burst
  anonymousRPS_pos : 0 < anonymousRPS
  anonymousBurst_pos : 0 < anonymousBurst
  maxAnonymousKeys_pos : 0 < maxAnonymousKeys
  idleTTL_pos : 0 < idleTTL

/-- The checks and defaults of `NewKeyedRateLimiter`. -/
def KeyedRateLimiterConfig.validate (cfg : KeyedRateLimiterConfig) : Except String Limits :=
  if h : cfg.rps ≤ 0 ∨ cfg.burst ≤ 0 then
    .error "httpware: KeyedRateLimiter needs a positive RPS and Burst"
  else if h' : cfg.anonymousRPS < 0 ∨ cfg.anonymousBurst < 0 ∨ cfg.maxAnonymousKeys < 0 ∨
      cfg.idleTTL < 0 then
    .error "httpware: KeyedRateLimiter limits must not be negative"
  else
    .ok
      { rps := cfg.rps
        burst := cfg.burst
        anonymousRPS := if cfg.anonymousRPS = 0 then cfg.rps / 10 else cfg.anonymousRPS
        anonymousBurst :=
          if cfg.anonymousBurst = 0 then max (cfg.burst / 10) 1 else cfg.anonymousBurst
        clientIP := cfg.clientIP.getD peerAddress
        maxAnonymousKeys :=
          if cfg.maxAnonymousKeys = 0 then defaultMaxAnonymousKeys else cfg.maxAnonymousKeys
        idleTTL := if cfg.idleTTL = 0 then rateLimiterTTL else cfg.idleTTL
        rps_pos := by
          rw [not_or, not_le] at h
          exact h.1
        burst_pos := by
          rw [not_or, not_le, not_le] at h
          exact h.2
        anonymousRPS_pos := by
          rw [not_or, not_le] at h
          split
          · exact div_pos h.1 (by norm_num)
          · exact lt_of_le_of_ne (not_lt.mp fun hneg => h' (.inl hneg)) (Ne.symm ‹_›)
        anonymousBurst_pos := by
          split <;> omega
        maxAnonymousKeys_pos := by
          unfold defaultMaxAnonymousKeys
          split <;> omega
        idleTTL_pos := by
          unfold rateLimiterTTL Duration.minute Duration.second
          split <;> omega }

/-- The rate and the burst of a tier. -/
def Limits.newLimiter (cfg : Limits) (anonymous : Bool) : Limiter :=
  if anonymous then
    Limiter.new cfg.anonymousRPS cfg.anonymousBurst cfg.anonymousRPS_pos cfg.anonymousBurst_pos
  else Limiter.new cfg.rps cfg.burst cfg.rps_pos cfg.burst_pos

/-! ### Bucket keys -/

/-- Normalise a client address for bucketing. -/
def addressKey (lib : Lib) (addr : Bytes) : Bytes :=
  if addr = [] then ascii "unknown"
  else
    match lib.parseIP addr with
    | none => addr.take 64
    | some ip =>
      match Net.to4 ip with
      | some ip4 => lib.ipString ip4
      | none => lib.ipString (Net.mask ip Net.mask64) ++ ascii "/64"

/-- The bucket key of a request, and whether it is a client-address key. -/
def Limits.key (cfg : Limits) (lib : Lib) (r : Request) : Bytes × Bool :=
  if r.getTenantID ≠ UUID.nil then (ascii "t:" ++ lib.uuidString r.getTenantID, false)
  else if r.getUserSub ≠ [] then (ascii "s:" ++ r.getUserSub, false)
  else (ascii "a:" ++ addressKey lib (cfg.clientIP r), true)

/-! ### The limiter -/

/-- A bucket and when it was last asked for. -/
structure TenantLimiter where
  limiter : ℕ
  lastSeen : ℤ

structure KeyedRateLimiter where
  cfg : Limits
  keys : AList fun _ : Bytes => TenantLimiter
  /-- Client-address buckets in `keys`. -/
  anon : ℤ

/-- `NewKeyedRateLimiter`. -/
def KeyedRateLimiter.new (cfg : KeyedRateLimiterConfig) : Except String KeyedRateLimiter :=
  cfg.validate.map fun limits => { cfg := limits, keys := ∅, anon := 0 }

/-- A new limiter has no buckets. -/
theorem KeyedRateLimiter.empty_of_new {config : KeyedRateLimiterConfig} {rl : KeyedRateLimiter}
    (h : KeyedRateLimiter.new config = .ok rl) : rl.keys = ∅ ∧ rl.anon = 0 := by
  unfold KeyedRateLimiter.new at h
  rcases hcfg : config.validate with err | limits
  · rw [hcfg] at h
    cases h
  · rw [hcfg] at h
    cases h
    exact ⟨rfl, rfl⟩

/-- The limiter and the buckets it points to. -/
structure State where
  rl : KeyedRateLimiter
  limiters : ℕ → Limiter
  /-- The first unused address. -/
  next : ℕ

namespace State

/-- The bucket `kl` of a key is asked for. -/
def seen (s : State) (key : Bytes) (kl : TenantLimiter) (now : ℤ) : State :=
  { s with rl := { s.rl with keys := s.rl.keys.insert key { kl with lastSeen := now } } }

/-- A new bucket for a key. -/
def created (s : State) (key : Bytes) (anonymous : Bool) (now : ℤ) : State where
  rl := { s.rl with
    keys := s.rl.keys.insert key { limiter := s.next, lastSeen := now }
    anon := if anonymous then s.rl.anon + 1 else s.rl.anon }
  limiters := Function.update s.limiters s.next (s.rl.cfg.newLimiter anonymous)
  next := s.next + 1

/-- The method `limiter`: the bucket of a key, a new one if there is none, and nothing if the
address tier is full. -/
def limiter (s : State) (key : Bytes) (anonymous : Bool) (now : ℤ) : State × Option ℕ :=
  match s.rl.keys.lookup key with
  | some kl => (s.seen key kl now, some kl.limiter)
  | none =>
    if anonymous && s.rl.cfg.maxAnonymousKeys ≤ s.rl.anon then (s, none)
    else (s.created key anonymous now, some s.next)

/-- The first byte of a key is an `a`. -/
def startsWithA (key : Bytes) : Bool := key.head? = some 0x61

/-- Drop the buckets that were last asked for before `cutoff`. -/
def evictIdle (s : State) (cutoff : ℤ) : State :=
  let idle (kl : TenantLimiter) : Bool := kl.lastSeen < cutoff
  { s with
    rl := { s.rl with
      keys := s.rl.keys.filter fun _ kl => !idle kl
      anon := s.rl.anon - s.rl.keys.entries.countP fun e => idle e.2 && startsWithA e.1 } }

end State

/-! ### The middleware -/

/-- What becomes of a request. -/
inductive Outcome where
  /-- It is handed to the next handler. -/
  | next
  /-- 429 `rate_limited`, with a `Retry-After` header in seconds. -/
  | rateLimited (retryAfter : ℤ)
  deriving DecidableEq, Repr

/-- `writeRateLimited`. -/
def writeRateLimited (delay : ℚ) : Outcome := .rateLimited (max ⌈delay / Duration.second⌉ 1)

/-- The reservation does not let the request through. -/
def refused (res : Reservation) (now : ℚ) : Bool := !res.ok || 0 < res.delay now

/-- What the middleware does with a bucket: reserve a token, and give it back if it would have to
wait. `Reserve`, `Delay` and `Cancel` read the same time here. -/
def ask (lim : Limiter) (now : ℚ) : Limiter × Outcome :=
  let (lim, res) := lim.reserve now
  if refused res now then
    (lim.cancel res now, writeRateLimited (if !res.ok then Duration.second else res.delay now))
  else (lim, .next)

/-- The middleware, for requests that come one at a time. The method `limiter` reads the clock first
(`seen`), and the bucket is asked later. -/
def State.handle (lib : Lib) (s : State) (r : Request) (seen now : ℤ) : State × Outcome :=
  let (key, anonymous) := s.rl.cfg.key lib r
  match s.limiter key anonymous seen with
  | (s, none) => (s, writeRateLimited s.rl.cfg.idleTTL)
  | (s, some l) =>
    let (lim, out) := ask (s.limiters l) now
    ({ s with limiters := Function.update s.limiters l lim }, out)

/-! ### Small facts -/

@[simp] theorem ascii_tenant : ascii "t:" = [0x74, 0x3a] := by decide

@[simp] theorem ascii_subject : ascii "s:" = [0x73, 0x3a] := by decide

@[simp] theorem ascii_address : ascii "a:" = [0x61, 0x3a] := by decide

/-- The cleanup recognises the client-address keys by their first byte, whatever subjects and
addresses there are. -/
theorem startsWithA_key (cfg : Limits) (lib : Lib) (r : Request) :
    State.startsWithA (cfg.key lib r).1 = (cfg.key lib r).2 := by
  unfold Limits.key
  split
  · simp [State.startsWithA]
  split
  · simp [State.startsWithA]
  · simp [State.startsWithA]

/-- The key is the one of a client address if there is neither a tenant nor a subject. -/
theorem anonymous_key_iff (cfg : Limits) (lib : Lib) (r : Request) :
    (cfg.key lib r).2 = true ↔ r.getTenantID = UUID.nil ∧ r.getUserSub = [] := by
  unfold Limits.key
  by_cases htenant : r.getTenantID = UUID.nil
  · by_cases hsub : r.getUserSub = [] <;> simp [htenant, hsub]
  · simp [htenant]

end HttpWare
