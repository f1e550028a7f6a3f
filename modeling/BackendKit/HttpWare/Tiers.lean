import BackendKit.HttpWare.KeyedRateLimit

/-!
# The tiers of the keyed rate limiter

Whatever requests come, in whatever order the critical sections of `limiter` and `evictIdle` are
taken: the tiers do not share buckets, and the address tier stays bounded.

`Traffic` runs the two critical sections and keeps two records beside the state, of the request
that each bucket was made for, and of the buckets that requests were given. The counter `anon` is
incremented by the one section and decremented by the other, which goes by the first byte of the
key. `Traffic.Inv` ties it to the keys, and the keys to the requests; `Traffic.apart_of_reachable` is
what follows for all requests.
-/

open GoStd XTime

namespace HttpWare

/-! ### Which requests have the same key -/

/-- The two requests are of the same tier and have the same tenant, the same subject, or addresses
that are bucketed alike. -/
def SameBucket (lib : Lib) (cfg : Limits) (r r' : Request) : Prop :=
  (r.getTenantID ≠ UUID.nil ∧ r'.getTenantID = r.getTenantID) ∨
  (r.getTenantID = UUID.nil ∧ r'.getTenantID = UUID.nil ∧
    r.getUserSub ≠ [] ∧ r'.getUserSub = r.getUserSub) ∨
  (r.getTenantID = UUID.nil ∧ r'.getTenantID = UUID.nil ∧ r.getUserSub = [] ∧ r'.getUserSub = [] ∧
    addressKey lib (cfg.clientIP r') = addressKey lib (cfg.clientIP r))

/-- Requests with the same key are of the same tier, and are alike in what their tier goes by. -/
theorem sameBucket_of_key_eq {lib : Lib} (hlib : Function.Injective lib.uuidString) {cfg : Limits}
    {r r' : Request} (h : (cfg.key lib r').1 = (cfg.key lib r).1) : SameBucket lib cfg r r' := by
  unfold Limits.key at h
  unfold SameBucket
  by_cases ht : r.getTenantID = UUID.nil <;> by_cases ht' : r'.getTenantID = UUID.nil
  · -- neither has a tenant
    by_cases hs : r.getUserSub = [] <;> by_cases hs' : r'.getUserSub = []
    · right; right
      simpa [ht, ht', hs, hs'] using h
    · simp [ht, ht', hs, hs'] at h
    · simp [ht, ht', hs, hs'] at h
    · right; left
      simpa [ht, ht', hs, hs'] using h
  · -- the first byte of the keys differs
    by_cases hs : r.getUserSub = [] <;> simp [ht, ht', hs] at h
  · by_cases hs' : r'.getUserSub = [] <;> simp [ht, ht', hs'] at h
  · left
    refine ⟨ht, hlib ?_⟩
    simpa [ht, ht'] using h

/-! ### The two critical sections -/

namespace State

/-- What `limiter` can do: hand out the bucket there is, make one, or refuse a new address. -/
theorem limiter_cases (s : State) (key : Bytes) (anonymous : Bool) (now : ℤ) :
    (∃ kl, s.rl.keys.lookup key = some kl ∧
      s.limiter key anonymous now = (s.seen key kl now, some kl.limiter)) ∨
    (s.rl.keys.lookup key = none ∧ (anonymous = true → s.rl.anon < s.rl.cfg.maxAnonymousKeys) ∧
      s.limiter key anonymous now = (s.created key anonymous now, some s.next)) ∨
    (s.rl.keys.lookup key = none ∧ anonymous = true ∧ s.rl.cfg.maxAnonymousKeys ≤ s.rl.anon ∧
      s.limiter key anonymous now = (s, none)) := by
  unfold limiter
  rcases hkey : s.rl.keys.lookup key with _ | kl
  · right
    by_cases hfull : anonymous = true ∧ s.rl.cfg.maxAnonymousKeys ≤ s.rl.anon
    · right
      simp [hfull]
    · left
      refine ⟨rfl, fun hanon => ?_, ?_⟩
      · by_contra hle
        exact hfull ⟨hanon, not_lt.mp hle⟩
      · have : (anonymous && decide (s.rl.cfg.maxAnonymousKeys ≤ s.rl.anon)) = false := by
          simpa using hfull
        simp [this]
  · left
    exact ⟨kl, rfl, rfl⟩

/-- The counter is the number of client-address keys. -/
def Counted (s : State) : Prop := s.rl.anon = (s.rl.keys.keys.countP startsWithA : ℤ)

variable {s : State} {key : Bytes}

theorem Counted.seen (h : s.Counted) {kl : TenantLimiter} (hkl : s.rl.keys.lookup key = some kl)
    (now : ℤ) : (s.seen key kl now).Counted := by
  have hmem : key ∈ s.rl.keys := AList.lookup_isSome.mp (by rw [hkl]; rfl)
  show s.rl.anon = ((s.rl.keys.insert key _).keys.countP startsWithA : ℤ)
  rw [AList.countP_keys_insert_of_mem _ _ hmem]
  exact h

theorem Counted.created (h : s.Counted) (hkl : s.rl.keys.lookup key = none) {anonymous : Bool}
    (hkey : startsWithA key = anonymous) (now : ℤ) : (s.created key anonymous now).Counted := by
  have hnot : key ∉ s.rl.keys := AList.lookup_eq_none.mp hkl
  show (if anonymous then s.rl.anon + 1 else s.rl.anon) =
    ((s.rl.keys.insert key _).keys.countP startsWithA : ℤ)
  rw [AList.countP_keys_insert_of_notMem _ _ hnot, hkey, h]
  split <;> simp

theorem Counted.evictIdle (h : s.Counted) (cutoff : ℤ) : (s.evictIdle cutoff).Counted := by
  have hcount := AList.countP_keys_filter startsWithA
    (fun _ (kl : TenantLimiter) => !decide (kl.lastSeen < cutoff)) s.rl.keys
  simp only [Bool.not_not] at hcount
  unfold Counted at h ⊢
  simp only [State.evictIdle]
  omega

end State

/-- The limiter at work. The last two fields are records that the program does not have. -/
structure Traffic where
  base : State
  /-- The request a bucket was made for. -/
  madeFor : ℕ → Request
  /-- The buckets that requests were given. -/
  served : List (Request × ℕ)

namespace Traffic

/-- One critical section. -/
inductive Event where
  /-- `limiter`, for the key of the request. -/
  | limiter (r : Request) (now : ℤ)
  | evictIdle (cutoff : ℤ)

def step (lib : Lib) (t : Traffic) : Event → Option Traffic
  | .limiter r now =>
    let key := t.base.rl.cfg.key lib r
    let (base, bucket) := t.base.limiter key.1 key.2 now
    some
      { base
        madeFor := if base.next = t.base.next then t.madeFor
          else Function.update t.madeFor t.base.next r
        served := t.served ++ bucket.toList.map fun l => (r, l) }
  | .evictIdle cutoff => some { t with base := t.base.evictIdle cutoff }

/-- All interleavings of the critical sections, driven by any requests. -/
def system (lib : Lib) (config : KeyedRateLimiterConfig) : StepSystem Traffic Event where
  IsInit t := KeyedRateLimiter.new config = .ok t.base.rl ∧ t.base.next = 0 ∧ t.served = []
  step := step lib

variable {lib : Lib} {config : KeyedRateLimiterConfig} {t t' : Traffic} {e : Event}

/-- The counter counts the client-address keys, and every bucket belongs to the key of the request
it was made for. -/
structure Inv (lib : Lib) (t : Traffic) : Prop where
  entry : ∀ key kl, t.base.rl.keys.lookup key = some kl →
    kl.limiter < t.base.next ∧ (t.base.rl.cfg.key lib (t.madeFor kl.limiter)).1 = key
  served : ∀ x ∈ t.served, x.2 < t.base.next ∧
    (t.base.rl.cfg.key lib (t.madeFor x.2)).1 = (t.base.rl.cfg.key lib x.1).1
  anon_eq : t.base.rl.anon = (t.base.rl.keys.keys.countP State.startsWithA : ℤ)
  anon_le : t.base.rl.anon ≤ t.base.rl.cfg.maxAnonymousKeys

theorem inv_of_isInit (h : (system lib config).IsInit t) : Inv lib t := by
  obtain ⟨hnew, -, hserved⟩ := h
  obtain ⟨hkeys, hanon⟩ := KeyedRateLimiter.empty_of_new hnew
  refine ⟨?_, ?_, ?_, ?_⟩
  · intro key kl hkl
    simp [hkeys] at hkl
  · intro x hx
    simp [hserved] at hx
  · simp [hkeys, hanon]
  · rw [hanon]
    exact t.base.rl.cfg.maxAnonymousKeys_pos.le

/-- Asking for a bucket that is there. -/
theorem Inv.seen (h : Inv lib t) (r : Request) (now : ℤ) {kl : TenantLimiter}
    (hkl : t.base.rl.keys.lookup (t.base.rl.cfg.key lib r).1 = some kl) :
    Inv lib { t with
      base := t.base.seen (t.base.rl.cfg.key lib r).1 kl now
      served := t.served ++ [(r, kl.limiter)] } := by
  obtain ⟨hlt, hmade⟩ := h.entry _ _ hkl
  refine ⟨?_, ?_, State.Counted.seen h.anon_eq hkl now, h.anon_le⟩
  · intro key kl' hkl'
    by_cases heq : key = (t.base.rl.cfg.key lib r).1
    · subst heq
      simp only [State.seen, AList.lookup_insert, Option.some.injEq] at hkl'
      subst hkl'
      exact ⟨hlt, hmade⟩
    · simp only [State.seen, AList.lookup_insert_ne heq] at hkl'
      exact h.entry key kl' hkl'
  · intro x hx
    rcases List.mem_append.mp hx with hold | hnew
    · exact h.served x hold
    · obtain rfl := List.mem_singleton.mp hnew
      exact ⟨hlt, hmade⟩

/-- Making a bucket. -/
theorem Inv.created (h : Inv lib t) (r : Request) (now : ℤ)
    (hkl : t.base.rl.keys.lookup (t.base.rl.cfg.key lib r).1 = none)
    (hroom : (t.base.rl.cfg.key lib r).2 = true → t.base.rl.anon < t.base.rl.cfg.maxAnonymousKeys) :
    Inv lib
      { base := t.base.created (t.base.rl.cfg.key lib r).1 (t.base.rl.cfg.key lib r).2 now
        madeFor := Function.update t.madeFor t.base.next r
        served := t.served ++ [(r, t.base.next)] } := by
  -- buckets that were there keep the request they were made for
  have hold : ∀ l < t.base.next, ∀ key, (t.base.rl.cfg.key lib (t.madeFor l)).1 = key →
      l < t.base.next + 1 ∧
        (t.base.rl.cfg.key lib (Function.update t.madeFor t.base.next r l)).1 = key := by
    intro l hl key hmade
    rw [Function.update_of_ne (Nat.ne_of_lt hl)]
    exact ⟨hl.trans (Nat.lt_succ_self _), hmade⟩
  have hnew : t.base.next < t.base.next + 1 ∧
      (t.base.rl.cfg.key lib (Function.update t.madeFor t.base.next r t.base.next)).1 =
        (t.base.rl.cfg.key lib r).1 := by
    rw [Function.update_self]
    exact ⟨Nat.lt_succ_self _, rfl⟩
  refine ⟨?_, ?_, State.Counted.created h.anon_eq hkl (startsWithA_key _ lib r) now, ?_⟩
  · intro key kl' hkl'
    by_cases heq : key = (t.base.rl.cfg.key lib r).1
    · subst heq
      simp only [State.created, AList.lookup_insert, Option.some.injEq] at hkl'
      subst hkl'
      exact hnew
    · simp only [State.created, AList.lookup_insert_ne heq] at hkl'
      obtain ⟨hlt, hmade⟩ := h.entry key kl' hkl'
      exact hold _ hlt _ hmade
  · intro x hx
    rcases List.mem_append.mp hx with hbefore | hlast
    · obtain ⟨hlt, hmade⟩ := h.served x hbefore
      exact hold _ hlt _ hmade
    · obtain rfl := List.mem_singleton.mp hlast
      exact hnew
  · show (if (t.base.rl.cfg.key lib r).2 then t.base.rl.anon + 1 else t.base.rl.anon) ≤
      t.base.rl.cfg.maxAnonymousKeys
    split
    · have := hroom ‹_›
      omega
    · exact h.anon_le

/-- Dropping idle buckets. -/
theorem Inv.evictIdle (h : Inv lib t) (cutoff : ℤ) :
    Inv lib { t with base := t.base.evictIdle cutoff } := by
  refine ⟨?_, h.served, State.Counted.evictIdle h.anon_eq cutoff, ?_⟩
  · intro key kl hkl
    simp only [State.evictIdle, AList.lookup_filter] at hkl
    exact h.entry key kl (Option.filter_eq_some_iff.mp hkl).1
  · have := h.anon_le
    simp only [State.evictIdle]
    omega

theorem inv_step (h : Inv lib t) (hstep : step lib t e = some t') : Inv lib t' := by
  cases e with
  | evictIdle cutoff =>
    cases hstep
    exact h.evictIdle cutoff
  | limiter r now =>
    rw [step] at hstep
    rcases t.base.limiter_cases (t.base.rl.cfg.key lib r).1 (t.base.rl.cfg.key lib r).2 now with
      ⟨kl, hkl, heq⟩ | ⟨hkl, hroom, heq⟩ | ⟨-, -, -, heq⟩
    · simp only [heq] at hstep
      cases hstep
      simpa [State.seen] using h.seen r now hkl
    · simp only [heq] at hstep
      cases hstep
      simpa [State.created] using h.created r now hkl hroom
    · simp only [heq] at hstep
      cases hstep
      simpa using h

theorem inv_of_reachable (h : (system lib config).Reachable t) : Inv lib t :=
  StepSystem.reachable_invariant (fun _ h => inv_of_isInit h)
    (fun _ _ _ ht hstep => inv_step ht hstep) h

/-! ### What follows for all requests -/

/-- The tiers stay apart and the address tier stays bounded. -/
structure Apart (lib : Lib) (t : Traffic) : Prop where
  /-- The counter is the number of entries that were made for client addresses. -/
  anon_eq : t.base.rl.anon = t.base.rl.keys.entries.countP fun e =>
    (t.base.rl.cfg.key lib (t.madeFor e.2.limiter)).2
  anon_nonneg : 0 ≤ t.base.rl.anon
  anon_le : t.base.rl.anon ≤ t.base.rl.cfg.maxAnonymousKeys
  /-- Only a new client address is refused a bucket, and only when the tier is full. -/
  refused : ∀ r now, (t.base.limiter (t.base.rl.cfg.key lib r).1 (t.base.rl.cfg.key lib r).2 now).2
    = none → r.getTenantID = UUID.nil ∧ r.getUserSub = [] ∧
      (t.base.rl.cfg.key lib r).1 ∉ t.base.rl.keys ∧
      t.base.rl.anon = t.base.rl.cfg.maxAnonymousKeys
  shared : ∀ r r' l, (r, l) ∈ t.served → (r', l) ∈ t.served → SameBucket lib t.base.rl.cfg r r'

/-- The entries made for client addresses are those whose key starts with an `a`. -/
theorem Inv.countP_entries (h : Inv lib t) :
    t.base.rl.keys.entries.countP (fun e => (t.base.rl.cfg.key lib (t.madeFor e.2.limiter)).2) =
      t.base.rl.keys.keys.countP State.startsWithA := by
  rw [AList.keys, List.keys, List.countP_map]
  apply List.countP_congr
  intro e he
  obtain ⟨-, hmade⟩ := h.entry e.1 e.2 (AList.mem_lookup_iff.mpr he)
  rw [← startsWithA_key, hmade, Function.comp_apply]

/-- For every configuration that is accepted and every interleaving of the critical sections,
whatever tenants, subjects and addresses the requests have. -/
theorem apart_of_reachable (hlib : Function.Injective lib.uuidString)
    (h : (system lib config).Reachable t) : Apart lib t := by
  have hinv := inv_of_reachable h
  refine ⟨?_, ?_, hinv.anon_le, ?_, ?_⟩
  · rw [hinv.countP_entries]
    exact hinv.anon_eq
  · rw [hinv.anon_eq]
    exact Int.natCast_nonneg _
  · intro r now hnone
    rcases t.base.limiter_cases (t.base.rl.cfg.key lib r).1 (t.base.rl.cfg.key lib r).2 now with
      ⟨kl, -, heq⟩ | ⟨-, -, heq⟩ | ⟨hkl, hanon, hfull, -⟩
    · rw [heq] at hnone
      cases hnone
    · rw [heq] at hnone
      cases hnone
    · obtain ⟨htenant, hsub⟩ := (anonymous_key_iff _ lib r).mp hanon
      exact ⟨htenant, hsub, AList.lookup_eq_none.mp hkl, le_antisymm hinv.anon_le hfull⟩
  · intro r r' l hr hr'
    apply sameBucket_of_key_eq hlib
    exact (hinv.served _ hr').2.symm.trans (hinv.served _ hr).2

section Example

/-- The form `xxxxxxxx-xxxx-xxxx-xxxx-xxxxxxxxxxxx` of a UUID. -/
def hyphenated (u : UUID) : Bytes :=
  let group (start count : ℕ) : Bytes := ((u.toList.drop start).take count).flatMap hexByte
  group 0 4 ++ [0x2d] ++ group 4 2 ++ [0x2d] ++ group 6 2 ++ [0x2d] ++ group 8 2 ++ [0x2d] ++
    group 10 6

theorem hexByte_injective : Function.Injective hexByte := by
  have hdigit : ∀ m n : Fin 16, (hexChar m).toUInt8 = (hexChar n).toUInt8 → m = n := by decide +kernel
  intro b c h
  simp only [hexByte, List.cons.injEq, and_true] at h
  have hb := b.toNat_lt
  have hc := c.toNat_lt
  have hhigh := congrArg Fin.val (hdigit ⟨b.toNat / 16, by omega⟩ ⟨c.toNat / 16, by omega⟩ h.1)
  have hlow := congrArg Fin.val (hdigit ⟨b.toNat % 16, by omega⟩ ⟨c.toNat % 16, by omega⟩ h.2)
  apply UInt8.toNat_inj.mp
  simp only at hhigh hlow
  omega

theorem flatMap_hexByte_injective : Function.Injective (List.flatMap hexByte) := by
  intro l l' h
  induction l generalizing l' with
  | nil =>
    cases l' with
    | nil => rfl
    | cons b l' => simp [hexByte] at h
  | cons b l ih =>
    cases l' with
    | nil => simp [hexByte] at h
    | cons c l' =>
      rw [List.flatMap_cons, List.flatMap_cons] at h
      obtain ⟨hbyte, hrest⟩ := List.append_inj h rfl
      rw [hexByte_injective hbyte, ih hrest]

/-- Without its hyphens, the form is the digits of all bytes. -/
theorem filter_hyphenated (u : UUID) :
    (hyphenated u).filter (· ≠ 0x2d) = u.toList.flatMap hexByte := by
  have hdigits : ∀ l : Bytes, (l.flatMap hexByte).filter (· ≠ 0x2d) = l.flatMap hexByte := by
    intro l
    rw [List.filter_eq_self]
    intro c hc
    obtain ⟨b, -, hb⟩ := List.mem_flatMap.mp hc
    exact forall_mem_hexByte (p := fun c => decide (c ≠ 0x2d) = true) (by decide +kernel) hb
  have hhyphen : [(0x2d : UInt8)].filter (· ≠ 0x2d) = [] := by decide
  have hsplit : ∀ (m n : ℕ) (l : Bytes), l.drop m = (l.drop m).take n ++ l.drop (m + n) := by
    intro m n l
    rw [← List.drop_drop, List.take_append_drop]
  have hlast : (u.toList.drop 10).take 6 = u.toList.drop 10 := by
    apply List.take_of_length_le
    simp
  have hgroups : u.toList = (u.toList.drop 0).take 4 ++ ((u.toList.drop 4).take 2 ++
      ((u.toList.drop 6).take 2 ++ ((u.toList.drop 8).take 2 ++ (u.toList.drop 10).take 6))) := by
    rw [hlast, ← hsplit 8 2, ← hsplit 6 2, ← hsplit 4 2, ← hsplit 0 4, List.drop_zero]
  simp only [hyphenated, List.filter_append, hdigits, hhyphen, List.append_assoc,
    List.nil_append]
  conv_rhs => rw [hgroups]
  simp only [List.flatMap_append]

theorem hyphenated_injective : Function.Injective hyphenated := by
  intro u v h
  apply Vector.toList_inj.mp
  apply flatMap_hexByte_injective
  rw [← filter_hyphenated, ← filter_hyphenated, h]

/-- The library on requests whose client address is not an IP address. -/
def hexLib : Lib where
  uuidString := hyphenated
  parseIP := fun _ => none
  ipString := id

/-- Room for one client address. -/
def crowdedConfig : KeyedRateLimiterConfig where
  rps := 1
  burst := 1
  maxAnonymousKeys := 1

theorem rps_crowdedConfig_pos : 0 < crowdedConfig.rps := by norm_num [crowdedConfig]

theorem anonymousRPS_crowdedConfig_pos : 0 < crowdedConfig.rps / 10 :=
  div_pos rps_crowdedConfig_pos (by norm_num)

theorem rateLimiterTTL_pos : 0 < rateLimiterTTL := by decide

def crowdedLimits : Limits where
  rps := crowdedConfig.rps
  burst := 1
  anonymousRPS := crowdedConfig.rps / 10
  anonymousBurst := 1
  clientIP := peerAddress
  maxAnonymousKeys := 1
  idleTTL := rateLimiterTTL
  rps_pos := rps_crowdedConfig_pos
  burst_pos := Int.one_pos
  anonymousRPS_pos := anonymousRPS_crowdedConfig_pos
  anonymousBurst_pos := Int.one_pos
  maxAnonymousKeys_pos := Int.one_pos
  idleTTL_pos := rateLimiterTTL_pos

def crowded : Traffic where
  base :=
    { rl := { cfg := crowdedLimits, keys := ∅, anon := 0 }
      limiters := fun _ => crowdedLimits.newLimiter false
      next := 0 }
  madeFor := fun _ => {}
  served := []

theorem isInit_crowded : (system hexLib crowdedConfig).IsInit crowded := by
  have hrps : ¬ (1 : ℚ) ≤ 0 := by norm_num
  refine ⟨?_, rfl, rfl⟩
  simp [hrps, KeyedRateLimiter.new, KeyedRateLimiterConfig.validate, crowdedConfig, crowded,
    crowdedLimits, Except.map]

/-- A tenant, a subject that is spelled like the tenant, and two addresses; the second address is
refused until the first is dropped. -/
def crowd : List Event :=
  let tenant : UUID := Vector.replicate 16 0xab
  [.limiter { tenantID := some tenant } 0,
    .limiter { userSub := some (hyphenated tenant) } 1,
    .limiter { remoteAddr := ascii "peer" } 2,
    .limiter { remoteAddr := ascii "other" } 3,
    .evictIdle 4,
    .limiter { remoteAddr := ascii "other" } 5]

theorem apart_crowded :
    ((system hexLib crowdedConfig).run crowded crowd).map
        (fun t => (t.base.rl.anon, t.served.map Prod.snd)) = some (1, [0, 1, 2, 3]) ∧
      ∀ t, (system hexLib crowdedConfig).run crowded crowd = some t → Apart hexLib t :=
  ⟨by decide +kernel, fun _ h =>
    apart_of_reachable hyphenated_injective ⟨crowded, crowd, isInit_crowded, h⟩⟩

end Example

end Traffic

end HttpWare
