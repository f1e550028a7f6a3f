import BackendKit.HttpWare.KeyedRateLimit
import BackendKit.ToMathlib.CallSystem

/-!
# The tenant rate limiter

`RateLimiter` (`httpware/ratelimit.go`): a bucket for every tenant, made when the tenant is first
seen and dropped when it was not seen for `rateLimiterTTL`.

The lock of the limiter covers `getLimiter` and `evictStale`, but not the `Allow` on the bucket that
`getLimiter` has returned. Requests and cleanups therefore interleave between the two, and a request
may ask a bucket that was dropped in the meantime. `RateLimiter.code` has one step for each of the
three, and `RateLimiter.system` all interleavings.

What the other tenants do makes no difference to a tenant (`RateLimiter.isolated`), in any
interleaving and for any `rate.Limiter`.
-/

open GoStd XTime
open Function (update update_of_ne update_self)
open CallSystem (of_set set_of_ne set_self step_cases)

namespace HttpWare

/-- What the middleware needs of `rate.Limiter`: `NewLimiter` with the configured rate and burst, and
`AllowN(now, 1)`. -/
structure LimiterImpl (β : Type*) where
  newLimiter : β
  allow : β → ℤ → β × Bool

/-- The limiters of `NewRateLimiter(rps, burst)`. -/
def tokenBuckets (rps : ℚ) (burst : ℤ) (hrps : 0 < rps) (hburst : 0 < burst) :
    LimiterImpl Limiter where
  newLimiter := Limiter.new rps burst hrps hburst
  allow lim now := lim.allow now

/-- The limiter and the buckets it points to. The program keeps neither the tenant that a bucket was
made for nor the admitted requests. -/
structure RateLimiter (β : Type*) where
  limiters : AList fun _ : UUID => TenantLimiter
  heap : ℕ → Option (UUID × β)
  admitted : List (UUID × ℤ)

namespace RateLimiter

/-- What a step gets from outside: the time, and where a new bucket would be allocated. -/
structure Tick where
  now : ℤ
  fresh : ℕ

variable {β : Type*} (impl : LimiterImpl β)

/-- The bucket `tl` of a tenant is asked for. -/
def seen (rl : RateLimiter β) (tenantID : UUID) (tl : TenantLimiter) (now : ℤ) : RateLimiter β :=
  { rl with limiters := rl.limiters.insert tenantID { tl with lastSeen := now } }

/-- A new bucket for a tenant. -/
def created (rl : RateLimiter β) (tenantID : UUID) (tick : Tick) : RateLimiter β :=
  { rl with
    limiters := rl.limiters.insert tenantID { limiter := tick.fresh, lastSeen := tick.now }
    heap := update rl.heap tick.fresh (some (tenantID, impl.newLimiter)) }

/-- `getLimiter`. The allocator returns an address that is not in use. -/
def getLimiter (rl : RateLimiter β) (tenantID : UUID) (tick : Tick) : Option (RateLimiter β × ℕ) :=
  match rl.limiters.lookup tenantID with
  | some tl => some (rl.seen tenantID tl tick.now, tl.limiter)
  | none =>
    match rl.heap tick.fresh with
    | some _ => none
    | none => some (rl.created impl tenantID tick, tick.fresh)

/-- `Allow` on the bucket at the address `l`, which holds `b`. -/
def asked (rl : RateLimiter β) (tenantID : UUID) (l : ℕ) (b : UUID × β) (now : ℤ) :
    RateLimiter β :=
  { rl with
    heap := update rl.heap l (some (b.1, (impl.allow b.2 now).1))
    admitted :=
      if (impl.allow b.2 now).2 then rl.admitted ++ [(tenantID, now)] else rl.admitted }

/-- The middleware's answer. -/
def answer (ok : Bool) : Outcome := if ok then .next else .rateLimited 1

def evictStale (rl : RateLimiter β) (now : ℤ) : RateLimiter β :=
  { rl with
    limiters := rl.limiters.filter fun _ tl => !decide (tl.lastSeen < now - rateLimiterTTL) }

/-- A request with the tenant of its context, or a round of `cleanupLoop`. -/
inductive Job where
  | request (tenantID : UUID)
  | cleanup
  deriving DecidableEq

inductive Phase where
  | begun
  /-- `getLimiter` has returned this bucket. -/
  | holding (limiter : ℕ)
  | served (outcome : Outcome)
  | swept
  deriving DecidableEq

/-- `Handler` and `evictStale`, in steps that are each done under a lock. -/
def advance (rl : RateLimiter β) (job : Job) (phase : Phase) (tick : Tick) :
    Option (RateLimiter β × Phase) :=
  match job, phase with
  | .request tenantID, .begun =>
    if tenantID = UUID.nil then some (rl, .served .next)
    else (rl.getLimiter impl tenantID tick).map fun r => (r.1, .holding r.2)
  | .request tenantID, .holding l =>
    (rl.heap l).map fun b =>
      (rl.asked impl tenantID l b tick.now, .served (answer (impl.allow b.2 tick.now).2))
  | .cleanup, .begun => some (rl.evictStale tick.now, .swept)
  | _, _ => none

def code : CallSystem (RateLimiter β) Job Phase Tick := ⟨.begun, advance impl⟩

abbrev State (β : Type*) := CallSystem.State (RateLimiter β) Job Phase

abbrev Event := CallSystem.Event Job Tick

/-- All interleavings, from a new limiter on. -/
def system : StepSystem (State β) Event :=
  (code impl).system fun rl => rl.limiters = ∅ ∧ (∀ l, rl.heap l = none) ∧ rl.admitted = []

/-- A step of a call. -/
inductive Advances (rl : RateLimiter β) (tick : Tick) :
    Job → Phase → RateLimiter β → Phase → Prop where
  /-- A request without a tenant is let through. -/
  | pass : Advances rl tick (.request UUID.nil) .begun rl (.served .next)
  | seen {tenantID tl} (hne : tenantID ≠ UUID.nil) (htl : rl.limiters.lookup tenantID = some tl) :
      Advances rl tick (.request tenantID) .begun (rl.seen tenantID tl tick.now)
        (.holding tl.limiter)
  | created {tenantID} (hne : tenantID ≠ UUID.nil) (hnone : rl.limiters.lookup tenantID = none)
      (hfresh : rl.heap tick.fresh = none) :
      Advances rl tick (.request tenantID) .begun (rl.created impl tenantID tick)
        (.holding tick.fresh)
  | asked {tenantID l b} (hb : rl.heap l = some b) :
      Advances rl tick (.request tenantID) (.holding l)
        (rl.asked impl tenantID l b tick.now) (.served (answer (impl.allow b.2 tick.now).2))
  | swept : Advances rl tick .cleanup .begun (rl.evictStale tick.now) .swept

variable {impl} {rl rl' : RateLimiter β} {job : Job} {phase phase' : Phase} {tick : Tick}

theorem advance_request {tenantID : UUID} (hne : tenantID ≠ UUID.nil) :
    advance impl rl (.request tenantID) .begun tick =
      (rl.getLimiter impl tenantID tick).map fun r => (r.1, .holding r.2) :=
  if_neg hne

theorem advance_eq_some_iff : advance impl rl job phase tick = some (rl', phase') ↔
    Advances impl rl tick job phase rl' phase' := by
  constructor
  · intro h
    cases job with
    | cleanup =>
      cases phase with
      | begun =>
        cases h
        exact .swept
      | holding | served | swept => cases h
    | request tenantID =>
      cases phase with
      | served | swept => cases h
      | holding l =>
        obtain ⟨b, hb, heq⟩ := Option.map_eq_some_iff.mp h
        cases heq
        exact .asked hb
      | begun =>
        by_cases hnil : tenantID = UUID.nil
        · subst hnil
          cases h
          exact .pass
        · rw [advance_request hnil, getLimiter] at h
          rcases htl : rl.limiters.lookup tenantID with _ | tl
          · rcases hfresh : rl.heap tick.fresh with _ | b
            · simp only [htl, hfresh, Option.map_some, Option.some.injEq, Prod.mk.injEq] at h
              obtain ⟨rfl, rfl⟩ := h
              exact .created hnil htl hfresh
            · simp [htl, hfresh] at h
          · simp only [htl, Option.map_some, Option.some.injEq, Prod.mk.injEq] at h
            obtain ⟨rfl, rfl⟩ := h
            exact .seen hnil htl
  · rintro (_ | ⟨hne, htl⟩ | ⟨hne, hnone, hfresh⟩ | hb | _)
    · rfl
    · simp [advance_request hne, getLimiter, htl]
    · simp [advance_request hne, getLimiter, hnone, hfresh]
    · exact Option.map_eq_some_iff.mpr ⟨_, hb, rfl⟩
    · rfl

/-! ### Whose bucket it is -/

/-- All who point to a bucket are of the tenant that it was made for. -/
structure Owned (s : State β) : Prop where
  entry : ∀ tenantID tl, s.shared.limiters.lookup tenantID = some tl →
    ∃ lim, s.shared.heap tl.limiter = some (tenantID, lim)
  holder : ∀ c tenantID l, s.calls c = some ⟨.request tenantID, .holding l⟩ →
    ∃ lim, s.shared.heap l = some (tenantID, lim)

variable {s t : State β} {c : ℕ}

theorem owned_of_isInit (h : (system impl).IsInit s) : Owned s := by
  obtain ⟨⟨hempty, -, -⟩, hcalls⟩ := h
  refine ⟨fun tenantID tl htl => ?_, fun c tenantID l hc => ?_⟩
  · rw [hempty, AList.lookup_empty] at htl
    cases htl
  · rw [hcalls] at hc
    cases hc

theorem Owned.newCall (h : Owned s) (c : ℕ) (job : Job) :
    Owned (s.set c s.shared ⟨job, .begun⟩) := by
  refine ⟨h.entry, fun c' tenantID l hc' => ?_⟩
  exact h.holder c' tenantID l (CallSystem.of_set_of_phase_ne hc' nofun)

/-- No step takes a bucket from its tenant. -/
theorem Advances.label (h : Advances impl rl tick job phase rl' phase') {l : ℕ} {tenantID : UUID}
    (hl : ∃ lim, rl.heap l = some (tenantID, lim)) : ∃ lim, rl'.heap l = some (tenantID, lim) := by
  obtain ⟨lim, hlim⟩ := hl
  cases h with
  | pass | seen | swept => exact ⟨lim, hlim⟩
  | created hne hnone hfresh =>
    have hused : l ≠ tick.fresh := by
      rintro rfl
      cases hfresh.symm.trans hlim
    exact ⟨lim, (update_of_ne hused _ _).trans hlim⟩
  | @asked tenantID' l' b hb =>
    by_cases heq : l = l'
    · subst heq
      cases hb.symm.trans hlim
      exact ⟨_, update_self ..⟩
    · exact ⟨lim, (update_of_ne heq _ _).trans hlim⟩

theorem lookup_evictStale (rl : RateLimiter β) (now : ℤ) (tenantID : UUID) :
    (rl.evictStale now).limiters.lookup tenantID =
      (rl.limiters.lookup tenantID).filter fun tl => !decide (tl.lastSeen < now - rateLimiterTTL) :=
  AList.lookup_filter _ _ _

/-- An entry that was not there before points to the bucket that its tenant is given. -/
theorem Advances.entry (h : Advances impl rl tick job phase rl' phase') {tenantID : UUID}
    {tl : TenantLimiter} (htl : rl'.limiters.lookup tenantID = some tl) :
    (∃ old, rl.limiters.lookup tenantID = some old ∧ old.limiter = tl.limiter) ∨
      rl'.heap tl.limiter = some (tenantID, impl.newLimiter) := by
  cases h with
  | pass | asked => exact .inl ⟨tl, htl, rfl⟩
  | @seen tenantID' old hne hold =>
    by_cases heq : tenantID = tenantID'
    · subst heq
      rw [RateLimiter.seen, AList.lookup_insert] at htl
      cases htl
      exact .inl ⟨old, hold, rfl⟩
    · rw [RateLimiter.seen, AList.lookup_insert_ne heq] at htl
      exact .inl ⟨tl, htl, rfl⟩
  | @created tenantID' hne hnone hfresh =>
    by_cases heq : tenantID = tenantID'
    · subst heq
      rw [RateLimiter.created, AList.lookup_insert] at htl
      cases htl
      exact .inr (update_self ..)
    · rw [RateLimiter.created, AList.lookup_insert_ne heq] at htl
      exact .inl ⟨tl, htl, rfl⟩
  | swept =>
    rw [lookup_evictStale] at htl
    exact .inl ⟨tl, (Option.filter_eq_some_iff.mp htl).1, rfl⟩

theorem Owned.step (h : Owned s) (hstep : Advances impl s.shared tick job phase rl' phase') :
    Owned (s.set c rl' ⟨job, phase'⟩) := by
  refine ⟨fun tenantID tl htl => ?_, fun c' tenantID l hc' => ?_⟩
  · obtain ⟨old, hold, heq⟩ | hnew := hstep.entry htl
    · exact heq ▸ hstep.label (h.entry tenantID old hold)
    · exact ⟨_, hnew⟩
  · obtain ⟨-, heq⟩ | ⟨-, hc'⟩ := of_set hc'
    · -- the bucket was returned just now
      cases hstep with
      | pass | asked | swept => cases heq
      | seen hne htl =>
        cases heq
        exact h.entry tenantID _ htl
      | created =>
        cases heq
        exact ⟨_, update_self ..⟩
    · exact hstep.label (h.holder c' tenantID l hc')

/-! ### One tenant among others -/

/-- A request of the tenant, or a cleanup. -/
def ofTenant (tenant : UUID) : Job → Bool
  | .request tenantID => tenantID = tenant
  | .cleanup => true

/-- The second heap has the tenant's buckets of the first, and at most as many others. -/
structure Follows (tenant : UUID) (heap heap' : ℕ → Option (UUID × β)) : Prop where
  mine : ∀ l lim, heap l = some (tenant, lim) → heap' l = some (tenant, lim)
  unused : ∀ l, heap l = none → heap' l = none

theorem Follows.both {tenant : UUID} {heap heap' : ℕ → Option (UUID × β)}
    (h : Follows tenant heap heap') (l : ℕ) (b : UUID × β) :
    Follows tenant (update heap l (some b)) (update heap' l (some b)) := by
  refine ⟨fun l' lim hl' => ?_, fun l' hl' => ?_⟩ <;> by_cases heq : l' = l
  · subst heq
    rwa [update_self] at hl' ⊢
  · rw [update_of_ne heq] at hl' ⊢
    exact h.mine l' lim hl'
  · subst heq
    rwa [update_self] at hl' ⊢
  · rw [update_of_ne heq] at hl' ⊢
    exact h.unused l' hl'

theorem Follows.left {tenant : UUID} {heap heap' : ℕ → Option (UUID × β)}
    (h : Follows tenant heap heap') (l : ℕ) {b : UUID × β} (hb : b.1 ≠ tenant) :
    Follows tenant (update heap l (some b)) heap' := by
  refine ⟨fun l' lim hl' => ?_, fun l' hl' => ?_⟩ <;> by_cases heq : l' = l
  · subst heq
    rw [update_self] at hl'
    exact absurd (congrArg Prod.fst (Option.some.inj hl')) hb
  · rw [update_of_ne heq] at hl'
    exact h.mine l' lim hl'
  · subst heq
    rw [update_self] at hl'
    cases hl'
  · rw [update_of_ne heq] at hl'
    exact h.unused l' hl'

/-- `t` is what the tenant sees of `s`. -/
structure Mirrors (tenant : UUID) (s t : State β) : Prop where
  owned : Owned s
  calls : ∀ c, t.calls c = (s.calls c).filter fun call => ofTenant tenant call.request
  lookup : t.shared.limiters.lookup tenant = s.shared.limiters.lookup tenant
  heap : Follows tenant s.shared.heap t.shared.heap
  admitted : t.shared.admitted = s.shared.admitted.filter fun x => x.1 = tenant

variable {tenant : UUID}

theorem mirrors_of_isInit (h : (system impl).IsInit s) : Mirrors tenant s s := by
  refine ⟨owned_of_isInit h, fun c => ?_, rfl, ⟨fun _ _ hl => hl, fun _ hl => hl⟩, ?_⟩
  · rw [h.2]
    rfl
  · rw [h.1.2.2]
    rfl

/-- The same call goes on on both sides. -/
theorem filter_set_of_mine {call : CallSystem.Call Job Phase}
    (h : ∀ c, t.calls c = (s.calls c).filter fun call => ofTenant tenant call.request)
    (hmine : ofTenant tenant call.request = true)
    (rl rl' : RateLimiter β) (c' : ℕ) :
    (t.set c rl' call).calls c' =
      ((s.set c rl call).calls c').filter fun call => ofTenant tenant call.request := by
  by_cases heq : c' = c
  · subst heq
    rw [set_self, set_self, Option.filter_some, if_pos hmine]
  · rw [set_of_ne t heq, set_of_ne s heq, h c']

/-- The call of another tenant goes on. -/
theorem filter_set_of_other {call : CallSystem.Call Job Phase}
    (h : ∀ c, t.calls c = (s.calls c).filter fun call => ofTenant tenant call.request)
    (hother : ofTenant tenant call.request = false)
    (hnone : t.calls c = none) (rl : RateLimiter β) (c' : ℕ) :
    t.calls c' =
      ((s.set c rl call).calls c').filter fun call => ofTenant tenant call.request := by
  by_cases heq : c' = c
  · subst heq
    rw [set_self, Option.filter_some, hother, hnone]
    rfl
  · rw [set_of_ne s heq, h c']

/-- A step of the tenant, or a cleanup, can be taken on both sides. -/
theorem Mirrors.mine (h : Mirrors tenant s t) (hmine : ofTenant tenant job = true)
    (hstep : Advances impl s.shared tick job phase rl' phase')
    (hcall : s.calls c = some ⟨job, phase⟩) :
    ∃ rlt, Advances impl t.shared tick job phase rlt phase' ∧
      Mirrors tenant (s.set c rl' ⟨job, phase'⟩) (t.set c rlt ⟨job, phase'⟩) := by
  have howned : Owned (s.set c rl' ⟨job, phase'⟩) := h.owned.step hstep
  have hcalls (rlt : RateLimiter β) : ∀ c', (t.set c rlt ⟨job, phase'⟩).calls c' =
      ((s.set c rl' ⟨job, phase'⟩).calls c').filter fun call => ofTenant tenant call.request :=
    filter_set_of_mine h.calls hmine rl' rlt
  cases hstep with
  | pass => exact ⟨t.shared, .pass, howned, hcalls _, h.lookup, h.heap, h.admitted⟩
  | @seen tenantID tl hne htl =>
    obtain rfl : tenantID = tenant := by simpa [ofTenant] using hmine
    refine ⟨t.shared.seen tenantID tl tick.now, .seen hne (h.lookup.trans htl), howned, hcalls _, ?_,
      h.heap, h.admitted⟩
    simp [CallSystem.State.set, seen]
  | @created tenantID hne hnone hfresh =>
    obtain rfl : tenantID = tenant := by simpa [ofTenant] using hmine
    refine ⟨t.shared.created impl tenantID tick,
      .created hne (h.lookup.trans hnone) (h.heap.unused _ hfresh), howned, hcalls _, ?_,
      h.heap.both _ _, h.admitted⟩
    simp [CallSystem.State.set, created]
  | @asked tenantID l b hb =>
    obtain rfl : tenantID = tenant := by simpa [ofTenant] using hmine
    obtain ⟨lim, hlim⟩ := h.owned.holder c tenantID l hcall
    obtain rfl : b = (tenantID, lim) := Option.some.inj (hb.symm.trans hlim)
    refine ⟨t.shared.asked impl tenantID l (tenantID, lim) tick.now,
      .asked (h.heap.mine l lim hlim), howned, hcalls _, h.lookup, h.heap.both _ _, ?_⟩
    simp only [CallSystem.State.set, asked, h.admitted]
    split
    · simp
    · rfl
  | swept =>
    refine ⟨t.shared.evictStale tick.now, .swept, howned, hcalls _, ?_, h.heap, h.admitted⟩
    simp only [CallSystem.State.set, lookup_evictStale, h.lookup]

/-- A step of another tenant is not seen. -/
theorem Mirrors.other (h : Mirrors tenant s t) (hother : ofTenant tenant job = false)
    (hstep : Advances impl s.shared tick job phase rl' phase')
    (hcall : s.calls c = some ⟨job, phase⟩) : Mirrors tenant (s.set c rl' ⟨job, phase'⟩) t := by
  have howned : Owned (s.set c rl' ⟨job, phase'⟩) := h.owned.step hstep
  have hnone : t.calls c = none := by
    rw [h.calls, hcall, Option.filter_some, hother]
    rfl
  have hcalls : ∀ c', t.calls c' =
      ((s.set c rl' ⟨job, phase'⟩).calls c').filter fun call => ofTenant tenant call.request :=
    filter_set_of_other h.calls hother hnone rl'
  have hne' : ∀ tenantID, job = .request tenantID → tenantID ≠ tenant := by
    rintro tenantID rfl rfl
    simp [ofTenant] at hother
  cases hstep with
  | pass => exact ⟨howned, hcalls, h.lookup, h.heap, h.admitted⟩
  | @seen tenantID tl hne htl =>
    refine ⟨howned, hcalls, ?_, h.heap, h.admitted⟩
    simp [CallSystem.State.set, seen, AList.lookup_insert_ne (hne' _ rfl).symm, h.lookup]
  | @created tenantID hne hnone' hfresh =>
    -- the new bucket is not the tenant's
    refine ⟨howned, hcalls, ?_, h.heap.left _ (hne' _ rfl), h.admitted⟩
    simp [CallSystem.State.set, created, AList.lookup_insert_ne (hne' _ rfl).symm, h.lookup]
  | @asked tenantID l b hb =>
    obtain ⟨lim, hlim⟩ := h.owned.holder c tenantID l hcall
    obtain rfl : b = (tenantID, lim) := Option.some.inj (hb.symm.trans hlim)
    -- the bucket is of the one who asks
    refine ⟨howned, hcalls, h.lookup, h.heap.left _ (hne' _ rfl), ?_⟩
    simp only [CallSystem.State.set, asked, h.admitted]
    split
    · simp [hne' _ rfl]
    · rfl
  | swept => cases hother

/-- A new call is seen if it is the tenant's. -/
theorem Mirrors.newCall (h : Mirrors tenant s t) (c : ℕ) (job : Job) :
    (ofTenant tenant job = true →
      Mirrors tenant (s.set c s.shared ⟨job, .begun⟩) (t.set c t.shared ⟨job, .begun⟩)) ∧
    (ofTenant tenant job = false → t.calls c = none →
      Mirrors tenant (s.set c s.shared ⟨job, .begun⟩) t) := by
  have howned := h.owned.newCall c job
  refine ⟨fun hmine => ⟨howned, ?_, h.lookup, h.heap, h.admitted⟩,
    fun hother hnone => ⟨howned, ?_, h.lookup, h.heap, h.admitted⟩⟩
  · exact filter_set_of_mine h.calls hmine _ _
  · exact filter_set_of_other h.calls hother hnone _

/-- The events of the tenant's requests and of the cleanups in a run that ends in `s`. -/
def concerns (tenant : UUID) (s : State β) : Event → Bool
  | .call _ job => ofTenant tenant job
  | .step c _ => (s.calls c).any fun call => ofTenant tenant call.request

/-- What other tenants do makes no difference to a tenant. In any interleaving of requests and
cleanups, at any times and with any limiters, leaving out the requests of the others leaves the
tenant's requests as they are: they are where they were, with the same answers. -/
theorem isolated {s₀ : State β} {es : List Event} (hinit : (system impl).IsInit s₀)
    (hrun : (system impl).run s₀ es = some s) (tenant : UUID) :
    ∃ t, (system impl).run s₀ (es.filter (concerns tenant s)) = some t ∧
      t.shared.admitted = s.shared.admitted.filter (fun x => x.1 = tenant) ∧
      ∀ c, t.calls c = (s.calls c).filter fun call => ofTenant tenant call.request := by
  -- whose call it is can be told from the end, since calls keep their requests
  have hback : ∀ (m : State β) e m', (system impl).step m e = some m' →
      (code impl).Later m' s → (code impl).Later m s := fun m e m' hstep hlater =>
    (CallSystem.later_step hstep).trans hlater
  have hmine : ∀ {m : State β} {c call}, (code impl).Later m s → m.calls c = some call → ∀ tick,
      concerns tenant s (.step c tick) = ofTenant tenant call.request := by
    intro m c call hlater hcall tick
    obtain ⟨phase, hend⟩ := hlater.request c call hcall
    simp [concerns, hend]
  have hkept : ∀ m n e m', Mirrors tenant m n → (system impl).step m e = some m' →
      (code impl).Later m' s → concerns tenant s e = true →
      ∃ n', (system impl).step n e = some n' ∧ Mirrors tenant m' n' := by
    intro m n e m' hR hstep hlater hkeep
    obtain ⟨c, job, rfl, hnew, rfl⟩ | ⟨c, call, tick, rl', phase', rfl, hcall, hadv, rfl⟩ :=
      step_cases hstep
    · have hnone : n.calls c = none := by
        rw [hR.calls, hnew]
        rfl
      refine ⟨n.set c n.shared ⟨job, .begun⟩, ?_, (hR.newCall c job).1 hkeep⟩
      simp only [system, CallSystem.system, CallSystem.step, hnone]
      rfl
    · have hjob : ofTenant tenant call.request = true :=
        (hmine hlater (set_self m c _ _) tick).symm.trans hkeep
      obtain ⟨rlt, hadv', hR'⟩ := hR.mine hjob (advance_eq_some_iff.mp hadv) hcall
      have hcall' : n.calls c = some call := by
        rw [hR.calls, hcall, Option.filter_some, if_pos hjob]
      refine ⟨n.set c rlt ⟨call.request, phase'⟩, ?_, hR'⟩
      have hadv'' := advance_eq_some_iff.mpr hadv'
      simp only [system, CallSystem.system, CallSystem.step, hcall']
      rw [show (code impl).advance = advance impl from rfl, hadv'']
      rfl
  have hdropped : ∀ m n e m', Mirrors tenant m n → (system impl).step m e = some m' →
      (code impl).Later m' s → concerns tenant s e = false → Mirrors tenant m' n := by
    intro m n e m' hR hstep hlater hdrop
    obtain ⟨c, job, rfl, hnew, rfl⟩ | ⟨c, call, tick, rl', phase', rfl, hcall, hadv, rfl⟩ :=
      step_cases hstep
    · have hnone : n.calls c = none := by
        rw [hR.calls, hnew]
        rfl
      exact (hR.newCall c job).2 hdrop hnone
    · have hjob : ofTenant tenant call.request = false :=
        (hmine hlater (set_self m c _ _) tick).symm.trans hdrop
      exact hR.other hjob (advance_eq_some_iff.mp hadv) hcall
  obtain ⟨t, ht, hmirrors⟩ := StepSystem.run_filter hback hkept hdropped hrun
    (CallSystem.Later.refl s) (mirrors_of_isInit hinit)
  exact ⟨t, ht, hmirrors.admitted, hmirrors.calls⟩

section Example

/-- Two requests of one tenant get its bucket before one of them asks it, and another tenant comes in
between. -/
def rush (tenant other : UUID) : List Event :=
  [.call 0 (.request tenant), .call 1 (.request tenant), .call 2 (.request other),
    .step 0 ⟨0, 7⟩, .step 2 ⟨0, 8⟩, .step 1 ⟨0, 9⟩, .step 2 ⟨1, 9⟩, .step 1 ⟨1, 9⟩, .step 0 ⟨2, 9⟩]

/-- A limiter that nobody has asked. -/
def unasked : State β where
  shared := { limiters := ∅, heap := fun _ => none, admitted := [] }
  calls _ := none

theorem isInit_unasked : (system impl).IsInit unasked :=
  ⟨⟨rfl, fun _ => rfl, rfl⟩, rfl⟩

/-- Tenants for the runs below. -/
def tenantA : UUID := Vector.replicate 16 1

def tenantB : UUID := Vector.replicate 16 2

/-- The second of two requests that hold the same bucket of one token is refused, with and without the
other tenant. -/
theorem isolated_rush : ∃ s t,
    (system (tokenBuckets 1 1 one_pos Int.one_pos)).run unasked (rush tenantA tenantB) = some s ∧
      (system (tokenBuckets 1 1 one_pos Int.one_pos)).run unasked
        ((rush tenantA tenantB).filter (concerns tenantA s)) = some t ∧
      s.shared.admitted = [(tenantB, 1), (tenantA, 1)] ∧
      t.shared.admitted = [(tenantA, 1)] ∧
      t.calls 0 = some ⟨.request tenantA, .served (.rateLimited 1)⟩ := by
  have hview : ((system (tokenBuckets 1 1 one_pos Int.one_pos)).run unasked (rush tenantA tenantB)).map
      (fun s => (s.shared.admitted, (s.calls 0).map fun call => (call.request, call.phase))) =
      some ([(tenantB, 1), (tenantA, 1)],
        some (.request tenantA, .served (.rateLimited 1))) := by decide +kernel
  obtain ⟨s, hrun, hview⟩ := Option.map_eq_some_iff.mp hview
  obtain ⟨hadmitted, hcall⟩ := Prod.mk.inj hview
  obtain ⟨⟨job, phase⟩, hcall, ⟨⟩⟩ := Option.map_eq_some_iff.mp hcall
  obtain ⟨t, ht, hmine, hcalls⟩ := isolated isInit_unasked hrun tenantA
  refine ⟨s, t, hrun, ht, hadmitted, ?_, ?_⟩
  · rw [hmine, hadmitted]
    decide
  · rw [hcalls, hcall]
    rfl

end Example

end RateLimiter

end HttpWare
