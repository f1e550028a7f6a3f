import BackendKit.Tiering.Policy
import BackendKit.ToMathlib.CallSystem

/-!
# Policy updates are seen at once

`PolicyService` (`tiering/policy_service.go`) answers from a cached list of policies. A read that
finds the cache stale lists the repository and stores the list while it holds the write lock; an
update writes its row and then takes the same lock to bust the cache.

Any number of calls interleave here, with arbitrary clock readings and a repository whose operations
are atomic but may fail (`CallSystem`). Where a call stands in the code is its `Phase`, and
`PolicyService.advance` is the code between two phases.

The argument is about the lock alone: it is free when an update busts the cache, so no list from
before the update is still on its way to the cache, and every later list has the row of the update
(`State.Fresh`). A read that starts afterwards therefore answers from that row
(`answer_after_update`), whatever the clock says.
-/

open GoStd
open CallSystem (later_run later_step of_set of_set_of_phase_ne)

namespace Tiering

/-- A call of one of the methods. -/
inductive Request where
  /-- `IsAllowed` or `NumericLimit`. -/
  | read (q : Query) (feature userPlan : String)
  | list
  | update (req : UpdatePolicyRequest)
  | seed (policies : List FeaturePolicy)

/-- Why an update failed. -/
inductive UpdateError where
  | notFound (feature : String)
  | invalidRules (err : CellError)
  | save (err : String)
  deriving DecidableEq, Repr

/-- What a call has returned. -/
inductive Outcome where
  /-- The answer, and the error of `ruleFor` that is behind it. -/
  | answered (a : Answer) (err : Option RuleError)
  | listed (policies : Except RuleError (List FeaturePolicy))
  | updated (row : FeaturePolicy)
  | updateFailed (err : UpdateError)
  | seeded
  | seedFailed (err : String)

/-- A slice of policies; `none` is the nil slice. -/
abbrev Slice := Option (List FeaturePolicy)

/-- Where a call stands in the code. -/
inductive Phase where
  | begun
  /-- In `all`, after the check under the read lock has failed. -/
  | slow
  /-- In `all`, with the write lock: before the second check, after it has failed, and after the
  repository was listed. -/
  | locked
  | refreshing
  | listed (result : Except String Slice)
  /-- `all` has returned. -/
  | got (result : Except RuleError (List FeaturePolicy))
  /-- In `UpdatePolicy`, before and after `Upsert`. -/
  | validated (row : FeaturePolicy)
  | upserted (row : FeaturePolicy)
  /-- In `SeedDefaults`, after the rows were written. -/
  | seeded
  /-- After the cache was busted, for the row of an update or for a seed. -/
  | busted (row : Option FeaturePolicy)
  | done (outcome : Outcome)

/-- What a step of a call is given from outside. -/
inductive Input where
  /-- Nothing. -/
  | go
  /-- A clock reading. -/
  | clock (now : ℤ)
  /-- The answer of `List`. -/
  | rows (result : Except String Slice)
  /-- Whether `GetByFeature` fails. -/
  | fetch (err : Option String)
  /-- Whether a write fails, and if so, whether it was made nonetheless. -/
  | commit (err : Option String) (made : Bool)

/-- What the calls share: the repository, and the fields of the service. -/
structure Shared where
  table : Table
  cached : Slice
  cacheExpiry : ℤ
  /-- The write lock is taken. -/
  locked : Bool

namespace Shared

/-- The cached list, if it is fresh at `now`. -/
def fresh (sh : Shared) (now : ℤ) : Slice :=
  match sh.cached with
  | some policies => if now < sh.cacheExpiry then some policies else none
  | none => none

/-- The assignments of `bust`. -/
def bust (sh : Shared) : Shared := { sh with cached := none, cacheExpiry := Time.zero }

end Shared

/-- What a call returns once `all` has. -/
def Request.outcome (svc : PolicyService) (result : Except RuleError (List FeaturePolicy)) :
    Request → Outcome
  | .read q feature userPlan =>
    let rule := result.bind fun policies => svc.ruleFor policies feature userPlan
    .answered (q.answer rule) (match rule with | .error err => some err | .ok _ => none)
  | _ => .listed result

/-- The first step of a call: the check of `all` under the read lock, or the first access to the
repository. -/
def PolicyService.start (svc : PolicyService) (sh : Shared) : Request → Input → Option (Shared × Phase)
  | .read _ _ _, .clock now | .list, .clock now =>
    if sh.locked then none
    else
      match sh.fresh now with
      | some policies => some (sh, .got (.ok policies))
      | none => some (sh, .slow)
  | .update req, .fetch err =>
    match err, sh.table.get req.feature with
    | none, some existing =>
      match svc.validateTierRules existing.featureType [req.freemium, req.pro, req.enterprise] with
      | .error err => some (sh, .done (.updateFailed (.invalidRules err)))
      | .ok () => some (sh, .validated (req.apply existing))
    | _, _ => some (sh, .done (.updateFailed (.notFound req.feature)))
  | .seed policies, .commit none _ =>
    some ({ sh with table := sh.table.seedDefaults policies }, .seeded)
  | .seed policies, .commit (some err) made =>
    some ({ sh with table := if made then sh.table.seedDefaults policies else sh.table },
      .done (.seedFailed err))
  | _, _ => none

/-- The code between two phases of a call. -/
def PolicyService.advance (svc : PolicyService) (sh : Shared) (request : Request) :
    Phase → Input → Option (Shared × Phase)
  | .begun, input => svc.start sh request input
  | .slow, .go => if sh.locked then none else some ({ sh with locked := true }, .locked)
  | .locked, .clock now =>
    match sh.fresh now with
    | some policies => some ({ sh with locked := false }, .got (.ok policies))
    | none => some (sh, .refreshing)
  | .refreshing, .rows (.ok slice) =>
    -- All rows as of this instant, in any order.
    if (slice.getD []).Perm sh.table.list then some (sh, .listed (.ok slice)) else none
  | .refreshing, .rows (.error err) => some (sh, .listed (.error err))
  | .listed (.ok slice), .clock now =>
    some ({ sh with cached := slice, cacheExpiry := now + svc.cacheTTL, locked := false },
      .got (.ok (slice.getD [])))
  | .listed (.error err), .go =>
    -- Serve a stale list rather than fail.
    some ({ sh with locked := false }, .got (match sh.cached with
      | some policies => .ok policies
      | none => .error (.unavailable err)))
  | .got result, .go => some (sh, .done (request.outcome svc result))
  | .validated row, .commit none _ =>
    some ({ sh with table := sh.table.upsert row }, .upserted row)
  | .validated row, .commit (some err) made =>
    some ({ sh with table := if made then sh.table.upsert row else sh.table },
      .done (.updateFailed (.save err)))
  | .upserted row, .go => if sh.locked then none else some (sh.bust, .busted (some row))
  | .seeded, .go => if sh.locked then none else some (sh.bust, .busted none)
  | .busted (some row), .go => some (sh, .done (.updated row))
  | .busted none, .go => some (sh, .done .seeded)
  | _, _ => none

/-- The methods of the service. -/
def PolicyService.methods (svc : PolicyService) : CallSystem Shared Request Phase Input :=
  ⟨.begun, svc.advance⟩

/-- A call and where it stands. -/
abbrev Call := CallSystem.Call Request Phase

/-- The shared state and the calls that were made so far. -/
abbrev State := CallSystem.State Shared Request Phase

/-- A new call, or a step of one. -/
abbrev Event := CallSystem.Event Request Input

/-- All interleavings on a service with an empty cache, over any table. -/
def system (svc : PolicyService) : StepSystem State Event :=
  svc.methods.system fun sh => sh.cached = none ∧ sh.locked = false

/-! ### What a step of a call does -/

/-- The call holds the write lock. -/
def Phase.holdsLock : Phase → Bool
  | .locked | .refreshing | .listed _ => true
  | _ => false

/-- The row that an update writes or has written. -/
def Phase.row? : Phase → Option FeaturePolicy
  | .validated row | .upserted row | .busted (some row) | .done (.updated row) => some row
  | _ => none

/-- The ways from one phase to the next. -/
inductive Advances (svc : PolicyService) (sh : Shared) (request : Request) :
    Phase → Shared → Phase → Prop
  | hit (policies : List FeaturePolicy) (hcached : sh.cached = some policies) :
      Advances svc sh request .begun sh (.got (.ok policies))
  | miss : Advances svc sh request .begun sh .slow
  | fetched (req : UpdatePolicyRequest) (existing : FeaturePolicy) (hreq : request = .update req)
      (hget : sh.table.get req.feature = some existing) :
      Advances svc sh request .begun sh (.validated (req.apply existing))
  | refused (err : UpdateError) :
      Advances svc sh request .begun sh (.done (.updateFailed err))
  | seed (policies : List FeaturePolicy) :
      Advances svc sh request .begun { sh with table := sh.table.seedDefaults policies } .seeded
  | seedFailed (policies : List FeaturePolicy) (err : String) (made : Bool) :
      Advances svc sh request .begun
        { sh with table := if made then sh.table.seedDefaults policies else sh.table }
        (.done (.seedFailed err))
  | acquire (hfree : sh.locked = false) :
      Advances svc sh request .slow { sh with locked := true } .locked
  | recheck (policies : List FeaturePolicy) (hcached : sh.cached = some policies) :
      Advances svc sh request .locked { sh with locked := false } (.got (.ok policies))
  | stale : Advances svc sh request .locked sh .refreshing
  | rows (slice : Slice) (hrows : (slice.getD []).Perm sh.table.list) :
      Advances svc sh request .refreshing sh (.listed (.ok slice))
  | rowsFailed (err : String) : Advances svc sh request .refreshing sh (.listed (.error err))
  | store (slice : Slice) (expiry : ℤ) :
      Advances svc sh request (.listed (.ok slice))
        { sh with cached := slice, cacheExpiry := expiry, locked := false }
        (.got (.ok (slice.getD [])))
  | fallback (err : String) (policies : List FeaturePolicy) (hcached : sh.cached = some policies) :
      Advances svc sh request (.listed (.error err)) { sh with locked := false }
        (.got (.ok policies))
  | unavailable (err : String) :
      Advances svc sh request (.listed (.error err)) { sh with locked := false }
        (.got (.error (.unavailable err)))
  | answer (result : Except RuleError (List FeaturePolicy)) :
      Advances svc sh request (.got result) sh (.done (request.outcome svc result))
  | upsert (row : FeaturePolicy) :
      Advances svc sh request (.validated row) { sh with table := sh.table.upsert row }
        (.upserted row)
  | saveFailed (row : FeaturePolicy) (err : String) (made : Bool) :
      Advances svc sh request (.validated row)
        { sh with table := if made then sh.table.upsert row else sh.table }
        (.done (.updateFailed (.save err)))
  | bustUpdate (row : FeaturePolicy) (hfree : sh.locked = false) :
      Advances svc sh request (.upserted row) sh.bust (.busted (some row))
  | bustSeed (hfree : sh.locked = false) : Advances svc sh request .seeded sh.bust (.busted none)
  | finishUpdate (row : FeaturePolicy) :
      Advances svc sh request (.busted (some row)) sh (.done (.updated row))
  | finishSeed : Advances svc sh request (.busted none) sh (.done .seeded)

theorem Shared.cached_of_fresh {sh : Shared} {now : ℤ} {policies : List FeaturePolicy}
    (h : sh.fresh now = some policies) : sh.cached = some policies := by
  unfold Shared.fresh at h
  split at h
  · rename_i cached hcached
    split at h
    · rw [hcached, h]
    · cases h
  · cases h

theorem advances_of_start {svc : PolicyService} {sh sh' : Shared} {request : Request}
    {input : Input} {phase' : Phase} (h : svc.start sh request input = some (sh', phase')) :
    Advances svc sh request .begun sh' phase' := by
  have hall : ∀ now, (if sh.locked then none else
      match sh.fresh now with
      | some policies => some (sh, Phase.got (.ok policies))
      | none => some (sh, .slow)) = some (sh', phase') →
      Advances svc sh request .begun sh' phase' := by
    intro now h
    split at h
    · cases h
    split at h
    · rename_i policies hfresh
      cases h
      exact .hit policies (Shared.cached_of_fresh hfresh)
    · cases h
      exact .miss
  unfold PolicyService.start at h
  split at h
  · exact hall _ h
  · exact hall _ h
  · -- an update
    split at h
    · rename_i existing hget
      split at h
      · cases h
        exact .refused _
      · cases h
        exact .fetched _ existing rfl hget
    · cases h
      exact .refused _
  · cases h
    exact .seed _
  · cases h
    exact .seedFailed _ _ _
  · cases h

/-- There are no other ways. -/
theorem advances_of_advance {svc : PolicyService} {sh sh' : Shared} {request : Request}
    {phase phase' : Phase} {input : Input}
    (h : svc.advance sh request phase input = some (sh', phase')) :
    Advances svc sh request phase sh' phase' := by
  unfold PolicyService.advance at h
  split at h
  · exact advances_of_start h
  · split at h
    · cases h
    · rename_i hfree
      cases h
      exact .acquire (Bool.not_eq_true _ ▸ hfree)
  · split at h
    · rename_i policies hfresh
      cases h
      exact .recheck policies (Shared.cached_of_fresh hfresh)
    · cases h
      exact .stale
  · split at h
    · rename_i hrows
      cases h
      exact .rows _ hrows
    · cases h
  · cases h
    exact .rowsFailed _
  · cases h
    exact .store _ _
  · cases h
    split
    · rename_i policies hcached
      exact .fallback _ policies hcached
    · exact .unavailable _
  · cases h
    exact .answer _
  · cases h
    exact .upsert _
  · cases h
    exact .saveFailed _ _ _
  · split at h
    · cases h
    · rename_i hfree
      cases h
      exact .bustUpdate _ (Bool.not_eq_true _ ▸ hfree)
  · split at h
    · cases h
    · rename_i hfree
      cases h
      exact .bustSeed (Bool.not_eq_true _ ▸ hfree)
  · cases h
    exact .finishUpdate _
  · cases h
    exact .finishSeed
  · cases h

/-! ### The lock, and the row of an update -/

namespace State

variable {svc : PolicyService}

/-- A step starts a call, or takes one further. -/
theorem step_cases {s s' : State} {ev : Event} (h : svc.methods.step s ev = some s') :
    (∃ c request, s.calls c = none ∧ s' = s.set c s.shared ⟨request, .begun⟩) ∨
    ∃ c call sh phase, s.calls c = some call ∧
      Advances svc s.shared call.request call.phase sh phase ∧
      s' = s.set c sh ⟨call.request, phase⟩ := by
  obtain ⟨c, request, -, hcall⟩ | ⟨c, call, input, sh, phase, -, hcall, hadv, rfl⟩ :=
    CallSystem.step_cases h
  · exact .inl ⟨c, request, hcall⟩
  · exact .inr ⟨c, call, sh, phase, hcall, advances_of_advance hadv, rfl⟩

/-- A call that has returned stays so. -/
theorem done_of_later {s s' : State} (h : svc.methods.Later s s') {c : ℕ} {request : Request}
    {outcome : Outcome} (hc : s.calls c = some ⟨request, .done outcome⟩) :
    s'.calls c = some ⟨request, .done outcome⟩ := by
  have hfinal : svc.methods.IsFinal (.done outcome) := by
    intro sh request' input
    cases input <;> rfl
  exact h.final c _ hc hfinal

/-- What holds of every state that can be reached. -/
structure WF (s : State) : Prop where
  lock : CallSystem.Exclusive Phase.holdsLock Shared.locked s
  /-- The row of an update is a row of its feature, with its cells. -/
  row : ∀ c call row, s.calls c = some call → call.phase.row? = some row →
    ∃ req, call.request = .update req ∧ row.feature = req.feature ∧ row = req.apply row

theorem wf_of_isInit {s : State} (h : (system svc).IsInit s) : s.WF := by
  refine ⟨CallSystem.exclusive_of_isInit h, fun c call row hc => ?_⟩
  rw [CallSystem.calls_of_isInit h] at hc
  cases hc

end State

/-- How a step of a call changes the lock. -/
theorem Advances.lock {svc : PolicyService} {sh sh' : Shared} {request : Request}
    {phase phase' : Phase} (h : Advances svc sh request phase sh' phase') :
    CallSystem.Locks Phase.holdsLock Shared.locked sh sh' phase phase' := by
  cases h with
  | acquire hfree => exact .inl ⟨hfree, rfl, rfl⟩
  | recheck | store | fallback | unavailable => exact .inr (.inr ⟨rfl, rfl⟩)
  | _ => exact .inr (.inl ⟨rfl, rfl⟩)

/-- The row of an update comes from the table, with the cells of the update, and stays. -/
theorem Advances.row {svc : PolicyService} {sh sh' : Shared} {request : Request}
    {phase phase' : Phase} (h : Advances svc sh request phase sh' phase') {row : FeaturePolicy}
    (hrow : phase'.row? = some row) :
    phase.row? = some row ∨
      ∃ req, request = .update req ∧ row.feature = req.feature ∧ row = req.apply row := by
  cases h with
  | fetched req existing hreq hget =>
    cases hrow
    exact .inr ⟨req, hreq, sh.table.keyed req.feature existing hget, rfl⟩
  | upsert row' | bustUpdate row' | finishUpdate row' => exact .inl hrow
  | answer result => cases request <;> cases hrow
  | _ => cases hrow

namespace State

variable {svc : PolicyService}

theorem WF.step {s s' : State} {ev : Event} (h : s.WF) (hstep : svc.methods.step s ev = some s') :
    s'.WF := by
  obtain ⟨c, request, hnone, rfl⟩ | ⟨c, call, sh, phase, hcall, hadv, rfl⟩ := step_cases hstep
  · refine ⟨h.lock.call (C := svc.methods) rfl c request, fun c' call' row hc' hrow => ?_⟩
    obtain ⟨-, rfl⟩ | ⟨-, hold⟩ := of_set hc'
    · cases hrow
    · exact h.row c' call' row hold hrow
  · refine ⟨h.lock.advance hcall hadv.lock, fun c' call' row hc' hrow => ?_⟩
    obtain ⟨-, rfl⟩ | ⟨-, hold⟩ := of_set hc'
    · rcases hadv.row hrow with hbefore | hnew
      · exact h.row c call row hcall hbefore
      · exact hnew
    · exact h.row c' call' row hold hrow

end State

/-! ### Lists from before an update, and lists from after it -/

variable {svc : PolicyService} {sh sh' : Shared} {phase phase' : Phase}

/-- A row stays in the table unless a call is about to write another one of its feature. -/
theorem Advances.table {request : Request} (h : Advances svc sh request phase sh' phase')
    {f : String} {row : FeaturePolicy} (hget : sh.table.get f = some row) :
    sh'.table.get f = some row ∨ ∃ row', phase = .validated row' ∧ row'.feature = f := by
  have hupsert : ∀ row' : FeaturePolicy, row'.feature ≠ f →
      (sh.table.upsert row').get f = some row :=
    fun row' hne => (Table.get_upsert_of_ne sh.table (Ne.symm hne)).trans hget
  cases h with
  | seed policies => exact .inl (Table.get_seedDefaults hget policies)
  | seedFailed policies err made =>
    left
    cases made with
    | true => exact Table.get_seedDefaults hget policies
    | false => exact hget
  | upsert row' =>
    by_cases heq : row'.feature = f
    · exact .inr ⟨row', rfl, heq⟩
    · exact .inl (hupsert row' heq)
  | saveFailed row' err made =>
    by_cases heq : row'.feature = f
    · exact .inr ⟨row', rfl, heq⟩
    · left
      cases made with
      | true => exact hupsert row' heq
      | false => exact hget
  | _ => exact .inl hget

/-- What is cached was cached before, or is the list of a call that held the lock. -/
theorem Advances.cached {request : Request} (h : Advances svc sh request phase sh' phase') :
    sh'.cached = sh.cached ∨ sh'.cached = none ∨
      ∃ slice, phase = .listed (.ok slice) ∧ sh'.cached = slice := by
  cases h with
  | bustUpdate | bustSeed => exact .inr (.inl rfl)
  | store slice expiry => exact .inr (.inr ⟨slice, rfl, rfl⟩)
  | _ => exact .inl rfl

/-- A list has all rows of the table. -/
theorem Advances.listed {request : Request} {slice : Slice}
    (h : Advances svc sh request phase sh' (.listed (.ok slice))) :
    (slice.getD []).Perm sh.table.list := by
  cases h with
  | rows _ hrows => exact hrows

/-- What a read goes by comes from the cache, or from its own list. -/
theorem Advances.got {request : Request} {policies : List FeaturePolicy}
    (h : Advances svc sh request phase sh' (.got (.ok policies))) :
    sh.cached = some policies ∨ ∃ slice, phase = .listed (.ok slice) ∧ policies = slice.getD [] := by
  cases h with
  | hit _ hcached => exact .inl hcached
  | recheck _ hcached => exact .inl hcached
  | fallback _ _ hcached => exact .inl hcached
  | store slice expiry => exact .inr ⟨slice, rfl, rfl⟩

/-- An update returns after it has busted the cache. -/
theorem Advances.updated {request : Request} {row : FeaturePolicy}
    (h : Advances svc sh request phase sh' phase') (hphase : phase' = .done (.updated row)) :
    phase = .busted (some row) := by
  cases h with
  | finishUpdate =>
    cases hphase
    rfl
  | answer result => cases request <;> cases hphase
  | _ => cases hphase

/-- A read returns what it makes of the policies it got. -/
theorem Advances.answered {q : Query} {f plan : String} {a : Answer} {err : Option RuleError}
    (h : Advances svc sh (.read q f plan) phase sh' phase')
    (hphase : phase' = .done (.answered a err)) :
    ∃ result, phase = .got result ∧
      Request.outcome svc result (.read q f plan) = .answered a err := by
  cases h with
  | answer result => exact ⟨result, rfl, Phase.done.inj hphase⟩
  | _ => cases hphase

/-- The first row of the feature in a list. -/
def Finds (policies : List FeaturePolicy) (f : String) (row : FeaturePolicy) : Prop :=
  policies.find? (·.feature = f) = some row

namespace State

variable {svc : PolicyService}

/-- The row is in the table, and in every list that is cached or may yet be. -/
structure Fresh (f : String) (row : FeaturePolicy) (s : State) : Prop where
  stored : s.shared.table.get f = some row
  cached : ∀ policies, s.shared.cached = some policies → Finds policies f row
  listed : ∀ c request slice, s.calls c = some ⟨request, .listed (.ok slice)⟩ →
    Finds (slice.getD []) f row

/-- No call is about to write another row of the feature. -/
def Quiet (f : String) (s : State) (c : ℕ) : Prop :=
  ∀ request row, s.calls c = some ⟨request, .validated row⟩ → row.feature ≠ f

variable {f : String} {s : State} {g : ℕ} {s₁ s' : State} {ev : Event}

theorem Fresh.call {row : FeaturePolicy} (h : s.Fresh f row) (c : ℕ) (request : Request) :
    Fresh f row (s.set c s.shared ⟨request, .begun⟩) := by
  refine ⟨h.stored, h.cached, fun c' request' slice hc' => ?_⟩
  exact h.listed c' request' slice (of_set_of_phase_ne hc' nofun)

theorem Fresh.advance {row : FeaturePolicy} (h : s.Fresh f row) {c : ℕ} {call : Call} {sh : Shared}
    {phase : Phase} (hcall : s.calls c = some call)
    (hadv : Advances svc s.shared call.request call.phase sh phase) (hquiet : s.Quiet f c) :
    Fresh f row (s.set c sh ⟨call.request, phase⟩) := by
  obtain ⟨request, before⟩ := call
  refine ⟨?_, fun policies hpolicies => ?_, fun c' request' slice hc' => ?_⟩
  · rcases hadv.table h.stored with hkept | ⟨row', rfl, heq⟩
    · exact hkept
    · exact absurd heq (hquiet request row' hcall)
  · change sh.cached = some policies at hpolicies
    rcases hadv.cached with hsame | hnone | ⟨slice, rfl, hstored⟩
    · exact h.cached policies (hsame.symm.trans hpolicies)
    · rw [hnone] at hpolicies
      cases hpolicies
    · have hfinds := h.listed c request slice hcall
      rwa [← hstored, hpolicies] at hfinds
  · obtain ⟨-, heq⟩ | ⟨-, hold⟩ := of_set hc'
    · cases heq
      exact Table.find_of_perm hadv.listed h.stored
    · exact h.listed c' request' slice hold

/-- The call `g` is an update of `f`, and the other updates of `f` that have been made by `s` had
returned by `s₁`. -/
structure Window (g : ℕ) (f : String) (s₁ s : State) : Prop where
  mine : ∀ call, s.calls g = some call → ∃ req, call.request = .update req ∧ req.feature = f
  lone : ∀ c req phase, c ≠ g → s.calls c = some ⟨.update req, phase⟩ → req.feature = f →
    ∃ request outcome, s₁.calls c = some ⟨request, .done outcome⟩

theorem Window.back (hstep : svc.methods.step s ev = some s') (h : Window g f s₁ s') :
    Window g f s₁ s := by
  have hlater := later_step hstep
  refine ⟨fun call hcall => ?_, fun c req phase hne hc hfeature => ?_⟩
  · obtain ⟨phase, hcall'⟩ := hlater.request g call hcall
    exact h.mine ⟨call.request, phase⟩ hcall'
  · obtain ⟨phase', hc'⟩ := hlater.request c _ hc
    exact h.lone c req phase' hne hc' hfeature

/-- Other calls do not write rows of the feature. -/
theorem Window.quiet (h : Window g f s₁ s) (hwf : s.WF) (hlater : svc.methods.Later s₁ s) {c : ℕ}
    (hne : c ≠ g) : s.Quiet f c := by
  intro request row hc hfeature
  obtain ⟨req, rfl, hreq, -⟩ := hwf.row c _ row hc rfl
  obtain ⟨request', outcome, hdone⟩ := h.lone c req _ hne hc (hreq.symm.trans hfeature)
  cases (done_of_later hlater hdone).symm.trans hc

/-- How far the update has come: its row is in the table once it was written, and no older list can
be cached any more once the cache was busted. -/
structure Updating (g : ℕ) (f : String) (s : State) : Prop where
  wf : s.WF
  upserted : ∀ request row, s.calls g = some ⟨request, .upserted row⟩ →
    s.shared.table.get f = some row
  busted : ∀ request row, s.calls g = some ⟨request, .busted (some row)⟩ → s.Fresh f row
  done : ∀ request row, s.calls g = some ⟨request, .done (.updated row)⟩ → s.Fresh f row

theorem Updating.step (h : Updating g f s) (hw : Window g f s₁ s) (hlater : svc.methods.Later s₁ s)
    (hstep : svc.methods.step s ev = some s') :
    Updating g f s' := by
  have hwf' := h.wf.step hstep
  obtain ⟨c, request, hnone, rfl⟩ | ⟨c, call, sh, phase, hcall, hadv, rfl⟩ := step_cases hstep
  · refine ⟨hwf', fun request' row hg => ?_, fun request' row hg => ?_, fun request' row hg => ?_⟩
    · exact h.upserted request' row (of_set_of_phase_ne hg nofun)
    · exact (h.busted request' row (of_set_of_phase_ne hg nofun)).call c request
    · exact (h.done request' row (of_set_of_phase_ne hg nofun)).call c request
  obtain ⟨request, before⟩ := call
  refine ⟨hwf', fun request' row hg => ?_, fun request' row hg => ?_, fun request' row hg => ?_⟩
  · obtain ⟨rfl, heq⟩ | ⟨hne, hold⟩ := of_set hg
    · -- the update has just written its row
      cases heq
      cases hadv with
      | upsert =>
        obtain ⟨req, hreq, hfeature⟩ := hw.mine _ hcall
        obtain ⟨req', hreq', hrow, -⟩ := h.wf.row g _ row hcall rfl
        cases hreq.symm.trans hreq'
        rw [← hfeature, ← hrow]
        exact Table.get_upsert_self _ row
    · rcases hadv.table (h.upserted request' row hold) with hkept | ⟨row', rfl, hfeature⟩
      · exact hkept
      · exact absurd hfeature (hw.quiet h.wf hlater (Ne.symm hne) request row' hcall)
  · obtain ⟨rfl, heq⟩ | ⟨hne, hold⟩ := of_set hg
    · -- the lock was free, so no list was on its way to the cache
      cases heq
      cases hadv with
      | bustUpdate _ hfree =>
        refine ⟨h.upserted request row hcall, fun policies hnone => (nomatch hnone),
          fun c' request' slice hc' => ?_⟩
        obtain ⟨-, heq⟩ | ⟨-, hold⟩ := of_set hc'
        · cases heq
        · have htaken := h.wf.lock.locked c' _ hold rfl
          rw [hfree] at htaken
          cases htaken
    · exact (h.busted request' row hold).advance hcall hadv (hw.quiet h.wf hlater (Ne.symm hne))
  · obtain ⟨rfl, heq⟩ | ⟨hne, hold⟩ := of_set hg
    · cases heq
      obtain rfl := hadv.updated rfl
      refine (h.busted request row hcall).advance hcall hadv fun request' row' hvalidated => ?_
      cases hcall.symm.trans hvalidated
    · exact (h.done request' row hold).advance hcall hadv (hw.quiet h.wf hlater (Ne.symm hne))

/-- What the read `r` goes by, and what it has answered. -/
structure Reading (svc : PolicyService) (r : ℕ) (f : String) (row : FeaturePolicy) (s : State) :
    Prop where
  wf : s.WF
  fresh : s.Fresh f row
  got : ∀ request policies, s.calls r = some ⟨request, .got (.ok policies)⟩ → Finds policies f row
  failed : ∀ request err, s.calls r = some ⟨request, .got (.error err)⟩ →
    ∃ m, err = .unavailable m
  answered : ∀ q plan a err, s.calls r = some ⟨.read q f plan, .done (.answered a err)⟩ →
    a = q.valueIn svc row plan ∨ (∃ m, err = some (.unavailable m)) ∧ a = q.deny

theorem Reading.step {r : ℕ} {row : FeaturePolicy} (h : Reading svc r f row s)
    (hquiet : ∀ c, s.Quiet f c) (hstep : svc.methods.step s ev = some s') :
    Reading svc r f row s' := by
  have hwf' := h.wf.step hstep
  obtain ⟨c, request, hnone, rfl⟩ | ⟨c, call, sh, phase, hcall, hadv, rfl⟩ := step_cases hstep
  · refine ⟨hwf', h.fresh.call c request, fun request' policies hr => ?_,
      fun request' err hr => ?_, fun q plan a err hr => ?_⟩
    · exact h.got request' policies (of_set_of_phase_ne hr nofun)
    · exact h.failed request' err (of_set_of_phase_ne hr nofun)
    · exact h.answered q plan a err (of_set_of_phase_ne hr nofun)
  obtain ⟨request, before⟩ := call
  refine ⟨hwf', h.fresh.advance hcall hadv (hquiet c), fun request' policies hr => ?_,
    fun request' err hr => ?_, fun q plan a err hr => ?_⟩
  · obtain ⟨rfl, heq⟩ | ⟨-, hold⟩ := of_set hr
    · cases heq
      rcases hadv.got with hcached | ⟨slice, rfl, rfl⟩
      · exact h.fresh.cached policies hcached
      · exact h.fresh.listed r request slice hcall
    · exact h.got request' policies hold
  · obtain ⟨rfl, heq⟩ | ⟨-, hold⟩ := of_set hr
    · cases heq
      cases hadv with
      | unavailable m => exact ⟨m, rfl⟩
    · exact h.failed request' err hold
  · obtain ⟨rfl, heq⟩ | ⟨-, hold⟩ := of_set hr
    · obtain ⟨rfl, hphase⟩ := CallSystem.Call.mk.inj heq
      obtain ⟨result, rfl, hout⟩ := hadv.answered hphase.symm
      simp only [Request.outcome, Outcome.answered.injEq] at hout
      obtain ⟨rfl, rfl⟩ := hout
      cases result with
      | ok policies => exact .inl (svc.answer_ruleFor (h.got _ policies hcall) q plan)
      | error e =>
        obtain ⟨m, rfl⟩ := h.failed _ e hcall
        exact .inr ⟨⟨m, rfl⟩, rfl⟩
    · exact h.answered q plan a err hold

end State

/-- Policy updates are seen at once. In any run, let the update `g` be made after `s₁` and have
returned by `s₂`, and let the read `r` of the same feature be made after `s₂` and have returned by
`s₃`. If every other update of the feature that was made by `s₃` had returned by `s₁`, then the read
has answered with the value of the updated row, or denied because the repository could not be
listed. -/
theorem answer_after_update (svc : PolicyService) {s₀ s₁ s₂ s₃ : State} {es₁ es₂ es₃ : List Event}
    (hinit : (system svc).IsInit s₀) (h₁ : (system svc).run s₀ es₁ = some s₁)
    (h₂ : (system svc).run s₁ es₂ = some s₂) (h₃ : (system svc).run s₂ es₃ = some s₃)
    {g r : ℕ} {req : UpdatePolicyRequest} {row : FeaturePolicy} {q : Query} {plan : String}
    {a : Answer} {err : Option RuleError}
    (hnew : s₁.calls g = none) (hupdated : s₂.calls g = some ⟨.update req, .done (.updated row)⟩)
    (hunread : s₂.calls r = none)
    (hread : s₃.calls r = some ⟨.read q req.feature plan, .done (.answered a err)⟩)
    (hlone : ∀ c req' phase, c ≠ g → s₃.calls c = some ⟨.update req', phase⟩ →
      req'.feature = req.feature → ∃ request outcome, s₁.calls c = some ⟨request, .done outcome⟩) :
    row.feature = req.feature ∧ row = req.apply row ∧
      (a = q.valueIn svc row plan ∨ (∃ m, err = some (.unavailable m)) ∧ a = q.deny) := by
  have hg₃ : s₃.calls g = some ⟨.update req, .done (.updated row)⟩ :=
    State.done_of_later (later_run h₃) hupdated
  have hw₃ : State.Window g req.feature s₁ s₃ := by
    refine ⟨fun call hcall => ?_, hlone⟩
    cases hg₃.symm.trans hcall
    exact ⟨req, rfl, rfl⟩
  -- the window reaches back to `s₁`
  obtain ⟨hw₂, hevery₃⟩ := StepSystem.everyStep_of_run (Q := State.Window g req.feature s₁)
    (fun _ _ _ => State.Window.back) h₃ hw₃
  obtain ⟨-, hevery₂⟩ := StepSystem.everyStep_of_run (Q := State.Window g req.feature s₁)
    (fun _ _ _ => State.Window.back) h₂ hw₂
  have hwf₁ : s₁.WF := StepSystem.run_invariant' (I := State.WF)
    (fun _ _ _ hs hstep => hs.step hstep) h₁ (State.wf_of_isInit hinit)
  have hupdating : State.Updating g req.feature s₂ ∧ svc.methods.Later s₁ s₂ := by
    refine StepSystem.run_invariant
      (I := fun s => State.Updating g req.feature s ∧ svc.methods.Later s₁ s)
      ?_ hevery₂ h₂ ⟨⟨hwf₁, ?_, ?_, ?_⟩, CallSystem.Later.refl s₁⟩
    · rintro s ev s' ⟨hu, hlater⟩ hw hstep
      exact ⟨hu.step hw hlater hstep, hlater.trans (later_step hstep)⟩
    all_goals
      intro request row hg
      rw [hnew] at hg
      cases hg
  obtain ⟨req', hreq', hfeature, hcells⟩ := hupdating.1.wf.row g _ row hupdated rfl
  cases hreq'
  have hreading : State.Reading svc r req.feature row s₃ ∧ svc.methods.Later s₂ s₃ := by
    refine StepSystem.run_invariant
      (I := fun s => State.Reading svc r req.feature row s ∧ svc.methods.Later s₂ s) ?_ hevery₃ h₃
      ⟨⟨hupdating.1.wf, hupdating.1.done _ row hupdated, ?_, ?_, ?_⟩, CallSystem.Later.refl s₂⟩
    · rintro s ev s' ⟨hr, hlater⟩ hw hstep
      refine ⟨hr.step (fun c => ?_) hstep, hlater.trans (later_step hstep)⟩
      by_cases heq : c = g
      · -- the update itself has returned
        intro request row' hc
        rw [heq] at hc
        cases (State.done_of_later hlater hupdated).symm.trans hc
      · exact hw.quiet hr.wf (hupdating.2.trans hlater) heq
    all_goals
      intros
      rename_i hr
      rw [hunread] at hr
      cases hr
  exact ⟨hfeature, hcells, hreading.1.answered q plan a err hread⟩

section Example

/-- The text of a cell that allows. -/
def allowCell : RawMessage :=
  [0x7b, 0x22, 0x61, 0x6c, 0x6c, 0x6f, 0x77, 0x65, 0x64, 0x22, 0x3a, 0x74, 0x72, 0x75, 0x65, 0x7d]

/-- The text of a cell that does not. -/
def denyCell : RawMessage :=
  [0x7b, 0x22, 0x61, 0x6c, 0x6c, 0x6f, 0x77, 0x65, 0x64, 0x22, 0x3a, 0x66, 0x61, 0x6c, 0x73,
    0x65, 0x7d]

/-- A service with the standard plans, and a reader of the two cells. -/
def sampleService : PolicyService :=
  PolicyService.new (PlanRegistry.new [planFreemium, planPro, planEnterprise]) none none fun b =>
    if b = allowCell then some (.obj [("allowed", .bool true)])
    else if b = denyCell then some (.obj [("allowed", .bool false)])
    else none

/-- The row of a feature that no plan has. -/
def deniedRow : FeaturePolicy := ⟨"export", "", "", .access, denyCell, denyCell, denyCell, 0⟩

/-- An update that gives it to the two higher plans. -/
def sampleUpdate : UpdatePolicyRequest := ⟨"export", denyCell, allowCell, allowCell⟩

/-- Nothing is cached, and the row is the only one. -/
def sampleState : State := ⟨⟨Table.empty.upsert deniedRow, none, Time.zero, false⟩, fun _ => none⟩

/-- The call `c` asks for the feature and lists the repository. -/
def sampleRead (c : ℕ) (row : FeaturePolicy) (now : ℤ) : List Event :=
  [.call c (.read .isAllowed "export" "pro"), .step c (.clock now), .step c .go, .step c (.clock now),
    .step c (.rows (.ok (some [row]))), .step c (.clock now), .step c .go]

/-- The call `c` makes the update. -/
def sampleWrite (c : ℕ) : List Event :=
  [.call c (.update sampleUpdate), .step c (.fetch none), .step c (.commit none true), .step c .go,
    .step c .go]

/-- The states after a read that fills the cache, after the update, and after a read a second
later. -/
def cachedState : State :=
  ((system sampleService).run sampleState (sampleRead 0 deniedRow 0)).getD sampleState

def updatedState : State :=
  ((system sampleService).run cachedState (sampleWrite 1)).getD sampleState

def answeredState : State :=
  ((system sampleService).run updatedState
    (sampleRead 2 (sampleUpdate.apply deniedRow) Duration.second)).getD sampleState

/-- The second read answers from the updated row, though the first has cached the old one for five
minutes. -/
theorem answer_after_sampleUpdate :
    cachedState.shared.cached = some [deniedRow] ∧
      answeredState.calls 2 =
        some ⟨.read .isAllowed "export" "pro", .done (.answered (.allowed true) none)⟩ ∧
      .allowed true =
        Query.isAllowed.valueIn sampleService (sampleUpdate.apply deniedRow) "pro" := by
  refine ⟨rfl, rfl, ?_⟩
  have h₁ : (system sampleService).run sampleState (sampleRead 0 deniedRow 0) = some cachedState := rfl
  have h₂ : (system sampleService).run cachedState (sampleWrite 1) = some updatedState := rfl
  have h₃ : (system sampleService).run updatedState
      (sampleRead 2 (sampleUpdate.apply deniedRow) Duration.second) = some answeredState := rfl
  have hupdated : updatedState.calls 1 = some ⟨.update sampleUpdate,
      .done (.updated (sampleUpdate.apply deniedRow))⟩ := rfl
  have hread : answeredState.calls 2 = some ⟨.read .isAllowed sampleUpdate.feature "pro",
      .done (.answered (.allowed true) none)⟩ := rfl
  have hlone : ∀ c req' phase, c ≠ 1 → answeredState.calls c = some ⟨.update req', phase⟩ →
      req'.feature = sampleUpdate.feature →
      ∃ request outcome, cachedState.calls c = some ⟨request, .done outcome⟩ := by
    intro c req' phase hne hc
    match c with
    | 0 | 2 | _ + 3 => cases hc
  obtain ⟨-, -, hvalue | ⟨⟨m, hm⟩, -⟩⟩ :=
    answer_after_update sampleService ⟨⟨rfl, rfl⟩, rfl⟩ h₁ h₂ h₃ rfl hupdated rfl hread hlone
  · exact hvalue
  · cases hm

end Example

end Tiering
