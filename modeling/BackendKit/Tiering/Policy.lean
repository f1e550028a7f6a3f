import BackendKit.GoStd.Json
import BackendKit.GoStd.Time

/-!
# Plans and feature policies

The values that the feature gates of `tiering` go by (`tiering/plan.go`, `tiering/policy.go` and the
pure functions of `tiering/policy_service.go`): the ordered list of plans, the policy of a feature
with a JSON cell for each tier, and what a cell means to `IsAllowed` and to `NumericLimit`.

A policy table (`Table`) has one row for each feature. It is what a `PolicyRepository` keeps, and its
operations are those of the interface, each of them atomic.
-/

open GoStd

namespace Tiering

/-! ### Plans -/

/-- The plans, from the lowest tier to the highest. -/
structure PlanRegistry where
  plans : List String
  nodup : plans.Nodup

namespace PlanRegistry

/-- Add a plan unless it is there. -/
def addPlan (plans : List String) (p : String) : List String :=
  if p ∈ plans then plans else plans ++ [p]

theorem nodup_addPlan {plans : List String} (h : plans.Nodup) (p : String) :
    (addPlan plans p).Nodup := by
  unfold addPlan
  split
  · exact h
  · rename_i hnot
    exact (List.perm_append_singleton p plans).nodup_iff.mpr (List.nodup_cons.mpr ⟨hnot, h⟩)

theorem nodup_foldl_addPlan {acc : List String} (h : acc.Nodup) (plans : List String) :
    (plans.foldl addPlan acc).Nodup := by
  induction plans generalizing acc with
  | nil => exact h
  | cons p plans ih => exact ih (nodup_addPlan h p)

/-- `NewPlanRegistry`: duplicates are ignored. -/
def new (plans : List String) : PlanRegistry :=
  ⟨plans.foldl addPlan [], nodup_foldl_addPlan List.nodup_nil plans⟩

/-- The lowest plan. -/
def lowest (r : PlanRegistry) : String := r.plans.headD ""

/-- Map a plan that is not registered to the lowest. -/
def normalise (r : PlanRegistry) (plan : String) : String :=
  if plan ∈ r.plans then plan else r.lowest

end PlanRegistry

def planFreemium : String := "freemium"
def planPro : String := "pro"
def planEnterprise : String := "enterprise"

/-! ### Policies -/

/-- How a rule is evaluated. In the code this is a string, so there are others than the two that
are known. -/
inductive FeatureType where
  | access
  | numericLimit
  | other (text : String)
  deriving DecidableEq, Repr

/-- The text of a JSON value. -/
abbrev RawMessage := List UInt8

/-- The rules for a feature. -/
structure FeaturePolicy where
  feature : String
  category : String
  label : String
  featureType : FeatureType
  freemium : RawMessage
  pro : RawMessage
  enterprise : RawMessage
  updatedAt : ℤ
  deriving DecidableEq

/-- A cell, decoded. -/
structure TierRule where
  allowed : Option Bool := none
  limit : Option Int64 := none
  deriving DecidableEq

/-- Decode into a `*bool`. -/
def intoBoolPtr (_ : Option Bool) : Json → Option (Option Bool)
  | .bool b => some (some b)
  | .null => some none
  | _ => none

/-- Decode into an `*int`. -/
def intoIntPtr (_ : Option Int64) : Json → Option (Option Int64)
  | .num literal => (Json.parseInt64 literal).map some
  | .null => some none
  | _ => none

/-- `json.Unmarshal` into a `TierRule`. -/
def TierRule.ofJson : Json → Option TierRule
  | .null => some {}
  | .obj members => do
    let allowed ← Json.decodeField intoBoolPtr none "allowed" members
    let limit ← Json.decodeField intoIntPtr none "limit" members
    return { allowed, limit }
  | _ => none

/-- Picks the cell for a plan. -/
abbrev PlanSelector := String → FeaturePolicy → RawMessage

/-- The selector for the standard plans. -/
def defaultPlanSelector : PlanSelector := fun plan p =>
  if plan = planPro then p.pro else if plan = planEnterprise then p.enterprise else p.freemium

/-- How long the policies are cached unless another time is set. -/
def defaultCacheTTL : ℤ := 5 * Duration.minute

/-- The collaborators and settings of a `PolicyService`. -/
structure PolicyService where
  registry : PlanRegistry
  selector : PlanSelector
  cacheTTL : ℤ
  /-- The value a JSON text stands for. -/
  json : RawMessage → Option Json

/-- `NewPolicyService`, and `SetCacheTTL` if it was called. -/
def PolicyService.new (registry : PlanRegistry) (selector : Option PlanSelector) (cacheTTL : Option ℤ)
    (json : RawMessage → Option Json) : PolicyService where
  registry
  selector := selector.getD defaultPlanSelector
  cacheTTL := cacheTTL.getD defaultCacheTTL
  json

/-! ### Answers -/

/-- Why there is no rule. -/
inductive RuleError where
  /-- The repository could not be read, and nothing is cached. -/
  | unavailable (err : String)
  | unmarshal (feature userPlan : String)
  | notFound (feature : String)
  deriving DecidableEq, Repr

namespace PolicyService

variable (svc : PolicyService)

/-- Decode a cell. -/
def rule (raw : RawMessage) : Option TierRule := (svc.json raw).bind TierRule.ofJson

/-- The rule for a feature in a list of policies. -/
def ruleFor (policies : List FeaturePolicy) (feature userPlan : String) : Except RuleError TierRule :=
  match policies.find? (·.feature = feature) with
  | none => .error (.notFound feature)
  | some p =>
    match svc.rule (svc.selector (svc.registry.normalise userPlan) p) with
    | none => .error (.unmarshal feature userPlan)
    | some rule => .ok rule

end PolicyService

/-- The two questions that are answered from a rule. -/
inductive Query where
  | isAllowed
  | numericLimit
  deriving DecidableEq, Repr

/-- The answer to a question. -/
inductive Answer where
  | allowed (b : Bool)
  | limit (n : Int64)
  deriving DecidableEq

namespace Query

/-- What is answered when there is no rule. -/
def deny : Query → Answer
  | .isAllowed => .allowed false
  | .numericLimit => .limit 0

/-- What is answered from a rule. -/
def ofRule (rule : TierRule) : Query → Answer
  | .isAllowed => .allowed (rule.allowed.getD false)
  | .numericLimit => .limit (rule.limit.getD 0)

/-- `IsAllowed` and `NumericLimit`, after `ruleFor`. -/
def answer (q : Query) : Except RuleError TierRule → Answer
  | .ok rule => q.ofRule rule
  | .error _ => q.deny

/-- The value of a row's cell for the plan of a user: what a question is answered with if that row
is the one that counts. -/
def valueIn (q : Query) (svc : PolicyService) (row : FeaturePolicy) (userPlan : String) : Answer :=
  match svc.rule (svc.selector (svc.registry.normalise userPlan) row) with
  | some rule => q.ofRule rule
  | none => q.deny

end Query

/-- The rule is that of the normalised plan. -/
theorem PolicyService.toOption_ruleFor (svc : PolicyService) {policies : List FeaturePolicy}
    {feature : String} {row : FeaturePolicy} (hrow : policies.find? (·.feature = feature) = some row)
    (userPlan : String) :
    (svc.ruleFor policies feature userPlan).toOption =
      svc.rule (svc.selector (svc.registry.normalise userPlan) row) := by
  rw [PolicyService.ruleFor, hrow]
  dsimp only
  cases svc.rule (svc.selector (svc.registry.normalise userPlan) row) with
  | none => rfl
  | some rule => rfl

/-- The answer is the value of the first row of the feature. -/
theorem PolicyService.answer_ruleFor (svc : PolicyService) {policies : List FeaturePolicy}
    {row : FeaturePolicy} {feature : String}
    (h : policies.find? (·.feature = feature) = some row) (q : Query) (userPlan : String) :
    q.answer (svc.ruleFor policies feature userPlan) = q.valueIn svc row userPlan := by
  rw [Query.valueIn, ← svc.toOption_ruleFor h]
  cases svc.ruleFor policies feature userPlan <;> rfl

/-! ### Updates -/

/-- What is wrong with a cell. -/
inductive CellError where
  | invalidJSON
  /-- access feature requires an `allowed` member -/
  | accessRequired
  /-- numeric_limit feature requires a `limit` member -/
  | limitRequired
  deriving DecidableEq, Repr

/-- Check one cell. -/
def PolicyService.validateCell (svc : PolicyService) (ft : FeatureType) (raw : RawMessage) :
    Except CellError Unit :=
  match svc.rule raw with
  | none => .error .invalidJSON
  | some rule =>
    match ft with
    | .access => if rule.allowed = none then .error .accessRequired else .ok ()
    | .numericLimit => if rule.limit = none then .error .limitRequired else .ok ()
    | .other _ => .ok ()

/-- Check the cells in order. -/
def PolicyService.validateTierRules (svc : PolicyService) (ft : FeatureType) :
    List RawMessage → Except CellError Unit
  | [] => .ok ()
  | raw :: tiers =>
    match svc.validateCell ft raw with
    | .error err => .error err
    | .ok () => validateTierRules svc ft tiers

/-- The body of an update. -/
structure UpdatePolicyRequest where
  feature : String
  freemium : RawMessage
  pro : RawMessage
  enterprise : RawMessage

/-- The row with the cells of the update. -/
def UpdatePolicyRequest.apply (req : UpdatePolicyRequest) (existing : FeaturePolicy) :
    FeaturePolicy :=
  { existing with freemium := req.freemium, pro := req.pro, enterprise := req.enterprise }

/-! ### The table -/

/-- The rows that a repository keeps, by feature. -/
structure Table where
  rows : AList fun _ : String => FeaturePolicy
  keyed : ∀ f p, rows.lookup f = some p → p.feature = f

namespace Table

/-- The table without rows. -/
def empty : Table where
  rows := ∅
  keyed _ _ h := nomatch h

/-- `GetByFeature`. -/
def get (t : Table) (feature : String) : Option FeaturePolicy := t.rows.lookup feature

/-- All rows. -/
def list (t : Table) : List FeaturePolicy := t.rows.entries.map (·.2)

/-- Write a row, over the old one of its feature. -/
def upsert (t : Table) (p : FeaturePolicy) : Table where
  rows := t.rows.insert p.feature p
  keyed f q hq := by
    by_cases heq : f = p.feature
    · subst heq
      rw [AList.lookup_insert, Option.some.injEq] at hq
      exact congrArg FeaturePolicy.feature hq.symm
    · rw [AList.lookup_insert_ne heq] at hq
      exact t.keyed f q hq

/-- Write a row unless there is one of its feature. -/
def insertNew (t : Table) (p : FeaturePolicy) : Table :=
  match t.get p.feature with
  | none => t.upsert p
  | some _ => t

/-- Insert rows with `ON CONFLICT DO NOTHING`. -/
def seedDefaults (t : Table) (policies : List FeaturePolicy) : Table := policies.foldl insertNew t

theorem get_upsert_self (t : Table) (p : FeaturePolicy) : (t.upsert p).get p.feature = some p :=
  AList.lookup_insert _

variable {t : Table} {f : String}

theorem get_upsert_of_ne (t : Table) {p : FeaturePolicy} (h : f ≠ p.feature) :
    (t.upsert p).get f = t.get f :=
  AList.lookup_insert_ne h

/-- Seeding changes no row that is there. -/
theorem get_insertNew {row : FeaturePolicy} (h : t.get f = some row) (p : FeaturePolicy) :
    (t.insertNew p).get f = some row := by
  unfold insertNew
  split
  · rename_i hnone
    have hne : f ≠ p.feature := by
      rintro rfl
      rw [h] at hnone
      cases hnone
    rw [get_upsert_of_ne t hne, h]
  · exact h

theorem get_seedDefaults {row : FeaturePolicy} (h : t.get f = some row)
    (policies : List FeaturePolicy) : (t.seedDefaults policies).get f = some row := by
  unfold seedDefaults
  induction policies generalizing t with
  | nil => exact h
  | cons p policies ih => exact ih (get_insertNew h p)

/-- In any listing of the table the first row of a feature is the only one. -/
theorem find_of_perm {policies : List FeaturePolicy} {row : FeaturePolicy}
    (hperm : policies.Perm t.list) (h : t.get f = some row) :
    policies.find? (·.feature = f) = some row := by
  have hmem : ∀ p, p ∈ policies ↔ t.get p.feature = some p := by
    intro p
    rw [hperm.mem_iff, list, List.mem_map]
    constructor
    · rintro ⟨⟨f', q⟩, hentry, rfl⟩
      have hlookup : t.rows.lookup f' = some q := AList.mem_lookup_iff.mpr hentry
      have hkey := t.keyed f' q hlookup
      show t.rows.lookup q.feature = some q
      rw [hkey, hlookup]
    · intro hp
      exact ⟨⟨p.feature, p⟩, AList.mem_lookup_iff.mp hp, rfl⟩
  cases hfind : policies.find? (·.feature = f) with
  | none =>
    have hrow : row ∈ policies := (hmem row).mpr (by rw [t.keyed f row h]; exact h)
    have hnone := List.find?_eq_none.mp hfind row hrow
    simp [t.keyed f row h] at hnone
  | some p =>
    have hfeature : p.feature = f := by simpa using List.find?_some hfind
    have hp := (hmem p).mp (List.mem_of_find?_eq_some hfind)
    rw [hfeature, h] at hp
    exact hp.symm

end Table

end Tiering
