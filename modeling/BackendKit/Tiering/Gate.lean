import BackendKit.Tiering.Policy
import Mathlib.Data.List.Induction

/-!
# The plan gate

`Gate.Require` (`tiering/gate.go`) reads the plan of the user from the context, maps it into the registry
and compares positions. By its documentation, a plan that is unknown or missing is treated as the lowest
tier; `PolicyService.ruleFor` maps the plan it is given in the same way.

The plan is read by `ctxutil.GetUserPlan`, which has a default of its own, `"freemium"`. So a request
without a plan has the lowest tier only if that is what the registry makes of `"freemium"`
(`missing_plan_lowest_iff`).
-/

open GoStd

namespace Tiering

/-! ### Positions in a registry -/

namespace PlanRegistry

/-- The position of a plan. -/
def index (r : PlanRegistry) (plan : String) : Option ℕ :=
  if plan ∈ r.plans then some (r.plans.idxOf plan) else none

/-- Whether a plan is at least as high as another. It is not if one of them is unknown. -/
def tierAtLeast (r : PlanRegistry) (current required : String) : Bool :=
  match r.index current, r.index required with
  | some cur, some req => decide (req ≤ cur)
  | _, _ => false

theorem tierAtLeast_eq_true {r : PlanRegistry} {current required : String} :
    r.tierAtLeast current required = true ↔
      current ∈ r.plans ∧ required ∈ r.plans ∧ r.plans.idxOf required ≤ r.plans.idxOf current := by
  unfold tierAtLeast index
  by_cases hcur : current ∈ r.plans
  · by_cases hreq : required ∈ r.plans
    · simp [hcur, hreq]
    · simp [hcur, hreq]
  · simp [hcur]

@[simp] theorem mem_addPlan {plans : List String} {p q : String} :
    q ∈ addPlan plans p ↔ q ∈ plans ∨ q = p := by
  unfold addPlan
  split
  next h =>
    refine (or_iff_left_of_imp ?_).symm
    rintro rfl
    exact h
  next => rw [List.mem_append, List.mem_singleton]

/-- The registry has the names it was made of. -/
theorem mem_plans_new {names : List String} {p : String} : p ∈ (new names).plans ↔ p ∈ names := by
  show p ∈ names.foldl addPlan [] ↔ p ∈ names
  induction names using List.reverseRecOn with
  | nil => rfl
  | append_singleton names name ih => simp [List.foldl_append, ih]

/-- The registry keeps the order of the first occurrences. -/
theorem idxOf_plans_new {names : List String} {p q : String} (hp : p ∈ names) (hq : q ∈ names) :
    (new names).plans.idxOf p ≤ (new names).plans.idxOf q ↔ names.idxOf p ≤ names.idxOf q := by
  induction names using List.reverseRecOn with
  | nil => cases hp
  | append_singleton names name ih =>
    have hstep : (new (names ++ [name])).plans = addPlan (new names).plans name := by
      show (names ++ [name]).foldl addPlan [] = addPlan (names.foldl addPlan []) name
      rw [List.foldl_append, List.foldl_cons, List.foldl_nil]
    rw [hstep, addPlan]
    by_cases hname : name ∈ names
    · -- Nothing new: both lists place their plans as before.
      have hold : ∀ a ∈ names ++ [name], a ∈ names := by
        intro a ha
        rcases List.mem_append.mp ha with h | h
        · exact h
        · exact List.mem_singleton.mp h ▸ hname
      rw [if_pos (mem_plans_new.mpr hname), List.idxOf_append_of_mem (hold p hp),
        List.idxOf_append_of_mem (hold q hq)]
      exact ih (hold p hp) (hold q hq)
    · -- A new plan is the last of both lists.
      have hnew : name ∉ (new names).plans := mt mem_plans_new.mp hname
      rw [if_neg hnew]
      have hlt : ∀ a ∈ names, (new names).plans.idxOf a < (new names).plans.length ∧
          names.idxOf a < names.length := fun a ha =>
        ⟨List.idxOf_lt_length_of_mem (mem_plans_new.mpr ha), List.idxOf_lt_length_of_mem ha⟩
      have hlast : ((new names).plans ++ [name]).idxOf name = (new names).plans.length ∧
          (names ++ [name]).idxOf name = names.length := by
        constructor
        · rw [List.idxOf_append_of_notMem hnew, List.idxOf_cons_self, Nat.add_zero]
        · rw [List.idxOf_append_of_notMem hname, List.idxOf_cons_self, Nat.add_zero]
      have hkept : ∀ a ∈ names, ((new names).plans ++ [name]).idxOf a = (new names).plans.idxOf a ∧
          (names ++ [name]).idxOf a = names.idxOf a := fun a ha =>
        ⟨List.idxOf_append_of_mem (mem_plans_new.mpr ha), List.idxOf_append_of_mem ha⟩
      rcases List.mem_append.mp hp with hp' | hp'
      · rw [(hkept p hp').1, (hkept p hp').2]
        rcases List.mem_append.mp hq with hq' | hq'
        · rw [(hkept q hq').1, (hkept q hq').2]
          exact ih hp' hq'
        · rw [List.mem_singleton.mp hq', hlast.1, hlast.2]
          exact iff_of_true (hlt p hp').1.le (hlt p hp').2.le
      · rw [List.mem_singleton.mp hp', hlast.1, hlast.2]
        rcases List.mem_append.mp hq with hq' | hq'
        · rw [(hkept q hq').1, (hkept q hq').2]
          exact iff_of_false (hlt q hq').1.not_ge (hlt q hq').2.not_ge
        · rw [List.mem_singleton.mp hq', hlast.1, hlast.2]
          exact iff_of_true le_rfl le_rfl

/-- The lowest plan is the first name. -/
theorem lowest_new (first : String) (rest : List String) : (new (first :: rest)).lowest = first := by
  have hkeep : ∀ rest plans : List String, (rest.foldl addPlan (first :: plans)).headD "" = first := by
    intro rest
    induction rest with
    | nil => exact fun _ => rfl
    | cons p rest ih =>
      intro plans
      rw [List.foldl_cons, addPlan]
      split
      next => exact ih plans
      next => exact ih (plans ++ [p])
  exact hkeep rest []

end PlanRegistry

/-! ### The gate -/

/-- `ctxutil.GetUserPlan`, of the plan that the context has. -/
def getUserPlan (plan : Option String) : String :=
  match plan with
  | some v => if v ≠ "" then v else "freemium"
  | none => "freemium"

/-- What the client is told about the plan it would need. -/
structure UpgradeDetails where
  plan : String
  requiredPlan : String
  upgradeURL : String
  deriving DecidableEq, Repr

/-- The error response of the gate. -/
structure UpgradeRequired where
  code : String
  statusCode : ℕ
  message : String
  details : UpgradeDetails
  deriving DecidableEq, Repr

structure Gate where
  registry : PlanRegistry
  upgradeURL : String

/-- What becomes of a request. -/
inductive GateOutcome where
  | next
  | rejected (err : UpgradeRequired)
  deriving DecidableEq, Repr

/-- `Gate.Require`, for a request whose context has this plan. -/
def Gate.require (g : Gate) (minPlan : String) (plan : Option String) : GateOutcome :=
  let userPlan := g.registry.normalise (getUserPlan plan)
  if g.registry.tierAtLeast userPlan minPlan then .next
  else .rejected {
    code := "upgrade_required"
    statusCode := 403
    message := "This feature requires the " ++ minPlan ++ " plan or above"
    details := { plan := userPlan, requiredPlan := minPlan, upgradeURL := g.upgradeURL } }

theorem Gate.require_eq_next {g : Gate} {minPlan : String} {plan : Option String} :
    g.require minPlan plan = .next ↔
      g.registry.tierAtLeast (g.registry.normalise (getUserPlan plan)) minPlan = true := by
  unfold Gate.require
  dsimp only
  split
  next h => exact iff_of_true rfl h
  next h => exact iff_of_false (nomatch ·) h

/-! ### The lowest tier for what is missing or unknown -/

/-- The plan that counts by the documentation, for a registry made of these names: the first, unless
there is a plan and it is one of them. -/
def effectivePlan (first : String) (rest : List String) (plan : Option String) : String :=
  if plan.getD "" ≠ "" ∧ plan.getD "" ∈ first :: rest then plan.getD "" else first

variable (first : String) (rest : List String)

theorem normalise_new (plan : String) :
    (PlanRegistry.new (first :: rest)).normalise plan = if plan ∈ first :: rest then plan else first := by
  rw [PlanRegistry.normalise, PlanRegistry.lowest_new]
  simp only [PlanRegistry.mem_plans_new]

theorem normalise_new_mem (plan : String) :
    (PlanRegistry.new (first :: rest)).normalise plan ∈ first :: rest := by
  rw [normalise_new]
  split
  next h => exact h
  next => exact List.mem_cons_self

/-- What the gate compares. -/
theorem require_next_new (upgradeURL minPlan : String) (plan : Option String) :
    Gate.require ⟨.new (first :: rest), upgradeURL⟩ minPlan plan = .next ↔
      minPlan ∈ first :: rest ∧ (first :: rest).idxOf minPlan ≤ (first :: rest).idxOf
        ((PlanRegistry.new (first :: rest)).normalise (getUserPlan plan)) := by
  have hmem := normalise_new_mem first rest (getUserPlan plan)
  rw [Gate.require_eq_next, PlanRegistry.tierAtLeast_eq_true]
  simp only [PlanRegistry.mem_plans_new, hmem, true_and]
  exact and_congr_right fun hmin => PlanRegistry.idxOf_plans_new hmin hmem

/-- The gate goes by the documented plan, but for a request without a plan where the registry has
`"freemium"` at a higher place: such a request passes up to there. -/
theorem require_effectivePlan (upgradeURL minPlan : String) (plan : Option String) :
    (Gate.require ⟨.new (first :: rest), upgradeURL⟩ minPlan plan = .next ↔
        minPlan ∈ first :: rest ∧ (first :: rest).idxOf minPlan ≤
          (first :: rest).idxOf (effectivePlan first rest plan)) ↔
      (plan.getD "" = "" → "freemium" ∈ first :: rest → minPlan ∈ first :: rest → minPlan ≠ first →
        (first :: rest).idxOf "freemium" < (first :: rest).idxOf minPlan) := by
  rw [require_next_new, normalise_new]
  by_cases hplan : plan.getD "" = ""
  · have huser : getUserPlan plan = "freemium" := by
      cases plan with
      | none => rfl
      | some v =>
        obtain rfl : v = "" := hplan
        rfl
    have heffective : effectivePlan first rest plan = first := by
      rw [effectivePlan, if_neg fun h => h.1 hplan]
    have hzero : (first :: rest).idxOf minPlan ≤ (first :: rest).idxOf first ↔ minPlan = first := by
      rw [List.idxOf_cons_self, Nat.le_zero]
      by_cases h : first = minPlan
      · simp [h]
      · simp [List.idxOf_cons_ne _ h, Ne.symm h]
    rw [huser, heffective, hzero]
    by_cases hfree : "freemium" ∈ first :: rest
    · rw [if_pos hfree]
      simp only [hplan, hfree, forall_const, ← not_le]
      by_cases hmin : minPlan = first
      · subst hmin
        simp
      · simp only [hmin, and_false, iff_false, not_and, ne_eq, not_false_eq_true, forall_const]
    · rw [if_neg hfree, hzero]
      exact iff_of_true Iff.rfl fun _ h => absurd h hfree
  · have huser : getUserPlan plan = plan.getD "" := by
      cases plan with
      | none => exact absurd rfl hplan
      | some v => exact if_pos hplan
    have hsame : (if getUserPlan plan ∈ first :: rest then getUserPlan plan else first) =
        effectivePlan first rest plan := by
      rw [huser, effectivePlan]
      simp only [ne_eq, hplan, not_false_eq_true, true_and]
    rw [hsame]
    exact iff_of_true Iff.rfl fun h => absurd h hplan

theorem normalise_eq_effectivePlan (userPlan : String) :
    (PlanRegistry.new (first :: rest)).normalise userPlan = effectivePlan first rest (some userPlan) ↔
      (userPlan = "" → "" ∈ first :: rest → first = "") := by
  rw [normalise_new, effectivePlan, Option.getD_some]
  by_cases hempty : userPlan = ""
  · subst hempty
    by_cases hmem : "" ∈ first :: rest
    · simp only [hmem, if_true, ne_eq, not_true_eq_false, false_and, if_false, forall_const]
      exact eq_comm
    · simp [hmem]
  · simp [hempty]

/-- A policy for a feature `"f"`. -/
def samplePolicy : FeaturePolicy where
  feature := "f"
  category := ""
  label := ""
  featureType := .access
  freemium := []
  pro := []
  enterprise := []
  updatedAt := 0

/-- A selector that has a cell for one plan only. -/
def selectorFor (plan : String) : PlanSelector := fun p _ => if p = plan then [0] else []

/-- A decoder that knows that cell. -/
def decodeCell (raw : RawMessage) : Option Json := if raw = [0] then some .null else none

theorem rule_selectorFor (registry : PlanRegistry) (plan p : String) (row : FeaturePolicy) :
    (PolicyService.new registry (some (selectorFor plan)) none decodeCell).rule
      (selectorFor plan p row) = if p = plan then some {} else none := by
  by_cases h : p = plan
  · simp [PolicyService.new, PolicyService.rule, selectorFor, decodeCell, h, TierRule.ofJson]
  · simp [PolicyService.new, PolicyService.rule, selectorFor, decodeCell, h]

/-- The policies go by a plan, whatever they are, if and only if it is what the registry makes of the
plan that was given. -/
theorem ruleFor_plan_iff (registry : PlanRegistry) (userPlan plan : String) :
    (∀ selector cacheTTL json policies feature row,
        policies.find? (fun p : FeaturePolicy => p.feature = feature) = some row →
        ((PolicyService.new registry (some selector) cacheTTL json).ruleFor policies feature
          userPlan).toOption =
          (PolicyService.new registry (some selector) cacheTTL json).rule (selector plan row)) ↔
      registry.normalise userPlan = plan := by
  constructor
  · intro h
    by_contra hne
    -- A selector that knows the normalised plan only tells the two plans apart.
    have hgiven : ((PolicyService.new registry (some (selectorFor (registry.normalise userPlan))) none
        decodeCell).ruleFor [samplePolicy] "f" userPlan).toOption = _ :=
      PolicyService.toOption_ruleFor _ rfl userPlan
    have hother := h (selectorFor (registry.normalise userPlan)) none decodeCell [samplePolicy] "f"
      samplePolicy rfl
    rw [rule_selectorFor, if_neg (Ne.symm hne), hgiven] at hother
    have hsome := rule_selectorFor registry (registry.normalise userPlan) (registry.normalise userPlan)
      samplePolicy
    rw [if_pos rfl] at hsome
    cases hsome.symm.trans hother
  · intro hsame selector cacheTTL json policies feature row hrow
    rw [PolicyService.toOption_ruleFor _ hrow, ← hsame]
    rfl

/-- A missing or unknown plan counts as the first of the registry for the gate and for the policies, if
and only if the request does not pass by being taken for `"freemium"`, and the empty plan is not
registered by its own name. -/
theorem missing_plan_lowest_iff (first : String) (rest : List String) (upgradeURL minPlan : String)
    (plan : Option String) (userPlan : String) :
    ((Gate.require ⟨.new (first :: rest), upgradeURL⟩ minPlan plan = .next ↔
        minPlan ∈ first :: rest ∧ (first :: rest).idxOf minPlan ≤
          (first :: rest).idxOf (effectivePlan first rest plan)) ∧
      ∀ selector cacheTTL json policies feature row,
        policies.find? (fun p : FeaturePolicy => p.feature = feature) = some row →
        ((PolicyService.new (.new (first :: rest)) (some selector) cacheTTL json).ruleFor policies feature
          userPlan).toOption =
          (PolicyService.new (.new (first :: rest)) (some selector) cacheTTL json).rule
            (selector (effectivePlan first rest (some userPlan)) row)) ↔
      (plan.getD "" = "" → "freemium" ∈ first :: rest → minPlan ∈ first :: rest → minPlan ≠ first →
        (first :: rest).idxOf "freemium" < (first :: rest).idxOf minPlan) ∧
      (userPlan = "" → "" ∈ first :: rest → first = "") := by
  refine and_congr (require_effectivePlan first rest upgradeURL minPlan plan) ?_
  rw [← normalise_eq_effectivePlan]
  exact ruleFor_plan_iff (.new (first :: rest)) userPlan (effectivePlan first rest (some userPlan))

/-- A registry with `"freemium"` above a trial plan: a request without a plan gets more than the trial. -/
theorem require_missing_plan :
    Gate.require ⟨.new ["trial", "freemium", "pro"], ""⟩ "freemium" none = .next ∧
      effectivePlan "trial" ["freemium", "pro"] none = "trial" ∧
      ¬ ["trial", "freemium", "pro"].idxOf "freemium" ≤ ["trial", "freemium", "pro"].idxOf "trial" := by
  decide +kernel

end Tiering
