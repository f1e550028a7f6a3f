import BackendKit.GoStd.Net
import BackendKit.Pep.Modes
import BackendKit.ToMathlib.CallSystem

/-!
# Concurrent requests through the middleware

`Middleware`, `ContextFor` and `WriteDenial` (`pep/pep.go`), for any number of requests at once. The
requests share the two atomic fields of an enforcer, the last mode seen and whether `pep_mode` is
accepted. Every load, every store and every answer of the decision point is a step, and between any
two of them other requests may change both fields.

A request is let through by the answer to its own question, because a lenient mode was reported to this
enforcer, or because none was and it fails open (`Gate.letThrough`). Under a floor of `enforce` nothing
but the answer counts (`Gate.enforced`). An answer counts if it allows and `unmetObligation` reports
nothing: the obligations are honoured then, or slip through.
-/

open GoStd

namespace Pep

/-- `ContextFor`: the address of the peer. -/
def contextFor (remoteAddr : Bytes) : Bytes :=
  match Net.splitHostPort remoteAddr with
  | some (host, _) => host
  | none => remoteAddr

/-- A response as `WriteDenial` writes it. -/
structure Refusal where
  status : ℕ
  contentType : String
  body : String
  deriving DecidableEq, Repr

/-- `WriteDenial`. -/
def writeDenial (d : Denial) : Refusal where
  status := d.status
  contentType := "application/json"
  body := "\x7b\"error\":\"" ++ d.code.text ++ "\"\x7d\n"

/-- The mode that is stored of an answer. -/
def storedMode : Answer → Option String
  | .ok d => some d.mode
  | .error d _ => reportedMode d

namespace Gate

/-- A request as the middleware sees it. -/
structure Incoming (ρ : Type) where
  ctx : Ctx
  remoteAddr : Bytes
  /-- What the `Route` makes of it: an action and a resource, or nothing to decide. -/
  route : Option (String × ρ)
  /-- What the clock says at each obligation. -/
  clock : ℕ → ℤ

variable {ρ : Type}

/-- The question that `Check` asks about a request. -/
def Incoming.question (r : Incoming ρ) (pepMode : String) : Option (DecideRequest ρ Bytes) :=
  r.route.map fun route =>
    { subject := some { token := r.ctx.rawJWT }, action := route.1, resource := route.2,
      context := contextFor r.remoteAddr, pepMode }

/-- The fields of the enforcer, and a record of the modes that came with answers. -/
structure Shared where
  state : State := {}
  reported : List String := []

inductive Phase where
  | begun
  /-- `pepModeAccepted` was loaded. -/
  | asking (sent : Bool)
  /-- The question was rejected, and it had `pep_mode`. -/
  | rejected
  | askingAgain
  | answered (a : Answer)
  /-- `decide` has returned this answer. -/
  | heard (a : Answer)
  /-- The middleware has returned: after `next`, or after a refusal. -/
  | returned (answer : Option Answer) (refusal : Option Refusal)

variable (e : Enforcer)

/-- The middleware, in steps that load or store one field or ask the decision point. -/
def advance (s : Shared) (r : Incoming ρ) (phase : Phase) (ask : DecideRequest ρ Bytes → Answer) :
    Option (Shared × Phase) :=
  match phase with
  | .begun =>
    if r.route.isNone then some (s, .returned none none)
    else if r.ctx.rawJWT = "" then
      some (s, .returned none
        (some (writeDenial { code := .unauthenticated, status := 401, decision := none })))
    else some (s, .asking (e.minimumMode ≠ .off && s.state.pepModeAccepted))
  | .asking sent =>
    (r.question (if sent then e.minimumMode.text else "")).map fun q =>
      (s, if sent && (ask q).isRejected then .rejected else .answered (ask q))
  | .rejected => some ({ s with state := { s.state with pepModeAccepted := false } }, .askingAgain)
  | .askingAgain => (r.question "").map fun q => (s, .answered (ask q))
  | .answered a => some ({ s with state := s.state.heard a }, .heard a)
  | .heard a =>
    -- `lastMode` is loaded or stored once, whichever way `check` goes
    let judged := e.judge s.state r.clock r.ctx a
    some ({ state := judged.1, reported := (storedMode a).toList ++ s.reported },
      .returned (some a) (judged.2.map writeDenial))
  | .returned _ _ => none

/-- All interleavings of requests, from a new enforcer on. -/
def system : StepSystem (CallSystem.State Shared (Incoming ρ) Phase)
    (CallSystem.Event (Incoming ρ) (DecideRequest ρ Bytes → Answer)) :=
  CallSystem.system ⟨.begun, advance e⟩ fun s => s = {}

/-! ### What lets a request through -/

/-- The decision point gives this answer to a question about the request. -/
def Asked (service : DecideRequest ρ Bytes → Answer → Prop) (r : Incoming ρ) (a : Answer) : Prop :=
  r.ctx.rawJWT ≠ "" ∧ ∃ pepMode q, r.question pepMode = some q ∧ service q a

/-- The decision allows, and `unmetObligation` reports nothing. -/
def Granted (r : Incoming ρ) (d : Decision) : Prop :=
  d.allow = true ∧ e.unmetObligation r.ctx r.clock d.obligations = ""

/-- The obligations of a decision for the request are honoured, or they slip through. -/
def HonouredOrSlipped (r : Incoming ρ) (answer : Option Answer) : Prop :=
  ∀ d, answer = some (.ok d) → Granted e r d →
    (∀ i o, d.obligations[i]? = some o → e.Honoured r.ctx (r.clock i) o) ∨
      e.SlipsThrough r.ctx r.clock d.obligations

/-- Nothing is to be decided, or the decision is for the request. -/
def Cleared (r : Incoming ρ) : Option Answer → Prop
  | none => r.route = none
  | some (.ok d) => Granted e r d
  | some (.error _ _) => False

/-- The mode does not stop the request: the one of the decision, or where there is no decision one
that was reported to this enforcer, or else the configuration. -/
def Spared (reported : List String) : Option Answer → Prop
  | none => False
  | some (.ok d) => Lenient (e.effectiveMode d.mode)
  | some (.error _ _) => ∃ known, (∀ mode ∈ known, mode ∈ reported) ∧ e.OutageProceeds known

/-- What the middleware has made of a request. -/
structure Outcome (service : DecideRequest ρ Bytes → Answer → Prop) (reported : List String)
    (r : Incoming ρ) (answer : Option Answer) (refusal : Option Refusal) : Prop where
  asked : ∀ a ∈ answer, Asked service r a
  through : refusal = none → Cleared e r answer ∨ Spared e reported answer
  cleared : Cleared e r answer → refusal = none
  refused : ∀ w ∈ refusal, w.status ∈ [401, 403, 503]

/-- What is known of a request in a phase. -/
def Holds (service : DecideRequest ρ Bytes → Answer → Prop) (reported : List String)
    (r : Incoming ρ) : Phase → Prop
  | .begun => True
  | .asking _ | .rejected | .askingAgain => r.ctx.rawJWT ≠ ""
  | .answered a | .heard a => Asked service r a
  | .returned answer refusal => Outcome e service reported r answer refusal

/-- The last mode seen came with an answer. -/
def Known (s : Shared) : Prop := ∀ mode ∈ s.state.lastMode, mode ∈ s.reported

variable {e} {service : DecideRequest ρ Bytes → Answer → Prop} {r : Incoming ρ} {phase : Phase}

theorem honouredOrSlipped (r : Incoming ρ) (answer : Option Answer) : HonouredOrSlipped e r answer := by
  intro d _ hgranted
  by_contra hnot
  obtain ⟨hhonoured, hslips⟩ := not_or.mp hnot
  exact hslips ((e.slipsThrough_iff _ _ _).mpr ⟨hgranted.2, hhonoured⟩)

theorem Spared.mono {old new : List String} (hsub : old ⊆ new) {answer : Option Answer}
    (h : Spared e old answer) : Spared e new answer := by
  rcases answer with _ | d | ⟨d, err⟩
  · exact h
  · exact h
  · obtain ⟨known, hmem, hproceeds⟩ := h
    exact ⟨known, fun mode hmode => hsub (hmem mode hmode), hproceeds⟩

theorem Holds.mono {old new : List String} (hsub : old ⊆ new) (h : Holds e service old r phase) :
    Holds e service new r phase := by
  cases phase with
  | returned answer refusal =>
    exact ⟨h.asked, fun hnone => (h.through hnone).imp_right (Spared.mono hsub), h.cleared,
      h.refused⟩
  | _ => exact h

/-- Judging an answer: what is remembered came with an answer, and so did what lets the request
through. -/
theorem judged {s : Shared} (hknown : Known s) {a : Answer} (h : Asked service r a) :
    (∀ mode ∈ (e.judge s.state r.clock r.ctx a).1.lastMode,
        mode ∈ (storedMode a).toList ++ s.reported) ∧
      Outcome e service ((storedMode a).toList ++ s.reported) r (some a)
        ((e.judge s.state r.clock r.ctx a).2.map writeDenial) := by
  have hlast : ∀ mode ∈ s.state.lastMode, mode ∈ (storedMode a).toList ++ s.reported :=
    fun mode hmode => List.mem_append_right _ (hknown mode hmode)
  have hown : ∀ mode ∈ storedMode a, mode ∈ (storedMode a).toList ++ s.reported := fun mode hmode =>
    List.mem_append_left _ (Option.mem_toList.mpr hmode)
  have hasked : ∀ a' ∈ some a, Asked service r a' := fun a' ha' => Option.some.inj ha' ▸ h
  rw [Enforcer.state_judge]
  cases a with
  | ok d =>
    have hverdict := e.verdict_eq_none_iff d
      (if d.allow then e.unmetObligation r.ctx r.clock d.obligations else "")
    refine ⟨hown, hasked, fun hnone => ?_, fun hgranted => ?_, fun w hw => ?_⟩
    · obtain ⟨hallow, hunmet⟩ | hlenient := hverdict.mp (Option.map_eq_none_iff.mp hnone)
      · rw [if_pos hallow] at hunmet
        exact .inl ⟨hallow, hunmet⟩
      · exact .inr hlenient
    · exact Option.map_eq_none_iff.mpr (hverdict.mpr (.inl ⟨hgranted.1, by
        rw [if_pos hgranted.1]; exact hgranted.2⟩))
    · obtain ⟨denial, hdenial, rfl⟩ := Option.map_eq_some_iff.mp hw
      simp only [Enforcer.judge, Enforcer.verdict] at hdenial
      split_ifs at hdenial <;> cases hdenial <;> simp [writeDenial]
  | error d err =>
    refine ⟨fun mode hmode => ?_, hasked, fun hnone => .inr ?_, False.elim, fun w hw => ?_⟩
    · exact (Option.or_eq_some_iff.mp hmode).elim (hown mode) fun h => hlast mode h.2
    · refine ⟨Enforcer.outageMode s.state d, fun mode hmode => ?_,
        (e.unavailable_eq_none_iff s.state d).mp (Option.map_eq_none_iff.mp hnone)⟩
      refine (Option.or_eq_some_iff.mp hmode).elim (hown mode) fun h => hlast mode ?_
      exact (Option.filter_eq_some_iff.mp h.2).1
    · obtain ⟨denial, hdenial, rfl⟩ := Option.map_eq_some_iff.mp hw
      simp only [Enforcer.judge, Enforcer.unavailable_eq] at hdenial
      split_ifs at hdenial <;> cases hdenial <;> simp [writeDenial]

/-- One step of a request. -/
theorem Holds.advance {s s' : Shared} {phase' : Phase} {ask : DecideRequest ρ Bytes → Answer}
    (hknown : Known s) (h : Holds e service s.reported r phase) (hask : ∀ q, service q (ask q))
    (hadv : advance e s r phase ask = some (s', phase')) :
    Known s' ∧ s.reported ⊆ s'.reported ∧ Holds e service s'.reported r phase' := by
  have hsame : s.reported ⊆ s.reported := List.Subset.refl _
  cases phase with
  | begun =>
    simp only [Gate.advance] at hadv
    split_ifs at hadv with hroute htoken
    · cases hadv
      refine ⟨hknown, hsame, Outcome.mk (fun a ha => ?_) (fun _ => .inl ?_) (fun _ => rfl) ?_⟩
      · cases ha
      · exact Option.isNone_iff_eq_none.mp hroute
      · simp
    · cases hadv
      refine ⟨hknown, hsame, Outcome.mk (fun a ha => ?_) (fun hnone => ?_) (fun hnone => ?_) ?_⟩
      · cases ha
      · cases hnone
      · exact absurd (Option.isNone_iff_eq_none.mpr hnone) hroute
      · simp [writeDenial]
    · cases hadv
      exact ⟨hknown, hsame, htoken⟩
  | asking sent =>
    obtain ⟨q, hq, heq⟩ := Option.map_eq_some_iff.mp hadv
    cases heq
    refine ⟨hknown, hsame, ?_⟩
    -- a rejected question is asked again, so its answer does not count
    split
    · exact h
    · exact ⟨h, _, q, hq, hask q⟩
  | rejected =>
    cases hadv
    exact ⟨hknown, hsame, h⟩
  | askingAgain =>
    obtain ⟨q, hq, heq⟩ := Option.map_eq_some_iff.mp hadv
    cases heq
    exact ⟨hknown, hsame, h, _, q, hq, hask q⟩
  | answered a =>
    -- `heard` stores `pepModeAccepted`, which no request is judged by
    cases hadv
    have hmode : (s.state.heard a).lastMode = s.state.lastMode := by cases a <;> rfl
    exact ⟨fun mode hm => hknown mode (hmode ▸ hm), hsame, h⟩
  | heard a =>
    cases hadv
    obtain ⟨hremembered, houtcome⟩ := judged (e := e) hknown h
    exact ⟨hremembered, List.subset_append_right _ _, houtcome⟩
  | returned answer refusal => cases hadv

/-- The invariant of a run. -/
theorem holds_run {s₀ s : CallSystem.State Shared (Incoming ρ) Phase}
    {es : List (CallSystem.Event (Incoming ρ) (DecideRequest ρ Bytes → Answer))}
    (hinit : (system e).IsInit s₀) (hrun : (system e).run s₀ es = some s)
    (hservice : ∀ c ask, .step c ask ∈ es → ∀ q, service q (ask q)) :
    Known s.shared ∧ ∀ c call, s.calls c = some call →
      Holds e service s.shared.reported call.request call.phase := by
  let I (t : CallSystem.State Shared (Incoming ρ) Phase) : Prop :=
    Known t.shared ∧ ∀ c call, t.calls c = some call →
      Holds e service t.shared.reported call.request call.phase
  refine StepSystem.run_invariant (I := I)
    (P := fun _ ev => ∀ c ask, ev = .step c ask → ∀ q, service q (ask q)) ?_
    (StepSystem.everyStep_of_forall_mem s₀ fun ev hev c ask heq => hservice c ask (by rwa [← heq]))
    hrun ?_
  · rintro t ev t' ⟨hknown, hcalls⟩ hask hstep
    obtain ⟨c, r, -, -, rfl⟩ | ⟨c, call, ask, sh, phase, rfl, hcall, hadv, rfl⟩ :=
      CallSystem.step_cases hstep
    · refine ⟨hknown, fun c' call' hc' => ?_⟩
      obtain ⟨-, rfl⟩ | ⟨-, hc'⟩ := CallSystem.of_set hc'
      · trivial
      · exact hcalls c' call' hc'
    · -- the step may add to `reported`, which the other requests only gain from
      obtain ⟨hknown', hsub, hholds⟩ :=
        (hcalls c call hcall).advance hknown (hask c ask rfl) hadv
      refine ⟨hknown', fun c' call' hc' => ?_⟩
      obtain ⟨-, rfl⟩ | ⟨-, hc'⟩ := CallSystem.of_set hc'
      · exact hholds
      · exact (hcalls c' call' hc').mono hsub
  · obtain ⟨hshared, hnone⟩ := hinit
    refine ⟨?_, fun c call hc => ?_⟩
    · rw [hshared]
      intro mode hmode
      cases hmode
    · rw [hnone] at hc
      cases hc

section Results

variable {s₀ s : CallSystem.State Shared (Incoming ρ) Phase}
  {es : List (CallSystem.Event (Incoming ρ) (DecideRequest ρ Bytes → Answer))} {c : ℕ}
  {answer : Option Answer} {refusal : Option Refusal}

theorem stricter_enforce (mode : String) : stricter .enforce mode = .enforce := by
  unfold stricter
  split
  · rfl
  next m _ => cases m <;> rfl

/-- **Under a floor of `enforce`** a request is let through exactly if there is nothing to decide or
the decision point, asked for this user, action, resource and peer, allows it with nothing reported as
unmet. What other requests bring about between its steps makes no difference. -/
theorem enforced {cfg : Config} (hnew : new cfg = .ok e) (hfloor : cfg.minimumMode = "enforce")
    (hinit : (system e).IsInit s₀) (hrun : (system e).run s₀ es = some s)
    (hservice : ∀ c ask, .step c ask ∈ es → ∀ q, service q (ask q))
    (hc : s.calls c = some ⟨r, .returned answer refusal⟩) :
    (refusal = none ↔ r.route = none ∨
        ∃ d, answer = some (.ok d) ∧ Asked service r (.ok d) ∧ Granted e r d) ∧
      HonouredOrSlipped e r answer := by
  have hmode : e.minimumMode = .enforce := minimumMode_of_new hnew hfloor
  have houtcome : Outcome e service s.shared.reported r answer refusal :=
    (holds_run hinit hrun hservice).2 c _ hc
  refine ⟨⟨?_, ?_⟩, honouredOrSlipped r answer⟩
  · intro hnone
    obtain hcleared | hspared := houtcome.through hnone
    · rcases answer with _ | d | ⟨d, err⟩
      · exact .inl hcleared
      · exact .inr ⟨d, rfl, houtcome.asked _ rfl, hcleared⟩
      · exact hcleared.elim
    · rcases answer with _ | d | ⟨d, err⟩
      · exact hspared.elim
      · exact absurd hspared (e.not_lenient_effectiveMode hmode d.mode).1
      · obtain ⟨_ | mode, -, hproceeds⟩ := hspared
        · exact absurd hmode hproceeds.1
        · exact absurd (by rw [hmode, stricter_enforce]) hproceeds
  · rintro (hroute | ⟨d, rfl, -, hgranted⟩)
    · apply houtcome.cleared
      rcases answer with _ | a
      · exact hroute
      · -- nothing is asked where nothing is to be decided
        obtain ⟨-, pepMode, q, hq, -⟩ := houtcome.asked a rfl
        rw [Incoming.question, hroute] at hq
        cases hq
    · exact houtcome.cleared hgranted

end Results

/-- A request of the user with the given token. -/
def sampleRequest (token : String) : Incoming Unit where
  ctx := { rawJWT := token }
  remoteAddr := []
  route := some ("read", ())
  clock _ := 0

def sampleDecision (allow : Bool) : Decision :=
  { allow, rule := "", reason := "", obligations := [], policyVersion := 1, mode := "off",
    pepModeAccepted := true }

/-- A decision point that allows one user to do everything, and does not ask for enforcement. -/
def sampleService (q : DecideRequest Unit Bytes) (a : Answer) : Prop :=
  a = .ok (sampleDecision (q.subject = some { token := "a" }))

/-- Two users at once. -/
def sampleEvents : List (CallSystem.Event (Incoming Unit) (DecideRequest Unit Bytes → Answer)) :=
  [.call 0 (sampleRequest "a"), .call 1 (sampleRequest "b")] ++
    [1, 0, 1, 0, 1, 1, 0, 0].map
      (.step · fun q => .ok (sampleDecision (q.subject = some { token := "a" })))

theorem service_sampleEvents :
    ∀ c ask, .step c ask ∈ sampleEvents → ∀ q, sampleService q (ask q) := by
  intro c ask hmem q
  obtain hcall | hstep := List.mem_append.mp hmem
  · simp at hcall
  · obtain ⟨k, -, heq⟩ := List.mem_map.mp hstep
    cases heq
    rfl

theorem run_sampleEvents : ∃ s,
    (system Enforcer.strict).run ⟨{}, fun _ => none⟩ sampleEvents = some s ∧
      s.calls 0 = some ⟨sampleRequest "a", .returned (some (.ok (sampleDecision true))) none⟩ ∧
      ∃ w, s.calls 1 = some ⟨sampleRequest "b",
          .returned (some (.ok (sampleDecision false))) (some w)⟩ ∧
        w.body = "\x7b\"error\":\"policy_denied\"\x7d\n" :=
  ⟨_, rfl, rfl, _, rfl, rfl⟩

theorem enforced_sample : new Enforcer.strictConfig = .ok Enforcer.strict ∧
    ¬ Granted Enforcer.strict (sampleRequest "b") (sampleDecision false) := by
  obtain ⟨s, hrun, -, w, hcall, -⟩ := run_sampleEvents
  have hnew : new Enforcer.strictConfig = .ok Enforcer.strict := rfl
  obtain ⟨hiff, -⟩ := enforced hnew rfl ⟨rfl, rfl⟩ hrun service_sampleEvents hcall
  refine ⟨rfl, fun hgranted => Option.some_ne_none w (hiff.mpr (.inr ⟨_, rfl, ?_, hgranted⟩))⟩
  exact ⟨by decide, "", _, rfl, rfl⟩

end Gate

end Pep
