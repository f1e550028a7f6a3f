import BackendKit.ToMathlib.StepSystem
import Mathlib.Logic.Function.Basic

/-!
# Concurrent calls on shared state

A program whose methods are called any number of times, at any time, and interleave at the places
where they touch what they share. A call is a number that is used once; it has a request, which it
keeps, and a phase, which says where it stands in the code. One step of a call is a function of the
shared state, its request, its phase and an input from outside (`CallSystem.advance`).

* `CallSystem.system` is the step system of all interleavings.
* `CallSystem.step_cases` says what a step is, `CallSystem.of_set` what it leaves alone.
* `CallSystem.Keeps`: what the steps of a call keep stays so, whatever the other calls do.
* `CallSystem.Later`: calls keep their requests, and those that have returned stay as they are.
* `CallSystem.Exclusive`: a lock that is held by one call at most.
-/

/-- The code of the methods: where a call begins, and its steps. -/
structure CallSystem (σ ρ φ ι : Type*) where
  begun : φ
  /-- `none` if the call is not waiting for that input, or cannot go on yet. -/
  advance : σ → ρ → φ → ι → Option (σ × φ)

namespace CallSystem

variable {σ ρ φ ι : Type*}

/-- A call and where it stands. -/
structure Call (ρ φ : Type*) where
  request : ρ
  phase : φ

/-- The shared state and the calls that were made so far. -/
structure State (σ ρ φ : Type*) where
  shared : σ
  calls : ℕ → Option (Call ρ φ)

/-- A new call, or a step of one. -/
inductive Event (ρ ι : Type*) where
  | call (c : ℕ) (request : ρ)
  | step (c : ℕ) (input : ι)

/-- Put a call where it stands now. -/
def State.set (s : State σ ρ φ) (c : ℕ) (shared : σ) (call : Call ρ φ) : State σ ρ φ :=
  ⟨shared, Function.update s.calls c (some call)⟩

variable (C : CallSystem σ ρ φ ι)

/-- Take a step. -/
def step (s : State σ ρ φ) : Event ρ ι → Option (State σ ρ φ)
  | .call c request =>
    match s.calls c with
    | none => some (s.set c s.shared ⟨request, C.begun⟩)
    | some _ => none
  | .step c input =>
    match s.calls c with
    | none => none
    | some call =>
      (C.advance s.shared call.request call.phase input).map fun r =>
        s.set c r.1 ⟨call.request, r.2⟩

/-- All interleavings, from the shared states that `init` accepts. -/
def system (init : σ → Prop) : StepSystem (State σ ρ φ) (Event ρ ι) where
  IsInit s := init s.shared ∧ s.calls = fun _ => none
  step := C.step

variable {C}

/-- A step starts a call, or takes one further. -/
theorem step_cases {s s' : State σ ρ φ} {ev : Event ρ ι} (h : C.step s ev = some s') :
    (∃ c request, ev = .call c request ∧ s.calls c = none ∧
      s' = s.set c s.shared ⟨request, C.begun⟩) ∨
    ∃ c call input shared phase, ev = .step c input ∧ s.calls c = some call ∧
      C.advance s.shared call.request call.phase input = some (shared, phase) ∧
      s' = s.set c shared ⟨call.request, phase⟩ := by
  cases ev with
  | call c request =>
    simp only [step] at h
    split at h
    · rename_i hnone
      cases h
      exact .inl ⟨c, request, rfl, hnone, rfl⟩
    · cases h
  | step c input =>
    simp only [step] at h
    split at h
    · cases h
    · rename_i call hcall
      obtain ⟨⟨shared, phase⟩, hadv, rfl⟩ := Option.map_eq_some_iff.mp h
      exact .inr ⟨c, call, input, shared, phase, rfl, hcall, hadv, rfl⟩

theorem set_self (s : State σ ρ φ) (c : ℕ) (shared : σ) (call : Call ρ φ) :
    (s.set c shared call).calls c = some call :=
  Function.update_self _ _ _

theorem set_of_ne (s : State σ ρ φ) {c c' : ℕ} (h : c' ≠ c) (shared : σ) (call : Call ρ φ) :
    (s.set c shared call).calls c' = s.calls c' :=
  Function.update_of_ne h _ _

/-- After a step of the call `c`, a call is that one or stands where it stood. -/
theorem of_set {s : State σ ρ φ} {c c' : ℕ} {shared : σ} {new call : Call ρ φ}
    (h : (s.set c shared new).calls c' = some call) :
    c' = c ∧ call = new ∨ c' ≠ c ∧ s.calls c' = some call := by
  by_cases heq : c' = c
  · subst heq
    rw [set_self, Option.some.injEq] at h
    exact .inl ⟨rfl, h.symm⟩
  · rw [set_of_ne s heq] at h
    exact .inr ⟨heq, h⟩

/-- A call in another phase than the one that was put has not moved. -/
theorem of_set_of_phase_ne {s : State σ ρ φ} {c c' : ℕ} {shared : σ} {new : Call ρ φ} {request : ρ}
    {phase : φ} (h : (s.set c shared new).calls c' = some ⟨request, phase⟩)
    (hne : phase ≠ new.phase) : s.calls c' = some ⟨request, phase⟩ := by
  obtain ⟨-, rfl⟩ | ⟨-, hold⟩ := of_set h
  · exact absurd rfl hne
  · exact hold

/-- No call has been made in the beginning. -/
theorem calls_of_isInit {init : σ → Prop} {s : State σ ρ φ} (h : (C.system init).IsInit s) (c : ℕ) :
    s.calls c = none := by
  rw [h.2]

/-! ### What stays -/

variable (C) in
/-- Once a call is in a phase of this kind, it stays in one. -/
def Keeps (P : ρ → φ → Prop) : Prop :=
  ∀ shared request phase input shared' phase',
    C.advance shared request phase input = some (shared', phase') →
      P request phase → P request phase'

theorem Keeps.step {P : ρ → φ → Prop} (hP : C.Keeps P) {s s' : State σ ρ φ} {ev : Event ρ ι}
    (h : C.step s ev = some s') {c : ℕ} {call : Call ρ φ} (hcall : s.calls c = some call)
    (hp : P call.request call.phase) :
    ∃ phase, s'.calls c = some ⟨call.request, phase⟩ ∧ P call.request phase := by
  obtain ⟨d, request, -, hnone, rfl⟩ | ⟨d, call', input, shared, phase, -, hcall', hadv, rfl⟩ :=
    step_cases h
  · -- the new call is another one
    have hne : c ≠ d := by
      rintro rfl
      cases hnone.symm.trans hcall
    exact ⟨call.phase, (set_of_ne s hne _ _).trans hcall, hp⟩
  · by_cases heq : c = d
    · subst heq
      cases hcall'.symm.trans hcall
      exact ⟨phase, set_self s c _ _, hP _ _ _ _ _ _ hadv hp⟩
    · exact ⟨call.phase, (set_of_ne s heq _ _).trans hcall, hp⟩

theorem Keeps.run {P : ρ → φ → Prop} (hP : C.Keeps P) {init : σ → Prop} {s s' : State σ ρ φ}
    {es : List (Event ρ ι)} (h : (C.system init).run s es = some s') {c : ℕ} {call : Call ρ φ}
    (hcall : s.calls c = some call) (hp : P call.request call.phase) :
    ∃ phase, s'.calls c = some ⟨call.request, phase⟩ ∧ P call.request phase := by
  refine StepSystem.run_invariant'
    (I := fun s => ∃ phase, s.calls c = some ⟨call.request, phase⟩ ∧ P call.request phase)
    ?_ h ⟨call.phase, hcall, hp⟩
  rintro t ev t' ⟨phase, hphase, hp'⟩ hstep
  obtain ⟨phase', hphase', hkept⟩ := hP.step hstep hphase hp'
  exact ⟨phase', hphase', hkept⟩

variable (C) in
/-- A call in this phase has returned. -/
def IsFinal (phase : φ) : Prop := ∀ shared request input, C.advance shared request phase input = none

variable (C) in
/-- A call that was made stays what it is, and one that has returned stays so. -/
structure Later (s s' : State σ ρ φ) : Prop where
  request : ∀ c call, s.calls c = some call → ∃ phase, s'.calls c = some ⟨call.request, phase⟩
  final : ∀ c call, s.calls c = some call → C.IsFinal call.phase → s'.calls c = some call

theorem Later.refl (s : State σ ρ φ) : C.Later s s :=
  ⟨fun _ call h => ⟨call.phase, h⟩, fun _ _ h _ => h⟩

theorem Later.trans {s s' s'' : State σ ρ φ} (h : C.Later s s') (h' : C.Later s' s'') :
    C.Later s s'' := by
  refine ⟨fun c call hc => ?_, fun c call hc hfinal => ?_⟩
  · obtain ⟨phase, hphase⟩ := h.request c call hc
    exact h'.request c ⟨call.request, phase⟩ hphase
  · exact h'.final c call (h.final c call hc hfinal) hfinal

theorem later_step {s s' : State σ ρ φ} {ev : Event ρ ι} (h : C.step s ev = some s') :
    C.Later s s' := by
  refine ⟨fun c call hc => ?_, fun c call hc hfinal => ?_⟩
  · have hkeeps : C.Keeps fun _ _ => True := fun _ _ _ _ _ _ _ _ => trivial
    obtain ⟨phase, hphase, -⟩ := hkeeps.step h hc trivial
    exact ⟨phase, hphase⟩
  · -- a call that has returned takes no step
    have hkeeps : C.Keeps fun _ phase => phase = call.phase := by
      intro shared request phase input shared' phase' hadv heq
      rw [heq, hfinal] at hadv
      cases hadv
    obtain ⟨phase, hphase, rfl⟩ := hkeeps.step h hc rfl
    exact hphase

theorem later_run {init : σ → Prop} {s s' : State σ ρ φ} {es : List (Event ρ ι)}
    (h : (C.system init).run s es = some s') : C.Later s s' :=
  StepSystem.run_relation Later.refl (fun _ _ _ => Later.trans) (fun _ _ _ => later_step) h

/-! ### A lock -/

/-- The lock is taken while a call holds it, and one call at most does. -/
structure Exclusive (holds : φ → Bool) (locked : σ → Bool) (s : State σ ρ φ) : Prop where
  locked : ∀ c call, s.calls c = some call → holds call.phase = true → locked s.shared = true
  lone : ∀ c c' call call', s.calls c = some call → s.calls c' = some call' →
    holds call.phase = true → holds call'.phase = true → c = c'

/-- A step takes the free lock, keeps what it has, or gives it back. -/
def Locks (holds : φ → Bool) (locked : σ → Bool) (shared shared' : σ) (phase phase' : φ) : Prop :=
  (locked shared = false ∧ locked shared' = true ∧ holds phase' = true) ∨
    (locked shared' = locked shared ∧ holds phase' = holds phase) ∨
    (holds phase = true ∧ holds phase' = false)

variable {holds : φ → Bool} {locked : σ → Bool}

theorem exclusive_of_isInit {init : σ → Prop} {s : State σ ρ φ} (h : (C.system init).IsInit s) :
    Exclusive holds locked s := by
  have hnone : ∀ c call, s.calls c ≠ some call := by
    intro c call hc
    rw [calls_of_isInit h] at hc
    cases hc
  exact ⟨fun c call hc => absurd hc (hnone c call), fun c _ call _ hc => absurd hc (hnone c call)⟩

theorem Exclusive.call {s : State σ ρ φ} (h : Exclusive holds locked s)
    (hbegun : holds C.begun = false) (c : ℕ) (request : ρ) :
    Exclusive holds locked (s.set c s.shared ⟨request, C.begun⟩) := by
  -- a call that holds the lock is an older one
  have hold : ∀ c' call', (s.set c s.shared ⟨request, C.begun⟩).calls c' = some call' →
      holds call'.phase = true → s.calls c' = some call' := by
    intro c' call' hc' hlock
    obtain ⟨-, rfl⟩ | ⟨-, hold⟩ := of_set hc'
    · rw [hbegun] at hlock
      cases hlock
    · exact hold
  exact ⟨fun c' call' hc' hlock => h.locked c' call' (hold c' call' hc' hlock) hlock,
    fun c₁ c₂ call₁ call₂ h₁ h₂ hl₁ hl₂ =>
      h.lone c₁ c₂ call₁ call₂ (hold c₁ call₁ h₁ hl₁) (hold c₂ call₂ h₂ hl₂) hl₁ hl₂⟩

theorem Exclusive.advance {s : State σ ρ φ} (h : Exclusive holds locked s) {c : ℕ}
    {call : Call ρ φ} {shared : σ} {phase : φ} (hcall : s.calls c = some call)
    (hlocks : Locks holds locked s.shared shared call.phase phase) :
    Exclusive holds locked (s.set c shared ⟨call.request, phase⟩) := by
  -- another call that holds the lock keeps this one from taking it or giving it back
  have hother : ∀ c' call', c' ≠ c → s.calls c' = some call' → holds call'.phase = true →
      locked shared = locked s.shared ∧ holds phase = holds call.phase := by
    intro c' call' hne hc' hlock
    obtain ⟨hfree, -⟩ | hkeep | ⟨hmine, -⟩ := hlocks
    · rw [h.locked c' call' hc' hlock] at hfree
      cases hfree
    · exact hkeep
    · exact absurd (h.lone c' c call' call hc' hcall hlock hmine) hne
  refine ⟨fun c' call' hc' hlock => ?_, fun c₁ c₂ call₁ call₂ h₁ h₂ hl₁ hl₂ => ?_⟩
  · obtain ⟨-, rfl⟩ | ⟨hne, hold⟩ := of_set hc'
    · obtain ⟨-, htaken, -⟩ | ⟨hsame, hholds⟩ | ⟨-, hfree⟩ := hlocks
      · exact htaken
      · rw [hholds] at hlock
        exact hsame.trans (h.locked c call hcall hlock)
      · rw [hfree] at hlock
        cases hlock
    · exact (hother c' call' hne hold hlock).1.trans (h.locked c' call' hold hlock)
  · obtain ⟨rfl, rfl⟩ | ⟨hne₁, hold₁⟩ := of_set h₁
    · obtain ⟨rfl, -⟩ | ⟨hne₂, hold₂⟩ := of_set h₂
      · rfl
      · rw [(hother c₂ call₂ hne₂ hold₂ hl₂).2] at hl₁
        exact h.lone c₁ c₂ call call₂ hcall hold₂ hl₁ hl₂
    · obtain ⟨rfl, rfl⟩ | ⟨-, hold₂⟩ := of_set h₂
      · rw [(hother c₁ call₁ hne₁ hold₁ hl₁).2] at hl₂
        exact h.lone c₁ c₂ call₁ call hold₁ hcall hl₁ hl₂
      · exact h.lone c₁ c₂ call₁ call₂ hold₁ hold₂ hl₁ hl₂

end CallSystem
