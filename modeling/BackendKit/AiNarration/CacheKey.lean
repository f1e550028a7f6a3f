import BackendKit.AiNarration.Lru
import BackendKit.GoStd.Net
import BackendKit.GoStd.Sha256

/-!
# Cache keys

`CacheKey` (`ainarration/cache.go`) joins a feature type, a role and the digest of a context by colons.
The digest has a fixed width, but a feature type and a role may have colons of their own, and are not
escaped.

* `append_cons_inj_iff`: two pairs that are joined by a separator are the same text just if they are the
  same pair, or a part of the one text can be read on either side of the separator (`Overlap`).
* `State.serves_iff`: the cache returns a narration that was stored under one key for another key just if
  the keys are equal, over all interleavings.
* `keptApart_iff`: so narrations are kept apart just if there is no such overlap. Feature types without
  colons are enough, and so are roles without them (`Subject.not_confused`).
-/

open GoStd

namespace AiNarration

/-! ### Pairs with a separator -/

section Joined

variable {α : Type*} {x : α} {f₁ r₁ f₂ r₂ : List α}

/-- The pairs differ in where the middle of one text belongs: to the first component of one of them, and
to the second component of the other. -/
def Overlap (x : α) (f₁ r₁ f₂ r₂ : List α) : Prop :=
  ∃ m, (f₁ = f₂ ++ x :: m ∧ r₂ = m ++ x :: r₁) ∨ (f₂ = f₁ ++ x :: m ∧ r₁ = m ++ x :: r₂)

theorem Overlap.ne (h : Overlap x f₁ r₁ f₂ r₂) : f₁ ≠ f₂ := by
  obtain ⟨m, ⟨rfl, -⟩ | ⟨rfl, -⟩⟩ := h
  · simp
  · simp

theorem Overlap.append_cons_eq (h : Overlap x f₁ r₁ f₂ r₂) : f₁ ++ x :: r₁ = f₂ ++ x :: r₂ := by
  obtain ⟨m, ⟨rfl, rfl⟩ | ⟨rfl, rfl⟩⟩ := h
  · simp
  · simp

/-- A separator that neither first component has is found in one place only. -/
theorem not_overlap_of_not_mem_left (h₁ : x ∉ f₁) (h₂ : x ∉ f₂) : ¬ Overlap x f₁ r₁ f₂ r₂ := by
  rintro ⟨m, ⟨rfl, -⟩ | ⟨rfl, -⟩⟩
  · exact h₁ (by simp)
  · exact h₂ (by simp)

theorem not_overlap_of_not_mem_right (h₁ : x ∉ r₁) (h₂ : x ∉ r₂) : ¬ Overlap x f₁ r₁ f₂ r₂ := by
  rintro ⟨m, ⟨-, rfl⟩ | ⟨-, rfl⟩⟩
  · exact h₂ (by simp)
  · exact h₁ (by simp)

theorem append_cons_inj_iff :
    f₁ ++ x :: r₁ = f₂ ++ x :: r₂ ↔ (f₁ = f₂ ∧ r₁ = r₂) ∨ Overlap x f₁ r₁ f₂ r₂ := by
  constructor
  · intro h
    rcases List.append_eq_append_iff.mp h with ⟨m, hf, hr⟩ | ⟨m, hf, hr⟩
    -- `m` is what the longer first component has more: nothing, or a separator and the overlap
    · rcases m with _ | ⟨y, m⟩
      · rw [List.append_nil] at hf
        exact .inl ⟨hf.symm, (List.cons.inj hr).2⟩
      · obtain ⟨rfl, hm⟩ := List.cons.inj hr
        exact .inr ⟨m, Or.inr ⟨hf, hm⟩⟩
    · rcases m with _ | ⟨y, m⟩
      · rw [List.append_nil] at hf
        exact .inl ⟨hf, (List.cons.inj hr).2.symm⟩
      · obtain ⟨rfl, hm⟩ := List.cons.inj hr
        exact .inr ⟨m, Or.inl ⟨hf, hm⟩⟩
  · rintro (⟨rfl, rfl⟩ | h)
    · rfl
    · exact h.append_cons_eq

end Joined

/-! ### The key -/

def colon : UInt8 := 0x3a

/-- `hex.EncodeToString`. -/
def encodeToString (bytes : Bytes) : Bytes := bytes.flatMap hexByte

theorem length_encodeToString (bytes : Bytes) : (encodeToString bytes).length = 2 * bytes.length := by
  simp [encodeToString, List.length_flatMap, hexByte, Nat.mul_comm]

/-- The first 16 hexadecimal digits of the digest. -/
def digest (b : Bytes) : Bytes := (encodeToString (Sha256.sum256 b)).take 16

theorem length_digest (b : Bytes) : (digest b).length = 16 := by
  simp [digest, length_encodeToString]

/-- What stands for an empty feature type or role. -/
def orUnknown (s : Bytes) : Bytes := if s = [] then ascii "unknown" else s

theorem colon_not_mem_orUnknown {s : Bytes} (h : colon ∉ s) : colon ∉ orUnknown s := by
  unfold orUnknown
  split
  · decide
  · exact h

/-- `CacheKey`; `marshal` is `json.Marshal` and `now` the clock in nanoseconds. -/
def cacheKey {γ : Type*} (marshal : γ → Option Bytes) (now : Int64) (featureType role : Bytes)
    (ctx : γ) : Bytes :=
  match marshal ctx with
  -- a key that is not asked for again
  | none => ascii "err:uncacheable:" ++ ascii (toString now.toInt)
  | some b => orUnknown featureType ++ colon :: (orUnknown role ++ colon :: digest b)

/-- The key as the map has it, with one character for each byte. -/
def keyText (key : Bytes) : String := String.ofList (key.map Char.ofUInt8)

theorem keyText_injective : Function.Injective keyText := by
  intro key₁ key₂ h
  have hbyte : Function.Injective Char.ofUInt8 := by
    intro b₁ b₂ hchar
    have hnat : b₁.toNat = b₂.toNat := congrArg Char.toNat hchar
    exact UInt8.toNat_inj.mp hnat
  exact List.map_injective_iff.mpr hbyte (String.ofList_injective h)

/-- Two contexts, both of which can be serialised, have the same key just if their digests are equal and
the feature types and roles are, or overlap. -/
theorem cacheKey_eq_iff {γ : Type*} {marshal : γ → Option Bytes} {c₁ c₂ : γ} {b₁ b₂ : Bytes}
    (h₁ : marshal c₁ = some b₁) (h₂ : marshal c₂ = some b₂) (now₁ now₂ : Int64) (f₁ r₁ f₂ r₂ : Bytes) :
    cacheKey marshal now₁ f₁ r₁ c₁ = cacheKey marshal now₂ f₂ r₂ c₂ ↔
      digest b₁ = digest b₂ ∧ ((orUnknown f₁ = orUnknown f₂ ∧ orUnknown r₁ = orUnknown r₂) ∨
        Overlap colon (orUnknown f₁) (orUnknown r₁) (orUnknown f₂) (orUnknown r₂)) := by
  have hkey : ∀ f r b, orUnknown f ++ colon :: (orUnknown r ++ colon :: digest b) =
      (orUnknown f ++ colon :: orUnknown r) ++ colon :: digest b := fun f r b => by simp
  simp only [cacheKey, h₁, h₂, hkey]
  rw [← append_cons_inj_iff]
  constructor
  · intro h
    -- the digests have the same length, so the last colon is in the same place
    obtain ⟨hnames, hdigest⟩ := List.append_inj' h (by simp [length_digest])
    exact ⟨(List.cons.inj hdigest).2, hnames⟩
  · rintro ⟨hdigest, hnames⟩
    rw [hnames, hdigest]

/-! ### What is served -/

namespace NarrationCache

variable {α : Type}

/-- A narration that is stored under `key₁` and under no other key can be returned for `key₂`, whatever
else is stored and however the calls are interleaved. -/
def Serves (cfg : CacheConfig) (output : α) (key₁ key₂ : String) : Prop :=
  ∃ s₀ es s ev s' reading, (system α cfg).IsInit s₀ ∧
    (∀ e ∈ es, ∀ k, e.action = .put k output → k = key₁) ∧
    (system α cfg).run s₀ es = some s ∧ s.step ev = some s' ∧
    s.completed ev = some (.get key₂ reading (some output))

namespace State

variable {cfg : CacheConfig} {output : α} {key : String} {s s' : State α} {ev : Event α}

/-- The narration is stored, and in the hands of a `Get`, under the key only. -/
structure OnlyUnder (output : α) (key : String) (s : State α) : Prop where
  stored : ∀ k e, s.cache.entries.lookup k = some e → e.output = output → k = key
  found : ∀ g c, s.gets g = some c → c.found.2.output = output → c.found.1 = key

theorem onlyUnder_of_isInit (h : (system α cfg).IsInit s) : s.OnlyUnder output key := by
  obtain ⟨hcache, hgets, -⟩ := h
  refine ⟨fun k e he => ?_, fun g c hg => ?_⟩
  · rw [hcache] at he
    cases he
  · rw [hgets] at hg
    cases hg

/-- The entries after a `Put` are its own and some of those before. -/
theorem OnlyUnder.stored_put (h : s.OnlyUnder output key) (hwf : s.WF cfg) {k' : String} {output' : α}
    (hput : output' = output → k' = key) (now : ℤ) (k : String) (e : CacheEntry α)
    (he : (s.cache.put k' output' now).entries.lookup k = some e) (hout : e.output = output) :
    k = key := by
  by_cases heq : k = k'
  · subst heq
    rw [lookup_put_self] at he
    cases he
    exact hput hout
  · rcases hwf.cache.lookup_put_of_ne heq output' now with hkept | hgone
    · exact h.stored k e (hkept.symm.trans he) hout
    · rw [hgone] at he
      cases he

theorem OnlyUnder.step (h : s.OnlyUnder output key) (hwf : s.WF cfg)
    (hput : ∀ k, ev.action = .put k output → k = key) (hstep : s.step ev = some s') :
    s'.OnlyUnder output key := by
  obtain ⟨-, -, htakes⟩ := takes_of_step hstep
  obtain ⟨now, action⟩ := ev
  -- a call that the step is not of has in hand what it had
  have hfound : ∀ g c, (∀ c', c = some c' → c'.found.2.output = output → c'.found.1 = key) →
      ∀ g' c', Function.update s.gets g c g' = some c' → c'.found.2.output = output →
        c'.found.1 = key := fun g c hc =>
    (Function.forall_update_iff s.gets fun _ c =>
      ∀ c', c = some c' → c'.found.2.output = output → c'.found.1 = key).mpr
      ⟨hc, fun g' _ => h.found g'⟩
  have hnone : ∀ c' : GetCall α, none = some c' → c'.found.2.output = output → c'.found.1 = key := by
    intro c' hc'
    cases hc'
  cases htakes with
  | lookup g k hidle =>
    refine ⟨h.stored, hfound g _ fun c' hc' hout => ?_⟩
    obtain ⟨e, he, rfl⟩ := Option.map_eq_some_iff.mp hc'
    exact h.stored k e he hout
  | judge g k e hg =>
    refine ⟨h.stored, hfound g _ fun c' hc' hout => ?_⟩
    cases hc'
    exact h.found g (.looked k e) hg hout
  | expire g k e t hg hexp =>
    refine ⟨fun k' e' he' hout => ?_, hfound g none hnone⟩
    by_cases heq : k' = k
    · subst heq
      cases (AList.lookup_erase k' _).symm.trans he'
    · exact h.stored k' e' ((AList.lookup_erase_ne heq).symm.trans he') hout
  | promote g k e t hg hexp => exact ⟨h.stored, hfound g none hnone⟩
  | put k output' =>
    exact ⟨h.stored_put hwf (fun heq => hput k (by rw [heq])) now, h.found⟩
  | flush =>
    refine ⟨fun k e he => ?_, h.found⟩
    cases he

/-- A `Get` that returns a narration has judged an entry with it. -/
theorem judged_of_completed {reading : ℤ}
    (h : s.completed ev = some (.get key reading (some output))) :
    ∃ g e, s.gets g = some (.judged key e reading) ∧ e.output = output := by
  obtain ⟨now, action⟩ := ev
  cases action with
  | getLookup g k =>
    simp only [completed] at h
    split at h <;> cases h
  | getJudge g => cases h
  | getFinish g =>
    simp only [completed] at h
    split at h
    · rename_i k e t hg
      split at h
      · cases h
      · cases h
        exact ⟨g, e, hg, rfl⟩
    · cases h
  | put k output' => cases h
  | flush => cases h

end State

/-- A `Put` and a `Get` of the same key, at one instant. -/
theorem serves_self (cfg : CacheConfig) (output : α) (key : String) : Serves cfg output key key := by
  let start : State α := ⟨0, new cfg, fun _ => none⟩
  let stored : NarrationCache α := (new cfg).put key output 0
  let entry : CacheEntry α := ⟨output, 0⟩
  have hlookup : stored.entries.lookup key = some entry := lookup_put_self (new cfg) key output 0
  have hfresh : stored.expired entry 0 = false := by
    have hpos := cfg.ttl_pos
    have hcfg : stored.cfg = cfg.withDefaults := cfg_put (new cfg) key output 0
    unfold NarrationCache.expired
    rw [hcfg, Time.sub_self, decide_eq_false_iff_not]
    omega
  refine ⟨start, [⟨0, .put key output⟩, ⟨0, .getLookup 0 key⟩, ⟨0, .getJudge 0⟩],
    ⟨0, stored, Function.update (Function.update (fun _ => none) 0 (some (.looked key entry))) 0
      (some (.judged key entry 0))⟩, ⟨0, .getFinish 0⟩, _, 0, ⟨rfl, rfl, le_refl 0⟩, ?_, ?_, rfl, ?_⟩
  · simp
  · have hclock : (0 : ℤ) ≤ 0 ∧ (0 : ℤ) ≤ Duration.maxValue := by decide
    simp [StepSystem.run, system, State.step, State.perform, hclock, start, stored, hlookup]
  · simp [State.completed, hfresh, entry]

theorem serves_iff {cfg : CacheConfig} {output : α} {key₁ key₂ : String} :
    Serves cfg output key₁ key₂ ↔ key₁ = key₂ := by
  constructor
  · rintro ⟨s₀, es, s, ev, s', reading, hinit, hputs, hrun, -, hcompleted⟩
    have hinv : s.WF cfg ∧ s.OnlyUnder output key₁ := by
      refine StepSystem.run_invariant (M := system α cfg)
        (P := fun _ e => ∀ k, e.action = .put k output → k = key₁)
        (I := fun s => s.WF cfg ∧ s.OnlyUnder output key₁) ?_
        (StepSystem.everyStep_of_forall_mem s₀ hputs) hrun
        ⟨State.wf_of_isInit hinit, State.onlyUnder_of_isInit hinit⟩
      intro s e s' hs hput hstep
      exact ⟨hs.1.step hstep, hs.2.step hs.1 hput hstep⟩
    obtain ⟨g, e, hg, hout⟩ := State.judged_of_completed hcompleted
    exact (hinv.2.found g _ hg hout).symm
  · rintro rfl
    exact serves_self cfg output key₁

end NarrationCache

/-! ### Keeping narrations apart -/

/-- What a narration is asked for. -/
structure Subject (γ : Type) where
  featureType : Bytes
  role : Bytes
  ctx : γ

section KeptApart

variable {α γ : Type} (marshal : γ → Option Bytes)

namespace Subject

/-- The key of the subject; the clock counts only if the context cannot be serialised. -/
def key (now : Int64) (n : Subject γ) : Bytes := cacheKey marshal now n.featureType n.role n.ctx

/-- The subjects have one feature type, one role and one serialisation. -/
def Same (n₁ n₂ : Subject γ) : Prop :=
  orUnknown n₁.featureType = orUnknown n₂.featureType ∧ orUnknown n₁.role = orUnknown n₂.role ∧
    marshal n₁.ctx = marshal n₂.ctx

/-- The subjects have one serialisation, and the same text for the feature type and the role together,
with the colon between them in different places. -/
def Confused (n₁ n₂ : Subject γ) : Prop :=
  marshal n₁.ctx = marshal n₂.ctx ∧
    Overlap colon (orUnknown n₁.featureType) (orUnknown n₁.role) (orUnknown n₂.featureType)
      (orUnknown n₂.role)

/-- Colons on one side of the join only are not confused with it. -/
theorem not_confused {n₁ n₂ : Subject γ}
    (h : (colon ∉ n₁.featureType ∧ colon ∉ n₂.featureType) ∨ (colon ∉ n₁.role ∧ colon ∉ n₂.role)) :
    ¬ n₁.Confused marshal n₂ := by
  rintro ⟨-, hoverlap⟩
  rcases h with ⟨h₁, h₂⟩ | ⟨h₁, h₂⟩
  · exact not_overlap_of_not_mem_left (colon_not_mem_orUnknown h₁) (colon_not_mem_orUnknown h₂) hoverlap
  · exact not_overlap_of_not_mem_right (colon_not_mem_orUnknown h₁) (colon_not_mem_orUnknown h₂) hoverlap

/-- Only subjects that are the same have the same key, and the cache does not return what was stored for
the one when it is asked for the other. -/
def KeptApart (cfg : CacheConfig) (output : α) (now₁ now₂ : Int64) (n₁ n₂ : Subject γ) : Prop :=
  (n₁.key marshal now₁ = n₂.key marshal now₂ → n₁.Same marshal n₂) ∧
    (NarrationCache.Serves cfg output (keyText (n₁.key marshal now₁)) (keyText (n₂.key marshal now₂)) →
      n₁.Same marshal n₂)

end Subject

/-- Narrations are kept apart unless their subjects are confused. The digest is assumed to tell the two
serialisations apart. -/
theorem keptApart_iff (cfg : CacheConfig) (output : α) (now₁ now₂ : Int64) {n₁ n₂ : Subject γ}
    {b₁ b₂ : Bytes} (h₁ : marshal n₁.ctx = some b₁) (h₂ : marshal n₂.ctx = some b₂)
    (hdigest : digest b₁ = digest b₂ → b₁ = b₂) :
    Subject.KeptApart marshal cfg output now₁ now₂ n₁ n₂ ↔ ¬ n₁.Confused marshal n₂ := by
  have hkey := cacheKey_eq_iff h₁ h₂ now₁ now₂ n₁.featureType n₁.role n₂.featureType n₂.role
  have hcontext : marshal n₁.ctx = marshal n₂.ctx ↔ b₁ = b₂ := by rw [h₁, h₂, Option.some.injEq]
  unfold Subject.KeptApart
  -- what is served is a matter of the keys
  rw [NarrationCache.serves_iff, keyText_injective.eq_iff, and_self]
  constructor
  · rintro hapart ⟨hsame, hoverlap⟩
    have heq : n₁.key marshal now₁ = n₂.key marshal now₂ :=
      hkey.mpr ⟨congrArg digest (hcontext.mp hsame), Or.inr hoverlap⟩
    exact hoverlap.ne (hapart heq).1
  · intro hclear heq
    obtain ⟨hd, ⟨hf, hr⟩ | hoverlap⟩ := hkey.mp heq
    · exact ⟨hf, hr, hcontext.mpr (hdigest hd)⟩
    · exact absurd ⟨hcontext.mpr (hdigest hd), hoverlap⟩ hclear

end KeptApart

section Example

/-- A context that is `nil`. -/
def marshalNil (_ : Unit) : Option Bytes := some (ascii "null")

/-- The feature types have no colons, and so the colon in a role does no harm. -/
theorem keptApart_plan :
    Subject.KeptApart marshalNil ⟨0, 0⟩ "Your plan performs well." 0 0
      ⟨ascii "plan", ascii "eu:viewer", ()⟩ ⟨ascii "plan_narration", ascii "viewer", ()⟩ :=
  (keptApart_iff marshalNil _ _ _ _ rfl rfl fun _ => rfl).mpr
    (Subject.not_confused marshalNil (.inl (by decide)))

/-- The role `viewer` of the feature `plan:eu` is served what was stored for the role `eu:viewer` of the
feature `plan`. -/
theorem not_keptApart_plan : let n₁ : Subject Unit := ⟨ascii "plan", ascii "eu:viewer", ()⟩
    let n₂ : Subject Unit := ⟨ascii "plan:eu", ascii "viewer", ()⟩
    NarrationCache.Serves ⟨0, 0⟩ "Your plan performs well." (keyText (n₁.key marshalNil 0))
        (keyText (n₂.key marshalNil 0)) ∧
      ¬ n₁.Same marshalNil n₂ ∧
      ¬ Subject.KeptApart marshalNil ⟨0, 0⟩ "Your plan performs well." 0 0 n₁ n₂ := by
  intro n₁ n₂
  have hkey : n₁.key marshalNil 0 = n₂.key marshalNil 0 := by decide +kernel
  have hdiffer : ¬ n₁.Same marshalNil n₂ := fun hsame => absurd hsame.1 (by decide)
  refine ⟨NarrationCache.serves_iff.mpr (by rw [hkey]), hdiffer, fun hapart => ?_⟩
  exact hdiffer (hapart.1 hkey)

end Example

end AiNarration
