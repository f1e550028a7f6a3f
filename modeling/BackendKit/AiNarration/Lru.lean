import BackendKit.AiNarration.Cache
import BackendKit.ToMathlib.History

/-!
# The narration cache is a bounded LRU cache

What the cache is for, in terms of the calls that were completed and not of its data structures: a
history of calls conforms (`Conforms`) if every `Get` returned what the last `Put` of its key stored,
unless that is too old, evicted or flushed, and if every `Put` evicted the keys that had been used
least recently.

`Reflects` ties the map and the list of the cache to the history. It is kept by every step of a run
whose calls do not overlap, and so every such run has a conforming history
(`lru_of_recorded`). The bound on the list and its agreement with the map need no such assumption.
-/

open GoStd
open Function (update update_of_ne update_self)
open AList (lookup_eq_none lookup_erase_ne lookup_insert_ne mem_keys)

namespace AiNarration

namespace NarrationCache

open History StepSystem

/-- A call that has returned. -/
inductive Call (α : Type) where
  /-- `Get`, with the clock reading it goes by and what it returned. -/
  | get (key : String) (reading : ℤ) (result : Option α)
  /-- `Put`, with the keys that were stored before, and those of them that it evicted. -/
  | put (key : String) (output : α) (createdAt : ℤ) (stored evicted : List String)
  | flush

variable {α : Type}

/-- The call is a `Put` or a successful `Get` of the key. -/
def uses (key : String) : Call α → Bool
  | .get k _ result => k = key && result.isSome
  | .put k _ _ _ _ => k = key
  | .flush => false

/-- After the call, an earlier `Put` of the key is no longer what counts. -/
def drops (key : String) : Call α → Bool
  | .get _ _ _ => false
  | .put k _ _ _ evicted => k = key || evicted.contains key
  | .flush => true

/-- The last `Put` of the key since the last `Flush` stored `output` at `t`, and the key has not
been evicted since. -/
def Stored (h : List (Call α)) (key : String) (output : α) (t : ℤ) : Prop :=
  ∃ newer older stored evicted, h = newer ++ .put key output t stored evicted :: older ∧
    ∀ c ∈ newer, drops key c = false

/-- The call is as it should be after the history `h`. -/
def Conforms (ttl : ℤ) (h : List (Call α)) : Call α → Prop
  | .get key reading result =>
    ∀ output, result = some output ↔ ∃ t, Stored h key output t ∧ reading - t ≤ ttl
  | .put _ _ _ stored evicted =>
    ∀ k ∈ evicted, k ∈ stored ∧
      ∀ k' ∈ stored, k' ≠ k → lastIndex (uses k) h < lastIndex (uses k') h
  | .flush => True

/-- Every call of a history is as it should be. -/
def LRU (ttl : ℤ) : List (Call α) → Prop
  | [] => True
  | c :: h => Conforms ttl h c ∧ LRU ttl h

/-! ### What the history says is stored -/

theorem not_stored_nil (key : String) (output : α) (t : ℤ) : ¬ Stored [] key output t := by
  rintro ⟨newer, older, stored, evicted, h, -⟩
  cases newer <;> cases h

theorem stored_put (h : List (Call α)) (key : String) (output : α) (t : ℤ)
    (stored evicted : List String) : Stored (.put key output t stored evicted :: h) key output t :=
  ⟨[], h, stored, evicted, rfl, by simp⟩

theorem Stored.cons {h : List (Call α)} {key : String} {output : α} {t : ℤ}
    (hs : Stored h key output t) {c : Call α} (hc : drops key c = false) :
    Stored (c :: h) key output t := by
  obtain ⟨newer, older, stored, evicted, rfl, hnewer⟩ := hs
  refine ⟨c :: newer, older, stored, evicted, rfl, fun c' hc' => ?_⟩
  rcases List.mem_cons.mp hc' with rfl | hmem
  · exact hc
  · exact hnewer c' hmem

variable {output : α} {t : ℤ} {h : List (Call α)}

/-- What is stored after a call is what it stored itself, or was stored before and not dropped. -/
theorem Stored.of_cons {key : String} {c : Call α} (hs : Stored (c :: h) key output t) :
    (∃ stored evicted, c = .put key output t stored evicted) ∨
      drops key c = false ∧ Stored h key output t := by
  obtain ⟨newer, older, stored, evicted, heq, hnewer⟩ := hs
  cases newer with
  | nil =>
    obtain ⟨hc, -⟩ := List.cons.inj heq
    exact .inl ⟨stored, evicted, hc⟩
  | cons c' newer =>
    obtain ⟨rfl, hh⟩ := List.cons.inj heq
    refine .inr ⟨hnewer c (by simp), newer, older, stored, evicted, hh, fun c' hc' => ?_⟩
    exact hnewer c' (List.mem_cons_of_mem _ hc')

/-- There is one last `Put`. -/
theorem Stored.unique {key : String} {output' : α} {t' : ℤ} (hs : Stored h key output t)
    (hs' : Stored h key output' t') : output = output' ∧ t = t' := by
  induction h with
  | nil => exact absurd hs (not_stored_nil key output t)
  | cons c h ih =>
    -- a `Put` of the key counts as dropping it, so both are the first call or neither is
    rcases hs.of_cons with ⟨st, ev, rfl⟩ | ⟨hdrop, hold⟩
    · rcases hs'.of_cons with ⟨st', ev', heq⟩ | ⟨hdrop', -⟩
      · cases heq
        exact ⟨rfl, rfl⟩
      · simp [drops] at hdrop'
    · rcases hs'.of_cons with ⟨st', ev', rfl⟩ | ⟨-, hold'⟩
      · simp [drops] at hdrop
      · exact ih hold hold'

theorem stored_get_cons {k key : String} {reading : ℤ} {result : Option α} :
    Stored (.get k reading result :: h) key output t ↔ Stored h key output t := by
  refine ⟨fun hs => ?_, fun hs => hs.cons rfl⟩
  rcases hs.of_cons with ⟨_, _, heq⟩ | ⟨-, hold⟩
  · cases heq
  · exact hold

/-! ### Calls that are completed by a step -/

namespace State

/-- The stored keys that a `Put` takes out of the map. -/
def evictedBy (s : State α) (key : String) (output : α) (now : ℤ) : List String :=
  s.cache.entries.keys.filter fun k => ((s.cache.put key output now).entries.lookup k).isNone

/-- The call that returns with the step. -/
def completed (s : State α) (e : Event α) : Option (Call α) :=
  match e.action with
  | .getLookup _ key =>
    match s.cache.entries.lookup key with
    | none => some (.get key e.now none)
    | some _ => none
  | .getJudge _ => none
  | .getFinish g =>
    match s.gets g with
    | some (.judged key entry t) =>
      some (.get key t (if s.cache.expired entry t then none else some entry.output))
    | _ => none
  | .put key output =>
    some (.put key output e.now s.cache.entries.keys (s.evictedBy key output e.now))
  | .flush => some .flush

/-- A call starts only when no other is in progress. -/
def Alone (s : State α) (e : Event α) : Prop :=
  match e.action with
  | .getJudge _ | .getFinish _ => True
  | _ => ∀ g, s.gets g = none

end State

/-! ### The cache and the history -/

theorem lookup_put_self (c : NarrationCache α) (key : String) (output : α) (now : ℤ) :
    (c.put key output now).entries.lookup key = some ⟨output, now⟩ := by
  unfold NarrationCache.put
  split <;> exact AList.lookup_insert _

theorem WF.mem_order_of_lookup {c : NarrationCache α} (hwf : c.WF) {key : String} {e : CacheEntry α}
    (h : c.entries.lookup key = some e) : key ∈ c.order := by
  rw [hwf.mem_order, ← AList.lookup_isSome, h]
  rfl

/-- A `Put` leaves the entry of another key as it is, or takes it out. -/
theorem WF.lookup_put_of_ne {c : NarrationCache α} (hwf : c.WF) {k key : String} (hne : k ≠ key)
    (output : α) (now : ℤ) :
    (c.put key output now).entries.lookup k = c.entries.lookup k ∨
      (c.put key output now).entries.lookup k = none := by
  cases hkey : c.entries.lookup key with
  | some e =>
    rw [put_of_lookup hkey]
    exact .inl (lookup_insert_ne hne)
  | none =>
    by_cases hroom : c.size < c.cfg.maxSize
    · rw [put_of_lt hkey hroom]
      exact .inl (lookup_insert_ne hne)
    · obtain ⟨oldest, order, -, hput⟩ := hwf.put_of_full hkey (not_lt.mp hroom) output now
      rw [hput]
      dsimp only
      rw [lookup_insert_ne hne]
      by_cases heq : k = oldest
      · subst heq
        exact .inr (AList.lookup_erase k _)
      · exact .inl (lookup_erase_ne heq)

theorem State.mem_evictedBy {s : State α} {k key : String} {output : α} {now : ℤ} :
    k ∈ s.evictedBy key output now ↔
      k ∈ s.cache.entries ∧ (s.cache.put key output now).entries.lookup k = none := by
  rw [State.evictedBy, List.mem_filter, ← mem_keys, Option.isNone_iff_eq_none]

/-- The key and the entry that a `Get` has in hand. -/
def GetCall.found : GetCall α → String × CacheEntry α
  | .looked key e => (key, e)
  | .judged key e _ => (key, e)

/-- The state `s` is what the calls of `h` have made of the cache, and at most one `Get` is in
progress. -/
structure Reflects (cfg : CacheConfig) (s : State α) (h : List (Call α)) : Prop where
  wf : s.WF cfg
  /-- What the map has was stored last. -/
  stored : ∀ k e, s.cache.entries.lookup k = some e → Stored h k e.output e.createdAt
  /-- What was stored last is in the map, or too old. -/
  kept : ∀ k output t, Stored h k output t →
    s.cache.entries.lookup k = some ⟨output, t⟩ ∨ cfg.withDefaults.ttl < s.clock - t
  recency : Recency uses h s.cache.order
  created : ∀ k e, s.cache.entries.lookup k = some e → 0 ≤ e.createdAt
  clock_nonneg : 0 ≤ s.clock
  /-- The entry that a `Get` has found is still there. -/
  current : ∀ g c, s.gets g = some c → s.cache.entries.lookup c.found.1 = some c.found.2
  lone : ∀ g g', s.gets g ≠ none → s.gets g' ≠ none → g = g'
  reading_le : ∀ g key e t, s.gets g = some (.judged key e t) → t ≤ Duration.maxValue

theorem reflects_of_isInit {cfg : CacheConfig} {s : State α} (h : (system α cfg).IsInit s) :
    Reflects cfg s [] := by
  have hwf := State.wf_of_isInit h
  obtain ⟨hcache, hgets, hclock⟩ := h
  have hnone : ∀ k, s.cache.entries.lookup k = none := fun k => by rw [hcache]; rfl
  have hidle : ∀ g, s.gets g = none := fun g => by rw [hgets]
  refine ⟨hwf, fun k e he => ?_, fun k output t hs => ?_, ?_, fun k e he => ?_, hclock,
    fun g c hg => ?_, fun g g' hg => ?_, fun g key e t hg => ?_⟩
  · rw [hnone] at he
    cases he
  · exact absurd hs (not_stored_nil k output t)
  · rw [hcache]
    exact List.Pairwise.nil
  · rw [hnone] at he
    cases he
  · rw [hidle] at hg
    cases hg
  · exact absurd (hidle g) hg
  · rw [hidle] at hg
    cases hg

namespace Reflects

variable {cfg : CacheConfig} {s : State α} {h : List (Call α)}

variable {g : ℕ} {e : CacheEntry α} {t now : ℤ} {h' : List (Call α)}

/-- The age of an entry is not cut off, so that expiry is a matter of the exact difference. -/
theorem expired_iff (hr : Reflects cfg s h) {key : String} (hg : s.gets g = some (.judged key e t)) :
    s.cache.expired e t = true ↔ cfg.withDefaults.ttl < t - e.createdAt := by
  have hcfg := hr.wf.cfg_eq
  have hpos : 0 < cfg.withDefaults.ttl := cfg.ttl_pos
  have ht := hr.reading_le g key e t hg
  have hcreated := hr.created key e (hr.current g _ hg)
  unfold NarrationCache.expired
  rw [hcfg, decide_eq_true_iff]
  refine ⟨Time.lt_of_lt_sub hpos, fun hlt => ?_⟩
  unfold Time.sub
  omega

/-- What a `Get` returns for the entry that it has judged. -/
theorem conforms_judged (hr : Reflects cfg s h) {key : String}
    (hg : s.gets g = some (.judged key e t)) :
    Conforms cfg.withDefaults.ttl h
      (.get key t (if s.cache.expired e t then none else some e.output)) := by
  have hstored := hr.stored key e (hr.current g _ hg)
  intro output
  by_cases hexp : s.cache.expired e t = true
  · rw [if_pos hexp]
    have hold := (hr.expired_iff hg).mp hexp
    refine ⟨(nomatch ·), ?_⟩
    rintro ⟨t', hs, hle⟩
    obtain ⟨-, rfl⟩ := hstored.unique hs
    omega
  · rw [if_neg hexp, Option.some.injEq]
    have hyoung := mt (hr.expired_iff hg).mpr hexp
    constructor
    · rintro rfl
      exact ⟨e.createdAt, hstored, not_lt.mp hyoung⟩
    · rintro ⟨t', hs, -⟩
      exact (hstored.unique hs).1

/-- A `Get` that finds nothing is right to. -/
theorem conforms_miss (hr : Reflects cfg s h) {key : String}
    (hnone : s.cache.entries.lookup key = none) (hclock : s.clock ≤ now) :
    Conforms cfg.withDefaults.ttl h (.get key now none) := by
  intro output
  refine ⟨(nomatch ·), ?_⟩
  rintro ⟨t, hs, hle⟩
  rcases hr.kept key output t hs with hfound | hold
  · rw [hnone] at hfound
    cases hfound
  · omega

/-- A full cache evicts the key at the front of the list, which was used least recently. -/
theorem conforms_put (hr : Reflects cfg s h) (key : String) (output : α) (now : ℤ) :
    Conforms cfg.withDefaults.ttl h
      (.put key output now s.cache.entries.keys (s.evictedBy key output now)) := by
  intro k hk
  obtain ⟨hmem, hgone⟩ := State.mem_evictedBy.mp hk
  refine ⟨mem_keys.mp hmem, fun k' hk' hne => ?_⟩
  have hwf := hr.wf.cache
  have hk : k ≠ key := by
    rintro rfl
    rw [lookup_put_self] at hgone
    cases hgone
  -- the key is gone, so the cache was full and the key is the first of the list
  cases hkey : s.cache.entries.lookup key with
  | some e =>
    rw [put_of_lookup hkey] at hgone
    dsimp only at hgone
    rw [lookup_insert_ne hk, lookup_eq_none] at hgone
    exact absurd hmem hgone
  | none =>
    by_cases hroom : s.cache.size < s.cache.cfg.maxSize
    · rw [put_of_lt hkey hroom] at hgone
      dsimp only at hgone
      rw [lookup_insert_ne hk, lookup_eq_none] at hgone
      exact absurd hmem hgone
    · obtain ⟨oldest, order, horder, hput⟩ := hwf.put_of_full hkey (not_lt.mp hroom) output now
      have holdest : k = oldest := by
        by_contra hother
        rw [hput] at hgone
        dsimp only at hgone
        rw [lookup_insert_ne hk, lookup_erase_ne hother, lookup_eq_none] at hgone
        exact hgone hmem
      have hk'mem : k' ∈ s.cache.order := (hwf.mem_order k').mpr (mem_keys.mpr hk')
      have hsorted := hr.recency
      rw [horder] at hk'mem hsorted
      subst holdest
      exact (List.pairwise_cons.mp hsorted).1 k' ((List.mem_cons.mp hk'mem).resolve_left hne)

/-! ### Every step of a lone call -/

/-- A step that leaves the map and the list alone and at most one `Get` in progress. -/
theorem of_gets (hr : Reflects cfg s h) {gets : ℕ → Option (GetCall α)}
    (hwf : State.WF cfg ⟨now, s.cache, gets⟩) (hclock : s.clock ≤ now)
    (hhist : h' = h ∨ ∃ key reading, h' = .get key reading none :: h)
    (hcurrent : ∀ g c, gets g = some c → s.cache.entries.lookup c.found.1 = some c.found.2)
    (hlone : ∀ g g', gets g ≠ none → gets g' ≠ none → g = g')
    (hreading : ∀ g key e t, gets g = some (.judged key e t) → t ≤ Duration.maxValue) :
    Reflects cfg ⟨now, s.cache, gets⟩ h' := by
  -- a `Get` that found nothing says nothing about what is stored and uses no key
  have hstored : ∀ k output t, Stored h' k output t ↔ Stored h k output t := by
    intro k output t
    rcases hhist with rfl | ⟨key, reading, rfl⟩
    · exact Iff.rfl
    · exact stored_get_cons
  have hrecency : Recency uses h' s.cache.order := by
    rcases hhist with rfl | ⟨key, reading, rfl⟩
    · exact hr.recency
    · exact hr.recency.cons_of_unused fun k _ => by simp [uses]
  refine ⟨hwf, ?_, ?_, hrecency, hr.created, hr.clock_nonneg.trans hclock, hcurrent, hlone, hreading⟩
  · intro k e he
    exact (hstored k _ _).mpr (hr.stored k e he)
  · intro k output t hs
    rcases hr.kept k output t ((hstored k output t).mp hs) with hfound | hold
    · exact .inl hfound
    · right
      show _ < now - t
      omega

theorem lookup (hr : Reflects cfg s h) (g : ℕ) (key : String) (hidle : ∀ g, s.gets g = none)
    (hclock : s.clock ≤ now) (hhist : h' = h ∨ ∃ key reading, h' = .get key reading none :: h)
    (hwf : State.WF cfg ⟨now, s.cache, update s.gets g ((s.cache.entries.lookup key).map (.looked key))⟩) :
    Reflects cfg ⟨now, s.cache,
      update s.gets g ((s.cache.entries.lookup key).map (.looked key))⟩ h' := by
  -- only the new call is in progress, and it has just found its entry
  have hlooked : ∀ g' c,
      update s.gets g ((s.cache.entries.lookup key).map (.looked key)) g' = some c →
        g' = g ∧ ∃ e, s.cache.entries.lookup key = some e ∧ .looked key e = c := by
    intro g' c hg'
    by_cases heq : g' = g
    · subst heq
      rw [update_self] at hg'
      exact ⟨rfl, Option.map_eq_some_iff.mp hg'⟩
    · rw [update_of_ne heq, hidle] at hg'
      cases hg'
  refine hr.of_gets hwf hclock hhist ?_ ?_ ?_
  · intro g' c hg'
    obtain ⟨-, e, he, rfl⟩ := hlooked g' c hg'
    exact he
  · intro g₁ g₂ h₁ h₂
    obtain ⟨c₁, hc₁⟩ := Option.ne_none_iff_exists'.mp h₁
    obtain ⟨c₂, hc₂⟩ := Option.ne_none_iff_exists'.mp h₂
    exact (hlooked g₁ c₁ hc₁).1.trans (hlooked g₂ c₂ hc₂).1.symm
  · intro g' key' e t hg'
    obtain ⟨-, e', -, heq⟩ := hlooked g' _ hg'
    cases heq

theorem judge (hr : Reflects cfg s h) {key : String} (hg : s.gets g = some (.looked key e))
    (hclock : s.clock ≤ now) (hmax : now ≤ Duration.maxValue)
    (hwf : State.WF cfg ⟨now, s.cache, update s.gets g (some (.judged key e now))⟩) :
    Reflects cfg ⟨now, s.cache, update s.gets g (some (.judged key e now))⟩ h := by
  -- the same calls are in progress as before, with the same entries
  have hbusy : ∀ g', update s.gets g (some (.judged key e now)) g' ≠ none →
      s.gets g' ≠ none := by
    intro g' hg'
    by_cases heq : g' = g
    · rw [heq, hg]
      exact Option.some_ne_none _
    · rwa [update_of_ne heq] at hg'
  refine hr.of_gets hwf hclock (.inl rfl) ?_
    (fun g₁ g₂ h₁ h₂ => hr.lone g₁ g₂ (hbusy g₁ h₁) (hbusy g₂ h₂)) ?_
  · refine (Function.forall_update_iff s.gets fun _ call => ∀ c, call = some c →
      s.cache.entries.lookup c.found.1 = some c.found.2).mpr ⟨fun c hc => ?_, fun g' _ => hr.current g'⟩
    cases hc
    exact hr.current g (.looked key e) hg
  · refine (Function.forall_update_iff s.gets fun _ call => ∀ key' e' t, call = some (.judged key' e' t) →
      t ≤ Duration.maxValue).mpr ⟨fun key' e' t hc => ?_, fun g' _ => hr.reading_le g'⟩
    cases hc
    exact hmax

/-- Nothing is in progress after the second section of the only `Get`. -/
theorem update_none (hr : Reflects cfg s h) {c : GetCall α} (hg : s.gets g = some c) (g' : ℕ) :
    update s.gets g none g' = none := by
  by_cases heq : g' = g
  · rw [heq, update_self]
  · rw [update_of_ne heq]
    by_contra hbusy
    exact heq (hr.lone g' g hbusy (by rw [hg]; exact Option.some_ne_none c))

/-- With nothing in progress, what is left to show is about the cache. -/
theorem of_idle {s' : State α} (hwf : s'.WF cfg) (hidle : ∀ g, s'.gets g = none)
    (hclock : 0 ≤ s'.clock)
    (hstored : ∀ k e, s'.cache.entries.lookup k = some e → Stored h' k e.output e.createdAt)
    (hkept : ∀ k output t, Stored h' k output t →
      s'.cache.entries.lookup k = some ⟨output, t⟩ ∨ cfg.withDefaults.ttl < s'.clock - t)
    (hrecency : Recency uses h' s'.cache.order)
    (hcreated : ∀ k e, s'.cache.entries.lookup k = some e → 0 ≤ e.createdAt) :
    Reflects cfg s' h' := by
  refine ⟨hwf, hstored, hkept, hrecency, hcreated, hclock, ?_, ?_, ?_⟩
  · intro g c hg
    rw [hidle] at hg
    cases hg
  · intro g g' hg
    exact absurd (hidle g) hg
  · intro g key e t hg
    rw [hidle] at hg
    cases hg

theorem expire (hr : Reflects cfg s h) {key : String} (hg : s.gets g = some (.judged key e t))
    (hexp : s.cache.expired e t = true) (hclock : s.clock ≤ now)
    (hwf : State.WF cfg ⟨now, s.cache.expire key, update s.gets g none⟩) :
    Reflects cfg ⟨now, s.cache.expire key, update s.gets g none⟩
      (.get key t none :: h) := by
  have hlookup : ∀ k e', (s.cache.entries.erase key).lookup k = some e' →
      s.cache.entries.lookup k = some e' := by
    intro k e' he'
    by_cases heq : k = key
    · subst heq
      rw [AList.lookup_erase] at he'
      cases he'
    · rwa [lookup_erase_ne heq] at he'
  refine of_idle hwf (hr.update_none hg) (hr.clock_nonneg.trans hclock) ?_ ?_ ?_ ?_
  · intro k e' he'
    exact stored_get_cons.mpr (hr.stored k e' (hlookup k e' he'))
  · intro k output t' hs
    rw [stored_get_cons] at hs
    show (s.cache.entries.erase key).lookup k = _ ∨ _ < now - t'
    by_cases heq : k = key
    · -- the entry that is removed was too old when it was judged
      subst heq
      obtain ⟨-, rfl⟩ := (hr.stored k e (hr.current g _ hg)).unique hs
      have hold := (hr.expired_iff hg).mp hexp
      have hread := hr.wf.reading_le g k e t hg
      right
      omega
    · rw [lookup_erase_ne heq]
      rcases hr.kept k output t' hs with hfound | hold
      · exact .inl hfound
      · right
        omega
  · have hrest : Recency uses h (s.cache.order.erase key) :=
      List.Pairwise.sublist List.erase_sublist hr.recency
    exact hrest.cons_of_unused fun k _ => by simp [uses]
  · intro k e' he'
    exact hr.created k e' (hlookup k e' he')

theorem promote (hr : Reflects cfg s h) {key : String} (hg : s.gets g = some (.judged key e t))
    (hclock : s.clock ≤ now)
    (hwf : State.WF cfg ⟨now, s.cache.promote key, update s.gets g none⟩) :
    Reflects cfg ⟨now, s.cache.promote key, update s.gets g none⟩
      (.get key t (some e.output) :: h) := by
  refine of_idle hwf (hr.update_none hg) (hr.clock_nonneg.trans hclock) ?_ ?_ ?_ hr.created
  · intro k e' he'
    exact stored_get_cons.mpr (hr.stored k e' he')
  · intro k output t' hs
    rcases hr.kept k output t' (stored_get_cons.mp hs) with hfound | hold
    · exact .inl hfound
    · right
      show _ < now - t'
      omega
  · have hmem : key ∈ s.cache.order := hr.wf.cache.mem_order_of_lookup (hr.current g _ hg)
    show Recency uses _ (moveToEnd key s.cache.order)
    rw [moveToEnd, if_pos hmem]
    exact hr.recency.touch hr.wf.cache.nodup fun k => by simp [uses, eq_comm]

theorem put (hr : Reflects cfg s h) (key : String) (output : α) (hidle : ∀ g, s.gets g = none)
    (hclock : s.clock ≤ now) (hwf : State.WF cfg ⟨now, s.cache.put key output now, s.gets⟩) :
    Reflects cfg ⟨now, s.cache.put key output now, s.gets⟩
      (.put key output now s.cache.entries.keys (s.evictedBy key output now) :: h) := by
  have hnow : 0 ≤ now := hr.clock_nonneg.trans hclock
  have hcache := hr.wf.cache
  -- an entry of another key that is still there is the old one
  have hold : ∀ k e, k ≠ key → (s.cache.put key output now).entries.lookup k = some e →
      s.cache.entries.lookup k = some e := by
    intro k e hne he
    rcases hcache.lookup_put_of_ne hne output now with hsame | hnone
    · rwa [hsame] at he
    · rw [hnone] at he
      cases he
  refine of_idle hwf hidle hnow ?_ ?_ ?_ ?_
  · intro k e he
    by_cases heq : k = key
    · subst heq
      have hnew : (⟨output, now⟩ : CacheEntry α) = e :=
        Option.some.inj ((lookup_put_self s.cache k output now).symm.trans he)
      subst hnew
      exact stored_put h k output now _ _
    · refine (hr.stored k e (hold k e heq he)).cons ?_
      have hnot : k ∉ s.evictedBy key output now := by
        intro hmem
        have hgone := (State.mem_evictedBy.mp hmem).2
        rw [he] at hgone
        cases hgone
      simp [drops, Ne.symm heq, hnot]
  · intro k output' t hs
    rcases hs.of_cons with ⟨_, _, heq⟩ | ⟨hdrop, hs⟩
    · cases heq
      exact .inl (lookup_put_self s.cache _ _ _)
    · simp only [drops, Bool.or_eq_false_iff, decide_eq_false_iff_not, List.contains_eq_mem] at hdrop
      rcases hr.kept k output' t hs with hfound | hgone
      · -- it was there and has not been evicted
        left
        rcases hcache.lookup_put_of_ne (Ne.symm hdrop.1) output now with hsame | hnone
        · exact hsame.trans hfound
        · exact absurd (State.mem_evictedBy.mpr
            ⟨AList.lookup_isSome.mp (by rw [hfound]; rfl), hnone⟩) hdrop.2
      · right
        show _ < now - t
        omega
  · have huses : ∀ (st ev : List String) (k : String),
        uses k (.put key output now st ev : Call α) = true ↔ k = key :=
      fun st ev k => by simp [uses, eq_comm]
    have hnot : s.cache.entries.lookup key = none → key ∉ s.cache.order := by
      intro hnone hmem
      exact lookup_eq_none.mp hnone ((hcache.mem_order key).mp hmem)
    show Recency uses _ (s.cache.put key output now).order
    cases hkey : s.cache.entries.lookup key with
    | some e =>
      have hmem : key ∈ s.cache.order := hcache.mem_order_of_lookup hkey
      rw [put_of_lookup hkey]
      dsimp only
      rw [moveToEnd, if_pos hmem]
      exact hr.recency.touch hcache.nodup (huses _ _)
    | none =>
      by_cases hroom : s.cache.size < s.cache.cfg.maxSize
      · rw [put_of_lt hkey hroom]
        exact hr.recency.snoc (hnot hkey) (huses _ _)
      · obtain ⟨oldest, order, horder, hput⟩ := hcache.put_of_full hkey (not_lt.mp hroom) output now
        have hrec := hr.recency
        have hkeys := hnot hkey
        rw [horder] at hrec hkeys
        rw [hput]
        exact Recency.snoc (List.pairwise_cons.mp hrec).2
          (fun hmem => hkeys (List.mem_cons_of_mem _ hmem)) (huses _ _)
  · intro k e he
    by_cases heq : k = key
    · subst heq
      rw [lookup_put_self, Option.some.injEq] at he
      subst he
      exact hnow
    · exact hr.created k e (hold k e heq he)

theorem flush (hr : Reflects cfg s h) (hidle : ∀ g, s.gets g = none) (hclock : s.clock ≤ now)
    (hwf : State.WF cfg ⟨now, s.cache.flush, s.gets⟩) :
    Reflects cfg ⟨now, s.cache.flush, s.gets⟩ (.flush :: h) := by
  refine of_idle hwf hidle (hr.clock_nonneg.trans hclock) ?_ ?_ List.Pairwise.nil ?_
  · intro k e he
    cases he
  · intro k output t hs
    rcases hs.of_cons with ⟨_, _, heq⟩ | ⟨hdrop, -⟩
    · cases heq
    · cases hdrop
  · intro k e he
    cases he

/-- A step of a run whose calls do not overlap. -/
theorem step (hr : Reflects cfg s h) {s' : State α} {ev : Event α} (halone : s.Alone ev)
    (hstep : s.step ev = some s') :
    Reflects cfg s' ((s.completed ev).toList ++ h) ∧
      ∀ c, s.completed ev = some c → Conforms cfg.withDefaults.ttl h c := by
  have hwf := hr.wf.step hstep
  obtain ⟨hclock, hmax, htakes⟩ := State.takes_of_step hstep
  obtain ⟨now, action⟩ := ev
  cases htakes with
  | lookup g key hidle =>
    cases hkey : s.cache.entries.lookup key with
    | none =>
      have hcall : s.completed ⟨now, .getLookup g key⟩ = some (.get key now none) := by
        simp [State.completed, hkey]
      rw [hcall, ← hkey]
      refine ⟨hr.lookup g key halone hclock (.inr ⟨key, now, rfl⟩) hwf, fun c hc => ?_⟩
      cases hc
      exact hr.conforms_miss hkey hclock
    | some e =>
      have hcall : s.completed ⟨now, .getLookup g key⟩ = none := by
        simp [State.completed, hkey]
      rw [hcall, ← hkey]
      exact ⟨hr.lookup g key halone hclock (.inl rfl) hwf, fun c hc => nomatch hc⟩
  | judge g key e hg => exact ⟨hr.judge hg hclock hmax hwf, fun c hc => nomatch hc⟩
  | expire g key e t hg hexp =>
    have hcall : s.completed ⟨now, .getFinish g⟩ = some (.get key t none) := by
      simp [State.completed, hg, hexp]
    rw [hcall]
    refine ⟨hr.expire hg hexp hclock hwf, fun c hc => ?_⟩
    cases hc
    simpa [hexp] using hr.conforms_judged hg
  | promote g key e t hg hexp =>
    have hcall : s.completed ⟨now, .getFinish g⟩ = some (.get key t (some e.output)) := by
      simp [State.completed, hg, hexp]
    rw [hcall]
    refine ⟨hr.promote hg hclock hwf, fun c hc => ?_⟩
    cases hc
    simpa [hexp] using hr.conforms_judged hg
  | put key output =>
    refine ⟨hr.put key output halone hclock hwf, fun c hc => ?_⟩
    cases hc
    exact hr.conforms_put key output now
  | flush =>
    refine ⟨hr.flush halone hclock hwf, fun c hc => ?_⟩
    cases hc
    trivial

end Reflects

/-- The narration cache is a bounded LRU cache. Whatever the interleaving, the list has no
duplicates, has the keys of the map and is no longer than `MaxSize`; and the history of a run whose
calls do not overlap conforms. -/
theorem lru_of_recorded (cfg : CacheConfig) {s₀ s : State α} {es : List (Event α)}
    {h : List (Call α)} (hinit : (system α cfg).IsInit s₀)
    (hrun : ((system α cfg).recorded State.completed).run (s₀, []) es = some (s, h)) :
    (s.cache.order.Nodup ∧ (∀ k, k ∈ s.cache.order ↔ k ∈ s.cache.entries) ∧
      (s.cache.order.length : ℤ) ≤ cfg.withDefaults.maxSize) ∧
    ((system α cfg).EveryStep State.Alone s₀ es → LRU cfg.withDefaults.ttl h) := by
  constructor
  · have hwf : s.WF cfg := run_invariant' (I := State.WF cfg) (fun _ _ _ hs hstep => hs.step hstep)
      (run_of_recorded hrun) (State.wf_of_isInit hinit)
    exact ⟨hwf.cache.nodup, hwf.cache.mem_order, hwf.cfg_eq ▸ hwf.cache.length_le⟩
  · intro halone
    let I (s : State α × List (Call α)) := Reflects cfg s.1 s.2 ∧ LRU cfg.withDefaults.ttl s.2
    suffices hI : I (s, h) from hI.2
    refine run_invariant (I := I) ?_ (everyStep_recorded halone []) hrun
      ⟨reflects_of_isInit hinit, trivial⟩
    rintro ⟨s, h⟩ ev ⟨s', h'⟩ ⟨hr, hlru⟩ hal hrec
    obtain ⟨hstep, hh⟩ := step_recorded_eq_some.mp hrec
    dsimp only at hstep hh hal
    obtain ⟨hr', hconforms⟩ := hr.step hal hstep
    subst hh
    refine ⟨hr', ?_⟩
    cases hc : s.completed ev with
    | none => exact hlru
    | some c => exact ⟨hconforms c hc, hlru⟩

section Example

/-- Room for two entries, good for ten nanoseconds. -/
def twoEntries : CacheConfig := ⟨2, 10⟩

/-- Two keys are stored, the first is read, and a third takes the place of the second. -/
def threeKeys : List (Event ℕ) :=
  [⟨0, .put "a" 1⟩, ⟨1, .put "b" 2⟩, ⟨2, .getLookup 0 "a"⟩, ⟨3, .getJudge 0⟩, ⟨4, .getFinish 0⟩,
    ⟨5, .put "c" 3⟩, ⟨6, .getLookup 0 "b"⟩]

/-- The calls of that run, the last one first. -/
def threeKeysCalls : List (Call ℕ) :=
  [.get "b" 6 none, .put "c" 3 5 ["b", "a"] ["b"], .get "a" 3 (some 1), .put "b" 2 1 ["a"] [],
    .put "a" 1 0 [] []]

theorem lru_threeKeys :
    ∃ s, ((system ℕ twoEntries).recorded State.completed).run (start twoEntries, []) threeKeys =
        some (s, threeKeysCalls) ∧
      (s.cache.order.length : ℤ) ≤ 2 ∧ LRU 10 threeKeysCalls := by
  refine ⟨_, rfl, ?_⟩
  have hrun : ((system ℕ twoEntries).recorded State.completed).run (start twoEntries, []) threeKeys =
      some (_, threeKeysCalls) := rfl
  have hlru := lru_of_recorded twoEntries (isInit_start twoEntries) hrun
  refine ⟨hlru.1.2.2, hlru.2 ?_⟩
  -- no call but the `Get` of `a` takes more than one step, and it is over before the next starts
  refine ⟨fun _ => rfl, fun _ h₁ => ?_⟩
  cases h₁
  refine ⟨fun _ => rfl, fun _ h₂ => ?_⟩
  cases h₂
  refine ⟨fun _ => rfl, fun _ h₃ => ?_⟩
  cases h₃
  refine ⟨trivial, fun _ h₄ => ?_⟩
  cases h₄
  refine ⟨trivial, fun _ h₅ => ?_⟩
  cases h₅
  refine ⟨fun g => by cases g <;> rfl, fun _ h₆ => ?_⟩
  cases h₆
  exact ⟨fun g => by cases g <;> rfl, fun _ _ => trivial⟩

end Example

end NarrationCache

end AiNarration
