import BackendKit.GoStd.Time
import BackendKit.ToMathlib.AList
import BackendKit.ToMathlib.StepSystem
import Mathlib.Logic.Function.Basic

/-!
# The narration cache

`NarrationCache` (`ainarration/cache.go`): a map of entries with a time to live, bounded in size,
and a list of its keys that is kept in the order of their last use.

`Put` and `Flush` are one locked section. `Get` is three steps: the lookup under the read lock, the
judgement of the entry it found, and a second locked section that removes the key if the entry was
judged expired and promotes it otherwise. Any number of goroutines interleave these steps
(`NarrationCache.system`).

* `State.WF` ties the list to the map and bounds both; every step keeps it (`State.WF.step`).
* `Get` removes by key what it has judged by entry. `onlyDiscarded_of_unreplaced` says what is lost
  within its time to live when no `Put` comes in between, `exists_discarded_by_get` what can be lost
  when one does.

The clock is the monotonic one, an `int64` of nanoseconds that does not run backwards.
-/

open GoStd
open Function (update)

namespace AiNarration

/-- How many entries are cached unless another number is set. -/
def defaultCacheSize : ℤ := 200

/-- How long an entry is good for unless another time is set. -/
def defaultCacheTTL : ℤ := 2 * Duration.hour

/-- The tunable parameters. -/
structure CacheConfig where
  maxSize : ℤ
  ttl : ℤ
  deriving DecidableEq, Repr

/-- The parameters that `NewNarrationCache` goes by. -/
def CacheConfig.withDefaults (cfg : CacheConfig) : CacheConfig where
  maxSize := if cfg.maxSize ≤ 0 then defaultCacheSize else cfg.maxSize
  ttl := if cfg.ttl ≤ 0 then defaultCacheTTL else cfg.ttl

theorem CacheConfig.ttl_pos (cfg : CacheConfig) : 0 < cfg.withDefaults.ttl := by
  unfold withDefaults defaultCacheTTL Duration.hour Duration.minute Duration.second
  dsimp only
  split <;> omega

theorem CacheConfig.maxSize_pos (cfg : CacheConfig) : 0 < cfg.withDefaults.maxSize := by
  unfold withDefaults defaultCacheSize
  dsimp only
  split <;> omega

/-- An output and when it was stored. -/
structure CacheEntry (α : Type) where
  output : α
  createdAt : ℤ
  deriving DecidableEq, Repr

/-- The cache; `order` has the oldest key first. -/
structure NarrationCache (α : Type) where
  entries : AList fun _ : String => CacheEntry α
  order : List String
  cfg : CacheConfig

namespace NarrationCache

variable {α : Type}

/-- `NewNarrationCache`. -/
def new (cfg : CacheConfig) : NarrationCache α := ⟨∅, [], cfg.withDefaults⟩

/-- `Size`. -/
def size (c : NarrationCache α) : ℤ := c.entries.entries.length

/-- Move the first occurrence of a key to the end; a key that is not there stays away. -/
def moveToEnd (key : String) (order : List String) : List String :=
  if key ∈ order then order.erase key ++ [key] else order

/-- Remove the first occurrence of a key. -/
def removeFromOrder (key : String) (order : List String) : List String := order.erase key

/-- The loop of `Put` that makes room, from the front of the list. -/
def evict (maxSize : ℤ) (entries : AList fun _ : String => CacheEntry α) :
    List String → (AList fun _ : String => CacheEntry α) × List String
  | [] => (entries, [])
  | oldest :: order =>
    if maxSize ≤ entries.entries.length then evict maxSize (entries.erase oldest) order
    else (entries, oldest :: order)

/-- Store an output, in the place of the one that is there or after making room. -/
def put (c : NarrationCache α) (key : String) (output : α) (now : ℤ) : NarrationCache α :=
  match c.entries.lookup key with
  | some _ =>
    { c with entries := c.entries.insert key ⟨output, now⟩, order := moveToEnd key c.order }
  | none =>
    let room := evict c.cfg.maxSize c.entries c.order
    { c with entries := room.1.insert key ⟨output, now⟩, order := room.2 ++ [key] }

/-- Empty the cache. -/
def flush (c : NarrationCache α) : NarrationCache α := { c with entries := ∅, order := [] }

/-- The second section of a `Get` that has judged the entry expired. -/
def expire (c : NarrationCache α) (key : String) : NarrationCache α :=
  { c with entries := c.entries.erase key, order := removeFromOrder key c.order }

/-- The second section of a `Get` that returns the entry. -/
def promote (c : NarrationCache α) (key : String) : NarrationCache α :=
  { c with order := moveToEnd key c.order }

/-- An entry is expired at `now`. -/
def expired (c : NarrationCache α) (e : CacheEntry α) (now : ℤ) : Bool :=
  c.cfg.ttl < Time.sub now e.createdAt

/-! ### Goroutines -/

/-- How far a `Get` has come. -/
inductive GetCall (α : Type) where
  /-- It has found the entry. -/
  | looked (key : String) (e : CacheEntry α)
  /-- It has read the clock to judge the entry. -/
  | judged (key : String) (e : CacheEntry α) (reading : ℤ)

/-- A step of a goroutine; `g` numbers the calls of `Get`. -/
inductive Action (α : Type) where
  | getLookup (g : ℕ) (key : String)
  | getJudge (g : ℕ)
  | getFinish (g : ℕ)
  | put (key : String) (output : α)
  | flush

/-- A step, and when it is taken. -/
structure Event (α : Type) where
  now : ℤ
  action : Action α

/-- The cache and the calls of `Get` in progress. -/
structure State (α : Type) where
  clock : ℤ
  cache : NarrationCache α
  gets : ℕ → Option (GetCall α)

namespace State

/-- Take a step: `none` if the goroutine is not there. -/
def perform (s : State α) (now : ℤ) : Action α → Option (State α)
  | .getLookup g key =>
    match s.gets g with
    | some _ => none
    | none =>
      -- A miss ends the call.
      some { s with gets := update s.gets g ((s.cache.entries.lookup key).map (.looked key)) }
  | .getJudge g =>
    match s.gets g with
    | some (.looked key e) => some { s with gets := update s.gets g (some (.judged key e now)) }
    | _ => none
  | .getFinish g =>
    match s.gets g with
    | some (.judged key e t) =>
      some { s with
        cache := if s.cache.expired e t then s.cache.expire key else s.cache.promote key
        gets := update s.gets g none }
    | _ => none
  | .put key output => some { s with cache := s.cache.put key output now }
  | .flush => some { s with cache := s.cache.flush }

/-- The clock moves on, within its range, and the step is taken. -/
def step (s : State α) (e : Event α) : Option (State α) :=
  if s.clock ≤ e.now ∧ e.now ≤ Duration.maxValue then
    ({ s with clock := e.now } : State α).perform e.now e.action
  else none

end State

/-- All interleavings on a new cache. -/
def system (α : Type) (cfg : CacheConfig) : StepSystem (State α) (Event α) where
  IsInit s := s.cache = new cfg ∧ s.gets = (fun _ => none) ∧ 0 ≤ s.clock
  step := State.step

/-! ### What the operations do -/

theorem moveToEnd_perm (key : String) (order : List String) : (moveToEnd key order).Perm order := by
  unfold moveToEnd
  split
  · rename_i hmem
    exact (List.perm_append_singleton key _).trans (List.perm_cons_erase hmem).symm
  · exact List.Perm.refl order

/-- There is nothing to evict below the bound. -/
theorem evict_of_lt {maxSize : ℤ} {entries : AList fun _ : String => CacheEntry α}
    (h : (entries.entries.length : ℤ) < maxSize) (order : List String) :
    evict maxSize entries order = (entries, order) := by
  cases order with
  | nil => rfl
  | cons oldest order => rw [evict, if_neg (by omega)]

/-- The list has each key of the map once, and no more than the map may have. -/
structure WF (c : NarrationCache α) : Prop where
  nodup : c.order.Nodup
  mem_order : ∀ k, k ∈ c.order ↔ k ∈ c.entries
  length_le : (c.order.length : ℤ) ≤ c.cfg.maxSize
  maxSize_pos : 0 < c.cfg.maxSize

variable {c : NarrationCache α} {key : String}

theorem WF.keys_perm (h : c.WF) : c.entries.keys.Perm c.order :=
  (List.perm_ext_iff_of_nodup c.entries.keys_nodup h.nodup).mpr fun k =>
    AList.mem_keys.symm.trans (h.mem_order k).symm

theorem WF.size_eq (h : c.WF) : c.size = c.order.length := by
  have hkeys : c.entries.keys.length = c.entries.entries.length := List.length_map _
  rw [size, ← hkeys, h.keys_perm.length_eq]

/-- `Put` of a key that is there, into a cache with room, and into a full one. -/
theorem put_of_lookup {e : CacheEntry α} (h : c.entries.lookup key = some e) (output : α) (now : ℤ) :
    c.put key output now =
      { c with entries := c.entries.insert key ⟨output, now⟩, order := moveToEnd key c.order } := by
  rw [put, h]

theorem put_of_lt (h : c.entries.lookup key = none) (hroom : c.size < c.cfg.maxSize) (output : α)
    (now : ℤ) :
    c.put key output now =
      { c with entries := c.entries.insert key ⟨output, now⟩, order := c.order ++ [key] } := by
  rw [put, h]
  dsimp only
  rw [evict_of_lt hroom]

theorem WF.put_of_full (hwf : c.WF) (h : c.entries.lookup key = none)
    (hfull : c.cfg.maxSize ≤ c.size) (output : α) (now : ℤ) :
    ∃ oldest order, c.order = oldest :: order ∧
      c.put key output now =
        { c with entries := (c.entries.erase oldest).insert key ⟨output, now⟩,
                 order := order ++ [key] } := by
  have hsize := hwf.size_eq
  have hpos := hwf.maxSize_pos
  cases horder : c.order with
  | nil =>
    rw [horder] at hsize
    simp only [List.length_nil] at hsize
    omega
  | cons oldest order =>
    refine ⟨oldest, order, rfl, ?_⟩
    -- Taking out the first key makes the room that is needed.
    have hmem : oldest ∈ c.entries := (hwf.mem_order oldest).mp (by simp [horder])
    have herase : (c.entries.erase oldest).entries.length + 1 = c.entries.entries.length := by
      have hlen : ∀ m : AList fun _ : String => CacheEntry α, m.entries.length = m.keys.length :=
        fun m => (List.length_map _).symm
      rw [hlen, hlen, AList.keys_erase, List.length_erase_of_mem (AList.mem_keys.mp hmem)]
      have := List.length_pos_of_mem (AList.mem_keys.mp hmem)
      omega
    have hlen := hwf.length_le
    rw [← hsize] at hlen
    unfold size at hfull hlen
    rw [put, h]
    dsimp only
    rw [horder, evict, if_pos hfull, evict_of_lt (by omega)]

/-! ### The list and the map stay in step -/

theorem wf_new (cfg : CacheConfig) : (new cfg : NarrationCache α).WF where
  nodup := List.nodup_nil
  mem_order k := by simp [new]
  length_le := by
    have := cfg.maxSize_pos
    simp only [new, List.length_nil]
    omega
  maxSize_pos := cfg.maxSize_pos

theorem WF.flush (h : c.WF) : c.flush.WF where
  nodup := List.nodup_nil
  mem_order k := by simp [NarrationCache.flush]
  length_le := by
    have := h.maxSize_pos
    simp only [NarrationCache.flush, List.length_nil]
    omega
  maxSize_pos := h.maxSize_pos

theorem WF.expire (h : c.WF) (key : String) : (c.expire key).WF where
  nodup := h.nodup.erase key
  mem_order k := by
    show k ∈ c.order.erase key ↔ k ∈ c.entries.erase key
    rw [h.nodup.mem_erase_iff, AList.mem_erase, h.mem_order]
  length_le := by
    have hle : (c.order.erase key).length ≤ c.order.length := List.length_erase_le
    have := h.length_le
    show ((c.order.erase key).length : ℤ) ≤ c.cfg.maxSize
    omega
  maxSize_pos := h.maxSize_pos

/-- A list with the same keys will do for the same map. -/
theorem WF.of_perm (h : c.WF) {order : List String} (hperm : order.Perm c.order) :
    ({ c with order } : NarrationCache α).WF where
  nodup := hperm.nodup_iff.mpr h.nodup
  mem_order k := hperm.mem_iff.trans (h.mem_order k)
  length_le := by
    show (order.length : ℤ) ≤ c.cfg.maxSize
    rw [hperm.length_eq]
    exact h.length_le
  maxSize_pos := h.maxSize_pos

theorem WF.promote (h : c.WF) (key : String) : (c.promote key).WF :=
  h.of_perm (moveToEnd_perm key c.order)

/-- Adding a key to both keeps them in step. -/
theorem WF.insert {entries : AList fun _ : String => CacheEntry α} {order : List String}
    {cfg : CacheConfig} (h : (⟨entries, order, cfg⟩ : NarrationCache α).WF) (hnew : key ∉ entries)
    (hroom : (order.length : ℤ) < cfg.maxSize) (e : CacheEntry α) :
    (⟨entries.insert key e, order ++ [key], cfg⟩ : NarrationCache α).WF where
  nodup := by
    have hnot : key ∉ order := fun hmem => hnew ((h.mem_order key).mp hmem)
    exact (List.perm_append_singleton key order).nodup_iff.mpr (List.nodup_cons.mpr ⟨hnot, h.nodup⟩)
  mem_order k := by
    have hk : k ∈ order ↔ k ∈ entries := h.mem_order k
    show k ∈ order ++ [key] ↔ k ∈ entries.insert key e
    rw [List.mem_append, List.mem_singleton, AList.mem_insert, hk, or_comm]
  length_le := by
    show ((order ++ [key]).length : ℤ) ≤ cfg.maxSize
    rw [List.length_append, List.length_singleton]
    omega
  maxSize_pos := h.maxSize_pos

theorem WF.put (h : c.WF) (key : String) (output : α) (now : ℤ) : (c.put key output now).WF := by
  cases hkey : c.entries.lookup key with
  | some e =>
    rw [put_of_lookup hkey]
    have hmem : key ∈ c.entries := AList.lookup_isSome.mp (by rw [hkey]; rfl)
    -- the map has the same keys as before
    have hsame : ({ c with entries := c.entries.insert key ⟨output, now⟩ } : NarrationCache α).WF :=
      { h with
        mem_order := fun k => by
          show k ∈ c.order ↔ k ∈ c.entries.insert key ⟨output, now⟩
          rw [AList.mem_insert, h.mem_order]
          exact ⟨Or.inr, fun hk => hk.elim (fun heq => heq ▸ hmem) id⟩ }
    exact hsame.of_perm (moveToEnd_perm key c.order)
  | none =>
    have hnew : key ∉ c.entries := AList.lookup_eq_none.mp hkey
    by_cases hroom : c.size < c.cfg.maxSize
    · rw [put_of_lt hkey hroom]
      rw [h.size_eq] at hroom
      exact WF.insert h hnew hroom _
    · obtain ⟨oldest, order, horder, hput⟩ := h.put_of_full hkey (not_lt.mp hroom) output now
      rw [hput]
      -- the cache without its oldest key has room
      have hrest : (⟨c.entries.erase oldest, order, c.cfg⟩ : NarrationCache α).WF := by
        have hexpire := h.expire oldest
        unfold NarrationCache.expire removeFromOrder at hexpire
        rwa [horder, List.erase_cons_head] at hexpire
      refine WF.insert hrest (fun hmem => hnew (AList.mem_erase.mp hmem).2) ?_ _
      have hle := h.length_le
      rw [horder, List.length_cons] at hle
      push_cast at hle
      omega

/-! ### Steps and runs -/

theorem cfg_put (c : NarrationCache α) (key : String) (output : α) (now : ℤ) :
    (c.put key output now).cfg = c.cfg := by
  unfold NarrationCache.put
  split <;> rfl

namespace State

/-- What the steps do. -/
inductive Takes (s : State α) (now : ℤ) : Action α → State α → Prop
  | lookup (g : ℕ) (key : String) (hidle : s.gets g = none) :
      Takes s now (.getLookup g key)
        ⟨now, s.cache, update s.gets g ((s.cache.entries.lookup key).map (.looked key))⟩
  | judge (g : ℕ) (key : String) (e : CacheEntry α) (hg : s.gets g = some (.looked key e)) :
      Takes s now (.getJudge g)
        ⟨now, s.cache, update s.gets g (some (.judged key e now))⟩
  | expire (g : ℕ) (key : String) (e : CacheEntry α) (t : ℤ)
      (hg : s.gets g = some (.judged key e t)) (hexp : s.cache.expired e t = true) :
      Takes s now (.getFinish g) ⟨now, s.cache.expire key, update s.gets g none⟩
  | promote (g : ℕ) (key : String) (e : CacheEntry α) (t : ℤ)
      (hg : s.gets g = some (.judged key e t)) (hexp : s.cache.expired e t = false) :
      Takes s now (.getFinish g) ⟨now, s.cache.promote key, update s.gets g none⟩
  | put (key : String) (output : α) :
      Takes s now (.put key output) ⟨now, s.cache.put key output now, s.gets⟩
  | flush : Takes s now .flush ⟨now, s.cache.flush, s.gets⟩

/-- There are no other steps. -/
theorem takes_of_step {s s' : State α} {e : Event α} (h : s.step e = some s') :
    s.clock ≤ e.now ∧ e.now ≤ Duration.maxValue ∧ Takes s e.now e.action s' := by
  obtain ⟨now, action⟩ := e
  unfold step at h
  split at h
  · rename_i hclock
    refine ⟨hclock.1, hclock.2, ?_⟩
    cases action with
    | getLookup g key =>
      simp only [perform] at h
      split at h
      · cases h
      · rename_i hidle
        cases h
        exact .lookup g key hidle
    | getJudge g =>
      simp only [perform] at h
      split at h
      · rename_i key e hg
        cases h
        exact .judge g key e hg
      · cases h
    | getFinish g =>
      simp only [perform] at h
      split at h
      · rename_i key e t hg
        cases h
        by_cases hexp : s.cache.expired e t = true
        · simp only [hexp, if_true]
          exact .expire g key e t hg hexp
        · rw [Bool.not_eq_true] at hexp
          simp only [hexp, Bool.false_eq_true, if_false]
          exact .promote g key e t hg hexp
      · cases h
    | put key output =>
      cases h
      exact .put key output
    | flush =>
      cases h
      exact .flush
  · cases h

/-- What holds of every state that can be reached on a cache with the settings `cfg`. -/
structure WF (cfg : CacheConfig) (s : State α) : Prop where
  cache : s.cache.WF
  cfg_eq : s.cache.cfg = cfg.withDefaults
  /-- Readings were taken in the past. -/
  reading_le : ∀ g key e t, s.gets g = some (.judged key e t) → t ≤ s.clock

theorem wf_of_isInit {cfg : CacheConfig} {s : State α} (h : (system α cfg).IsInit s) : s.WF cfg := by
  obtain ⟨hcache, hgets, -⟩ := h
  refine ⟨hcache ▸ wf_new cfg, hcache ▸ rfl, fun g key e t hg => ?_⟩
  rw [hgets] at hg
  cases hg

/-- Every step keeps the list and the map in step. -/
theorem WF.step {cfg : CacheConfig} {s s' : State α} {e : Event α} (h : s.WF cfg)
    (hstep : s.step e = some s') : s'.WF cfg := by
  obtain ⟨hclock, -, htakes⟩ := takes_of_step hstep
  obtain ⟨now, action⟩ := e
  -- a reading of another call is as old as before
  have hother : ∀ g c, (∀ key e t, c = some (.judged key e t) → t ≤ now) → ∀ g' key e t,
      update s.gets g c g' = some (.judged key e t) → t ≤ now := fun g c hc =>
    (Function.forall_update_iff s.gets fun _ c => ∀ key e t, c = some (.judged key e t) → t ≤ now).mpr
      ⟨hc, fun g' _ key e t hg' => (h.reading_le g' key e t hg').trans hclock⟩
  cases htakes with
  | lookup g key hidle =>
    refine ⟨h.cache, h.cfg_eq, hother g _ fun key e t hlooked => ?_⟩
    obtain ⟨e', -, he'⟩ := Option.map_eq_some_iff.mp hlooked
    cases he'
  | judge g key e hg =>
    refine ⟨h.cache, h.cfg_eq, hother g _ fun key e t hjudged => ?_⟩
    cases hjudged
    exact le_refl now
  | expire g key e t hg hexp =>
    exact ⟨h.cache.expire key, h.cfg_eq, hother g none fun key e t hnone => nomatch hnone⟩
  | promote g key e t hg hexp =>
    exact ⟨h.cache.promote key, h.cfg_eq, hother g none fun key e t hnone => nomatch hnone⟩
  | put key output =>
    exact ⟨h.cache.put key output now, (cfg_put s.cache key output now).trans h.cfg_eq,
      fun g key e t hg => (h.reading_le g key e t hg).trans hclock⟩
  | flush =>
    exact ⟨h.cache.flush, h.cfg_eq, fun g key e t hg => (h.reading_le g key e t hg).trans hclock⟩

/-! ### What a fresh entry can be lost to -/

/-- The ways in which a step may take out the entry of `key`: a `Put` of the key replaces it, a
`Put` of another key makes room, and `Flush` empties the cache. -/
def MayDiscard (s : State α) (key : String) : Action α → Prop
  | .put key' _ =>
    key' = key ∨ (s.cache.entries.lookup key' = none ∧ s.cache.cfg.maxSize ≤ s.cache.size)
  | .flush => True
  | _ => False

/-- An entry that the step takes out within its time to live is taken out in one of these ways. -/
def OnlyDiscarded (s : State α) (ev : Event α) : Prop :=
  ∀ key e s', s.cache.entries.lookup key = some e → s.step ev = some s' →
    s'.cache.entries.lookup key ≠ some e → ev.now - e.createdAt ≤ s.cache.cfg.ttl →
    s.MayDiscard key ev.action

/-- If the step is the second section of a `Get` that has judged an entry expired, then the entry
under its key is still that one, or there is none. -/
def Unreplaced (s : State α) (ev : Event α) : Prop :=
  match ev.action with
  | .getFinish g =>
    match s.gets g with
    | some (.judged key e t) =>
      s.cache.expired e t = true →
        s.cache.entries.lookup key = none ∨ s.cache.entries.lookup key = some e
    | _ => True
  | _ => True

instance [DecidableEq α] (s : State α) (ev : Event α) : Decidable (s.Unreplaced ev) := by
  unfold Unreplaced
  split
  · split <;> infer_instance
  · infer_instance

theorem WF.onlyDiscarded {cfg : CacheConfig} {s : State α} {ev : Event α} (h : s.WF cfg)
    (hun : s.Unreplaced ev) : s.OnlyDiscarded ev := by
  intro key e s' he hstep hgone hfresh
  obtain ⟨hclock, -, htakes⟩ := takes_of_step hstep
  obtain ⟨now, action⟩ := ev
  cases htakes with
  | lookup g key' hidle => exact absurd he hgone
  | judge g key' e' hg => exact absurd he hgone
  | promote g key' e' t hg hexp => exact absurd he hgone
  | expire g key' e' t hg hexp =>
    by_cases heq : key = key'
    · subst heq
      -- the entry is the one that was judged, and it was too old already then
      have hsame : e = e' := by
        simp only [Unreplaced, hg] at hun
        rcases hun hexp with hnone | hsome
        · rw [he] at hnone
          cases hnone
        · exact Option.some.inj (he.symm.trans hsome)
      subst hsame
      have httl : 0 < s.cache.cfg.ttl := h.cfg_eq ▸ cfg.ttl_pos
      have hold : s.cache.cfg.ttl < t - e.createdAt :=
        Time.lt_of_lt_sub httl (of_decide_eq_true hexp)
      have hread := h.reading_le g key e t hg
      dsimp only at hfresh hclock
      omega
    · exact absurd ((AList.lookup_erase_ne heq).trans he) hgone
  | put key' output =>
    by_cases heq : key' = key
    · exact .inl heq
    · cases hkey : s.cache.entries.lookup key' with
      | some e' =>
        dsimp only at hgone
        rw [put_of_lookup hkey] at hgone
        exact absurd ((AList.lookup_insert_ne (Ne.symm heq)).trans he) hgone
      | none =>
        by_cases hroom : s.cache.size < s.cache.cfg.maxSize
        · dsimp only at hgone
          rw [put_of_lt hkey hroom] at hgone
          exact absurd ((AList.lookup_insert_ne (Ne.symm heq)).trans he) hgone
        · exact .inr ⟨hkey, not_lt.mp hroom⟩
  | flush => trivial

end State

/-- Reading an expired narration discards no fresh one, as long as no `Put` of the same key comes
between the judgement of a `Get` and its second section. -/
theorem onlyDiscarded_of_unreplaced (cfg : CacheConfig) {s₀ : State α} {es : List (Event α)}
    (hinit : (system α cfg).IsInit s₀) (hun : (system α cfg).EveryStep State.Unreplaced s₀ es) :
    (system α cfg).EveryStep State.OnlyDiscarded s₀ es := by
  have hwf := State.wf_of_isInit hinit
  clear hinit
  induction es generalizing s₀ with
  | nil => trivial
  | cons e es ih =>
    exact ⟨hwf.onlyDiscarded hun.1, fun s' hs' => ih (hun.2 s' hs') (hwf.step hs')⟩

section Example

/-- Room for one entry, good for one nanosecond. -/
def tiny : CacheConfig := ⟨1, 1⟩

/-- A new cache at the start of the clock. -/
def start (cfg : CacheConfig) : State ℕ := ⟨0, new cfg, fun _ => none⟩

theorem isInit_start (cfg : CacheConfig) : (system ℕ cfg).IsInit (start cfg) := ⟨rfl, rfl, le_refl 0⟩

/-- A `Get` that finds an expired entry, and a `Put` of another key. -/
def lateGet : List (Event ℕ) :=
  [⟨0, .put "k" 1⟩, ⟨2, .getLookup 0 "k"⟩, ⟨2, .getJudge 0⟩, ⟨2, .getFinish 0⟩, ⟨3, .put "k" 2⟩,
    ⟨4, .put "j" 3⟩]

theorem onlyDiscarded_lateGet : (system ℕ tiny).EveryStep State.OnlyDiscarded (start tiny) lateGet :=
  onlyDiscarded_of_unreplaced tiny (isInit_start tiny)
    (StepSystem.everyStep_of_checkEvery (by decide +kernel))

/-- A `Put` of the same key while a `Get` is on its way to its second section. -/
def overtakenGet : List (Event ℕ) :=
  [⟨0, .put "k" 1⟩, ⟨2, .getLookup 0 "k"⟩, ⟨2, .getJudge 0⟩, ⟨2, .put "k" 2⟩]

/-- The second section of that `Get` removes the entry that was stored at the same instant. -/
theorem exists_discarded_by_get :
    ∃ s s', (system ℕ tiny).run (start tiny) overtakenGet = some s ∧
      s.cache.entries.lookup "k" = some ⟨2, 2⟩ ∧
      s.step ⟨2, .getFinish 0⟩ = some s' ∧ s'.cache.entries.lookup "k" = none ∧
      ¬ s.OnlyDiscarded ⟨2, .getFinish 0⟩ := by
  refine ⟨_, _, rfl, by decide +kernel, rfl, by decide +kernel, fun honly => ?_⟩
  exact honly "k" ⟨2, 2⟩ _ (by decide +kernel) rfl (by decide +kernel) (by decide +kernel)

end Example

end NarrationCache

end AiNarration
