import Mathlib.Data.List.Destutter
import Mathlib.Data.List.Sort
import Mathlib.Data.String.Basic

/-!
# Scope sets

How `ServiceTokenWithScopes` reads its arguments (`socrate/service_token_scopes.go`): a non-empty list
of scope-tokens, of which only the set matters. `normaliseScopes` sorts the list and drops
duplicates, and the cache key is the result joined by spaces.

The key is a canonical encoding of the set (`scopeKey_eq_iff`): a scope-token has no space, so the
key can be split again, and a strictly ascending list is determined by its members.
-/

namespace Socrate

/-- A character of a scope-token (RFC 6749, section 3.3). In the code the test is on bytes; a
character beyond ASCII has none that passes. -/
def isScopeChar (c : Char) : Bool :=
  0x21 ≤ c.toNat && c.toNat ≤ 0x7e && c ≠ '"' && c ≠ '\\'

/-- A non-empty scope-token. -/
def isScopeToken (s : String) : Bool := s ≠ "" && s.toList.all isScopeChar

/-- Why a list of scopes is refused. -/
inductive ScopesError where
  | noScope
  | invalid (scope : String)
  deriving DecidableEq, Repr

/-- Check the scopes, sort them and drop duplicates. -/
def normaliseScopes (scopes : List String) : Except ScopesError (List String) :=
  if scopes = [] then .error .noScope
  else
    match scopes.find? (!isScopeToken ·) with
    | some s => .error (.invalid s)
    | none => .ok ((scopes.insertionSort (· ≤ ·)).destutter (· ≠ ·))

/-- The value of the `scope` parameter, which is also the cache key. -/
def scopeKey (set : List String) : String := " ".intercalate set

/-! ### Sorting and dropping duplicates -/

variable {l scopes : List String}

theorem mem_destutter'_ne {x a : String} : x ∈ l.destutter' (· ≠ ·) a ↔ x ∈ a :: l := by
  induction l generalizing a with
  | nil => rfl
  | cons b l ih =>
    by_cases hne : a ≠ b
    · rw [List.destutter'_cons_pos _ hne, List.mem_cons, ih, ← List.mem_cons]
    · rw [List.destutter'_cons_neg _ hne, ih, not_not.mp hne]
      simp

theorem mem_destutter_ne {x : String} : x ∈ l.destutter (· ≠ ·) ↔ x ∈ l := by
  cases l with
  | nil => rfl
  | cons a l => exact mem_destutter'_ne

/-- A sorted list without its duplicates ascends strictly. -/
theorem pairwise_lt_destutter (h : l.Pairwise (· ≤ ·)) :
    (l.destutter (· ≠ ·)).Pairwise (· < ·) := by
  have hle : (l.destutter (· ≠ ·)).Pairwise (· ≤ ·) := h.sublist (List.destutter_sublist _ l)
  have hne : (l.destutter (· ≠ ·)).IsChain (· ≠ ·) := List.isChain_destutter _ l
  rw [← List.isChain_iff_pairwise] at hle ⊢
  generalize l.destutter (· ≠ ·) = m at hle hne
  induction m with
  | nil => exact .nil
  | cons a m ih =>
    cases m with
    | nil => exact .singleton a
    | cons b m =>
      rw [List.isChain_cons_cons] at hle hne ⊢
      exact ⟨lt_of_le_of_ne hle.1 hne.1, ih hle.2 hne.2⟩

/-- What an accepted list is normalised to. -/
theorem normaliseScopes_eq_ok {set : List String} (h : normaliseScopes scopes = .ok set) :
    set.Pairwise (· < ·) ∧ (∀ s, s ∈ set ↔ s ∈ scopes) ∧ (∀ s ∈ set, isScopeToken s = true) ∧
      set ≠ [] := by
  unfold normaliseScopes at h
  split at h
  · cases h
  rename_i hne
  split at h
  · cases h
  rename_i hvalid
  cases h
  have hmem : ∀ s, s ∈ (scopes.insertionSort (· ≤ ·)).destutter (· ≠ ·) ↔ s ∈ scopes :=
    fun s => mem_destutter_ne.trans (List.mem_insertionSort _)
  refine ⟨pairwise_lt_destutter (List.pairwise_insertionSort _ scopes), hmem, fun s hs => ?_, ?_⟩
  · have := List.find?_eq_none.mp hvalid s ((hmem s).mp hs)
    simpa using this
  · obtain ⟨s, hs⟩ := List.exists_mem_of_ne_nil scopes hne
    exact List.ne_nil_of_mem ((hmem s).mpr hs)

/-! ### The key determines the set -/

theorem space_notMem_of_isScopeToken {s : String} (h : isScopeToken s = true) : ' ' ∉ s.toList := by
  intro hmem
  rw [isScopeToken, Bool.and_eq_true] at h
  have hchar := List.all_eq_true.mp h.2 ' ' hmem
  exact absurd hchar (by decide)

theorem splitOn_scopeKey {set : List String} (hvalid : ∀ s ∈ set, isScopeToken s = true)
    (hne : set ≠ []) : (scopeKey set).toList.splitOn ' ' = set.map String.toList := by
  have hspace : " ".toList = [' '] := by decide
  rw [scopeKey, String.toList_intercalate, hspace, List.splitOn_intercalate]
  · intro l hl
    obtain ⟨s, hs, rfl⟩ := List.mem_map.mp hl
    exact space_notMem_of_isScopeToken (hvalid s hs)
  · simpa using hne

/-- The key of an accepted list determines what the list is normalised to. -/
theorem eq_of_scopeKey_eq {scopes' set set' : List String} (h : normaliseScopes scopes = .ok set)
    (h' : normaliseScopes scopes' = .ok set') (hkey : scopeKey set = scopeKey set') :
    set = set' := by
  obtain ⟨-, -, hvalid, hne⟩ := normaliseScopes_eq_ok h
  obtain ⟨-, -, hvalid', hne'⟩ := normaliseScopes_eq_ok h'
  have hsplit := splitOn_scopeKey hvalid hne
  rw [hkey, splitOn_scopeKey hvalid' hne'] at hsplit
  exact (List.map_injective_iff.mpr (fun _ _ => String.toList_inj.mp) hsplit).symm

/-- Two accepted lists have the same key exactly if they are equal as sets. -/
theorem scopeKey_eq_iff {scopes' set set' : List String} (h : normaliseScopes scopes = .ok set)
    (h' : normaliseScopes scopes' = .ok set') :
    scopeKey set = scopeKey set' ↔ ∀ s, s ∈ scopes ↔ s ∈ scopes' := by
  obtain ⟨hsorted, hmem, -, -⟩ := normaliseScopes_eq_ok h
  obtain ⟨hsorted', hmem', -, -⟩ := normaliseScopes_eq_ok h'
  constructor
  · intro hkey s
    rw [← hmem, ← hmem', eq_of_scopeKey_eq h h' hkey]
  · intro hscopes
    have hset : set = set' :=
      hsorted.eq_of_mem_iff hsorted' fun s => (hmem s).trans ((hscopes s).trans (hmem' s).symm)
    rw [hset]

/-- No key is empty. -/
theorem scopeKey_ne {set : List String} (h : normaliseScopes scopes = .ok set) :
    scopeKey set ≠ "" := by
  obtain ⟨-, -, hvalid, hne⟩ := normaliseScopes_eq_ok h
  intro hempty
  have hsplit := splitOn_scopeKey hvalid hne
  rw [hempty] at hsplit
  obtain ⟨s, hs⟩ := List.exists_mem_of_ne_nil set hne
  -- the only part of the empty key is empty, and a scope-token is not
  have hpart : s.toList ∈ "".toList.splitOn ' ' := hsplit ▸ List.mem_map_of_mem hs
  have hnil : s.toList = [] := by simpa using hpart
  have htoken := hvalid s hs
  rw [String.toList_eq_nil_iff.mp hnil] at htoken
  exact absurd htoken (by decide)

end Socrate
