import BackendKit.GoStd.JsonText
import BackendKit.Socrate.ScopedTokens
import BackendKit.ToMathlib.AList
import BackendKit.ToMathlib.History

/-!
# What the cache of scoped tokens guarantees

The argument is about addresses. An address is used for one key (`State.Uses`, `State.WF`), so the
token in an entry was exchanged for the scope set of every call that holds the entry. An invalidation
empties the map, so every address that is found in it later was made later, and so were the exchanges
for it. Ticks are positions in the history of lookups (`State.Aged`), so the smallest one belongs to
the key that was asked for least recently.
-/

open GoStd
open Function (update update_of_ne update_self)
open CallSystem (of_set of_set_of_phase_ne set_self)

namespace Socrate

/-! ### Frames -/

/-- The local variables of a call that has an entry. -/
def Phase.frame? : Phase → Option Frame
  | .waiting f | .holding f | .missed f | .exchanging f _ | .done (.returned f _ _) => some f
  | _ => none

/-- The scope set of a call whose scopes were accepted. -/
def Phase.set? : Phase → Option (List String)
  | .looking set => some set
  | phase => phase.frame?.map Frame.set

/-- The call has sent its request to the token endpoint. -/
def Phase.exchangeBegun : Phase → Bool
  | .exchanging _ _ | .done (.returned _ _ (some _)) => true
  | _ => false

theorem Phase.set?_of_frame? {phase : Phase} {f : Frame} (h : phase.frame? = some f) :
    phase.set? = some f.set := by
  cases phase with
  | looking set => cases h
  | _ => exact congrArg (Option.map Frame.set) h

theorem Phase.exists_frame?_of_exchangeBegun {phase : Phase} (h : phase.exchangeBegun = true) :
    ∃ f, phase.frame? = some f := by
  unfold Phase.exchangeBegun at h
  split at h
  · exact ⟨_, rfl⟩
  · exact ⟨_, rfl⟩
  · cases h

/-- The step makes an entry with the address `p` for the key `k`. -/
def MadeFor (phase : Phase) (sh sh' : Shared) (k : String) (p : ℕ) : Prop :=
  ∃ set, phase = .looking set ∧ k = scopeKey set ∧ p = sh.next ∧ sh'.next = sh.next + 1

section Advances

variable {sv : ServiceClient} {sh sh' : Shared} {request : Request} {phase phase' : Phase}

/-- A call keeps its entry. -/
theorem Advances.keeps_frame (h : Advances sv sh request phase sh' phase') {f : Frame}
    (hf : phase.frame? = some f) : phase'.frame? = some f := by
  cases h with
  | lock | hit | miss | unbuilt | send | fail | store => exact hf
  | _ => cases hf

/-- A call finds its entry in the map, or makes it. -/
theorem Advances.frame (h : Advances sv sh request phase sh' phase') {f : Frame}
    (hf : phase'.frame? = some f) :
    phase.frame? = some f ∨ sh.scopedTokens.lookup (scopeKey f.set) = some f.entry ∨
      MadeFor phase sh sh' (scopeKey f.set) f.entry := by
  cases h with
  | lock | hit | miss | unbuilt | send | fail | store => exact .inl hf
  | found set p hfound =>
    cases hf
    exact .inr (.inl hfound)
  | make set keys hnone hkeys =>
    cases hf
    exact .inr (.inr ⟨set, rfl, rfl, rfl, rfl⟩)
  | _ => cases hf

theorem Shared.lookup_evicted {sh : Shared} {order : List String} {k : String} {p : ℕ}
    (h : (sh.evicted order).lookup k = some p) : sh.scopedTokens.lookup k = some p := by
  unfold Shared.evicted at h
  split at h
  · by_cases heq : k = (sh.oldest order).1
    · rw [heq, AList.lookup_erase] at h
      cases h
    · rwa [AList.lookup_erase_ne heq] at h
  · exact h

/-- What is in the map was there before, or was made by the step. -/
theorem Advances.lookup (h : Advances sv sh request phase sh' phase') {k : String} {p : ℕ}
    (hk : sh'.scopedTokens.lookup k = some p) :
    sh.scopedTokens.lookup k = some p ∨ MadeFor phase sh sh' k p := by
  cases h with
  | make set keys hnone hkeys =>
    change ((sh.evicted keys).insert (scopeKey set) sh.next).lookup k = some p at hk
    by_cases heq : k = scopeKey set
    · rw [heq, AList.lookup_insert, Option.some.injEq] at hk
      exact .inr ⟨set, rfl, heq, hk.symm, rfl⟩
    · rw [AList.lookup_insert_ne heq] at hk
      exact .inl (Shared.lookup_evicted hk)
  | clear => cases hk
  | _ => exact .inl hk

theorem Advances.next_le (h : Advances sv sh request phase sh' phase') : sh.next ≤ sh'.next := by
  cases h with
  | make => exact Nat.le_succ _
  | _ => exact le_refl _

/-- The scope set of a call is that of its scopes. -/
theorem Advances.accepted (h : Advances sv sh request phase sh' phase') {set : List String}
    (hset : phase'.set? = some set) :
    phase.set? = some set ∨ ∃ scopes, request = .token scopes ∧ normaliseScopes scopes = .ok set := by
  cases h with
  | accept scopes set' hrequest hscopes =>
    cases hset
    exact .inr ⟨scopes, hrequest, hscopes⟩
  | found | make | lock | hit | miss | unbuilt | send | fail | store => exact .inl hset
  | _ => cases hset

/-- A step writes to one entry at most: it keeps the token, makes the entry, or stores the token of an
exchange. -/
theorem Advances.heap (h : Advances sv sh request phase sh' phase') :
    sh'.heap = sh.heap ∨ ∃ q e, sh'.heap = update sh.heap q e ∧
      ((e.token = (sh.heap q).token ∧ e.expiry = (sh.heap q).expiry) ∨ e.token = "" ∨
        ∃ f ex, phase' = .done (.returned f (.ok (e.token, e.expiry)) (some ex)) ∧ f.entry = q) := by
  cases h with
  | found | lock | hit | unbuilt | fail => exact .inr ⟨_, _, rfl, Or.inl ⟨rfl, rfl⟩⟩
  | make => exact .inr ⟨_, _, rfl, Or.inr (.inl rfl)⟩
  | store f sent a token expiry hresult =>
    exact .inr ⟨_, _, rfl, Or.inr (.inr ⟨f, _, rfl, rfl⟩)⟩
  | _ => exact .inl rfl

/-- Where the token of an entry comes from. -/
theorem Advances.token (h : Advances sv sh request phase sh' phase') (p : ℕ) :
    ((sh'.heap p).token = (sh.heap p).token ∧ (sh'.heap p).expiry = (sh.heap p).expiry) ∨
      (sh'.heap p).token = "" ∨
      ∃ f ex, phase' = .done (.returned f (.ok ((sh'.heap p).token, (sh'.heap p).expiry)) (some ex)) ∧
        f.entry = p := by
  obtain hsame | ⟨q, e, hheap, hentry⟩ := h.heap
  · rw [hsame]
    exact .inl ⟨rfl, rfl⟩
  · by_cases heq : p = q
    · rw [hheap, heq, update_self]
      exact hentry
    · rw [hheap, update_of_ne heq]
      exact .inl ⟨rfl, rfl⟩

/-- What a call returns is in its entry, or comes from its own exchange. -/
theorem Advances.returned (h : Advances sv sh request phase sh' phase') {f : Frame} {token : String}
    {expiry : ℤ} {via : Option Exchange}
    (hphase : phase' = .done (.returned f (.ok (token, expiry)) via)) :
    (via = none ∧ token ≠ "" ∧ (sh.heap f.entry).token = token ∧
        (sh.heap f.entry).expiry = expiry) ∨
      ∃ ex, via = some ex ∧ ex.form = sv.client.credentialsForm (scopeKey f.set) ∧
        Grants sv.wire f.set ex.answer token := by
  cases h with
  | hit f' htoken =>
    cases hphase
    exact .inl ⟨rfl, htoken, rfl, rfl⟩
  | store f' sent a token' expiry' hresult =>
    cases hphase
    exact .inr ⟨_, rfl, rfl, ServiceClient.grants_of_exchangeScoped hresult⟩
  | _ => cases hphase

end Advances

/-! ### Addresses and keys -/

namespace State

variable {sv : ServiceClient}

variable {s s' : State} {c p : ℕ}

/-- A step starts a call, or takes one further. -/
theorem step_cases {ev : Event} (h : sv.methods.step s ev = some s') :
    (∃ c request, ev = .call c request ∧ s.calls c = none ∧
      s' = s.set c s.shared ⟨request, .begun⟩) ∨
    ∃ c call input sh phase, ev = .step c input ∧ s.calls c = some call ∧
      Advances sv s.shared call.request call.phase sh phase ∧
      s' = s.set c sh ⟨call.request, phase⟩ := by
  obtain hcall | ⟨c, call, input, sh, phase, hev, hcall, hadv, rfl⟩ := CallSystem.step_cases h
  · exact .inl hcall
  · exact .inr ⟨c, call, input, sh, phase, hev, hcall, advances_of_advance hadv, rfl⟩

/-- The address is that of an entry for the key, in the map or in the hands of a call. -/
def Uses (s : State) (k : String) (p : ℕ) : Prop :=
  s.shared.scopedTokens.lookup k = some p ∨
    ∃ c call f, s.calls c = some call ∧ call.phase.frame? = some f ∧ f.entry = p ∧ scopeKey f.set = k

/-- The call `x` has exchanged the token for the entry at `p`. -/
def Supplies (sv : ServiceClient) (s : State) (x p : ℕ) (token : String) (expiry : ℤ) : Prop :=
  ∃ request f ex,
    s.calls x = some ⟨request, .done (.returned f (.ok (token, expiry)) (some ex))⟩ ∧ f.entry = p ∧
      ex.form = sv.client.credentialsForm (scopeKey f.set) ∧ Grants sv.wire f.set ex.answer token

/-- What holds of every state that can be reached. -/
structure WF (sv : ServiceClient) (s : State) : Prop where
  /-- The addresses in use have been given out, each for one key. -/
  bounded : ∀ k p, s.Uses k p → p < s.shared.next
  keyed : ∀ k k' p, s.Uses k p → s.Uses k' p → k = k'
  /-- The scope set of a call is that of its scopes. -/
  accepted : ∀ c call set, s.calls c = some call → call.phase.set? = some set →
    ∃ scopes, call.request = .token scopes ∧ normaliseScopes scopes = .ok set
  /-- Stored and returned tokens were exchanged for the entry. -/
  stored : ∀ p, (s.shared.heap p).token ≠ "" →
    ∃ x, s.Supplies sv x p (s.shared.heap p).token (s.shared.heap p).expiry
  returned : ∀ c request f token expiry via,
    s.calls c = some ⟨request, .done (.returned f (.ok (token, expiry)) via)⟩ →
      ∃ x, s.Supplies sv x f.entry token expiry

theorem uses_of_frame {call : CallSystem.Call Request Phase} {f : Frame}
    (hc : s.calls c = some call) (hf : call.phase.frame? = some f) :
    s.Uses (scopeKey f.set) f.entry :=
  Or.inr ⟨c, call, f, hc, hf, rfl, rfl⟩

theorem isFinal_done (sv : ServiceClient) (outcome : Outcome) :
    sv.methods.IsFinal (.done outcome) := by
  intro sh request input
  cases input <;> rfl

theorem Supplies.later {x : ℕ} {token : String} {expiry : ℤ} (h : s.Supplies sv x p token expiry)
    (hlater : sv.methods.Later s s') :
    s'.Supplies sv x p token expiry := by
  obtain ⟨request, f, ex, hx, hentry, hform, hgrants⟩ := h
  exact ⟨request, f, ex, hlater.final x _ hx (isFinal_done sv _), hentry, hform, hgrants⟩

theorem Uses.of_call {request : Request} {k : String}
    (h : Uses (s.set c s.shared ⟨request, .begun⟩) k p) : s.Uses k p := by
  obtain hlookup | ⟨c', call, f, hc', hf, hentry, hkey⟩ := h
  · exact .inl hlookup
  · obtain ⟨-, rfl⟩ | ⟨-, hold⟩ := of_set hc'
    · cases hf
    · exact .inr ⟨c', call, f, hold, hf, hentry, hkey⟩

theorem Uses.of_advance {call : CallSystem.Call Request Phase} {sh : Shared} {phase : Phase}
    (hcall : s.calls c = some call) (hadv : Advances sv s.shared call.request call.phase sh phase)
    {k : String} (h : Uses (s.set c sh ⟨call.request, phase⟩) k p) :
    s.Uses k p ∨ MadeFor call.phase s.shared sh k p := by
  obtain hlookup | ⟨c', call', f, hc', hf, rfl, rfl⟩ := h
  · obtain hold | hmade := hadv.lookup hlookup
    · exact .inl (.inl hold)
    · exact .inr hmade
  · obtain ⟨-, rfl⟩ | ⟨-, hold⟩ := of_set hc'
    · obtain hbefore | hfound | hmade := hadv.frame hf
      · exact .inl (uses_of_frame hcall hbefore)
      · exact .inl (.inl hfound)
      · exact .inr hmade
    · exact .inl (uses_of_frame hold hf)

theorem wf_of_isInit (h : (system sv).IsInit s) : WF sv s := by
  have hnone : ∀ c call, s.calls c ≠ some call := by
    intro c call hc
    rw [CallSystem.calls_of_isInit h] at hc
    cases hc
  have hunused : ∀ k p, ¬ s.Uses k p := by
    rintro k p (hlookup | ⟨c, call, f, hc, -⟩)
    · rw [h.1.1] at hlookup
      cases hlookup
    · exact hnone c call hc
  exact ⟨fun k p hu => absurd hu (hunused k p), fun k _ p hu => absurd hu (hunused k p),
    fun c call _ hc => absurd hc (hnone c call), fun p hp => absurd (h.1.2.2.2 p) hp,
    fun c _ _ _ _ _ hc => absurd hc (hnone c _)⟩

theorem WF.step {ev : Event} (h : WF sv s) (hstep : sv.methods.step s ev = some s') : WF sv s' := by
  have hlater := CallSystem.later_step hstep
  obtain ⟨c, request, -, -, rfl⟩ | ⟨c, call, input, sh, phase, -, hcall, hadv, rfl⟩ :=
    step_cases hstep
  · refine ⟨fun k p hu => h.bounded k p hu.of_call,
      fun k k' p hu hu' => h.keyed k k' p hu.of_call hu'.of_call, fun c' call' set hc' hset => ?_,
      fun p hp => ?_, fun c' request' f token expiry via hc' => ?_⟩
    · obtain ⟨-, rfl⟩ | ⟨-, hold⟩ := of_set hc'
      · cases hset
      · exact h.accepted c' call' set hold hset
    · obtain ⟨x, hx⟩ := h.stored p hp
      exact ⟨x, hx.later hlater⟩
    · have hold := of_set_of_phase_ne hc' nofun
      obtain ⟨x, hx⟩ := h.returned c' request' f token expiry via hold
      exact ⟨x, hx.later hlater⟩
  -- what the call itself returns with this step
  have hmine : ∀ f token expiry via, phase = .done (.returned f (.ok (token, expiry)) via) →
      ∃ x, Supplies sv (s.set c sh ⟨call.request, phase⟩) x f.entry token expiry := by
    intro f token expiry via hphase
    obtain ⟨rfl, htoken, rfl, rfl⟩ | ⟨ex, rfl, hform, hgrants⟩ := hadv.returned hphase
    · obtain ⟨x, hx⟩ := h.stored f.entry htoken
      exact ⟨x, hx.later hlater⟩
    · subst hphase
      exact ⟨c, call.request, f, ex, set_self s c _ _, rfl, hform, hgrants⟩
  refine ⟨fun k p hu => ?_, fun k k' p hu hu' => ?_, fun c' call' set hc' hset => ?_,
    fun p hp => ?_, fun c' request' f token expiry via hc' => ?_⟩
  · obtain hold | ⟨set, -, -, rfl, hnext⟩ := hu.of_advance hcall hadv
    · exact lt_of_lt_of_le (h.bounded k p hold) hadv.next_le
    · show s.shared.next < sh.next
      omega
  · -- a new address is not one of those that were in use
    obtain hold | ⟨set, hset, rfl, rfl, -⟩ := hu.of_advance hcall hadv
    · obtain hold' | ⟨set, -, -, rfl, -⟩ := hu'.of_advance hcall hadv
      · exact h.keyed k k' p hold hold'
      · exact absurd (h.bounded k _ hold) (lt_irrefl _)
    · obtain hold' | ⟨set', hset', rfl, -, -⟩ := hu'.of_advance hcall hadv
      · exact absurd (h.bounded k' _ hold') (lt_irrefl _)
      · cases hset.symm.trans hset'
        rfl
  · obtain ⟨-, rfl⟩ | ⟨-, hold⟩ := of_set hc'
    · obtain hbefore | hnew := hadv.accepted hset
      · exact h.accepted c call set hcall hbefore
      · exact hnew
    · exact h.accepted c' call' set hold hset
  · change (sh.heap p).token ≠ "" at hp
    obtain ⟨htoken, hexpiry⟩ | hempty | ⟨f, ex, hphase, rfl⟩ := hadv.token p
    · obtain ⟨x, hx⟩ := h.stored p (htoken ▸ hp)
      rw [← htoken, ← hexpiry] at hx
      exact ⟨x, hx.later hlater⟩
    · exact absurd hempty hp
    · exact hmine f _ _ _ hphase
  · obtain ⟨-, heq⟩ | ⟨-, hold⟩ := of_set hc'
    · exact hmine f token expiry via (CallSystem.Call.mk.inj heq).2.symm
    · obtain ⟨x, hx⟩ := h.returned c' request' f token expiry via hold
      exact ⟨x, hx.later hlater⟩

end State

/-! ### Ticks -/

namespace Shared

open History

/-- The lookup asks for the key. -/
def asks (k : String) (asked : String) : Bool := asked = k

theorem asks_self (k : String) : asks k k = true := decide_eq_true rfl

variable {k : String} {h : List String} {sh : Shared} {order : List String}

theorem asks_of_ne {asked : String} (h : k ≠ asked) : asks k asked = false :=
  decide_eq_false fun heq => h heq.symm

/-- The loop keeps the smallest tick that it has seen. -/
theorem foldl_older (hne : "" ∉ order) (found : String × ℕ) (hfound : found.1 ≠ "")
    (htick : found.2 = sh.lastUsed found.1) :
    (order.foldl sh.older found).1 ∈ found.1 :: order ∧
      (order.foldl sh.older found).2 = sh.lastUsed (order.foldl sh.older found).1 ∧
      ∀ k ∈ found.1 :: order, (order.foldl sh.older found).2 ≤ sh.lastUsed k := by
  induction order generalizing found with
  | nil => simp [htick]
  | cons k order ih =>
    rw [List.mem_cons, not_or] at hne
    rw [List.foldl_cons]
    by_cases hless : sh.lastUsed k < found.2
    · -- the entry is older than those before it
      have hstep : sh.older found k = (k, sh.lastUsed k) := if_pos (.inr hless)
      rw [hstep]
      obtain ⟨hmem, hsame, hle⟩ := ih hne.2 (k, sh.lastUsed k) (Ne.symm hne.1) rfl
      refine ⟨List.mem_cons_of_mem _ hmem, hsame, fun k' hk' => ?_⟩
      rcases List.mem_cons.mp hk' with rfl | hk'
      · exact le_trans (hle k List.mem_cons_self) (htick ▸ hless.le)
      · exact hle k' hk'
    · have hstep : sh.older found k = found := if_neg (not_or.mpr ⟨hfound, hless⟩)
      rw [hstep]
      obtain ⟨hmem, hsame, hle⟩ := ih hne.2 found hfound htick
      refine ⟨?_, hsame, fun k' hk' => ?_⟩
      · rcases List.mem_cons.mp hmem with heq | hmem
        · exact heq ▸ List.mem_cons_self
        · exact List.mem_cons_of_mem _ (List.mem_cons_of_mem _ hmem)
      · rcases List.mem_cons.mp hk' with rfl | hk'
        · exact hle _ List.mem_cons_self
        rcases List.mem_cons.mp hk' with rfl | hk'
        · exact le_trans (hle _ List.mem_cons_self) (htick ▸ not_lt.mp hless)
        · exact hle k' (List.mem_cons_of_mem _ hk')

/-- The loop finds an oldest entry. -/
theorem oldest_mem (sh : Shared) (hne : "" ∉ order) (hnil : order ≠ []) :
    (sh.oldest order).1 ∈ order ∧
      ∀ k ∈ order, sh.lastUsed (sh.oldest order).1 ≤ sh.lastUsed k := by
  cases order with
  | nil => exact absurd rfl hnil
  | cons k order =>
    rw [List.mem_cons, not_or] at hne
    -- the first entry is taken whatever its tick is
    have hfirst : sh.oldest (k :: order) = order.foldl sh.older (k, sh.lastUsed k) := by
      rw [oldest, List.foldl_cons]
      exact congrArg (List.foldl sh.older · order) (if_pos (.inl rfl))
    rw [hfirst]
    obtain ⟨hmem, hsame, hle⟩ := foldl_older hne.2 (k, sh.lastUsed k) (Ne.symm hne.1) rfl
    exact ⟨hmem, fun k' hk' => hsame ▸ hle k' hk'⟩

/-- The ticks of the entries are positions in the history of lookups, the newest of which is the
first. -/
structure Aged (sh : Shared) (h : List String) : Prop where
  size : sh.scopedTokens.entries.length ≤ maxScopedServiceTokens
  tick : sh.scopedTick = h.length
  aged : ∀ k p, sh.scopedTokens.lookup k = some p → (sh.heap p).lastUsed = lastIndex (asks k) h
  asked : ∀ k p, sh.scopedTokens.lookup k = some p → 0 < lastIndex (asks k) h
  named : "" ∉ sh.scopedTokens.keys

theorem Aged.lastUsed (ha : sh.Aged h) (hk : k ∈ sh.scopedTokens.keys) :
    sh.lastUsed k = lastIndex (asks k) h := by
  obtain ⟨p, hp⟩ := Option.isSome_iff_exists.mp (AList.lookup_isSome.mpr (AList.mem_keys.mpr hk))
  rw [Shared.lastUsed, hp]
  exact ha.aged k p hp

theorem mem_keys_of_lookup {p : ℕ} (h : sh.scopedTokens.lookup k = some p) :
    k ∈ sh.scopedTokens.keys :=
  AList.mem_keys.mp (AList.lookup_isSome.mp (h ▸ rfl))

/-- A key that was found is now the one that was asked for last. -/
theorem Aged.touch (ha : sh.Aged h) {key : String} {p : ℕ}
    (hkeyed : ∀ k, sh.scopedTokens.lookup k = some p → k = key)
    (hfound : sh.scopedTokens.lookup key = some p) : (sh.touch p).Aged (key :: h) := by
  refine ⟨ha.size, congrArg (· + 1) ha.tick, fun k q hq => ?_, fun k q hq => ?_, ha.named⟩
  · change (update sh.heap p _ q).lastUsed = _
    by_cases heq : k = key
    · subst heq
      cases hfound.symm.trans hq
      rw [update_self, lastIndex_cons_of_pos (asks_self k)]
      exact congrArg (· + 1) ha.tick
    · -- the entry of another key has another address
      have hne : q ≠ p := by
        rintro rfl
        exact heq (hkeyed k hq)
      rw [update_of_ne hne, lastIndex_cons_of_neg (asks_of_ne heq)]
      exact ha.aged k q hq
  · by_cases heq : k = key
    · rw [heq, lastIndex_cons_of_pos (asks_self key)]
      exact Nat.succ_pos _
    · rw [lastIndex_cons_of_neg (asks_of_ne heq)]
      exact ha.asked k q hq

/-- There is room for one more entry, and what was dropped for it is the oldest one. -/
theorem Aged.evicted (ha : sh.Aged h) (horder : order.Perm sh.scopedTokens.keys) :
    (sh.evicted order).entries.length < maxScopedServiceTokens ∧
      ∀ k p, sh.scopedTokens.lookup k = some p → (sh.evicted order).lookup k = none →
        ∀ k' ∈ sh.scopedTokens.keys, k' ≠ k → lastIndex (asks k) h < lastIndex (asks k') h := by
  unfold Shared.evicted
  split
  · rename_i hfull
    have hnil : order ≠ [] := by
      rintro rfl
      have hzero := horder.length_eq
      rw [AList.keys, List.keys, List.length_map, List.length_nil] at hzero
      rw [← hzero] at hfull
      exact absurd hfull (by decide)
    obtain ⟨hmem, hle⟩ := oldest_mem sh (fun hmem => ha.named (horder.subset hmem)) hnil
    have hold := horder.subset hmem
    refine ⟨?_, fun k p hk hgone k' hk' hne => ?_⟩
    · have hless := AList.length_erase_of_mem (AList.mem_keys.mpr hold)
      have hsize := ha.size
      omega
    · -- only the oldest key is gone, and no two keys have the same tick
      have heq : k = (sh.oldest order).1 := by
        by_contra hother
        rw [AList.lookup_erase_ne hother, hk] at hgone
        cases hgone
      have hticks := hle k' (horder.mem_iff.mpr hk')
      rw [← heq, ha.lastUsed (mem_keys_of_lookup hk), ha.lastUsed hk'] at hticks
      refine lt_of_le_of_ne hticks (lastIndex_ne (fun b hb => ?_) (ha.asked k p hk))
      rw [of_decide_eq_true hb]
      exact asks_of_ne hne
  · rename_i hroom
    refine ⟨not_le.mp hroom, fun k p hk hgone => ?_⟩
    cases hk.symm.trans hgone

/-- The key of a new entry is the one that was asked for last. -/
theorem Aged.allocate (ha : sh.Aged h)
    (hbounded : ∀ k p, sh.scopedTokens.lookup k = some p → p < sh.next) {key : String}
    (hkey : key ≠ "") (hnone : sh.scopedTokens.lookup key = none)
    (horder : order.Perm sh.scopedTokens.keys) : (sh.allocate key order).Aged (key :: h) := by
  have hfresh : key ∉ sh.evicted order := by
    intro hmem
    obtain ⟨p, hp⟩ := Option.isSome_iff_exists.mp (AList.lookup_isSome.mpr hmem)
    cases hnone.symm.trans (lookup_evicted hp)
  -- every other entry was there before
  have hother : ∀ k q, k ≠ key →
      ((sh.evicted order).insert key sh.next).lookup k = some q →
        sh.scopedTokens.lookup k = some q := by
    intro k q hne hq
    rw [AList.lookup_insert_ne hne] at hq
    exact lookup_evicted hq
  refine ⟨?_, congrArg (· + 1) ha.tick, fun k q hq => ?_, fun k q hq => ?_, fun hempty => ?_⟩
  · change ((sh.evicted order).insert key sh.next).entries.length ≤ _
    rw [AList.length_insert_of_notMem _ hfresh]
    exact (ha.evicted horder).1
  · change (update sh.heap sh.next _ q).lastUsed = _
    change ((sh.evicted order).insert key sh.next).lookup k = some q at hq
    by_cases heq : k = key
    · rw [heq, AList.lookup_insert, Option.some.injEq] at hq
      rw [heq, ← hq, update_self, lastIndex_cons_of_pos (asks_self key)]
      exact congrArg (· + 1) ha.tick
    · have hold := hother k q heq hq
      rw [update_of_ne (hbounded k q hold).ne, lastIndex_cons_of_neg (asks_of_ne heq)]
      exact ha.aged k q hold
  · by_cases heq : k = key
    · rw [heq, lastIndex_cons_of_pos (asks_self key)]
      exact Nat.succ_pos _
    · rw [lastIndex_cons_of_neg (asks_of_ne heq)]
      exact ha.asked k q (hother k q heq hq)
  · obtain ⟨q, hq⟩ := Option.isSome_iff_exists.mp
      (AList.lookup_isSome.mpr (AList.mem_keys.mpr hempty))
    exact ha.named (mem_keys_of_lookup (hother "" q (Ne.symm hkey) hq))

/-- Steps without a lookup keep the ticks. -/
theorem Aged.of_same {sh' : Shared} (ha : sh.Aged h) (htick : sh'.scopedTick = sh.scopedTick)
    (hmap : sh'.scopedTokens = sh.scopedTokens ∨ sh'.scopedTokens = ∅)
    (hused : ∀ p, (sh'.heap p).lastUsed = (sh.heap p).lastUsed) : sh'.Aged h := by
  obtain hsame | hempty := hmap
  · refine ⟨hsame ▸ ha.size, htick.trans ha.tick, fun k p hp => ?_, fun k p hp => ?_,
      hsame ▸ ha.named⟩
    · rw [hsame] at hp
      exact (hused p).trans (ha.aged k p hp)
    · rw [hsame] at hp
      exact ha.asked k p hp
  · refine ⟨hempty ▸ Nat.zero_le _, htick.trans ha.tick, fun k p hp => ?_, fun k p hp => ?_, ?_⟩
    · rw [hempty] at hp
      cases hp
    · rw [hempty] at hp
      cases hp
    · rw [hempty]
      exact List.not_mem_nil

end Shared

/-- Ticks change in `scopedEntry` only. -/
theorem Advances.ticks {sv : ServiceClient} {sh sh' : Shared} {request : Request}
    {phase phase' : Phase} (h : Advances sv sh request phase sh' phase')
    (hphase : ∀ set, phase ≠ .looking set) :
    sh'.scopedTick = sh.scopedTick ∧
      (sh'.scopedTokens = sh.scopedTokens ∨ sh'.scopedTokens = ∅ ∧ phase = .clearing) ∧
      ∀ p, (sh'.heap p).lastUsed = (sh.heap p).lastUsed := by
  have hwrite : ∀ q e, e.lastUsed = (sh.heap q).lastUsed →
      ∀ p, ((sh.set q e).heap p).lastUsed = (sh.heap p).lastUsed := by
    intro q e he p
    change (update sh.heap q e p).lastUsed = _
    by_cases heq : p = q
    · rw [heq, update_self, he]
    · rw [update_of_ne heq]
  cases h with
  | found | make => exact absurd rfl (hphase _)
  | lock | hit | unbuilt | fail | store => exact ⟨rfl, Or.inl rfl, hwrite _ _ rfl⟩
  | clear => exact ⟨rfl, Or.inr ⟨rfl, rfl⟩, fun _ => rfl⟩
  | _ => exact ⟨rfl, Or.inl rfl, fun _ => rfl⟩

/-! ### Runs -/

namespace State

open History

variable {sv : ServiceClient}

/-- The key that the step looks up. -/
def askedKey (s : State) : Event → Option String
  | .call _ _ => none
  | .step c _ =>
    match s.calls c with
    | some ⟨_, .looking set⟩ => some (scopeKey set)
    | _ => none

variable {s : State} {c : ℕ} {s' : State} {ev : Event} {f : Frame} {n : ℕ}

theorem askedKey_of_looking {request : Request} {set : List String}
    (h : s.calls c = some ⟨request, .looking set⟩) (input : Input) :
    s.askedKey (.step c input) = some (scopeKey set) := by
  rw [askedKey, h]

theorem askedKey_eq_none {call : CallSystem.Call Request Phase} (h : s.calls c = some call)
    (hphase : ∀ set, call.phase ≠ .looking set) (input : Input) :
    s.askedKey (.step c input) = none := by
  rw [askedKey, h]
  split
  · rename_i request set heq
    cases heq
    exact absurd rfl (hphase set)
  · rfl

/-- One step of the cache: the ticks stay positions in the history, and a key goes when everything is
cleared, or when it is the one that was asked for least recently. -/
theorem Aged.step {h : List String} (hwf : WF sv s) (ha : s.shared.Aged h)
    (hstep : sv.methods.step s ev = some s') :
    s'.shared.Aged ((s.askedKey ev).toList ++ h) ∧
      ∀ k ∈ s.shared.scopedTokens, k ∉ s'.shared.scopedTokens →
        (∃ c request input, ev = .step c input ∧ s.calls c = some ⟨request, .clearing⟩) ∨
        (s.askedKey ev).isSome ∧ ∀ k' ∈ s.shared.scopedTokens, k' ≠ k →
          lastIndex (Shared.asks k) h < lastIndex (Shared.asks k') h := by
  obtain ⟨c, request, rfl, -, rfl⟩ | ⟨c, call, input, sh, phase, rfl, hcall, hadv, rfl⟩ :=
    step_cases hstep
  · exact ⟨ha, fun k hk hgone => absurd hk hgone⟩
  by_cases hlooking : ∃ set, call.phase = .looking set
  · obtain ⟨set, hphase⟩ := hlooking
    obtain ⟨request, before⟩ := call
    obtain rfl : before = .looking set := hphase
    rw [askedKey_of_looking hcall]
    obtain ⟨scopes, -, hset⟩ := hwf.accepted c _ set hcall rfl
    cases hadv with
    | found set p hfound =>
      have hkeyed : ∀ k, s.shared.scopedTokens.lookup k = some p → k = scopeKey set :=
        fun k hk => hwf.keyed k _ p (.inl hk) (.inl hfound)
      exact ⟨ha.touch hkeyed hfound, fun k hk hgone => absurd hk hgone⟩
    | make set keys hnone hkeys =>
      refine ⟨ha.allocate (fun k p hk => hwf.bounded k p (.inl hk)) (scopeKey_ne hset) hnone hkeys,
        fun k hk hgone => .inr ⟨rfl, fun k' hk' hne => ?_⟩⟩
      obtain ⟨p, hp⟩ := Option.isSome_iff_exists.mp (AList.lookup_isSome.mpr hk)
      have hother : k ≠ scopeKey set := by
        rintro rfl
        cases hnone.symm.trans hp
      have hlookup := AList.lookup_eq_none.mpr hgone
      change ((s.shared.evicted keys).insert _ _).lookup k = none at hlookup
      rw [AList.lookup_insert_ne hother] at hlookup
      exact (ha.evicted hkeys).2 k p hp hlookup k' (AList.mem_keys.mp hk') hne
  · have hphase : ∀ set, call.phase ≠ .looking set := fun set heq => hlooking ⟨set, heq⟩
    rw [askedKey_eq_none hcall hphase]
    obtain ⟨htick, hmap, hused⟩ := hadv.ticks hphase
    refine ⟨ha.of_same htick (hmap.imp id And.left) hused, fun k hk hgone => .inl ?_⟩
    obtain hsame | ⟨-, hclearing⟩ := hmap
    · exact absurd (hsame ▸ hk) hgone
    · obtain ⟨request, before⟩ := call
      obtain rfl : before = .clearing := hclearing
      exact ⟨c, request, input, rfl, hcall⟩

/-- The call `x` has exchanged the token for the scope set. -/
def ObtainedBy (sv : ServiceClient) (s : State) (x : ℕ) (set : List String) (token : String)
    (expiry : ℤ) : Prop :=
  ∃ scopes f ex,
    s.calls x = some ⟨.token scopes, .done (.returned f (.ok (token, expiry)) (some ex))⟩ ∧
      ex.form = sv.client.credentialsForm (scopeKey set) ∧ Grants sv.wire set ex.answer token

/-- What was exchanged for an entry was exchanged for the scope set of every call that has it. -/
theorem WF.obtainedBy (h : WF sv s) {x : ℕ} {request : Request} {phase : Phase}
    (hc : s.calls c = some ⟨request, phase⟩) (hf : phase.frame? = some f) {token : String}
    {expiry : ℤ} (hx : s.Supplies sv x f.entry token expiry) :
    ∃ scopes, request = .token scopes ∧ normaliseScopes scopes = .ok f.set ∧
      s.ObtainedBy sv x f.set token expiry := by
  obtain ⟨request', f', ex, hx, hentry, hform, hgrants⟩ := hx
  obtain ⟨scopes, hrequest, hset⟩ := h.accepted c _ f.set hc (Phase.set?_of_frame? hf)
  obtain ⟨scopes', hrequest', hset'⟩ := h.accepted x _ f'.set hx rfl
  dsimp only at hrequest hrequest'
  have hkey : scopeKey f'.set = scopeKey f.set :=
    h.keyed _ _ f.entry (hentry ▸ uses_of_frame hx rfl) (uses_of_frame hc hf)
  have heq : f'.set = f.set := eq_of_scopeKey_eq hset' hset hkey
  rw [heq] at hform hgrants
  exact ⟨scopes, hrequest, hset, scopes', f', ex, hrequest' ▸ hx, hform, hgrants⟩

theorem wf_of_reachable (h : (system sv).Reachable s) : WF sv s :=
  StepSystem.reachable_invariant (fun _ => wf_of_isInit) (fun _ _ _ hs hstep => hs.step hstep) h

theorem aged_of_isInit (h : (system sv).IsInit s) : s.shared.Aged [] := by
  obtain ⟨⟨hmap, htick, -, -⟩, -⟩ := h
  refine ⟨hmap ▸ Nat.zero_le _, htick, fun k p hp => ?_, fun k p hp => ?_,
    hmap ▸ List.not_mem_nil⟩
  · rw [hmap] at hp
    cases hp
  · rw [hmap] at hp
    cases hp

theorem aged_of_reachable {h : List String}
    (hreach : ((system sv).recorded askedKey).Reachable (s, h)) : WF sv s ∧ s.shared.Aged h := by
  refine StepSystem.reachable_invariant (I := fun t => WF sv t.1 ∧ t.1.shared.Aged t.2) ?_ ?_ hreach
  · rintro ⟨t, h⟩ ⟨hinit, rfl⟩
    exact ⟨wf_of_isInit hinit, aged_of_isInit hinit⟩
  · rintro ⟨t, h⟩ ev ⟨t', h'⟩ ⟨hwf, ha⟩ hstep
    obtain ⟨hstep, rfl⟩ := StepSystem.step_recorded_eq_some.mp hstep
    exact ⟨hwf.step hstep, (Aged.step hwf ha hstep).1⟩

theorem length_le_of_reachable (hreach : (system sv).Reachable s) :
    s.shared.scopedTokens.entries.length ≤ maxScopedServiceTokens := by
  obtain ⟨s₀, es, hinit, hrun⟩ := hreach
  obtain ⟨h, hrec⟩ := StepSystem.exists_run_recorded askedKey hrun []
  exact (aged_of_reachable ⟨(s₀, []), es, ⟨hinit, rfl⟩, hrec⟩).2.size

/-! ### After an invalidation -/

/-- All addresses in the map were given out from `n` on. -/
def Newer (n : ℕ) (sh : Shared) : Prop :=
  ∀ k p, sh.scopedTokens.lookup k = some p → n ≤ p

theorem Newer.advance {sh sh' : Shared} {request : Request} {phase phase' : Phase} (h : Newer n sh)
    (hnext : n ≤ sh.next) (hadv : Advances sv sh request phase sh' phase') :
    Newer n sh' := by
  intro k p hp
  obtain hold | ⟨set, -, -, rfl, -⟩ := hadv.lookup hp
  · exact h k p hold
  · exact hnext

/-- Once the invalidation `g` has returned, all addresses in the map are new. -/
structure Invalidating (g n : ℕ) (s : State) : Prop where
  next : n ≤ s.shared.next
  newer : ∀ request, s.calls g = some ⟨request, .done .invalidated⟩ → Newer n s.shared

theorem Invalidating.step {g : ℕ} (h : Invalidating g n s) (hstep : sv.methods.step s ev = some s')
    : Invalidating g n s' := by
  obtain ⟨c, request, -, -, rfl⟩ | ⟨c, call, input, sh, phase, -, hcall, hadv, rfl⟩ :=
    step_cases hstep
  · refine ⟨h.next, fun request' hg => ?_⟩
    exact h.newer request' (of_set_of_phase_ne hg nofun)
  · refine ⟨le_trans h.next hadv.next_le, fun request' hg => ?_⟩
    obtain ⟨-, heq⟩ | ⟨-, hold⟩ := of_set hg
    · -- the invalidation has just emptied the map
      obtain ⟨request, before⟩ := call
      cases heq
      cases hadv with
      | clear => exact fun k p hp => (nomatch hp)
    · exact (h.newer request' hold).advance h.next hadv

/-- A call that was made afterwards has a new address. -/
structure Following (c n : ℕ) (s : State) : Prop where
  next : n ≤ s.shared.next
  newer : Newer n s.shared
  frame : ∀ call f, s.calls c = some call → call.phase.frame? = some f → n ≤ f.entry

theorem Following.step (h : Following c n s) (hstep : sv.methods.step s ev = some s') :
    Following c n s' := by
  obtain ⟨d, request, -, -, rfl⟩ | ⟨d, call, input, sh, phase, -, hcall, hadv, rfl⟩ :=
    step_cases hstep
  · refine ⟨h.next, h.newer, fun call' f hc hf => ?_⟩
    obtain ⟨-, rfl⟩ | ⟨-, hold⟩ := of_set hc
    · cases hf
    · exact h.frame call' f hold hf
  · refine ⟨le_trans h.next hadv.next_le, h.newer.advance h.next hadv, fun call' f hc hf => ?_⟩
    obtain ⟨rfl, rfl⟩ | ⟨-, hold⟩ := of_set hc
    · obtain hbefore | hfound | ⟨set, -, -, hentry, -⟩ := hadv.frame hf
      · exact h.frame call f hcall hbefore
      · exact h.newer _ _ hfound
      · exact hentry ▸ h.next
    · exact h.frame call' f hold hf

/-- If `g` was not made in `s₀` and has returned in `s₁`, and `c` was not made in `s₁`, then the entry
of `c` was made after `s₀`. -/
theorem entry_of_invalidated {s₀ s₁ s₂ : State} {es₁ es₂ : List Event}
    (h₁ : (system sv).run s₀ es₁ = some s₁) (h₂ : (system sv).run s₁ es₂ = some s₂) {g : ℕ}
    (hg₀ : s₀.calls g = none) {request : Request}
    (hg₁ : s₁.calls g = some ⟨request, .done .invalidated⟩) (hc₁ : s₁.calls c = none)
    {call : CallSystem.Call Request Phase} (hc₂ : s₂.calls c = some call)
    (hf : call.phase.frame? = some f) : s₀.shared.next ≤ f.entry := by
  have hinv : Invalidating g s₀.shared.next s₁ := by
    refine StepSystem.run_invariant' (I := Invalidating g s₀.shared.next)
      (fun _ _ _ hs hstep => hs.step hstep) h₁ ⟨le_refl _, fun request' hg => ?_⟩
    rw [hg₀] at hg
    cases hg
  have hfollow : Following c s₀.shared.next s₂ := by
    refine StepSystem.run_invariant' (I := Following c s₀.shared.next)
      (fun _ _ _ hs hstep => hs.step hstep) h₂ ⟨hinv.next, hinv.newer request hg₁, fun call' f' hc => ?_⟩
    rw [hc₁] at hc
    cases hc
  exact hfollow.frame call f hc₂ hf

/-- A call whose entry was made after `s₀` had not sent a request in `s₀`. -/
theorem exchangeBegun_eq_false {s₀ : State} {es : List Event} (hwf : WF sv s₀)
    (hrun : (system sv).run s₀ es = some s) {x : ℕ} {call : CallSystem.Call Request Phase}
    (hx : s.calls x = some call) (hf : call.phase.frame? = some f) (hnew : s₀.shared.next ≤ f.entry)
    {call₀ : CallSystem.Call Request Phase} (hx₀ : s₀.calls x = some call₀) :
    call₀.phase.exchangeBegun = false := by
  rw [← Bool.not_eq_true]
  intro hbegun
  obtain ⟨f₀, hf₀⟩ := Phase.exists_frame?_of_exchangeBegun hbegun
  -- it would have kept its entry, which has an old address
  have hkeeps : sv.methods.Keeps fun _ phase => phase.frame? = some f₀ :=
    fun _ _ _ _ _ _ hadv hframe => (advances_of_advance hadv).keeps_frame hframe
  obtain ⟨phase, hphase, hframe⟩ := hkeeps.run hrun hx₀ hf₀
  cases hx.symm.trans hphase
  cases hf.symm.trans hframe
  exact absurd (hwf.bounded _ _ (uses_of_frame hx₀ hf₀)) (not_lt.mpr hnew)

end State

/-! ### The guarantees -/

/-- The same tokens are cached under the same keys. -/
def Shared.SameTokens (sh sh' : Shared) : Prop :=
  sh'.scopedTokens = sh.scopedTokens ∧
    ∀ p, (sh'.heap p).token = (sh.heap p).token ∧ (sh'.heap p).expiry = (sh.heap p).expiry

/-- Unlocking an entry caches nothing. -/
theorem Shared.sameTokens_setLock (sh : Shared) (p : ℕ) (locked : Bool) :
    sh.SameTokens (sh.setLock p locked) := by
  refine ⟨rfl, fun q => ?_⟩
  change (update sh.heap p _ q).token = _ ∧ (update sh.heap p _ q).expiry = _
  by_cases heq : q = p
  · rw [heq, update_self]
    exact ⟨rfl, rfl⟩
  · rw [update_of_ne heq]
    exact ⟨rfl, rfl⟩

/-- A call that returns an error caches nothing. -/
theorem Advances.sameTokens {sv : ServiceClient} {sh sh' : Shared} {request : Request}
    {phase phase' : Phase} (h : Advances sv sh request phase sh' phase') {f : Frame} {err : Failure}
    {via : Option Exchange} (hphase : phase' = .done (.returned f (.error err) via)) :
    sh.SameTokens sh' := by
  cases h with
  | unbuilt | fail => exact Shared.sameTokens_setLock _ _ _
  | _ => cases hphase

/-- An exchange that is not granted ends in an error. -/
theorem Advances.error_of_not_grants {sv : ServiceClient} {sh sh' : Shared} (request : Request)
    {f : Frame} {sent : ℤ} {a : Except String Response} {phase' : Phase}
    (h : sv.advance sh request (.exchanging f sent) (.answer a) = some (sh', phase'))
    (hgrants : ∀ token, ¬ Grants sv.wire f.set a token) :
    ∃ err via, phase' = .done (.returned f (.error err) via) := by
  simp only [ServiceClient.advance] at h
  split at h
  · rename_i err hresult
    cases h
    exact ⟨err, _, rfl⟩
  · rename_i token expiry hresult
    exact absurd (ServiceClient.grants_of_exchangeScoped hresult) (hgrants token)

/-- Scoped service tokens are cached correctly, in every interleaving of calls, exchanges and
invalidations.

* Two accepted lists have the same key exactly if they are equal as sets.
* A token that is returned for a list was exchanged by some call, which requested the scope set of the
  list and was granted it.
* A call that returns an error caches nothing, and an exchange that is not granted returns one.
* There are at most 16 entries. One that goes without an invalidation makes room for another, and is
  the one that was asked for least recently.
* If the invalidation `g` was not made in `s₀` and has returned in `s₁`, and the call `c` was not made
  in `s₁`, then its token is from an exchange that had not begun in `s₀`. -/
theorem scopedTokens_cached (sv : ServiceClient) :
    (∀ scopes scopes' set set', normaliseScopes scopes = .ok set →
      normaliseScopes scopes' = .ok set' →
        (scopeKey set = scopeKey set' ↔ ∀ s, s ∈ scopes ↔ s ∈ scopes')) ∧
    (∀ s : State, (system sv).Reachable s → ∀ c scopes f token expiry via,
      s.calls c = some ⟨.token scopes, .done (.returned f (.ok (token, expiry)) via)⟩ →
        ∃ set x, normaliseScopes scopes = .ok set ∧ s.ObtainedBy sv x set token expiry) ∧
    ((∀ (s s' : State) ev, (system sv).step s ev = some s' → ∀ c request f err via,
        s.calls c ≠ s'.calls c →
        s'.calls c = some ⟨request, .done (.returned f (.error err) via)⟩ →
          s.shared.SameTokens s'.shared) ∧
      ∀ (s s' : State) c request f sent a, s.calls c = some ⟨request, .exchanging f sent⟩ →
        (system sv).step s (.step c (.answer a)) = some s' →
        (∀ token, ¬ Grants sv.wire f.set a token) →
          ∃ err via, s'.calls c = some ⟨request, .done (.returned f (.error err) via)⟩) ∧
    ((∀ s : State, (system sv).Reachable s →
        s.shared.scopedTokens.entries.length ≤ maxScopedServiceTokens) ∧
      ∀ (s s' : State) h ev, ((system sv).recorded State.askedKey).Reachable (s, h) →
        (system sv).step s ev = some s' →
        ∀ k ∈ s.shared.scopedTokens, k ∉ s'.shared.scopedTokens →
          (∃ c request input, ev = .step c input ∧ s.calls c = some ⟨request, .clearing⟩) ∨
          (s.askedKey ev).isSome ∧ ∀ k' ∈ s.shared.scopedTokens, k' ≠ k →
            History.lastIndex (Shared.asks k) h < History.lastIndex (Shared.asks k') h) ∧
    (∀ (s₀ s₁ s₂ : State) es₁ es₂, (system sv).Reachable s₀ →
      (system sv).run s₀ es₁ = some s₁ → (system sv).run s₁ es₂ = some s₂ →
      ∀ g c scopes f token expiry via, s₀.calls g = none →
        s₁.calls g = some ⟨.invalidate, .done .invalidated⟩ → s₁.calls c = none →
        s₂.calls c = some ⟨.token scopes, .done (.returned f (.ok (token, expiry)) via)⟩ →
          ∃ set x, normaliseScopes scopes = .ok set ∧ s₂.ObtainedBy sv x set token expiry ∧
            ∀ call, s₀.calls x = some call → call.phase.exchangeBegun = false) := by
  refine ⟨fun scopes scopes' set set' h h' => scopeKey_eq_iff h h', ?_, ⟨?_, ?_⟩,
    ⟨fun s => State.length_le_of_reachable, ?_⟩, ?_⟩
  · intro s hreach c scopes f token expiry via hc
    have hwf := State.wf_of_reachable hreach
    obtain ⟨x, hx⟩ := hwf.returned c _ f token expiry via hc
    obtain ⟨scopes', hscopes, hset, hobtained⟩ := hwf.obtainedBy hc rfl hx
    cases hscopes
    exact ⟨f.set, x, hset, hobtained⟩
  · intro s s' ev hstep c request f err via hchanged hc
    obtain ⟨d, request', -, -, rfl⟩ | ⟨d, call, input, sh, phase, -, hcall, hadv, rfl⟩ :=
      State.step_cases hstep
    · exact absurd ((of_set_of_phase_ne hc nofun).trans hc.symm) hchanged
    · obtain ⟨-, heq⟩ | ⟨-, hold⟩ := of_set hc
      · exact hadv.sameTokens (CallSystem.Call.mk.inj heq).2.symm
      · exact absurd (hold.trans hc.symm) hchanged
  · intro s s' c request f sent a hc hstep hgrants
    change sv.methods.step s (.step c (.answer a)) = some s' at hstep
    obtain ⟨d, request', hev, -⟩ | ⟨d, call, input, sh, phase, hev, hcall, hadv, rfl⟩ :=
      CallSystem.step_cases hstep
    · cases hev
    · cases hev
      cases hcall.symm.trans hc
      obtain ⟨err, via, rfl⟩ := Advances.error_of_not_grants request hadv hgrants
      exact ⟨err, via, set_self s c _ _⟩
  · intro s s' h ev hreach hstep
    obtain ⟨hwf, haged⟩ := State.aged_of_reachable hreach
    exact (State.Aged.step hwf haged hstep).2
  · intro s₀ s₁ s₂ es₁ es₂ hreach h₁ h₂ g c scopes f token expiry via hg₀ hg₁ hc₁ hc₂
    have hwf₀ := State.wf_of_reachable hreach
    have hrun : (system sv).run s₀ (es₁ ++ es₂) = some s₂ :=
      (StepSystem.run_append_eq_some _).mpr ⟨s₁, h₁, h₂⟩
    have hwf₂ : State.WF sv s₂ := StepSystem.run_invariant' (I := State.WF sv)
      (fun _ _ _ hs hstep => hs.step hstep) hrun hwf₀
    obtain ⟨x, hx⟩ := hwf₂.returned c _ f token expiry via hc₂
    obtain ⟨scopes', hscopes, hset, hobtained⟩ := hwf₂.obtainedBy hc₂ rfl hx
    cases hscopes
    refine ⟨f.set, x, hset, hobtained, fun call hcall => ?_⟩
    have hnew := State.entry_of_invalidated h₁ h₂ hg₀ hg₁ hc₁ hc₂ rfl
    obtain ⟨request, f', ex, hx, hentry, -, -⟩ := hx
    exact State.exchangeBegun_eq_false hwf₀ hrun hx rfl (hentry ▸ hnew) hcall

section Example

/-- Bodies and payloads of ASCII characters. -/
def asciiWire : Wire where
  json b := JsonText.parse (String.ofList (b.map fun c => Char.ofNat c.toNat))
  complaint _ := ""
  text b := String.ofList (b.map fun c => Char.ofNat c.toNat)

/-- A client with a secret. -/
def sampleClient : ServiceClient := ⟨⟨"app", "secret"⟩, asciiWire, fun s => s⟩

/-- A 200 with this body. -/
def answerOf (body : String) : Except String Response :=
  .ok ⟨200, body.toList.map fun c => UInt8.ofNat c.toNat, none⟩

def firstAnswer : Except String Response := answerOf "\x7b\"access_token\":\"first\"\x7d"

def secondAnswer : Except String Response :=
  answerOf "\x7b\"access_token\":\"second\",\"scope\":\"api\"\x7d"

/-- Nothing is cached. -/
def sampleState : State := ⟨⟨"", Time.zero, ∅, 0, fun _ => { lastUsed := 0 }, 0⟩, fun _ => none⟩

/-- The call `c` asks for a token for the scope, and gets an answer. -/
def sampleExchange (c : ℕ) (answer : Except String Response) : List Event :=
  [.call c (.token ["api"]), .step c .go, .step c (.order []), .step c .go, .step c (.clock 0),
    .step c (.clock 0)] ++ [.step c (.answer answer)]

/-- The call `c` has stored the token of an answer in the entry at `p`. -/
def answered (s : State) (c p : ℕ) (answer : Except String Response) (token : String) : State :=
  s.set c
    (s.shared.set p { s.shared.heap p with token, expiry := Duration.minute, locked := false })
    ⟨.token ["api"], .done (.returned ⟨["api"], p⟩ (.ok (token, Duration.minute))
      (some ⟨sampleClient.client.credentialsForm (scopeKey ["api"]), 0, answer⟩))⟩

theorem run_sampleExchange {s m : State} {c p : ℕ} {answer : Except String Response} {token : String}
    (hasked : (system sampleClient).run s ((sampleExchange c answer).take 6) = some m)
    (hc : m.calls c = some ⟨.token ["api"], .exchanging ⟨["api"], p⟩ 0⟩)
    (htoken : (sampleClient.exchangeScoped ["api"] 0 answer).toOption = some (token, Duration.minute)) :
    (system sampleClient).run s (sampleExchange c answer) = some (answered m c p answer token) := by
  have hresult : sampleClient.exchangeScoped ["api"] 0 answer = .ok (token, Duration.minute) := by
    cases h : sampleClient.exchangeScoped ["api"] 0 answer <;> simp_all [Except.toOption]
  refine ((system sampleClient).run_append_eq_some).mpr ⟨m, hasked,
    ((system sampleClient).run_cons_eq_some).mpr ⟨_, ?_, rfl⟩⟩
  show sampleClient.methods.step m (.step c (.answer answer)) = _
  simp only [CallSystem.step, hc, ServiceClient.methods, ServiceClient.advance, hresult]
  rfl

/-- The states before and after the answer of a first exchange, after an invalidation, and before and
after the answer of a second exchange. -/
def askedState : State :=
  ((system sampleClient).run sampleState ((sampleExchange 0 firstAnswer).take 6)).getD sampleState

def cachedState : State := answered askedState 0 0 firstAnswer "first"

def invalidatedState : State :=
  ((system sampleClient).run cachedState
    [.call 1 .invalidate, .step 1 .go, .step 1 .go]).getD sampleState

def askedAgainState : State :=
  ((system sampleClient).run invalidatedState ((sampleExchange 2 secondAnswer).take 6)).getD
    sampleState

def renewedState : State := answered askedAgainState 2 1 secondAnswer "second"

/-- The second token is not from the exchange that was made before the invalidation. -/
theorem scopedTokens_cached_sample :
    (∃ scopes f expiry ex, cachedState.calls 0 =
      some ⟨.token scopes, .done (.returned f (.ok ("first", expiry)) (some ex))⟩) ∧
    ∃ set x expiry, renewedState.ObtainedBy sampleClient x set "second" expiry ∧
      ∀ call, cachedState.calls x = some call → call.phase.exchangeBegun = false := by
  refine ⟨⟨_, _, _, _, rfl⟩, ?_⟩
  have h₀ : (system sampleClient).run sampleState (sampleExchange 0 firstAnswer) = some cachedState :=
    run_sampleExchange rfl rfl (by decide +kernel)
  have h₁ : (system sampleClient).run cachedState
      [.call 1 .invalidate, .step 1 .go, .step 1 .go] = some invalidatedState := rfl
  have h₂ : (system sampleClient).run invalidatedState (sampleExchange 2 secondAnswer) =
      some renewedState := run_sampleExchange rfl rfl (by decide +kernel)
  have hreach : (system sampleClient).Reachable cachedState :=
    ⟨sampleState, _, ⟨⟨rfl, rfl, rfl, fun _ => rfl⟩, rfl⟩, h₀⟩
  obtain ⟨-, -, -, -, hnew⟩ := scopedTokens_cached sampleClient
  obtain ⟨set, x, -, hobtained, hbegun⟩ :=
    hnew cachedState invalidatedState renewedState _ _ hreach h₁ h₂ 1 2 ["api"] _ "second" _ _
      rfl rfl rfl rfl
  exact ⟨set, x, _, hobtained, hbegun⟩

end Example

end Socrate
