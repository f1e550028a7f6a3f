import BackendKit.JwtAuth.LoneCalls

/-!
# Publishing keys

What the calls of `Middleware.getKey` (`jwtauth/middleware.go`) return, whatever the interleaving: the
keys are those of the last published document, a flight that fails has published nothing, and a
withdrawn key is not returned to a call that begins afterwards (`published_keys`).
-/

open GoStd SingleFlight

namespace JwtAuth

namespace Jwks

/-! ### Which flights publish -/

/-- The flights that publish are those that succeed. -/
structure Ledger (g : Group String (Option FetchError)) (phase : Phase)
    (published : List Publication) : Prop where
  wellFormed : g.WellFormed
  idle_iff : phase = .idle ↔ g.running refetchKey = none
  /-- The flight of a publication has ended without an error, or is about to. -/
  result_of_mem : ∀ p ∈ published, g.results p.flight = some none ∨
    (g.running refetchKey = some p.flight ∧ phase = .returning none)
  mem_of_result : ∀ n, g.results n = some none → ∃ p ∈ published, p.flight = n
  mem_of_returning : phase = .returning none → ∃ p ∈ published, g.running refetchKey = some p.flight

namespace Ledger

variable {g : Group String (Option FetchError)} {phase phase' : Phase}
  {published : List Publication}

theorem initial : Ledger Group.empty .idle [] where
  wellFormed := Group.wellFormed_empty
  idle_iff := iff_of_true rfl rfl
  result_of_mem := fun _ hp => absurd hp List.not_mem_nil
  mem_of_result := nofun
  mem_of_returning := nofun

theorem exists_running (h : Ledger g phase published) (hidle : phase ≠ .idle) :
    ∃ n, g.running refetchKey = some n :=
  Option.ne_none_iff_exists'.mp fun hnone => hidle (h.idle_iff.mpr hnone)

/-- A flight that has not published moves on and still has not. -/
theorem advance (h : Ledger g phase published) (hidle : phase ≠ .idle)
    (hret : phase ≠ .returning none) (hidle' : phase' ≠ .idle) (hret' : phase' ≠ .returning none) :
    Ledger g phase' published where
  wellFormed := h.wellFormed
  idle_iff := iff_of_false hidle' fun hnone => hidle (h.idle_iff.mpr hnone)
  result_of_mem := fun p hp => (h.result_of_mem p hp).imp_right fun hrun => absurd hrun.2 hret
  mem_of_result := h.mem_of_result
  mem_of_returning := fun heq => absurd heq hret'

/-- A call joins the running flight, or a new one starts that has not published. -/
theorem enter (h : Ledger g phase published) :
    Ledger (g.enter refetchKey) (if g.running refetchKey = none then .starting else phase)
      published := by
  cases hrun : g.running refetchKey with
  | some n =>
    rw [Group.enter_of_running hrun, if_neg (Option.some_ne_none n)]
    exact h
  | none =>
    rw [if_pos rfl]
    exact
      { wellFormed := h.wellFormed.enter refetchKey
        idle_iff := iff_of_false nofun (by simp [Group.running_enter])
        result_of_mem := fun p hp => by
          rw [Group.results_enter]
          refine (h.result_of_mem p hp).imp_right fun hrun' => ?_
          rw [hrun] at hrun'
          exact absurd hrun'.1 (Option.some_ne_none _).symm
        mem_of_result := fun n hn => h.mem_of_result n (by rwa [Group.results_enter] at hn)
        mem_of_returning := nofun }

theorem publish {doc : List JwksKey} (h : Ledger g (.fetched doc) published) :
    Ledger g (.returning none) (published ++ [{ flight := g.flightOf refetchKey, doc }]) := by
  obtain ⟨n, hn⟩ := h.exists_running nofun
  have hflight : g.flightOf refetchKey = n := by simp [Group.flightOf, hn]
  rw [hflight]
  exact
    { wellFormed := h.wellFormed
      idle_iff := iff_of_false nofun (by simp [hn])
      result_of_mem := fun p hp => by
        rcases List.mem_append.mp hp with hold | hnew
        · exact (h.result_of_mem p hold).imp_right fun hrun => absurd hrun.2 nofun
        · rw [List.mem_singleton.mp hnew]
          exact .inr ⟨hn, rfl⟩
      mem_of_result := fun m hm => by
        obtain ⟨p, hp, hpm⟩ := h.mem_of_result m hm
        exact ⟨p, List.mem_append_left _ hp, hpm⟩
      mem_of_returning := fun _ => ⟨_, List.mem_append_right _ (List.mem_singleton.mpr rfl), hn⟩ }

/-- The flight ends with the result it returns: no error exactly if it has published. -/
theorem finish {r : Option FetchError} (h : Ledger g (.returning r) published) :
    Ledger (g.finish refetchKey r) .idle published := by
  obtain ⟨n, hn⟩ := h.exists_running nofun
  refine
    { wellFormed := h.wellFormed.finish refetchKey r
      idle_iff := iff_of_true rfl (Group.running_finish g refetchKey r)
      result_of_mem := fun p hp => .inl ?_
      mem_of_result := fun m hm => ?_
      mem_of_returning := nofun }
  · rcases h.result_of_mem p hp with hres | ⟨hrun, hphase⟩
    · exact Group.results_finish h.wellFormed hres
    · obtain rfl : r = none := by simpa using hphase
      exact Group.results_finish_self none hrun
  · by_cases hmn : m = n
    · subst hmn
      rw [Group.results_finish_self r hn, Option.some.injEq] at hm
      subst hm
      obtain ⟨p, hp, hrun⟩ := h.mem_of_returning rfl
      rw [hn, Option.some.injEq] at hrun
      exact ⟨p, hp, hrun.symm⟩
    · rw [Group.results_finish_of_ne r hn hmn] at hm
      exact h.mem_of_result m hm

end Ledger

variable {cfg : CacheConfig} {s s' : State} {published : List Publication} {c : Call}

theorem ledger_step {a : Action} (h : Ledger s.group s.phase s.published)
    (hstep : (system cfg).step s a = some s') :
    Ledger s'.group s'.phase s'.published := by
  rcases step_cases hstep with ⟨t, ht⟩ | ⟨i, kid, hpc⟩ | ⟨i, t₁, t₂, t₃, c, start, hpc, ht⟩ |
    ⟨i, c, snap, hpc⟩ | ⟨i, c, snap, n, r, hpc, hr⟩ | ⟨i, c, key, hpc, hkey⟩ | ⟨i, c, hpc⟩ |
    ⟨i, t, c, cache⟩ | hphase | hphase | ⟨_, err, hphase⟩ | ⟨r, doc, hphase, hdoc⟩ |
    ⟨doc, hphase⟩ | ⟨r, hphase⟩
  · exact h
  · exact h
  · exact h
  · exact h.enter
  · exact h
  · exact h
  · exact h
  · exact h
  · exact h.advance (by simp [hphase]) (by simp [hphase]) nofun nofun
  · exact h.advance (by simp [hphase]) (by simp [hphase]) nofun nofun
  · rcases hphase with hphase | hphase
    · exact h.advance (by simp [hphase]) (by simp [hphase]) nofun nofun
    · exact h.advance (by simp [hphase]) (by simp [hphase]) nofun nofun
  · exact h.advance (by simp [hphase]) (by simp [hphase]) nofun nofun
  · rw [hphase] at h
    exact h.publish
  · rw [hphase] at h
    exact h.finish

/-! ### Which keys are returned -/

/-- The usable key that the last published document has for a key id. -/
def currentKey (published : List Publication) (kid : String) : Option PublicKey :=
  published.getLast?.bind fun p => usableKey p.doc kid

/-- The key stands in a document that was in force when the call began, or was published later. -/
def PublishedSince (published : List Publication) (c : Call) (key : PublicKey) : Prop :=
  ∃ k p, c.since ≤ k + 1 ∧ published[k]? = some p ∧ usableKey p.doc c.kid = some key

theorem PublishedSince.append {key : PublicKey} (h : PublishedSince published c key)
    (p : Publication) :
    PublishedSince (published ++ [p]) c key := by
  obtain ⟨k, q, hk, hq, hkey⟩ := h
  obtain ⟨hlt, -⟩ := List.getElem?_eq_some_iff.mp hq
  exact ⟨k, q, hk, by rw [List.getElem?_append_left hlt, hq], hkey⟩

/-- The current key has been published since any earlier moment. -/
theorem publishedSince_of_currentKey {key : PublicKey} (hsince : c.since ≤ published.length)
    (h : currentKey published c.kid = some key) :
    PublishedSince published c key := by
  obtain ⟨p, hp, hkey⟩ := Option.bind_eq_some_iff.mp h
  rw [List.getLast?_eq_getElem?] at hp
  exact ⟨published.length - 1, p, by omega, hp, hkey⟩

/-- Every key that a call holds has been published since the call began. -/
def Pc.Backed (published : List Publication) : Pc → Prop
  | .begun c _ | .refetched c => c.since ≤ published.length
  | .toDo c snap | .waiting c snap _ => c.since ≤ published.length ∧
      ∀ key, snap.key = some key → PublishedSince published c key
  | .done c (.ok key) => PublishedSince published c key
  | _ => True

theorem Pc.Backed.append {pc : Pc} (h : pc.Backed published) (p : Publication) :
    pc.Backed (published ++ [p]) := by
  have hlen : published.length ≤ (published ++ [p]).length := by simp
  cases pc with
  | begun c start => exact le_trans h hlen
  | refetched c => exact le_trans h hlen
  | toDo c snap => exact ⟨h.1.trans hlen, fun key hkey => (h.2 key hkey).append p⟩
  | waiting c snap n => exact ⟨h.1.trans hlen, fun key hkey => (h.2 key hkey).append p⟩
  | done c result =>
    cases result with
    | ok key => exact PublishedSince.append h p
    | error err => trivial
  | _ => trivial

/-- The keys are those of the last publication, and all calls are backed. -/
structure Current (s : State) : Prop where
  keys : ∀ kid, s.keys.lookup kid = currentKey s.published kid
  backed : ∀ i, (s.calls i).Backed s.published

theorem Current.move (h : Current s) {i : ℕ} {pc : Pc} (hpc : pc.Backed s.published) :
    Current (s.move i pc) :=
  ⟨h.keys, State.forall_move h.backed hpc⟩

/-- A call answers from its snapshot with the key it has just read. -/
theorem backed_next {t₁ t₂ t₃ : ℤ} (h : Current s) (hsince : c.since ≤ s.published.length) :
    ((s.snapshot cfg c.kid t₁ t₂ t₃).next c).Backed s.published := by
  have hkey : ∀ key, (s.snapshot cfg c.kid t₁ t₂ t₃).key = some key →
      PublishedSince s.published c key := by
    intro key hsnap
    refine publishedSince_of_currentKey hsince ?_
    rw [← h.keys]
    exact hsnap
  unfold Snapshot.next
  split
  next result hresult =>
    cases result with
    | error err => trivial
    | ok key =>
      refine hkey key ?_
      -- An answer that is a key is the key of the snapshot.
      unfold Snapshot.answer? at hresult
      split at hresult
      · split_ifs at hresult
        simp_all
      · split_ifs at hresult
        simp at hresult
  · exact ⟨hsince, hkey⟩

/-- A failed refresh falls back to the key of the snapshot. -/
theorem backed_afterFlight {snap : Snapshot} {n : ℕ} (h : (Pc.waiting c snap n).Backed published)
    (r : Option FetchError) :
    (snap.afterFlight c r).Backed published := by
  unfold Snapshot.afterFlight
  split
  · exact h.1
  · split
    next key hkey => exact h.2 key hkey
    · trivial

theorem current_step {a : Action} (h : Current s) (hstep : (system cfg).step s a = some s') :
    Current s' := by
  rcases step_cases hstep with ⟨t, ht⟩ | ⟨i, kid, hpc⟩ | ⟨i, t₁, t₂, t₃, c, start, hpc, ht⟩ |
    ⟨i, c, snap, hpc⟩ | ⟨i, c, snap, n, r, hpc, hr⟩ | ⟨i, c, key, hpc, hkey⟩ | ⟨i, c, hpc⟩ |
    ⟨i, t, c, cache⟩ | hphase | hphase | ⟨_, err, hphase⟩ | ⟨r, doc, hphase, hdoc⟩ |
    ⟨doc, hphase⟩ | ⟨r, hphase⟩
  · exact ⟨h.keys, h.backed⟩
  · exact h.move (le_refl s.published.length)
  · have hbacked := h.backed i
    rw [hpc] at hbacked
    exact h.move (backed_next h hbacked)
  · -- The call keeps its snapshot while it waits.
    have hbacked := h.backed i
    rw [hpc] at hbacked
    exact ⟨h.keys, State.forall_move h.backed hbacked⟩
  · have hbacked := h.backed i
    rw [hpc] at hbacked
    exact h.move (backed_afterFlight hbacked r)
  · have hbacked := h.backed i
    rw [hpc] at hbacked
    exact h.move (publishedSince_of_currentKey hbacked (by rw [← h.keys, hkey]))
  · exact h.move trivial
  · exact ⟨h.keys, State.forall_move h.backed trivial⟩
  · exact ⟨h.keys, h.backed⟩
  · exact ⟨h.keys, h.backed⟩
  · exact ⟨h.keys, h.backed⟩
  · exact ⟨h.keys, h.backed⟩
  · -- A publication replaces the whole key set.
    refine ⟨fun kid => ?_, fun i => (h.backed i).append _⟩
    show (loadKeys doc).lookup kid = currentKey (s.published ++ [_]) kid
    simp [currentKey, lookup_loadKeys]
  · exact ⟨h.keys, h.backed⟩

/-- A step of a flight that does not publish leaves the cache as it is. -/
theorem unchanged_of_published_eq {a : FlightStep}
    (hstep : (system cfg).step s (.flight a) = some s') (hpub : s'.published = s.published) :
    s'.keys = s.keys ∧ s'.lastFetch = s.lastFetch ∧ s'.negativeCache = s.negativeCache := by
  rcases flightStep_cases hstep with _ | _ | _ | _ | _ | _ | _ | _ | _ | _ | _ | _ | ⟨doc, -⟩ | _
  case publish => simp [State.publish] at hpub
  all_goals exact ⟨rfl, rfl, rfl⟩

/-- **One whole published set.** In every reachable state, the keys are the usable keys of the
last publication, or there are none. The flights that publish are those that end without an
error, and the other steps of a flight change neither the keys nor the time of the last fetch nor
the negative cache. A call returns a key only from a document that was in force when it began or
was published later: if `j` documents or more had been published before, from one that is not
older than document `j`. -/
theorem published_keys {cfg : CacheConfig} {s : State} (h : (system cfg).Reachable s) :
    (∀ kid, s.keys.lookup kid = currentKey s.published kid) ∧
      (∀ n r, s.group.results n = some r → (r = none ↔ ∃ p ∈ s.published, p.flight = n)) ∧
      (∀ a s', (system cfg).step s (.flight a) = some s' → s'.published = s.published →
        s'.keys = s.keys ∧ s'.lastFetch = s.lastFetch ∧ s'.negativeCache = s.negativeCache) ∧
      ∀ i c key, s.calls i = .done c (.ok key) → ∀ j < c.since, ∃ k ≥ j, ∃ p,
        s.published[k]? = some p ∧ usableKey p.doc c.kid = some key := by
  have hcurrent : Current s := by
    refine StepSystem.reachable_invariant ?_ (fun s a s' => current_step) h
    intro s₀ hinit
    rw [show s₀ = State.initial s₀.now from hinit]
    exact ⟨fun kid => rfl, fun i => trivial⟩
  have hledger : Ledger s.group s.phase s.published := by
    refine StepSystem.reachable_invariant ?_ (fun s a s' => ledger_step) h
    intro s₀ hinit
    rw [show s₀ = State.initial s₀.now from hinit]
    exact Ledger.initial
  refine ⟨hcurrent.keys, fun n r hr => ⟨?_, ?_⟩, fun a s' => unchanged_of_published_eq, ?_⟩
  · rintro rfl
    exact hledger.mem_of_result n hr
  · rintro ⟨p, hp, rfl⟩
    rcases hledger.result_of_mem p hp with hres | ⟨hrun, -⟩
    · rw [hr] at hres
      exact Option.some.inj hres
    · -- A running flight has no result yet.
      rw [(hledger.wellFormed.running_lt _ _ hrun).2] at hr
      exact absurd hr (Option.some_ne_none r).symm
  · intro i c key hdone j hj
    have hbacked := hcurrent.backed i
    rw [hdone] at hbacked
    obtain ⟨k, p, hk, hp, hkey⟩ := hbacked
    exact ⟨k, by omega, p, hp, hkey⟩

/-- A modulus that is long enough. -/
def longModulus : String := String.ofList (List.replicate 342 'g')

theorem exists_parse_longModulus :
    ∃ key, (parseRSAPublicKey longModulus "AQAB").toOption = some key := by
  have hdecode : Base64.rawURLDecode longModulus = Base64.decodeChars (List.replicate 342 'g') :=
    Base64.rawURLDecode_ofList _
  refine Option.isSome_iff_exists.mp ?_
  rw [parseRSAPublicKey, hdecode]
  decide +kernel

/-- A document with that one key. -/
def oneKey : List JwksKey :=
  [{ kty := "RSA", kid := "a", use := "sig", alg := "RS256", n := longModulus, e := "AQAB" }]

/-- A document with a key, but not for `a`. -/
def otherKey : List JwksKey :=
  [{ kty := "RSA", kid := "b", use := "sig", alg := "RS256", n := longModulus, e := "AQAB" }]

/-- A document with a usable key is published. -/
theorem fetchJWKS_of_usableKey {doc : List JwksKey} {kid : String} {key : PublicKey}
    (h : usableKey doc kid = some key) :
    fetchJWKS defaultConfig (.http 200 (.ok doc)) = .ok doc := by
  have hurl : defaultConfig.jwksURL ≠ "" := by decide
  have hne : (loadKeys doc).entries ≠ [] := by
    intro hnil
    rw [← lookup_loadKeys, AList.lookup, hnil] at h
    exact absurd h (by simp)
  simp [fetchJWKS, hurl, Response.document, hne]

/-- One document has a key for `a` only, and the other the same key for `b` only. -/
theorem exists_replaced : ∃ old new key, usableKey old "a" = some key ∧ usableKey old "b" = none ∧
    usableKey new "b" = some key ∧ usableKey new "a" = none := by
  obtain ⟨key, hkey⟩ := exists_parse_longModulus
  refine ⟨oneKey, otherKey, key, ?_⟩
  simp [usableKey, oneKey, otherKey, JwksKey.usable?, hkey]

/-- A call that takes no time. -/
def ask (kid : String) (t : ℤ) (response : Response) : LoneCall := .lasting kid t 0 le_rfl response

section

variable {old new : List JwksKey} {key : PublicKey} {t : ℤ}

/-- What is kept after a call for `a` published a document, and after one for `b` replaced it. -/
def firstCache (old : List JwksKey) : Cache :=
  Cache.initial.publish old (ask "a" 0 (.http 200 (.ok old)))

def secondCache (old new : List JwksKey) (t : ℤ) : Cache :=
  (firstCache old).publish new (ask "b" t (.http 200 (.ok new)))

/-- A call for `a` and one for `b` refetch. After that `b` is there, and `a` is not found. -/
theorem getKey_replaced (ha : usableKey old "a" = some key) (hb : usableKey old "b" = none)
    (hb' : usableKey new "b" = some key) (ha' : usableKey new "a" = none)
    (hcooled : ¬ Time.sub t 0 < defaultConfig.minRefetchInterval)
    (hcooling : Time.sub t t < defaultConfig.minRefetchInterval) :
    getKey defaultConfig .initial (ask "a" 0 (.http 200 (.ok old))) = (firstCache old, .ok key) ∧
    getKey defaultConfig (firstCache old) (ask "b" t (.http 200 (.ok new))) =
      (secondCache old new t, .ok key) ∧
    getKey defaultConfig (secondCache old new t) (ask "b" t outage) =
      (secondCache old new t, .ok key) ∧
    getKey defaultConfig (secondCache old new t) (ask "a" t outage) =
      (secondCache old new t, .error (.notFound "a")) := by
  have hfound : (secondCache old new t).keys.lookup "b" = some key :=
    (lookup_loadKeys new "b").trans hb'
  have hgone : (secondCache old new t).keys.lookup "a" = none := (lookup_loadKeys new "a").trans ha'
  refine ⟨getKey_of_published rfl (fetchJWKS_of_usableKey ha) ha,
    getKey_of_published ?_ (fetchJWKS_of_usableKey hb') hb', getKey_of_answer ?_, getKey_of_answer ?_⟩
  · exact answer?_eq_none ((lookup_loadKeys old "b").trans hb) rfl hcooled
  · exact answer?_of_inCooldown (some key) hfound hcooling
  · exact answer?_of_inCooldown none hgone hcooling

end

/-- A call that begins after the second publication returns a key of the second document. The key that
was withdrawn is not found. -/
theorem published_keys_hit :
    ∃ s key, (system defaultConfig).Reachable s ∧
      s.calls 3 = .done { kid := "a", since := 2 } (.error (.notFound "a")) ∧
      s.calls 2 = .done { kid := "b", since := 2 } (.ok key) ∧
      ∃ k ≥ 1, ∃ p, s.published[k]? = some p ∧ usableKey p.doc "b" = some key := by
  obtain ⟨old, new, key, ha, hb, hb', ha'⟩ := exists_replaced
  -- The second publication comes a second after the cooldown.
  obtain ⟨t, hcooled, hcooling, hlater⟩ : ∃ t : ℤ,
      ¬ Time.sub t 0 < defaultConfig.minRefetchInterval ∧
        Time.sub t t < defaultConfig.minRefetchInterval ∧ 0 ≤ t :=
    ⟨16 * Duration.second, by decide⟩
  obtain ⟨h₀, h₁, h₂, h₃⟩ := getKey_replaced ha hb hb' ha' hcooled hcooling
  have hrests : Rests (.initial 0) .initial := ⟨rfl, rfl, rfl, rfl, rfl, rfl, rfl⟩
  have hinit : (system defaultConfig).Reachable (.initial 0) := ⟨.initial 0, [], rfl, rfl⟩
  obtain ⟨s₁, hs₁, hrests₁, hcalls₁, hnow₁⟩ :=
    exists_reachable_getKey hinit hrests 0 (ask "a" 0 (.http 200 (.ok old))) rfl le_rfl
  rw [h₀] at hrests₁ hcalls₁
  obtain ⟨s₂, hs₂, hrests₂, hcalls₂, hnow₂⟩ :=
    exists_reachable_getKey hs₁ hrests₁ 1 (ask "b" t (.http 200 (.ok new)))
      (by simp [hcalls₁, State.initial]) (hnow₁.trans hlater)
  rw [h₁] at hrests₂ hcalls₂
  obtain ⟨s₃, hs₃, hrests₃, hcalls₃, hnow₃⟩ := exists_reachable_getKey hs₂ hrests₂ 2 (ask "b" t outage)
    (by simp [hcalls₂, hcalls₁, State.initial]) (hnow₂.trans (add_zero t).le)
  rw [h₂] at hrests₃ hcalls₃
  obtain ⟨s, hs, -, hcalls, -⟩ := exists_reachable_getKey hs₃ hrests₃ 3 (ask "a" t outage)
    (by simp [hcalls₃, hcalls₂, hcalls₁, State.initial]) (hnow₃.trans (add_zero t).le)
  rw [h₃] at hcalls
  have hlength : (secondCache old new t).published.length = 2 := by
    simp [secondCache, firstCache, Cache.publish, Cache.initial]
  rw [hlength] at hcalls₃ hcalls
  have hfound : s.calls 2 = .done { kid := "b", since := 2 } (.ok key) := by
    simp [hcalls, hcalls₃, ask, LoneCall.lasting]
  obtain ⟨k, hk, p, hp, hpkey⟩ := (published_keys hs).2.2.2 2 _ key hfound 1 (by decide)
  exact ⟨s, key, hs, by simp [hcalls, ask, LoneCall.lasting], hfound, k, hk, p, hp, hpkey⟩

end Jwks

end JwtAuth
