import BackendKit.JwtAuth.Published

/-!
# Key rotation

How long a key that the endpoint has begun to serve can stay unknown (`Middleware.getKey`,
`jwtauth/middleware.go`). Calls do not overlap here.

A key served from `T` on is found by every call that begins a cooldown after `T` and a negative
lifetime after the last note that could be about an older document. That note is made when a fetch
is over, so a fetch that began before `T` can put it off (`not_foundInTime`).
-/

open GoStd SingleFlight
open GoStd.Duration (maxValue second)

namespace JwtAuth

namespace Jwks

/-! ### A key that is served from some time on -/

/-- A fetch that starts at `T` or later succeeds and brings a document with a key for `kid`. -/
def Serves (cfg : CacheConfig) (kid : String) (T : ℤ) (call : LoneCall) : Prop :=
  T ≤ call.fetchStarted → ∃ doc key, fetchJWKS cfg call.response = .ok doc ∧
    usableKey doc kid = some key

/-- What calls keep up when `kid` is served from `T` on and calls that fetched before are over by
`T'`. -/
structure Rotated (kid : String) (T T' : ℤ) (c : Cache) : Prop where
  /-- The keys are those of the last document. -/
  keys : ∀ k, c.keys.lookup k = c.currentKey k
  /-- An attempt since `T` has brought the key. -/
  attempt : T ≤ c.lastRefetchAttempt → c.lastRefetchAttempt = Time.zero ∨
    ∃ key, c.currentKey kid = some key
  /-- A note that the key is unknown was made by `T'`. -/
  note : ∀ t, c.negativeCache kid = some t → t ≤ T'

theorem rotated_initial (kid : String) (T T' : ℤ) : Rotated kid T T' .initial where
  keys := fun _ => rfl
  attempt := fun _ => .inl rfl
  note := nofun

theorem lookup_remember_publish (cfg : CacheConfig) (c : Cache) (doc : List JwksKey)
    (call : LoneCall) (kid : String) :
    ((c.publish doc call).remember cfg call).keys.lookup kid = usableKey doc kid :=
  lookup_loadKeys doc kid

theorem currentKey_publish (c : Cache) (doc : List JwksKey) (call : LoneCall) (kid : String) :
    (c.publish doc call).currentKey kid = usableKey doc kid := by
  simp [Cache.publish, Cache.currentKey]

variable {cfg : CacheConfig} {c : Cache} {kid : String} {T T' : ℤ}

/-- Publishing a document. -/
theorem rotated_publish {call : LoneCall} {doc : List JwksKey} (hserves : Serves cfg kid T call)
    (hfetch : fetchJWKS cfg call.response = .ok doc) (c : Cache) :
    Rotated kid T T' (c.publish doc call) where
  keys k := by
    rw [currentKey_publish]
    exact lookup_loadKeys doc k
  attempt hT := by
    obtain ⟨doc', key, hfetch', hkey⟩ := hserves (hT.trans call.attempted_le)
    obtain rfl : doc = doc' := Except.ok.inj (hfetch.symm.trans hfetch')
    exact .inr ⟨key, by rw [currentKey_publish, hkey]⟩
  note := nofun

/-- One call. -/
theorem Rotated.getKey (h : Rotated kid T T' c) {call : LoneCall} (hserves : Serves cfg kid T call)
    (hover : call.fetchStarted < T → call.noted ≤ T') :
    Rotated kid T T' (getKey cfg c call).1 := by
  obtain ⟨result, -, heq⟩ | ⟨-, err, hfetch, heq⟩ | ⟨-, doc, key, hfetch, -, heq⟩ |
    ⟨-, doc, hfetch, hmissing, heq⟩ := getKey_cases cfg c call
  · rw [heq]
    exact h
  · -- Only a fetch that started before `T` can fail.
    have hbefore : call.attempted < T := by
      by_contra hT
      obtain ⟨doc, key, hok, -⟩ := hserves ((not_lt.mp hT).trans call.attempted_le)
      rw [hfetch] at hok
      cases hok
    rw [heq]
    exact ⟨h.keys, fun hT => absurd hbefore (not_lt.mpr hT), h.note⟩
  · rw [heq]
    exact rotated_publish hserves hfetch c
  · have hpublish : Rotated kid T T' (c.publish doc call) := rotated_publish hserves hfetch c
    rw [heq]
    refine ⟨hpublish.keys, hpublish.attempt, fun t ht => ?_⟩
    by_cases hkid : kid = call.kid
    · subst hkid
      obtain rfl : call.noted = t := by simpa [Cache.remember, rememberUnknownKid] using ht
      -- The document lacks the key, so it was asked for before `T`.
      refine hover (lt_of_not_ge fun hT => ?_)
      obtain ⟨doc', key, hok, hkey⟩ := hserves hT
      obtain rfl : doc = doc' := Except.ok.inj (hfetch.symm.trans hok)
      rw [hmissing] at hkey
      cases hkey
    · simp [Cache.remember, Cache.publish, rememberUnknownKid, hkid] at ht

/-- Any number of calls. -/
theorem Rotated.serve (h : Rotated kid T T' c) {calls : List LoneCall}
    (hserves : ∀ call ∈ calls, Serves cfg kid T call)
    (hover : ∀ call ∈ calls, call.fetchStarted < T → call.noted ≤ T') :
    Rotated kid T T' (serve cfg c calls) := by
  induction calls generalizing c with
  | nil => exact h
  | cons call calls ih =>
    rw [List.forall_mem_cons] at hserves hover
    exact ih (h.getKey hserves.1 hover.1) hserves.2 hover.2

theorem LoneCall.began_le_noted (call : LoneCall) : call.began ≤ call.noted := by
  have h₁ := call.began_le
  have h₂ := call.expiryRead_le
  have h₃ := call.cooldownRead_le
  have h₄ := call.negativeRead_le
  have h₅ := call.attempted_le
  have h₆ := call.fetchStarted_le
  have h₇ := call.published_le
  omega

theorem Chronological.le_began {now : ℤ} {before after : List LoneCall} {call : LoneCall}
    (h : Chronological now (before ++ call :: after)) : now ≤ call.began := by
  induction before generalizing now with
  | nil => exact h.1
  | cons first before ih =>
    have hfirst : now ≤ first.began := h.1
    have hrest := ih h.2
    have hnoted := first.began_le_noted
    omega

/-- A call returns the key that the last published document has for its key id. -/
def Found (cfg : CacheConfig) (c : Cache) (call : LoneCall) : Prop :=
  ∃ key, (getKey cfg c call).2 = .ok key ∧ (getKey cfg c call).1.currentKey call.kid = some key

/-- A call that refetches at `T` or later returns the key that the endpoint serves. -/
theorem found_of_refetch {call : LoneCall} (hanswer : (c.snapshot cfg call).answer? call.kid = none)
    (hserves : Serves cfg call.kid T call) (hT : T ≤ call.fetchStarted) : Found cfg c call := by
  obtain ⟨doc', key', hok, hkey'⟩ := hserves hT
  obtain ⟨result, hsome, -⟩ | ⟨-, err, hfetch, -⟩ | ⟨-, doc, key, hfetch, hfound, heq⟩ |
    ⟨-, doc, hfetch, hmissing, -⟩ := getKey_cases cfg c call
  · rw [hanswer] at hsome
    cases hsome
  · rw [hfetch] at hok
    cases hok
  · exact ⟨key, by rw [heq], by rw [heq, currentKey_publish, hfound]⟩
  · obtain rfl : doc = doc' := Except.ok.inj (hfetch.symm.trans hok)
    rw [hmissing] at hkey'
    cases hkey'

/-- A call that answers with the key of its snapshot. -/
theorem found_of_answer {call : LoneCall} {key : PublicKey}
    {result : Except KeyLookupError PublicKey} (hkeys : ∀ kid, c.keys.lookup kid = c.currentKey kid)
    (hkey : c.currentKey call.kid = some key)
    (hanswer : (c.snapshot cfg call).answer? call.kid = some result) : Found cfg c call := by
  have heq : getKey cfg c call = (c, result) := by
    simp [getKey, hanswer]
  have hsnap : (c.snapshot cfg call).key = some key := (hkeys call.kid).trans hkey
  simp only [Snapshot.answer?, hsnap, Option.ite_none_right_eq_some, Option.some.injEq] at hanswer
  obtain ⟨-, rfl⟩ := hanswer
  rw [Found, heq]
  exact ⟨key, rfl, hkey⟩

/-- **A rotated key is found.** Of calls that do not overlap, let every fetch that starts at `T` or
later succeed and bring a key for `kid`, and let every call that fetched before be over by `T'`.
Then every call for `kid` that begins a cooldown after `T` and a negative lifetime after `T'`
returns the key that was last published, whatever the calls before it asked for. -/
theorem found_of_rotated {cfg : CacheConfig} (hmin : cfg.minRefetchInterval ≤ maxValue)
    (hneg : cfg.negativeCacheTTL ≤ maxValue) {kid : String} {T T' : ℤ}
    {calls before after : List LoneCall} {call : LoneCall} (hchron : Chronological 0 calls)
    (hserves : ∀ c ∈ calls, Serves cfg kid T c)
    (hover : ∀ c ∈ calls, c.fetchStarted < T → c.noted ≤ T')
    (hcalls : calls = before ++ call :: after) (hkid : call.kid = kid)
    (hT : T + cfg.minRefetchInterval ≤ call.began)
    (hT' : T' + cfg.negativeCacheTTL ≤ call.began) :
    Found cfg (serve cfg .initial before) call := by
  subst hcalls hkid
  have hclock := hchron.le_began
  have hrot : Rotated call.kid T T' (serve cfg .initial before) :=
    (rotated_initial call.kid T T').serve (fun c hc => hserves c (List.mem_append_left _ hc))
      fun c hc => hover c (List.mem_append_left _ hc)
  generalize serve cfg .initial before = c at hrot
  have hserve := hserves call (by simp)
  have h₁ := call.began_le
  have h₂ := call.expiryRead_le
  have h₃ := call.cooldownRead_le
  have h₄ := call.negativeRead_le
  have h₅ := call.attempted_le
  have hpos := cfg.minRefetchInterval_pos
  have hstarted : T ≤ call.fetchStarted := by omega
  cases hanswer : (c.snapshot cfg call).answer? call.kid with
  | none => exact found_of_refetch hanswer hserve hstarted
  | some result =>
    cases hkey : c.currentKey call.kid with
    | some key => exact found_of_answer hrot.keys hkey hanswer
    | none =>
      -- Neither the cooldown nor a note holds the call back, so it does not answer at once.
      have hcooldown : (c.snapshot cfg call).inCooldown = false := by
        refine decide_eq_false fun hlt => ?_
        have hrecent := Time.lt_of_sub_lt hmin hlt
        obtain hzero | ⟨key, hfound⟩ := hrot.attempt (by omega)
        · -- the zero time is too long ago
          rw [hzero] at hrecent
          have hlong : maxValue < 0 - Time.zero := by decide
          omega
        · rw [hkey] at hfound
          cases hfound
      have hfresh : (c.snapshot cfg call).negFresh = false := by
        show (c.negativeCache call.kid).any _ = false
        cases hnote : c.negativeCache call.kid with
        | none => rfl
        | some t =>
          refine decide_eq_false fun hlt => ?_
          have hrecent := Time.lt_of_sub_lt hneg hlt
          have hold := hrot.note t hnote
          omega
      have hsnap : (c.snapshot cfg call).key = none := (hrot.keys call.kid).trans hkey
      simp [Snapshot.answer?, hsnap, hfresh, hcooldown] at hanswer

/-- Every call for `kid` that begins the longer of the two intervals after `T` returns the key, if
all fetches from `T` on bring it. -/
def FoundInTime (cfg : CacheConfig) (kid : String) (T : ℤ) : Prop :=
  ∀ calls before after : List LoneCall, ∀ call, Chronological 0 calls →
    (∀ c ∈ calls, Serves cfg kid T c) → calls = before ++ call :: after → call.kid = kid →
    T + max cfg.minRefetchInterval cfg.negativeCacheTTL ≤ call.began →
      Found cfg (serve cfg .initial before) call

/-- A call answers from a note that is fresh. -/
theorem getKey_of_note (call : LoneCall) {t : ℤ} (hkey : c.keys.lookup call.kid = none)
    (hnote : c.negativeCache call.kid = some t)
    (hfresh : Time.sub call.negativeRead t < cfg.negativeCacheTTL) :
    getKey cfg c call = (c, .error (.notFound call.kid)) := by
  simp [getKey, Cache.snapshot, Snapshot.answer?, hkey, hnote, hfresh]

theorem nineSeconds_nonneg : 0 ≤ 9 * second := by decide

/-- A call for `a` whose fetch takes nine seconds and brings `old`. -/
def slowCall (old : List JwksKey) : LoneCall :=
  .lasting "a" 0 (9 * second) nineSeconds_nonneg (.http 200 (.ok old))

/-- A call for `a` at the time `t`, when the endpoint has `new`. -/
def promptCall (new : List JwksKey) (t : ℤ) : LoneCall :=
  .lasting "a" t 0 (Int.le_refl 0) (.http 200 (.ok new))

section

variable {old new : List JwksKey} {key key' : PublicKey} (hold : usableKey old "b" = some key)
  (hmissing : usableKey old "a" = none) (hnew : usableKey new "a" = some key')

include hnew in
/-- The new document is served from the first second on. -/
theorem serves_calls (t : ℤ) :
    ∀ c ∈ [slowCall old, promptCall new t], Serves defaultConfig "a" second c := by
  intro c hc
  simp only [List.mem_cons, List.not_mem_nil, or_false] at hc
  obtain rfl | rfl := hc
  · intro hT
    have hlate : ¬ second ≤ 0 := by decide
    exact absurd hT hlate
  · intro _
    exact ⟨new, key', fetchJWKS_of_usableKey hnew, hnew⟩

include hold hmissing in
/-- The slow call notes nine seconds after its start that the key is unknown. -/
theorem serve_slowCall : serve defaultConfig .initial [slowCall old] =
    (Cache.initial.publish old (slowCall old)).remember defaultConfig (slowCall old) := by
  have hok : fetchJWKS defaultConfig (slowCall old).response = .ok old :=
    fetchJWKS_of_usableKey hold
  show (getKey defaultConfig .initial (slowCall old)).1 = _
  obtain ⟨result, hanswer, -⟩ | ⟨-, err, hfetch, -⟩ | ⟨-, doc, key, hfetch, hfound, -⟩ |
    ⟨-, doc, hfetch, -, heq⟩ := getKey_cases defaultConfig .initial (slowCall old)
  · have hnone : (Cache.initial.snapshot defaultConfig (slowCall old)).answer? "a" = none := rfl
    exact absurd (hnone.symm.trans hanswer) nofun
  · exact absurd (hok.symm.trans hfetch) nofun
  · obtain rfl := Except.ok.inj (hok.symm.trans hfetch)
    exact absurd (hmissing.symm.trans hfound) nofun
  · obtain rfl := Except.ok.inj (hok.symm.trans hfetch)
    rw [heq]

include hold hmissing hnew in
/-- A call thirty seconds after the first second answers from that note. -/
theorem not_foundInTime_of_slowCall : ¬ FoundInTime defaultConfig "a" second := by
  intro hall
  have hchron : Chronological 0 [slowCall old, promptCall new (31 * second)] := by
    have hlater : 0 + 9 * second ≤ 31 * second := by decide
    exact ⟨le_rfl, hlater, trivial⟩
  have hbound : second + max defaultConfig.minRefetchInterval
      defaultConfig.negativeCacheTTL ≤ 31 * second := by decide
  obtain ⟨key, hok, -⟩ := hall [slowCall old, promptCall new (31 * second)] [slowCall old] []
    (promptCall new (31 * second)) hchron (serves_calls hnew _) rfl rfl hbound
  rw [serve_slowCall hold hmissing] at hok
  have hfresh : Time.sub (31 * second) (0 + 9 * second) <
      defaultConfig.negativeCacheTTL := by decide
  have hlookup : ((Cache.initial.publish old (slowCall old)).remember defaultConfig
      (slowCall old)).keys.lookup "a" = none := by
    rw [lookup_remember_publish, hmissing]
  have hnote : ((Cache.initial.publish old (slowCall old)).remember defaultConfig
      (slowCall old)).negativeCache "a" = some (0 + 9 * second) := by
    simp [Cache.remember, rememberUnknownKid, slowCall, LoneCall.lasting]
  rw [getKey_of_note (promptCall new (31 * second)) hlookup hnote hfresh] at hok
  cases hok

end

/-- A key that is served from the first second on is still unknown thirty seconds later: a fetch
that began before has made a note about it after nine seconds. -/
theorem not_foundInTime : ¬ FoundInTime defaultConfig "a" second := by
  obtain ⟨_, _, _, hnew, -, hold, hmissing⟩ := exists_replaced
  exact not_foundInTime_of_slowCall hold hmissing hnew

/-- A negative lifetime after the note it is found. -/
theorem found_of_rotated_prompt : ∃ old new, usableKey old "a" = none ∧
    Found defaultConfig (serve defaultConfig .initial [slowCall old])
      (promptCall new (39 * second)) := by
  obtain ⟨new, old, key, hnew, -, -, hmissing⟩ := exists_replaced
  refine ⟨old, new, hmissing, ?_⟩
  have hlater : 0 + 9 * second ≤ 39 * second := by decide
  have hover : ∀ c ∈ [slowCall old, promptCall new (39 * second)],
      c.fetchStarted < second → c.noted ≤ 0 + 9 * second := by
    intro c hc hbefore
    simp only [List.mem_cons, List.not_mem_nil, or_false] at hc
    obtain rfl | rfl := hc
    · exact le_rfl
    · have hlate : ¬ 39 * second < second := by decide
      exact absurd hbefore hlate
  have hmin : second + defaultConfig.minRefetchInterval ≤ 39 * second := by decide
  have hneg : 0 + 9 * second + defaultConfig.negativeCacheTTL ≤ 39 * second := by
    decide
  have hcalls : [slowCall old, promptCall new (39 * second)] =
      [slowCall old] ++ promptCall new (39 * second) :: [] := rfl
  have hchron : Chronological 0 [slowCall old, promptCall new (39 * second)] :=
    ⟨le_rfl, hlater, trivial⟩
  exact found_of_rotated (by decide) (by decide) hchron (serves_calls hnew _) hover hcalls rfl hmin
    hneg

end Jwks

end JwtAuth
