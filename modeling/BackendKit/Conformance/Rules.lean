import BackendKit.Conformance.Load
import BackendKit.Conformance.Match

/-!
# Values and rules of placeholders

`Load` and `Match` have a switch statement each over the kinds of placeholders: one with the value to put
and its default, the other with the rule for what is found. `ruleOf_valueOf` goes through both: the value
of every kind satisfies the rule of the kind, for parameters that are well formed.

Numbers are compared as `float64`, which is exact for instants below `2 ^ 53` seconds.
-/

open GoStd
open Duration (second)

namespace Conformance

/-- The instants that a resolver writes. -/
def Resolver.times (r : Resolver) : List ℤ := [r.now, r.authTime, r.now + r.ttl, r.now + r.refreshTTL]

/-- Parameters whose set values are well formed. -/
structure Params.WellFormed (p : Params) (env : Env) : Prop where
  ttl : p.ttl = 0 ∨ second ≤ p.ttl.toInt
  refreshTTL : p.refreshTTL = 0 ∨ second ≤ p.refreshTTL.toInt
  now : p.now = Time.zero ∨ second ≤ p.now
  authTime : p.authTime = Time.zero ∨ second ≤ p.authTime
  /-- A clock that is used does not stand before the first Unix second. -/
  clock : p.now = Time.zero → second ≤ env.clock
  times : ∀ t ∈ (newResolver env p).times, unixSeconds t < 2 ^ 53
  tokens : ∀ token ∈ [p.accessToken, p.refreshToken, p.idToken], token ≠ "" → reJWS token = true
  keys : ∀ k ∈ p.keys, reUUID k.id = true ∧ ∀ key, k.privateKey = some key → 0 < key.n
  attributes : ∀ attrs, p.attributes = some attrs → ∀ e ∈ attrs, e.2.Plain ∧ e.2 ≠ .nil

/-! ### Strings -/

/-- What is required of a string that is not given by the parameters. -/
def Satisfies (re : Option (String → Bool)) (s : String) : Prop :=
  match re with
  | some pattern => pattern s = true
  | none => s ≠ ""

instance (re : Option (String → Bool)) (s : String) : Decidable (Satisfies re s) :=
  match re with
  | some pattern => inferInstanceAs (Decidable (pattern s = true))
  | none => inferInstanceAs (Decidable (s ≠ ""))

theorem orDefault_of_ne {v : String} (h : v ≠ "") (default : String) : orDefault v default = v := if_pos h

theorem orDefault_empty (default : String) : orDefault "" default = default := if_neg (by simp)

variable (path : String)

/-- A value from the parameters is compared with itself, and a default has the pattern. -/
theorem str_orDefault {re : Option (String → Bool)} (desc v : String) {default : String}
    (h : Satisfies re default) : str path re desc v (.string (orDefault v default)) = [] := by
  unfold str
  by_cases hv : v = ""
  · rw [hv, orDefault_empty]
    cases re with
    | none => simp [show default ≠ "" from h]
    | some pattern => simp [show pattern default = true from h]
  · simp [orDefault_of_ne hv, hv]

theorem str_of_satisfies (re : Option (String → Bool)) (desc : String) {s : String}
    (h : Satisfies re s) : str path re desc "" (.string s) = [] := by
  have hstr := str_orDefault path desc "" h
  rwa [orDefault_empty] at hstr

theorem tokenRule_self {s : String} (h : reJWS s = true) : tokenRule path s (.string s) = [] := by
  simp [tokenRule, h]

/-- A string of base64url. -/
theorem reB64URL_rawURLEncode {bytes : List UInt8} (h : bytes ≠ []) :
    reB64URL (rawURLEncode bytes) = true := by
  have halphabet : ∀ n < 64, isURLSafe (Base64.char n) = true := by decide +kernel
  have hall : ∀ c ∈ Base64.encodeChars bytes, isURLSafe c = true :=
    Base64.forall_mem_encodeChars halphabet bytes
  have hne : Base64.encodeChars bytes ≠ [] := by
    intro hnil
    have hlength := Base64.length_encodeChars bytes
    have hpos := List.length_pos_iff.mpr h
    rw [hnil, List.length_nil] at hlength
    omega
  unfold reB64URL rawURLEncode plus
  rw [String.toList_ofList, List.all_eq_true.mpr hall]
  simpa using hne

theorem reAppSub_toString (n : ℕ) : reAppSub ("app:" ++ toString n) = true := by
  have hlist : ("app:" ++ toString n).toList = "app:".toList ++ Nat.toDigits 10 n := by
    rw [String.toList_append]
    congr 1
    show (Nat.repr n).toList = _
    rw [Nat.repr_eq_ofList_toDigits, String.toList_ofList]
  have hdigits : plus Char.isDigit (Nat.toDigits 10 n) = true := by
    unfold plus
    rw [List.all_eq_true.mpr Decimal.isDigit_toDigits]
    simp
  have hfour : "app:".toList.length = 4 := by decide
  unfold reAppSub
  rw [hlist, List.take_left' hfour, List.drop_left' hfour, hdigits]
  simp

/-- The subject of an application is given by its number. -/
theorem str_appSub (id : UInt64) :
    str path (some reAppSub) "\"app:<numeric id>\"" (if id ≠ 0 then "app:" ++ toString id.toNat else "")
      (.string ("app:" ++ toString (if id = 0 then defaultAppID else id).toNat)) = [] := by
  by_cases hid : id = 0
  · rw [if_neg (not_not.mpr hid), if_pos hid]
    exact str_of_satisfies path (some reAppSub) _ (reAppSub_toString _)
  · rw [if_pos hid, if_neg hid]
    simp [str]

/-! ### Numbers -/

/-- A natural number below `2 ^ 53` is read as it is. -/
theorem number_toString {n : ℤ} (hn : 0 ≤ n) (h : n < 2 ^ 53) :
    ∃ f, number (.number (toString n)) = some f ∧ f.value = n := by
  obtain ⟨k, rfl⟩ := Int.eq_ofNat_of_zero_le hn
  have hk : k < 2 ^ 53 := by exact_mod_cast h
  obtain ⟨f, hparse, hvalue⟩ := Float64.parse_toString (hk.trans (by norm_num))
  refine ⟨f, hparse, ?_⟩
  rw [hvalue, Float64.round_natCast hk]
  simp

theorem integer_toString {n : ℤ} (hn : 1 ≤ n) (h : n < 2 ^ 53) :
    integer path 1 (.number (toString n)) = [] := by
  obtain ⟨f, hnumber, hvalue⟩ := number_toString (by omega) h
  have hnonneg : (0 : ℚ) ≤ n := by exact_mod_cast (by omega : 0 ≤ n)
  have htrunc : f.value = trunc f.value := by
    rw [hvalue, trunc, if_pos hnonneg, Int.floor_intCast]
  have hmin : ¬ f.value < (1 : ℕ) := by
    rw [hvalue, not_lt]
    exact_mod_cast hn
  unfold integer
  rw [hnumber]
  simp only
  rw [if_neg (not_or.mpr ⟨not_not.mpr htrunc, hmin⟩)]

/-- A lifetime of at least a second has a whole number of seconds, as a `float64` too. -/
theorem wholeSeconds_bounds {d : ℤ} (hd : second ≤ d) (h : d < 2 ^ 63) :
    1 ≤ wholeSeconds d ∧ wholeSeconds d < 2 ^ 53 := by
  unfold second at hd
  obtain ⟨k, hk⟩ : ∃ k : ℕ, d / second = k :=
    Int.eq_ofNat_of_zero_le (by unfold second; omega)
  obtain ⟨rest, hrest⟩ : ∃ rest : ℕ, d % second = rest :=
    Int.eq_ofNat_of_zero_le (by unfold second; omega)
  unfold second at hk hrest
  have hpos : 1 ≤ k := by omega
  have hlt : k < 2 ^ 34 := by omega
  have hwhole : Float64.round (k : ℚ) = k := Float64.round_natCast (by omega)
  -- the fraction may be rounded up to a whole second
  have hnonneg : 0 ≤ Float64.round ((rest : ℚ) / 10 ^ 9) := Float64.round_nonneg (by positivity)
  have hone : Float64.round ((rest : ℚ) / 10 ^ 9) ≤ 2 ^ (0 : ℤ) := by
    refine Float64.round_le_zpow (by positivity) (by decide) ?_
    rw [zpow_zero, div_lt_one (by norm_num)]
    exact_mod_cast (by omega : rest < 10 ^ 9)
  rw [zpow_zero] at hone
  unfold wholeSeconds second
  rw [hk, hrest, Int.cast_natCast, Int.cast_natCast, hwhole]
  generalize Float64.round ((rest : ℚ) / 10 ^ 9) = fraction at hnonneg hone ⊢
  have hlow : (1 : ℚ) ≤ k := by exact_mod_cast hpos
  have hhigh : (k : ℚ) + fraction < 2 ^ (35 : ℤ) := by
    have : (k : ℚ) ≤ 17179869184 := by exact_mod_cast (by omega : k ≤ 17179869184)
    norm_num
    linarith
  refine ⟨Int.le_floor.mpr ?_, Int.floor_lt.mpr ?_⟩
  · exact_mod_cast Float64.one_le_round (by linarith : 1 ≤ (k : ℚ) + fraction)
  · refine lt_of_le_of_lt (Float64.round_le_zpow (by linarith) (by decide) hhigh) ?_
    norm_num

/-- What lives for a second or more expires in a later second. -/
theorem unixSeconds_lt {d : ℤ} (h : second ≤ d) (t : ℤ) : unixSeconds t < unixSeconds (t + d) := by
  unfold unixSeconds second at *
  omega

/-! ### The resolver's values -/

section Values

variable {p : Params} {env : Env}

theorem second_le_now (hp : p.WellFormed env) : second ≤ (newResolver env p).now := by
  show second ≤ if p.now = Time.zero then env.clock else p.now
  split_ifs with hzero
  · exact hp.clock hzero
  · exact hp.now.resolve_left hzero

theorem ttl_bounds (hp : p.WellFormed env) :
    second ≤ (newResolver env p).ttl ∧ (newResolver env p).ttl < 2 ^ 63 := by
  show second ≤ (if 0 < p.ttl then p.ttl.toInt else defaultTTL) ∧
    (if 0 < p.ttl then p.ttl.toInt else defaultTTL) < 2 ^ 63
  split_ifs with hset
  · refine ⟨hp.ttl.resolve_left ?_, Int64.toInt_lt p.ttl⟩
    rintro hzero
    rw [hzero] at hset
    exact absurd hset (by decide)
  · decide

theorem second_le_refreshTTL (hp : p.WellFormed env) :
    second ≤ (newResolver env p).refreshTTL := by
  show second ≤ if p.refreshTTL ≤ 0 then defaultRefreshTTL else p.refreshTTL.toInt
  split_ifs with hunset
  · decide
  · refine hp.refreshTTL.resolve_left ?_
    rintro hzero
    rw [hzero] at hunset
    exact absurd hunset (by decide)

/-- Every instant that is written is a positive number, small enough to be exact. -/
theorem integer_unixSeconds (hp : p.WellFormed env) {t : ℤ} (ht : t ∈ (newResolver env p).times)
    (path : String) : integer path 1 (.number (toString (unixSeconds t))) = [] := by
  have hnow := second_le_now hp
  have hauth : second ≤ (newResolver env p).authTime := by
    show second ≤ if p.authTime ≠ Time.zero then p.authTime else (newResolver env p).now
    split_ifs with hset
    · exact hp.authTime.resolve_left hset
    · exact hnow
  have hle : second ≤ t := by
    have httl := (ttl_bounds hp).1
    have hrefresh := second_le_refreshTTL hp
    simp only [Resolver.times, List.mem_cons, List.not_mem_nil, or_false] at ht
    unfold second at *
    omega
  refine integer_toString path ?_ (hp.times t ht)
  exact (Int.le_ediv_iff_mul_le (by decide)).mpr (by simpa using hle)

variable (path : String) (r : Resolver) (position : List Any.Step)

theorem rawURLEncode_random {n : ℕ} (hn : 0 < n) : reB64URL (r.randomB64 position n) = true := by
  refine reB64URL_rawURLEncode fun hnil => ?_
  have hlength := (r.env.random position n).2
  rw [hnil, List.length_nil] at hlength
  omega

theorem randomB64_ne_empty {n : ℕ} (hn : 0 < n) : r.randomB64 position n ≠ "" := by
  intro hempty
  have hpattern := rawURLEncode_random r position hn
  rw [hempty] at hpattern
  exact absurd hpattern (by decide)

/-- The thumbprint of a key is given, or drawn with the length of a SHA-256 sum. -/
theorem thumbprintRule_jkt (path exact : String) :
    thumbprintRule path exact (.string (orDefault exact (r.randomB64 position 32))) = [] := by
  unfold thumbprintRule
  by_cases hexact : exact = ""
  · have hlength : (r.randomB64 position 32).toList.length = 43 := by
      rw [Resolver.randomB64, rawURLEncode, String.toList_ofList, Base64.length_encodeChars,
        (r.env.random position 32).2]
    rw [hexact, orDefault_empty]
    simp [hlength, rawURLEncode_random r position]
  · rw [if_pos hexact]
    have hne : Satisfies none (r.randomB64 position 32) := randomB64_ne_empty r position (by decide)
    exact str_orDefault path _ exact hne

theorem reB64URL_atHash (accessToken : String) : reB64URL (atHash accessToken) = true := by
  refine reB64URL_rawURLEncode fun hnil => ?_
  have hlength := congrArg List.length hnil
  rw [List.length_take, Sha256.length_sum256] at hlength
  cases hlength

theorem versionRule_tokenVersion (version : Int64) :
    versionRule path version
      (.number (toString (if 0 < version then version.toInt else 1))) = [] := by
  unfold versionRule
  split_ifs with hset
  · have hpos : 0 ≤ version.toInt := by
      have := Int64.lt_iff_toInt_lt.mp hset
      simpa using this.le
    obtain ⟨n, hn⟩ := Int.eq_ofNat_of_zero_le hpos
    have hlt : n < 2 ^ 64 := by
      have := Int64.toInt_lt version
      omega
    obtain ⟨f, hparse, hvalue⟩ := Float64.parse_toString hlt
    rw [hn, number, hparse]
    simp [hvalue]
  · exact integer_toString path le_rfl (by norm_num)

theorem appRolesRule_client (p : Params) :
    appRolesRule path p (.map [(orDefault p.clientID defaultClientID,
      .string (orDefault p.role defaultRole))]) = [] := by
  have hrole : orDefault p.role defaultRole ≠ "" := orDefault_ne_empty (by decide)
  have hroles : rolesFailures path [(orDefault p.clientID defaultClientID,
      .string (orDefault p.role defaultRole))] = [] := by
    simp [rolesFailures, Any.sortMembers, hrole]
  have hclient : clientRoleFailures path p [(orDefault p.clientID defaultClientID,
      .string (orDefault p.role defaultRole))] = [] := by
    unfold clientRoleFailures
    by_cases hset : p.clientID = ""
    · exact if_neg (not_not.mpr hset)
    · rw [if_pos hset, orDefault_of_ne hset]
      by_cases hrole' : p.role = ""
      · simp [Any.lookup, hrole']
      · simp [Any.lookup, orDefault_of_ne hrole']
  simp [appRolesRule, hroles, hclient]

/-- A value is the same JSON as what is decoded from it. -/
theorem sameJSON_reread {v : Any} (h : v.Plain) : sameJSON v v.reread = true := by
  unfold sameJSON norm
  rw [Any.marshal_reread, Any.marshal_of_plain h]
  exact Any.deepEqual_self _ (Any.distinctKeys_unmarshal _)

theorem attributeRule_reread (p : Params) (arg : String) {v : Any} (hplain : v.Plain)
    (hnil : v ≠ .nil) (hv : ∀ attrs, p.attributes = some attrs → Any.lookup attrs arg = some v) :
    attributeRule path p.attributes arg v.reread = [] := by
  cases hattrs : p.attributes with
  | none =>
    cases v with
    | nil => exact absurd rfl hnil
    | _ => rfl
  | some attrs =>
    have hsame := sameJSON_reread hplain
    unfold attributeRule
    rw [Option.bind_some, hv attrs hattrs]
    cases v with
    | nil => exact absurd rfl hnil
    | _ => exact if_pos hsame

theorem token_agrees (hp : p.WellFormed env) {name token : String} {v : Any}
    (htoken : token ∈ [p.accessToken, p.refreshToken, p.idToken])
    (h : Resolver.token name token = .ok v) (path : String) :
    v.Plain ∧ tokenRule path token v.reread = [] := by
  unfold Resolver.token at h
  split_ifs at h with hempty
  cases h
  exact ⟨Any.plain_string token, tokenRule_self path (hp.tokens token htoken hempty)⟩

theorem attribute_agrees (hp : p.WellFormed env) {arg : String} {v : Any}
    (h : Any.lookup (newResolver env p).attributes arg = some v) (path : String) :
    v.Plain ∧ attributeRule path p.attributes arg v.reread = [] := by
  cases hattrs : p.attributes with
  | none =>
    have hdefault : (newResolver env p).attributes = [("department", .string "engineering")] := by
      rw [Resolver.attributes, newResolver_p, hattrs]
    rw [hdefault] at h
    obtain ⟨-, rfl⟩ := Prod.mk.inj (List.mem_singleton.mp (Any.mem_of_lookup h))
    exact ⟨Any.plain_string _, rfl⟩
  | some attrs =>
    have hset : (newResolver env p).attributes = attrs := by
      rw [Resolver.attributes, newResolver_p, hattrs]
    rw [hset] at h
    obtain ⟨hplain, hnil⟩ := hp.attributes attrs hattrs _ (Any.mem_of_lookup h)
    rw [← hattrs]
    refine ⟨hplain, attributeRule_reread path p arg hplain hnil fun attrs' hattrs' => ?_⟩
    obtain rfl := Option.some.inj (hattrs.symm.trans hattrs')
    exact h

/-- A string from the parameters or by default, for a rule that compares or looks at a pattern. -/
theorem str_agrees (re : Option (String → Bool)) (desc given default : String)
    (h : Satisfies re default) :
    (Any.string (orDefault given default)).Plain ∧
      str path re desc given (Any.string (orDefault given default)).reread = [] :=
  ⟨Any.plain_string _, str_orDefault path desc given h⟩

theorem time_agrees (hp : p.WellFormed env) {t : ℤ} (ht : t ∈ (newResolver env p).times)
    (path : String) :
    (Any.int64 (unixSeconds t)).Plain ∧ integer path 1 (Any.int64 (unixSeconds t)).reread = [] :=
  ⟨Any.plain_int64 _, integer_unixSeconds hp ht path⟩

/-- The value of a placeholder satisfies its rule. -/
theorem ruleOf_valueOf (hp : p.WellFormed env) {position : List Any.Step} {kind : Kind}
    {name arg : String} {v : Any} (hscope : kind = .scope → arg ≠ "")
    (h : (newResolver env p).valueOf position kind name arg = .ok v) (path : String) :
    v.Plain ∧ ruleOf p path kind arg v.reread = [] := by
  cases kind with
  | accessToken => exact token_agrees hp (by simp) h path
  | refreshToken => exact token_agrees hp (by simp) h path
  | idToken => exact token_agrees hp (by simp) h path
  | n => cases h
  | userAttribute =>
    rw [Resolver.valueOf] at h
    split at h
    · cases h
    next v' hlookup =>
      cases h
      exact attribute_agrees hp hlookup path
  | kid =>
    have hkid : ∃ s, v = .string s ∧ reUUID s = true := by
      rw [Resolver.valueOf] at h
      split at h
      next k keys hkeys =>
        refine ⟨_, (Except.ok.inj h).symm, ?_⟩
        have hk : reUUID k.id = true := (hp.keys k (hkeys ▸ List.mem_cons_self)).1
        unfold orDefault
        split_ifs
        · exact hk
        · exact env.reUUID_newUUID position
      next => exact ⟨_, (Except.ok.inj h).symm, env.reUUID_newUUID position⟩
    obtain ⟨s, rfl, hs⟩ := hkid
    exact ⟨Any.plain_string s, str_of_satisfies path (some reUUID) "a UUID" hs⟩
  | appSub =>
    cases h
    exact ⟨Any.plain_string _, str_appSub path p.appID⟩
  | scope =>
    cases h
    have hne : orDefault p.scope arg ≠ "" := orDefault_ne_empty (hscope rfl)
    have hstr := str_agrees path none "a scope" (orDefault p.scope arg) arg (hscope rfl)
    rwa [orDefault_of_ne hne] at hstr
  | expiresIn =>
    cases h
    obtain ⟨hlow, hhigh⟩ := ttl_bounds hp
    obtain ⟨hone, hexact⟩ := wholeSeconds_bounds hlow hhigh
    exact ⟨Any.plain_int64 _, integer_toString path hone hexact⟩
  | jti =>
    cases h
    have huuid := env.reUUID_newUUID position
    exact ⟨Any.plain_string _, str_of_satisfies path (some reUUID) "a UUID" huuid⟩
  | atHash =>
    cases h
    refine ⟨Any.plain_string _, str_of_satisfies path (some reB64URL) "a base64url string" ?_⟩
    show reB64URL (if p.accessToken ≠ "" then _ else _) = true
    split_ifs
    · exact reB64URL_atHash _
    · exact rawURLEncode_random _ _ (by decide)
  | tokenVersion =>
    cases h
    exact ⟨Any.plain_int64 _, versionRule_tokenVersion path p.tokenVersion⟩
  | jkt =>
    cases h
    exact ⟨Any.plain_string _, thumbprintRule_jkt _ position path p.jkt⟩
  | appRoles =>
    cases h
    refine ⟨Any.plain_map (List.nodup_singleton _) ?_, appRolesRule_client path p⟩
    exact List.forall_mem_singleton.mpr (Any.plain_string _)
  | iat | nbf | authTime | exp | refreshExp =>
    cases h
    exact time_agrees hp (by simp [Resolver.times]) path
  -- What is left are strings with a default that has the pattern.
  | nonce =>
    cases h
    exact str_agrees path none "the nonce" p.nonce _ (randomB64_ne_empty _ position (by decide))
  | issuer =>
    cases h
    exact str_agrees path none "the issuer" p.issuer defaultIssuer (by decide)
  | clientID =>
    cases h
    exact str_agrees path none "a client_id" p.clientID defaultClientID (by decide)
  | sub =>
    cases h
    exact str_agrees path (some reDecimal) _ p.subject defaultSubject (by decide)
  | role =>
    cases h
    exact str_agrees path none "a role" p.role defaultRole (by decide)
  | email =>
    cases h
    exact str_agrees path (some reEmail) "an email address" p.email defaultEmail (by decide)
  | name =>
    cases h
    exact str_agrees path none "a name" p.name defaultName (by decide)
  | tenantID =>
    cases h
    exact str_agrees path (some reUUID) "a UUID" p.tenantID defaultTenantID (by decide)

end Values

end Conformance
