import BackendKit.JwtAuth.Middleware

/-!
# The tenant claim

What `WithTenantClaim` promises (`jwtauth/middleware.go`): the named claim must hold a UUID, any
other value rejects the token, and a plain `tenant_id` is ignored.

Both promises have a gap.

* `namedTenant_iff`: a named claim that is the empty string is not told apart from an absent one,
  and the request is accepted without a tenant.
* `sameOutcome_iff`: a plain `tenant_id` that is neither a string nor `null` is not ignored. The
  payload is also decoded into `SocrateClaims`, which has a field for it, and that fails.
-/

open GoStd

namespace JwtAuth

/-! ### The end of the handler -/

/-- The handler from the tenant on: a token that has passed the other checks. -/
def Middleware.tenantOutcome (lib : Lib) (m : Middleware) (token : String)
    (claims : SocrateClaims) : Outcome :=
  if claims.tenantID = "" then .next (m.context lib token claims none)
  else
    match lib.parseUUID claims.tenantID with
    | none => .rejected (unauthorized "invalid tenant_id") none
    | some tenantID => .next (m.context lib token claims (some tenantID))

/-- The end of the handler, from the scopes on. -/
def Middleware.lastChecks (lib : Lib) (m : Middleware) (token : String) (claims : SocrateClaims) :
    Outcome :=
  if m.requiredScopesSet = true ∧ m.missingScopes claims ≠ none then
    .rejected (forbidden "insufficient scope") (some m.requiredScopes)
  else m.tenantOutcome lib token claims

/-- The request is rejected with the status 401. -/
def Outcome.Is401 : Outcome → Prop
  | .next _ => False
  | .rejected err _ => err.statusCode = 401

/-- The revocation check, if there is one, accepts a token. -/
def Live (opts : List Opt) (token : String) (claims : SocrateClaims) : Prop :=
  ∀ check, checkerInForce opts = some check → check token claims = none

variable {lib : Lib} {now : ℤ} {opts : List Opt}

variable {getKey : KeyLookup} {issuer : String}

/-- A token that does not validate is rejected with 401. -/
theorem handler_of_validateToken_eq_none {m : Middleware} {r : Request} {token : String}
    (hbearer : extractBearer r = some token)
    (hvalidate : m.validateToken lib getKey now token = none) :
    m.handler lib getKey now r = .rejected (unauthorized "invalid or expired token") none := by
  simp [Middleware.handler, hbearer, hvalidate]

/-- A validated token that is live gets to the last checks; one that is not is rejected. -/
theorem handler_of_validateToken_eq_some {m : Middleware} (hconf : Configured m issuer opts)
    {r : Request} {token : String} {claims : SocrateClaims} (hbearer : extractBearer r = some token)
    (hvalidate : m.validateToken lib getKey now token = some claims) :
    (Live opts token claims → m.handler lib getKey now r = m.lastChecks lib token claims) ∧
      (¬ Live opts token claims → (m.handler lib getKey now r).Is401) := by
  have hlive : Live opts token claims ↔
      (m.revocationCheck.bind fun check => check token claims) = none := by
    rw [Live, ← hconf.checker, Option.bind_eq_none_iff]
  rw [hlive]
  unfold Middleware.handler
  simp only [hbearer, hvalidate]
  constructor
  · intro hnone
    rw [if_neg (not_not.mpr hnone)]
    rfl
  · intro hrevoked
    rw [if_pos hrevoked]
    rfl

/-! ### Signed tokens -/

/-- A token with this payload and a valid signature: three parts, RS256, and a key that is known. -/
def Signed (lib : Lib) (getKey : KeyLookup) (token : String)
    (payload : Json) : Prop :=
  ∃ h p s header signature kid key, List.splitOn '.' token.toList = [h, p, s] ∧
    (Base64.decodeChars h).bind lib.header = some header ∧
    (Base64.decodeChars p).bind lib.json = some payload ∧
    Base64.decodeChars s = some signature ∧
    Json.lookupLast "alg" header = some (.str "RS256") ∧ kid ≠ "" ∧
    Json.lookupLast "kid" header = some (.str kid) ∧ getKey kid = .ok key ∧
    lib.verify "RS256" key (h ++ '.' :: p) signature = true

/-- What `Valid` says of the claims. -/
structure ClaimsValid (issuer : String) (opts : List Opt) (now : ℤ) (claims : SocrateClaims) :
    Prop where
  exp : ∃ exp, claims.expiresAt = some exp ∧ now < exp + leewayInForce opts
  nbf : ∀ nbf, claims.notBefore = some nbf → nbf - leewayInForce opts ≤ now
  iss : issuer ≠ "" → claims.issuer = issuer
  aud : ∀ auds, audiencesInForce opts = some auds → ∃ a ∈ claims.audience, a ∈ auds

theorem Signed.payload_eq {token : String} {payload : Json} (h : Signed lib getKey token payload) :
    JwtAuth.payload lib.toClaimCodec token = .ok payload := by
  obtain ⟨h, p, s, header, signature, kid, key, hsplit, -, hpayload, -⟩ := h
  simp [JwtAuth.payload, hsplit, hpayload]

/-- A signed token is valid if its claims are. -/
theorem Signed.exists_valid {token : String} {payload : Json} {claims : SocrateClaims}
    (h : Signed lib getKey token payload)
    (hclaims : decodeClaims lib.toClaimCodec payload = some claims)
    (hvalid : ClaimsValid issuer opts now claims) :
    ∃ t, Valid lib issuer opts getKey now token t ∧ t.payload = payload ∧ t.claims = claims := by
  obtain ⟨h, p, s, header, signature, kid, key, hsplit, hheader, hpayload, hsig, halg, hkid,
    hlookup, hkey, hverify⟩ := h
  refine ⟨{ alg := "RS256", header, signingInput := h ++ '.' :: p, signature, payload, claims },
    ⟨?_, ⟨rfl, kid, key, hkid, hlookup, hkey, hverify⟩, hvalid.exp, hvalid.nbf, hvalid.iss,
      hvalid.aud⟩, rfl, rfl⟩
  simp [unverified, hsplit, hheader, hpayload, hclaims, hsig, halg]

theorem Signed.of_valid {token : String} {payload : Json} {t : JwtToken}
    (h : Signed lib getKey token payload) (hvalid : Valid lib issuer opts getKey now token t) :
    t.payload = payload ∧ decodeClaims lib.toClaimCodec payload = some t.claims ∧
      ClaimsValid issuer opts now t.claims := by
  obtain ⟨hpayload, hclaims⟩ := payload_of_unverified hvalid.decodes
  obtain rfl : t.payload = payload := Except.ok.inj (hpayload.symm.trans h.payload_eq)
  exact ⟨rfl, hclaims, hvalid.exp, hvalid.nbf, hvalid.iss, hvalid.aud⟩

/-! ### Signed tokens with tenants -/

/-- A payload, its text, and the digest and the signature under `signingKey` of a token with it. -/
structure Sample where
  text : String
  payload : Json
  digest : ℕ
  signature : List ℕ

/-- The name of the tenant claim. -/
abbrev nsTenantClaim : String := "https://socrate/tenant_id"

abbrev sampleTenant : String := "00000000-0000-0000-0000-00000000000a"

/-- A named claim that is the empty string. -/
def emptyTenant : Sample where
  text := "\x7b\"exp\":2000003600,\"https://socrate/tenant_id\":\"\"\x7d"
  payload := .obj [("exp", .num "2000003600"), (nsTenantClaim, .str "")]
  digest := 0x1e4e3a4b4eb9d01a4b8e75159d0687db312e3475d72348da28a2a0a72403c5f5
  signature := [
    0x54cff68bf168ddf822f6352f484390f9, 0x9c2297b7f2955474292555e0eec06ea9,
    0x4c2c771c5c75330532182605e84742ac, 0x9ae9b6105749b3d463879a506eeaebc3,
    0x7385c3fb49b327b2d114435b7339eb3f, 0x7ca941f84ff3e5f0d6f5a7d548a6fe1d,
    0x3baa3040d58d3478f2009916cf1e2bd7, 0x655ea176c192dee74030918c922f558c,
    0x8257f6f77f2761fa13b7a66060143ff9, 0xf81ca3b6e21ec377a4df052d2dc777f0,
    0x7b5734e77bc24769ccdec5c9cb69506b, 0xeff04df72e916efa1eb46dd9ef0f1eef,
    0xfa7f7a6bb01a29da2dd9c51194b2f489, 0xc8ed9411bdfbc2eaa7c674f2bfcecadf,
    0xd74cc1950c3cf01144b4d6f8f5875b13, 0x4d2d665e27a3799d800b3a1bfbe4ce27]

/-- A named claim that is a UUID. -/
def namedTenant : Sample where
  text := "\x7b\"exp\":2000003600,\"https://socrate/tenant_id\":\"00000000-0000-0000-0000-00000000000a\"\x7d"
  payload := .obj [("exp", .num "2000003600"), (nsTenantClaim, .str sampleTenant)]
  digest := 0x9646f4b536581e7734af3d5e7ab917a3d97fef5ff84c8d2081323961cc2dec06
  signature := [
    0x1dac693e1468a42503e5791158e919d0, 0x8da037ab5da00b84fb051a1758fb3eb7,
    0xbca9a807771fc70dbcdcebcff27cb50b, 0xf3bce13fc73b8fadfd87d6173d6374cb,
    0xe8b30abe81ea0d909950ca76a422bdef, 0xece4593ef09a71520ebc5fb1ea9fa943,
    0x9197fe9d80e0a74ea2db70d7fa64aff7, 0x758e853a75a2d0738a5ef34f5dd23cac,
    0xe8cbf6af80e64becbb2ed823be5c78fb, 0x4a852866c7436c5719eb1c56ec1b510f,
    0xd16a61b42ef1774eb0ebd8047b3a4c87, 0x001919390fc47f40c9ba87dc5d13bf66,
    0xae521eccdbb3270e082e8010c684baa1, 0x528e24cfaf72020cd7b35a243a7382aa,
    0xa8934deb68bc7021f6259caf7290f6ee, 0x5c9583169047684884570edeb5c4e348]

/-- The same, with a plain tenant that is a number. -/
def numberTenant : Sample where
  text := "\x7b\"exp\":2000003600,\"https://socrate/tenant_id\":\"00000000-0000-0000-0000-00000000000a\",\"tenant_id\":7\x7d"
  payload := .obj [("exp", .num "2000003600"), (nsTenantClaim, .str sampleTenant),
    ("tenant_id", .num "7")]
  digest := 0xec7565ce22d8cc698dd95537eb4a5f245de7dff9609c3d4864d56a5e5547ab34
  signature := [
    0x9efc3b732637c673bc34bdbb3be95f59, 0xee695a23f7fb49a84803373f773159c1,
    0x95c9bc7578c58c248c00c800ab44770d, 0x2068aa4b6366e5bdd82daba97656508a,
    0x827907998b3731f1809b4fb45cc6a0f9, 0xe023fe03fc00e3d843bbb3db74d946a8,
    0x1e84f8f505b7d87c5c31813f3b99ecc9, 0xbfd2e857202598793566feb714cab485,
    0xa29ea7445a3d04f64d0c59414098c2f1, 0xd03d7cc9c11d6c218c3cd3817e8f9a55,
    0x0a5b11ba26890d60a3d972de8f3f7cd8, 0x3f83b2ad6bc091b3b10cdc3344b15f14,
    0x9cd5dea2d638e9889eac02085fdf1866, 0x166338b7a14a6eb843d7494aa9ac76f3,
    0xb4c9adf2e7c3685147bf0bfee7e35063, 0x1a2ac6aca1bd23447150a625ad43bf9d]

/-- The same, with a plain tenant that is a UUID. -/
def plainTenant : Sample where
  text := "\x7b\"exp\":2000003600,\"https://socrate/tenant_id\":\"00000000-0000-0000-0000-00000000000a\",\"tenant_id\":\"00000000-0000-0000-0000-00000000000b\"\x7d"
  payload := .obj [("exp", .num "2000003600"), (nsTenantClaim, .str sampleTenant),
    ("tenant_id", .str "00000000-0000-0000-0000-00000000000b")]
  digest := 0x2a710c9a67b2dde19226b1106646f992030619b61881862ab7317201b3d8483f
  signature := [
    0x447b96784b4c6bf2386e97bf4bb4f0a0, 0xdfa8695ea228aaf6816ad390ca7b1824,
    0x46deba9237bf75442da7f5e8d0bf6982, 0xba9d3a59fdf292372b265b741cad20d2,
    0xb9f8bd6c17767c41396477971d4c58b5, 0x0703eed0eed0df0501f50db7040130f4,
    0x55008e63e2c877881d4479141eb96b6f, 0x49abd1731d36dabe4bd06a311c6e2291,
    0xd65b3a259d6023cd1da11f9f95bbf4a3, 0xf45e0c6a1a9d4b7eb9296aaf5b3884e7,
    0x879d2b904358c476dbefeb20fefdf39a, 0x41ce7957fa7c4b74322f38e2591b3d2f,
    0x09265717cb8faae64e93a373c873f874, 0x6c55b4c83c4d4cef08a44e6f462f08f4,
    0x434f25cd1d8b0cdcd1ecba9877a39da2, 0x0e91bc873d045535864e00261571833b]

namespace Sample

def token (s : Sample) : String :=
  compact (ascii headerText) (ascii s.text) (0 :: wordBytes s.signature)

/-- The text that is signed. -/
def signingInput (s : Sample) : List Char :=
  Base64.encodeChars (ascii headerText) ++ '.' :: Base64.encodeChars (ascii s.text)

def request (s : Sample) : Request where
  method := "GET"
  header := Header.empty.set "Authorization" ("Bearer " ++ s.token)

theorem signingInput_eq_iff {s s' : Sample} :
    s.signingInput = s'.signingInput ↔ ascii s.text = ascii s'.text := by
  constructor
  · intro h
    have hencoded := List.tail_eq_of_cons_eq (List.append_cancel_left h)
    have hdecoded := congrArg Base64.decodeChars hencoded
    rw [Base64.decodeChars_encodeChars, Base64.decodeChars_encodeChars] at hdecoded
    exact Option.some.inj hdecoded
  · intro h
    rw [signingInput, signingInput, h]

end Sample

/-- The format of tokens, on the texts of the known samples. -/
def sampleFormat (known : List Sample) : TokenFormat :=
  { signedFormat with
    json bytes := (known.find? fun s => ascii s.text = bytes).map (·.payload) }

/-- `uuid.Parse` of the form with 36 characters: hexadecimal digits in five groups. -/
def parseCanonicalUUID (s : String) : Option UUID :=
  match List.splitOn '-' s.toList with
  | [a, b, c, d, e] =>
    if [a, b, c, d, e].map List.length = [8, 4, 4, 4, 12] then
      ((a ++ b ++ c ++ d ++ e).mapM hexDigit?).map fun ds =>
        BitVec.ofNat 128 (ds.foldl (fun n d => n * 16 + d) 0)
    else none
  | _ => none

/-- The digests of the signed texts. -/
def sampleDigest (known : List Sample) (input : List Char) : Option ℕ :=
  (known.find? fun s => s.signingInput = input).map (·.digest)

def sampleLib (known : List Sample) : Lib :=
  referenceLib (sampleFormat known) (rsaVerify (sampleDigest known)) parseCanonicalUUID (fun _ => 0)

theorem documented_sampleLib (known : List Sample) : (sampleLib known).Documented :=
  documented_referenceLib _ _ _ _

theorem extractBearer_request (s : Sample) : extractBearer s.request = some s.token := by
  rw [extractBearer_eq_some]
  simp [Header.get, Sample.request, canonicalKey_authorization,
    Header.values_set_self canonicalKey_authorization]

variable {s : Sample} {claims : SocrateClaims} {lib : Lib} {m : Middleware} {opts : List Opt}
  {now : ℤ} {t : JwtToken} {name : String}

/-- The signature is one under `signingKey`, for the digest of the sample. -/
abbrev Sample.Verifies (s : Sample) : Prop :=
  rsaVerify (fun _ => some s.digest) "RS256" signingKey [] (0 :: wordBytes s.signature) = true

/-- A sample that is known and whose signature verifies is a signed token. -/
theorem signed_sample {known : List Sample}
    (hknown : (known.find? fun s' => ascii s'.text = ascii s.text) = some s) (hverify : s.Verifies) :
    Signed (sampleLib known) signedKeys s.token s.payload := by
  have hdigest : sampleDigest known s.signingInput = some s.digest := by
    simp only [sampleDigest, Sample.signingInput_eq_iff, hknown, Option.map_some]
  refine ⟨_, _, _, [("alg", .str "RS256"), ("kid", .str "k1")], _, "k1", signingKey,
    splitOn_compact _ _ _, ?_, ?_, Base64.decodeChars_encodeChars _, rfl, by decide, rfl,
    by simp [signedKeys], ?_⟩
  · rw [Base64.decodeChars_encodeChars]
    show signedFormat.header (ascii headerText) = _
    simp [signedFormat]
  · rw [Base64.decodeChars_encodeChars]
    show (known.find? _).map _ = _
    rw [hknown, Option.map_some]
  · show rsaVerify (sampleDigest known) "RS256" signingKey s.signingInput _ = true
    simpa only [Sample.Verifies, rsaVerify, hdigest] using hverify

theorem signed_head (known : List Sample) (hverify : s.Verifies) :
    Signed (sampleLib (s :: known)) signedKeys s.token s.payload :=
  signed_sample (by simp) hverify

theorem signed_second {s' : Sample} (hne : ascii s'.text ≠ ascii s.text) (hverify : s.Verifies) :
    Signed (sampleLib [s', s]) signedKeys s.token s.payload :=
  signed_sample (by simp [hne]) hverify

theorem signed_emptyTenant :
    Signed (sampleLib [emptyTenant]) signedKeys emptyTenant.token emptyTenant.payload :=
  signed_head [] (by decide +kernel)

theorem signed_namedTenant (known : List Sample) :
    Signed (sampleLib (namedTenant :: known)) signedKeys namedTenant.token namedTenant.payload :=
  signed_head known (by decide +kernel)

/-- Texts of different lengths are different. -/
theorem ascii_ne_of_length {s s' : String} (h : s'.toList.length ≠ s.toList.length) :
    ascii s' ≠ ascii s := by
  intro heq
  have hlength := congrArg List.length heq
  rw [ascii, ascii, List.length_map, List.length_map] at hlength
  exact h hlength

/-! Evaluating `toList` of a text would decode its bytes. -/

theorem length_namedTenant : namedTenant.text.toList.length = 85 :=
  (congrArg List.length String.toList_ofList).trans (by decide +kernel)

theorem length_numberTenant : numberTenant.text.toList.length = 99 :=
  (congrArg List.length String.toList_ofList).trans (by decide +kernel)

set_option maxRecDepth 1000 in
theorem length_plainTenant : plainTenant.text.toList.length = 136 :=
  (congrArg List.length String.toList_ofList).trans (by decide +kernel)

theorem signed_numberTenant : Signed (sampleLib [namedTenant, numberTenant]) signedKeys
    numberTenant.token numberTenant.payload :=
  signed_second (ascii_ne_of_length (by rw [length_namedTenant, length_numberTenant]; decide))
    (by decide +kernel)

theorem signed_plainTenant : Signed (sampleLib [namedTenant, plainTenant]) signedKeys
    plainTenant.token plainTenant.payload :=
  signed_second (ascii_ne_of_length (by rw [length_namedTenant, length_plainTenant]; decide))
    (by decide +kernel)

/-- The tenant is read from a claim under the namespace of the issuer. -/
def tenantOpts : List Opt := [.withTenantClaim nsTenantClaim]

/-- An hour before the samples expire. -/
def sampleTime : ℤ := 2000000000 * Duration.second

theorem claimsValid_sample (hexp : claims.expiresAt = some (2000003600 * Duration.second))
    (hnbf : claims.notBefore = none) : ClaimsValid "" tenantOpts sampleTime claims where
  exp := ⟨_, hexp, by decide⟩
  nbf := by simp [hnbf]
  iss := by simp
  aud := nofun

/-! ### A named claim is strict -/

/-- All configured checks but the one of the tenant. The revocation check is only asked about a
token whose tenant claim can be read. -/
structure Acceptable (lib : Lib) (issuer : String) (opts : List Opt)
    (getKey : KeyLookup) (now : ℤ) (r : Request)
    (token : String) (t : JwtToken) : Prop extends Valid lib issuer opts getKey now token t where
  bearer : r.header.get "Authorization" = "Bearer " ++ token
  live : TenantReadable t (tenantClaimInForce opts) → Live opts token (presented lib opts token t)
  scopes : ∀ required, scopesInForce opts = some required → required ≠ [] ∧
    ∃ held, scopeClaims lib.toClaimCodec token = .ok held ∧ ∀ scope ∈ required, scope ∈ held

/-- The request is accepted, and `tenant` is the tenant of its context. -/
def Outcome.HasTenant (tenant : Option UUID) : Outcome → Prop
  | .next ctx => ctx.tenantID = tenant
  | .rejected _ _ => False

/-- What is promised for a named claim: absent, it sets no tenant; a UUID is the tenant; and
anything else is rejected with 401. -/
def NamedTenant (lib : Lib) (claim : Option Json) (o : Outcome) : Prop :=
  match claim with
  | none => o.HasTenant none
  | some (.str value) =>
    match lib.parseUUID value with
    | some tenant => o.HasTenant (some tenant)
    | none => o.Is401
  | some _ => o.Is401

variable {issuer : String} {getKey : KeyLookup} {token : String}

/-- What becomes of a request that only the tenant can stop. -/
theorem handler_of_acceptable (hlib : lib.Documented) (h : Configured m issuer opts) {r : Request}
    (hacc : Acceptable lib issuer opts getKey now r token t)
    (hread : TenantReadable t (tenantClaimInForce opts)) :
    m.handler lib getKey now r = m.tenantOutcome lib token (presented lib opts token t) := by
  have hvalidate : m.validateToken lib getKey now token = some (presented lib opts token t) :=
    (validateToken_eq_some hlib h).mpr ⟨t, hacc.toValid, hread, rfl⟩
  have hbearer := extractBearer_eq_some.mpr hacc.bearer
  rw [(handler_of_validateToken_eq_some h hbearer hvalidate).1 (hacc.live hread)]
  -- no required scope is missing
  apply if_neg
  rintro ⟨hset, hmissing⟩
  exact hmissing ((missingScopes_presented h token t).mpr hacc.scopes hset)

/-- A tenant claim that cannot be read rejects the token with 401. -/
theorem is401_of_not_tenantReadable (hlib : lib.Documented) (h : Configured m issuer opts)
    {r : Request} (hacc : Acceptable lib issuer opts getKey now r token t)
    (hread : ¬ TenantReadable t (tenantClaimInForce opts)) :
    (m.handler lib getKey now r).Is401 := by
  have hnone : m.validateToken lib getKey now token = none := by
    rw [Option.eq_none_iff_forall_not_mem]
    intro claims hclaims
    obtain ⟨t', hvalid, hread', -⟩ := (validateToken_eq_some hlib h).mp hclaims
    -- a token decodes in one way only
    obtain rfl : t = t' := Option.some.inj (hacc.decodes.symm.trans hvalid.decodes)
    exact hread hread'
  rw [handler_of_validateToken_eq_none (extractBearer_eq_some.mpr hacc.bearer) hnone]
  rfl

/-- Without the named claim, the claims are presented without a tenant. -/
theorem tenantID_presented_of_none (hname : tenantClaimInForce opts = some name)
    (hclaim : member? name t.payload = none) : (presented lib opts token t).tenantID = "" := by
  simp [presented, hname, hclaim]

/-- The claims are presented with the value of the named claim as the tenant. -/
theorem tenantID_presented_of_str {value : String} (hname : tenantClaimInForce opts = some name)
    (hclaim : member? name t.payload = some (.str value)) :
    (presented lib opts token t).tenantID = value := by
  simp [presented, hname, hclaim]

/-- The claims with the tenant `value`, at the end of the handler. -/
theorem namedTenant_tenantOutcome {value : String} (htenant : claims.tenantID = value) :
    NamedTenant lib (some (.str value)) (m.tenantOutcome lib token claims) ↔ value ≠ "" := by
  unfold Middleware.tenantOutcome NamedTenant
  rw [htenant]
  by_cases hempty : value = ""
  · -- accepted without a tenant, whatever the empty string parses to
    rw [if_pos hempty]
    refine iff_of_false ?_ (not_not.mpr hempty)
    cases huuid : lib.parseUUID value <;> simp only [huuid] <;> exact nofun
  · rw [if_neg hempty]
    refine iff_of_true ?_ hempty
    cases huuid : lib.parseUUID value <;> simp only [huuid] <;> rfl

/-- **When a named tenant claim is strict.** For every middleware whose last `WithTenantClaim` has
a name that is not blank, and every request that passes the other checks, the named claim is
treated as promised unless it is the empty string. -/
theorem namedTenant_iff {lib : Lib} (hlib : lib.Documented) (jwksURL issuer : String)
    (opts : List Opt) (name : String) (hname : tenantClaimInForce opts = some (trimSpace name))
    (hblank : trimSpace name ≠ "") (getKey : KeyLookup) (now : ℤ)
    (r : Request) (token : String) (t : JwtToken)
    (hacc : Acceptable lib issuer opts getKey now r token t) :
    NamedTenant lib (member? (trimSpace name) t.payload)
        ((new jwksURL issuer opts).handler lib getKey now r) ↔
      member? (trimSpace name) t.payload ≠ some (.str "") := by
  have hconf := configured_new jwksURL issuer opts
  generalize new jwksURL issuer opts = m at hconf
  have hreadable : TenantReadable t (tenantClaimInForce opts) ↔
      (member? (trimSpace name) t.payload = none ∨
        ∃ tenant, member? (trimSpace name) t.payload = some (.str tenant)) := by
    rw [hname]
    exact and_iff_right hblank
  -- A claim that is there and is not a string cannot be read.
  have hunreadable : ∀ v, member? (trimSpace name) t.payload = some v → (∀ s, v ≠ .str s) →
      (m.handler lib getKey now r).Is401 := by
    intro v hv hstr
    apply is401_of_not_tenantReadable hlib hconf hacc
    rw [hreadable, hv]
    rintro (hnone | ⟨s, hs⟩)
    · cases hnone
    · exact hstr s (Option.some.inj hs)
  cases hclaim : member? (trimSpace name) t.payload with
  | none =>
    rw [handler_of_acceptable hlib hconf hacc (hreadable.mpr (.inl hclaim)),
      Middleware.tenantOutcome, if_pos (tenantID_presented_of_none hname hclaim)]
    exact iff_of_true rfl nofun
  | some v =>
    cases v with
    | str value =>
      rw [handler_of_acceptable hlib hconf hacc (hreadable.mpr (.inr ⟨value, hclaim⟩)),
        namedTenant_tenantOutcome (tenantID_presented_of_str hname hclaim)]
      simp
    | _ => exact iff_of_true (hunreadable _ hclaim nofun) nofun

theorem acceptable_sample {known : List Sample}
    (hsigned : Signed (sampleLib known) signedKeys s.token s.payload)
    (hclaims : decodeClaims (sampleLib known).toClaimCodec s.payload = some claims)
    (hexp : claims.expiresAt = some (2000003600 * Duration.second)) (hnbf : claims.notBefore = none) :
    ∃ t, t.payload = s.payload ∧
      Acceptable (sampleLib known) "" tenantOpts signedKeys sampleTime s.request s.token t := by
  obtain ⟨t, hvalid, hpayload, -⟩ := hsigned.exists_valid hclaims (claimsValid_sample hexp hnbf)
  exact ⟨t, hpayload, { hvalid with
    bearer := extractBearer_eq_some.mp (extractBearer_request s)
    live := nofun
    scopes := nofun }⟩

theorem tenantClaimInForce_tenantOpts : tenantClaimInForce tenantOpts = some nsTenantClaim := by
  decide

/-- A token whose named tenant claim is the empty string is accepted. -/
theorem not_namedTenant : (sampleLib [emptyTenant]).Documented ∧ ∃ t,
    Acceptable (sampleLib [emptyTenant]) "" tenantOpts signedKeys sampleTime emptyTenant.request
      emptyTenant.token t ∧
    member? nsTenantClaim t.payload = some (.str "") ∧
    ¬ NamedTenant (sampleLib [emptyTenant]) (member? nsTenantClaim t.payload)
      ((new "/jwks" "" tenantOpts).handler (sampleLib [emptyTenant]) signedKeys sampleTime
        emptyTenant.request) := by
  have hdoc := documented_sampleLib [emptyTenant]
  obtain ⟨t, hpayload, hacc⟩ := acceptable_sample signed_emptyTenant rfl rfl rfl
  have hclaim : member? nsTenantClaim t.payload = some (.str "") := by
    rw [hpayload]
    rfl
  have hread : TenantReadable t (tenantClaimInForce tenantOpts) := by
    rw [tenantClaimInForce_tenantOpts]
    exact ⟨by decide, .inr ⟨"", hclaim⟩⟩
  refine ⟨hdoc, t, hacc, hclaim, ?_⟩
  rw [handler_of_acceptable hdoc (configured_new _ _ _) hacc hread, hclaim,
    namedTenant_tenantOutcome (tenantID_presented_of_str tenantClaimInForce_tenantOpts hclaim)]
  exact not_not.mpr rfl

theorem trimSpace_claimName : trimSpace nsTenantClaim = nsTenantClaim := by
  decide

/-- A token whose named tenant claim is a UUID. -/
theorem namedTenant_uuid : (sampleLib [namedTenant]).Documented ∧ ∃ t,
    Acceptable (sampleLib [namedTenant]) "" tenantOpts signedKeys sampleTime namedTenant.request
      namedTenant.token t ∧
    NamedTenant (sampleLib [namedTenant]) (some (.str sampleTenant))
      ((new "/jwks" "" tenantOpts).handler (sampleLib [namedTenant]) signedKeys sampleTime
        namedTenant.request) := by
  have hdoc := documented_sampleLib [namedTenant]
  obtain ⟨t, hpayload, hacc⟩ := acceptable_sample (signed_namedTenant []) rfl rfl rfl
  have hclaim : member? (trimSpace nsTenantClaim) t.payload = some (.str sampleTenant) := by
    rw [trimSpace_claimName, hpayload]
    rfl
  refine ⟨hdoc, t, hacc, ?_⟩
  rw [← hclaim]
  refine (namedTenant_iff hdoc "/jwks" "" tenantOpts nsTenantClaim rfl
    (by rw [trimSpace_claimName]; decide) signedKeys sampleTime _ _ t hacc).mpr ?_
  rw [hclaim]
  simp [sampleTenant]

/-! ### A plain `tenant_id` beside a named claim -/

/-- A payload without the members whose name `p` selects. -/
def without (p : String → Bool) : Json → Json
  | .obj members => .obj (members.filter fun m => !p m.1)
  | v => v

/-- Members that are not selected are not missed. -/
theorem select_without {p q : String → Bool} (h : ∀ name, q name = true → p name = false)
    (members : List (String × Json)) :
    Json.select q (members.filter fun m => !p m.1) = Json.select q members := by
  unfold Json.select
  rw [List.filter_filter]
  congr 1
  apply List.filter_congr
  intro m _
  by_cases hq : q m.1 = true
  · simp [hq, h _ hq]
  · simp [hq]

/-- A name matches at most one of two fields that differ in more than their case. -/
theorem matchesField_eq_false {field field' : String}
    (hne : field.toList.map Json.foldChar ≠ field'.toList.map Json.foldChar) (name : String)
    (h : Json.matchesField field name = true) : Json.matchesField field' name = false := by
  unfold Json.matchesField at *
  rw [beq_iff_eq] at h
  rw [beq_eq_false_iff_ne, h]
  exact hne

theorem decodeField_without {α : Type} (into : α → Json → Option α) (zero : α) {field : String}
    (hne : field.toList.map Json.foldChar ≠ "tenant_id".toList.map Json.foldChar)
    (members : List (String × Json)) :
    Json.decodeField into zero field
        (members.filter fun m => !Json.matchesField "tenant_id" m.1) =
      Json.decodeField into zero field members := by
  unfold Json.decodeField
  rw [select_without (matchesField_eq_false hne)]

/-- The plain tenant is decoded apart from all other claims. -/
theorem decodeClaims_obj (codec : ClaimCodec) (members : List (String × Json)) :
    decodeClaims codec (.obj members) =
      (Json.decodeField Json.intoString "" "tenant_id" members).bind fun tenantID =>
        (decodeClaims codec (without (Json.matchesField "tenant_id") (.obj members))).map fun claims =>
          { claims with tenantID } := by
  have htenant : Json.decodeField Json.intoString "" "tenant_id"
      (members.filter fun m => !Json.matchesField "tenant_id" m.1) = some "" := by
    simp [Json.decodeField, Json.select, List.filter_filter]
  unfold decodeClaims without
  dsimp only
  rw [htenant]
  iterate 15 rw [decodeField_without _ _ (by decide)]
  cases Json.decodeField Json.intoString "" "tenant_id" members with
  | none =>
    -- Five fields are decoded before the tenant.
    iterate 5
      refine Option.bind_eq_none_iff.mpr ?_
      intro _ _
    rfl
  | some tenantID =>
    show _ = Option.map _ _
    iterate 5
      refine Eq.trans ?_ Option.map_bind.symm
      refine congrArg _ (funext fun _ => ?_)
    refine Eq.trans ?_ Option.map_bind.symm
    dsimp only [Option.bind_eq_bind, Option.bind_some, Function.comp_apply]
    iterate 10
      refine Eq.trans ?_ Option.map_bind.symm
      refine congrArg _ (funext fun _ => ?_)
    rfl

/-- The plain tenant does not stop the payload from decoding: the field takes members of any case
of its name, and each must be a string or `null`. -/
def TenantDecodes : Json → Prop
  | .obj members => ∀ v ∈ Json.select (Json.matchesField "tenant_id") members,
      v = .null ∨ ∃ s, v = .str s
  | _ => True

theorem isSome_foldlM_intoString (vs : List Json) (old : String) :
    (vs.foldlM Json.intoString old).isSome = true ↔ ∀ v ∈ vs, v = .null ∨ ∃ s, v = .str s := by
  induction vs generalizing old with
  | nil => simp
  | cons v vs ih => cases v <;> simp [List.foldlM_cons, Json.intoString, ih]

/-- The claims of a payload are those without the plain tenant, and the plain tenant. -/
theorem decodeClaims_eq_some {codec : ClaimCodec} {payload : Json}
    (h : decodeClaims codec payload = some claims) :
    TenantDecodes payload ∧ ∃ rest,
      decodeClaims codec (without (Json.matchesField "tenant_id") payload) = some rest ∧
        claims = { rest with tenantID := claims.tenantID } := by
  cases payload with
  | obj members =>
    rw [decodeClaims_obj, Option.bind_eq_some_iff] at h
    obtain ⟨tenantID, htenant, h⟩ := h
    obtain ⟨rest, hrest, rfl⟩ := Option.map_eq_some_iff.mp h
    refine ⟨(isSome_foldlM_intoString _ "").mp ?_, rest, hrest, rfl⟩
    rw [← Json.decodeField, htenant]
    rfl
  | _ => exact ⟨trivial, claims, h, rfl⟩

/-- If the plain tenant decodes, so does the payload. -/
theorem exists_decodeClaims {codec : ClaimCodec} {payload : Json} {rest : SocrateClaims}
    (htenant : TenantDecodes payload)
    (hrest : decodeClaims codec (without (Json.matchesField "tenant_id") payload) = some rest) :
    ∃ tenantID, decodeClaims codec payload = some { rest with tenantID } := by
  cases payload with
  | obj members =>
    obtain ⟨tenantID, hfield⟩ :=
      Option.isSome_iff_exists.mp ((isSome_foldlM_intoString _ "").mpr htenant)
    refine ⟨tenantID, ?_⟩
    rw [decodeClaims_obj, Json.decodeField, hfield, hrest]
    rfl
  | _ => exact ⟨rest.tenantID, hrest⟩

/-! ### Two tokens that differ in the plain tenant -/

/-- The value of a named tenant claim, as far as it can be read. -/
def namedTenant? (name : String) (payload : Json) : Option String :=
  match member? name payload with
  | none => some ""
  | some (.str tenant) => some tenant
  | some _ => none

/-- The claims of a token with its named tenant, its plain one left out. -/
def namedClaims (codec : ClaimCodec) (name token : String) (payload : Json) :
    Option SocrateClaims := do
  let rest ← decodeClaims codec (without (Json.matchesField "tenant_id") payload)
  let tenantID ← namedTenant? name payload
  return { Middleware.attachScopes codec token rest with tenantID }

/-- Scopes are attached to the claims whatever their tenant. -/
theorem attachScopes_tenantID (codec : ClaimCodec) (token plain tenantID : String)
    (rest : SocrateClaims) :
    { Middleware.attachScopes codec token { rest with tenantID := plain } with tenantID } =
      { Middleware.attachScopes codec token rest with tenantID } := by
  unfold Middleware.attachScopes
  split <;> rfl

/-- What a revocation check would be given. -/
theorem presented_of_named {tenantID : String} (hname : tenantClaimInForce opts = some name)
    (htenant : namedTenant? name t.payload = some tenantID) :
    presented lib opts token t =
      { Middleware.attachScopes lib.toClaimCodec token t.claims with tenantID } := by
  unfold namedTenant? at htenant
  unfold presented
  rw [hname]
  split at htenant
  next hclaim =>
    cases htenant
    simp [hclaim]
  next tenant hclaim =>
    cases htenant
    simp [hclaim]
  · cases htenant

theorem tenantReadable_iff (hname : tenantClaimInForce opts = some name) (hblank : name ≠ "") :
    TenantReadable t (tenantClaimInForce opts) ↔
      ∃ tenantID, namedTenant? name t.payload = some tenantID := by
  rw [hname]
  unfold TenantReadable namedTenant?
  cases hclaim : member? name t.payload with
  | none => simp [hblank, hclaim]
  | some v => cases v <;> simp [hblank, hclaim]

/-- Of a signed token with a named tenant claim, `validateToken` returns the claims with the named
tenant, but only if the plain one decodes. -/
theorem validateToken_signed (hlib : lib.Documented) (hconf : Configured m issuer opts)
    (hname : tenantClaimInForce opts = some name) (hblank : name ≠ "") {payload : Json}
    (hsigned : Signed lib getKey token payload) :
    m.validateToken lib getKey now token = some claims ↔ TenantDecodes payload ∧
      namedClaims lib.toClaimCodec name token payload = some claims ∧
      ClaimsValid issuer opts now claims := by
  rw [validateToken_eq_some hlib hconf]
  -- What is valid or not does not depend on tenant and scopes.
  have hsame : ∀ rest plain tenantID, ClaimsValid issuer opts now
      { Middleware.attachScopes lib.toClaimCodec token rest with tenantID := tenantID } ↔
        ClaimsValid issuer opts now { rest with tenantID := plain } := by
    intro rest plain tenantID
    unfold Middleware.attachScopes
    split <;> exact ⟨fun h => ⟨h.exp, h.nbf, h.iss, h.aud⟩, fun h => ⟨h.exp, h.nbf, h.iss, h.aud⟩⟩
  constructor
  · rintro ⟨t, hvalid, hread, rfl⟩
    obtain ⟨rfl, hclaims, hok⟩ := hsigned.of_valid hvalid
    obtain ⟨htenant, rest, hrest, heq⟩ := decodeClaims_eq_some hclaims
    obtain ⟨tenantID, hnamed⟩ := (tenantReadable_iff hname hblank).mp hread
    rw [presented_of_named hname hnamed]
    rw [heq] at hok ⊢
    rw [attachScopes_tenantID]
    refine ⟨htenant, ?_, (hsame _ _ _).mpr hok⟩
    simp [namedClaims, hrest, hnamed]
  · rintro ⟨htenant, hnamed, hok⟩
    simp only [namedClaims, Option.bind_eq_bind, Option.bind_eq_some_iff, Option.pure_def,
      Option.some.injEq] at hnamed
    obtain ⟨rest, hrest, tenantID, hnamed, rfl⟩ := hnamed
    obtain ⟨plain, hclaims⟩ := exists_decodeClaims htenant hrest
    obtain ⟨t, hvalid, rfl, ht⟩ := hsigned.exists_valid hclaims ((hsame _ _ _).mp hok)
    refine ⟨t, hvalid, (tenantReadable_iff hname hblank).mpr ⟨_, hnamed⟩, ?_⟩
    rw [presented_of_named hname hnamed, ht, attachScopes_tenantID]

/-- Two payloads that are equal except for the presence or the value of the `tenant_id` member. -/
def EqualButTenant (payload₁ payload₂ : Json) : Prop :=
  without (· == "tenant_id") payload₁ = without (· == "tenant_id") payload₂

namespace EqualButTenant

variable {payload₁ payload₂ : Json}

/-- Objects with the same other members, or one payload. -/
theorem cases (h : EqualButTenant payload₁ payload₂) :
    payload₁ = payload₂ ∨ ∃ members₁ members₂, payload₁ = .obj members₁ ∧ payload₂ = .obj members₂ ∧
      (members₁.filter fun m => !(m.1 == "tenant_id")) =
        members₂.filter fun m => !(m.1 == "tenant_id") := by
  unfold EqualButTenant at h
  cases payload₁ with
  | obj members₁ =>
    cases payload₂ with
    | obj members₂ => exact .inr ⟨members₁, members₂, rfl, rfl, Json.obj.inj h⟩
    | _ => cases h
  | _ =>
    cases payload₂ with
    | obj members₂ => cases h
    | _ => exact .inl h

/-- What does not select `tenant_id` selects the same from both. -/
theorem select_eq {members₁ members₂ : List (String × Json)}
    (h : (members₁.filter fun m => !(m.1 == "tenant_id")) =
      members₂.filter fun m => !(m.1 == "tenant_id"))
    {q : String → Bool} (hq : q "tenant_id" = false) :
    Json.select q members₁ = Json.select q members₂ := by
  have hignore : ∀ name, q name = true → (name == "tenant_id") = false := by
    intro name hname
    rw [beq_eq_false_iff_ne]
    rintro rfl
    rw [hq] at hname
    cases hname
  rw [← select_without hignore members₁, ← select_without hignore members₂, h]

theorem without_eq (h : EqualButTenant payload₁ payload₂) :
    without (Json.matchesField "tenant_id") payload₁ =
      without (Json.matchesField "tenant_id") payload₂ := by
  rcases h.cases with rfl | ⟨members₁, members₂, rfl, rfl, heq⟩
  · rfl
  · -- The members that the field takes include those of the exact name.
    have hexact : ∀ members : List (String × Json),
        ((members.filter fun m => !(m.1 == "tenant_id")).filter fun m =>
          !Json.matchesField "tenant_id" m.1) =
        members.filter fun m => !Json.matchesField "tenant_id" m.1 := by
      intro members
      rw [List.filter_filter]
      apply List.filter_congr
      intro m _
      by_cases hm : m.1 = "tenant_id"
      · rw [hm]
        decide
      · simp [hm]
    show Json.obj _ = Json.obj _
    rw [← hexact members₁, ← hexact members₂, heq]

theorem member?_eq (h : EqualButTenant payload₁ payload₂) {name : String}
    (hname : name ≠ "tenant_id") : member? name payload₁ = member? name payload₂ := by
  rcases h.cases with rfl | ⟨members₁, members₂, rfl, rfl, heq⟩
  · rfl
  · show (Json.select _ _).getLast? = (Json.select _ _).getLast?
    rw [select_eq heq]
    simpa using hname.symm

theorem scopeClaims_eq (h : EqualButTenant payload₁ payload₂) {codec : ClaimCodec}
    {token₁ token₂ : String} (h₁ : payload codec token₁ = .ok payload₁)
    (h₂ : payload codec token₂ = .ok payload₂) :
    scopeClaims codec token₁ = scopeClaims codec token₂ := by
  unfold scopeClaims
  rw [h₁, h₂]
  rcases h.cases with rfl | ⟨members₁, members₂, rfl, rfl, heq⟩
  · rfl
  · simp only [Json.rawField, select_eq heq (show Json.matchesField "scope" "tenant_id" = false by decide),
      select_eq heq (show Json.matchesField "scp" "tenant_id" = false by decide)]

/-- The two tokens have the same claims, their plain tenants left out. -/
theorem namedClaims_eq (h : EqualButTenant payload₁ payload₂) {codec : ClaimCodec}
    {name token₁ token₂ : String} (hname : name ≠ "tenant_id")
    (h₁ : payload codec token₁ = .ok payload₁) (h₂ : payload codec token₂ = .ok payload₂) :
    namedClaims codec name token₁ payload₁ = namedClaims codec name token₂ payload₂ := by
  unfold namedClaims namedTenant? Middleware.attachScopes
  rw [h.without_eq, h.member?_eq hname, h.scopeClaims_eq h₁ h₂]

end EqualButTenant

/-- The same status, and on acceptance the same values in the context, the raw token apart. -/
def Outcome.Alike : Outcome → Outcome → Prop
  | .next ctx₁, .next ctx₂ => { ctx₁ with rawJWT := "" } = { ctx₂ with rawJWT := "" }
  | .rejected err₁ _, .rejected err₂ _ => err₁.statusCode = err₂.statusCode
  | _, _ => False

/-- The handler treats two requests alike, and a revocation check sees the same tenant. -/
structure SameOutcome (lib : Lib) (m : Middleware)
    (getKey : KeyLookup) (now : ℤ) (token₁ token₂ : String)
    (r₁ r₂ : Request) : Prop where
  outcome : (m.handler lib getKey now r₁).Alike (m.handler lib getKey now r₂)
  seen : (m.handler lib getKey now r₁).isNext = true →
    (m.validateToken lib getKey now token₁).map (·.tenantID) =
      (m.validateToken lib getKey now token₂).map (·.tenantID)

/-- The scope check or the tenant check is the one that decides: nothing else rejects with 401. -/
def Middleware.Decides (lib : Lib) (m : Middleware) (claims : SocrateClaims) : Prop :=
  (m.requiredScopesSet = true ∧ m.missingScopes claims ≠ none) ∨ TenantValue lib claims.tenantID

variable {lib : Lib} {m : Middleware} {claims : SocrateClaims}

theorem is401_lastChecks {token : String} :
    (m.lastChecks lib token claims).Is401 ↔ ¬ m.Decides lib claims := by
  unfold Middleware.lastChecks Middleware.Decides
  by_cases hmissing : m.requiredScopesSet = true ∧ m.missingScopes claims ≠ none
  · rw [if_pos hmissing]
    exact iff_of_false (by simp [Outcome.Is401, forbidden]) (not_not.mpr (.inl hmissing))
  · rw [if_neg hmissing]
    unfold Middleware.tenantOutcome TenantValue
    by_cases hempty : claims.tenantID = ""
    · rw [if_pos hempty]
      exact iff_of_false id (not_not.mpr (.inr (.inl hempty)))
    · rw [if_neg hempty]
      cases huuid : lib.parseUUID claims.tenantID with
      | none => exact iff_of_true rfl (by simp [hmissing, hempty])
      | some tenant => exact iff_of_false id (by simp)

theorem alike_lastChecks (lib : Lib) (m : Middleware) (token₁ token₂ : String)
    (claims : SocrateClaims) :
    (m.lastChecks lib token₁ claims).Alike (m.lastChecks lib token₂ claims) := by
  unfold Middleware.lastChecks Middleware.tenantOutcome
  split
  · rfl
  · split
    · rfl
    · split <;> rfl

theorem Outcome.Alike.is401_iff {o₁ o₂ : Outcome} (h : o₁.Alike o₂) : o₁.Is401 ↔ o₂.Is401 := by
  cases o₁ <;> cases o₂ <;> simp_all [Outcome.Alike, Outcome.Is401]

theorem Outcome.Is401.alike {o₁ o₂ : Outcome} (h₁ : o₁.Is401) (h₂ : o₂.Is401) : o₁.Alike o₂ := by
  cases o₁ <;> cases o₂ <;> simp_all [Outcome.Alike, Outcome.Is401]

/-- What is not rejected with 401: a signed token whose plain tenant decodes, whose other claims
are valid, that is live, and that the last checks decide about. -/
theorem is401_signed (hlib : lib.Documented) {issuer : String} {opts : List Opt}
    (hconf : Configured m issuer opts) {name : String} (hname : tenantClaimInForce opts = some name)
    (hblank : name ≠ "") {getKey : KeyLookup} (now : ℤ)
    {r : Request} {token : String} {payload : Json} (hsigned : Signed lib getKey token payload)
    (hbearer : extractBearer r = some token) :
    (m.handler lib getKey now r).Is401 ↔ ∀ claims,
      namedClaims lib.toClaimCodec name token payload = some claims →
      ClaimsValid issuer opts now claims → m.Decides lib claims →
      ¬ (TenantDecodes payload ∧ Live opts token claims) := by
  have hiff : ∀ claims, m.validateToken lib getKey now token = some claims ↔ _ :=
    fun claims => validateToken_signed hlib hconf hname hblank hsigned
  cases hvalidate : m.validateToken lib getKey now token with
  | none =>
    refine iff_of_true ?_ ?_
    · rw [handler_of_validateToken_eq_none hbearer hvalidate]
      rfl
    · rintro claims hnamed hvalid - ⟨htenant, -⟩
      have hsome := (hiff claims).mpr ⟨htenant, hnamed, hvalid⟩
      rw [hvalidate] at hsome
      cases hsome
  | some claims =>
    obtain ⟨htenant, hnamed, hvalid⟩ := (hiff claims).mp hvalidate
    obtain ⟨hlast, hrevoked⟩ := handler_of_validateToken_eq_some hconf hbearer hvalidate
    have hone : ∀ claims', namedClaims lib.toClaimCodec name token payload = some claims' →
        claims = claims' := fun claims' h => Option.some.inj (hnamed.symm.trans h)
    by_cases hlive : Live opts token claims
    · rw [hlast hlive, is401_lastChecks]
      constructor
      · intro hnot claims' hnamed' _ hdecides
        obtain rfl := hone claims' hnamed'
        exact absurd hdecides hnot
      · intro hall hdecides
        exact hall claims hnamed hvalid hdecides ⟨htenant, hlive⟩
    · refine iff_of_true (hrevoked hlive) ?_
      rintro claims' hnamed' - - ⟨-, hlive'⟩
      obtain rfl := hone claims' hnamed'
      exact hlive hlive'

/-- Two requests with the same outcome: if the other claims pass their checks, both or neither of
the tokens have a plain tenant that decodes and are live. -/
theorem SameOutcome.order_iff (hlib : lib.Documented) {issuer : String} {opts : List Opt}
    (hconf : Configured m issuer opts) {name : String} (hname : tenantClaimInForce opts = some name)
    (hblank : name ≠ "") (hother : name ≠ "tenant_id")
    {getKey : KeyLookup} {now : ℤ} {r₁ r₂ : Request}
    {token₁ token₂ : String} {payload₁ payload₂ : Json} (hbearer₁ : extractBearer r₁ = some token₁)
    (hbearer₂ : extractBearer r₂ = some token₂) (hsigned₁ : Signed lib getKey token₁ payload₁)
    (hsigned₂ : Signed lib getKey token₂ payload₂) (hequal : EqualButTenant payload₁ payload₂)
    (hsame : SameOutcome lib m getKey now token₁ token₂ r₁ r₂)
    (hclaims : namedClaims lib.toClaimCodec name token₁ payload₁ = some claims)
    (hvalid : ClaimsValid issuer opts now claims) (hdecides : m.Decides lib claims) :
    TenantDecodes payload₁ ∧ Live opts token₁ claims ↔
      TenantDecodes payload₂ ∧ Live opts token₂ claims := by
  have hnamed := hequal.namedClaims_eq hother hsigned₁.payload_eq hsigned₂.payload_eq
  -- With these claims, a token is rejected with 401 exactly if it is not in order.
  have hone : ∀ {p : SocrateClaims → Prop}, (∀ claims',
      namedClaims lib.toClaimCodec name token₁ payload₁ = some claims' →
      ClaimsValid issuer opts now claims' → m.Decides lib claims' → ¬ p claims') ↔ ¬ p claims := by
    intro p
    constructor
    · intro hall
      exact hall claims hclaims hvalid hdecides
    · intro hnot claims' hclaims' _ _
      obtain rfl : claims = claims' := Option.some.inj (hclaims.symm.trans hclaims')
      exact hnot
  have hiff := hsame.outcome.is401_iff
  rw [is401_signed hlib hconf hname hblank now hsigned₁ hbearer₁,
    is401_signed hlib hconf hname hblank now hsigned₂ hbearer₂, ← hnamed, hone, hone] at hiff
  exact not_iff_not.mp hiff

/-- **When the plain tenant does not matter.** For every middleware whose last `WithTenantClaim`
has a name that is neither blank nor `tenant_id`, and every two requests with signed tokens whose
payloads differ at most in the `tenant_id` member, the outcome is the same exactly if, whenever
the other claims pass their checks, both or neither of the tokens have a plain tenant that decodes
and are live. -/
theorem sameOutcome_iff {lib : Lib} (hlib : lib.Documented) (jwksURL issuer : String)
    (opts : List Opt) (name : String) (hname : tenantClaimInForce opts = some (trimSpace name))
    (hblank : trimSpace name ≠ "") (hother : trimSpace name ≠ "tenant_id")
    (getKey : KeyLookup) (now : ℤ) (r₁ r₂ : Request)
    (token₁ token₂ : String) (payload₁ payload₂ : Json)
    (hbearer₁ : extractBearer r₁ = some token₁) (hbearer₂ : extractBearer r₂ = some token₂)
    (hsigned₁ : Signed lib getKey token₁ payload₁) (hsigned₂ : Signed lib getKey token₂ payload₂)
    (hequal : EqualButTenant payload₁ payload₂) :
    SameOutcome lib (new jwksURL issuer opts) getKey now token₁ token₂ r₁ r₂ ↔
      ∀ claims, namedClaims lib.toClaimCodec (trimSpace name) token₁ payload₁ = some claims →
        ClaimsValid issuer opts now claims → (new jwksURL issuer opts).Decides lib claims →
        (TenantDecodes payload₁ ∧ Live opts token₁ claims ↔
          TenantDecodes payload₂ ∧ Live opts token₂ claims) := by
  have hconf := configured_new jwksURL issuer opts
  generalize new jwksURL issuer opts = m at hconf ⊢
  have hnamed := hequal.namedClaims_eq hother hsigned₁.payload_eq hsigned₂.payload_eq
  constructor
  · intro hsame claims hclaims hvalid hdecides
    exact hsame.order_iff hlib hconf hname hblank hother hbearer₁ hbearer₂ hsigned₁ hsigned₂ hequal
      hclaims hvalid hdecides
  · intro hcond
    have h401₁ := is401_signed hlib hconf hname hblank now hsigned₁ hbearer₁
    have h401₂ := is401_signed hlib hconf hname hblank now hsigned₂ hbearer₂
    rw [← hnamed] at h401₂
    by_cases hrejected : (m.handler lib getKey now r₁).Is401
    · have hrejected₂ : (m.handler lib getKey now r₂).Is401 := by
        rw [h401₂]
        intro claims hclaims hvalid hdecides horder
        exact h401₁.mp hrejected claims hclaims hvalid hdecides
          ((hcond claims hclaims hvalid hdecides).mpr horder)
      refine ⟨hrejected.alike hrejected₂, fun hnext => ?_⟩
      cases ho : m.handler lib getKey now r₁ with
      | next ctx =>
        rw [ho] at hrejected
        exact hrejected.elim
      | rejected err www =>
        rw [ho] at hnext
        cases hnext
    · rw [h401₁] at hrejected
      push Not at hrejected
      obtain ⟨claims, hclaims, hvalid, hdecides, htenant₁, hlive₁⟩ := hrejected
      obtain ⟨htenant₂, hlive₂⟩ := (hcond claims hclaims hvalid hdecides).mp ⟨htenant₁, hlive₁⟩
      have hval₁ : m.validateToken lib getKey now token₁ = some claims :=
        (validateToken_signed hlib hconf hname hblank hsigned₁).mpr ⟨htenant₁, hclaims, hvalid⟩
      have hval₂ : m.validateToken lib getKey now token₂ = some claims :=
        (validateToken_signed hlib hconf hname hblank hsigned₂).mpr
          ⟨htenant₂, hnamed.symm.trans hclaims, hvalid⟩
      refine ⟨?_, fun _ => by rw [hval₁, hval₂]⟩
      rw [(handler_of_validateToken_eq_some hconf hbearer₁ hval₁).1 hlive₁,
        (handler_of_validateToken_eq_some hconf hbearer₂ hval₂).1 hlive₂]
      exact alike_lastChecks lib m token₁ token₂ claims

theorem not_tenantDecodes_numberTenant : ¬ TenantDecodes numberTenant.payload := by
  intro hdecodes
  obtain hnull | ⟨s, hstr⟩ := hdecodes (.num "7") List.mem_cons_self
  · cases hnull
  · cases hstr

theorem tenantDecodes_namedTenant : TenantDecodes namedTenant.payload := nofun

theorem live_tenantOpts (token : String) (claims : SocrateClaims) : Live tenantOpts token claims :=
  nofun

/-- A token without scopes. -/
theorem attachScopes_of_none {codec : ClaimCodec} {token : String}
    {members : List (String × Json)} (hpayload : payload codec token = .ok (.obj members))
    (hscope : Json.rawField "scope" members = none) (hscp : Json.rawField "scp" members = none)
    (claims : SocrateClaims) :
    Middleware.attachScopes codec token claims = { claims with scopes := [], scopesErr := none } := by
  have hscopes : scopeClaims codec token = .ok [] := by
    simp [scopeClaims, hpayload, hscope, hscp, scopeClaim]
  simp [Middleware.attachScopes, hscopes]

theorem namedClaims_numberTenant : namedClaims
    (sampleLib [namedTenant, numberTenant]).toClaimCodec nsTenantClaim
      numberTenant.token numberTenant.payload =
        some { expiresAt := some (2000003600 * Duration.second)
               tenantID := sampleTenant } := by
  unfold namedClaims
  simp only [attachScopes_of_none signed_numberTenant.payload_eq rfl rfl]
  rfl

theorem decides_uuid (known : List Sample) (m : Middleware)
    (htenant : claims.tenantID = sampleTenant) :
    m.Decides (sampleLib known) claims := by
  have hparse : (sampleLib known).parseUUID = parseCanonicalUUID := rfl
  refine .inr (.inr ?_)
  rw [htenant, hparse]
  decide +kernel

/-- A token whose plain tenant is a number is rejected, and the same token without it is
accepted. -/
theorem not_sameOutcome : (sampleLib [namedTenant, numberTenant]).Documented ∧
    Signed (sampleLib [namedTenant, numberTenant]) signedKeys numberTenant.token
      numberTenant.payload ∧
    Signed (sampleLib [namedTenant, numberTenant]) signedKeys namedTenant.token
      namedTenant.payload ∧
    EqualButTenant numberTenant.payload namedTenant.payload ∧
    ¬ SameOutcome (sampleLib [namedTenant, numberTenant]) (new "/jwks" "" tenantOpts) signedKeys
      sampleTime numberTenant.token namedTenant.token numberTenant.request namedTenant.request := by
  have hdoc := documented_sampleLib [namedTenant, numberTenant]
  have hnamed := signed_namedTenant [numberTenant]
  have hequal : EqualButTenant numberTenant.payload namedTenant.payload := rfl
  refine ⟨hdoc, signed_numberTenant, hnamed, hequal, fun hsame => ?_⟩
  have horder := hsame.order_iff hdoc (configured_new "/jwks" "" tenantOpts)
    tenantClaimInForce_tenantOpts (by decide) (by decide) (extractBearer_request numberTenant)
    (extractBearer_request namedTenant) signed_numberTenant hnamed hequal namedClaims_numberTenant
    (claimsValid_sample rfl rfl) (decides_uuid _ _ rfl)
  have haccepted := horder.mpr ⟨tenantDecodes_namedTenant, live_tenantOpts _ _⟩
  exact not_tenantDecodes_numberTenant haccepted.1

/-- A plain tenant that is a string does not matter. -/
theorem sameOutcome_plainTenant :
    SameOutcome (sampleLib [namedTenant, plainTenant]) (new "/jwks" "" tenantOpts) signedKeys
      sampleTime plainTenant.token namedTenant.token plainTenant.request namedTenant.request := by
  have hequal : EqualButTenant plainTenant.payload namedTenant.payload := rfl
  refine (sameOutcome_iff (documented_sampleLib _) "/jwks" "" tenantOpts nsTenantClaim
    rfl (by rw [trimSpace_claimName]; decide) (by rw [trimSpace_claimName]; decide) signedKeys
    sampleTime _ _ _ _ _ _ (extractBearer_request plainTenant) (extractBearer_request namedTenant)
    signed_plainTenant (signed_namedTenant _) hequal).mpr fun claims _ _ _ => ?_
  have hplain : TenantDecodes plainTenant.payload := by
    intro v hv
    exact .inr ⟨"00000000-0000-0000-0000-00000000000b", List.mem_singleton.mp hv⟩
  exact iff_of_true ⟨hplain, nofun⟩ ⟨nofun, nofun⟩

end JwtAuth
