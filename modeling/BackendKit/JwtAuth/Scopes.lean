import BackendKit.GoStd.JsonGrammar
import BackendKit.JwtAuth.Middleware

/-!
# The scope claims

`scope` is documented as a string of words, `scp` as an array of such strings or one string, and a
token whose claim has another type is rejected where scopes are required. `scopeClaims` is compared with
that reading (`Documented`) for every payload: the result is the words of the two claims, in the order of
the token and without repetitions.

There is one exception. `json.Unmarshal` decodes a `null` among the elements of an array into the empty
string, so `["api", null]` passes for an array of strings (`scopeClaims_documented_iff`).
-/

open GoStd

namespace JwtAuth

/-! ### Appending what is not there yet -/

/-- One word: nothing changes if it is there already. -/
theorem eraseDups_append_singleton (seen : List String) (word : String) :
    (seen ++ [word]).eraseDups =
      if word ∈ seen.eraseDups then seen.eraseDups else seen.eraseDups ++ [word] := by
  rw [List.eraseDups_append]
  by_cases h : word ∈ seen
  · rw [if_pos (List.mem_eraseDups.mpr h)]
    simp [List.removeAll, h]
  · rw [if_neg (mt List.mem_eraseDups.mp h)]
    simp [List.removeAll, h, List.eraseDups_cons]

/-- To append the new words one by one is to remove the repetitions at the end. -/
theorem foldl_append_new (words seen : List String) :
    words.foldl (fun out word => if word ∈ out then out else out ++ [word]) seen.eraseDups =
      (seen ++ words).eraseDups := by
  induction words generalizing seen with
  | nil => rw [List.foldl_nil, List.append_nil]
  | cons word words ih =>
    rw [List.foldl_cons, ← eraseDups_append_singleton, ih, List.append_assoc, List.singleton_append]

theorem addWords_eraseDups (seen : List String) (value : String) :
    addWords seen.eraseDups value = (seen ++ fields value).eraseDups :=
  foldl_append_new (fields value) seen

theorem foldl_addWords (values seen : List String) :
    values.foldl addWords seen.eraseDups = (seen ++ values.flatMap fields).eraseDups := by
  induction values generalizing seen with
  | nil => rw [List.foldl_nil, List.flatMap_nil, List.append_nil]
  | cons value values ih =>
    rw [List.foldl_cons, addWords_eraseDups, ih, List.flatMap_cons, List.append_assoc]

theorem nodup_eraseDups (words : List String) : words.eraseDups.Nodup := by
  induction words using List.reverseRecOn with
  | nil => exact List.nodup_nil
  | append_singleton words word ih =>
    rw [eraseDups_append_singleton]
    split
    next => exact ih
    next h => exact List.nodup_append.mpr ⟨ih, List.nodup_singleton word, by
      intro a ha b hb
      rw [List.mem_singleton.mp hb]
      rintro rfl
      exact h ha⟩

/-- A word is not empty. -/
theorem empty_notMem_fields (value : String) : "" ∉ fields value := by
  unfold fields
  simp

/-! ### One claim -/

/-- What the documentation takes for a claim: nothing, `null`, a string, and for `scp` an array of
strings. -/
def WellFormed (arrayToo : Bool) : Option Json → Prop
  | none | some .null | some (.str _) => True
  | some (.arr vs) => arrayToo = true ∧ ∀ v ∈ vs, ∃ s, v = .str s
  | some _ => False

/-- What the code takes: a `null` is decoded into the empty string. -/
def Accepted (arrayToo : Bool) : Option Json → Prop
  | none | some .null | some (.str _) => True
  | some (.arr vs) => arrayToo = true ∧ ∀ v ∈ vs, v = .null ∨ ∃ s, v = .str s
  | some _ => False

/-- An array of strings and `null`s, with at least one `null`. -/
def HasNull : Option Json → Prop
  | some (.arr vs) => .null ∈ vs ∧ ∀ v ∈ vs, v = .null ∨ ∃ s, v = .str s
  | _ => False

/-- The words of a string. -/
def elementWords : Json → List String
  | .str s => fields s
  | _ => []

/-- The words of a claim, in order. -/
def claimWords : Option Json → List String
  | some (.str s) => fields s
  | some (.arr vs) => vs.flatMap elementWords
  | _ => []

theorem accepted_false (v : Option Json) : Accepted false v ↔ WellFormed false v := by
  match v with
  | some (.arr vs) => exact iff_of_false (fun h => nomatch h.1) (fun h => nomatch h.1)
  | none | some .null | some (.str _) | some (.bool _) | some (.num _) | some (.obj _) => rfl

theorem accepted_true (v : Option Json) : Accepted true v ↔ WellFormed true v ∨ HasNull v := by
  match v with
  | some (.arr vs) =>
    simp only [Accepted, WellFormed, HasNull, true_and]
    constructor
    · intro h
      by_cases hnull : .null ∈ vs
      · exact .inr ⟨hnull, h⟩
      · exact .inl fun v hv => (h v hv).resolve_left (fun heq => hnull (heq ▸ hv))
    · rintro (h | h)
      · exact fun v hv => .inr (h v hv)
      · exact h.2
  | none | some .null | some (.str _) | some (.bool _) | some (.num _) | some (.obj _) =>
    simp [Accepted, WellFormed, HasNull]

theorem not_wellFormed_of_hasNull {v : Option Json} (h : HasNull v) : ¬ WellFormed true v := by
  match v, h with
  | some (.arr vs), ⟨hnull, _⟩ =>
    intro hv
    obtain ⟨s, hs⟩ := hv.2 .null hnull
    cases hs

theorem empty_notMem_claimWords (v : Option Json) : "" ∉ claimWords v := by
  match v with
  | some (.str s) => exact empty_notMem_fields s
  | some (.arr vs) =>
    intro h
    obtain ⟨v, -, hv⟩ := List.mem_flatMap.mp h
    cases v with
    | str s => exact empty_notMem_fields s hv
    | _ => exact List.not_mem_nil hv
  | none | some .null | some (.bool _) | some (.num _) | some (.obj _) => exact List.not_mem_nil

/-- Decoding an array into strings: the elements are strings or `null`, and give their words. -/
theorem mapM_intoString {vs : List Json} {values : List String}
    (h : vs.mapM (Json.intoString "") = some values) :
    (∀ v ∈ vs, v = .null ∨ ∃ s, v = .str s) ∧ values.flatMap fields = vs.flatMap elementWords := by
  induction vs generalizing values with
  | nil =>
    obtain rfl : [] = values := by simpa using h
    simp
  | cons v vs ih =>
    rw [List.mapM_cons] at h
    simp only [Option.bind_eq_bind, Option.bind_eq_some_iff, Option.pure_def, Option.some.injEq] at h
    obtain ⟨value, hvalue, values', hvalues', rfl⟩ := h
    obtain ⟨hall, hwords⟩ := ih hvalues'
    have hhead : (v = .null ∨ ∃ s, v = .str s) ∧ fields value = elementWords v := by
      cases v with
      | null =>
        obtain rfl : "" = value := Option.some.inj hvalue
        exact ⟨.inl rfl, by decide⟩
      | str s =>
        obtain rfl : s = value := Option.some.inj hvalue
        exact ⟨.inr ⟨s, rfl⟩, rfl⟩
      | _ => cases hvalue
    refine ⟨List.forall_mem_cons.mpr ⟨hhead.1, hall⟩, ?_⟩
    rw [List.flatMap_cons, List.flatMap_cons, hhead.2, hwords]

theorem exists_mapM_intoString {vs : List Json} (h : ∀ v ∈ vs, v = .null ∨ ∃ s, v = .str s) :
    ∃ values, vs.mapM (Json.intoString "") = some values := by
  induction vs with
  | nil => exact ⟨[], rfl⟩
  | cons v vs ih =>
    obtain ⟨hv, hvs⟩ := List.forall_mem_cons.mp h
    obtain ⟨values, hvalues⟩ := ih hvs
    rcases hv with rfl | ⟨s, rfl⟩
    · exact ⟨"" :: values, by simp [List.mapM_cons, hvalues, Json.intoString]⟩
    · exact ⟨s :: values, by simp [List.mapM_cons, hvalues, Json.intoString]⟩

/-- A claim that is taken adds its words. -/
theorem scopeClaim_of_accepted {name : String} {arrayToo : Bool} {v : Option Json}
    (h : Accepted arrayToo v) (seen : List String) :
    scopeClaim name arrayToo seen.eraseDups v = .ok (seen ++ claimWords v).eraseDups := by
  match v, h with
  | none, _ | some .null, _ => simp only [scopeClaim, claimWords, List.append_nil]
  | some (.str s), _ => exact congrArg Except.ok (addWords_eraseDups seen s)
  | some (.arr vs), ⟨harray, hvs⟩ =>
    obtain ⟨values, hvalues⟩ := exists_mapM_intoString hvs
    simp only [scopeClaim, harray, hvalues, claimWords, ← (mapM_intoString hvalues).2]
    exact congrArg Except.ok (foldl_addWords values seen)

/-- Any other claim is an error that names it. -/
theorem scopeClaim_of_not_accepted {name : String} {arrayToo : Bool} {v : Option Json}
    (h : ¬ Accepted arrayToo v) (seen : List String) :
    scopeClaim name arrayToo seen v = .error (.unexpectedType name) := by
  match v with
  | none | some .null | some (.str _) => exact absurd trivial h
  | some (.bool _) | some (.num _) | some (.obj _) => rfl
  | some (.arr vs) =>
    cases arrayToo with
    | false => rfl
    | true =>
      have hnone : vs.mapM (Json.intoString "") = none := by
        refine Option.eq_none_iff_forall_ne_some.mpr fun values hvalues => h ⟨rfl, ?_⟩
        exact (mapM_intoString hvalues).1
      simp only [scopeClaim, hnone]

/-! ### Both claims -/

theorem scopeClaims_of_accepted {codec : ClaimCodec} {token : String} {members : List (String × Json)}
    (hpayload : payload codec token = .ok (.obj members))
    (hscope : Accepted false (Json.rawField "scope" members))
    (hscp : Accepted true (Json.rawField "scp" members)) :
    scopeClaims codec token = .ok (claimWords (Json.rawField "scope" members) ++
      claimWords (Json.rawField "scp" members)).eraseDups := by
  have hfirst : scopeClaim "scope" false [] (Json.rawField "scope" members) =
      .ok (claimWords (Json.rawField "scope" members)).eraseDups := scopeClaim_of_accepted hscope []
  simp only [scopeClaims, hpayload, hfirst]
  exact scopeClaim_of_accepted hscp _

theorem scopeClaims_eq_error_iff {codec : ClaimCodec} {token : String}
    {members : List (String × Json)} (hpayload : payload codec token = .ok (.obj members)) :
    (∃ err, scopeClaims codec token = .error err) ↔
      ¬ (Accepted false (Json.rawField "scope" members) ∧
        Accepted true (Json.rawField "scp" members)) := by
  by_cases hscope : Accepted false (Json.rawField "scope" members)
  · by_cases hscp : Accepted true (Json.rawField "scp" members)
    · refine iff_of_false ?_ (not_not.mpr ⟨hscope, hscp⟩)
      rintro ⟨err, herr⟩
      rw [scopeClaims_of_accepted hpayload hscope hscp] at herr
      cases herr
    · refine iff_of_true ⟨.unexpectedType "scp", ?_⟩ (fun h => hscp h.2)
      have hfirst : scopeClaim "scope" false [] (Json.rawField "scope" members) =
          .ok (claimWords (Json.rawField "scope" members)).eraseDups :=
        scopeClaim_of_accepted hscope []
      simp only [scopeClaims, hpayload, hfirst, scopeClaim_of_not_accepted hscp]
  · refine iff_of_true ⟨.unexpectedType "scope", ?_⟩ (fun h => hscope h.1)
    simp only [scopeClaims, hpayload, scopeClaim_of_not_accepted hscope]

/-! ### The required scopes -/

/-- What is required is what the last `RequireScopes` was given, and nothing without one. -/
theorem mem_requiredScopes (jwksURL issuer : String) (opts : List Opt) (scope : String) :
    scope ∈ (new jwksURL issuer opts).requiredScopes ↔
      ∃ required, scopesInForce opts = some required ∧ scope ∈ required := by
  unfold new
  induction opts using List.reverseRecOn with
  | nil => simp [base, scopesInForce, lastOf]
  | append_singleton opts o ih =>
    rw [List.foldl_append, scopesInForce, lastOf_append]
    cases o with
    | requireScopes scopes =>
      simp [Opt.apply, Opt.scopes?, mem_foldl_addValue]
    | _ => exact ih

/-- The check, of the scopes that were attached to the claims. -/
theorem missingScopes_attachScopes (jwksURL issuer : String) (opts : List Opt) (codec : ClaimCodec)
    (token : String) (parsed : SocrateClaims) :
    (new jwksURL issuer opts).missingScopes (Middleware.attachScopes codec token parsed) = none ↔
      ∃ required, scopesInForce opts = some required ∧ required ≠ [] ∧
        ∃ held, scopeClaims codec token = .ok held ∧ ∀ s ∈ required, s ∈ held := by
  have hattached : ((Middleware.attachScopes codec token parsed).scopesErr = none ∧
        ∀ s ∈ (new jwksURL issuer opts).requiredScopes,
          s ∈ (Middleware.attachScopes codec token parsed).scopes) ↔
      ∃ held, scopeClaims codec token = .ok held ∧
        ∀ s ∈ (new jwksURL issuer opts).requiredScopes, s ∈ held := by
    unfold Middleware.attachScopes
    cases hclaims : scopeClaims codec token <;> simp
  rw [missingScopes_eq_none, hattached]
  cases hforce : scopesInForce opts with
  | none => simp [List.eq_nil_iff_forall_not_mem, mem_requiredScopes, hforce]
  | some required => simp [List.eq_nil_iff_forall_not_mem, mem_requiredScopes, hforce]

/-- The two claims of a token are read as documented. -/
structure Documented (codec : ClaimCodec) (token : String) (scope scp : Option Json) : Prop where
  /-- An error means that a claim is malformed. -/
  error_iff : (∃ err, scopeClaims codec token = .error err) ↔
    ¬ (WellFormed false scope ∧ WellFormed true scp)
  /-- The words of `scope` and then of `scp`, each where it occurs first. -/
  words : WellFormed false scope → WellFormed true scp → ∃ out,
    scopeClaims codec token = .ok out ∧ out = (claimWords scope ++ claimWords scp).eraseDups ∧
      out.Nodup ∧ "" ∉ out
  /-- The check passes if and only if something is required and all of it is there. -/
  missing : ∀ (jwksURL issuer : String) (opts : List Opt) (parsed : SocrateClaims),
    (new jwksURL issuer opts).missingScopes (Middleware.attachScopes codec token parsed) = none ↔
      ∃ required, scopesInForce opts = some required ∧ required ≠ [] ∧
        (WellFormed false scope ∧ WellFormed true scp) ∧
        ∀ s ∈ required, s ∈ claimWords scope ++ claimWords scp

/-- The claims are read as documented, unless `scp` is an array with a `null` in it that is decoded as
if it were a string. -/
theorem scopeClaims_documented_iff (codec : ClaimCodec) (token : String)
    (members : List (String × Json)) (hpayload : payload codec token = .ok (.obj members)) :
    Documented codec token (Json.rawField "scope" members) (Json.rawField "scp" members) ↔
      ¬ (WellFormed false (Json.rawField "scope" members) ∧
        HasNull (Json.rawField "scp" members)) := by
  have herror := scopeClaims_eq_error_iff hpayload
  have hok := fun hscope hscp => scopeClaims_of_accepted hpayload hscope hscp
  simp only [accepted_false, accepted_true] at herror hok
  generalize Json.rawField "scope" members = scope at herror hok ⊢
  generalize Json.rawField "scp" members = scp at herror hok ⊢
  constructor
  · rintro hdoc ⟨hscope, hnull⟩
    have herr := hdoc.error_iff.mpr fun h => not_wellFormed_of_hasNull hnull h.2
    exact herror.mp herr ⟨hscope, .inr hnull⟩
  · intro hnot
    have hsame : (WellFormed false scope ∧ (WellFormed true scp ∨ HasNull scp)) ↔
        WellFormed false scope ∧ WellFormed true scp := by
      tauto
    rw [hsame] at herror
    have hheld : ∀ held, scopeClaims codec token = .ok held ↔
        (WellFormed false scope ∧ WellFormed true scp) ∧
          held = (claimWords scope ++ claimWords scp).eraseDups := by
      intro held
      by_cases hformed : WellFormed false scope ∧ WellFormed true scp
      · simp [hok hformed.1 (.inl hformed.2), hformed, eq_comm]
      · obtain ⟨err, herr⟩ := herror.mpr hformed
        simp [herr, hformed]
    refine ⟨herror, fun hscope hscp => ⟨_, hok hscope (.inl hscp), rfl, nodup_eraseDups _, ?_⟩, ?_⟩
    · rw [List.mem_eraseDups, List.mem_append]
      exact not_or.mpr ⟨empty_notMem_claimWords scope, empty_notMem_claimWords scp⟩
    · intro jwksURL issuer opts parsed
      rw [missingScopes_attachScopes]
      refine exists_congr fun required => and_congr_right fun _ => and_congr_right fun _ => ?_
      simp only [hheld, List.mem_eraseDups, and_assoc, exists_and_left, exists_eq_left]

/-! ### Two payloads -/

/-- `encoding/json` on ASCII texts. -/
def asciiCodec : ClaimCodec where
  json bytes := JsonText.parse (String.ofList (bytes.map fun b => Char.ofNat b.toNat))
  numericDate := signedFormat.numericDate
  claimStrings := signedFormat.claimStrings

theorem asciiCodec_json (bytes : List UInt8) : asciiCodec.json bytes =
    JsonText.parse (String.ofList (bytes.map fun b => Char.ofNat b.toNat)) := rfl

/-- A token with this payload; the signature does not matter here. -/
def tokenOf (v : Json) : String := compact (ascii headerText) (ascii (JsonText.render v)) []

theorem payload_tokenOf {v : Json} (hproper : JsonText.Proper v)
    (hascii : String.ofList ((ascii (JsonText.render v)).map fun b => Char.ofNat b.toNat) =
      JsonText.render v) :
    payload asciiCodec (tokenOf v) = .ok v := by
  have hjson : asciiCodec.json (ascii (JsonText.render v)) = some v := by
    rw [asciiCodec_json, hascii]
    exact JsonText.parse_render hproper
  simp [payload, tokenOf, splitOn_compact, Base64.decodeChars_encodeChars, hjson]

/-- The words of both claims, with one that is in both. -/
def unionMembers : List (String × Json) :=
  [("scope", .str "a b"), ("scp", .arr [.str "b", .str "c", .str ""])]

/-- A `null` in the array. -/
def nullMembers : List (String × Json) := [("scp", .arr [.str "api", .null])]

theorem scopeClaims_documented_union :
    Documented asciiCodec (tokenOf (.obj unionMembers)) (Json.rawField "scope" unionMembers)
      (Json.rawField "scp" unionMembers) := by
  have hpayload : payload asciiCodec (tokenOf (.obj unionMembers)) = .ok (.obj unionMembers) :=
    payload_tokenOf ⟨trivial, ⟨trivial, trivial, trivial, trivial⟩, trivial⟩ (by decide +kernel)
  refine (scopeClaims_documented_iff asciiCodec _ unionMembers hpayload).mpr ?_
  rintro ⟨-, hnull, -⟩
  simp at hnull

/-- An array with a `null` is not an array of strings, and its words are taken all the same. -/
theorem scopeClaims_null_element :
    payload asciiCodec (tokenOf (.obj nullMembers)) = .ok (.obj nullMembers) ∧
      ¬ WellFormed true (Json.rawField "scp" nullMembers) ∧
      scopeClaims asciiCodec (tokenOf (.obj nullMembers)) = .ok ["api"] ∧
      (new "" "" [.requireScopes ["api"]]).missingScopes
        (Middleware.attachScopes asciiCodec (tokenOf (.obj nullMembers)) {}) = none := by
  have hpayload : payload asciiCodec (tokenOf (.obj nullMembers)) = .ok (.obj nullMembers) :=
    payload_tokenOf ⟨⟨trivial, trivial, trivial⟩, trivial⟩ (by decide +kernel)
  have hscopes : scopeClaims asciiCodec (tokenOf (.obj nullMembers)) = .ok ["api"] := by
    rw [scopeClaims, hpayload]
    rfl
  refine ⟨hpayload, ?_, hscopes, ?_⟩
  · refine not_wellFormed_of_hasNull ⟨?_, ?_⟩
    · simp
    · simp
  · refine (missingScopes_attachScopes ..).mpr ⟨["api"], by decide +kernel, by decide, ["api"], hscopes, ?_⟩
    exact fun _ h => h

end JwtAuth
