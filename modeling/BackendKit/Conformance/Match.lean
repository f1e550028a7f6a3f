import BackendKit.Conformance.Template
import BackendKit.GoStd.Reflect

/-!
# Comparing a document with a fixture

`Match`: the document is written and decoded again, with its numbers as they are written, and the matcher
goes through fixture and document together (`conformance/match.go`). It collects all differences; a
`Failure` has the path and what was wanted and found there.

A placeholder whose `Params` field is set must have that value; otherwise the rule of its kind applies.
-/

open GoStd

namespace Conformance

/-- What a message says, without its wording. `got` is the value that it describes. -/
inductive Complaint where
  | wantObject (got : Any)
  | wantArray (got : Any)
  | wantString (want : String) (got : Any)
  | wantEqual (want got : String)
  | wantValue (want got : Any)
  | missing
  | notInFixture (value : Any)
  | expNotAfterIat (exp iat : Float64)
  | noKey
  | audienceNotLast
  | wantFixedEntries (fixed : ℕ) (got : List Any)
  | wantAudiences (want : List String) (got : List Any)
  | wantAudience (want : String) (got : Any)
  | wantAudienceString (got : Any)
  | wantEntries (want got : ℕ) (document : List Any)
  /-- "want DESCRIPTION, got …". -/
  | want (description : String) (got : Any)
  /-- "want DESCRIPTION, got an empty string". -/
  | wantNotEmpty (description : String)
  | wantThumbprint (got : Any)
  /-- A token is not echoed. -/
  | wantJWS
  | otherToken
  | wantAttribute (name : String)
  | wantInteger (min : ℕ) (got : Any)
  | wantVersion (want : Int64) (got : Any)
  | wantRoles (got : Any)
  | noClientEntry (clientID : String)
  | unknownPlaceholder (name : String)

/-- An entry of `matcher.errs`. -/
structure Failure where
  path : String
  complaint : Complaint

/-- `fail`. -/
def fail (path : String) (complaint : Complaint) : List Failure :=
  [⟨if path = "" then "(document)" else path, complaint⟩]

/-- `join`. -/
def join (path key : String) : String := if path = "" then key else path ++ "." ++ key

/-- The path of an entry of an array. -/
def entryPath (path : String) (i : ℕ) : String := path ++ "[" ++ toString i ++ "]"

/-- `number`. -/
def number : Any → Option Float64
  | .number literal => Float64.parse literal
  | .float64 f => some f
  | _ => none

/-- `math.Trunc`. -/
def trunc (q : ℚ) : ℤ := if 0 ≤ q then ⌊q⌋ else ⌈q⌉

/-- `norm`, inside `sameJSON`. -/
def norm (v : Any) : Any :=
  match v.marshal with
  | none => v
  | some text => Any.unmarshal text

/-- `sameJSON`. -/
def sameJSON (a b : Any) : Bool := (norm a).deepEqual (norm b)

/-! ### Rules -/

/-- `str`, inside `rule`: with `exact` empty the pattern decides, or that there is a value at all. -/
def str (path : String) (re : Option (String → Bool)) (desc exact : String) (got : Any) : List Failure :=
  match got with
  | .string s =>
    if exact ≠ "" then
      if s ≠ exact then fail path (.wantEqual exact s) else []
    else
      match re with
      | some pattern => if pattern s then [] else fail path (.want desc got)
      | none => if s = "" then fail path (.wantNotEmpty desc) else []
  | _ => fail path (.want desc got)

/-- `integer`, inside `rule`. -/
def integer (path : String) (min : ℕ) (got : Any) : List Failure :=
  match number got with
  | some n =>
    if n.value ≠ trunc n.value ∨ n.value < min then fail path (.wantInteger min got) else []
  | none => fail path (.wantInteger min got)

/-- The rule of the three tokens. -/
def tokenRule (path exact : String) (got : Any) : List Failure :=
  match got with
  | .string s =>
    if reJWS s = false then fail path .wantJWS
    else if exact ≠ "" ∧ s ≠ exact then fail path .otherToken
    else []
  | _ => fail path .wantJWS

/-- The rule of a key thumbprint. The pattern has single bytes only, so that characters are counted as
well as bytes. -/
def thumbprintRule (path exact : String) (got : Any) : List Failure :=
  if exact ≠ "" then str path none "the JWK thumbprint" exact got
  else
    match got with
    | .string s =>
      if s.toList.length ≠ 43 ∨ reB64URL s = false then fail path (.wantThumbprint got) else []
    | _ => fail path (.wantThumbprint got)

/-- The rule of `<attribute:K>`. -/
def attributeRule (path : String) (attributes : Option (List (String × Any))) (arg : String) (got : Any) :
    List Failure :=
  match got with
  | .nil => fail path (.wantAttribute arg)
  | _ =>
    match attributes.bind fun attrs => Any.lookup attrs arg with
    | some v => if sameJSON v got then [] else fail path (.wantValue v got)
    | none => []

/-- Every role is a string that is not empty. -/
def rolesFailures (path : String) (obj : List (String × Any)) : List Failure :=
  (Any.sortMembers obj).flatMap fun e =>
    match e.2 with
    | .string s => if s = "" then fail (join path e.1) (.want "a role" e.2) else []
    | _ => fail (join path e.1) (.want "a role" e.2)

/-- The entry of the client, if the client is set. -/
def clientRoleFailures (path : String) (p : Params) (obj : List (String × Any)) : List Failure :=
  if p.clientID ≠ "" then
    match Any.lookup obj p.clientID with
    | none => fail path (.noClientEntry p.clientID)
    | some (.string role) =>
      if p.role ≠ "" ∧ role ≠ p.role then
        fail (join path p.clientID) (.wantString p.role (.string role))
      else []
    | some role => if p.role ≠ "" then fail (join path p.clientID) (.wantString p.role role) else []
  else []

/-- The rule of `<app_roles>`. -/
def appRolesRule (path : String) (p : Params) (got : Any) : List Failure :=
  match got with
  | .map obj =>
    if obj.length = 0 then fail path (.wantRoles got)
    else rolesFailures path obj ++ clientRoleFailures path p obj
  | _ => fail path (.wantRoles got)

/-- The rule of `<token_version>`. -/
def versionRule (path : String) (version : Int64) (got : Any) : List Failure :=
  if 0 < version then
    match number got with
    | some n => if n.value ≠ Float64.round version.toInt then fail path (.wantVersion version got) else []
    | none => fail path (.wantVersion version got)
  else integer path 1 got

/-- `rule`, for a kind that has a name. -/
def ruleOf (p : Params) (path : String) (kind : Kind) (arg : String) (got : Any) : List Failure :=
  match kind with
  | .issuer => str path none "the issuer" p.issuer got
  | .clientID => str path none "a client_id" p.clientID got
  | .sub => str path (some reDecimal) "a numeric user id as a decimal string" p.subject got
  | .appSub =>
    let exact := if p.appID ≠ 0 then "app:" ++ toString p.appID.toNat else ""
    str path (some reAppSub) "\"app:<numeric id>\"" exact got
  | .role => str path none "a role" p.role got
  | .email => str path (some reEmail) "an email address" p.email got
  | .name => str path none "a name" p.name got
  | .nonce => str path none "the nonce" p.nonce got
  | .tenantID => str path (some reUUID) "a UUID" p.tenantID got
  | .jti => str path (some reUUID) "a UUID" "" got
  | .kid => str path (some reUUID) "a UUID" "" got
  | .atHash => str path (some reB64URL) "a base64url string" "" got
  | .n => str path (some reB64URL) "a base64url string" "" got
  | .jkt => thumbprintRule path p.jkt got
  | .accessToken => tokenRule path p.accessToken got
  | .refreshToken => tokenRule path p.refreshToken got
  | .idToken => tokenRule path p.idToken got
  | .scope => str path none "a scope" (orDefault p.scope arg) got
  | .userAttribute => attributeRule path p.attributes arg got
  | .iat => integer path 1 got
  | .nbf => integer path 1 got
  | .authTime => integer path 1 got
  | .exp => integer path 1 got
  | .refreshExp => integer path 1 got
  | .expiresIn => integer path 1 got
  | .tokenVersion => versionRule path p.tokenVersion got
  | .appRoles => appRolesRule path p got

/-- `rule`. -/
def rule (p : Params) (path name arg : String) (got : Any) : List Failure :=
  match Kind.ofName name with
  | none => fail path (.unknownPlaceholder name)
  | some kind => ruleOf p path kind arg got

/-! ### The matcher -/

/-- `matcher`, without the errors. -/
structure Matcher where
  p : Params
  jwks : Bool

/-- A string of the fixture that is not a placeholder. Where the issuer is not set, something must stand
in its place. -/
def matchLiteral (issuer : String) (path w : String) (got : Any) : List Failure :=
  match got with
  | .string g =>
    match cutAround issuerToken.toList w.toList with
    | some (before, after) =>
      if issuer ≠ "" then
        let want := replaceAll w issuerToken issuer
        if g ≠ want then fail path (.wantEqual want g) else []
      -- A prefix and a suffix leave something between them, whether bytes or characters are counted.
      else if before.isPrefixOf g.toList ∧ after.isSuffixOf g.toList ∧
          before.length + after.length < g.toList.length then []
      else if g ≠ w then fail path (.wantEqual w g) else []
    | none => if g ≠ w then fail path (.wantEqual w g) else []
  | _ => fail path (.wantString w got)

/-- The leaves of a fixture. -/
def matchLeaf (m : Matcher) (path : String) (want got : Any) : List Failure :=
  match want with
  | .string w =>
    match placeholder w with
    | some (name, arg) => rule m.p path name arg got
    | none => matchLiteral m.p.issuer path w got
  | .bool w =>
    match got with
    | .bool g => if g ≠ w then fail path (.wantValue want got) else []
    | _ => fail path (.wantValue want got)
  | .float64 w =>
    match number got with
    | some g => if g.value ≠ w.value then fail path (.wantValue want got) else []
    | none => fail path (.wantValue want got)
  | .nil =>
    match got with
    | .nil => []
    | _ => fail path (.wantValue want got)
  | _ => []

/-- Of several entries with one key the last one counts. (Where `<ns>` makes one key out of two, the code
keeps either, as it ranges over a map. The keys of the fixtures stay distinct.) -/
def lastEntries {α : Type} : List (String × α) → List (String × α)
  | [] => []
  | e :: entries => if e.1 ∈ entries.map Prod.fst then lastEntries entries else e :: lastEntries entries

/-- The members of a document that the fixture does not have. -/
def extraFailures (path : String) (expected : List String) (g : List (String × Any)) : List Failure :=
  (Any.sortMembers g).flatMap fun e =>
    if e.1 ∈ expected then [] else fail (join path e.1) (.notInFixture e.2)

/-- A token expires after it is issued. -/
def timeFailures (path : String) (g : List (String × Any)) : List Failure :=
  match (Any.lookup g "iat").bind number, (Any.lookup g "exp").bind number with
  | some iat, some exp => if exp.value ≤ iat.value then fail (join path "exp") (.expNotAfterIat exp iat) else []
  | _, _ => []

/-- `matchObject`: the failures of the expected members have been found, under their keys. -/
def matchObject (path : String) (members : List (String × List Failure)) (g : List (String × Any)) :
    List Failure :=
  let expected := lastEntries members
  (Any.sortMembers expected).flatMap (·.2) ++ extraFailures path (expected.map Prod.fst) g ++
    timeFailures path g

/-- The entries of a document that stand for the registered audiences, from index `i` on. -/
def matchAudiences (audiences : List String) (path : String) (i : ℕ) (rest : List Any) : List Failure :=
  if 0 < audiences.length then
    if rest.length ≠ audiences.length then fail path (.wantAudiences audiences rest)
    else
      (audiences.zip rest).zipIdx.flatMap fun ((a, el), j) =>
        match el with
        | .string s => if s ≠ a then fail (entryPath path (i + j)) (.wantAudience a el) else []
        | _ => if "" ≠ a then fail (entryPath path (i + j)) (.wantAudience a el) else []
  else
    rest.zipIdx.flatMap fun (el, j) =>
      match el with
      | .string s => if s = "" then fail (entryPath path (i + j)) (.wantAudienceString el) else []
      | _ => fail (entryPath path (i + j)) (.wantAudienceString el)

/-- `matchArray`. `key` compares an entry with the only key of the fixture, `entries` compares the entries
of the fixture with those of a document, as far as there are both. -/
def matchArray (m : Matcher) (path : String) (w g : List Any) (key : String → Any → List Failure)
    (entries : List Any → List Failure) : List Failure :=
  if m.jwks ∧ path = "keys" ∧ w.length = 1 then
    (if g.length = 0 then fail path .noKey else []) ++
      g.zipIdx.flatMap fun (el, i) => key (entryPath path i) el
  else
    match w.findIdx? isAudience with
    | some i =>
      if i ≠ w.length - 1 then fail path .audienceNotLast
      else if g.length < i + 1 then fail path (.wantFixedEntries i g)
      else entries (g.take i) ++ matchAudiences m.p.audiences path i (g.drop i)
    | none => if g.length ≠ w.length then fail path (.wantEntries w.length g.length g) else entries g

mutual

/-- `match`. -/
def matchValue (m : Matcher) (path : String) : Any → Any → List Failure
  | .map w, got =>
    match got with
    | .map g => matchObject path (matchMembers m path g w) g
    | _ => fail path (.wantObject got)
  | .slice w, got =>
    match got with
    | .slice g => matchArray m path w g (fun path el => matchFirst m path el w)
        fun g => matchEntries m path 0 g w
    | _ => fail path (.wantArray got)
  | want, got => matchLeaf m path want got
termination_by structural want => want

/-- The failures of each expected member. -/
def matchMembers (m : Matcher) (path : String) (g : List (String × Any)) :
    List (String × Any) → List (String × List Failure)
  | [] => []
  | (k, v) :: w =>
    let key := replaceAll k nsToken m.p.ns
    (key, match Any.lookup g key with
      | none => fail (join path key) .missing
      | some gv => matchValue m (join path key) v gv) :: matchMembers m path g w
termination_by structural w => w

/-- Compare entries one by one, from index `i` on. -/
def matchEntries (m : Matcher) (path : String) (i : ℕ) : List Any → List Any → List Failure
  | el :: g, want :: w => matchValue m (entryPath path i) want el ++ matchEntries m path (i + 1) g w
  | _, _ => []
termination_by structural _ w => w

/-- Compare with the first entry of the fixture. -/
def matchFirst (m : Matcher) (path : String) (el : Any) : List Any → List Failure
  | want :: _ => matchValue m path want el
  | [] => []
termination_by structural w => w

end

inductive MatchError where
  | parse (err : ParseError)
  | marshal
  | decode
  | differences (failures : List Failure)

/-- `Match`. -/
def matchFixture (files : Fixtures) (name : String) (got : Any) (p : Params) : Except MatchError Unit := do
  let want ← (parse files name).mapError .parse
  match got.marshal with
  | none => .error .marshal
  | some text =>
    match (JsonText.parse text).bind (Any.ofJson true) with
    | none => .error .decode
    | some doc =>
      let failures := matchValue ⟨p, name = "jwks"⟩ "" (.map want) doc
      if failures.length > 0 then .error (.differences failures) else .ok ()

end Conformance
