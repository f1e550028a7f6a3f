import BackendKit.Bff.Lifetime
import BackendKit.Bff.RefreshDurable
import BackendKit.GoStd.JsonGrammar
import Mathlib.Data.List.Induction

/-!
# Sealed rows

What `PostgresStore` keeps in its `data` column (`seal`, `open`, `Put` and `Get` of
`bff/postgres_store.go`): the snapshot of the session as a JSON text, sealed under a fresh nonce with the
session id as additional data, and with the nonce in front.

The AEAD and the text of an instant are parameters, with what is documented of them as hypotheses:
the AEAD opens what it sealed under the same additional data and nothing else (`Aead.Exact`), and an
instant in the years 0 to 9999 is read back from its text (`TimeText.RoundTrips`). The JSON text is not
assumed to be lossless, that is `ofJson_toJson` and the round trip of the JSON grammar.

* `get_put`: a session that was put is read back with all of its fields;
* `Bound`: whatever the store does, each row is sealed under its own id, so the data of one row is
  unreadable in another.
-/

open GoStd
open Duration (hour second)

namespace Bff

/-! ### The snapshot as JSON -/

/-- How `time.Time` is written and read; an instant that cannot be written is an error. -/
structure TimeText where
  format : ℤ → Option String
  parse : String → Option ℤ

/-- The instant is read back from its text. -/
def TimeText.RoundTrips (times : TimeText) (t : ℤ) : Prop :=
  ∃ text, times.format t = some text ∧ times.parse text = some t

/-- A string field with `omitempty`. -/
def omitEmpty (name value : String) : List (String × Json) :=
  if value = "" then [] else [(name, .str value)]

/-- The members of a `UserInfo`. The nil slice of roles counts as the empty one. -/
def UserInfo.members (u : UserInfo) : List (String × Json) :=
  ("sub", .str u.sub) :: (omitEmpty "email" u.email ++ (omitEmpty "name" u.name ++
    [("roles", .arr (u.roles.map .str))]))

/-- `json.Unmarshal` into a `UserInfo`, over the old value. -/
def UserInfo.into (old : UserInfo) : Json → Option UserInfo
  | .null => some old
  | .obj members => do
    let sub ← Json.decodeField Json.intoString old.sub "sub" members
    let email ← Json.decodeField Json.intoString old.email "email" members
    let name ← Json.decodeField Json.intoString old.name "name" members
    let roles ← Json.decodeField Json.intoStrings (some old.roles) "roles" members
    return { sub, email, name, roles := roles.getD [] }
  | _ => none

/-- Decode into a `time.Time`. -/
def TimeText.into (times : TimeText) (old : ℤ) : Json → Option ℤ
  | .null => some old
  | .str text => times.parse text
  | _ => none

/-- The members of a `SessionSnapshot`. -/
def SessionSnapshot.members (snap : SessionSnapshot) (accessExpiry created lastSeen : String) :
    List (String × Json) :=
  [("id", .str snap.id), ("access_token", .str snap.accessToken),
    ("refresh_token", .str snap.refreshToken), ("id_token", .str snap.idToken),
    ("access_expiry", .str accessExpiry), ("csrf", .str snap.csrf), ("created", .str created),
    ("last_seen", .str lastSeen), ("user", .obj snap.user.members)]

/-- The tree that `json.Marshal` writes. -/
def SessionSnapshot.toJson (times : TimeText) (snap : SessionSnapshot) : Option Json := do
  let accessExpiry ← times.format snap.accessExpiry
  let created ← times.format snap.created
  let lastSeen ← times.format snap.lastSeen
  return .obj (snap.members accessExpiry created lastSeen)

/-- `json.Unmarshal` into a `SessionSnapshot`. -/
def SessionSnapshot.ofJson (times : TimeText) : Json → Option SessionSnapshot
  | .null => some ⟨"", "", "", "", Time.zero, "", Time.zero, Time.zero, {}⟩
  | .obj members => do
    let id ← Json.decodeField Json.intoString "" "id" members
    let accessToken ← Json.decodeField Json.intoString "" "access_token" members
    let refreshToken ← Json.decodeField Json.intoString "" "refresh_token" members
    let idToken ← Json.decodeField Json.intoString "" "id_token" members
    let accessExpiry ← Json.decodeField times.into Time.zero "access_expiry" members
    let csrf ← Json.decodeField Json.intoString "" "csrf" members
    let created ← Json.decodeField times.into Time.zero "created" members
    let lastSeen ← Json.decodeField times.into Time.zero "last_seen" members
    let user ← Json.decodeField UserInfo.into {} "user" members
    return { id, accessToken, refreshToken, idToken, accessExpiry, csrf, created, lastSeen, user }
  | _ => none

/-- The names of the fields of the two structs. -/
def fieldNames : List String :=
  ["id", "access_token", "refresh_token", "id_token", "access_expiry", "csrf", "created", "last_seen",
    "user", "sub", "email", "name", "roles"]

/-- Among these names, a field is matched by its own name only. -/
theorem matchesField_fieldNames : ∀ field ∈ fieldNames, ∀ name ∈ fieldNames,
    Json.matchesField field name = decide (field = name) := by
  decide +kernel

theorem select_matchesField {field : String} {members : List (String × Json)}
    (hfield : field ∈ fieldNames) (hmembers : ∀ m ∈ members, m.1 ∈ fieldNames) :
    Json.select (Json.matchesField field) members = Json.select (field = ·) members := by
  unfold Json.select
  congr 1
  refine List.filter_congr fun m hm => ?_
  exact matchesField_fieldNames field hfield m.1 (hmembers m hm)

theorem decodeField_members {α : Type} {into : α → Json → Option α} {zero : α} {field : String}
    {members : List (String × Json)} (hfield : field ∈ fieldNames)
    (hmembers : ∀ m ∈ members, m.1 ∈ fieldNames) :
    Json.decodeField into zero field members = (Json.select (field = ·) members).foldlM into zero := by
  rw [Json.decodeField, select_matchesField hfield hmembers]

theorem mem_fieldNames_of_user (u : UserInfo) : ∀ m ∈ u.members, m.1 ∈ fieldNames := by
  intro m hm
  simp only [UserInfo.members, omitEmpty, List.mem_cons, List.mem_append, List.mem_ite_nil_left,
    List.not_mem_nil, or_false] at hm
  rcases hm with rfl | ⟨-, rfl⟩ | ⟨-, rfl⟩ | rfl <;> simp [fieldNames]

theorem select_cons (field name : String) (v : Json) (members : List (String × Json)) :
    Json.select (field = ·) ((name, v) :: members) =
      if field = name then v :: Json.select (field = ·) members
      else Json.select (field = ·) members := by
  by_cases h : field = name
  · simp [Json.select, h]
  · simp [Json.select, h]

theorem select_append (field : String) (front back : List (String × Json)) :
    Json.select (field = ·) (front ++ back) =
      Json.select (field = ·) front ++ Json.select (field = ·) back := by
  rw [Json.select, List.filter_append, List.map_append]
  rfl

theorem select_omitEmpty (field name value : String) :
    Json.select (field = ·) (omitEmpty name value) =
      if field = name ∧ value ≠ "" then [.str value] else [] := by
  by_cases hvalue : value = ""
  · simp [omitEmpty, hvalue, Json.select]
  · by_cases hname : field = name
    · simp [omitEmpty, hvalue, hname, Json.select]
    · simp [omitEmpty, hvalue, hname, Json.select]

/-- An omitted string is read back as the empty one. -/
theorem foldlM_omitted (value : String) :
    (if value = "" then [] else [Json.str value]).foldlM Json.intoString "" = some value := by
  by_cases hvalue : value = ""
  · subst hvalue
    rfl
  · rw [if_neg hvalue]
    rfl

theorem intoStrings_map_str (old : Option (List String)) (roles : List String) :
    Json.intoStrings old (.arr (roles.map .str)) = some (some roles) := by
  have hmapM : ∀ (roles : List String) (n : ℕ), ((roles.map Json.str).zipIdx n).mapM
      (fun v : Json × ℕ => v.1.intoString ((old.getD [])[v.2]?.getD "")) = some roles := by
    intro roles
    induction roles with
    | nil => exact fun _ => rfl
    | cons role roles ih =>
      intro n
      rw [List.map_cons, List.zipIdx_cons, List.mapM_cons, ih]
      rfl
  rw [Json.intoStrings, hmapM]
  rfl

/-- A user is read back. -/
theorem into_members (u : UserInfo) : UserInfo.into {} (.obj u.members) = some u := by
  have hmem := mem_fieldNames_of_user u
  unfold UserInfo.into
  dsimp only
  rw [decodeField_members (by decide) hmem, decodeField_members (by decide) hmem,
    decodeField_members (by decide) hmem, decodeField_members (by decide) hmem]
  simp only [UserInfo.members, select_cons, select_append, select_omitEmpty]
  simp [Json.select, intoStrings_map_str, Json.intoString, foldlM_omitted]

/-- There are no numbers in it. -/
theorem proper_members (u : UserInfo) : JsonText.Proper (.obj u.members) := by
  have hroles : ∀ roles : List String, JsonText.ProperElements (roles.map .str) := by
    intro roles
    induction roles with
    | nil => trivial
    | cons role roles ih => exact ⟨trivial, ih⟩
  show JsonText.ProperMembers u.members
  unfold UserInfo.members omitEmpty
  by_cases hemail : u.email = ""
  · by_cases hname : u.name = ""
    · rw [if_pos hemail, if_pos hname]
      exact ⟨trivial, hroles u.roles, trivial⟩
    · rw [if_pos hemail, if_neg hname]
      exact ⟨trivial, trivial, hroles u.roles, trivial⟩
  · by_cases hname : u.name = ""
    · rw [if_neg hemail, if_pos hname]
      exact ⟨trivial, trivial, hroles u.roles, trivial⟩
    · rw [if_neg hemail, if_neg hname]
      exact ⟨trivial, trivial, trivial, hroles u.roles, trivial⟩

variable {snap : SessionSnapshot}

/-- A snapshot is read back from its JSON tree if its instants are. -/
theorem ofJson_toJson {times : TimeText} (hexpiry : times.RoundTrips snap.accessExpiry)
    (hcreated : times.RoundTrips snap.created) (hlastSeen : times.RoundTrips snap.lastSeen) :
    ∃ members, snap.toJson times = some (.obj members) ∧ JsonText.Proper (.obj members) ∧
      SessionSnapshot.ofJson times (.obj members) = some snap := by
  obtain ⟨expiry, hformatExpiry, hparseExpiry⟩ := hexpiry
  obtain ⟨created, hformatCreated, hparseCreated⟩ := hcreated
  obtain ⟨lastSeen, hformatSeen, hparseSeen⟩ := hlastSeen
  have hmem : ∀ m ∈ snap.members expiry created lastSeen, m.1 ∈ fieldNames := by
    simp [SessionSnapshot.members, fieldNames]
  refine ⟨snap.members expiry created lastSeen, ?_, ?_, ?_⟩
  · simp [SessionSnapshot.toJson, hformatExpiry, hformatCreated, hformatSeen]
  · exact ⟨trivial, trivial, trivial, trivial, trivial, trivial, trivial, trivial,
      proper_members snap.user, trivial⟩
  · unfold SessionSnapshot.ofJson
    dsimp only
    repeat rw [decodeField_members (by decide) hmem]
    simp only [SessionSnapshot.members, select_cons]
    simp [Json.select, Json.intoString, into_members, TimeText.into, hparseExpiry, hparseCreated,
      hparseSeen]

/-! ### Sealing -/

/-- The bytes of a string. -/
def utf8 (s : String) : List UInt8 := s.toByteArray.data.toList

/-- The string that bytes stand for. -/
def ofUtf8 (bytes : List UInt8) : Option String := String.fromUTF8? bytes.toByteArray

theorem ofUtf8_utf8 (s : String) : ofUtf8 (utf8 s) = some s := by
  have hbytes : (utf8 s).toByteArray = s.toByteArray := by
    apply ByteArray.ext
    apply Array.ext'
    rw [List.toList_data_toByteArray, utf8]
  unfold ofUtf8 String.fromUTF8?
  rw [hbytes, dif_pos s.isValidUTF8]
  rfl

theorem utf8_injective {s t : String} (h : utf8 s = utf8 t) : s = t := by
  have hsome := ofUtf8_utf8 s
  rw [h, ofUtf8_utf8] at hsome
  exact (Option.some.inj hsome).symm

/-- An AEAD under a fixed key (`cipher.AEAD`). -/
structure Aead where
  nonceSize : ℕ
  nonceSize_pos : 0 < nonceSize
  /-- The ciphertext of a plaintext under a nonce, with additional data. -/
  sealText : (nonce plain additional : List UInt8) → List UInt8
  openText : (nonce cipher additional : List UInt8) → Option (List UInt8)

/-- A nonce, as `rand.Read` fills it. -/
abbrev Aead.Nonce (aead : Aead) : Type := { bytes : List UInt8 // bytes.length = aead.nonceSize }

/-- The AEAD opens what it sealed under the same additional data, and does not open it under other. -/
structure Aead.Exact (aead : Aead) : Prop where
  opens : ∀ (nonce : aead.Nonce) plain additional,
    aead.openText nonce (aead.sealText nonce plain additional) additional = some plain
  binds : ∀ (nonce : aead.Nonce) plain additional other, other ≠ additional →
    aead.openText nonce (aead.sealText nonce plain additional) other = none

/-- `seal`: the nonce, then the ciphertext. -/
def Aead.seal (aead : Aead) (nonce : aead.Nonce) (id : String) (plain : List UInt8) : List UInt8 :=
  nonce.1 ++ aead.sealText nonce plain (utf8 id)

/-- `open`: what is too short for a nonce is an error. -/
def Aead.open (aead : Aead) (id : String) (data : List UInt8) : Option (List UInt8) :=
  if data.length < aead.nonceSize then none
  else aead.openText (data.take aead.nonceSize) (data.drop aead.nonceSize) (utf8 id)

theorem Aead.open_seal {aead : Aead} (nonce : aead.Nonce) (id other : String) (plain : List UInt8) :
    aead.open other (aead.seal nonce id plain) =
      aead.openText nonce (aead.sealText nonce plain (utf8 id)) (utf8 other) := by
  have hlength : ¬ (aead.seal nonce id plain).length < aead.nonceSize := by
    rw [Aead.seal, List.length_append, nonce.2]
    omega
  rw [Aead.open, if_neg hlength, Aead.seal, List.take_left' nonce.2, List.drop_left' nonce.2]

theorem Aead.open_nil (aead : Aead) (id : String) : aead.open id [] = none :=
  if_pos aead.nonceSize_pos

/-- How the store encodes a session; the nonce is the one of the next `Put`, if there is one. -/
def Aead.codec (aead : Aead) (times : TimeText) (nonce : Option aead.Nonce) :
    PostgresStore.Codec (List UInt8) (List UInt8) where
  marshal snap := (snap.toJson times).map fun v => utf8 (JsonText.render v)
  unmarshal plain := ((ofUtf8 plain).bind JsonText.parse).bind (SessionSnapshot.ofJson times)
  sealData id plain := nonce.map fun nonce => aead.seal nonce id plain
  openData := aead.open
  wiped := []

/-- The encoding of a session gives it back. -/
theorem Aead.roundTrips_codec {aead : Aead} (haead : aead.Exact) {times : TimeText}
    (nonce : aead.Nonce) (hexpiry : times.RoundTrips snap.accessExpiry)
    (hcreated : times.RoundTrips snap.created) (hlastSeen : times.RoundTrips snap.lastSeen) :
    (aead.codec times (some nonce)).RoundTrips snap := by
  obtain ⟨members, hto, hproper, hof⟩ := ofJson_toJson hexpiry hcreated hlastSeen
  refine ⟨utf8 (JsonText.render (.obj members)),
    aead.seal nonce snap.id (utf8 (JsonText.render (.obj members))), ?_, rfl, ?_, ?_⟩
  · show (snap.toJson times).map _ = _
    rw [hto]
    rfl
  · show aead.open snap.id _ = _
    rw [Aead.open_seal]
    exact haead.opens nonce _ _
  · show ((ofUtf8 _).bind JsonText.parse).bind _ = _
    rw [ofUtf8_utf8, Option.bind_some, JsonText.parse_render hproper, Option.bind_some]
    exact hof

/-! ### The store -/

/-- `Get`: an expired session is removed. -/
def PostgresStore.get {β δ : Type} (p : PostgresStore β δ) (id : String) (now : ℤ) :
    PostgresStore β δ × Option Session :=
  match p.stored id with
  | none => (p, none)
  | some snap =>
    if p.expired snap.created snap.lastSeen now then (p.remove id, none)
    else (p, some (Session.ofSnapshot snap))

theorem PostgresStore.get_of_stored {β δ : Type} {p : PostgresStore β δ} {id : String}
    (hstored : p.stored id = some snap) {now : ℤ}
    (hexpired : p.expired snap.created snap.lastSeen now = false) :
    (p.get id now).2 = some (Session.ofSnapshot snap) := by
  simp only [get, hstored, hexpired]
  rfl

/-- The durable store with its encoding. -/
structure SealedStore (aead : Aead) (times : TimeText) where
  idle : ℤ
  absolute : ℤ
  rows : String → Option (Row (List UInt8))

namespace SealedStore

variable {aead : Aead} {times : TimeText}

/-- The store, with the nonce that the next `Put` draws. -/
def toStore (s : SealedStore aead times) (nonce : Option aead.Nonce) :
    PostgresStore (List UInt8) (List UInt8) where
  codec := aead.codec times nonce
  idle := s.idle
  absolute := s.absolute
  rows := s.rows

/-- `Put`; without a nonce, `rand.Read` has failed. -/
def put (s : SealedStore aead times) (nonce : Option aead.Nonce) (session : Session) :
    SealedStore aead times :=
  { s with rows := ((s.toStore nonce).put session.snapshot).rows }

/-- `Get`. -/
def get (s : SealedStore aead times) (id : String) (now : ℤ) :
    SealedStore aead times × Option Session :=
  ({ s with rows := ((s.toStore none).get id now).1.rows }, ((s.toStore none).get id now).2)

/-- A call of the store. -/
inductive Op (aead : Aead) where
  | put (nonce : Option aead.Nonce) (session : Session)
  | get (id : String) (now : ℤ)
  | delete (id : String) (now : ℤ)
  | sweep (now : ℤ)

/-- The store after a call. -/
def apply (s : SealedStore aead times) : Op aead → SealedStore aead times
  | .put nonce session => s.put nonce session
  | .get id now => (s.get id now).1
  | .delete id now => { s with rows := ((s.toStore none).delete id now).rows }
  | .sweep now => { s with rows := ((s.toStore none).sweep now).rows }

/-- The store after any calls, from an empty table on. -/
def run (idle absolute : ℤ) (ops : List (Op aead)) : SealedStore aead times :=
  ops.foldl apply { idle, absolute, rows := fun _ => none }

/-! ### Each row is sealed under its own id -/

/-- The data of the row of `id`: wiped, or sealed under `id`. -/
def OwnData (aead : Aead) (id : String) (data : List UInt8) : Prop :=
  data = [] ∨ ∃ nonce plain, data = aead.seal nonce id plain

/-- Every row has data of its own. -/
def Bound (aead : Aead) (rows : String → Option (Row (List UInt8))) : Prop :=
  ∀ id row, rows id = some row → OwnData aead id row.data

/-- A statement that changes the row of one id, to one that has data of its own if it has any. -/
theorem Bound.update {rows : String → Option (Row (List UInt8))} (h : Bound aead rows) {id : String}
    {row : Option (Row (List UInt8))} (hrow : ∀ r, row = some r → OwnData aead id r.data) :
    Bound aead (Function.update rows id row) := by
  intro id' row' hrow'
  by_cases hid : id' = id
  · subst hid
    rw [Function.update_self] at hrow'
    exact hrow row' hrow'
  · rw [Function.update_of_ne hid] at hrow'
    exact h id' row' hrow'

variable {s : SealedStore aead times}

theorem Bound.put (h : Bound aead s.rows) (nonce : Option aead.Nonce) (session : Session) :
    Bound aead (s.put nonce session).rows := by
  unfold SealedStore.put PostgresStore.put
  cases hmarshal : (s.toStore nonce).codec.marshal session.snapshot with
  | none => exact h
  | some plain =>
    cases nonce with
    | none => exact h
    | some nonce =>
      have hown : OwnData aead session.id (aead.seal nonce session.id plain) := .inr ⟨nonce, plain, rfl⟩
      show Bound aead ((s.toStore (some nonce)).upsert session.id
        (aead.seal nonce session.id plain) session.created session.lastSeen).rows
      unfold PostgresStore.upsert
      cases (s.toStore (some nonce)).rows session.id with
      | none =>
        refine h.update ?_
        rintro r ⟨⟩
        exact hown
      | some row =>
        dsimp only
        split
        next =>
          refine h.update ?_
          rintro r ⟨⟩
          exact hown
        next => exact h

theorem Bound.get (h : Bound aead s.rows) (id : String) (now : ℤ) :
    Bound aead (s.get id now).1.rows := by
  unfold SealedStore.get PostgresStore.get
  cases (s.toStore none).stored id with
  | none => exact h
  | some snap =>
    dsimp only
    split
    next => exact h.update (by rintro r ⟨⟩)
    next => exact h

/-- No call moves data from one row to another. -/
theorem Bound.apply (h : Bound aead s.rows) (op : Op aead) : Bound aead (s.apply op).rows := by
  cases op with
  | put nonce session => exact h.put nonce session
  | get id now => exact h.get id now
  | delete id now =>
    show Bound aead ((s.toStore none).delete id now).rows
    unfold PostgresStore.delete
    cases (s.toStore none).rows id with
    | none => exact h
    | some row =>
      refine h.update ?_
      rintro r ⟨⟩
      exact .inl rfl
  | sweep now =>
    intro id row hrow
    exact h id row (Option.filter_eq_some_iff.mp hrow).1

theorem bound_run (idle absolute : ℤ) (ops : List (Op aead)) :
    Bound aead (run idle absolute ops : SealedStore aead times).rows := by
  unfold run
  induction ops using List.reverseRecOn with
  | nil =>
    intro id row hrow
    cases hrow
  | append_singleton ops op ih =>
    rw [List.foldl_append]
    exact ih.apply op

/-- Data of one id cannot be read under another. -/
theorem open_ownData (haead : aead.Exact) {a b : String} (hne : a ≠ b) {data : List UInt8}
    (hdata : OwnData aead a data) : aead.open b data = none := by
  rcases hdata with rfl | ⟨nonce, plain, rfl⟩
  · exact aead.open_nil b
  · rw [Aead.open_seal]
    exact haead.binds nonce plain _ _ fun h => hne (utf8_injective h).symm

theorem get_of_open_eq_none (s : SealedStore aead times) {id : String} {row : Row (List UInt8)}
    (hrow : s.rows id = some row) (hopen : aead.open id row.data = none) (now : ℤ) :
    (s.get id now).2 = none := by
  have hstored : (s.toStore none).stored id = none := by
    have hrow' : (s.toStore none).rows id = some row := hrow
    have hopen' : (s.toStore none).codec.openData id row.data = none := hopen
    unfold PostgresStore.stored PostgresStore.select PostgresStore.decode
    rw [hrow']
    dsimp only
    split
    next => rw [Option.bind_some, hopen']
    next => rfl
  unfold get PostgresStore.get
  rw [hstored]

/-- A session that was put is read back with all of its fields, unless it has expired or was deleted;
and the data of one row does not make a session of another. -/
theorem persistence (aead : Aead) (times : TimeText) (haead : aead.Exact) :
    (∀ (s : SealedStore aead times) (nonce : aead.Nonce) (session : Session) (now : ℤ),
      session.snapshot.InYears →
      (∀ t ∈ [session.accessExpiry, session.created, session.lastSeen],
        Time.year0 ≤ t → t < Time.year10000 → times.RoundTrips t) →
      (∀ row, s.rows session.id = some row → row.deletedAt = none) →
      expiredAt s.idle s.absolute session.created session.lastSeen now = false →
      ((s.put (some nonce) session).get session.id now).2 = some session) ∧
    ∀ (idle absolute : ℤ) (ops : List (Op aead)) (a b : String) (row : Row (List UInt8)), a ≠ b →
      (run idle absolute ops : SealedStore aead times).rows a = some row →
      ∀ (s : SealedStore aead times) (copy : Row (List UInt8)) (now : ℤ),
        s.rows b = some copy → copy.data = row.data → (s.get b now).2 = none := by
  constructor
  · intro s nonce session now hyears htimes hlive hexpired
    have hround : ∀ t ∈ [session.accessExpiry, session.created, session.lastSeen], times.RoundTrips t :=
      fun t ht => htimes t ht (hyears t ht).1 (hyears t ht).2
    simp only [List.forall_mem_cons] at hround
    obtain ⟨hexpiry, hcreated, hlastSeen, -⟩ := hround
    have hcodec : (s.toStore (some nonce)).codec.RoundTrips session.snapshot :=
      aead.roundTrips_codec haead nonce hexpiry hcreated hlastSeen
    have hput := PostgresStore.stored_put hlive hcodec
    rw [← Refresh.put_postgres] at hput
    -- The nonce does not matter to what is read.
    have hstored : ((s.put (some nonce) session).toStore none).stored session.id =
      some session.snapshot := hput
    exact PostgresStore.get_of_stored hstored hexpired
  · intro idle absolute ops a b row hne hrow s copy now hcopy hdata
    have hown : OwnData aead a row.data := bound_run idle absolute ops a row hrow
    refine get_of_open_eq_none s hcopy ?_ now
    rw [hdata]
    exact open_ownData haead hne hown

/-! ### A login -/

/-- The additional data with its length in front, in unary. -/
def frame (additional : List UInt8) : List UInt8 :=
  List.replicate additional.length 1 ++ 0 :: additional

/-- Two frames that start the same bytes are the same. -/
theorem frame_append_inj {a b as bs : List UInt8} (h : frame a ++ as = frame b ++ bs) : a = b := by
  have hlength : ∀ (n m : ℕ) (xs ys : List UInt8),
      List.replicate n 1 ++ 0 :: xs = List.replicate m 1 ++ 0 :: ys → n = m ∧ xs = ys := by
    intro n
    induction n with
    | zero =>
      intro m xs ys h
      cases m with
      | zero => exact ⟨rfl, (List.cons.inj h).2⟩
      | succ m => exact absurd (List.cons.inj h).1 (by decide)
    | succ n ih =>
      intro m xs ys h
      cases m with
      | zero => exact absurd (List.cons.inj h).1 (by decide)
      | succ m =>
        obtain ⟨rfl, hrest⟩ := ih m xs ys (List.cons.inj h).2
        exact ⟨rfl, hrest⟩
  rw [frame, frame, List.append_assoc, List.append_assoc, List.cons_append, List.cons_append] at h
  obtain ⟨hsame, hrest⟩ := hlength _ _ _ _ h
  exact (List.append_inj hrest hsame).1

/-- An ideal AEAD: the ciphertext is the frame of the additional data and the plaintext, and is opened
only under that additional data. -/
def framed : Aead where
  nonceSize := 12
  nonceSize_pos := by decide
  sealText _ plain additional := frame additional ++ plain
  openText _ cipher additional :=
    if cipher.take (frame additional).length = frame additional then
      some (cipher.drop (frame additional).length)
    else none

theorem exact_framed : framed.Exact where
  opens nonce plain additional := by
    refine (if_pos List.take_left).trans ?_
    exact congrArg some List.drop_left
  binds nonce plain additional other hne := by
    refine if_neg fun h => hne ?_
    have hcut := List.take_append_drop (frame other).length (frame additional ++ plain)
    exact frame_append_inj ((congrArg (· ++ _) h).symm.trans hcut)

/-- RFC 3339, on the two instants of the login. -/
def loginTimes : TimeText where
  format t :=
    if t = 1767225600 * second then some "2026-01-01T00:00:00Z"
    else if t = 1767229200 * second then some "2026-01-01T01:00:00Z" else none
  parse text :=
    if text = "2026-01-01T00:00:00Z" then some (1767225600 * second)
    else if text = "2026-01-01T01:00:00Z" then some (1767229200 * second) else none

/-- A session with a token that is valid for an hour. -/
def loginSession : Session :=
  Session.new "session-1" "csrf-1"
    (some { accessToken := "access-1", refreshToken := "refresh-1", expiresIn := 3600 })
    { sub := "u1", roles := ["admin"] } (1767225600 * second)

theorem persistence_login :
    (((⟨0, hour, fun _ => none⟩ : SealedStore framed loginTimes).put
      (some ⟨List.replicate 12 7, rfl⟩) loginSession).get "session-1"
        (1767225660 * second)).2 = some loginSession := by
  refine (persistence framed loginTimes exact_framed).1 ⟨0, hour, fun _ => none⟩
    ⟨List.replicate 12 7, rfl⟩ loginSession (1767225660 * second) ?_ ?_ ?_ ?_
  · decide +kernel
  · intro t ht _ _
    have hcases : t = 1767225600 * second ∨ t = 1767229200 * second := by
      revert t
      decide +kernel
    rcases hcases with rfl | rfl
    · exact ⟨"2026-01-01T00:00:00Z", rfl, rfl⟩
    · exact ⟨"2026-01-01T01:00:00Z", by decide +kernel, by decide +kernel⟩
  · intro row hrow
    cases hrow
  · decide +kernel

end SealedStore

end Bff
