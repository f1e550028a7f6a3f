import BackendKit.GoStd.Time

/-!
# Sessions of the backend for frontends

The server-side state of one logged-in browser (`bff/session.go`): the tokens, the CSRF token
and the two timestamps the stores judge expiry by.

A `Session` is a record here; the code shares `*Session` pointers between goroutines and takes
the session's lock for the length of one accessor, so each function below is one atomic step of
a goroutine on the record behind its pointer. `Session.snapshot` and `Session.ofSnapshot` are
the two halves of a durable store's round trip.
-/

open GoStd

namespace Bff

/-- The identity surfaced to the browser. -/
structure UserInfo where
  sub : String := ""
  email : String := ""
  name : String := ""
  roles : List String := []
  deriving DecidableEq, Repr

/-- The fields of the token endpoint's answer that a session keeps (`socrate.TokenSet`). -/
structure TokenSet where
  accessToken : String := ""
  refreshToken : String := ""
  idToken : String := ""
  /-- Seconds; an `int` in the code. -/
  expiresIn : ℤ := 0
  deriving DecidableEq, Repr

/-- The server-side state for one logged-in browser. -/
structure Session where
  id : String
  accessToken : String := ""
  refreshToken : String := ""
  idToken : String := ""
  accessExpiry : ℤ := Time.zero
  csrf : String := ""
  created : ℤ := Time.zero
  lastSeen : ℤ := Time.zero
  user : UserInfo := {}
  deriving DecidableEq, Repr

namespace Session

/-- Take over a token set: the access token always, the other tokens when they are not empty,
and the expiry when a lifetime is given. A nil token set changes nothing. -/
def applyTokens (s : Session) (ts : Option TokenSet) (now : ℤ) : Session :=
  match ts with
  | none => s
  | some ts =>
    { s with
      accessToken := ts.accessToken
      refreshToken := if ts.refreshToken ≠ "" then ts.refreshToken else s.refreshToken
      idToken := if ts.idToken ≠ "" then ts.idToken else s.idToken
      accessExpiry :=
        if 0 < ts.expiresIn then now + Duration.seconds ts.expiresIn else s.accessExpiry }

/-- `NewSession`: the session of a login at `now`. -/
def new (id csrf : String) (ts : Option TokenSet) (user : UserInfo) (now : ℤ) : Session :=
  { applyTokens { id, csrf, created := now } ts now with user, lastSeen := now }

/-- Apply a refreshed token set. -/
def setTokens (s : Session) (ts : Option TokenSet) (now : ℤ) : Session := s.applyTokens ts now

/-- Slide the idle timestamp. -/
def touch (s : Session) (now : ℤ) : Session := { s with lastSeen := now }

/-- Replace the session's identity. -/
def setUser (s : Session) (user : UserInfo) : Session := { s with user }

/-- The access token is still valid at `now`, with `leeway` of head-room. -/
def accessValid (s : Session) (now leeway : ℤ) : Bool :=
  s.accessToken ≠ "" && now + leeway < s.accessExpiry

/-- `token` equals the session's CSRF token; an empty CSRF token never matches. -/
def matchCSRF (s : Session) (token : String) : Bool :=
  if s.csrf = "" then false else token = s.csrf

/-! ### What an accessor leaves alone -/

variable (s : Session) (ts : Option TokenSet) (now : ℤ)

@[simp]
theorem applyTokens_id : (s.applyTokens ts now).id = s.id := by
  cases ts <;> rfl

@[simp]
theorem applyTokens_created : (s.applyTokens ts now).created = s.created := by
  cases ts <;> rfl

@[simp] theorem setTokens_id : (s.setTokens ts now).id = s.id := applyTokens_id s ts now

@[simp] theorem setTokens_created :
    (s.setTokens ts now).created = s.created := applyTokens_created s ts now

@[simp] theorem touch_lastSeen : (s.touch now).lastSeen = now := rfl

@[simp] theorem touch_id : (s.touch now).id = s.id := rfl

@[simp] theorem touch_refreshToken : (s.touch now).refreshToken = s.refreshToken := rfl

/-- A token set with a refresh token replaces the session's refresh token. -/
theorem setTokens_refreshToken (ts : TokenSet) (now : ℤ) (h : ts.refreshToken ≠ "") :
    (s.setTokens (some ts) now).refreshToken = ts.refreshToken := by
  simp [setTokens, applyTokens, h]

/-- The CSRF check passes exactly for the session's own token, when it has one. -/
theorem matchCSRF_iff (token : String) :
    s.matchCSRF token = true ↔ s.csrf ≠ "" ∧ token = s.csrf := by
  unfold matchCSRF
  split <;> simp_all

end Session

/-- A serialisable view of a session's full state. -/
structure SessionSnapshot where
  id : String
  accessToken : String
  refreshToken : String
  idToken : String
  accessExpiry : ℤ
  csrf : String
  created : ℤ
  lastSeen : ℤ
  user : UserInfo
  deriving DecidableEq, Repr

namespace Session

/-- Capture the session's full state for persistence. -/
def snapshot (s : Session) : SessionSnapshot where
  id := s.id
  accessToken := s.accessToken
  refreshToken := s.refreshToken
  idToken := s.idToken
  accessExpiry := s.accessExpiry
  csrf := s.csrf
  created := s.created
  lastSeen := s.lastSeen
  user := s.user

/-- `NewSessionFromSnapshot`: rehydrate a session. -/
def ofSnapshot (snap : SessionSnapshot) : Session where
  id := snap.id
  accessToken := snap.accessToken
  refreshToken := snap.refreshToken
  idToken := snap.idToken
  accessExpiry := snap.accessExpiry
  csrf := snap.csrf
  created := snap.created
  lastSeen := snap.lastSeen
  user := snap.user

end Session

/-! ### Expiry -/

/-- How long `Delete` keeps a tombstone that stops a racing `Put` from re-creating a deleted
session (`PostgresStoreTombstoneTTL`, which `MemoryStore` uses too). -/
def postgresStoreTombstoneTTL : ℤ := Duration.hour

theorem postgresStoreTombstoneTTL_pos : 0 < postgresStoreTombstoneTTL := by decide

/-- The expiry test of both stores: past the absolute lifetime, or idle for too long. A bound
that is zero or negative is disabled. -/
def expiredAt (idle absolute created lastSeen now : ℤ) : Bool :=
  if 0 < absolute && absolute ≤ Time.sub now created then true
  else if 0 < idle && idle ≤ Time.sub now lastSeen then true
  else false

/-- The session is past the absolute lifetime at `now`. -/
def PastAbsolute (absolute created now : ℤ) : Prop :=
  0 < absolute ∧ absolute ≤ Time.sub now created

instance (absolute created now : ℤ) : Decidable (PastAbsolute absolute created now) :=
  inferInstanceAs (Decidable (_ ∧ _))

/-- The session has been idle for too long at `now`. -/
def PastIdle (idle lastSeen now : ℤ) : Prop :=
  0 < idle ∧ idle ≤ Time.sub now lastSeen

instance (idle lastSeen now : ℤ) : Decidable (PastIdle idle lastSeen now) :=
  inferInstanceAs (Decidable (_ ∧ _))

theorem expiredAt_iff {idle absolute created lastSeen now : ℤ} :
    expiredAt idle absolute created lastSeen now = true ↔
      PastAbsolute absolute created now ∨ PastIdle idle lastSeen now := by
  unfold expiredAt PastAbsolute PastIdle
  split_ifs <;> simp_all

/-- The absolute lifetime runs out once and for all. -/
theorem PastAbsolute.mono {absolute created now now' : ℤ} (h : PastAbsolute absolute created now)
    (hle : now ≤ now') : PastAbsolute absolute created now' :=
  ⟨h.1, h.2.trans (Time.sub_le_sub_left hle created)⟩

/-- A session that has not expired is within its absolute lifetime, counted from its login. -/
theorem lt_of_expiredAt_eq_false {idle absolute created lastSeen now : ℤ} (hpos : 0 < absolute)
    (hmax : absolute ≤ Duration.maxValue)
    (h : expiredAt idle absolute created lastSeen now = false) : now < created + absolute := by
  have hnot : ¬ PastAbsolute absolute created now := by
    intro hpast
    rw [expiredAt_iff.mpr (.inl hpast)] at h
    cases h
  have hlt : Time.sub now created < absolute := by
    by_contra hle
    exact hnot ⟨hpos, not_lt.mp hle⟩
  have := Time.lt_of_sub_lt hmax hlt
  omega

/-- A session touched at `now` is not idle at `now`. -/
theorem not_pastIdle_self (idle now : ℤ) : ¬ PastIdle idle now now := by
  rintro ⟨hpos, hle⟩
  rw [Time.sub_self] at hle
  omega

end Bff
