import BackendKit.GoStd.Url

/-!
# The paths of the admin requests about one user

The methods of `socrate.Client` that act on a user (`socrate/admin.go`, `socrate/monitoring.go`) put
the caller's id between a fixed prefix and a fixed suffix, escaped with `url.PathEscape`.

Escaping keeps an id within its segment, whatever its bytes are. It leaves dots alone, though, so an
id that is itself a dot segment is resolved away by a server or proxy that normalises paths
(`pathSegments_path_iff`).
-/

open GoStd

namespace Socrate

/-- What a method asks of the admin service; the path is relative to its base URL. -/
structure AdminRequest where
  method : String
  path : Bytes

/-- A request about one user. -/
def userRequest (method : String) (suffix userID : Bytes) : AdminRequest where
  method := method
  path := ascii "/api/admin/users/" ++ Url.pathEscape userID ++ suffix

/-- `AdminGetUser` retrieves a single user. -/
def adminGetUser : Bytes → AdminRequest := userRequest "GET" []

/-- `AdminDeleteUser` permanently deletes a user account. -/
def adminDeleteUser : Bytes → AdminRequest := userRequest "DELETE" []

/-- `GetUserApps` returns all apps the user belongs to. -/
def getUserApps : Bytes → AdminRequest := userRequest "GET" (ascii "/apps")

/-- `BlockUser` disables a user account. -/
def blockUser : Bytes → AdminRequest := userRequest "POST" (ascii "/block")

/-- `UnlockUser` re-enables a user account. -/
def unlockUser : Bytes → AdminRequest := userRequest "POST" (ascii "/unlock")

/-- `RevokeUserTokens` invalidates all active tokens of the user. -/
def revokeUserTokens : Bytes → AdminRequest := userRequest "POST" (ascii "/revoke-tokens")

/-- `GetUserSessions` returns the active sessions of the user. -/
def getUserSessions : Bytes → AdminRequest := userRequest "GET" (ascii "/sessions")

/-- The methods. -/
inductive UserMethod where
  | adminGetUser
  | adminDeleteUser
  | getUserApps
  | blockUser
  | unlockUser
  | revokeUserTokens
  | getUserSessions
  deriving DecidableEq, Repr

namespace UserMethod

/-- What a method asks for. -/
def request : UserMethod → Bytes → AdminRequest
  | adminGetUser => Socrate.adminGetUser
  | adminDeleteUser => Socrate.adminDeleteUser
  | getUserApps => Socrate.getUserApps
  | blockUser => Socrate.blockUser
  | unlockUser => Socrate.unlockUser
  | revokeUserTokens => Socrate.revokeUserTokens
  | getUserSessions => Socrate.getUserSessions

/-- The segments behind the id. -/
def suffix : UserMethod → List Bytes
  | adminGetUser | adminDeleteUser => []
  | getUserApps => [ascii "apps"]
  | blockUser => [ascii "block"]
  | unlockUser => [ascii "unlock"]
  | revokeUserTokens => [ascii "revoke-tokens"]
  | getUserSessions => [ascii "sessions"]

end UserMethod

/-- The segments before the id. -/
def usersSegments : List Bytes := [ascii "api", ascii "admin", ascii "users"]

/-- A segment that an id cannot be confused with: no slash, no escape, not a dot segment. -/
def isFixedSegment (s : Bytes) : Bool :=
  !s.contains Url.slash && Url.pathUnescape s == some s && s != Url.dot && s != Url.dotDot

theorem isFixedSegment_usersSegments : ∀ s ∈ usersSegments, isFixedSegment s = true := by
  decide +kernel

variable (m : UserMethod) (userID : Bytes)

theorem UserMethod.isFixedSegment_suffix : ∀ s ∈ m.suffix, isFixedSegment s = true := by
  cases m <;> decide +kernel

theorem UserMethod.path_eq_append :
    (m.request userID).path =
      ascii "/api/admin/users/" ++ Url.pathEscape userID ++ m.suffix.flatMap (Url.slash :: ·) := by
  cases m
  all_goals
    refine congrArg (ascii "/api/admin/users/" ++ Url.pathEscape userID ++ ·) ?_
    decide +kernel

/-- The text of a path is its segments, each behind a slash. -/
theorem UserMethod.path_eq_intercalate :
    (m.request userID).path =
      [Url.slash].intercalate ([] :: (usersSegments ++ Url.pathEscape userID :: m.suffix)) := by
  have hstart : ascii "/api/admin/users/" =
      Url.slash :: (ascii "api" ++ Url.slash :: (ascii "admin" ++ Url.slash ::
        (ascii "users" ++ [Url.slash]))) := by
    decide +kernel
  rw [m.path_eq_append, intercalate_singleton_cons, hstart]
  simp [usersSegments]

/-- Cut at its slashes, the path has the escaped id as one segment. -/
theorem UserMethod.splitOn_path :
    List.splitOn Url.slash (m.request userID).path =
      [] :: (usersSegments ++ Url.pathEscape userID :: m.suffix) := by
  rw [m.path_eq_intercalate, List.splitOn_intercalate _ _ (List.cons_ne_nil _ _)]
  have hfixed : ∀ s : Bytes, isFixedSegment s = true → Url.slash ∉ s := by
    intro s hs
    simp only [isFixedSegment, Bool.and_eq_true, Bool.not_eq_true', List.contains_eq_mem,
      decide_eq_false_iff_not] at hs
    exact hs.1.1.1
  intro s hs
  rcases List.mem_cons.mp hs with rfl | hs
  · exact List.not_mem_nil
  rcases List.mem_append.mp hs with hs | hs
  · exact hfixed s (isFixedSegment_usersSegments s hs)
  rcases List.mem_cons.mp hs with rfl | hs
  · exact Url.slash_notMem_pathEscape userID
  · exact hfixed s (m.isFixedSegment_suffix s hs)

/-- Fixed segments read as themselves. -/
theorem mapM_pathUnescape_of_isFixedSegment {segments : List Bytes}
    (h : ∀ s ∈ segments, isFixedSegment s = true) :
    segments.mapM Url.pathUnescape = some segments := by
  induction segments with
  | nil => rfl
  | cons s rest ih =>
    obtain ⟨hs, hrest⟩ := List.forall_mem_cons.mp h
    have hread : Url.pathUnescape s = some s := by
      simp only [isFixedSegment, Bool.and_eq_true, beq_iff_eq] at hs
      exact hs.1.1.2
    rw [List.mapM_cons, hread, ih hrest]
    rfl

/-- For every method and every id: the server finds the id in its own segment, between the segments
of the method, exactly if the id is not a dot segment. -/
theorem pathSegments_path_iff (m : UserMethod) (userID : Bytes) :
    Url.pathSegments (m.request userID).path = some (usersSegments ++ userID :: m.suffix) ↔
      userID ≠ ascii "." ∧ userID ≠ ascii ".." := by
  constructor
  · intro h
    constructor
    · rintro rfl
      revert h
      cases m <;> decide +kernel
    · rintro rfl
      revert h
      cases m <;> decide +kernel
  · rintro ⟨hdot, hdotDot⟩
    have hfixed : ∀ s : Bytes, isFixedSegment s = true → s ≠ Url.dot ∧ s ≠ Url.dotDot := by
      intro s hs
      simp only [isFixedSegment, Bool.and_eq_true, bne_iff_ne] at hs
      exact ⟨hs.1.2, hs.2⟩
    -- escaping does not turn another id into a dot segment
    have hid : Url.pathEscape userID ≠ Url.dot ∧ Url.pathEscape userID ≠ Url.dotDot := by
      have hescape : Url.pathEscape Url.dot = Url.dot := by decide +kernel
      have hescape' : Url.pathEscape Url.dotDot = Url.dotDot := by decide +kernel
      constructor
      · rw [← hescape]
        exact fun h => hdot (Url.pathEscape_inj.mp h)
      · rw [← hescape']
        exact fun h => hdotDot (Url.pathEscape_inj.mp h)
    have hdots : ∀ s ∈ usersSegments ++ Url.pathEscape userID :: m.suffix,
        s ≠ Url.dot ∧ s ≠ Url.dotDot := by
      intro s hs
      rcases List.mem_append.mp hs with hs | hs
      · exact hfixed s (isFixedSegment_usersSegments s hs)
      rcases List.mem_cons.mp hs with rfl | hs
      · exact hid
      · exact hfixed s (m.isFixedSegment_suffix s hs)
    rw [Url.pathSegments, m.splitOn_path]
    simp only
    rw [Url.removeDots_of_forall hdots, List.mapM_append, List.mapM_cons,
      mapM_pathUnescape_of_isFixedSegment isFixedSegment_usersSegments,
      Url.pathUnescape_pathEscape, mapM_pathUnescape_of_isFixedSegment m.isFixedSegment_suffix]
    rfl

/-- With the id `..`, revoking a user's tokens goes to another resource. -/
theorem pathSegments_revokeUserTokens_dotDot :
    Url.pathSegments (UserMethod.revokeUserTokens.request (ascii "..")).path =
        some [ascii "api", ascii "admin", ascii "revoke-tokens"] ∧
      Url.pathSegments (UserMethod.revokeUserTokens.request (ascii "..")).path ≠
        some (usersSegments ++ ascii ".." :: UserMethod.revokeUserTokens.suffix) := by
  decide +kernel

end Socrate
