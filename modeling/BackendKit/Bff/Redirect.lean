import BackendKit.GoStd.Utf8
import Mathlib.Data.List.TakeWhile
import Mathlib.Tactic.Set

/-!
# Where a login returns to

`SanitizeReturnTo` (`bff/redirect.go`) lets a return path through unchanged or replaces it by `/`.
The path is then resolved by a browser, so the second part models what a browser makes of it: the
WHATWG URL rules for a reference against an http or https base, as far as they decide the scheme,
the host and the port of the result (`resolveOrigin`).

The filter works on a string that need not be UTF-8, and its loop is over runes. Browsers look for
ASCII only, so references are byte strings here too.
-/

open GoStd Utf8

namespace Bff

/-- What the filter reads of a `url.URL`. -/
structure ParsedURL where
  scheme : Bytes
  host : Bytes
  deriving DecidableEq

def slash : UInt8 := 0x2f

def backslash : UInt8 := 0x5c

/-- The path `/`. -/
def rootPath : Bytes := [slash]

/-- A path that the last step lets through: it parses, to a URL without scheme and host. -/
def isLocal (parse : Bytes → Option ParsedURL) (p : Bytes) : Bool :=
  match parse p with
  | none => false
  | some u => u.scheme == [] && u.host == []

/-- `SanitizeReturnTo`; `parse` is `url.Parse`. -/
def sanitizeReturnTo (parse : Bytes → Option ParsedURL) (p : Bytes) : Bytes :=
  if p.head? ≠ some slash then rootPath
  else if [slash, slash].isPrefixOf p || [slash, backslash].isPrefixOf p || p.contains backslash then
    rootPath
  else if (runes p).any (fun r => r < 0x20 || r == 0x7f) then rootPath
  else if !isLocal parse p then rootPath
  else p

/-- A path without anything that a browser would read as more than a path. -/
structure Clean (p : Bytes) : Prop where
  head : p.head? = some slash
  /-- The slash is a single one. -/
  second : p.tail.head? ≠ some slash
  no_backslash : backslash ∉ p
  no_control : ∀ b ∈ p, 0x20 ≤ b ∧ b ≠ 0x7f

theorem clean_rootPath : Clean rootPath :=
  ⟨by decide, by decide, by decide, List.forall_mem_singleton.mpr (by decide)⟩

theorem sanitizeReturnTo_rootPath {parse : Bytes → Option ParsedURL}
    (hroot : isLocal parse rootPath = true) : sanitizeReturnTo parse rootPath = rootPath := by
  have hrunes : (runes rootPath).any (fun r => r < 0x20 || r == 0x7f) = false := by decide
  unfold sanitizeReturnTo
  rw [hroot, hrunes]
  rfl

/-- Either the path comes out unchanged, and it is clean and local, or `/` comes out. -/
theorem sanitizeReturnTo_cases (parse : Bytes → Option ParsedURL) (p : Bytes) :
    sanitizeReturnTo parse p = rootPath ∨
      sanitizeReturnTo parse p = p ∧ Clean p := by
  unfold sanitizeReturnTo
  split
  · exact .inl rfl
  rename_i hhead
  split
  · exact .inl rfl
  rename_i hauthority
  split
  · exact .inl rfl
  rename_i hrunes
  split
  · exact .inl rfl
  · simp only [Bool.or_eq_true, List.contains_eq_mem, decide_eq_true_eq, not_or] at hauthority
    refine .inr ⟨rfl, not_not.mp hhead, ?_, hauthority.2, ?_⟩
    · intro hsecond
      obtain ⟨⟨hslashes, -⟩, -⟩ := hauthority
      match p, not_not.mp hhead, hsecond with
      | a :: b :: rest, hfirst, hsecond =>
        have ha : a = slash := Option.some.inj hfirst
        have hb : b = slash := Option.some.inj hsecond
        subst ha hb
        exact hslashes (by simp [List.isPrefixOf])
    · -- a control character would show up as a rune, also among malformed bytes
      intro b hb
      have hrune : ∀ hascii : b < 0x80, ¬(b.toNat < 0x20 ∨ b.toNat = 0x7f) := by
        intro hascii hcontrol
        refine hrunes (List.any_eq_true.mpr ⟨b.toNat, toNat_mem_runes hascii hb, ?_⟩)
        simpa using hcontrol
      constructor
      · refine UInt8.not_lt.mp fun hlt => ?_
        exact hrune (UInt8.lt_trans hlt (by decide)) (.inl (UInt8.lt_iff_toNat_lt.mp hlt))
      · rintro rfl
        exact hrune (by decide) (.inr rfl)

/-! ### What a browser makes of it -/

/-- The schemes of a base that a login can return to. -/
inductive WebScheme where
  | http
  | https
  deriving DecidableEq, Repr

/-- Scheme, host and port of a URL. -/
structure Origin where
  scheme : WebScheme
  host : Bytes
  port : Option ℕ
  deriving DecidableEq

/-- C0 controls and space. -/
def isControlOrSpace (b : UInt8) : Bool := b ≤ 0x20

/-- Tab, line feed and carriage return, which vanish wherever they stand. -/
def isTabOrNewline (b : UInt8) : Bool := b == 0x09 || b == 0x0a || b == 0x0d

/-- What a browser does to the input before it parses it. -/
def preprocess (ref : Bytes) : Bytes :=
  let stripped := ((ref.dropWhile isControlOrSpace).reverse.dropWhile isControlOrSpace).reverse
  stripped.filter fun b => !isTabOrNewline b

/-- For http and https a backslash is a slash. -/
def isSlash (b : UInt8) : Bool := b == slash || b == backslash

def isAlpha (b : UInt8) : Bool := (0x41 ≤ b && b ≤ 0x5a) || (0x61 ≤ b && b ≤ 0x7a)

/-- The characters of a scheme behind its first one. -/
def isSchemeChar (b : UInt8) : Bool :=
  isAlpha b || (0x30 ≤ b && b ≤ 0x39) || (ascii "+-.").contains b

/-- The scheme in front of a reference, in lower case, and what follows its colon. -/
def schemeOf? (ref : Bytes) : Option (Bytes × Bytes) :=
  match ref, ref.dropWhile isSchemeChar with
  | first :: _, 0x3a :: rest =>
    if isAlpha first then
      some ((ref.takeWhile isSchemeChar).map fun b => if 0x41 ≤ b && b ≤ 0x5a then b + 0x20 else b,
        rest)
    else none
  | _, _ => none

def webScheme? (name : Bytes) : Option WebScheme :=
  if name = ascii "http" then some .http
  else if name = ascii "https" then some .https
  else none

/-- The text of an authority: all slashes before it are skipped. -/
def authorityText (ref : Bytes) : Bytes :=
  (ref.dropWhile isSlash).takeWhile fun b => !isSlash b && b != 0x3f && b != 0x23

section

-- the host parser: what an authority comes to under a scheme
variable (parseAuthority : WebScheme → Bytes → Option Origin)

/-- A reference without a scheme: two slashes start an authority, everything else stays at the
base's. -/
def resolveRelative (base : Origin) (ref : Bytes) : Option Origin :=
  match ref with
  | a :: b :: rest =>
    if isSlash a && isSlash b then parseAuthority base.scheme (authorityText rest) else some base
  | _ => some base

/-- Scheme, host and port of a reference that is resolved against a base; `none` if it does not parse,
or leads away from the web. -/
def resolveOrigin (base : Origin) (ref : Bytes) : Option Origin :=
  let ref := preprocess ref
  match schemeOf? ref with
  | none => resolveRelative parseAuthority base ref
  | some (name, rest) =>
    match webScheme? name with
    | none => none
    | some scheme =>
      -- the base's own scheme without two slashes is a relative reference
      if scheme = base.scheme ∧ !(List.isPrefixOf [slash, slash] rest) then
        resolveRelative parseAuthority base rest
      else parseAuthority scheme (authorityText rest)

end

/-- Preprocessing only takes spaces from the end of a clean path. -/
theorem Clean.preprocess_eq {p : Bytes} (h : Clean p) :
    ∃ rest, preprocess p = slash :: rest ∧ rest <+: p.tail := by
  obtain ⟨t, rfl⟩ : ∃ t, p = slash :: t := List.head?_eq_some_iff.mp h.head
  have hstart : (slash :: t).dropWhile isControlOrSpace = slash :: t := rfl
  set stripped := ((slash :: t).reverse.dropWhile isControlOrSpace).reverse with hstripped
  have hfront : stripped <+: slash :: t := by
    rw [hstripped, ← List.reverse_suffix, List.reverse_reverse]
    exact List.dropWhile_suffix _
  -- the slash in front is not a control character, so something is left
  have hne : stripped ≠ [] := by
    intro hnil
    rw [hstripped, List.reverse_eq_nil_iff, List.dropWhile_eq_nil_iff] at hnil
    exact absurd (hnil slash (by simp)) (by decide)
  have hkeep : stripped.filter (fun b => !isTabOrNewline b) = stripped := by
    rw [List.filter_eq_self]
    intro b hb
    have hlow := (h.no_control b (hfront.mem hb)).1
    have hnot : ∀ c : UInt8, c < 0x20 → b ≠ c := by
      rintro c hc rfl
      exact absurd hc (UInt8.not_lt.mpr hlow)
    simp [isTabOrNewline, hnot 0x09 (by decide), hnot 0x0a (by decide), hnot 0x0d (by decide)]
  have hpre : preprocess (slash :: t) = stripped := by
    rw [preprocess, hstart]
    exact hkeep
  obtain ⟨b, rest, hcons⟩ := List.exists_cons_of_ne_nil hne
  rw [hcons, List.cons_prefix_cons] at hfront
  exact ⟨rest, by rw [hpre, hcons, hfront.1], hfront.2⟩

/-- A clean path stays at the base's scheme, host and port. -/
theorem Clean.resolveOrigin_eq {p : Bytes} (h : Clean p)
    (parseAuthority : WebScheme → Bytes → Option Origin) (base : Origin) :
    resolveOrigin parseAuthority base p = some base := by
  obtain ⟨rest, hpre, hfront⟩ := h.preprocess_eq
  have hscheme : schemeOf? (slash :: rest) = none := rfl
  rw [resolveOrigin, hpre, hscheme]
  simp only
  cases rest with
  | nil => rfl
  | cons b rest =>
    obtain ⟨more, hmore⟩ := hfront
    -- the byte behind the slash starts no authority
    have hb : isSlash b = false := by
      have hslash : b ≠ slash := by
        rintro rfl
        exact h.second (by rw [← hmore]; rfl)
      have hbackslash : b ≠ backslash := by
        rintro rfl
        refine h.no_backslash (List.mem_of_mem_tail ?_)
        rw [← hmore]
        exact List.mem_append_left _ List.mem_cons_self
      simp [isSlash, hslash, hbackslash]
    simp [resolveRelative, hb]

/-- A sanitised return path cannot leave the origin: it is the given path or `/`, has nothing in it
that a browser reads as more than a path, and is sanitised already. -/
theorem sanitizeReturnTo_stays (parse : Bytes → Option ParsedURL)
    (hroot : isLocal parse rootPath = true) (p : Bytes) :
    (∀ (parseAuthority : WebScheme → Bytes → Option Origin) (base : Origin),
        resolveOrigin parseAuthority base (sanitizeReturnTo parse p) = some base) ∧
      Clean (sanitizeReturnTo parse p) ∧
      sanitizeReturnTo parse (sanitizeReturnTo parse p) = sanitizeReturnTo parse p ∧
      (sanitizeReturnTo parse p = p ∨ sanitizeReturnTo parse p = rootPath) := by
  rcases sanitizeReturnTo_cases parse p with heq | ⟨heq, hclean⟩
  · rw [heq, sanitizeReturnTo_rootPath hroot]
    exact ⟨clean_rootPath.resolveOrigin_eq, clean_rootPath, rfl, .inr rfl⟩
  · rw [heq, heq]
    exact ⟨hclean.resolveOrigin_eq, hclean, rfl, .inl rfl⟩

/-- A path with a query, and one that a browser would take for a host. -/
theorem sanitizeReturnTo_stays_examples :
    let parse : Bytes → Option ParsedURL := fun _ => some ⟨[], []⟩
    let base : Origin := ⟨.https, ascii "app.example", none⟩
    isLocal parse rootPath = true ∧
      sanitizeReturnTo parse (ascii "/list?page=2") = ascii "/list?page=2" ∧
      sanitizeReturnTo parse (ascii "/\t/evil.example") = rootPath ∧
      resolveOrigin (fun scheme host => some ⟨scheme, host, none⟩) base (ascii "/\t/evil.example") ≠
        some base ∧
      resolveOrigin (fun scheme host => some ⟨scheme, host, none⟩) base
        (sanitizeReturnTo parse (ascii "/\t/evil.example")) = some base :=
  ⟨rfl, by decide +kernel, by decide +kernel, by decide +kernel,
    (sanitizeReturnTo_stays _ rfl _).1 _ _⟩

end Bff
