import BackendKit.GoStd.JsonText

/-!
# The language of a text

`ValidateText` (`ailang/validator.go`): does a text look as if it were written in a locale? The words
of the text are compared with the most frequent words of French and English. Of a JSON document only
the string values are looked at.

Which characters are letters, and what their lower case is, are parameters (`Unicode`). The strings of
a document are collected in the order in which the loops visit its maps, and the verdict does not
depend on it (`validateText_ranges`).
-/

open GoStd

namespace AiLang

/-- `unicode.IsLetter` and `unicode.ToLower`. -/
structure Unicode where
  isLetter : Char → Bool
  toLower : Char → Char
  /-- White space is neither a letter nor the capital form of one. -/
  isLetter_space : ∀ c, isSpace c = true → isLetter (toLower c) = false

theorem isAlpha_toLower_of_isSpace {c : Char} (h : isSpace c = true) :
    c.toLower.isAlpha = false := by
  have hcode : c.toNat < 65 ∨ 122 < c.toNat := by
    simp [isSpace, isSpaceRune] at h
    omega
  have hlower : c.toLower = c := by
    unfold Char.toLower
    rw [dif_neg]
    rintro ⟨hle, hge⟩
    simp [UInt32.le_iff_toNat_le] at hle hge
    omega
  have halpha : c.isAlpha =
      (decide (65 ≤ c.val ∧ c.val ≤ 90) || decide (97 ≤ c.val) && decide (c.val ≤ 122)) := rfl
  rw [hlower, halpha]
  simp [UInt32.le_iff_toNat_le]
  omega

/-- The two functions on ASCII text. -/
def Unicode.ascii : Unicode where
  isLetter := Char.isAlpha
  toLower := Char.toLower
  isLetter_space _ h := isAlpha_toLower_of_isSpace h

/-! ### Stopwords -/

/-- French function words. -/
def frStopwords : List String :=
  ["le", "la", "les", "un", "une", "des",
    "du", "au", "aux",
    "de", "en", "dans", "sur", "avec", "pour",
    "par", "vers", "sans", "sous",
    "et", "ou", "mais", "donc", "car", "ni",
    "que", "qui", "dont", "quand", "comme",
    "je", "tu", "il", "elle", "nous", "vous",
    "ils", "elles", "se", "ce", "cela", "on",
    "ne", "pas", "plus", "très", "bien", "aussi",
    "est", "sont", "était", "avoir", "être",
    "cette", "ces", "son", "sa", "ses",
    "leur", "leurs", "mon", "ma", "mes",
    "ton", "ta", "tes"]

/-- English function words. -/
def enStopwords : List String :=
  ["the", "a", "an",
    "in", "on", "at", "to", "for", "of",
    "with", "by", "from", "into", "about",
    "and", "or", "but", "if", "than", "though",
    "that", "which", "when", "while",
    "it", "its", "they", "them", "their",
    "we", "our", "you", "your",
    "he", "she", "his", "her", "this", "these",
    "is", "are", "was", "were", "be", "been",
    "being", "have", "has", "had", "do", "does",
    "did", "will", "would", "could", "should",
    "may", "might", "shall", "can",
    "not", "also", "very", "just", "as"]

/-- Fewer words than this are too few to judge. -/
def minTokensForCheck : ℕ := 5

/-- The loop of `tokenize`, with the letters since the last word in reverse. -/
def words (isLetter : Char → Bool) (buf : List Char) : List Char → List (List Char)
  | [] => if buf = [] then [] else [buf.reverse]
  | c :: cs =>
    if isLetter c then words isLetter (c :: buf) cs
    else if buf = [] then words isLetter [] cs
    else buf.reverse :: words isLetter [] cs

/-- The words of a text, in lower case. -/
def tokenize (u : Unicode) (text : String) : List String :=
  (words u.isLetter [] (text.toList.map u.toLower)).map String.ofList

/-- How many of the words are French stopwords, and how many are English ones. -/
def countStopwords (words : List String) : ℕ × ℕ :=
  (words.countP frStopwords.contains, words.countP enStopwords.contains)

def dominanceThreshold : ℚ := Float64.round (60 / 100)

/-- Does the share of a language reach the threshold? Counts and quotient are `float64`s. -/
def dominates (score total : ℕ) : Bool :=
  dominanceThreshold ≤ Float64.round (Float64.round score / Float64.round total)

/-- The verdict on the words of a text. -/
def isCorrectWords (words : List String) (locale : String) : Bool :=
  if words.length < minTokensForCheck then true
  else
    let (frScore, enScore) := countStopwords words
    let total := frScore + enScore
    if total = 0 then true
    else if locale = "fr" then dominates frScore total
    else dominates enScore total

/-- Whether a text appears to be written in a locale; locales other than `fr` and `en` pass. -/
def isCorrectLanguage (u : Unicode) (text locale : String) : Bool :=
  if text = "" then false
  else if locale ≠ "fr" ∧ locale ≠ "en" then true
  else isCorrectWords (tokenize u text) locale

/-! ### JSON documents -/

/-- An object or an array. -/
def looksLikeJSON (s : String) : Bool :=
  match (trimSpace s).toList with
  | '\x7b' :: _ :: _ | '[' :: _ :: _ => JsonText.valid (trimSpace s)
  | _ => false

mutual

/-- The string values, each with a space after it. -/
def gatherStrings : Any → List Char
  | .string s => s.toList ++ [' ']
  | .slice elements => gatherElements elements
  | .map entries => gatherEntries entries
  | _ => []

def gatherElements : List Any → List Char
  | [] => []
  | v :: vs => gatherStrings v ++ gatherElements vs

def gatherEntries : List (String × Any) → List Char
  | [] => []
  | (_, v) :: entries => gatherStrings v ++ gatherEntries entries

end

/-- All string values of a document, or nothing if it cannot be decoded. -/
def collectJSONStrings (ranges : Any.Ranges) (raw : String) : String :=
  match (JsonText.parse raw).bind (Any.ofJson false) with
  | none => ""
  | some v => trimSpace (String.ofList (gatherStrings (v.shuffle ranges [])))

/-- Validate the language of a text, or of the strings of a JSON document. -/
def validateText (u : Unicode) (ranges : Any.Ranges) (text locale : String) : Bool :=
  let text := trimSpace text
  if text = "" then false
  else if looksLikeJSON text then
    let corpus := collectJSONStrings ranges text
    if corpus = "" then true else isCorrectLanguage u corpus locale
  else isCorrectLanguage u text locale

/-! ### Words of several strings -/

variable {isLetter : Char → Bool}

/-- A character that is not a letter ends a word. -/
theorem words_append {c : Char} (hc : isLetter c = false) (buf xs ys : List Char) :
    words isLetter buf (xs ++ c :: ys) = words isLetter buf xs ++ words isLetter [] ys := by
  induction xs generalizing buf with
  | nil =>
    rw [List.nil_append, words, words, if_neg (by simp [hc])]
    split <;> rfl
  | cons x xs ih =>
    rw [List.cons_append, words, words]
    split
    · exact ih (x :: buf)
    split
    · exact ih []
    · rw [ih [], List.cons_append]

/-- Characters that are not letters are not words. -/
theorem words_eq_nil {xs : List Char} (h : ∀ c ∈ xs, isLetter c = false) :
    words isLetter [] xs = [] := by
  induction xs with
  | nil => rfl
  | cons x xs ih =>
    rw [List.forall_mem_cons] at h
    rw [words, if_neg (by simp [h.1]), if_pos rfl, ih h.2]

/-- White space at the end makes no difference. -/
theorem words_append_blank (buf xs : List Char) {ws : List Char} (h : ∀ c ∈ ws, isLetter c = false)
    : words isLetter buf (xs ++ ws) = words isLetter buf xs := by
  cases ws with
  | nil => rw [List.append_nil]
  | cons w ws =>
    rw [List.forall_mem_cons] at h
    rw [words_append h.1, words_eq_nil h.2, List.append_nil]

/-- White space in front makes no difference. -/
theorem words_blank_append {ws : List Char} (xs : List Char) (h : ∀ c ∈ ws, isLetter c = false) :
    words isLetter [] (ws ++ xs) = words isLetter [] xs := by
  induction ws with
  | nil => rfl
  | cons w ws ih =>
    rw [List.forall_mem_cons] at h
    rw [List.cons_append, words, if_neg (by simp [h.1]), if_pos rfl, ih h.2]

theorem tokenize_trimSpace (u : Unicode) (s : String) : tokenize u (trimSpace s) = tokenize u s := by
  obtain ⟨front, back, hs, hfront, hback⟩ := exists_trimSpace s
  have hblank : ∀ ws : List Char, (∀ c ∈ ws, isSpace c = true) →
      ∀ c ∈ ws.map u.toLower, u.isLetter c = false := by
    intro ws hws c hc
    obtain ⟨d, hd, rfl⟩ := List.mem_map.mp hc
    exact u.isLetter_space d (hws d hd)
  rw [tokenize, tokenize, hs, List.map_append, List.map_append,
    words_append_blank _ _ (hblank back hback), words_blank_append _ (hblank front hfront)]

mutual

/-- The string values of a value. -/
def leaves : Any → List String
  | .string s => [s]
  | .slice elements => leavesElements elements
  | .map entries => leavesEntries entries
  | _ => []

def leavesElements : List Any → List String
  | [] => []
  | v :: vs => leaves v ++ leavesElements vs

def leavesEntries : List (String × Any) → List String
  | [] => []
  | (_, v) :: entries => leaves v ++ leavesEntries entries

end

/-- Strings, each with a space after it. -/
def spaced (strings : List String) : List Char := strings.flatMap fun s => s.toList ++ [' ']

theorem spaced_append (strings strings' : List String) :
    spaced (strings ++ strings') = spaced strings ++ spaced strings' :=
  List.flatMap_append

mutual

theorem gatherStrings_eq (v : Any) : gatherStrings v = spaced (leaves v) := by
  cases v with
  | string s => simp [gatherStrings, leaves, spaced]
  | slice elements => exact gatherElements_eq elements
  | map entries => exact gatherEntries_eq entries
  | _ => rfl

theorem gatherElements_eq (vs : List Any) : gatherElements vs = spaced (leavesElements vs) := by
  cases vs with
  | nil => rfl
  | cons v vs =>
    rw [gatherElements, leavesElements, spaced_append, gatherStrings_eq v, gatherElements_eq vs]

theorem gatherEntries_eq (entries : List (String × Any)) :
    gatherEntries entries = spaced (leavesEntries entries) := by
  cases entries with
  | nil => rfl
  | cons e entries =>
    rw [gatherEntries, leavesEntries, spaced_append, gatherStrings_eq e.2, gatherEntries_eq entries]

end

/-- The words of several strings are those of each: a space keeps them apart. -/
theorem words_spaced (u : Unicode) (strings : List String) :
    words u.isLetter [] ((spaced strings).map u.toLower) =
      strings.flatMap fun s => words u.isLetter [] (s.toList.map u.toLower) := by
  have hspace : u.isLetter (u.toLower ' ') = false := u.isLetter_space ' ' (by decide)
  induction strings with
  | nil => rfl
  | cons s strings ih =>
    have hcons : (spaced (s :: strings)).map u.toLower =
        s.toList.map u.toLower ++ u.toLower ' ' :: (spaced strings).map u.toLower := by
      simp [spaced]
    rw [hcons, words_append hspace, ih, List.flatMap_cons]

/-! ### The order of the loops makes no difference -/

theorem perm_leavesEntries {entries entries' : List (String × Any)} (h : entries.Perm entries') :
    (leavesEntries entries).Perm (leavesEntries entries') := by
  have hflat : ∀ es : List (String × Any), leavesEntries es = es.flatMap fun e => leaves e.2 := by
    intro es
    induction es with
    | nil => rfl
    | cons e es ih => rw [leavesEntries, ih, List.flatMap_cons]
  rw [hflat, hflat]
  exact h.flatMap_right _

mutual

theorem perm_leaves_shuffle (ranges : Any.Ranges) (path : List ℕ) (v : Any) :
    (leaves (v.shuffle ranges path)).Perm (leaves v) := by
  cases v with
  | slice elements => exact perm_leaves_shuffleElements ranges path 0 elements
  | map entries =>
    exact (perm_leavesEntries (ranges.perm path _)).trans
      (perm_leaves_shuffleEntries ranges path 0 entries)
  | _ => exact List.Perm.refl _

theorem perm_leaves_shuffleElements (ranges : Any.Ranges) (path : List ℕ) (i : ℕ) (vs : List Any) :
    (leavesElements (Any.shuffleElements ranges path i vs)).Perm (leavesElements vs) := by
  cases vs with
  | nil => exact List.Perm.refl _
  | cons v vs =>
    rw [Any.shuffleElements, leavesElements, leavesElements]
    exact (perm_leaves_shuffle ranges (i :: path) v).append
      (perm_leaves_shuffleElements ranges path (i + 1) vs)

theorem perm_leaves_shuffleEntries (ranges : Any.Ranges) (path : List ℕ) (i : ℕ)
    (entries : List (String × Any)) :
    (leavesEntries (Any.shuffleEntries ranges path i entries)).Perm (leavesEntries entries) := by
  cases entries with
  | nil => exact List.Perm.refl _
  | cons e entries =>
    rw [Any.shuffleEntries, leavesEntries, leavesEntries]
    exact (perm_leaves_shuffle ranges (i :: path) e.2).append
      (perm_leaves_shuffleEntries ranges path (i + 1) entries)

end

/-- Only the number of words and of stopwords counts. -/
theorem isCorrectWords_perm {words words' : List String} (h : words.Perm words') (locale : String) :
    isCorrectWords words locale = isCorrectWords words' locale := by
  unfold isCorrectWords countStopwords
  rw [h.length_eq, h.countP_eq, h.countP_eq]

/-- The verdict on the strings of a document. -/
def judge (u : Unicode) (locale : String) (strings : List String) : Bool :=
  let corpus := trimSpace (String.ofList (spaced strings))
  if corpus = "" then true else isCorrectLanguage u corpus locale

/-- The words of several strings, trimmed or not, are those of each. -/
theorem tokenize_spaced (u : Unicode) (strings : List String) :
    tokenize u (trimSpace (String.ofList (spaced strings))) = strings.flatMap (tokenize u) := by
  rw [tokenize_trimSpace, tokenize, String.toList_ofList, words_spaced, List.map_flatMap]
  rfl

/-- The verdict on several strings does not depend on their order. -/
theorem judge_perm (u : Unicode) {strings strings' : List String} (h : strings.Perm strings')
    (locale : String) : judge u locale strings = judge u locale strings' := by
  have hchars : (spaced strings).Perm (spaced strings') := h.flatMap_right _
  have hblank : trimSpace (String.ofList (spaced strings)) = "" ↔
      trimSpace (String.ofList (spaced strings')) = "" := by
    rw [trimSpace_eq_empty, trimSpace_eq_empty, String.toList_ofList, String.toList_ofList]
    exact ⟨fun hall c hc => hall c (hchars.mem_iff.mpr hc),
      fun hall c hc => hall c (hchars.mem_iff.mp hc)⟩
  unfold judge
  by_cases hempty : trimSpace (String.ofList (spaced strings)) = ""
  · rw [if_pos hempty, if_pos (hblank.mp hempty)]
  · have hempty' : trimSpace (String.ofList (spaced strings')) ≠ "" := fun h' => hempty (hblank.mpr h')
    have hwords : (tokenize u (trimSpace (String.ofList (spaced strings)))).Perm
        (tokenize u (trimSpace (String.ofList (spaced strings')))) := by
      rw [tokenize_spaced, tokenize_spaced]
      exact h.flatMap_right _
    unfold isCorrectLanguage
    rw [if_neg hempty, if_neg hempty', if_neg hempty, if_neg hempty', isCorrectWords_perm hwords]

/-- A document is judged by its strings; one that cannot be decoded passes. -/
theorem judge_collectJSONStrings (u : Unicode) (ranges : Any.Ranges) (raw locale : String) :
    (if collectJSONStrings ranges raw = "" then true
      else isCorrectLanguage u (collectJSONStrings ranges raw) locale) =
      ((JsonText.parse raw).bind (Any.ofJson false)).elim true fun v => judge u locale (leaves v) := by
  unfold collectJSONStrings
  generalize (JsonText.parse raw).bind (Any.ofJson false) = decoded
  cases decoded with
  | none => exact if_pos rfl
  | some v =>
    rw [Option.elim_some, ← judge_perm u (perm_leaves_shuffle ranges [] v), judge, ← gatherStrings_eq]

/-- The verdict does not depend on the order in which the loops visit the maps of a document. -/
theorem validateText_ranges (u : Unicode) (ranges ranges' : Any.Ranges) (text locale : String) :
    validateText u ranges text locale = validateText u ranges' text locale := by
  unfold validateText
  dsimp only
  rw [judge_collectJSONStrings, judge_collectJSONStrings]

end AiLang
