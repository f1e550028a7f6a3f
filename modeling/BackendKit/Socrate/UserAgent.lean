import BackendKit.GoStd.Http
import BackendKit.GoStd.Utf8

/-!
# Client attribution

`ApplyClientAttribution` (`socrate/attribution.go`) tells Socrate which browser a request is made for: the
address in `X-Forwarded-For`, and the browser's own `User-Agent`, which may be any bytes, after
`sanitizeUserAgent`.

The text that is sent is described by characters (`SafeToSend`), the code works on bytes.
`sanitizeUserAgent_eq` connects the two: the loop writes the longest beginning that fits of the characters
that are no control characters (`Truncation`), and this is then trimmed. The rest follows from it, that a
text which may be sent is left alone included (`SafeToSend.sanitizeUserAgent_encode`).
-/

open GoStd Utf8

namespace Socrate

/-- How many bytes of a `User-Agent` are sent. -/
def maxAttributedUserAgentBytes : ℕ := 512

/-- The loop of `sanitizeUserAgent`, with what the builder has. -/
def writeRunes (b : Bytes) : List ℕ → Bytes
  | [] => b
  | r :: rs =>
    if isControl r then writeRunes b rs
    else if b.length + runeLen r > maxAttributedUserAgentBytes then b
    else writeRunes (b ++ encodeRune r) rs

/-- Drop what is not valid UTF-8 and what is a control character, and cut the rest at the limit. -/
def sanitizeUserAgent (ua : Bytes) : Bytes :=
  Utf8.trimSpace (writeRunes [] (runes (toValidUTF8 ua [])))

/-! ### The browser in a request -/

/-- The browser on whose behalf a request is made. -/
structure ClientAttribution where
  ip : Bytes
  userAgent : Bytes

/-- The fields of a request that is to be sent, by their canonical names. -/
abbrev Fields := String → List Bytes

/-- `Header.Set`. -/
def Fields.set (fields : Fields) (key : String) (value : Bytes) : Fields :=
  Function.update fields (canonicalKey key) [value]

/-- `Header.Del`. -/
def Fields.del (fields : Fields) (key : String) : Fields :=
  Function.update fields (canonicalKey key) []

/-- `ApplyClientAttribution`, on the fields of a request and the attribution in its context; `parseIP` and
`ipString` are `net.ParseIP` and `IP.String`. -/
def applyClientAttribution (parseIP : Bytes → Option Bytes) (ipString : Bytes → Bytes)
    (attribution : Option ClientAttribution) (fields : Fields) : Fields :=
  match attribution with
  | none => fields
  | some a =>
    let fields :=
      match parseIP (Utf8.trimSpace a.ip) with
      -- set and not added to: Socrate goes by the leftmost entry
      | some ip => (fields.set "X-Forwarded-For" (ipString ip)).del "X-Real-IP"
      | none => fields
    let ua := sanitizeUserAgent a.userAgent
    if ua = [] then fields else fields.set "User-Agent" ua

/-! ### What is written -/

/-- The characters that are no control characters. -/
def printable (cs : List Char) : List Char := cs.filter fun c => !isControl c.toNat

theorem printable_eq_self {cs : List Char} (h : ∀ c ∈ cs, isControl c.toNat = false) :
    printable cs = cs :=
  List.filter_eq_self.mpr fun c hc => by rw [h c hc]; rfl

/-- The loop goes on with what fits after `before`. -/
theorem writeRunes_encode (before cs : List Char)
    (hbefore : (encode before).length ≤ maxAttributedUserAgentBytes) :
    ∃ text, writeRunes (encode before) (cs.map Char.toNat) = encode (before ++ text) ∧
      text <+: printable cs ∧ (encode (before ++ text)).length ≤ maxAttributedUserAgentBytes ∧
      ∀ text', text' <+: printable cs →
        (encode (before ++ text')).length ≤ maxAttributedUserAgentBytes → text' <+: text := by
  induction cs generalizing before with
  | nil =>
    refine ⟨[], by simp [writeRunes], List.nil_prefix, by simpa using hbefore, fun text' h _ => ?_⟩
    exact h
  | cons c cs ih =>
    by_cases hcontrol : isControl c.toNat = true
    · -- a control character is passed over
      have hskip : printable (c :: cs) = printable cs := List.filter_cons_of_neg (by simp [hcontrol])
      rw [List.map_cons, writeRunes, if_pos hcontrol, hskip]
      exact ih before hbefore
    · have hkeep : printable (c :: cs) = c :: printable cs := List.filter_cons_of_pos (by simp [hcontrol])
      rw [List.map_cons, writeRunes, if_neg hcontrol, runeLen_toNat, encodeRune_toNat, hkeep]
      by_cases hfull : ((encode before).length : ℤ) + (String.utf8EncodeChar c).length >
          maxAttributedUserAgentBytes
      · -- the first character that does not fit ends the loop
        refine ⟨[], by rw [if_pos hfull, List.append_nil], List.nil_prefix, by simpa using hbefore, ?_⟩
        intro text' hbegins hfits
        rcases text' with _ | ⟨c', text'⟩
        · exact List.nil_prefix
        · obtain ⟨rfl, -⟩ := List.cons_prefix_cons.mp hbegins
          simp only [encode_append, encode_cons, List.length_append] at hfits
          omega
      · have hnext : encode before ++ String.utf8EncodeChar c = encode (before ++ [c]) := by simp
        have hroom : (encode (before ++ [c])).length ≤ maxAttributedUserAgentBytes := by
          rw [← hnext, List.length_append]
          omega
        obtain ⟨text, hwrite, hbegins, hfits, hlongest⟩ := ih (before ++ [c]) hroom
        have hassoc : ∀ text, before ++ [c] ++ text = before ++ c :: text := fun text => by simp
        simp only [hassoc] at hwrite hfits hlongest
        refine ⟨c :: text, ?_, List.cons_prefix_cons.mpr ⟨rfl, hbegins⟩, hfits, ?_⟩
        · rw [if_neg hfull, hnext, hwrite]
        · intro text' hbegins' hfits'
          rcases text' with _ | ⟨c', text'⟩
          · exact List.nil_prefix
          · obtain ⟨rfl, hrest⟩ := List.cons_prefix_cons.mp hbegins'
            exact List.cons_prefix_cons.mpr ⟨rfl, hlongest text' hrest hfits'⟩

theorem sanitizeUserAgent_eq {ua : Bytes} {cs : List Char} (h : CharsOf ua cs) :
    ∃ text, Truncation maxAttributedUserAgentBytes (printable cs) text ∧
      sanitizeUserAgent ua = encode (trim text) := by
  obtain ⟨text, hwrite, hbegins, hfits, hlongest⟩ := writeRunes_encode [] cs (Nat.zero_le _)
  refine ⟨text, ⟨hbegins, hfits, hlongest⟩, ?_⟩
  rw [sanitizeUserAgent, toValidUTF8_eq h, runes_encode, ← trimSpace_encode]
  exact congrArg Utf8.trimSpace hwrite

/-! ### What is sent -/

/-- A text that may be sent as a `User-Agent`. -/
structure SafeToSend (text : List Char) : Prop where
  length_le : (encode text).length ≤ maxAttributedUserAgentBytes
  printable : ∀ c ∈ text, isControl c.toNat = false
  trimmed : Trimmed text

/-- Trimming takes nothing from the middle of a text, so it makes it no longer and adds no character. -/
theorem SafeToSend.of_truncation {cs text : List Char}
    (h : Truncation maxAttributedUserAgentBytes (Socrate.printable cs) text) : SafeToSend (trim text) where
  length_le := by
    obtain ⟨before, after, heq⟩ := trim_isInfix text
    have hfits := h.fits
    rw [← heq, encode_append, encode_append, List.length_append, List.length_append] at hfits
    omega
  printable c hc := by
    have hmem : c ∈ Socrate.printable cs := h.begins.subset ((trim_isInfix text).subset hc)
    simpa using (List.mem_filter.mp hmem).2
  trimmed := trimmed_trim text

/-- What may be sent is sent as it is. -/
theorem SafeToSend.sanitizeUserAgent_encode {text : List Char} (h : SafeToSend text) :
    sanitizeUserAgent (encode text) = encode text := by
  obtain ⟨text', htrunc, hsanitize⟩ := sanitizeUserAgent_eq (charsOf_encode text)
  rw [printable_eq_self h.printable] at htrunc
  rw [hsanitize, htrunc.eq_self h.length_le, trim_eq_self h.trimmed]

/-- Only a text that is not empty replaces the `User-Agent` of the request. -/
theorem applyClientAttribution_userAgent (parseIP : Bytes → Option Bytes) (ipString : Bytes → Bytes)
    (a : ClientAttribution) (fields : Fields) :
    applyClientAttribution parseIP ipString (some a) fields "User-Agent" =
      if sanitizeUserAgent a.userAgent = [] then fields "User-Agent"
      else [sanitizeUserAgent a.userAgent] := by
  have hagent : canonicalKey "User-Agent" = "User-Agent" := by decide +kernel
  have hforwarded : "User-Agent" ≠ canonicalKey "X-Forwarded-For" := by decide +kernel
  have hreal : "User-Agent" ≠ canonicalKey "X-Real-IP" := by decide +kernel
  simp only [applyClientAttribution]
  split
  · cases parseIP (Utf8.trimSpace a.ip) with
    | none => rfl
    | some ip =>
      simp only [Fields.set, Fields.del, Function.update_of_ne hreal, Function.update_of_ne hforwarded]
  · rw [Fields.set, hagent, Function.update_self]

/-- The `User-Agent` that is sent, for a browser's `User-Agent` of any bytes: what is sent may be sent, and
is a beginning, but for the white space at its ends, of the characters of the browser's that are no control
characters; it is sanitised to itself, and so is every text that may be sent. -/
theorem userAgent_safeToSend (parseIP : Bytes → Option Bytes) (ipString : Bytes → Bytes)
    (ua : Bytes) :
    (∃! cs, CharsOf ua cs) ∧
      (∀ cs, CharsOf ua cs →
        ∃ text, Truncation maxAttributedUserAgentBytes (printable cs) text ∧
          sanitizeUserAgent ua = encode (trim text) ∧ SafeToSend (trim text)) ∧
      sanitizeUserAgent (sanitizeUserAgent ua) = sanitizeUserAgent ua ∧
      (∀ text, ua = encode text → SafeToSend text → sanitizeUserAgent ua = ua) ∧
      ∀ ip fields, applyClientAttribution parseIP ipString (some ⟨ip, ua⟩) fields "User-Agent" =
        if sanitizeUserAgent ua = [] then fields "User-Agent" else [sanitizeUserAgent ua] := by
  obtain ⟨cs, hcs⟩ := exists_charsOf ua
  obtain ⟨text, htrunc, hsanitize⟩ := sanitizeUserAgent_eq hcs
  refine ⟨⟨cs, hcs, fun cs' hcs' => hcs'.unique hcs⟩, ?_, ?_, ?_, ?_⟩
  -- what comes out may be sent, and so the second time is a case of the fourth part
  · intro cs' hcs'
    obtain ⟨text', htrunc', hsanitize'⟩ := sanitizeUserAgent_eq hcs'
    exact ⟨text', htrunc', hsanitize', .of_truncation htrunc'⟩
  · rw [hsanitize]
    exact (SafeToSend.of_truncation htrunc).sanitizeUserAgent_encode
  · rintro text' rfl hsafe
    exact hsafe.sanitizeUserAgent_encode
  · intro ip fields
    exact applyClientAttribution_userAgent parseIP ipString ⟨ip, ua⟩ fields

/-- A `User-Agent` with a letter of two bytes. -/
def browser : List Char := ['F', 'e', 'n', 'n', 'e', 'c', '/', '6', ' ', '(', 'ü', ')']

theorem safeToSend_browser : SafeToSend browser where
  length_le := by decide
  printable := by simp [browser, isControl]
  trimmed := by simp [browser, Trimmed, isSpace, isSpaceRune]

theorem userAgent_browser :
    sanitizeUserAgent (encode browser) = encode browser ∧
      applyClientAttribution (fun _ => none) id (some ⟨[], encode browser⟩) (fun _ => []) "User-Agent" =
        [encode browser] := by
  obtain ⟨-, -, -, hsame, happly⟩ := userAgent_safeToSend (fun _ => none) id (encode browser)
  have hsame := hsame browser rfl safeToSend_browser
  refine ⟨hsame, ?_⟩
  rw [happly, hsame, if_neg (by decide)]

-- A line break, a byte that is not valid, and the second half of a character are dropped.
example : sanitizeUserAgent ([0x20, 0x61, 0x0d, 0x0a, 0xff, 0xc3, 0xa9, 0x62, 0xa9, 0x20]) =
    [0x61, 0xc3, 0xa9, 0x62] := by decide +kernel

end Socrate
