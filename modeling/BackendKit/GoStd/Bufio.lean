import Mathlib.Algebra.GroupWithZero.Nat
import Mathlib.Data.List.Basic

/-!
# Scanning lines

`bufio.Scanner` with `bufio.ScanLines`, on a text that has arrived completely: how it was cut into
packets makes no difference to the scanner. Lines end at line feeds; a carriage return before a line feed
belongs to the line end. What follows the last line feed is a line of its own, if there is anything.

Texts are characters here. The scanner works on bytes, but all that it looks for is ASCII; only its limit
is one on bytes.
-/

namespace GoStd

/-- The size of a text in UTF-8. -/
def byteLength (cs : List Char) : ℕ := (cs.map Char.utf8Size).sum

/-- `dropCR`. -/
def dropCR (line : List Char) : List Char :=
  if line.getLast? = some '\r' then line.dropLast else line

/-- The lines of a text, without their line feeds. -/
def rawLines (text : List Char) : List (List Char) :=
  let pieces := text.splitOn '\n'
  if pieces.getLast? = some [] then pieces.dropLast else pieces

/-- Why a scanner has stopped, if not at the end. -/
inductive ScanError (ε : Type) where
  | tooLong
  | read (err : ε)
  deriving DecidableEq, Repr

/-- The tokens of a scanner, and `Scanner.Err` after the last one. -/
structure Scanned (ε : Type) where
  tokens : List (List Char)
  err : Option (ScanError ε)

/-- A line that does not fit into the buffer, together with its line feed, ends the scan. -/
def scanRaw {ε : Type} (maxTokenSize : ℕ) (failure : Option ε) : List (List Char) → Scanned ε
  | [] => ⟨[], failure.map .read⟩
  | line :: lines =>
    if maxTokenSize ≤ byteLength line then ⟨[], some .tooLong⟩
    else
      let scanned := scanRaw maxTokenSize failure lines
      ⟨dropCR line :: scanned.tokens, scanned.err⟩

/-- A scanner with a buffer of a given size. The text ends with `io.EOF` or with another error. -/
def scanLines {ε : Type} (maxTokenSize : ℕ) (text : List Char) (failure : Option ε) : Scanned ε :=
  scanRaw maxTokenSize failure (rawLines text)

theorem scanRaw_of_lt {ε : Type} {maxTokenSize : ℕ} {lines : List (List Char)} (failure : Option ε)
    (h : ∀ line ∈ lines, byteLength line < maxTokenSize) :
    scanRaw maxTokenSize failure lines = ⟨lines.map dropCR, failure.map .read⟩ := by
  induction lines with
  | nil => rfl
  | cons line lines ih =>
    obtain ⟨hline, hlines⟩ := List.forall_mem_cons.mp h
    rw [scanRaw, if_neg (Nat.not_le.mpr hline), ih hlines, List.map_cons]

/-- All but the last piece of a text are lines, and the last one if it is not empty. -/
theorem rawLines_eq (text : List Char) : ∃ lines last, text.splitOn '\n' = lines ++ [last] ∧
    rawLines text = lines ++ if last = [] then [] else [last] := by
  obtain hnil | ⟨lines, last, hpieces⟩ := List.eq_nil_or_concat' (text.splitOn '\n')
  · exact absurd hnil (List.splitOnP_ne_nil _ _)
  · refine ⟨lines, last, hpieces, ?_⟩
    unfold rawLines
    rw [hpieces]
    by_cases hlast : last = []
    · simp [hlast]
    · simp [hlast]

/-- Lines that fit into the buffer are all scanned. -/
theorem scanLines_of_lt {ε : Type} {maxTokenSize : ℕ} {text : List Char} (failure : Option ε)
    (h : ∀ line ∈ text.splitOn '\n', byteLength line < maxTokenSize) :
    scanLines maxTokenSize text failure = ⟨(rawLines text).map dropCR, failure.map .read⟩ := by
  obtain ⟨lines, last, hpieces, hlines⟩ := rawLines_eq text
  refine scanRaw_of_lt failure fun line hline => h line ?_
  rw [hlines] at hline
  rw [hpieces]
  split at hline
  · exact List.mem_append_left _ (by simpa using hline)
  · exact hline

/-- A carriage return takes one byte. -/
theorem byteLength_le_dropCR (line : List Char) : byteLength line ≤ byteLength (dropCR line) + 1 := by
  unfold dropCR
  split
  next hlast =>
    obtain ⟨front, rfl⟩ := List.getLast?_eq_some_iff.mp hlast
    rw [List.dropLast_concat]
    simp [byteLength, Char.utf8Size]
  · exact Nat.le_succ _

end GoStd
