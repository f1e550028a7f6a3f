import Mathlib.Data.List.TakeWhile
import Mathlib.Data.Nat.Notation

/-!
# Words, white space and digits

The functions of Go's `strings` package that cut a string at white space or at a separator, and the
digits of numbers.
-/

namespace GoStd

/-- The value of decimal digits. -/
def digits? (ds : List Char) : Option ℕ :=
  if ds ≠ [] ∧ ds.all Char.isDigit then some (ds.foldl (fun n d => n * 10 + (d.toNat - 48)) 0)
  else none

/-- The value of a hexadecimal digit. -/
def hexDigit? (c : Char) : Option ℕ :=
  let n := c.toNat
  if 0x30 ≤ n ∧ n ≤ 0x39 then some (n - 0x30)
  else if 0x41 ≤ n ∧ n ≤ 0x46 then some (n - 0x37)
  else if 0x61 ≤ n ∧ n ≤ 0x66 then some (n - 0x57)
  else none

/-- A hexadecimal digit, in lower case. -/
def hexChar (n : ℕ) : Char := if n < 10 then Char.ofNat (0x30 + n) else Char.ofNat (0x57 + n)

/-- `unicode.IsSpace`. -/
def isSpaceRune (r : ℕ) : Bool :=
  (0x09 ≤ r && r ≤ 0x0d) || (0x2000 ≤ r && r ≤ 0x200a) ||
    [0x20, 0x85, 0xa0, 0x1680, 0x2028, 0x2029, 0x202f, 0x205f, 0x3000].contains r

/-- White space. -/
def isSpace (c : Char) : Bool := isSpaceRune c.toNat

/-- A text without the white space at either end. -/
def trim (cs : List Char) : List Char := ((cs.dropWhile isSpace).reverse.dropWhile isSpace).reverse

/-- `strings.TrimSpace`. -/
def trimSpace (s : String) : String := String.ofList (trim s.toList)

/-- `strings.Fields`: the words between white space. -/
def fields (s : String) : List String :=
  ((s.toList.splitOnP isSpace).filter (· ≠ [])).map String.ofList

/-- The two halves of `strings.SplitN(s, sep, 2)`, if `sep` occurs. -/
def cut (sep : Char) (s : String) : Option (String × String) :=
  match s.toList.dropWhile (· ≠ sep) with
  | [] => none
  | _ :: rest => some (String.ofList (s.toList.takeWhile (· ≠ sep)), String.ofList rest)

/-- The characters of some lines, each with its line break. -/
def linesChars (lines : List String) : List Char := lines.flatMap fun line => line.toList ++ ['\n']

/-- The halves of a text around the first occurrence of `sep` (`strings.Cut`). -/
def cutAround (sep : List Char) : List Char → Option (List Char × List Char)
  | [] => if sep = [] then some ([], []) else none
  | c :: cs =>
    if sep.isPrefixOf (c :: cs) then some ([], (c :: cs).drop sep.length)
    else (cutAround sep cs).map fun halves => (c :: halves.1, halves.2)

/-- Replace up to `n` occurrences. -/
def replaceChars (old new : List Char) : ℕ → List Char → List Char
  | 0, cs => cs
  | n + 1, cs =>
    match cutAround old cs with
    | none => cs
    | some (before, after) => before ++ (new ++ replaceChars old new n after)

/-- `strings.ReplaceAll`, for an `old` that is not empty: a text has at most as many occurrences of it
as characters. -/
def replaceAll (s old new : String) : String :=
  String.ofList (replaceChars old.toList new.toList s.toList.length s.toList)

theorem replaceChars_of_cutAround_eq_none {old cs : List Char} (h : cutAround old cs = none)
    (new : List Char) (n : ℕ) : replaceChars old new n cs = cs := by
  cases n with
  | zero => rfl
  | succ n => rw [replaceChars, h]

/-- Without an occurrence nothing is replaced. -/
theorem replaceAll_of_cutAround_eq_none {s old : String} (h : cutAround old.toList s.toList = none)
    (new : String) : replaceAll s old new = s := by
  rw [replaceAll, replaceChars_of_cutAround_eq_none h, String.ofList_toList]

/-- A single occurrence is replaced where it stands. -/
theorem replaceAll_once {s old : String} (hold : old ≠ "") {before after : List Char}
    (h : cutAround old.toList s.toList = some (before, after))
    (hafter : cutAround old.toList after = none) (new : String) :
    replaceAll s old new = String.ofList (before ++ (new.toList ++ after)) := by
  unfold replaceAll
  cases hs : s.toList with
  | nil =>
    have hne : old.toList ≠ [] := fun hnil => hold (String.toList_inj.mp hnil)
    rw [hs, cutAround, if_neg hne] at h
    cases h
  | cons c cs =>
    rw [hs] at h
    rw [List.length_cons, replaceChars, h]
    simp only
    rw [replaceChars_of_cutAround_eq_none hafter]

/-- Two cuts of a list, when the element after the second one is not before the first one. -/
theorem exists_append_of_not_mem {α : Type} {x : α} {before tail raw rest : List α}
    (h : before ++ tail = raw ++ x :: rest) (hx : x ∉ before) :
    ∃ raw', raw = before ++ raw' ∧ tail = raw' ++ x :: rest := by
  rcases List.append_eq_append_iff.mp h with ⟨raw', rfl, htail⟩ | ⟨tail', hbefore, htail⟩
  · exact ⟨raw', rfl, htail⟩
  · cases tail' with
    | nil => exact ⟨[], by simpa using hbefore.symm, by simpa using htail.symm⟩
    | cons y tail' =>
      obtain ⟨rfl, -⟩ := List.cons.inj htail
      exact absurd (hbefore ▸ List.mem_append_right _ (List.mem_cons_self ..)) hx

/-- The same from the other end. -/
theorem exists_append_of_not_mem_right {α : Type} {x : α} {init after raw rest : List α}
    (h : init ++ after = raw ++ x :: rest) (hx : x ∉ after) :
    ∃ rest', rest = rest' ++ after ∧ init = raw ++ x :: rest' := by
  have hreverse : after.reverse ++ init.reverse = rest.reverse ++ x :: raw.reverse := by
    rw [← List.reverse_append, h]
    simp
  obtain ⟨rest', hrest, hinit⟩ :=
    exists_append_of_not_mem hreverse fun hmem => hx (List.mem_reverse.mp hmem)
  refine ⟨rest'.reverse, ?_, ?_⟩
  · rw [← List.reverse_reverse rest, hrest]
    simp
  · rw [← List.reverse_reverse init, hinit]
    simp

/-- A cut is undone by writing the separator between the halves. -/
theorem cut_eq_some {sep : Char} {s before after : String} (h : cut sep s = some (before, after)) :
    s = before ++ String.singleton sep ++ after := by
  unfold cut at h
  split at h
  · cases h
  next c rest hdrop =>
    obtain ⟨rfl, rfl⟩ : String.ofList (s.toList.takeWhile (· ≠ sep)) = before ∧
        String.ofList rest = after := by simpa using h
    -- What `dropWhile` stops at is the separator.
    have hsep : c = sep := by
      have hhead := List.head?_dropWhile_not (· ≠ sep) s.toList
      rw [hdrop] at hhead
      simpa using hhead
    apply String.toList_inj.mp
    have hsplit := List.takeWhile_append_dropWhile (p := fun c => decide (c ≠ sep)) (l := s.toList)
    rw [hdrop, hsep] at hsplit
    simpa using hsplit.symm

/-- The first separator is where the cut is made. -/
theorem cut_append {sep : Char} {before after : String} (h : sep ∉ before.toList) :
    cut sep (before ++ String.singleton sep ++ after) = some (before, after) := by
  have hall : ∀ c ∈ before.toList, (decide (c ≠ sep)) = true := by
    intro c hc
    exact decide_eq_true fun heq => h (heq ▸ hc)
  have hlist : (before ++ String.singleton sep ++ after).toList =
      before.toList ++ sep :: after.toList := by simp
  unfold cut
  rw [hlist, List.dropWhile_append_of_pos hall, List.takeWhile_append_of_pos hall]
  simp

/-- What is trimmed off a string is white space. -/
theorem exists_trimSpace (s : String) :
    ∃ front back, s.toList = front ++ (trimSpace s).toList ++ back ∧
      (∀ c ∈ front, isSpace c = true) ∧ ∀ c ∈ back, isSpace c = true := by
  have hfront := List.takeWhile_append_dropWhile (p := isSpace) (l := s.toList)
  have hback := List.takeWhile_append_dropWhile (p := isSpace) (l := (s.toList.dropWhile isSpace).reverse)
  refine ⟨s.toList.takeWhile isSpace,
    ((s.toList.dropWhile isSpace).reverse.takeWhile isSpace).reverse, ?_,
    fun c hc => List.mem_takeWhile_imp hc,
    fun c hc => List.mem_takeWhile_imp (List.mem_reverse.mp hc)⟩
  rw [trimSpace, String.toList_ofList, trim, List.append_assoc, ← List.reverse_append, hback,
    List.reverse_reverse, hfront]

/-- A string is blank if trimming leaves nothing. -/
theorem trimSpace_eq_empty {s : String} : trimSpace s = "" ↔ ∀ c ∈ s.toList, isSpace c = true := by
  obtain ⟨front, back, hs, hfront, hback⟩ := exists_trimSpace s
  constructor
  · intro hempty c hc
    rw [hs, hempty] at hc
    simp only [String.toList_empty, List.append_nil, List.mem_append] at hc
    exact hc.elim (hfront c) (hback c)
  · intro hall
    rw [trimSpace, trim, List.dropWhile_eq_nil_iff.mpr hall]
    rfl

/-- Trimming stops at a text that neither begins nor ends with white space. -/
theorem trimSpace_append (front back : List Char) {text : List Char}
    (hhead : ∃ c cs, text = c :: cs ∧ isSpace c = false)
    (hlast : ∃ init c, text = init ++ [c] ∧ isSpace c = false) :
    trimSpace (String.ofList (front ++ text ++ back)) =
      String.ofList (front.dropWhile isSpace ++ text ++
        (back.reverse.dropWhile isSpace).reverse) := by
  have hstop : ∀ (xs : List Char) (c : Char) (cs : List Char), isSpace c = false →
      (xs ++ c :: cs).dropWhile isSpace = xs.dropWhile isSpace ++ c :: cs := by
    intro xs c cs hc
    rw [List.dropWhile_append]
    split
    next hempty =>
      rw [List.isEmpty_iff.mp hempty, List.nil_append, List.dropWhile_cons_of_neg (by simp [hc])]
    · rfl
  obtain ⟨c, cs, hc, hspace⟩ := hhead
  have hfront : (front ++ text ++ back).dropWhile isSpace =
      front.dropWhile isSpace ++ (text ++ back) := by
    rw [List.append_assoc, hc, List.cons_append, hstop front c (cs ++ back) hspace]
  obtain ⟨init, d, hd, hspace'⟩ := hlast
  rw [trimSpace, String.toList_ofList, trim, hfront, hd]
  congr 1
  simp only [List.reverse_append, List.reverse_cons, List.nil_append,
    List.append_assoc, List.cons_append]
  rw [hstop back.reverse d _ hspace']
  simp

end GoStd
