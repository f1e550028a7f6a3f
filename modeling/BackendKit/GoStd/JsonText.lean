import BackendKit.GoStd.Any

/-!
# JSON texts

The text layer of `encoding/json`: `JsonText.parse` reads a text as RFC 8259 has it, and
`JsonText.render` writes a value without white space, as `json.Marshal` does.

A text is a list of characters. Go's scanner works on bytes, but all that it looks for is ASCII. Its
limit on the depth of a text, 10000, is not modelled.
-/

namespace GoStd

namespace JsonText

/-- White space between tokens. -/
def isBlank (c : Char) : Bool := c = ' ' || c = '\t' || c = '\n' || c = '\r'

/-- Skip white space. -/
def skip (cs : List Char) : List Char := cs.dropWhile isBlank

/-! ### Strings -/

/-- Four hexadecimal digits. -/
def hex4 (a b c d : Char) : Option ℕ := do
  let a ← hexDigit? a
  let b ← hexDigit? b
  let c ← hexDigit? c
  let d ← hexDigit? d
  return ((a * 16 + b) * 16 + c) * 16 + d

/-- The character of a `\u` escape; half of a surrogate pair is replaced. -/
def unit (n : ℕ) : Char :=
  if 0xd800 ≤ n ∧ n < 0xe000 then Char.ofNat 0xfffd else Char.ofNat n

/-- The character of a surrogate pair. -/
def surrogates (high low : ℕ) : Option Char :=
  if 0xd800 ≤ high ∧ high < 0xdc00 ∧ 0xdc00 ≤ low ∧ low < 0xe000 then
    some (Char.ofNat (0x10000 + (high - 0xd800) * 0x400 + (low - 0xdc00)))
  else none

/-- The character of an escape other than `\u`. -/
def unescape : Char → Option Char
  | '"' => some '"'
  | '\\' => some '\\'
  | '/' => some '/'
  | 'b' => some (Char.ofNat 8)
  | 'f' => some (Char.ofNat 12)
  | 'n' => some '\n'
  | 'r' => some '\r'
  | 't' => some '\t'
  | _ => none

/-- The rest of a string, up to its closing quote, and what follows it. -/
def scanString : List Char → Option (List Char × List Char)
  | [] => none
  | '"' :: rest => some ([], rest)
  | '\\' :: 'u' :: a :: b :: c :: d :: '\\' :: 'u' :: e :: f :: g :: h :: rest => do
    let n ← hex4 a b c d
    let m ← hex4 e f g h
    match surrogates n m with
    | some pair =>
      let (s, after) ← scanString rest
      return (pair :: s, after)
    | none =>
      let (s, after) ← scanString ('\\' :: 'u' :: e :: f :: g :: h :: rest)
      return (unit n :: s, after)
  | '\\' :: 'u' :: a :: b :: c :: d :: rest => do
    let n ← hex4 a b c d
    let (s, after) ← scanString rest
    return (unit n :: s, after)
  | '\\' :: e :: rest => do
    let c ← unescape e
    let (s, after) ← scanString rest
    return (c :: s, after)
  | c :: rest =>
    if c.toNat < 0x20 ∨ c = '\\' then none
    else do
      let (s, after) ← scanString rest
      return (c :: s, after)

/-! ### Numbers -/

/-- One digit or more. -/
def scanDigits (cs : List Char) : Option (List Char × List Char) :=
  if cs.takeWhile Char.isDigit = [] then none
  else some (cs.takeWhile Char.isDigit, cs.dropWhile Char.isDigit)

/-- Digits without a leading zero. -/
def scanInt : List Char → Option (List Char × List Char)
  | '0' :: rest => some (['0'], rest)
  | cs => scanDigits cs

/-- The fraction of a number, if there is one. -/
def scanFraction : List Char → Option (List Char × List Char)
  | '.' :: rest => (scanDigits rest).map fun r => ('.' :: r.1, r.2)
  | cs => some ([], cs)

/-- The exponent of a number, if there is one. -/
def scanExponent : List Char → Option (List Char × List Char)
  | c :: cs =>
    if c = 'e' ∨ c = 'E' then
      match cs with
      | '-' :: rest => (scanDigits rest).map fun r => (c :: '-' :: r.1, r.2)
      | '+' :: rest => (scanDigits rest).map fun r => (c :: '+' :: r.1, r.2)
      | rest => (scanDigits rest).map fun r => (c :: r.1, r.2)
    else some ([], c :: cs)
  | [] => some ([], [])

/-- A number without its sign. -/
def scanUnsigned (cs : List Char) : Option (List Char × List Char) := do
  let (int, cs) ← scanInt cs
  let (fraction, cs) ← scanFraction cs
  let (exponent, cs) ← scanExponent cs
  return (int ++ fraction ++ exponent, cs)

/-- The literal of a number, and what follows it. -/
def scanNumber : List Char → Option (List Char × List Char)
  | '-' :: cs => (scanUnsigned cs).map fun r => ('-' :: r.1, r.2)
  | cs => scanUnsigned cs

/-! ### Values -/

mutual

/-- A value at the front of a text. The fuel counts down with every value and every member. -/
def value : ℕ → List Char → Option (Json × List Char)
  | 0, _ => none
  | fuel + 1, cs =>
    match cs with
    | 'n' :: 'u' :: 'l' :: 'l' :: rest => some (.null, rest)
    | 't' :: 'r' :: 'u' :: 'e' :: rest => some (.bool true, rest)
    | 'f' :: 'a' :: 'l' :: 's' :: 'e' :: rest => some (.bool false, rest)
    | '"' :: rest => (scanString rest).map fun r => (.str (String.ofList r.1), r.2)
    | '[' :: rest =>
      match skip rest with
      | ']' :: after => some (.arr [], after)
      | cs => (elements fuel cs).map fun r => (.arr r.1, r.2)
    | '\x7b' :: rest =>
      match skip rest with
      | '\x7d' :: after => some (.obj [], after)
      | cs => (members fuel cs).map fun r => (.obj r.1, r.2)
    | cs => (scanNumber cs).map fun r => (.num (String.ofList r.1), r.2)

/-- The elements of an array, and the bracket after them. -/
def elements : ℕ → List Char → Option (List Json × List Char)
  | 0, _ => none
  | fuel + 1, cs => do
    let (j, rest) ← value fuel cs
    match skip rest with
    | ',' :: rest =>
      let (js, after) ← elements fuel (skip rest)
      return (j :: js, after)
    | ']' :: after => return ([j], after)
    | _ => none

/-- The members of an object, and the brace after them. -/
def members : ℕ → List Char → Option (List (String × Json) × List Char)
  | 0, _ => none
  | fuel + 1, cs =>
    match cs with
    | '"' :: cs => do
      let (name, rest) ← scanString cs
      match skip rest with
      | ':' :: rest =>
        let (j, rest) ← value fuel (skip rest)
        match skip rest with
        | ',' :: rest =>
          let (ms, after) ← members fuel (skip rest)
          return ((String.ofList name, j) :: ms, after)
        | '\x7d' :: after => return ([(String.ofList name, j)], after)
        | _ => none
      | _ => none
    | _ => none

end

/-- The value of a text. Every value and every member takes a character at least. -/
def parse (s : String) : Option Json :=
  match value (2 * s.toList.length + 1) (skip s.toList) with
  | some (j, rest) => if skip rest = [] then some j else none
  | none => none

/-- `json.Valid`. -/
def valid (s : String) : Bool := (parse s).isSome

/-! ### Writing -/

/-- A `\u` escape. -/
def escapeUnit (n : ℕ) : List Char :=
  ['\\', 'u', hexChar (n / 4096 % 16), hexChar (n / 256 % 16), hexChar (n / 16 % 16), hexChar (n % 16)]

/-- A character in a string. What HTML or JavaScript might take for its own is escaped. -/
def escape (c : Char) : List Char :=
  if c = '"' then ['\\', '"']
  else if c = '\\' then ['\\', '\\']
  else if c.toNat = 8 then ['\\', 'b']
  else if c.toNat = 12 then ['\\', 'f']
  else if c = '\n' then ['\\', 'n']
  else if c = '\r' then ['\\', 'r']
  else if c = '\t' then ['\\', 't']
  else if c.toNat < 0x20 ∨ c = '<' ∨ c = '>' ∨ c = '&' ∨ c.toNat = 0x2028 ∨ c.toNat = 0x2029 then
    escapeUnit c.toNat
  else [c]

/-- A string in quotes. -/
def quote (s : String) : List Char := '"' :: (s.toList.flatMap escape ++ ['"'])

mutual

/-- The text of a value. -/
def chars : Json → List Char
  | .null => "null".toList
  | .bool b => if b then "true".toList else "false".toList
  | .num literal => literal.toList
  | .str s => quote s
  | .arr elements => '[' :: (charsElements elements ++ [']'])
  | .obj members => '\x7b' :: (charsMembers members ++ ['\x7d'])

def charsElements : List Json → List Char
  | [] => []
  | [j] => chars j
  | j :: js => chars j ++ ',' :: charsElements js

def charsMembers : List (String × Json) → List Char
  | [] => []
  | [(name, j)] => quote name ++ ':' :: chars j
  | (name, j) :: members => quote name ++ ':' :: (chars j ++ ',' :: charsMembers members)

end

/-- `json.Marshal`, from the tree on. -/
def render (j : Json) : String := String.ofList (chars j)

end JsonText

end GoStd
