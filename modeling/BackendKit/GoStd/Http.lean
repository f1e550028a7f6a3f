import Mathlib.Data.Int.Notation
import Mathlib.Data.Nat.Notation
import Mathlib.Logic.Function.Basic

/-!
# Requests, headers and cookies

The parts of `net/http` and `net/textproto` that the handlers of this repository use.

A `Header` maps canonical field names to their values in order of arrival; a request that the
server has read has no other names, so that is part of the type. `Request.cookie` is
`(*http.Request).Cookie`.
-/

namespace GoStd

/-- The characters of a header field name (RFC 7230 `tchar`). -/
def tokenChars : List Char :=
  "!#$%&'*+-.^_`|~0123456789abcdefghijklmnopqrstuvwxyzABCDEFGHIJKLMNOPQRSTUVWXYZ".toList

/-- The loop of `CanonicalMIMEHeaderKey`: `upper` at the start and after a hyphen. -/
def canonicalChars (upper : Bool) : List Char → List Char
  | [] => []
  | c :: cs =>
    let c' := if upper then c.toUpper else c.toLower
    c' :: canonicalChars (c' == '-') cs

/-- `textproto.CanonicalMIMEHeaderKey`: a name that is not a token is left unchanged. -/
def canonicalKey (key : String) : String :=
  if key.toList.all (tokenChars.contains ·) then String.ofList (canonicalChars true key.toList)
  else key

/-- The characters of a name, one by one. -/
theorem tokenChars_eq :
    tokenChars = ['!', '#', '$', '%', '&', '\x27', '*', '+', '-', '.', '^', '_', '\x60', '|', '~', '0',
        '1', '2', '3', '4', '5', '6', '7', '8', '9', 'a', 'b', 'c', 'd', 'e', 'f', 'g', 'h', 'i',
        'j', 'k', 'l', 'm', 'n', 'o', 'p', 'q', 'r', 's', 't', 'u', 'v', 'w', 'x', 'y', 'z', 'A',
        'B', 'C', 'D', 'E', 'F', 'G', 'H', 'I', 'J', 'K', 'L', 'M', 'N', 'O', 'P', 'Q', 'R', 'S',
        'T', 'U', 'V', 'W', 'X', 'Y', 'Z'] := by
  decide +kernel

theorem tokenChars_toUpper : ∀ c ∈ tokenChars, c.toUpper.toUpper = c.toUpper := by
  have hall : tokenChars.all (fun c => c.toUpper.toUpper == c.toUpper) = true := by decide +kernel
  intro c hc
  exact eq_of_beq (List.all_eq_true.mp hall c hc)

theorem tokenChars_toLower : ∀ c ∈ tokenChars, c.toLower.toLower = c.toLower := by
  have hall : tokenChars.all (fun c => c.toLower.toLower == c.toLower) = true := by decide +kernel
  intro c hc
  exact eq_of_beq (List.all_eq_true.mp hall c hc)

/-- The loop has nothing left to do the second time. -/
theorem canonicalChars_idem (upper : Bool) (cs : List Char) (h : ∀ c ∈ cs, c ∈ tokenChars) :
    canonicalChars upper (canonicalChars upper cs) = canonicalChars upper cs := by
  induction cs generalizing upper with
  | nil => rfl
  | cons c cs ih =>
    rw [List.forall_mem_cons] at h
    cases upper with
    | false => simp only [canonicalChars, Bool.false_eq_true, if_false, tokenChars_toLower c h.1,
        ih _ h.2]
    | true => simp only [canonicalChars, if_true, tokenChars_toUpper c h.1, ih _ h.2]

@[simp]
theorem canonicalKey_canonicalKey (key : String) :
    canonicalKey (canonicalKey key) = canonicalKey key := by
  by_cases htoken : key.toList.all (tokenChars.contains ·)
  · have hmem : ∀ c ∈ key.toList, c ∈ tokenChars := by simpa using htoken
    have hkey : canonicalKey key = String.ofList (canonicalChars true key.toList) := if_pos htoken
    rw [hkey, canonicalKey, String.toList_ofList, canonicalChars_idem true _ hmem, ite_self]
  · have hkey : canonicalKey key = key := if_neg htoken
    rw [hkey, hkey]

theorem canonicalKey_authorization : canonicalKey "Authorization" = "Authorization" := by
  decide +kernel

theorem canonicalKey_cookie : canonicalKey "Cookie" = "Cookie" := by
  decide +kernel

/-- `http.Header` of a request as the server reads it. -/
structure Header where
  values : String → List String
  /-- Every name that occurs is canonical. -/
  canonical : ∀ key, values key ≠ [] → canonicalKey key = key

namespace Header

/-- A header without fields. -/
def empty : Header := ⟨fun _ => [], fun _ h => absurd rfl h⟩

/-- The first value of a field, `""` if it has none. -/
def get (h : Header) (key : String) : String :=
  (h.values (canonicalKey key)).headD ""

/-- Replace the values of the field of a canonical name. -/
def update (h : Header) (key : String) (vs : List String) (hkey : canonicalKey key = key) :
    Header where
  values := Function.update h.values key vs
  canonical key' hne := by
    by_cases heq : key' = key
    · rw [heq, hkey]
    · rw [Function.update_of_ne heq] at hne
      exact h.canonical key' hne

/-- Replace all values of a field by one. -/
def set (h : Header) (key value : String) : Header :=
  h.update (canonicalKey key) [value] (canonicalKey_canonicalKey key)

/-- Append a value to a field. -/
def add (h : Header) (key value : String) : Header :=
  h.update (canonicalKey key) (h.values (canonicalKey key) ++ [value])
    (canonicalKey_canonicalKey key)

/-- Remove a field. -/
def del (h : Header) (key : String) : Header :=
  h.update (canonicalKey key) [] (canonicalKey_canonicalKey key)

/-- The fields of a request as the server reads them, line by line. -/
def ofFields (fields : List (String × String)) : Header :=
  fields.foldl (fun h f => h.add f.1 f.2) empty

theorem values_set_self {h : Header} {key value : String} (hkey : canonicalKey key = key) :
    (h.set key value).values key = [value] := by
  simp [set, update, hkey]

theorem values_set_of_ne {h : Header} {key key' value : String} (hne : key' ≠ canonicalKey key) :
    (h.set key value).values key' = h.values key' := by
  simp [set, update, Function.update_of_ne hne]

theorem values_del_self {h : Header} {key : String} (hkey : canonicalKey key = key) :
    (h.del key).values key = [] := by
  simp [del, update, hkey]

/-- A name that is not canonical, in whatever case it is written, has no values. -/
theorem values_eq_nil {h : Header} {key : String} (hne : canonicalKey key ≠ key) :
    h.values key = [] := by
  by_contra hvalues
  exact hne (h.canonical key hvalues)

end Header

/-- The parts of an `http.Request` the handlers read. -/
structure Request where
  method : String
  header : Header

/-! ### Cookies -/

/-- `textproto.TrimString`. -/
def trimChars (cs : List Char) : List Char :=
  let blank := fun c : Char => c == ' ' || c == '\t' || c == '\n' || c == '\r'
  ((cs.dropWhile blank).reverse.dropWhile blank).reverse

/-- `validCookieValueByte`. -/
def validCookieValueChar (c : Char) : Bool :=
  0x20 ≤ c.toNat && c.toNat < 0x7f && c != '"' && c != ';' && c != '\\'

/-- `parseCookieValue`, quotes allowed. -/
def parseCookieValue (raw : List Char) : Option (List Char) :=
  let raw := if 1 < raw.length && raw.head? == some '"' && raw.getLast? == some '"'
    then raw.tail.dropLast else raw
  if raw.all validCookieValueChar then some raw else none

/-- One part of a `Cookie` line, if it is a cookie of the given name. -/
def parseCookie (name : String) (part : List Char) : Option String :=
  let part := trimChars part
  let key := trimChars (part.takeWhile (· != '='))
  let value := (part.dropWhile (· != '=')).tail
  if key ≠ [] ∧ key.all (tokenChars.contains ·) ∧ key = name.toList then
    (parseCookieValue value).map String.ofList
  else none

/-- The values of the cookies of the given name (`readCookies`). -/
def readCookies (h : Header) (name : String) : List String :=
  (h.values "Cookie").flatMap fun line =>
    (List.splitOn ';' (trimChars line.toList)).filterMap (parseCookie name)

/-- `(*http.Request).Cookie`: the value of the first cookie of that name. -/
def Request.cookie (r : Request) (name : String) : Option String :=
  if name = "" then none else (readCookies r.header name).head?

example : (Request.mk "GET" (Header.ofFields [("cOOkie", "a=1; sid=\"x y\"; sid=2")])).cookie "sid"
    = some "x y" := by
  decide +kernel

/-- A cookie as a handler sets it. -/
structure Cookie where
  name : String
  value : String
  path : String
  httpOnly : Bool
  secure : Bool
  sameSiteStrict : Bool
  maxAge : ℤ
  deriving DecidableEq, Repr

/-- What a handler that does not forward the request writes: `http.Error` and the cookies it
sets. -/
structure Response where
  status : ℕ
  body : String
  cookies : List Cookie
  deriving DecidableEq, Repr

/-- `http.Error` ends the text with a newline. -/
def httpError (message : String) (code : ℕ) (cookies : List Cookie) : Response :=
  { status := code, body := message ++ "\n", cookies }

end GoStd
