import Mathlib.Data.Int.Log
import Mathlib.Data.Rat.Floor
import Mathlib.Tactic.FieldSimp
import Mathlib.Tactic.Linarith
import Mathlib.Tactic.Ring

/-!
# Numbers that go through `float64`

`encoding/json` reads a number into a `float64` and writes the shortest decimal that is read as the
same `float64`. A finite `float64` is a sign and a magnitude that rounding leaves alone, so `-0` is
one.

* `Float64.round` rounds to the nearest magnitude, ties to even; `Float64.round_round`.
* `Float64.parse` reads the literal of a JSON number; a number that is too large is an error.
* `Float64.format` is what `json.Marshal` writes, and `Float64.parse_format` says that it is read
  back.
-/

namespace GoStd

/-- The nearest integer, ties to even. -/
def roundEven (q : ℚ) : ℤ :=
  if q - ⌊q⌋ < 1 / 2 then ⌊q⌋
  else if 1 / 2 < q - ⌊q⌋ then ⌊q⌋ + 1
  else if ⌊q⌋ % 2 = 0 then ⌊q⌋ else ⌊q⌋ + 1

theorem roundEven_intCast (m : ℤ) : roundEven m = m := by
  unfold roundEven
  rw [Int.floor_intCast, sub_self, if_pos (by norm_num)]

theorem roundEven_nonneg {q : ℚ} (h : 0 ≤ q) : 0 ≤ roundEven q := by
  have hfloor : 0 ≤ ⌊q⌋ := Int.floor_nonneg.mpr h
  unfold roundEven
  split_ifs <;> omega

theorem roundEven_le {q : ℚ} {m : ℤ} (h : q < m) : roundEven q ≤ m := by
  have hfloor : ⌊q⌋ < m := Int.floor_lt.mpr h
  unfold roundEven
  split_ifs <;> omega

theorem le_roundEven {q : ℚ} {m : ℤ} (h : (m : ℚ) ≤ q) : m ≤ roundEven q := by
  have hfloor : m ≤ ⌊q⌋ := Int.le_floor.mpr h
  unfold roundEven
  split_ifs <;> omega

namespace Float64

/-- The exponent of the last place, near a positive number. -/
def ulpExp (q : ℚ) : ℤ := max (Int.log 2 q - 52) (-1074)

/-- Round a magnitude. -/
def round (q : ℚ) : ℚ := roundEven (q / 2 ^ ulpExp q) * 2 ^ ulpExp q

/-- A multiple of the last place is not changed. -/
theorem round_eq_self {q : ℚ} {m e : ℤ} (hq : q = m * 2 ^ e) (he : ulpExp q ≤ e) : round q = q := by
  obtain ⟨n, hn⟩ := Int.eq_ofNat_of_zero_le (sub_nonneg.mpr he)
  have hne : (2 : ℚ) ^ ulpExp q ≠ 0 := zpow_ne_zero _ two_ne_zero
  -- the quotient by the last place is an integer
  have hpow : (2 : ℚ) ^ e = 2 ^ n * 2 ^ ulpExp q := by
    rw [← zpow_natCast, ← zpow_add₀ two_ne_zero, ← hn, sub_add_cancel]
  have hquot : q / 2 ^ ulpExp q = ((m * 2 ^ n : ℤ) : ℚ) := by
    rw [div_eq_iff hne]
    calc q = m * 2 ^ e := hq
      _ = m * (2 ^ n * 2 ^ ulpExp q) := by rw [hpow]
      _ = ((m * 2 ^ n : ℤ) : ℚ) * 2 ^ ulpExp q := by push_cast; ring
  rw [round, hquot, roundEven_intCast, ← hquot, div_mul_cancel₀ _ hne]

theorem round_nonneg {q : ℚ} (h : 0 ≤ q) : 0 ≤ round q := by
  have hpos : (0 : ℚ) < 2 ^ ulpExp q := zpow_pos two_pos _
  exact mul_nonneg (by exact_mod_cast roundEven_nonneg (div_nonneg h hpos.le)) hpos.le

/-- There are at most `2 ^ 53` steps of the last place below a number. -/
theorem roundEven_quot_le (q : ℚ) : roundEven (q / 2 ^ ulpExp q) ≤ 2 ^ 53 := by
  have hlt : q < 2 ^ (Int.log 2 q + 1) := by exact_mod_cast Int.lt_zpow_succ_log_self one_lt_two q
  have hle : (2 : ℚ) ^ (Int.log 2 q + 1) ≤ 2 ^ (53 : ℤ) * 2 ^ ulpExp q := by
    rw [← zpow_add₀ two_ne_zero]
    refine zpow_le_zpow_right₀ one_le_two ?_
    have := le_max_left (Int.log 2 q - 52) (-1074)
    unfold ulpExp
    omega
  apply roundEven_le
  rw [div_lt_iff₀ (zpow_pos two_pos _)]
  push_cast
  exact lt_of_lt_of_le hlt (by exact_mod_cast hle)

theorem ulpExp_le_of_lt {q : ℚ} (h : 0 < q) {e : ℤ} (he : -1074 ≤ e) (hlt : q < 2 ^ (53 + e)) :
    ulpExp q ≤ e := by
  have hlog : Int.log 2 q < 53 + e := by
    rw [← Int.lt_zpow_iff_log_lt one_lt_two h]
    exact_mod_cast hlt
  exact max_le (by omega) he

/-- A rounded number is not changed by rounding. -/
theorem round_round {q : ℚ} (h : 0 ≤ q) : round (round q) = round q := by
  have hexp : -1074 ≤ ulpExp q := le_max_right _ _
  have hpos : (0 : ℚ) < 2 ^ ulpExp q := zpow_pos two_pos _
  obtain hzero | hround := (round_nonneg h).eq_or_lt
  · rw [← hzero]
    exact round_eq_self (m := 0) (e := ulpExp 0) (by simp) le_rfl
  obtain hlt | heq := (roundEven_quot_le q).lt_or_eq
  · refine round_eq_self rfl (ulpExp_le_of_lt hround hexp ?_)
    rw [zpow_add₀ two_ne_zero, round]
    exact mul_lt_mul_of_pos_right (by exact_mod_cast hlt) hpos
  · -- rounding has gone up to the next power of two
    have hnext : round q = ((2 ^ 52 : ℤ) : ℚ) * 2 ^ (ulpExp q + 1) := by
      rw [round, heq, zpow_add₀ two_ne_zero]
      push_cast
      ring
    refine round_eq_self hnext (ulpExp_le_of_lt hround (by omega) ?_)
    rw [hnext, zpow_add₀ two_ne_zero (53 : ℤ)]
    have hpos' : (0 : ℚ) < 2 ^ (ulpExp q + 1) := zpow_pos two_pos _
    exact mul_lt_mul_of_pos_right (by norm_num) hpos'

/-- Integers up to `2 ^ 53` are exact. -/
theorem round_natCast {n : ℕ} (h : n < 2 ^ 53) : round n = n := by
  obtain rfl | hpos := n.eq_zero_or_pos
  · exact round_eq_self (m := 0) (e := ulpExp 0) (by simp) (by simp)
  refine round_eq_self (m := n) (e := 0) (by simp) (ulpExp_le_of_lt (by exact_mod_cast hpos) ?_ ?_)
  · norm_num
  · exact_mod_cast h

/-- Rounding does not go below a power of two. -/
theorem one_le_round {q : ℚ} (h : 1 ≤ q) : 1 ≤ round q := by
  have hlog : 0 ≤ Int.log 2 q := by
    rw [← Int.zpow_le_iff_le_log one_lt_two (by linarith)]
    simpa using h
  have hulp : ulpExp q = Int.log 2 q - 52 := max_eq_left (by omega)
  have hself : (2 : ℚ) ^ Int.log 2 q ≤ q := by
    exact_mod_cast Int.zpow_log_le_self (b := 2) (r := q) one_lt_two (by linarith)
  have hpos : (0 : ℚ) < 2 ^ ulpExp q := zpow_pos two_pos _
  -- the leading power of two is a multiple of the last place
  have hsplit : (2 : ℚ) ^ Int.log 2 q = ((2 ^ 52 : ℤ) : ℚ) * 2 ^ ulpExp q := by
    rw [hulp, zpow_sub₀ two_ne_zero]
    push_cast
    field_simp
  have hquot : 2 ^ 52 ≤ roundEven (q / 2 ^ ulpExp q) := by
    refine le_roundEven ((le_div_iff₀ hpos).mpr ?_)
    rw [← hsplit]
    exact hself
  calc (1 : ℚ) ≤ 2 ^ Int.log 2 q := one_le_zpow₀ one_le_two hlog
    _ = ((2 ^ 52 : ℤ) : ℚ) * 2 ^ ulpExp q := hsplit
    _ ≤ round q := mul_le_mul_of_nonneg_right (by exact_mod_cast hquot) hpos.le

/-- Nor above one. -/
theorem round_le_zpow {q : ℚ} {k : ℤ} (hq : 0 ≤ q) (hk : -1021 ≤ k) (h : q < 2 ^ k) :
    round q ≤ 2 ^ k := by
  obtain rfl | hpositive := hq.eq_or_lt
  · have hzero : round 0 = 0 := by exact_mod_cast round_natCast (n := 0) (by decide)
    rw [hzero]
    exact (zpow_pos two_pos k).le
  have hlt : Int.log 2 q < k := by
    rw [← Int.lt_zpow_iff_log_lt one_lt_two hpositive]
    exact_mod_cast h
  have hulp : 53 + ulpExp q ≤ k := by
    unfold ulpExp
    omega
  have hpos : (0 : ℚ) < 2 ^ ulpExp q := zpow_pos two_pos _
  have hle : (roundEven (q / 2 ^ ulpExp q) : ℚ) ≤ 2 ^ (53 : ℤ) := by
    exact_mod_cast roundEven_quot_le q
  calc round q ≤ 2 ^ (53 : ℤ) * 2 ^ ulpExp q := mul_le_mul_of_nonneg_right hle hpos.le
    _ = 2 ^ (53 + ulpExp q) := (zpow_add₀ two_ne_zero _ _).symm
    _ ≤ 2 ^ k := zpow_le_zpow_right₀ one_le_two hulp

end Float64

/-- A finite `float64`. -/
structure Float64 where
  negative : Bool
  magnitude : ℚ
  nonneg : 0 ≤ magnitude
  rounded : Float64.round magnitude = magnitude
  finite : magnitude < 2 ^ 1024

namespace Float64

/-- The number. Two values are equal for Go's `==` if they have the same number. -/
def value (f : Float64) : ℚ := if f.negative then -f.magnitude else f.magnitude

/-- Round to a `float64`; a number that is too large is an error. -/
def ofMagnitude (negative : Bool) (q : ℚ) (h : 0 ≤ q) : Option Float64 :=
  if hfinite : round q < 2 ^ 1024 then
    some ⟨negative, round q, round_nonneg h, round_round h, hfinite⟩
  else none

end Float64

/-! ### Decimal notation -/

/-- A number in decimal notation: `digits * 10 ^ exponent`, with a sign. -/
structure Decimal where
  negative : Bool
  digits : ℕ
  exponent : ℤ

namespace Decimal

/-- The number without its sign. -/
def magnitude (d : Decimal) : ℚ := d.digits * 10 ^ d.exponent

theorem magnitude_nonneg (d : Decimal) : 0 ≤ d.magnitude :=
  mul_nonneg (Nat.cast_nonneg _) (zpow_nonneg (by norm_num) _)

/-- Digits to the end. -/
def readDigits (ds : List Char) : Option ℕ :=
  if ds ≠ [] ∧ ds.all Char.isDigit then some (Nat.ofDigitChars 10 ds 0) else none

/-- The exponent at the end of a literal. -/
def readExponent : List Char → Option ℤ
  | [] => some 0
  | c :: cs =>
    if c = 'e' ∨ c = 'E' then
      match cs with
      | '-' :: ds => (readDigits ds).map fun n : ℕ => -(n : ℤ)
      | '+' :: ds => (readDigits ds).map fun n : ℕ => (n : ℤ)
      | ds => (readDigits ds).map fun n : ℕ => (n : ℤ)
    else none

/-- A literal after its sign. -/
def readUnsigned (negative : Bool) (cs : List Char) : Option Decimal :=
  let int := cs.takeWhile Char.isDigit
  match cs.dropWhile Char.isDigit with
  | '.' :: rest =>
    let frac := rest.takeWhile Char.isDigit
    if int = [] ∨ frac = [] then none
    else (readExponent (rest.dropWhile Char.isDigit)).map fun e =>
      ⟨negative, Nat.ofDigitChars 10 (int ++ frac) 0, e - frac.length⟩
  | rest =>
    if int = [] then none
    else (readExponent rest).map fun e => ⟨negative, Nat.ofDigitChars 10 int 0, e⟩

/-- The number that a JSON literal stands for. -/
def read (literal : String) : Option Decimal :=
  match literal.toList with
  | '-' :: cs => readUnsigned true cs
  | cs => readUnsigned false cs

/-- Digits with a point, if one is needed (the format `f`). -/
def plain (digits : ℕ) (exponent : ℤ) : List Char :=
  let ds := Nat.toDigits 10 digits
  let point := ds.length + exponent
  if 0 ≤ exponent then ds ++ List.replicate exponent.toNat '0'
  else if point ≤ 0 then '0' :: '.' :: (List.replicate (-point).toNat '0' ++ ds)
  else ds.take point.toNat ++ '.' :: ds.drop point.toNat

/-- The exponent of the format `e`, without padding. -/
def writeExponent (x : ℤ) : List Char :=
  'e' :: if x < 0 then '-' :: Nat.toDigits 10 x.natAbs else '+' :: Nat.toDigits 10 x.natAbs

/-- One digit before the point, and an exponent (the format `e`). -/
def scientific (digits : ℕ) (exponent : ℤ) : List Char :=
  let ds := Nat.toDigits 10 digits
  let x := ds.length + exponent - 1
  if ds.length = 1 then ds ++ writeExponent x
  else ds.take 1 ++ '.' :: (ds.drop 1 ++ writeExponent x)

/-- What does not begin with a digit. -/
def Stops (cs : List Char) : Prop := cs.takeWhile Char.isDigit = []

theorem stops_nil : Stops [] := rfl

theorem stops_cons {c : Char} (h : c.isDigit = false) (cs : List Char) : Stops (c :: cs) := by
  simp [Stops, h]

theorem takeWhile_digits {ds rest : List Char} (h : ∀ c ∈ ds, c.isDigit = true) (hs : Stops rest) :
    (ds ++ rest).takeWhile Char.isDigit = ds := by
  rw [List.takeWhile_append_of_pos h, show rest.takeWhile Char.isDigit = [] from hs,
    List.append_nil]

theorem dropWhile_digits {ds rest : List Char} (h : ∀ c ∈ ds, c.isDigit = true) (hs : Stops rest) :
    (ds ++ rest).dropWhile Char.isDigit = rest := by
  have hsplit := List.takeWhile_append_dropWhile (p := Char.isDigit) (l := rest)
  rw [show rest.takeWhile Char.isDigit = [] from hs, List.nil_append] at hsplit
  rw [List.dropWhile_append_of_pos h, hsplit]

variable (negative : Bool) (n : ℕ)

theorem readUnsigned_point (int frac : List Char) {rest : List Char}
    (hint : ∀ c ∈ int, c.isDigit = true) (hfrac : ∀ c ∈ frac, c.isDigit = true) (hint' : int ≠ [])
    (hfrac' : frac ≠ []) (hs : Stops rest) {e : ℤ} (he : readExponent rest = some e) :
    readUnsigned negative (int ++ '.' :: (frac ++ rest)) =
      some ⟨negative, Nat.ofDigitChars 10 (int ++ frac) 0, e - frac.length⟩ := by
  have hpoint : Stops ('.' :: (frac ++ rest)) := stops_cons (by decide) _
  unfold readUnsigned
  rw [takeWhile_digits hint hpoint, dropWhile_digits hint hpoint]
  simp only
  rw [takeWhile_digits hfrac hs, dropWhile_digits hfrac hs, if_neg (not_or.mpr ⟨hint', hfrac'⟩), he]
  rfl

theorem readUnsigned_int {int rest : List Char} (hint : ∀ c ∈ int, c.isDigit = true)
    (hint' : int ≠ []) (hs : Stops rest) (hpoint : ∀ cs, rest ≠ '.' :: cs) {e : ℤ}
    (he : readExponent rest = some e) :
    readUnsigned negative (int ++ rest) = some ⟨negative, Nat.ofDigitChars 10 int 0, e⟩ := by
  unfold readUnsigned
  rw [takeWhile_digits hint hs, dropWhile_digits hint hs]
  split
  · exact absurd rfl (hpoint _)
  · rw [if_neg hint', he]
    rfl

theorem isDigit_toDigits {n : ℕ} : ∀ c ∈ Nat.toDigits 10 n, c.isDigit = true :=
  fun _ hc => Nat.isDigit_of_mem_toDigits (by decide) (by decide) hc

theorem ofDigitChars_toDigits : Nat.ofDigitChars 10 (Nat.toDigits 10 n) 0 = n :=
  Nat.ofDigitChars_toDigits (by decide) (by decide)

theorem isDigit_zeros : ∀ c ∈ List.replicate n '0', c.isDigit = true := by
  intro c hc
  rw [List.eq_of_mem_replicate hc]
  rfl

/-- Zeros before the digits do not count. -/
theorem ofDigitChars_leading (ds : List Char) :
    Nat.ofDigitChars 10 (List.replicate n '0' ++ ds) 0 = Nat.ofDigitChars 10 ds 0 := by
  rw [Nat.ofDigitChars_append, Nat.ofDigitChars_replicate_zero, Nat.mul_zero]

/-- What is written with a point is read as the number. -/
theorem exists_readUnsigned_plain (digits : ℕ) (exponent : ℤ) :
    ∃ d, readUnsigned negative (plain digits exponent) = some d ∧ d.negative = negative ∧
      d.magnitude = digits * 10 ^ exponent := by
  have hdigits : ∀ c ∈ Nat.toDigits 10 digits, c.isDigit = true := isDigit_toDigits
  have hne : Nat.toDigits 10 digits ≠ [] := Nat.toDigits_ne_nil
  have hvalue := ofDigitChars_toDigits digits
  unfold plain
  generalize Nat.toDigits 10 digits = ds at *
  dsimp only
  split_ifs with hexp hpoint
  · -- zeros at the end
    obtain ⟨n, rfl⟩ := Int.eq_ofNat_of_zero_le hexp
    have hread := readUnsigned_int negative
      (List.forall_mem_append.mpr ⟨hdigits, isDigit_zeros n⟩) (by simp [hne]) stops_nil (by simp) rfl
    rw [List.append_nil] at hread
    refine ⟨_, hread, rfl, ?_⟩
    rw [magnitude, Nat.ofDigitChars_append, hvalue, Nat.ofDigitChars_replicate_zero, zpow_natCast]
    push_cast
    ring
  · -- zeros after the point
    have hread := readUnsigned_point negative ['0']
      (List.replicate (-(ds.length + exponent)).toNat '0' ++ ds) (isDigit_zeros 1)
      (List.forall_mem_append.mpr ⟨isDigit_zeros _, hdigits⟩) (by simp) (by simp [hne]) stops_nil rfl
    rw [List.append_nil] at hread
    refine ⟨_, hread, rfl, ?_⟩
    have hlen : (0 : ℤ) - ((List.replicate (-(ds.length + exponent)).toNat '0' ++ ds).length : ℕ) =
        exponent := by
      rw [List.length_append, List.length_replicate]
      omega
    have hzeros : Nat.ofDigitChars 10
        (['0'] ++ (List.replicate (-(ds.length + exponent)).toNat '0' ++ ds)) 0 = digits :=
      (ofDigitChars_leading 1 _).trans ((ofDigitChars_leading _ ds).trans hvalue)
    rw [magnitude, hlen, hzeros]
  · -- the point is among the digits
    have hread := readUnsigned_point negative (ds.take (ds.length + exponent).toNat)
      (ds.drop (ds.length + exponent).toNat) (fun c hc => hdigits c (List.mem_of_mem_take hc))
      (fun c hc => hdigits c (List.mem_of_mem_drop hc))
      (fun hnil => (List.take_eq_nil_iff.mp hnil).elim (by omega) hne)
      (fun hnil => by rw [List.drop_eq_nil_iff] at hnil; omega) stops_nil rfl
    rw [List.append_nil] at hread
    refine ⟨_, hread, rfl, ?_⟩
    have hlen : (0 : ℤ) - ((ds.drop (ds.length + exponent).toNat).length : ℕ) = exponent := by
      rw [List.length_drop]
      omega
    rw [magnitude, hlen, List.take_append_drop, hvalue]

theorem readDigits_toDigits : readDigits (Nat.toDigits 10 n) = some n := by
  have hall : (Nat.toDigits 10 n).all Char.isDigit = true := List.all_eq_true.mpr isDigit_toDigits
  rw [readDigits, if_pos ⟨Nat.toDigits_ne_nil, hall⟩, ofDigitChars_toDigits]

/-- What follows the mantissa is read as the exponent. -/
theorem readExponent_writeExponent (x : ℤ) : readExponent (writeExponent x) = some x := by
  have hminus : ∀ ds, readExponent ('e' :: '-' :: ds) = (readDigits ds).map fun n : ℕ => -(n : ℤ) :=
    fun ds => by rw [readExponent, if_pos (.inl rfl)]
  have hplus : ∀ ds, readExponent ('e' :: '+' :: ds) = (readDigits ds).map fun n : ℕ => (n : ℤ) :=
    fun ds => by rw [readExponent, if_pos (.inl rfl)]
  unfold writeExponent
  split_ifs with hneg
  · rw [hminus, readDigits_toDigits, Option.map_some, Option.some.injEq]
    omega
  · rw [hplus, readDigits_toDigits, Option.map_some, Option.some.injEq]
    omega

/-- What is written with an exponent is read as the number. -/
theorem exists_readUnsigned_scientific (digits : ℕ) (exponent : ℤ) :
    ∃ d, readUnsigned negative (scientific digits exponent) = some d ∧ d.negative = negative ∧
      d.magnitude = digits * 10 ^ exponent := by
  have hdigits : ∀ c ∈ Nat.toDigits 10 digits, c.isDigit = true := isDigit_toDigits
  have hne : Nat.toDigits 10 digits ≠ [] := Nat.toDigits_ne_nil
  have hvalue := ofDigitChars_toDigits digits
  unfold scientific
  generalize Nat.toDigits 10 digits = ds at *
  dsimp only
  have hlen : 0 < ds.length := List.length_pos_iff.mpr hne
  have hexp := readExponent_writeExponent (ds.length + exponent - 1)
  have hstops : Stops (writeExponent (ds.length + exponent - 1)) := stops_cons (by decide) _
  split_ifs with hone
  · have hread := readUnsigned_int negative hdigits hne hstops (by simp [writeExponent]) hexp
    refine ⟨_, hread, rfl, ?_⟩
    rw [magnitude, hvalue, hone]
    simp
  · have hread := readUnsigned_point negative (ds.take 1) (ds.drop 1)
      (fun c hc => hdigits c (List.mem_of_mem_take hc))
      (fun c hc => hdigits c (List.mem_of_mem_drop hc))
      (fun hnil => (List.take_eq_nil_iff.mp hnil).elim (by decide) hne)
      (fun hnil => hone (by rw [List.drop_eq_nil_iff] at hnil; omega)) hstops hexp
    refine ⟨_, hread, rfl, ?_⟩
    have hdrop : (ds.length : ℤ) + exponent - 1 - ((ds.drop 1).length : ℕ) = exponent := by
      rw [List.length_drop]
      omega
    rw [magnitude, hdrop, List.take_append_drop, hvalue]

end Decimal

/-! ### Reading and writing -/

namespace Float64

/-- `strconv.ParseFloat(literal, 64)`, for the literal of a JSON number. -/
def parse (literal : String) : Option Float64 :=
  (Decimal.read literal).bind fun d => ofMagnitude d.negative d.magnitude d.magnitude_nonneg

/-- `m * 10 ^ exponent`, where `m` has at most `n` digits or is `10 ^ n`. -/
def carry (n m : ℕ) (exponent : ℤ) : ℕ × ℤ :=
  if m = 10 ^ n then (1, exponent + n) else (m, exponent)

/-- The number with `n` digits that is nearest to a positive magnitude, of those that are read as
it. -/
def nearest (q : ℚ) (n : ℕ) : Option (ℕ × ℤ) :=
  let exponent := Int.log 10 q + 1 - n
  let below := ⌊q / 10 ^ exponent⌋.toNat
  let reads (m : ℕ) := round (m * 10 ^ exponent) = q
  if reads below ∧ reads (below + 1) then
    -- the remainder decides, and of two that are as near the even one is taken
    if roundEven (q / 10 ^ exponent) = below then some (below, exponent)
    else some (carry n (below + 1) exponent)
  else if reads below then some (below, exponent)
  else if reads (below + 1) then some (carry n (below + 1) exponent)
  else none

/-- The shortest decimal that is read as a magnitude. -/
def shortest (q : ℚ) : ℕ × ℤ :=
  if q = 0 then (0, 0)
  else
    match (List.range 17).findSome? fun i => nearest q (i + 1) with
    | some found => found
    | none =>
      -- All digits. This is for the sake of the proof: 17 are always enough.
      ((q * 10 ^ 1074).num.toNat, -1074)

/-- What `json.Marshal` writes for a magnitude. -/
def formatMagnitude (q : ℚ) : List Char :=
  if q ≠ 0 ∧ (q < round (1 / 10 ^ 6) ∨ 10 ^ 21 ≤ q) then
    Decimal.scientific (shortest q).1 (shortest q).2
  else Decimal.plain (shortest q).1 (shortest q).2

/-- What `json.Marshal` writes. -/
def format (f : Float64) : String :=
  String.ofList ((if f.negative then ['-'] else []) ++ formatMagnitude f.magnitude)

theorem carry_eq (n m : ℕ) (exponent : ℤ) :
    ((carry n m exponent).1 : ℚ) * 10 ^ (carry n m exponent).2 = m * 10 ^ exponent := by
  unfold carry
  split_ifs with hm
  · rw [hm, zpow_add₀ (by norm_num), zpow_natCast]
    push_cast
    ring
  · rfl

theorem round_nearest {q : ℚ} {n : ℕ} {found : ℕ × ℤ} (h : nearest q n = some found) :
    round (found.1 * 10 ^ found.2) = q := by
  unfold nearest at h
  dsimp only at h
  split_ifs at h with hboth hlower hbelow habove
  · cases h
    exact hboth.1
  · cases h
    exact (congrArg round (carry_eq _ _ _)).trans hboth.2
  · cases h
    exact hbelow
  · cases h
    exact (congrArg round (carry_eq _ _ _)).trans habove

/-- A `float64` has at most 1074 binary places, and so at most as many decimal ones. -/
theorem exists_int_of_round {q : ℚ} (h : round q = q) : ∃ m : ℤ, q * 10 ^ 1074 = m := by
  obtain ⟨n, hn⟩ := Int.eq_ofNat_of_zero_le
    (sub_nonneg.mpr (le_max_right (Int.log 2 q - 52) (-1074)))
  have hexp : ulpExp q = (n : ℤ) - 1074 := by
    unfold ulpExp
    omega
  have hpow : (2 : ℚ) ^ ulpExp q * 10 ^ 1074 = 2 ^ n * 5 ^ 1074 := by
    rw [hexp, zpow_sub₀ two_ne_zero, zpow_natCast, show (1074 : ℤ) = ((1074 : ℕ) : ℤ) from rfl,
      zpow_natCast, show (10 : ℚ) = 2 * 5 by norm_num, mul_pow, ← mul_assoc,
      div_mul_cancel₀ _ (pow_ne_zero _ two_ne_zero)]
  refine ⟨roundEven (q / 2 ^ ulpExp q) * (2 ^ n * 5 ^ 1074), ?_⟩
  calc (q * 10 ^ 1074 : ℚ) = round q * 10 ^ 1074 := by rw [h]
    _ = roundEven (q / 2 ^ ulpExp q) * (2 ^ ulpExp q * 10 ^ 1074) := by rw [round, mul_assoc]
    _ = _ := by
      rw [hpow, Int.cast_mul, Int.cast_mul, Int.cast_pow, Int.cast_pow, Int.cast_ofNat,
        Int.cast_ofNat]

/-- The shortest decimal is read as the magnitude. -/
theorem round_shortest {q : ℚ} (hq : 0 ≤ q) (h : round q = q) :
    round ((shortest q).1 * 10 ^ (shortest q).2) = q := by
  unfold shortest
  split_ifs with hzero
  · rw [hzero] at h ⊢
    simpa using h
  split
  · rename_i found hfound
    obtain ⟨i, -, hi⟩ := List.exists_of_findSome?_eq_some hfound
    exact round_nearest hi
  · obtain ⟨m, hm⟩ := exists_int_of_round h
    have hnonneg : 0 ≤ m := by
      have : (0 : ℚ) ≤ m := hm ▸ mul_nonneg hq (by norm_num)
      exact_mod_cast this
    have hexact : (((q * 10 ^ 1074).num.toNat : ℕ) : ℚ) * 10 ^ (-1074 : ℤ) = q := by
      rw [hm, Rat.num_intCast, ← Int.cast_natCast, Int.toNat_of_nonneg hnonneg, ← hm,
        zpow_neg, show (1074 : ℤ) = ((1074 : ℕ) : ℤ) from rfl, zpow_natCast]
      exact mul_inv_cancel_right₀ (pow_ne_zero _ (by norm_num)) q
    rw [hexact, h]

theorem ofMagnitude_eq_some (f : Float64) {q : ℚ} (h : 0 ≤ q) (hq : round q = f.magnitude) :
    ofMagnitude f.negative q h = some f := by
  unfold ofMagnitude
  rw [dif_pos (hq ▸ f.finite)]
  simp only [hq]

/-- The first character of an unsigned literal is a digit. -/
theorem read_sign (negative : Bool) {cs : List Char} {d : Decimal}
    (h : Decimal.readUnsigned negative cs = some d) :
    Decimal.read (String.ofList ((if negative then ['-'] else []) ++ cs)) = some d := by
  unfold Decimal.read
  rw [String.toList_ofList]
  cases negative with
  | true => exact h
  | false =>
    simp only [Bool.false_eq_true, if_false, List.nil_append]
    split
    · -- a literal with two signs is not read
      cases h
    · exact h

theorem parse_of_read (f : Float64) {literal : String} {d : Decimal}
    (hread : Decimal.read literal = some d) (hneg : d.negative = f.negative)
    (hmag : round d.magnitude = f.magnitude) : parse literal = some f := by
  rw [parse, hread, Option.bind_some, hneg]
  exact ofMagnitude_eq_some f _ hmag

theorem exists_readUnsigned_formatMagnitude (negative : Bool) (q : ℚ) :
    ∃ d, Decimal.readUnsigned negative (formatMagnitude q) = some d ∧ d.negative = negative ∧
      d.magnitude = (shortest q).1 * 10 ^ (shortest q).2 := by
  unfold formatMagnitude
  split
  · exact Decimal.exists_readUnsigned_scientific _ _ _
  · exact Decimal.exists_readUnsigned_plain _ _ _

/-- What is written is read back. -/
theorem parse_format (f : Float64) : parse f.format = some f := by
  obtain ⟨d, hread, hneg, hmag⟩ := exists_readUnsigned_formatMagnitude f.negative f.magnitude
  exact parse_of_read f (read_sign _ hread) hneg (hmag ▸ round_shortest f.nonneg f.rounded)

/-- The digits of a machine integer are read as the number, rounded. -/
theorem parse_toString {n : ℕ} (h : n < 2 ^ 64) :
    ∃ f, parse (toString (n : ℤ)) = some f ∧ f.value = round n := by
  have htext : toString (n : ℤ) = String.ofList (Nat.toDigits 10 n) := by
    rw [Int.toString_eq_repr, Int.repr_eq_if, if_pos (Int.natCast_nonneg n), Int.toNat_natCast,
      Nat.repr_eq_ofList_toDigits]
  have hdigits := Decimal.readUnsigned_int false (Decimal.isDigit_toDigits (n := n))
    Nat.toDigits_ne_nil Decimal.stops_nil (fun _ => nofun) (e := 0) rfl
  rw [List.append_nil, Decimal.ofDigitChars_toDigits] at hdigits
  have hread : Decimal.read (toString (n : ℤ)) = some ⟨false, n, 0⟩ := by
    rw [htext]
    exact read_sign false hdigits
  have hmag : (⟨false, n, 0⟩ : Decimal).magnitude = n := by simp [Decimal.magnitude]
  have hround : round n < 2 ^ 1024 := by
    have hle : round n ≤ 2 ^ (64 : ℤ) :=
      round_le_zpow (Nat.cast_nonneg n) (by decide) (by exact_mod_cast h)
    refine lt_of_le_of_lt hle ?_
    rw [show (64 : ℤ) = ((64 : ℕ) : ℤ) from rfl, zpow_natCast]
    exact pow_lt_pow_right₀ one_lt_two (by decide)
  refine ⟨⟨false, round n, round_nonneg (Nat.cast_nonneg n), round_round (Nat.cast_nonneg n), hround⟩,
    parse_of_read _ hread rfl ?_, ?_⟩
  · rw [hmag]
  · simp [value]

end Float64

end GoStd
