import BackendKit.GoStd.JsonGrammar

/-!
# Written numbers are literals

`json.Marshal` writes a `float64` by its shortest decimal, with or without an exponent, and an integer by
its digits. Both are literals of JSON (`isLiteral_format`, `isLiteral_toString`), so that a text with them
is read back.
-/

namespace GoStd

namespace JsonText

/-- An integer part: zero, or digits that do not begin with it. -/
def IsInt (int : List Char) : Prop :=
  int = ['0'] ∨ (int ≠ [] ∧ (∀ d ∈ int, d.isDigit = true) ∧ int.head? ≠ some '0')

variable {int exponent fraction : List Char}

theorem scanInt_append {rest : List Char} (h : IsInt int) (hrest : NoDigit rest) :
    scanInt (int ++ rest) = some (int, rest) := by
  rcases h with rfl | ⟨hne, hall, hzero⟩
  · rfl
  · rw [← scanDigits_append hne hall hrest]
    obtain ⟨d, ds, rfl⟩ := List.exists_cons_of_ne_nil hne
    rw [List.cons_append]
    unfold scanInt
    split
    next heq => exact absurd (congrArg some (List.cons.inj heq).1) hzero
    next => rfl

/-- Nothing, or a point and digits. -/
def IsFraction (fraction : List Char) : Prop :=
  fraction = [] ∨ ∃ ds, fraction = '.' :: ds ∧ ds ≠ [] ∧ ∀ d ∈ ds, d.isDigit = true

/-- Nothing, or a written exponent. -/
def IsExponent (exponent : List Char) : Prop := exponent = [] ∨ ∃ x, exponent = Decimal.writeExponent x

theorem IsExponent.noDigit (h : IsExponent exponent) : NoDigit exponent := by
  rcases h with rfl | ⟨x, rfl⟩
  · exact fun c hc => nomatch hc
  · exact noDigit_cons (by decide)

theorem scanFraction_append (h : IsFraction fraction) (hexp : IsExponent exponent) :
    scanFraction (fraction ++ exponent) = some (fraction, exponent) := by
  rcases h with rfl | ⟨ds, rfl, hne, hall⟩
  · rcases hexp with rfl | ⟨x, rfl⟩
    · rfl
    · rfl
  · rw [List.cons_append, scanFraction, scanDigits_append hne hall hexp.noDigit]
    rfl

theorem scanExponent_written (h : IsExponent exponent) :
    scanExponent exponent = some (exponent, []) := by
  rcases h with rfl | ⟨x, rfl⟩
  · rfl
  · have hdigits : scanDigits (Nat.toDigits 10 x.natAbs) = some (Nat.toDigits 10 x.natAbs, []) := by
      have happend : scanDigits (Nat.toDigits 10 x.natAbs ++ []) = some (Nat.toDigits 10 x.natAbs, []) :=
        scanDigits_append Nat.toDigits_ne_nil Decimal.isDigit_toDigits stops_nil.noDigit
      rwa [List.append_nil] at happend
    unfold Decimal.writeExponent
    split
    next => simp [scanExponent, hdigits]
    next => simp [scanExponent, hdigits]

theorem IsFraction.noDigit (h : IsFraction fraction) (hexp : IsExponent exponent) :
    NoDigit (fraction ++ exponent) := by
  rcases h with rfl | ⟨ds, rfl, -⟩
  · exact hexp.noDigit
  · exact noDigit_cons (by decide)

/-- The three parts make an unsigned literal. -/
theorem scanUnsigned_parts (hint : IsInt int) (hfrac : IsFraction fraction)
    (hexp : IsExponent exponent) :
    scanUnsigned (int ++ (fraction ++ exponent)) = some (int ++ (fraction ++ exponent), []) := by
  unfold scanUnsigned
  rw [scanInt_append hint (hfrac.noDigit hexp)]
  simp [scanFraction_append hfrac hexp, scanExponent_written hexp]

/-- A literal without a sign. -/
def IsUnsigned (cs : List Char) : Prop :=
  ∃ int fraction exponent, cs = int ++ (fraction ++ exponent) ∧ IsInt int ∧ IsFraction fraction ∧
    IsExponent exponent

theorem isLiteral_signed (negative : Bool) {cs : List Char} (h : IsUnsigned cs) :
    IsLiteral (String.ofList ((if negative then ['-'] else []) ++ cs)) := by
  obtain ⟨int, fraction, exponent, rfl, hint, hfrac, hexp⟩ := h
  have hscan := scanUnsigned_parts hint hfrac hexp
  unfold IsLiteral
  rw [String.toList_ofList]
  cases negative with
  | true =>
    show (scanUnsigned (int ++ (fraction ++ exponent))).map _ = _
    rw [hscan]
    rfl
  | false =>
    have hhead : ∀ cs, int ++ (fraction ++ exponent) ≠ '-' :: cs := by
      intro cs heq
      rw [heq] at hscan
      cases hscan
    show scanNumber (int ++ (fraction ++ exponent)) = _
    unfold scanNumber
    split
    next heq => exact absurd heq (hhead _)
    next => exact hscan

/-- The digits of a positive number do not begin with a zero. -/
theorem head?_toDigits {n : ℕ} (h : 0 < n) : (Nat.toDigits 10 n).head? ≠ some '0' := by
  induction n using Nat.strongRecOn with
  | ind n ih =>
    by_cases hlt : n < 10
    · rw [Nat.toDigits_of_lt_base hlt]
      interval_cases n <;> decide
    · rw [Nat.toDigits_of_base_le (by decide) (not_lt.mp hlt)]
      have hdiv : 0 < n / 10 := Nat.div_pos (not_lt.mp hlt) (by decide)
      rw [List.head?_append_of_ne_nil _ Nat.toDigits_ne_nil]
      exact ih (n / 10) (Nat.div_lt_self h (by decide)) hdiv

theorem isInt_toDigits (n : ℕ) : IsInt (Nat.toDigits 10 n) := by
  obtain rfl | hpos := n.eq_zero_or_pos
  · exact .inl (Nat.toDigits_zero 10)
  · exact .inr ⟨Nat.toDigits_ne_nil, Decimal.isDigit_toDigits, head?_toDigits hpos⟩

theorem isUnsigned_int (h : IsInt int) : IsUnsigned int :=
  ⟨int, [], [], (List.append_nil _).symm, h, .inl rfl, .inl rfl⟩

theorem isUnsigned_point {ds : List Char} (h : IsInt int) (hne : ds ≠ [])
    (hall : ∀ d ∈ ds, d.isDigit = true) : IsUnsigned (int ++ '.' :: ds) :=
  ⟨int, '.' :: ds, [], by rw [List.append_nil], h, .inr ⟨ds, rfl, hne, hall⟩, .inl rfl⟩

/-- What is written for an integer is a literal. -/
theorem isLiteral_toString (n : ℤ) : IsLiteral (toString n) := by
  rw [Int.toString_eq_repr, Int.repr_eq_if]
  split
  next =>
    rw [Nat.repr_eq_ofList_toDigits]
    exact isLiteral_signed false (isUnsigned_int (isInt_toDigits n.toNat))
  next =>
    rw [Nat.repr_eq_ofList_toDigits]
    have hsigned := isLiteral_signed true (isUnsigned_int (isInt_toDigits (-n).toNat))
    rwa [String.ofList_append] at hsigned

/-! ### Written decimals -/

/-- A decimal with a point, if it has one. Digits that are all zeros stand alone. -/
theorem isUnsigned_plain {digits : ℕ} {exponent : ℤ} (h : digits = 0 → exponent = 0) :
    IsUnsigned (Decimal.plain digits exponent) := by
  have hdigits : ∀ d ∈ Nat.toDigits 10 digits, d.isDigit = true := Decimal.isDigit_toDigits
  have hne : Nat.toDigits 10 digits ≠ [] := Nat.toDigits_ne_nil
  unfold Decimal.plain
  dsimp only
  split_ifs with hexp hpoint
  · -- zeros at the end
    obtain rfl | hpos := digits.eq_zero_or_pos
    · rw [h rfl]
      exact isUnsigned_int (.inl rfl)
    · refine isUnsigned_int (.inr ⟨by simp [hne], ?_, ?_⟩)
      · exact List.forall_mem_append.mpr ⟨hdigits, Decimal.isDigit_zeros _⟩
      · rw [List.head?_append_of_ne_nil _ hne]
        exact head?_toDigits hpos
  · -- zeros after the point
    refine isUnsigned_point (.inl rfl) (by simp [hne]) ?_
    exact List.forall_mem_append.mpr ⟨Decimal.isDigit_zeros _, hdigits⟩
  · -- the point is among the digits
    obtain rfl | hpos := digits.eq_zero_or_pos
    · exact absurd (h rfl).ge hexp
    refine isUnsigned_point (.inr ⟨?_, fun d hd => hdigits d (List.mem_of_mem_take hd), ?_⟩) ?_
      fun d hd => hdigits d (List.mem_of_mem_drop hd)
    · exact fun hnil => (List.take_eq_nil_iff.mp hnil).elim (by omega) hne
    · rw [List.head?_take, if_neg (by omega)]
      exact head?_toDigits hpos
    · intro hnil
      rw [List.drop_eq_nil_iff] at hnil
      omega

/-- A decimal with an exponent. -/
theorem isUnsigned_scientific (digits : ℕ) (exponent : ℤ) :
    IsUnsigned (Decimal.scientific digits exponent) := by
  have hdigits : ∀ d ∈ Nat.toDigits 10 digits, d.isDigit = true := Decimal.isDigit_toDigits
  have hne : Nat.toDigits 10 digits ≠ [] := Nat.toDigits_ne_nil
  unfold Decimal.scientific
  dsimp only
  split_ifs with hone
  · exact ⟨_, [], _, rfl, isInt_toDigits digits, .inl rfl, .inr ⟨_, rfl⟩⟩
  · refine ⟨(Nat.toDigits 10 digits).take 1, '.' :: (Nat.toDigits 10 digits).drop 1, _, rfl, ?_,
      .inr ⟨_, rfl, ?_, fun d hd => hdigits d (List.mem_of_mem_drop hd)⟩, .inr ⟨_, rfl⟩⟩
    · obtain rfl | hpos := digits.eq_zero_or_pos
      · exact absurd (by simp) hone
      · refine .inr ⟨?_, fun d hd => hdigits d (List.mem_of_mem_take hd), ?_⟩
        · exact fun hnil => (List.take_eq_nil_iff.mp hnil).elim (by decide) hne
        · rw [List.head?_take, if_neg (by decide)]
          exact head?_toDigits hpos
    · intro hnil
      rw [List.drop_eq_nil_iff] at hnil
      have hlen := List.length_pos_iff.mpr hne
      omega

/-- The shortest decimal of zero is the digit zero. -/
theorem shortest_eq_zero {q : ℚ} (hq : 0 ≤ q) (hround : Float64.round q = q)
    (h : (Float64.shortest q).1 = 0) : (Float64.shortest q).2 = 0 := by
  have hzero : q = 0 := by
    rw [← Float64.round_shortest hq hround, h]
    have hround0 : Float64.round 0 = 0 := by exact_mod_cast Float64.round_natCast (n := 0) (by norm_num)
    simpa using hround0
  rw [hzero, Float64.shortest, if_pos rfl]

/-- What is written for a `float64` is a literal. -/
theorem isLiteral_format (f : Float64) : IsLiteral f.format := by
  refine isLiteral_signed f.negative ?_
  unfold Float64.formatMagnitude
  split
  next => exact isUnsigned_scientific _ _
  next => exact isUnsigned_plain (shortest_eq_zero f.nonneg f.rounded)

end JsonText

end GoStd
