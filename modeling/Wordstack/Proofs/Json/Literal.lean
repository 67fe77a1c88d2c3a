-- SUMMARY: Counts are read back from their literals, and short decimals as the nearest double.
import Wordstack.Json.Literal
import Wordstack.Proofs.Number.Numeral
import Wordstack.Proofs.Number.Operations

/-!
# Reading the numbers of documents

A literal whose digits fit in a word is read in two steps, each of which rounds: the word
becomes a double and is then multiplied or divided by a power of ten. If the word and the
power are doubles already, the second step alone rounds, and the result is the nearest
double (`Json.floatOfLiteral?_of_short`). Longer literals may be off by a little.
-/

namespace Wordstack.Json

-- -----------------------------------------------------------------------
-- Counts
-- -----------------------------------------------------------------------

/-- A count is read back from the literal that writes it. -/
theorem countOfLiteral?_toDigits {n : Nat} (hn : n < UInt64.size) :
    countOfLiteral? (String.ofList (Nat.toDigits 10 n)) = some n := by
  have hdigits : (Nat.toDigits 10 n).all Char.isDigit = true :=
    List.all_eq_true.2 fun c hc => Nat.isDigit_of_mem_toDigits (by decide) (by decide) hc
  have hhead : ¬ ((Nat.toDigits 10 n).head? = some '0' ∧ (Nat.toDigits 10 n).length ≠ 1) := by
    rintro ⟨hhead, hlength⟩
    rcases Nat.eq_zero_or_pos n with rfl | hpos
    · exact hlength rfl
    · exact Decimal.head?_toDigits hpos hhead
  have hempty : (Nat.toDigits 10 n).isEmpty = false := by
    simp [Nat.toDigits_ne_nil]
  have htest : ¬ ((Nat.toDigits 10 n).isEmpty || !(Nat.toDigits 10 n).all Char.isDigit ||
      ((Nat.toDigits 10 n).head? == some '0' && (Nat.toDigits 10 n).length != 1)) = true := by
    simpa [hempty, hdigits] using hhead
  rw [countOfLiteral?, String.toList_ofList, if_neg htest, Decimal.natOfDigits_toDigits, if_pos hn]

-- -----------------------------------------------------------------------
-- Digits that fit in a word
-- -----------------------------------------------------------------------

namespace Significand

theorem le_ofDigitChars (ds : List Char) (n : Nat) : n ≤ Nat.ofDigitChars 10 ds n := by
  rw [Nat.ofDigitChars_eq_ofDigitChars_zero]
  exact Nat.le_add_right_of_le (Nat.le_mul_of_pos_left n (Nat.pow_pos (by decide)))

theorem whole_of_lt {ds : List Char} {n : Nat} (h : Nat.ofDigitChars 10 ds n < UInt64.size) :
    whole n ds = { digits := Nat.ofDigitChars 10 ds n, exp := 0 } := by
  induction ds generalizing n with
  | nil => rfl
  | cons c cs ih =>
    rw [Nat.ofDigitChars_cons] at h ⊢
    rw [whole, if_pos (Nat.lt_of_le_of_lt (le_ofDigitChars cs (push n c)) h)]
    exact ih h

theorem fraction_of_lt {ds : List Char} {s : Significand}
    (h : Nat.ofDigitChars 10 ds s.digits < UInt64.size) :
    s.fraction ds = { digits := Nat.ofDigitChars 10 ds s.digits, exp := s.exp - ds.length } := by
  induction ds generalizing s with
  | nil => simp [fraction]
  | cons c cs ih =>
    rw [Nat.ofDigitChars_cons] at h ⊢
    rw [fraction, if_pos (Nat.lt_of_le_of_lt (le_ofDigitChars cs (push s.digits c)) h)]
    refine (ih h).trans ?_
    simp only [push, List.length_cons]
    congr 1
    omega

end Significand

/-- A literal whose digits fit in a word is read as these digits and its power of ten. -/
theorem floatOfLiteral?_chars {n : Numeral} (h : n.Valid)
    (hlt : n.decimal.digits < UInt64.size) :
    floatOfLiteral? (String.ofList n.chars) =
      (Significand.toFloat? { digits := n.decimal.digits, exp := n.decimal.exp }).map
        fun v => if n.negative then -v else v := by
  have hexp := Numeral.exponent?_powerChars h.power
  have happend : n.decimal.digits =
      Nat.ofDigitChars 10 n.fraction (Nat.ofDigitChars 10 n.whole 0) := Nat.ofDigitChars_append 0
  rw [happend] at hlt ⊢
  have hwhole := Significand.whole_of_lt
    (Nat.lt_of_le_of_lt (Significand.le_ofDigitChars n.fraction _) hlt)
  simp only [floatOfLiteral?, String.toList_ofList, Numeral.splitSign_chars h.whole,
    h.takeWhile_whole, hwhole]
  rcases h.fraction with hnone | hdigits
  · rw [show n.fractionChars = [] by rw [Numeral.fractionChars, hnone], List.nil_append]
    rcases n.powerChars_cases with hnil | ⟨cs, hcons⟩
    · rw [hnil] at hexp ⊢
      simp [hexp, Numeral.decimal, hnone]
    · rw [hcons] at hexp ⊢
      simp [hexp, Numeral.decimal, hnone]
  · rw [Numeral.fractionChars_of_ne_nil hdigits.1]
    have hall := @Significand.fraction_of_lt n.fraction
      { digits := Nat.ofDigitChars 10 n.whole 0, exp := 0 } hlt
    have hsum : 0 - (n.fraction.length : Int) + n.exponent = n.exponent - n.fraction.length := by
      omega
    simp only [List.cons_append, Numeral.takeWhile_fraction hdigits, hall, hexp, hsum,
      Numeral.decimal]

end Wordstack.Json

-- -----------------------------------------------------------------------
-- Decimals that are doubles
-- -----------------------------------------------------------------------

namespace Wordstack.Decimal

/-- A decimal that is a double already is taken apart into its canonical form. -/
theorem scaled?_toFloat {d : Decimal} {s : Scaled} (hs : s.Canonical) (hmant : 0 < s.mant)
    (hnegative : s.negative = d.negative) (hvalue : d.value = s.value) :
    Number.scaled? d.toFloat = some s := by
  have hmagnitude : d.magnitude = s.magnitude :=
    magnitude_of_covers hs hmant (hvalue ▸ s.covers_value)
  rw [toFloat, hmagnitude, ← hnegative]
  exact Number.scaled?_ofMagnitude_magnitude hs

/-- Whole numbers up to `2 ^ 53` are doubles. -/
theorem exists_scaled?_whole {n : Nat} (hn : n ≤ 2 ^ 53) : ∃ x : Scaled,
    Number.scaled? (toFloat { negative := false, digits := n, exp := 0 }) = some x ∧
      x.negative = false ∧ x.value = n := by
  have hmin : Number.minExp = -1074 := rfl
  rcases Nat.eq_zero_or_pos n with rfl | hpos
  · refine ⟨Scaled.ofBits 0, Number.scaled?_ofMagnitude (by decide) false, rfl, ?_⟩
    have hmant : (Scaled.ofBits 0).mant = 0 := rfl
    rw [Scaled.value, hmant, Nat.cast_zero, zero_mul]
  · obtain ⟨m, e, hm, hlt, he, he', hvalue⟩ : ∃ (m : Nat) (e : ℤ), 0 < m ∧ m < 2 ^ 53 ∧ 0 ≤ e ∧
        e ≤ 53 ∧ (n : ℚ) = m * 2 ^ e := by
      rcases Nat.lt_or_eq_of_le hn with hlt | rfl
      · exact ⟨n, 0, hpos, hlt, le_refl 0, by omega, by simp⟩
      · exact ⟨1, 53, by decide, by decide, by omega, le_refl 53, by norm_num⟩
    obtain ⟨x, hx, hmant, hnegative, hxvalue⟩ :=
      Scaled.exists_canonical hm hlt (by omega : Number.minExp + 52 ≤ e) (by omega) false
    rw [← hvalue] at hxvalue
    exact ⟨x, scaled?_toFloat hx hmant hnegative (by simp [value, hxvalue]), hnegative, hxvalue⟩

/-- Powers of ten up to `10 ^ 22` are doubles. -/
theorem exists_scaled?_power {k : Nat} (hk : k ≤ 22) : ∃ y : Scaled,
    Number.scaled? (Json.Significand.power k) = some y ∧ 0 < y.mant ∧ y.negative = false ∧
      y.value = 10 ^ k := by
  have hmin : Number.minExp = -1074 := rfl
  have hlt : 5 ^ k < 2 ^ 53 :=
    Nat.lt_of_le_of_lt (Nat.pow_le_pow_right (by decide) hk) (by decide)
  obtain ⟨y, hy, hmant, hnegative, hvalue⟩ := Scaled.exists_canonical (Nat.pow_pos (by decide)) hlt
    (by omega : Number.minExp + 52 ≤ k) (by omega) false
  have hten : y.value = 10 ^ k := by
    rw [hvalue, show (10 : ℚ) = 5 * 2 by norm_num, mul_pow, zpow_natCast]
    push_cast
    rfl
  exact ⟨y, scaled?_toFloat hy hmant hnegative (by simp [value, hten]), hmant, hnegative, hten⟩

/-- A decimal with few digits and a small power of ten: both are doubles. -/
structure Short (d : Decimal) : Prop where
  digits : d.digits ≤ 2 ^ 53
  lower : -22 ≤ d.exp
  upper : d.exp ≤ 22

instance (d : Decimal) : Decidable d.Short :=
  decidable_of_iff (d.digits ≤ 2 ^ 53 ∧ -22 ≤ d.exp ∧ d.exp ≤ 22)
    ⟨fun h => ⟨h.1, h.2.1, h.2.2⟩, fun h => ⟨h.digits, h.lower, h.upper⟩⟩

theorem Short.magnitude {d : Decimal} (h : d.Short) :
    d.magnitude = Number.nearest (d.digits * 10 ^ d.exp.toNat) (10 ^ (-d.exp).toNat) := by
  obtain ⟨hdigits, hlower, hupper⟩ := h
  rcases Nat.eq_zero_or_pos d.digits with hzero | hpos
  · rw [Decimal.magnitude, if_pos hzero, Number.nearest, if_pos (by rw [hzero, Nat.zero_mul])]
  · have hlog : d.digits.log2 < 54 := (Nat.log2_lt hpos.ne').2 (by omega)
    rw [Decimal.magnitude, if_neg hpos.ne', if_neg (by simp; omega), if_neg (by simp; omega)]
    rfl

theorem Short.magnitude_lt {d : Decimal} (h : d.Short) : d.magnitude < Number.infinity := by
  have hsize : d.digits * 10 ^ d.exp.toNat < 2 ^ 127 := by
    have hpower : d.exp.toNat ≤ 22 := by
      have := h.upper
      omega
    exact (Nat.mul_le_mul h.digits (Nat.pow_le_pow_right (by decide) hpower)).trans_lt (by decide)
  rw [h.magnitude]
  apply Number.nearest_lt_infinity (by positivity)
  calc ((d.digits * 10 ^ d.exp.toNat : ℕ) : ℚ) / (10 ^ (-d.exp).toNat : ℕ)
      ≤ (d.digits * 10 ^ d.exp.toNat : ℕ) := by
        apply div_le_self (by positivity)
        exact_mod_cast Nat.one_le_pow _ 10 (by decide)
    _ < 2 ^ (127 : ℤ) := by exact_mod_cast hsize
    _ ≤ 2 ^ (1000 : ℤ) := zpow_le_zpow_right₀ one_le_two (by decide)

end Wordstack.Decimal

-- -----------------------------------------------------------------------
-- Short literals
-- -----------------------------------------------------------------------

namespace Wordstack.Json

/-- If the digits and the power of ten are doubles, the nearest double is found. -/
theorem Significand.toFloat?_of_short {d : Decimal} (h : d.Short) :
    toFloat? { digits := d.digits, exp := d.exp } =
      some (Number.ofMagnitude false d.magnitude) := by
  have hpower : d.exp.natAbs ≤ 22 := by
    have := h.lower
    have := h.upper
    omega
  obtain ⟨x, hx, hxneg, hxvalue⟩ := Decimal.exists_scaled?_whole h.digits
  obtain ⟨y, hy, hypos, hyneg, hyvalue⟩ := Decimal.exists_scaled?_power hpower
  have hsign : (x.negative != y.negative) = false := by rw [hxneg, hyneg]; rfl
  have hmax : d.exp.natAbs ≤ maxPower := hpower.trans (by decide)
  rw [h.magnitude]
  simp only [toFloat?]
  split
  next hexp =>
    have hk : (-d.exp).toNat = d.exp.natAbs := by omega
    have hquotient : (d.digits : ℚ) / (10 ^ d.exp.natAbs : ℕ) = x.value / y.value := by
      rw [hxvalue, hyvalue]
      push_cast
      rfl
    rw [hk, scaleDown, if_pos hmax, Int.toNat_of_nonpos hexp.le, pow_zero, mul_one,
      Number.div_eq hx hy hypos (by positivity) hquotient, hsign]
  next hexp =>
    have hk : d.exp.toNat = d.exp.natAbs := by omega
    have hproduct : ((d.digits * 10 ^ d.exp.natAbs : ℕ) : ℚ) / (1 : ℕ) = x.value * y.value := by
      rw [hxvalue, hyvalue]
      push_cast
      ring
    have hfinite := h.magnitude_lt
    rw [h.magnitude, Int.toNat_of_nonpos (by omega : -d.exp ≤ 0), pow_zero, hk] at hfinite
    rw [Int.toNat_of_nonpos (by omega : -d.exp ≤ 0), pow_zero, hk]
    split
    next hzero =>
      rw [hzero, zero_mul]
      rfl
    next hpos =>
      rw [Number.mul_eq hx hy one_pos hproduct, hsign,
        if_pos (Number.isFinite_ofMagnitude hfinite false)]

/-- A short literal is read as the double nearest to it. -/
theorem floatOfLiteral?_of_short {n : Numeral} (h : n.Valid) (hshort : n.decimal.Short) :
    floatOfLiteral? (String.ofList n.chars) = some n.decimal.toFloat := by
  have hlt : n.decimal.digits < UInt64.size := hshort.digits.trans_lt (by decide)
  rw [floatOfLiteral?_chars h hlt, Significand.toFloat?_of_short hshort, Decimal.toFloat]
  have hnegative : n.decimal.negative = n.negative := rfl
  cases hn : n.negative with
  | false =>
    rw [hnegative, hn]
    rfl
  | true =>
    rw [hnegative, hn]
    exact congrArg some (Number.neg_ofMagnitude hshort.magnitude_lt false)

-- -----------------------------------------------------------------------
-- Literals of counts
-- -----------------------------------------------------------------------

/-- The literal of a count. -/
def countNumeral (n : Nat) : Numeral where
  negative := false
  whole := Nat.toDigits 10 n
  fraction := []
  power := none

theorem chars_countNumeral (n : Nat) : (countNumeral n).chars = Nat.toDigits 10 n := by
  simp [countNumeral, Numeral.chars, Numeral.fractionChars, Numeral.powerChars, Number.withSign]

theorem valid_countNumeral (n : Nat) : (countNumeral n).Valid := by
  refine ⟨⟨Nat.toDigits_ne_nil, fun c hc => ?_⟩, ?_, .inl rfl, fun _ _ h => by cases h⟩
  · exact Nat.isDigit_of_mem_toDigits (by decide) (by decide) hc
  · rcases Nat.eq_zero_or_pos n with rfl | hpos
    · exact .inl rfl
    · exact .inr (Decimal.head?_toDigits hpos)

theorem decimal_countNumeral (n : Nat) :
    (countNumeral n).decimal = { negative := false, digits := n, exp := 0 } := by
  simp [countNumeral, Numeral.decimal, Numeral.exponent, Decimal.natOfDigits_toDigits]

theorem magnitude_count_lt {n : Nat} (hn : n < UInt64.size) :
    Decimal.magnitude { negative := false, digits := n, exp := 0 } < Number.infinity := by
  rcases Nat.eq_zero_or_pos n with rfl | hpos
  · decide
  · have hlog : n.log2 < 64 := (Nat.log2_lt hpos.ne').2 hn
    simp only [Decimal.magnitude]
    rw [if_neg hpos.ne', if_neg (by simp; omega), if_neg (by simp)]
    apply Number.nearest_lt_infinity (by decide)
    calc ((n * Nat.pow 10 (0 : ℤ).toNat : ℕ) : ℚ) / (Nat.pow 10 (-(0 : ℤ)).toNat : ℕ) = n := by simp
      _ < 2 ^ (64 : ℤ) := by exact_mod_cast hn
      _ ≤ 2 ^ (1000 : ℤ) := zpow_le_zpow_right₀ one_le_two (by decide)

/-- Multiplying a finite double by one leaves it finite. -/
theorem isFinite_mul_power_zero {v : Float} {x : Scaled} (hx : Number.scaled? v = some x) :
    (v * Significand.power 0).isFinite = true := by
  obtain ⟨y, hy, -, -, hyvalue⟩ := Decimal.exists_scaled?_power (Nat.zero_le 22)
  have hs := Number.canonical_of_scaled? hx
  have hvalue : ((x.mant * 2 ^ x.exp.toNat : ℕ) : ℚ) / (2 ^ (-x.exp).toNat : ℕ) = x.value := by
    push_cast
    rw [pow_toNat two_ne_zero x.exp, Scaled.value]
    field_simp
  have hden : 0 < 2 ^ (-x.exp).toNat := Nat.two_pow_pos _
  rw [Number.mul_eq hx hy hden (by rw [hvalue, hyvalue, pow_zero, mul_one]),
    Number.nearest_of_value hs hden hvalue]
  exact Number.isFinite_ofMagnitude hs.finite _

theorem Significand.exists_toFloat?_count {n : Nat} (hn : n < UInt64.size) :
    ∃ v, toFloat? { digits := n, exp := 0 } = some v := by
  have hfinite := isFinite_mul_power_zero (Number.scaled?_ofMagnitude (magnitude_count_lt hn) false)
  simp only [toFloat?, lt_self_iff_false, if_false]
  split
  · exact ⟨_, rfl⟩
  · rw [Int.toNat_zero, if_pos (Nat.zero_le maxPower)]
    exact ⟨_, if_pos hfinite⟩

/-- The literal of a count stands for a double too. -/
theorem exists_floatOfLiteral?_toDigits {n : Nat} (hn : n < UInt64.size) :
    ∃ v, floatOfLiteral? (String.ofList (Nat.toDigits 10 n)) = some v := by
  have hdecimal := decimal_countNumeral n
  have hlt : (countNumeral n).decimal.digits < UInt64.size := by rw [hdecimal]; exact hn
  obtain ⟨v, hv⟩ := Significand.exists_toFloat?_count hn
  rw [← chars_countNumeral, floatOfLiteral?_chars (valid_countNumeral n) hlt, hdecimal, hv]
  exact ⟨_, rfl⟩

end Wordstack.Json
