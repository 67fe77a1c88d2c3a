-- SUMMARY: A number that is printed is read back as the number, and two numbers are printed alike exactly if they are equal.
import Wordstack.Proofs.Lexeme.Classify
import Wordstack.Proofs.Number.Text

/-!
# Printed numbers

Whole numbers below `10 ^ 15` are printed as integers and all others with their shortest
digits, but both are literals in the interval of the number. So what is printed is read back,
save for the sign of a zero (`Number.number?_text`).
-/

namespace Wordstack

open Float.Model (UnpackedFloat)

-- -----------------------------------------------------------------------
-- The sign of a zero
-- -----------------------------------------------------------------------

namespace Scaled

/-- The parts without the sign of a zero. -/
def unsigned (s : Scaled) : Scaled := { s with negative := s.negative && s.mant ≠ 0 }

variable {s t : Scaled}

theorem unsigned_of_pos (h : 0 < s.mant) : s.unsigned = s := by
  obtain ⟨negative, mant, exp⟩ := s
  have hne : mant ≠ 0 := h.ne'
  simp [unsigned, hne]

theorem mant_unsigned (s : Scaled) : s.unsigned.mant = s.mant := rfl

theorem unsigned_unsigned (s : Scaled) : s.unsigned.unsigned = s.unsigned := by
  simp [unsigned]

theorem magnitude_unsigned (s : Scaled) : s.unsigned.magnitude = s.magnitude := rfl

theorem Canonical.unsigned (h : s.Canonical) : s.unsigned.Canonical :=
  ⟨h.minExp_le, h.mant_lt, h.normal, h.finite⟩

theorem unsigned_of_zero (h : s.Canonical) (hzero : s.mant = 0) :
    s.unsigned = { negative := false, mant := 0, exp := Number.minExp } := by
  simp [Scaled.unsigned, hzero, h.exp_of_zero hzero]

/-- The machine compares a double other than zero by its sign, exponent and mantissa. -/
theorem compare_of_pos (hs : 0 < s.mant) (ht : 0 < t.mant) :
    s.unpacked.compare t.unpacked = some .eq ↔ s = t := by
  obtain ⟨sneg, smant, sexp⟩ := s
  obtain ⟨tneg, tmant, texp⟩ := t
  rw [unpacked_of_pos hs, unpacked_of_pos ht, Scaled.mk.injEq]
  cases sneg <;> cases tneg <;>
    simp [sign, UnpackedFloat.compare, Ordering.then_eq_eq, and_comm]

/-- Finite doubles compare equal if they have the same parts, or are both zero. -/
theorem compare_unpacked (hs : s.Canonical) (ht : t.Canonical) :
    s.unpacked.compare t.unpacked = some .eq ↔ s.unsigned = t.unsigned := by
  have hmant (h : s.unsigned = t.unsigned) : s.mant = t.mant := by
    rw [← s.mant_unsigned, h, mant_unsigned]
  rcases Nat.eq_zero_or_pos s.mant with hszero | hspos
  · rcases Nat.eq_zero_or_pos t.mant with htzero | htpos
    · rw [unpacked_of_zero hszero, unpacked_of_zero htzero, unsigned_of_zero hs hszero,
        unsigned_of_zero ht htzero]
      simp [UnpackedFloat.compare]
    · refine iff_of_false ?_ fun h => by have := hmant h; omega
      rw [unpacked_of_zero hszero, unpacked_of_pos htpos]
      cases t.negative <;> simp [sign, UnpackedFloat.compare]
  · rcases Nat.eq_zero_or_pos t.mant with htzero | htpos
    · refine iff_of_false ?_ fun h => by have := hmant h; omega
      rw [unpacked_of_pos hspos, unpacked_of_zero htzero]
      cases s.negative <;> simp [sign, UnpackedFloat.compare]
    · rw [compare_of_pos hspos htpos, unsigned_of_pos hspos, unsigned_of_pos htpos]

-- -----------------------------------------------------------------------
-- Whole numbers
-- -----------------------------------------------------------------------

/-- The value of a whole number. -/
def units (s : Scaled) : Nat := s.mant * 2 ^ s.exp.toNat / 2 ^ (-s.exp).toNat

theorem cast_units (h : s.mant % 2 ^ (-s.exp).toNat = 0) : (s.units : ℚ) = s.value := by
  have hexact : s.units * 2 ^ (-s.exp).toNat = s.mant * 2 ^ s.exp.toNat :=
    Nat.div_mul_cancel ((Nat.dvd_of_mod_eq_zero h).mul_right _)
  have hexact : (s.units : ℚ) * 2 ^ (-s.exp).toNat = s.mant * 2 ^ s.exp.toNat := by
    exact_mod_cast hexact
  rw [pow_toNat two_ne_zero s.exp, ← mul_assoc] at hexact
  exact mul_right_cancel₀ (pow_ne_zero _ two_ne_zero) hexact

theorem units_eq_zero_iff (h : s.mant % 2 ^ (-s.exp).toNat = 0) : s.units = 0 ↔ s.mant = 0 := by
  rw [← @Nat.cast_eq_zero ℚ, cast_units h, value, mul_eq_zero, Nat.cast_eq_zero,
    or_iff_left (zpow_ne_zero _ two_ne_zero)]

end Scaled

-- -----------------------------------------------------------------------
-- Printing and reading
-- -----------------------------------------------------------------------

namespace Number

/-- The literal that a whole number is printed as. -/
def wholeNumeral (s : Scaled) : Numeral where
  negative := s.unsigned.negative
  whole := Nat.toDigits 10 s.units
  fraction := []
  power := none

/-- Whether a number is printed as an integer. -/
def PrintsWhole (s : Scaled) : Prop := s.mant % 2 ^ (-s.exp).toNat = 0 ∧ s.units < 10 ^ 15

instance (s : Scaled) : Decidable (PrintsWhole s) := inferInstanceAs (Decidable (_ ∧ _))

/-- The literal that a finite number is printed as. -/
def printedNumeral (s : Scaled) : Numeral :=
  if PrintsWhole s then wholeNumeral s else (Digits.shortest .up s).written s.negative

variable {v w : Float} {s t : Scaled}

/-- Only numbers other than zero have a fraction or are large. -/
theorem mant_pos_of_not_printsWhole (h : ¬ PrintsWhole s) : 0 < s.mant := by
  refine Nat.pos_of_ne_zero fun hzero => h ⟨?_, ?_⟩
  · rw [hzero, Nat.zero_mod]
  · rw [Scaled.units, hzero, Nat.zero_mul, Nat.zero_div]
    decide

theorem isWhole_of_scaled? (h : scaled? v = some s) :
    isWhole v = decide (s.mant % 2 ^ (-s.exp).toNat = 0) := by
  simp only [isWhole, h]
  rfl

theorem text_eq (h : scaled? v = some s) : text v = String.ofList (printedNumeral s).chars := by
  have hunits : s.mant * Nat.pow 2 s.exp.toNat / Nat.pow 2 (-s.exp).toNat = s.units := rfl
  have hcond : (isWhole v && decide (s.units < Nat.pow 10 15)) = decide (PrintsWhole s) := by
    rw [isWhole_of_scaled? h, ← Bool.decide_and]
    rfl
  simp only [text, h, hunits, hcond, decide_eq_true_eq]
  unfold printedNumeral
  split
  next hprints =>
    have hsign : (s.negative && decide (s.units ≠ 0)) = s.unsigned.negative := by
      simp [Scaled.unsigned, Scaled.units_eq_zero_iff hprints.1]
    rw [hsign, Numeral.chars]
    simp [wholeNumeral, Numeral.fractionChars, Numeral.powerChars]
  next hprints =>
    simp only [plainText, h]
    rw [if_neg (mant_pos_of_not_printsWhole hprints).ne', Digits.chars_written]

theorem valid_wholeNumeral (s : Scaled) : (wholeNumeral s).Valid := by
  refine ⟨⟨Nat.toDigits_ne_nil, ?_⟩, ?_, .inl rfl, by simp [wholeNumeral]⟩
  · exact fun c hc => Nat.isDigit_of_mem_toDigits (by decide) (by decide) hc
  · rcases Nat.eq_zero_or_pos s.units with hzero | hpos
    · left
      simp only [wholeNumeral, hzero]
      rfl
    · exact .inr (Decimal.head?_toDigits hpos)

theorem valid_printedNumeral (hs : s.Canonical) : (printedNumeral s).Valid := by
  unfold printedNumeral
  split
  next => exact valid_wholeNumeral s
  next hprints =>
    exact Digits.valid_written
      (Digits.proper_shortest .up hs (mant_pos_of_not_printsWhole hprints)) _

theorem negative_printedNumeral (s : Scaled) :
    (printedNumeral s).negative = s.unsigned.negative := by
  unfold printedNumeral
  split
  · rfl
  next hprints =>
    rw [Digits.negative_written, Scaled.unsigned_of_pos (mant_pos_of_not_printsWhole hprints)]

theorem value_wholeNumeral (hwhole : s.mant % 2 ^ (-s.exp).toNat = 0) :
    (wholeNumeral s).decimal.value = s.value := by
  rw [← Scaled.cast_units hwhole]
  simp [Decimal.value, Numeral.decimal, Numeral.exponent, wholeNumeral,
    Decimal.natOfDigits_toDigits]

/-- Whether written as an integer or with its shortest digits, the literal is rounded to the
number. -/
theorem covers_printedNumeral (s : Scaled) : s.Covers (printedNumeral s).decimal.value := by
  unfold printedNumeral
  split
  next hprints =>
    rw [value_wholeNumeral hprints.1]
    exact s.covers_value
  next =>
    rw [Digits.value_written]
    exact Digits.covers_shortest .up s

theorem magnitude_printedNumeral (hs : s.Canonical) :
    (printedNumeral s).decimal.magnitude = s.magnitude := by
  rcases Nat.eq_zero_or_pos s.mant with hzero | hmant
  · have hprints : PrintsWhole s := by
      by_contra hnot
      exact absurd hzero (mant_pos_of_not_printsWhole hnot).ne'
    have hdigits : (printedNumeral s).decimal.digits = 0 := by
      rw [printedNumeral, if_pos hprints]
      simp only [Numeral.decimal, wholeNumeral, List.append_nil, Decimal.natOfDigits_toDigits]
      exact (Scaled.units_eq_zero_iff hprints.1).mpr hzero
    rw [Decimal.magnitude, if_pos hdigits, hs.magnitude_of_zero hzero]
  · exact Decimal.magnitude_of_covers hs hmant (covers_printedNumeral s)

/-- What is printed is read as the number without the sign of a zero. -/
theorem number?_text (h : scaled? v = some s) :
    Token.number? (text v) = some (ofMagnitude s.unsigned.negative s.magnitude) := by
  have hs := canonical_of_scaled? h
  rw [text_eq h, Token.number?, String.toList_ofList,
    Numeral.parse?_chars (valid_printedNumeral hs), Option.map_some, Decimal.toFloat,
    magnitude_printedNumeral hs]
  rw [show (printedNumeral s).decimal.negative = s.unsigned.negative from
    negative_printedNumeral s]

theorem beq_iff (hv : scaled? v = some s) (hw : scaled? w = some t) :
    (v == w) = true ↔ s.unsigned = t.unsigned := by
  change (v.toModel.unpack.compare w.toModel.unpack == some .eq) = true ↔ _
  rw [unpack_of_scaled? hv, unpack_of_scaled? hw, beq_iff_eq,
    Scaled.compare_unpacked (canonical_of_scaled? hv) (canonical_of_scaled? hw)]

theorem printedNumeral_unsigned (s : Scaled) : printedNumeral s.unsigned = printedNumeral s := by
  have hwhole : wholeNumeral s.unsigned = wholeNumeral s := by
    simp only [wholeNumeral, Scaled.unsigned_unsigned]
    rfl
  have hprints : PrintsWhole s.unsigned ↔ PrintsWhole s := Iff.rfl
  unfold printedNumeral
  simp only [hwhole, hprints]
  split
  · rfl
  next hnot => rw [Scaled.unsigned_of_pos (mant_pos_of_not_printsWhole hnot)]

theorem text_eq_text_iff (hv : scaled? v = some s) (hw : scaled? w = some t) :
    text v = text w ↔ s.unsigned = t.unsigned := by
  constructor
  · intro h
    have hread := number?_text hv
    rw [h, number?_text hw, Option.some.injEq] at hread
    have hs := scaled?_ofMagnitude_magnitude (canonical_of_scaled? hv).unsigned
    have ht := scaled?_ofMagnitude_magnitude (canonical_of_scaled? hw).unsigned
    rw [Scaled.magnitude_unsigned] at hs ht
    rw [← hread, ht] at hs
    exact (Option.some.inj hs).symm
  · intro h
    rw [text_eq hv, text_eq hw, ← printedNumeral_unsigned s, h, printedNumeral_unsigned]

/-- Of all finite doubles, negative zero alone has other bits without the sign of a zero. -/
theorem toBits_unsigned (h : scaled? v = some s) :
    (ofMagnitude s.unsigned.negative s.magnitude).toBits =
      if v.toBits = 0x8000000000000000 then 0 else v.toBits := by
  have hs := canonical_of_scaled? h
  have hv : v.toBits.toNat = bitsOf s.negative s.magnitude := by
    rw [← toBits_ofMagnitude (Nat.le_of_lt hs.finite), ofMagnitude_of_scaled? h]
  have hnegative : v.toBits = 0x8000000000000000 ↔ bitsOf s.negative s.magnitude = 2 ^ 63 := by
    rw [← UInt64.toNat_inj, hv]
    rfl
  apply UInt64.toNat_inj.mp
  simp only [toBits_ofMagnitude (Nat.le_of_lt hs.finite), hnegative]
  rcases Nat.eq_zero_or_pos s.mant with hzero | hmant
  · rw [Scaled.unsigned_of_zero hs hzero, hs.magnitude_of_zero hzero]
    split
    · rfl
    next hne =>
      rw [hv, hs.magnitude_of_zero hzero]
      cases hsign : s.negative with
      | false => rfl
      | true =>
        rw [hsign] at hne
        exact absurd rfl hne
  · have hne : bitsOf s.negative s.magnitude ≠ 2 ^ 63 := by
      have hpos : s.mant ≤ s.magnitude := Nat.le_add_left _ _
      have hfinite := hs.finite
      have hinfinity : infinity = 2047 * 2 ^ 52 := rfl
      unfold bitsOf
      split <;> omega
    rw [Scaled.unsigned_of_pos hmant, if_neg hne, hv]

/-- The word that is printed for a finite double is a literal, which is read back with the
bits of the double; only the sign of a negative zero is lost. So two finite doubles are
printed as the same word exactly if they are equal. -/
theorem text_reads_back {a b : UInt64} (ha : (Float.ofBits a).isFinite = true)
    (hb : (Float.ofBits b).isFinite = true) :
    (∃ v, Token.ofWord (text (Float.ofBits a)) = .num .num v ∧
      v.toBits = if a = 0x8000000000000000 then 0 else a) ∧
    (text (Float.ofBits a) = text (Float.ofBits b) ↔
      (Float.ofBits a == Float.ofBits b) = true) := by
  obtain ⟨s, hs⟩ := (isFinite_iff _).mp ha
  obtain ⟨t, ht⟩ := (isFinite_iff _).mp hb
  refine ⟨⟨_, Token.ofWord_of_number? (number?_text hs), ?_⟩, ?_⟩
  · rw [toBits_unsigned hs, toBits_ofBits ha]
  · rw [text_eq_text_iff hs ht, beq_iff hs ht]

/-- The least positive double is read back from its 326 characters, and both zeros are
printed as `0`. -/
theorem text_reads_back_at_extremes :
    (∃ v, Token.ofWord (text (Float.ofBits 1)) = .num .num v ∧ v.toBits = 1) ∧
    (∃ v, Token.ofWord (text (Float.ofBits 0x8000000000000000)) = .num .num v ∧ v.toBits = 0) ∧
    text (Float.ofBits 0x8000000000000000) = text (Float.ofBits 0) ∧
    text (Float.ofBits 0x430c6bf526340000) ≠ text (Float.ofBits 0x430c6bf52633ffff) := by
  have hleast : (Float.ofBits 1).isFinite = true := by decide
  have hminus : (Float.ofBits 0x8000000000000000).isFinite = true := by decide
  have hzero : (Float.ofBits 0).isFinite = true := by decide
  have hbound : (Float.ofBits 0x430c6bf526340000).isFinite = true := by decide
  have hbelow : (Float.ofBits 0x430c6bf52633ffff).isFinite = true := by decide
  refine ⟨(text_reads_back hleast hzero).1, (text_reads_back hminus hzero).1,
    (text_reads_back hminus hzero).2.mpr (by decide), ?_⟩
  rw [ne_eq, (text_reads_back hbound hbelow).2]
  decide

end Number

end Wordstack
