-- SUMMARY: Products and quotients of doubles are rounded once, to the nearest double.
import Wordstack.Proofs.Number.Rounding

/-!
# Negation, multiplication and division

The machine multiplies and divides mantissas and then shortens the result. While it does
so it keeps two further bits of what was lost, which is all that rounding has to know.
So a product or quotient of finite doubles is the double nearest to the exact one
(`Number.mul_eq`, `Number.div_eq`).
-/

namespace Wordstack.Number

open Float.Model Float.Model.UnpackedFloat

-- -----------------------------------------------------------------------
-- Mantissas with two further bits
-- -----------------------------------------------------------------------

/-- What a mantissa with its two further bits says about a quotient: its whole part,
whether a half is left over or more, and whether something else is. -/
structure Keeps (em : ExtendedMantissa) (num den : Nat) : Prop where
  mantissa : em.mantissa = num / den
  roundBit : em.roundBit = true ↔ den ≤ 2 * (num % den)
  stickyBit : em.stickyBit = true ↔ num % den ≠ 0 ∧ 2 * (num % den) ≠ den

theorem keeps_accuracy (num : Nat) {den : Nat} (hden : 0 < den) :
    Keeps (.ofMantissaAndAccuracy (num / den) (accuracyOfFraction (num % den) den)) num den := by
  unfold accuracyOfFraction
  split
  next hzero =>
    constructor <;> simp [ExtendedMantissa.ofMantissaAndAccuracy, hzero]
    omega
  next hpos =>
    cases hcompare : compare (2 * (num % den)) den with
    | lt =>
      rw [Nat.compare_eq_lt] at hcompare
      constructor <;> simp [ExtendedMantissa.ofMantissaAndAccuracy] <;> omega
    | eq =>
      rw [Nat.compare_eq_eq] at hcompare
      constructor <;> simp [ExtendedMantissa.ofMantissaAndAccuracy] <;> omega
    | gt =>
      rw [Nat.compare_eq_gt] at hcompare
      constructor <;> simp [ExtendedMantissa.ofMantissaAndAccuracy] <;> omega

/-- A shift by one place halves the quotient. -/
theorem Keeps.shiftRightOne {em : ExtendedMantissa} {num den : Nat} (hden : 0 < den)
    (h : Keeps em num den) : Keeps em.shiftRightOne num (den * 2) := by
  obtain ⟨hmant, hround, hsticky⟩ := h
  have hlt := Nat.mod_lt num hden
  have hmod : em.mantissa % 2 = 0 ∧ num % (den * 2) = num % den ∨
      em.mantissa % 2 = 1 ∧ num % (den * 2) = num % den + den := by
    rw [hmant, Nat.mod_mul]
    rcases Nat.mod_two_eq_zero_or_one (num / den) with hbit | hbit <;> simp [hbit]
  constructor
  · rw [ExtendedMantissa.shiftRightOne, hmant, Nat.div_div_eq_div_mul]
  · simp only [ExtendedMantissa.shiftRightOne, bne_iff_ne]
    omega
  · simp only [ExtendedMantissa.shiftRightOne, Bool.or_eq_true, hround, hsticky]
    omega

theorem Keeps.shiftRight {em : ExtendedMantissa} {num den : Nat} (hden : 0 < den)
    (h : Keeps em num den) (n : Nat) : Keeps (em >>> n) num (den * 2 ^ n) := by
  change Keeps (n.repeat ExtendedMantissa.shiftRightOne em) num (den * 2 ^ n)
  induction n with
  | zero => simpa [Nat.repeat] using h
  | succ n ih =>
    rw [Nat.repeat, Nat.pow_succ, ← Nat.mul_assoc]
    exact ih.shiftRightOne (Nat.mul_pos hden (Nat.two_pow_pos n))

/-- The two further bits suffice to round. -/
theorem Keeps.roundedMantissa {em : ExtendedMantissa} {num den : Nat}
    (h : Keeps em num den) : em.roundedMantissa = roundHalfEven num den := by
  obtain ⟨mant, round, sticky⟩ := em
  obtain ⟨hmant, hround, hsticky⟩ := h
  simp only at hmant hround hsticky
  rw [roundHalfEven, ← hmant]
  cases round with
  | false =>
    have hlt : 2 * (num % den) < den := by simpa using hround
    simp only [hlt, if_true]
    cases sticky <;> rfl
  | true =>
    have hge : den ≤ 2 * (num % den) := by simpa using hround
    simp only [Nat.not_lt.2 hge, if_false]
    cases sticky with
    | false =>
      have heq : ¬ den < 2 * (num % den) := by
        simp at hsticky
        omega
      simp only [heq, if_false]
      rfl
    | true =>
      have hgt : den < 2 * (num % den) := by
        simp at hsticky
        omega
      simp only [hgt, if_true]
      rfl

-- -----------------------------------------------------------------------
-- Rounding on the machine
-- -----------------------------------------------------------------------

/-- The exponent of the last place that a mantissa is shortened to. -/
theorem targetExponent_eq (m : Nat) (e : Int) :
    Format.binary64.targetExponent (totalExponent m e) = max (m.log2 + 1 + e - 53) minExp := rfl

/-- A rounded mantissa with its exponent. One of 54 places is shortened once more, which
loses nothing. -/
def carried (negative : Bool) (r : Nat) (t : Int) : Scaled :=
  if r = 2 ^ 53 then { negative, mant := 2 ^ 52, exp := t + 1 }
  else { negative, mant := r, exp := t }

theorem shiftToTargetExponent_carried {r : Nat} {t : Int} (hr : r ≤ 2 ^ 53) (ht : minExp ≤ t)
    (negative : Bool) :
    (shiftToTargetExponent Format.binary64 r t .exact).1.mantissa = (carried negative r t).mant ∧
      (shiftToTargetExponent Format.binary64 r t .exact).2 = (carried negative r t).exp := by
  simp only [shiftToTargetExponent, shiftToExponent, targetExponent_eq]
  unfold carried
  split
  next heq =>
    subst heq
    have hlog : (2 ^ 53 : Nat).log2 = 53 := Nat.log2_two_pow
    have hshift : (max (((2 ^ 53 : Nat).log2 : Int) + 1 + t - 53) minExp - t).toNat = 1 := by
      rw [hlog]
      omega
    rw [hshift]
    exact ⟨rfl, rfl⟩
  next hne =>
    have hlog : r.log2 < 53 := by
      rcases Nat.eq_zero_or_pos r with rfl | hpos
      · decide
      · exact (Nat.log2_lt (by omega)).2 (by omega)
    have hshift : (max ((r.log2 : Int) + 1 + t - 53) minExp - t).toNat = 0 := by omega
    rw [hshift]
    exact ⟨rfl, by simp⟩

theorem negative_carried (negative : Bool) (r : Nat) (t : Int) :
    (carried negative r t).negative = negative := by
  unfold carried
  split <;> rfl

section Machine

variable {num den : Nat} {e t : Int}

/-- The shortened mantissa has 53 places, or one more if it was rounded up, unless its
exponent is the least one. -/
theorem shortened_bounds (ht : t = max ((num / den).log2 + 1 + e - 53) minExp) (he : e ≤ t) :
    roundHalfEven num (den * 2 ^ (t - e).toNat) ≤ 2 ^ 53 ∧
      (t = minExp ∨ 2 ^ 52 ≤ roundHalfEven num (den * 2 ^ (t - e).toNat)) := by
  have hcases := roundHalfEven_cases num (den * 2 ^ (t - e).toNat)
  rw [← Nat.div_div_eq_div_mul] at hcases
  have hlt : num / den / 2 ^ (t - e).toNat < 2 ^ 53 := by
    rw [Nat.div_lt_iff_lt_mul (Nat.two_pow_pos _), ← Nat.pow_add]
    exact Nat.lt_of_lt_of_le Nat.lt_log2_self (Nat.pow_le_pow_right (by decide) (by omega))
  refine ⟨by omega, ?_⟩
  by_cases hmin : t = minExp
  · exact .inl hmin
  · have hne : num / den ≠ 0 := by
      intro hzero
      rw [hzero, Nat.log2_zero] at ht
      omega
    have hle : 2 ^ 52 ≤ num / den / 2 ^ (t - e).toNat := by
      rw [Nat.le_div_iff_mul_le (Nat.two_pow_pos _), ← Nat.pow_add]
      exact Nat.le_trans (Nat.pow_le_pow_right (by decide) (by omega)) (Nat.log2_self_le hne)
    exact .inr (by omega)

/-- The machine rounds the shortened mantissa. -/
theorem roundWithAccuracy_eq (hden : 0 < den)
    (ht : t = max ((num / den).log2 + 1 + e - 53) minExp) (he : e ≤ t) (negative : Bool) :
    roundWithAccuracy Format.binary64 (Scaled.sign negative) (num / den) e
        (accuracyOfFraction (num % den) den) =
      (carried negative (roundHalfEven num (den * 2 ^ (t - e).toNat)) t).unpacked := by
  have hround := ((keeps_accuracy num hden).shiftRight hden (t - e).toNat).roundedMantissa
  obtain ⟨hmant, hexp⟩ := shiftToTargetExponent_carried (shortened_bounds ht he).1
    (by omega : minExp ≤ t) negative
  have hsum : e + (t - e).toNat = t := by omega
  unfold roundWithAccuracy
  simp only [shiftToTargetExponent, shiftToExponent, targetExponent_eq] at hmant hexp ⊢
  simp only [← ht, hround, hsum, hmant, hexp, Scaled.unpacked, negative_carried]
  split
  next hzero => rw [dif_neg (by omega)]
  next hpos => rw [dif_pos (Nat.pos_of_ne_zero hpos)]

/-- The shortened and rounded mantissa is that of the nearest double. -/
theorem nearest_shortened (hnum : 0 < num) (hden : 0 < den)
    (ht : t = max ((num / den).log2 + 1 + e - 53) minExp) (he : e ≤ t) :
    nearest (num * 2 ^ e.toNat) (den * 2 ^ (-e).toNat) =
      min ((t - minExp).toNat * 2 ^ 52 + roundHalfEven num (den * 2 ^ (t - e).toNat)) infinity := by
  have hvalue : ((num * 2 ^ e.toNat : ℕ) : ℚ) / (den * 2 ^ (-e).toNat : ℕ) =
      num / den * 2 ^ e := by
    push_cast
    rw [pow_toNat two_ne_zero e]
    field_simp
  have hscaled : (num : ℚ) / den * 2 ^ e / 2 ^ t = num / (den * 2 ^ (t - e).toNat : ℕ) := by
    have hpow : (2 : ℚ) ^ t = 2 ^ e * 2 ^ (t - e).toNat := by
      rw [← zpow_natCast, ← zpow_add₀ two_ne_zero]
      congr 1
      omega
    push_cast
    rw [hpow]
    field_simp
  have hfloor : ((num / den : ℕ) : ℚ) ≤ num / den ∧ (num : ℚ) / den < (num / den : ℕ) + 1 := by
    have hden' : (0 : ℚ) < den := by exact_mod_cast hden
    refine ⟨Nat.cast_div_le, ?_⟩
    rw [div_lt_iff₀ hden', mul_comm]
    exact_mod_cast Nat.lt_mul_div_succ num hden
  have hpower : (0 : ℚ) < 2 ^ e := zpow_pos two_pos e
  apply nearest_eq (Nat.mul_pos hnum (Nat.two_pow_pos _)) (Nat.mul_pos hden (Nat.two_pow_pos _))
    (by omega)
  · by_cases hmin : t = minExp
    · exact .inl hmin
    · have hpos : 0 < num / den := by
        by_contra hzero
        rw [Nat.eq_zero_of_not_pos hzero, Nat.log2_zero] at ht
        omega
      right
      calc (2 : ℚ) ^ (t + 52) = 2 ^ ((num / den).log2 : ℤ) * 2 ^ e := by
            rw [← zpow_add₀ two_ne_zero]
            congr 1
            omega
        _ ≤ num / den * 2 ^ e := by
            gcongr
            exact (log2_bounds hpos).1.trans hfloor.1
        _ = _ := hvalue.symm
  · have hplaces : ((num / den : ℕ) : ℚ) + 1 ≤ 2 ^ ((num / den).log2 + 1) := by
      exact_mod_cast Nat.lt_log2_self
    calc _ = (num : ℚ) / den * 2 ^ e := hvalue
      _ < 2 ^ ((num / den).log2 + 1) * 2 ^ e := by
          gcongr
          exact hfloor.2.trans_le hplaces
      _ = 2 ^ ((num / den).log2 + 1 + e : ℤ) := by
          rw [← zpow_natCast, ← zpow_add₀ two_ne_zero]
          push_cast
          rfl
      _ ≤ 2 ^ (t + 53) := zpow_le_zpow_right₀ one_le_two (by omega)
  · rw [hvalue, hscaled]
    exact rounds_roundHalfEven num (Nat.mul_pos hden (Nat.two_pow_pos _))

/-- What the machine packs after rounding is the nearest double. -/
theorem toNat_pack_round (hnum : 0 < num) (hden : 0 < den)
    (hroom : 2 ^ 52 ≤ num / den ∨ e ≤ minExp) (negative : Bool) :
    (UnpackedFloat.pack Format.binary64 (roundWithAccuracy Format.binary64 (Scaled.sign negative)
        (num / den) e (accuracyOfFraction (num % den) den))).toNat =
      bitsOf negative (nearest (num * 2 ^ e.toNat) (den * 2 ^ (-e).toNat)) := by
  obtain ⟨t, ht⟩ : ∃ t, t = max ((num / den).log2 + 1 + e - 53) minExp := ⟨_, rfl⟩
  have he : e ≤ t := by
    rcases hroom with hplaces | hmin
    · have : 52 ≤ (num / den).log2 := (Nat.le_log2 (by omega)).2 hplaces
      omega
    · omega
  obtain ⟨hle, hnormal⟩ := shortened_bounds ht he
  rw [roundWithAccuracy_eq hden ht he, nearest_shortened hnum hden ht he]
  generalize roundHalfEven num (den * 2 ^ (t - e).toNat) = r at hle hnormal ⊢
  have hmin : minExp ≤ t := by omega
  unfold carried
  split
  next heq =>
    rw [toNat_pack (by simp only; omega) (by simp) (.inr (by simp))]
    have hmagnitude : (t + 1 - minExp).toNat * 2 ^ 52 + 2 ^ 52 =
        (t - minExp).toNat * 2 ^ 52 + r := by omega
    rw [Scaled.magnitude, hmagnitude]
  next hne =>
    rw [toNat_pack hmin (by simp only; omega) hnormal]
    rfl

end Machine

-- -----------------------------------------------------------------------
-- The operations
-- -----------------------------------------------------------------------

theorem sign_mul (a b : Bool) : Scaled.sign a * Scaled.sign b = Scaled.sign (a != b) := by
  cases a <;> cases b <;> rfl

theorem sign_div (a b : Bool) : Scaled.sign a / Scaled.sign b = Scaled.sign (a != b) := by
  cases a <;> cases b <;> rfl

/-- Negation only changes the sign. -/
theorem neg_eq {a : Float} {x : Scaled} (hx : scaled? a = some x) :
    -a = ofMagnitude (!x.negative) x.magnitude := by
  obtain ⟨hmin, hmant, hnormal, hfinite⟩ := canonical_of_scaled? hx
  have hsign : -Scaled.sign x.negative = Scaled.sign (!x.negative) := by
    cases x.negative <;> rfl
  have hneg : UnpackedFloat.neg x.unpacked = (Scaled.mk (!x.negative) x.mant x.exp).unpacked := by
    unfold Scaled.unpacked
    split <;> rw [UnpackedFloat.neg, hsign]
  apply eq_ofMagnitude
  change (UnpackedFloat.pack Format.binary64 (UnpackedFloat.neg a.toModel.unpack)).toNat = _
  rw [unpack_of_scaled? hx, hneg, @toNat_pack (.mk (!x.negative) x.mant x.exp) hmin hmant hnormal]
  exact congrArg _ (Nat.min_eq_left hfinite.le)

theorem neg_ofMagnitude {m : Nat} (hm : m < infinity) (negative : Bool) :
    -ofMagnitude negative m = ofMagnitude (!negative) m := by
  have hlt : m < 2 ^ 63 := hm.trans (by decide)
  rw [neg_eq (scaled?_ofMagnitude hm negative), negative_ofBits_bitsOf hlt,
    Scaled.magnitude_ofBits, bitsOf_mod hlt]

/-- A product of finite doubles is the double nearest to the exact product. -/
theorem mul_eq {a b : Float} {x y : Scaled} (hx : scaled? a = some x) (hy : scaled? b = some y)
    {num den : Nat} (hden : 0 < den) (h : (num : ℚ) / den = x.value * y.value) :
    a * b = ofMagnitude (x.negative != y.negative) (nearest num den) := by
  apply eq_ofMagnitude
  change (UnpackedFloat.pack Format.binary64
    (UnpackedFloat.mul Format.binary64 a.toModel.unpack b.toModel.unpack)).toNat = _
  rw [unpack_of_scaled? hx, unpack_of_scaled? hy]
  rcases Nat.eq_zero_or_pos x.mant with hxzero | hxpos
  · have hzero : UnpackedFloat.mul Format.binary64 x.unpacked y.unpacked =
        .zero (Scaled.sign (x.negative != y.negative)) := by
      rw [Scaled.unpacked_of_zero hxzero, Scaled.unpacked, ← sign_mul]
      split <;> rfl
    rw [hzero, toNat_pack_zero, nearest_of_eq_zero hden (by simp [h, Scaled.value, hxzero])]
  rcases Nat.eq_zero_or_pos y.mant with hyzero | hypos
  · rw [Scaled.unpacked_of_pos hxpos, Scaled.unpacked_of_zero hyzero, UnpackedFloat.mul, sign_mul,
      toNat_pack_zero, nearest_of_eq_zero hden (by simp [h, Scaled.value, hyzero])]
  have hroom : 2 ^ 52 ≤ x.mant * y.mant / 1 ∨ x.exp + y.exp ≤ minExp := by
    have hmin : minExp = -1074 := rfl
    rw [Nat.div_one]
    rcases (canonical_of_scaled? hx).normal with hxexp | hxmant
    · rcases (canonical_of_scaled? hy).normal with hyexp | hymant
      · exact .inr (by omega)
      · exact .inl (hymant.trans (Nat.le_mul_of_pos_left _ hxpos))
    · exact .inl (hxmant.trans (Nat.le_mul_of_pos_right _ hypos))
  have hround := toNat_pack_round (Nat.mul_pos hxpos hypos) Nat.one_pos hroom
    (x.negative != y.negative)
  rw [Nat.div_one, Nat.mod_one] at hround
  rw [Scaled.unpacked_of_pos hxpos, Scaled.unpacked_of_pos hypos, UnpackedFloat.mul, sign_mul]
  refine hround.trans (congrArg _ (nearest_congr (by positivity) hden ?_))
  push_cast
  rw [h, Scaled.value, Scaled.value, pow_toNat two_ne_zero, zpow_add₀ two_ne_zero]
  field_simp

/-- A quotient of finite doubles is the double nearest to the exact quotient. -/
theorem div_eq {a b : Float} {x y : Scaled} (hx : scaled? a = some x) (hy : scaled? b = some y)
    (hypos : 0 < y.mant) {num den : Nat} (hden : 0 < den)
    (h : (num : ℚ) / den = x.value / y.value) :
    a / b = ofMagnitude (x.negative != y.negative) (nearest num den) := by
  apply eq_ofMagnitude
  change (UnpackedFloat.pack Format.binary64
    (UnpackedFloat.div Format.binary64 a.toModel.unpack b.toModel.unpack)).toNat = _
  rw [unpack_of_scaled? hx, unpack_of_scaled? hy]
  rcases Nat.eq_zero_or_pos x.mant with hxzero | hxpos
  · rw [Scaled.unpacked_of_zero hxzero, Scaled.unpacked_of_pos hypos, UnpackedFloat.div, sign_div,
      toNat_pack_zero, nearest_of_eq_zero hden (by simp [h, Scaled.value, hxzero])]
  rw [Scaled.unpacked_of_pos hxpos, Scaled.unpacked_of_pos hypos, UnpackedFloat.div, sign_div]
  simp only [divCore, Nat.shiftLeft_eq]
  obtain ⟨e, he⟩ : ∃ e, e = min (x.exp - y.exp) (Format.binary64.targetExponent
    (totalExponent x.mant x.exp - totalExponent y.mant y.exp)) := ⟨_, rfl⟩
  rw [← he]
  have he' : e = min (x.exp - y.exp)
      (max (x.mant.log2 + 1 + x.exp - (y.mant.log2 + 1 + y.exp) - 53) minExp) := he
  -- The quotient has all the places that are kept, unless its last one is the least of all.
  have hroom : 2 ^ 52 ≤ x.mant * 2 ^ (x.exp - y.exp - e).toNat / y.mant ∨ e ≤ minExp := by
    by_cases hmin : e ≤ minExp
    · exact .inr hmin
    · left
      rw [Nat.le_div_iff_mul_le hypos]
      calc 2 ^ 52 * y.mant ≤ 2 ^ 52 * 2 ^ (y.mant.log2 + 1) :=
            Nat.mul_le_mul_left _ Nat.lt_log2_self.le
        _ ≤ 2 ^ x.mant.log2 * 2 ^ (x.exp - y.exp - e).toNat := by
            rw [← Nat.pow_add, ← Nat.pow_add]
            exact Nat.pow_le_pow_right two_pos (by omega)
        _ ≤ x.mant * 2 ^ (x.exp - y.exp - e).toNat :=
            Nat.mul_le_mul_right _ (Nat.log2_self_le hxpos.ne')
  rw [toNat_pack_round (by positivity) hypos hroom]
  refine congrArg _ (nearest_congr (by positivity) hden ?_)
  have hsum : (2 : ℚ) ^ x.exp = 2 ^ (x.exp - y.exp - e).toNat * 2 ^ e * 2 ^ y.exp := by
    rw [← zpow_natCast, ← zpow_add₀ two_ne_zero, ← zpow_add₀ two_ne_zero]
    congr 1
    omega
  push_cast
  rw [h, Scaled.value, Scaled.value, pow_toNat two_ne_zero e, hsum]
  field_simp

end Wordstack.Number
