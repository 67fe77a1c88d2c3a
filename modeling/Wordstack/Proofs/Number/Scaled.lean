-- SUMMARY: Doubles, their bit patterns and the parts they are taken apart into determine each other.
import Mathlib
import Wordstack.Number.Scaled

/-!
# Doubles taken apart

A double is its bit pattern, where all patterns that stand for not-a-number count as one.
So a double can be put together again from its bits (`Number.ofBits_toBits`), and a finite
one from its sign, mantissa and exponent (`Number.ofMagnitude_of_scaled?`).

The operations of the machine work on doubles that are unpacked in a similar way. Of a
finite double the two views are the same (`Number.unpack_of_scaled?`), and so are they of
the double that is packed again (`Number.toNat_pack`).
-/

namespace Wordstack

open Float.Model Float.Model.UnpackedFloat

-- -----------------------------------------------------------------------
-- Sign, mantissa and exponent
-- -----------------------------------------------------------------------

namespace Scaled

/-- The parts that a bit pattern stands for, if it is that of a finite double. -/
def ofBits (bits : Nat) : Scaled where
  negative := 2 ^ 63 ≤ bits
  mant := Number.mantissa (bits % 2 ^ 63)
  exp := Number.exponent (bits % 2 ^ 63)

/-- The magnitude of a double that was taken apart. -/
def magnitude (s : Scaled) : Nat := (s.exp - Number.minExp).toNat * 2 ^ 52 + s.mant

/-- The form in which a finite double is taken apart: the mantissa has 53 binary places,
the first of them set unless the exponent is the least one. -/
structure Canonical (s : Scaled) : Prop where
  minExp_le : Number.minExp ≤ s.exp
  mant_lt : s.mant < 2 ^ 53
  normal : s.exp = Number.minExp ∨ 2 ^ 52 ≤ s.mant
  finite : s.magnitude < Number.infinity

theorem Canonical.exp_le {s : Scaled} (h : s.Canonical) : s.exp ≤ 971 := by
  have hfinite := h.finite
  rw [magnitude, Number.infinity, Nat.pow_eq] at hfinite
  have hmin : Number.minExp = -1074 := rfl
  rcases h.normal with hexp | hmant <;> omega

/-- A zero has the least exponent. -/
theorem Canonical.exp_of_zero {s : Scaled} (h : s.Canonical) (hzero : s.mant = 0) :
    s.exp = Number.minExp := by
  rcases h.normal with hexp | hmant
  · exact hexp
  · omega

theorem Canonical.magnitude_of_zero {s : Scaled} (h : s.Canonical) (hzero : s.mant = 0) :
    s.magnitude = 0 := by
  rw [magnitude, h.exp_of_zero hzero, hzero]
  rfl

theorem magnitude_ofBits (bits : Nat) : (ofBits bits).magnitude = bits % 2 ^ 63 := by
  simp only [magnitude, ofBits, Number.mantissa, Number.exponent, Nat.pow_eq]
  split <;> omega

theorem canonical_ofBits {bits : Nat} (h : bits % 2 ^ 63 < Number.infinity) :
    (ofBits bits).Canonical := by
  have hmin : Number.minExp = -1074 := rfl
  refine ⟨?_, ?_, ?_, by rw [magnitude_ofBits]; exact h⟩
  · simp only [ofBits, Number.exponent, Nat.pow_eq]
    split <;> omega
  · simp only [ofBits, Number.mantissa, Nat.pow_eq]
    split <;> omega
  · simp only [ofBits, Number.exponent, Number.mantissa, Nat.pow_eq]
    split <;> omega

/-- The parts by the fields of the bit pattern, if the exponent field is zero. -/
theorem ofBits_of_zero {bits : Nat} (h : bits / 2 ^ 52 % 2 ^ 11 = 0) :
    (ofBits bits).mant = bits % 2 ^ 52 ∧ (ofBits bits).exp = -1074 := by
  simp only [ofBits, Number.mantissa, Number.exponent, Number.minExp, Nat.pow_eq]
  split <;> omega

/-- The parts by the fields of the bit pattern, if the exponent field is not zero. -/
theorem ofBits_of_ne_zero {bits : Nat} (h : bits / 2 ^ 52 % 2 ^ 11 ≠ 0) :
    (ofBits bits).mant = 2 ^ 52 + bits % 2 ^ 52 ∧
      (ofBits bits).exp = (bits / 2 ^ 52 % 2 ^ 11 : Nat) - 1075 := by
  simp only [ofBits, Number.mantissa, Number.exponent, Number.minExp, Nat.pow_eq]
  split <;> omega

/-- The sign for the operations of the machine. -/
def sign (negative : Bool) : Sign := if negative then .negative else .positive

/-- The parts as the operations of the machine see them, zero apart from the others. -/
def unpacked (s : Scaled) : UnpackedFloat :=
  if h : 0 < s.mant then .finite (sign s.negative) s.mant s.exp h else .zero (sign s.negative)

theorem unpacked_of_zero {s : Scaled} (h : s.mant = 0) : s.unpacked = .zero (sign s.negative) := by
  rw [unpacked, dif_neg (by omega)]

theorem unpacked_of_pos {s : Scaled} (h : 0 < s.mant) :
    s.unpacked = .finite (sign s.negative) s.mant s.exp h := by
  rw [unpacked, dif_pos h]

end Scaled

namespace Number

/-- The bit pattern with a sign and a magnitude. -/
def bitsOf (negative : Bool) (magnitude : Nat) : Nat :=
  if negative then magnitude + 2 ^ 63 else magnitude

theorem bitsOf_mod {m : Nat} (hm : m < 2 ^ 63) (negative : Bool) :
    bitsOf negative m % 2 ^ 63 = m := by
  unfold bitsOf
  split <;> omega

theorem negative_ofBits_bitsOf {m : Nat} (hm : m < 2 ^ 63) (negative : Bool) :
    (Scaled.ofBits (bitsOf negative m)).negative = negative := by
  have hsign : 2 ^ 63 ≤ bitsOf negative m ↔ negative = true := by
    unfold bitsOf
    split
    next h => exact ⟨fun _ => h, fun _ => by omega⟩
    next h => exact ⟨fun hle => by omega, fun htrue => absurd htrue h⟩
  simp only [Scaled.ofBits, hsign, Bool.decide_eq_true]

theorem ofBits_bitsOf {s : Scaled} (hs : s.Canonical) :
    Scaled.ofBits (bitsOf s.negative s.magnitude) = s := by
  obtain ⟨negative, mant, exp⟩ := s
  obtain ⟨hmin, hlt, hnormal, hfinite⟩ := hs
  simp only [Scaled.magnitude, infinity, minExp, Nat.pow_eq] at hmin hlt hnormal hfinite ⊢
  generalize hm : (exp - -1074).toNat * 2 ^ 52 + mant = m at hfinite ⊢
  have hbits : m < 2 ^ 63 := by omega
  have hmant : mantissa m = mant := by
    simp only [mantissa, Nat.pow_eq]
    split <;> omega
  have hexp : exponent m = exp := by
    simp only [exponent, minExp, Nat.pow_eq]
    split <;> omega
  have hnegative := negative_ofBits_bitsOf hbits negative
  simp only [Scaled.ofBits] at hnegative ⊢
  rw [bitsOf_mod hbits, hnegative, hmant, hexp]

-- -----------------------------------------------------------------------
-- The fields of a bit pattern
-- -----------------------------------------------------------------------

section Fields

variable (b : BitVec Format.binary64.numBits)

theorem toNat_unpackMantissa : (unpackMantissa b).toNat = b.toNat % 2 ^ 52 := by
  rw [unpackMantissa, BitVec.toNat_cast, BitVec.extractLsb_toNat]
  rfl

theorem toNat_unpackExponent : (unpackExponent b).toNat = b.toNat / 2 ^ 52 % 2 ^ 11 := by
  rw [unpackExponent, BitVec.toNat_cast, BitVec.extractLsb_toNat, Nat.shiftRight_eq_div_pow]
  rfl

theorem ofBitVec_unpackSign :
    Sign.ofBitVec (unpackSign b) = Scaled.sign (2 ^ 63 ≤ b.toNat) := by
  have hsign : (unpackSign b).toNat = b.toNat / 2 ^ 63 % 2 := by
    rw [unpackSign, BitVec.toNat_cast, BitVec.extractLsb_toNat, Nat.shiftRight_eq_div_pow]
    rfl
  have hlt : b.toNat < 2 ^ 64 := b.isLt
  have hzero : unpackSign b = 0#1 ↔ ¬ 2 ^ 63 ≤ b.toNat := by
    rw [← BitVec.toNat_inj, hsign, BitVec.toNat_zero]
    omega
  simp only [Sign.ofBitVec, Scaled.sign, hzero, decide_eq_true_eq, ite_not]

end Fields

theorem toNat_packComponents (negative : Bool) (exp : BitVec 11) (mant : BitVec 52) :
    (packComponents Format.binary64 (Scaled.sign negative) exp mant).toNat =
      bitsOf negative (exp.toNat * 2 ^ 52 + mant.toNat) := by
  have happend : ((Scaled.sign negative).toBitVec ++ exp ++ mant).toNat =
      ((Scaled.sign negative).toBitVec.toNat * 2 ^ 11 + exp.toNat) * 2 ^ 52 + mant.toNat := by
    rw [BitVec.toNat_append, BitVec.toNat_append, ← Nat.shiftLeft_add_eq_or_of_lt mant.isLt,
      ← Nat.shiftLeft_add_eq_or_of_lt exp.isLt, Nat.shiftLeft_eq, Nat.shiftLeft_eq]
  rw [packComponents]
  refine happend.trans ?_
  cases negative with
  | false =>
    change (0 * 2 ^ 11 + exp.toNat) * 2 ^ 52 + mant.toNat = exp.toNat * 2 ^ 52 + mant.toNat
    omega
  | true =>
    change (1 * 2 ^ 11 + exp.toNat) * 2 ^ 52 + mant.toNat = exp.toNat * 2 ^ 52 + mant.toNat + 2 ^ 63
    omega

-- -----------------------------------------------------------------------
-- Packing
-- -----------------------------------------------------------------------

theorem toNat_pack_zero (negative : Bool) :
    (UnpackedFloat.pack Format.binary64 (.zero (Scaled.sign negative))).toNat = bitsOf negative 0 :=
  toNat_packComponents negative 0#11 0#52

theorem toNat_packedInfinity (negative : Bool) :
    (packedInfinity Format.binary64 (Scaled.sign negative)).toNat = bitsOf negative infinity := by
  rw [packedInfinity]
  exact toNat_packComponents negative (-1#11) 0#52

/-- A double in the form that it is taken apart into is packed with its magnitude. One that
is too large becomes infinity. -/
theorem toNat_pack {s : Scaled} (hmin : minExp ≤ s.exp) (hmant : s.mant < 2 ^ 53)
    (hnormal : s.exp = minExp ∨ 2 ^ 52 ≤ s.mant) :
    (UnpackedFloat.pack Format.binary64 s.unpacked).toNat =
      bitsOf s.negative (min s.magnitude infinity) := by
  have hminExp : minExp = -1074 := rfl
  have hinfinity : infinity = 2047 * 2 ^ 52 := rfl
  unfold Scaled.unpacked
  split
  next hpos =>
    have hbiased : (s.exp + Format.binary64.exponentBias
        + Format.binary64.mantissaBitsWithoutImplicit).toNat = (s.exp + 1075).toNat := by
      change (s.exp + 1023 + 52).toNat = _
      omega
    rw [UnpackedFloat.pack]
    simp only [hbiased]
    split
    next hlarge =>
      have hlarge : 2048 ≤ (s.exp + 1075).toNat + 1 := hlarge
      rw [toNat_packedInfinity, Scaled.magnitude, Nat.min_eq_right (by omega)]
    next hsmall =>
      have hsmall : ¬ 2048 ≤ (s.exp + 1075).toNat + 1 := hsmall
      have hmagnitude : s.magnitude < infinity := by
        rw [Scaled.magnitude]
        omega
      rw [Nat.min_eq_left (Nat.le_of_lt hmagnitude), Scaled.magnitude]
      split
      next hlog =>
        have hlog : s.mant.log2 + 1 = 53 := hlog
        have hle : 2 ^ 52 ≤ s.mant := (Nat.le_log2 (Nat.ne_of_gt hpos)).1 (by omega)
        refine (toNat_packComponents s.negative (BitVec.ofNat 11 _) (BitVec.ofNat 52 _)).trans ?_
        refine congrArg (bitsOf s.negative) ?_
        rw [BitVec.toNat_ofNat, BitVec.toNat_ofNat]
        omega
      next hlog =>
        have hlog : s.mant.log2 + 1 ≠ 53 := hlog
        have hlt : s.mant < 2 ^ 52 := by
          have := (Nat.log2_lt (Nat.ne_of_gt hpos)).2 hmant
          exact (Nat.log2_lt (Nat.ne_of_gt hpos)).1 (by omega)
        refine (toNat_packComponents s.negative 0#11 (BitVec.ofNat 52 _)).trans ?_
        refine congrArg (bitsOf s.negative) ?_
        rw [BitVec.toNat_zero, BitVec.toNat_ofNat]
        omega
  next hzero =>
    have hmagnitude : s.magnitude = 0 := by
      rw [Scaled.magnitude]
      omega
    rw [hmagnitude, Nat.zero_min]
    exact toNat_pack_zero s.negative

/-- The operations of the machine unpack a finite double into the same parts. -/
theorem unpack_eq {b : BitVec Format.binary64.numBits} (h : b.toNat % 2 ^ 63 < infinity) :
    UnpackedFloat.unpack Format.binary64 b = (Scaled.ofBits b.toNat).unpacked := by
  have hmant := toNat_unpackMantissa b
  have hexp := toNat_unpackExponent b
  have hones : unpackExponent b ≠ -1#11 := by
    intro heq
    rw [heq] at hexp
    have hinfinity : infinity = 2047 * 2 ^ 52 := rfl
    have hexp : 2047 = b.toNat / 2 ^ 52 % 2 ^ 11 := hexp
    omega
  have hbias : (Format.binary64.exponentBias + Format.binary64.mantissaBitsWithoutImplicit : Int) =
      1075 := rfl
  rw [UnpackedFloat.unpack]
  simp only [hbias, ofBitVec_unpackSign]
  rw [if_neg hones]
  split
  next hzero =>
    rw [hzero] at hexp
    obtain ⟨hmantissa, hexponent⟩ := Scaled.ofBits_of_zero hexp.symm
    rw [← hmant] at hmantissa
    split
    next hmantZero =>
      have hmantissa : ¬ 0 < (Scaled.ofBits b.toNat).mant := by
        rw [hmantissa, hmantZero]
        decide
      rw [Scaled.unpacked, dif_neg hmantissa]
      rfl
    next hmantPos =>
      have hpos : 0 < (Scaled.ofBits b.toNat).mant := by
        rw [hmantissa, BitVec.toNat_pos, BitVec.pos_iff_ne_zero]
        exact hmantPos
      rw [Scaled.unpacked, dif_pos hpos, UnpackedFloat.finite.injEq]
      exact ⟨rfl, hmantissa.symm, by rw [hexponent, hzero]; rfl⟩
  next hpos =>
    have hfield : b.toNat / 2 ^ 52 % 2 ^ 11 ≠ 0 := by
      intro heq
      exact hpos (BitVec.eq_of_toNat_eq (by rw [hexp, heq]; rfl))
    obtain ⟨hmantissa, hexponent⟩ := Scaled.ofBits_of_ne_zero hfield
    have happend : (1#1 ++ unpackMantissa b).toNat = 2 ^ 52 + b.toNat % 2 ^ 52 := by
      rw [BitVec.toNat_append, ← Nat.shiftLeft_add_eq_or_of_lt (unpackMantissa b).isLt, hmant,
        Nat.shiftLeft_eq]
      rfl
    rw [Scaled.unpacked, dif_pos (by omega), UnpackedFloat.finite.injEq]
    exact ⟨rfl, by rw [happend, hmantissa], by rw [hexponent, hexp]⟩

-- -----------------------------------------------------------------------
-- Bits
-- -----------------------------------------------------------------------

theorem bitsOf_magnitude {bits : Nat} (h : bits < 2 ^ 64) :
    bitsOf (2 ^ 63 ≤ bits) (bits % 2 ^ 63) = bits := by
  simp only [bitsOf, decide_eq_true_eq]
  split <;> omega

/-- The exponent field of infinities and not-a-number is full of ones. -/
theorem unpackExponent_of_le {b : BitVec Format.binary64.numBits}
    (h : infinity ≤ b.toNat % 2 ^ 63) : unpackExponent b = -1#11 := by
  have hinfinity : infinity = 2047 * 2 ^ 52 := rfl
  apply BitVec.eq_of_toNat_eq
  rw [toNat_unpackExponent]
  change _ = 2047
  omega

/-- From the magnitude of infinity on, bit patterns do not stand for finite doubles. -/
theorem unpack_of_le {b : BitVec Format.binary64.numBits} (h : infinity ≤ b.toNat % 2 ^ 63) :
    (∃ negative, UnpackedFloat.unpack Format.binary64 b = .infinity (Scaled.sign negative)) ∨
      UnpackedFloat.unpack Format.binary64 b = .notANumber := by
  rw [UnpackedFloat.unpack]
  simp only [unpackExponent_of_le h, if_true, ofBitVec_unpackSign]
  split
  · exact .inl ⟨_, rfl⟩
  · exact .inr rfl

/-- A bit pattern that stands for a double is found again in the double. -/
theorem pack_unpack {b : BitVec Format.binary64.numBits} (h : Format.binary64.Valid b) :
    UnpackedFloat.pack Format.binary64 (UnpackedFloat.unpack Format.binary64 b) = b := by
  have hlt : b.toNat < 2 ^ 64 := b.isLt
  apply BitVec.eq_of_toNat_eq
  by_cases hfinite : b.toNat % 2 ^ 63 < infinity
  · have hs := Scaled.canonical_ofBits hfinite
    rw [unpack_eq hfinite, toNat_pack hs.minExp_le hs.mant_lt hs.normal,
      Nat.min_eq_left (Nat.le_of_lt hs.finite), Scaled.magnitude_ofBits]
    exact bitsOf_magnitude hlt
  · have hones := unpackExponent_of_le (Nat.le_of_not_lt hfinite)
    rw [UnpackedFloat.unpack]
    simp only [ofBitVec_unpackSign]
    rw [if_pos hones]
    split
    next hmant =>
      have hzero : b.toNat % 2 ^ 52 = 0 := by
        rw [← toNat_unpackMantissa, hmant]
        rfl
      have hmagnitude : b.toNat % 2 ^ 63 = infinity := by
        have hinfinity : infinity = 2047 * 2 ^ 52 := rfl
        omega
      rw [UnpackedFloat.pack, toNat_packedInfinity, ← hmagnitude]
      exact bitsOf_magnitude hlt
    next hmant =>
      rw [UnpackedFloat.pack]
      exact congrArg BitVec.toNat (h.eq_packedNaN hones hmant).symm

/-- A double is put together again from its bits. -/
theorem ofBits_toBits (v : Float) : Float.ofBits v.toBits = v := by
  obtain ⟨bits, valid⟩ := v
  have hbits : UInt64.ofBitVec (UnpackedFloat.pack Format.binary64
      (UnpackedFloat.unpack Format.binary64 bits.toBitVec)) = bits := by
    rw [pack_unpack valid, UInt64.ofBitVec_toBitVec]
  simp only [Float.ofBits, Float.toBits, Float.Model.ofBits, Float.Model.pack, hbits]

-- -----------------------------------------------------------------------
-- Finite doubles
-- -----------------------------------------------------------------------

theorem scaled?_eq_some {v : Float} {s : Scaled} (h : scaled? v = some s) :
    v.toBits.toNat % 2 ^ 63 < infinity ∧ s = Scaled.ofBits v.toBits.toNat := by
  simp only [scaled?] at h
  split at h
  next hfinite => exact ⟨hfinite, (Option.some.inj h).symm⟩
  next => cases h

/-- A finite double is taken apart into its canonical form. -/
theorem canonical_of_scaled? {v : Float} {s : Scaled} (h : scaled? v = some s) :
    s.Canonical := by
  obtain ⟨hfinite, rfl⟩ := scaled?_eq_some h
  exact Scaled.canonical_ofBits hfinite

/-- A double is determined by its bits. -/
theorem eq_ofMagnitude {v : Float} {negative : Bool} {m : Nat}
    (h : v.toBits.toNat = bitsOf negative m) : v = ofMagnitude negative m := by
  change v = Float.ofBits (UInt64.ofNat (bitsOf negative m))
  rw [← h, UInt64.ofNat_toNat, ofBits_toBits]

/-- A finite double is put together again from its sign, mantissa and exponent. -/
theorem ofMagnitude_of_scaled? {v : Float} {s : Scaled} (h : scaled? v = some s) :
    ofMagnitude s.negative s.magnitude = v := by
  obtain ⟨-, rfl⟩ := scaled?_eq_some h
  refine (eq_ofMagnitude ?_).symm
  rw [Scaled.magnitude_ofBits]
  exact (bitsOf_magnitude v.toBits.toNat_lt).symm

theorem toBits_ofMagnitude {m : Nat} (hm : m ≤ infinity) (negative : Bool) :
    (ofMagnitude negative m).toBits.toNat = bitsOf negative m := by
  have hinfinity : infinity = 2047 * 2 ^ 52 := rfl
  have hlt : bitsOf negative m < 2 ^ 64 := by
    unfold bitsOf
    split <;> omega
  have hbits : (UInt64.ofNat (bitsOf negative m)).toBitVec.toNat = bitsOf negative m :=
    Nat.mod_eq_of_lt hlt
  have hvalid : Format.binary64.Valid (UInt64.ofNat (bitsOf negative m)).toBitVec := by
    constructor
    intro hexp hmant
    refine absurd (BitVec.eq_of_toNat_eq ?_) hmant
    have hexp := congrArg BitVec.toNat hexp
    rw [toNat_unpackExponent, hbits] at hexp
    have hexp : bitsOf negative m / 2 ^ 52 % 2 ^ 11 = 2047 := hexp
    rw [toNat_unpackMantissa, hbits]
    change _ = 0
    cases negative with
    | false =>
      change m / 2 ^ 52 % 2 ^ 11 = 2047 at hexp
      change m % 2 ^ 52 = 0
      omega
    | true =>
      change (m + 2 ^ 63) / 2 ^ 52 % 2 ^ 11 = 2047 at hexp
      change (m + 2 ^ 63) % 2 ^ 52 = 0
      omega
  change (UnpackedFloat.pack Format.binary64 (UnpackedFloat.unpack Format.binary64
    (UInt64.ofNat (bitsOf negative m)).toBitVec)).toNat = _
  rw [pack_unpack hvalid, hbits]

theorem scaled?_ofMagnitude {m : Nat} (hm : m < infinity) (negative : Bool) :
    scaled? (ofMagnitude negative m) = some (Scaled.ofBits (bitsOf negative m)) := by
  have hfinite : bitsOf negative m % 2 ^ 63 < infinity := by
    rw [bitsOf_mod (Nat.lt_trans hm (by decide))]
    exact hm
  simp only [scaled?, toBits_ofMagnitude (Nat.le_of_lt hm), Nat.pow_eq]
  exact if_pos hfinite

/-- What is put together from the canonical form is taken apart into it again. -/
theorem scaled?_ofMagnitude_magnitude {s : Scaled} (hs : s.Canonical) :
    scaled? (ofMagnitude s.negative s.magnitude) = some s := by
  rw [scaled?_ofMagnitude hs.finite, ofBits_bitsOf hs]

/-- The operations of the machine see the same parts of a finite double. -/
theorem unpack_of_scaled? {v : Float} {s : Scaled} (h : scaled? v = some s) :
    v.toModel.unpack = s.unpacked := by
  obtain ⟨hfinite, rfl⟩ := scaled?_eq_some h
  exact unpack_eq hfinite

theorem isFinite_iff (v : Float) : v.isFinite = true ↔ ∃ s, scaled? v = some s := by
  change (UnpackedFloat.unpack Format.binary64 v.toBits.toBitVec).isFinite = true ↔ _
  by_cases hfinite : v.toBits.toNat % 2 ^ 63 < infinity
  · have hscaled : scaled? v = some (Scaled.ofBits v.toBits.toNat) := if_pos hfinite
    rw [unpack_eq hfinite, hscaled, Scaled.unpacked]
    split <;> simp [UnpackedFloat.isFinite]
  · have hscaled : scaled? v = none := if_neg hfinite
    rcases unpack_of_le (Nat.le_of_not_lt hfinite) with ⟨negative, heq⟩ | heq <;>
      simp [hscaled, heq, UnpackedFloat.isFinite]

/-- The bits of a finite double are those it was made from. -/
theorem toBits_ofBits {bits : UInt64} (h : (Float.ofBits bits).isFinite = true) :
    (Float.ofBits bits).toBits = bits := by
  by_cases hfinite : bits.toNat % 2 ^ 63 < infinity
  · have hbits := bitsOf_magnitude bits.toNat_lt
    have hof : ofMagnitude (2 ^ 63 ≤ bits.toNat) (bits.toNat % 2 ^ 63) = Float.ofBits bits := by
      change Float.ofBits (UInt64.ofNat (bitsOf _ _)) = _
      rw [hbits, UInt64.ofNat_toNat]
    apply UInt64.toNat_inj.mp
    rw [← hof, toBits_ofMagnitude (Nat.le_of_lt hfinite), hbits]
  · exfalso
    obtain ⟨s, hs⟩ := (isFinite_iff _).mp h
    have hlt := (scaled?_eq_some hs).1
    change (UnpackedFloat.pack Format.binary64
      (UnpackedFloat.unpack Format.binary64 bits.toBitVec)).toNat % 2 ^ 63 < infinity at hlt
    rcases unpack_of_le (Nat.le_of_not_lt hfinite) with ⟨negative, heq⟩ | heq
    · rw [heq, UnpackedFloat.pack, toNat_packedInfinity, bitsOf_mod (by decide)] at hlt
      exact Nat.lt_irrefl _ hlt
    · rw [heq] at hlt
      revert hlt
      decide

theorem isFinite_ofMagnitude {m : Nat} (hm : m < infinity) (negative : Bool) :
    (ofMagnitude negative m).isFinite = true :=
  (isFinite_iff _).2 ⟨_, scaled?_ofMagnitude hm negative⟩

/-- A bit pattern with a magnitude up to that of infinity does not stand for not-a-number. -/
theorem isNaN_unpack {b : BitVec Format.binary64.numBits} (h : b.toNat % 2 ^ 63 ≤ infinity) :
    (UnpackedFloat.unpack Format.binary64 b).isNaN = false := by
  rcases Nat.lt_or_eq_of_le h with hlt | heq
  · rw [unpack_eq hlt, Scaled.unpacked]
    split <;> rfl
  · have hinfinity : infinity = 2047 * 2 ^ 52 := rfl
    have hmant : unpackMantissa b = 0 := by
      apply BitVec.eq_of_toNat_eq
      rw [toNat_unpackMantissa]
      change _ = 0
      omega
    rw [UnpackedFloat.unpack]
    simp only [unpackExponent_of_le (Nat.le_of_eq heq.symm), if_true]
    split
    · rfl
    next hne => exact absurd hmant hne

theorem isNaN_ofMagnitude {m : Nat} (hm : m ≤ infinity) (negative : Bool) :
    (ofMagnitude negative m).isNaN = false := by
  refine isNaN_unpack (b := (ofMagnitude negative m).toBits.toBitVec) ?_
  change (ofMagnitude negative m).toBits.toNat % 2 ^ 63 ≤ infinity
  rw [toBits_ofMagnitude hm, bitsOf_mod (Nat.lt_of_le_of_lt hm (by decide))]
  exact hm

end Number

end Wordstack
