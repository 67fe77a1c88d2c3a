-- SUMMARY: The interval of reals around a double, and that everything in it is rounded to that double.
import Wordstack.Number.Decimal
import Wordstack.Number.Shortest
import Wordstack.Proofs.Number.Scaled

/-!
# Rounding to a double

Around every double lies the interval of the reals that it is the nearest double to. Its
ends are halfway to the neighbours, and belong to it if the mantissa is even. The main
result is `Number.nearest_of_covers`: a quotient in the interval is rounded to the double.
For decimals this gives `Decimal.magnitude_of_covers`.
-/

namespace Wordstack

-- -----------------------------------------------------------------------
-- Powers with exponents of either sign
-- -----------------------------------------------------------------------

/-- A power whose exponent may be negative, as a quotient of two powers. -/
theorem pow_toNat {b : ℚ} (hb : b ≠ 0) (e : ℤ) : b ^ e.toNat = b ^ e * b ^ (-e).toNat := by
  rw [← zpow_natCast, ← zpow_natCast, ← zpow_add₀ hb]
  congr 1
  omega

-- -----------------------------------------------------------------------
-- Doubles and their intervals
-- -----------------------------------------------------------------------

namespace Scaled

/-- The value of a double without its sign. -/
def value (s : Scaled) : ℚ := s.mant * 2 ^ s.exp

/-- A quarter of the last binary place. -/
def quarter (s : Scaled) : ℚ := 2 ^ (s.exp - 2)

/-- Whether a real is rounded to a positive double. -/
structure Covers (s : Scaled) (x : ℚ) : Prop where
  lower : Digits.lowerEnd s * s.quarter ≤ x
  upper : x ≤ Digits.upperEnd s * s.quarter
  odd : s.mant % 2 = 1 →
    Digits.lowerEnd s * s.quarter < x ∧ x < Digits.upperEnd s * s.quarter

theorem quarter_pos (s : Scaled) : 0 < s.quarter := zpow_pos two_pos _

theorem four_mul_quarter (s : Scaled) : 4 * s.quarter = 2 ^ s.exp := by
  rw [quarter, show (4 : ℚ) = 2 ^ (2 : ℤ) by norm_num, ← zpow_add₀ two_ne_zero]
  congr 1
  omega

/-- The lower end of the interval lies at least half a place below the double. -/
theorem lowerEnd_ge (s : Scaled) : 4 * s.mant - 2 ≤ Digits.lowerEnd s := by
  unfold Digits.lowerEnd
  split <;> omega

theorem upperEnd_mul_quarter (s : Scaled) :
    Digits.upperEnd s * s.quarter = ((s.mant : ℚ) + 1 / 2) * 2 ^ s.exp := by
  rw [← s.four_mul_quarter, Digits.upperEnd]
  push_cast
  ring

/-- A double is rounded to itself. -/
theorem covers_value (s : Scaled) : s.Covers s.value := by
  have hvalue : s.value = (4 * s.mant : ℕ) * s.quarter := by
    rw [value, ← s.four_mul_quarter]
    push_cast
    ring
  have hquarter := s.quarter_pos
  have hlower : Digits.lowerEnd s ≤ 4 * s.mant ∧
      (s.mant % 2 = 1 → Digits.lowerEnd s < 4 * s.mant) := by
    unfold Digits.lowerEnd
    split <;> omega
  have hupper : 4 * s.mant < Digits.upperEnd s := by
    unfold Digits.upperEnd
    omega
  rw [hvalue]
  constructor
  · gcongr
    exact hlower.1
  · gcongr
  · intro hodd
    constructor <;> gcongr
    exact hlower.2 hodd

/-- The mantissa of what is rounded to a double has no more places than that of the double. -/
theorem Covers.lt {s : Scaled} {x : ℚ} (h : s.Covers x) (hs : s.Canonical) :
    x < 2 ^ (s.exp + 53) := by
  have hmant : ((s.mant + 1 : ℕ) : ℚ) ≤ (2 ^ 53 : ℕ) := by exact_mod_cast hs.mant_lt
  push_cast at hmant
  have hpower : (0 : ℚ) < 2 ^ s.exp := zpow_pos two_pos _
  calc x ≤ (s.mant + 1 / 2) * 2 ^ s.exp := h.upper.trans_eq s.upperEnd_mul_quarter
    _ < 2 ^ 53 * 2 ^ s.exp := by gcongr; linarith
    _ = 2 ^ (s.exp + 53) := by rw [zpow_add₀ two_ne_zero, mul_comm]; norm_num

/-- What is rounded to a positive double is at least half the least of them. -/
theorem Covers.ge {s : Scaled} {x : ℚ} (h : s.Covers x) (hs : s.Canonical) (hmant : 0 < s.mant) :
    2 ^ (Number.minExp - 1) ≤ x := by
  have hend : ((2 : ℕ) : ℚ) ≤ Digits.lowerEnd s := by
    have := s.lowerEnd_ge
    exact_mod_cast (by omega : 2 ≤ Digits.lowerEnd s)
  have hquarter : (2 : ℚ) ^ (Number.minExp - 2) ≤ s.quarter :=
    zpow_le_zpow_right₀ one_le_two (by have := hs.minExp_le; omega)
  calc (2 : ℚ) ^ (Number.minExp - 1) = 2 * 2 ^ (Number.minExp - 2) := by
        rw [mul_comm, ← zpow_add_one₀ two_ne_zero]; rfl
    _ ≤ Digits.lowerEnd s * s.quarter := by gcongr; exact_mod_cast hend
    _ ≤ x := h.lower

theorem Covers.pos {s : Scaled} {x : ℚ} (h : s.Covers x) (hs : s.Canonical)
    (hmant : 0 < s.mant) : 0 < x :=
  lt_of_lt_of_le (zpow_pos two_pos _) (h.ge hs hmant)

/-- A number of at most 53 binary places is a double, if its exponent is neither too small
nor too large. -/
theorem exists_canonical {m : Nat} {e : ℤ} (hm : 0 < m) (hlt : m < 2 ^ 53)
    (hmin : Number.minExp + 52 ≤ e) (hmax : e ≤ 971) (negative : Bool) :
    ∃ s : Scaled, s.Canonical ∧ 0 < s.mant ∧ s.negative = negative ∧ s.value = m * 2 ^ e := by
  have hlog : m.log2 < 53 := (Nat.log2_lt hm.ne').2 hlt
  have hlower : 2 ^ 52 ≤ m * 2 ^ (52 - m.log2) := by
    calc 2 ^ 52 = 2 ^ m.log2 * 2 ^ (52 - m.log2) := by rw [← Nat.pow_add]; congr 1; omega
      _ ≤ m * 2 ^ (52 - m.log2) := Nat.mul_le_mul_right _ (Nat.log2_self_le hm.ne')
  have hupper : m * 2 ^ (52 - m.log2) < 2 ^ 53 := by
    calc m * 2 ^ (52 - m.log2) < 2 ^ (m.log2 + 1) * 2 ^ (52 - m.log2) :=
          Nat.mul_lt_mul_of_pos_right Nat.lt_log2_self (Nat.two_pow_pos _)
      _ = 2 ^ 53 := by rw [← Nat.pow_add]; congr 1; omega
  refine ⟨{ negative, mant := m * 2 ^ (52 - m.log2), exp := e - (52 - m.log2 : Nat) },
    ⟨by simp only; omega, hupper, .inr hlower, ?_⟩, by simp only; omega, rfl, ?_⟩
  · have hinfinity : Number.infinity = 2047 * 2 ^ 52 := rfl
    have hminExp : Number.minExp = -1074 := rfl
    simp only [magnitude]
    omega
  · simp only [value]
    push_cast
    rw [mul_assoc, ← zpow_natCast, ← zpow_add₀ two_ne_zero]
    congr 2
    omega

end Scaled

namespace Number

-- -----------------------------------------------------------------------
-- The steps of rounding
-- -----------------------------------------------------------------------

/-- The integer nearest to a real: it is at most a half away, and if it is odd less than
that. -/
structure Rounds (x : ℚ) (q : Nat) : Prop where
  lower : q - 1 / 2 ≤ x
  upper : x ≤ q + 1 / 2
  odd : q % 2 = 1 → q - 1 / 2 < x ∧ x < q + 1 / 2

theorem rounds_iff {num den q : Nat} (hden : 0 < den) : Rounds (num / den) q ↔
    2 * (den * q) ≤ 2 * num + den ∧ 2 * num ≤ 2 * (den * q) + den ∧
      (q % 2 = 1 → 2 * (den * q) < 2 * num + den ∧ 2 * num < 2 * (den * q) + den) := by
  have hden' : (0 : ℚ) < den := by exact_mod_cast hden
  have hlower : (q : ℚ) - 1 / 2 ≤ num / den ↔ 2 * (den * q) ≤ 2 * num + den := by
    rw [le_div_iff₀ hden', ← @Nat.cast_le ℚ]
    push_cast
    constructor <;> intro h <;> linarith
  have hupper : (num : ℚ) / den ≤ q + 1 / 2 ↔ 2 * num ≤ 2 * (den * q) + den := by
    rw [div_le_iff₀ hden', ← @Nat.cast_le ℚ]
    push_cast
    constructor <;> intro h <;> linarith
  have hlower' : (q : ℚ) - 1 / 2 < num / den ↔ 2 * (den * q) < 2 * num + den := by
    rw [lt_div_iff₀ hden', ← @Nat.cast_lt ℚ]
    push_cast
    constructor <;> intro h <;> linarith
  have hupper' : (num : ℚ) / den < q + 1 / 2 ↔ 2 * num < 2 * (den * q) + den := by
    rw [div_lt_iff₀ hden', ← @Nat.cast_lt ℚ]
    push_cast
    constructor <;> intro h <;> linarith
  rw [← hlower, ← hupper, ← hlower', ← hupper']
  exact ⟨fun h => ⟨h.lower, h.upper, h.odd⟩, fun h => ⟨h.1, h.2.1, h.2.2⟩⟩

theorem roundHalfEven_cases (num den : Nat) :
    roundHalfEven num den = num / den ∨ roundHalfEven num den = num / den + 1 := by
  simp only [roundHalfEven]
  split
  · exact .inl rfl
  · split <;> omega

theorem rounds_roundHalfEven (num : Nat) {den : Nat} (hden : 0 < den) :
    Rounds (num / den) (roundHalfEven num den) := by
  have hdiv := Nat.div_add_mod num den
  have hmod := Nat.mod_lt num hden
  rw [rounds_iff hden]
  simp only [roundHalfEven]
  split
  · omega
  · split
    · rw [Nat.mul_add, Nat.mul_one]
      omega
    · rcases Nat.mod_two_eq_zero_or_one (num / den) with hbit | hbit <;> rw [hbit]
      · rw [Nat.add_zero]
        omega
      · rw [Nat.mul_add, Nat.mul_one]
        omega

theorem Rounds.le {x : ℚ} {q r : Nat} (hq : Rounds x q) (hr : Rounds x r) : q ≤ r := by
  by_contra hlt
  -- They are neighbours with the real halfway between, and one of them is odd.
  have hnear : (q : ℚ) < r + 2 := by linarith [hq.lower, hr.upper]
  norm_cast at hnear
  obtain rfl : q = r + 1 := by omega
  have hqlower := hq.lower
  push_cast at hqlower
  rcases Nat.mod_two_eq_zero_or_one r with hbit | hbit
  · have hstrict := (hq.odd (by omega)).1
    push_cast at hstrict
    linarith [hr.upper]
  · linarith [(hr.odd hbit).2]

/-- There is only one nearest integer. -/
theorem roundHalfEven_eq {num den q : Nat} (hden : 0 < den) (h : Rounds (num / den) q) :
    roundHalfEven num den = q :=
  Nat.le_antisymm ((rounds_roundHalfEven num hden).le h) (h.le (rounds_roundHalfEven num hden))

theorem log2_bounds {n : Nat} (hn : 0 < n) :
    (2 : ℚ) ^ (n.log2 : ℤ) ≤ n ∧ (n : ℚ) < 2 ^ (n.log2 + 1 : ℤ) := by
  rw [zpow_add₀ two_ne_zero, zpow_natCast, zpow_one, ← pow_succ]
  exact ⟨by exact_mod_cast Nat.log2_self_le hn.ne', by exact_mod_cast Nat.lt_log2_self⟩

/-- The exponent of the power of two at or below a quotient. -/
theorem floorLog2_eq {num den : Nat} {e : ℤ} (hnum : 0 < num) (hden : 0 < den)
    (hlower : (2 : ℚ) ^ e ≤ num / den) (hupper : (num : ℚ) / den < 2 ^ (e + 1)) :
    floorLog2 num den = e := by
  have hden' : (0 : ℚ) < den := by exact_mod_cast hden
  have hnumlog := log2_bounds hnum
  have hdenlog := log2_bounds hden
  rw [le_div_iff₀ hden'] at hlower
  rw [div_lt_iff₀ hden'] at hupper
  have hle : e < num.log2 - den.log2 + 1 := by
    have : (2 : ℚ) ^ (e + den.log2) < 2 ^ (num.log2 + 1 : ℤ) := by
      rw [zpow_add₀ two_ne_zero]
      calc (2 : ℚ) ^ e * 2 ^ (den.log2 : ℤ) ≤ 2 ^ e * den := by gcongr; exact hdenlog.1
        _ ≤ num := hlower
        _ < 2 ^ (num.log2 + 1 : ℤ) := hnumlog.2
    have := (zpow_lt_zpow_iff_right₀ one_lt_two).1 this
    omega
  have hge : (num.log2 : ℤ) - den.log2 < e + 2 := by
    have : (2 : ℚ) ^ (num.log2 : ℤ) < 2 ^ (e + 1 + (den.log2 + 1)) := by
      rw [zpow_add₀ two_ne_zero (e + 1)]
      calc (2 : ℚ) ^ (num.log2 : ℤ) ≤ num := hnumlog.1
        _ < 2 ^ (e + 1) * den := hupper
        _ ≤ 2 ^ (e + 1) * 2 ^ (den.log2 + 1 : ℤ) := by gcongr; exact hdenlog.2.le
    have := (zpow_lt_zpow_iff_right₀ one_lt_two).1 this
    omega
  unfold floorLog2
  set k : ℤ := num.log2 - den.log2 with hk
  have htest : den * Nat.pow 2 k.toNat ≤ num * Nat.pow 2 (-k).toNat ↔ (2 : ℚ) ^ k * den ≤ num := by
    rw [Nat.pow_eq, Nat.pow_eq, ← @Nat.cast_le ℚ]
    push_cast
    rw [pow_toNat two_ne_zero, ← mul_assoc, mul_comm (den : ℚ),
      mul_le_mul_iff_left₀ (pow_pos two_pos _)]
  simp only [htest]
  split
  next h =>
    have : (2 : ℚ) ^ k < 2 ^ (e + 1) := lt_of_mul_lt_mul_right (h.trans_lt hupper) hden'.le
    have := (zpow_lt_zpow_iff_right₀ one_lt_two).1 this
    omega
  next h =>
    have : (2 : ℚ) ^ e < 2 ^ k := lt_of_mul_lt_mul_right (hlower.trans_lt (not_le.1 h)) hden'.le
    have := (zpow_lt_zpow_iff_right₀ one_lt_two).1 this
    omega

/-- Scaling by the last place turns a quotient into another quotient. -/
theorem div_zpow_two (num den : Nat) (e : ℤ) : (num : ℚ) / den / 2 ^ e =
    ((num * 2 ^ (-e).toNat : ℕ) : ℚ) / (den * 2 ^ e.toNat : ℕ) := by
  push_cast
  rw [pow_toNat two_ne_zero e]
  field_simp

/-- The nearest double, if its exponent and mantissa are known. -/
theorem nearest_eq {num den q : Nat} {e : ℤ} (hnum : 0 < num) (hden : 0 < den)
    (hmin : minExp ≤ e) (hnormal : e = minExp ∨ (2 : ℚ) ^ (e + 52) ≤ num / den)
    (hroom : (num : ℚ) / den < 2 ^ (e + 53)) (hround : Rounds (num / den / 2 ^ e) q) :
    nearest num den = min ((e - minExp).toNat * 2 ^ 52 + q) infinity := by
  have hpos : (0 : ℚ) < num / den := by positivity
  obtain ⟨k, hk, hk'⟩ := exists_mem_Ico_zpow hpos one_lt_two
  have hlog := floorLog2_eq hnum hden hk hk'
  have hexp : max (k - 52) minExp = e := by
    have hle : k < e + 53 := (zpow_lt_zpow_iff_right₀ one_lt_two).1 (hk.trans_lt hroom)
    rcases hnormal with rfl | hge
    · omega
    · have : e + 52 < k + 1 := (zpow_lt_zpow_iff_right₀ one_lt_two).1 (hge.trans_lt hk')
      omega
  have hmant : roundHalfEven (num * 2 ^ (-e).toNat) (den * 2 ^ e.toNat) = q :=
    roundHalfEven_eq (by positivity) (by rw [← div_zpow_two]; exact hround)
  simp only [nearest, hnum.ne', if_false, hlog, hexp, Nat.pow_eq, hmant]

/-- Every positive quotient has a nearest double, if exponents may grow without limit. -/
theorem exists_rounds {num den : Nat} (hnum : 0 < num) (hden : 0 < den) :
    ∃ (e : ℤ) (q : Nat), minExp ≤ e ∧ (e = minExp ∨ (2 : ℚ) ^ (e + 52) ≤ num / den) ∧
      (num : ℚ) / den < 2 ^ (e + 53) ∧ Rounds (num / den / 2 ^ e) q := by
  have hpos : (0 : ℚ) < num / den := by positivity
  obtain ⟨k, hk, hk'⟩ := exists_mem_Ico_zpow hpos one_lt_two
  obtain ⟨e, he⟩ : ∃ e, e = max (k - 52) minExp := ⟨_, rfl⟩
  refine ⟨e, roundHalfEven (num * 2 ^ (-e).toNat) (den * 2 ^ e.toNat), by omega, ?_, ?_, ?_⟩
  · by_cases hmin : e = minExp
    · exact .inl hmin
    · exact .inr (le_of_eq_of_le (by congr 1; omega) hk)
  · exact hk'.trans_le (zpow_le_zpow_right₀ one_le_two (by omega))
  · rw [div_zpow_two]
    exact rounds_roundHalfEven _ (by positivity)

/-- The nearest double depends on the value of the quotient only. -/
theorem nearest_congr {num den num' den' : Nat} (hden : 0 < den) (hden' : 0 < den')
    (h : (num : ℚ) / den = num' / den') : nearest num den = nearest num' den' := by
  have hiff : 0 < num ↔ 0 < num' := by
    rw [← @Nat.cast_pos ℚ, ← @Nat.cast_pos ℚ, ← div_pos_iff_of_pos_right (Nat.cast_pos.2 hden), h,
      div_pos_iff_of_pos_right (Nat.cast_pos.2 hden')]
  rcases Nat.eq_zero_or_pos num with hzero | hnum
  · have hzero' : num' = 0 := by omega
    rw [nearest, nearest, if_pos hzero, if_pos hzero']
  · obtain ⟨e, q, hmin, hnormal, hroom, hround⟩ := exists_rounds hnum hden
    rw [nearest_eq hnum hden hmin hnormal hroom hround]
    rw [h] at hnormal hroom hround
    rw [nearest_eq (hiff.1 hnum) hden' hmin hnormal hroom hround]

theorem nearest_of_eq_zero {num den : Nat} (hden : 0 < den) (h : (num : ℚ) / den = 0) :
    nearest num den = 0 := by
  have hden' : (den : ℚ) ≠ 0 := by exact_mod_cast hden.ne'
  have hnum : num = 0 := by
    rw [div_eq_zero_iff, or_iff_left hden'] at h
    exact_mod_cast h
  rw [nearest, if_pos hnum]

/-- What lies well within the range of doubles is not rounded to infinity. -/
theorem nearest_lt_infinity {num den : Nat} (hden : 0 < den)
    (h : (num : ℚ) / den < 2 ^ (1000 : ℤ)) : nearest num den < infinity := by
  have hinfinity : infinity = 2047 * 2 ^ 52 := rfl
  rcases Nat.eq_zero_or_pos num with hzero | hnum
  · rw [nearest, if_pos hzero]
    omega
  · obtain ⟨e, q, hmin, hnormal, hroom, hround⟩ := exists_rounds hnum hden
    have hminExp : minExp = -1074 := rfl
    have he : e < 948 := by
      rcases hnormal with rfl | hle
      · omega
      · have := (zpow_lt_zpow_iff_right₀ one_lt_two).1 (hle.trans_lt h)
        omega
    have hq : q ≤ 2 ^ 53 := by
      have hlt : (num : ℚ) / den / 2 ^ e < 2 ^ 53 := by
        rw [div_lt_iff₀ (zpow_pos two_pos e)]
        refine hroom.trans_eq ?_
        rw [zpow_add₀ two_ne_zero, mul_comm]
        norm_num
      have hcast : (q : ℚ) < (2 ^ 53 : ℕ) + 1 := by
        push_cast
        linarith [hround.lower]
      exact Nat.lt_succ_iff.1 (by exact_mod_cast hcast)
    rw [nearest_eq hnum hden hmin hnormal hroom hround]
    omega

-- -----------------------------------------------------------------------
-- Rounding in an interval
-- -----------------------------------------------------------------------

/-- A quotient in the interval of a double and not below the power of two of its exponent:
its last place is that of the double. -/
theorem nearest_of_covers_of_le {s : Scaled} {num den : Nat} (hs : s.Canonical)
    (hmant : 0 < s.mant) (hnum : 0 < num) (hden : 0 < den) (h : s.Covers (num / den))
    (hnormal : s.exp = minExp ∨ (2 : ℚ) ^ (s.exp + 52) ≤ num / den) :
    nearest num den = s.magnitude := by
  have hlow : ((s.mant : ℚ) - 1 / 2) * 2 ^ s.exp ≤ Digits.lowerEnd s * s.quarter := by
    have hend : ((4 * s.mant - 2 : ℕ) : ℚ) ≤ Digits.lowerEnd s := by exact_mod_cast s.lowerEnd_ge
    rw [Nat.cast_sub (by omega)] at hend
    push_cast at hend
    calc ((s.mant : ℚ) - 1 / 2) * 2 ^ s.exp = (4 * s.mant - 2) * s.quarter := by
          rw [← s.four_mul_quarter]; ring
      _ ≤ Digits.lowerEnd s * s.quarter := mul_le_mul_of_nonneg_right hend s.quarter_pos.le
  have hpower : (0 : ℚ) < 2 ^ s.exp := zpow_pos two_pos _
  have hround : Rounds (num / den / 2 ^ s.exp) s.mant := by
    constructor
    · rw [le_div_iff₀ hpower]
      exact hlow.trans h.lower
    · rw [div_le_iff₀ hpower]
      exact h.upper.trans_eq s.upperEnd_mul_quarter
    · intro hodd
      rw [lt_div_iff₀ hpower, div_lt_iff₀ hpower]
      exact ⟨hlow.trans_lt (h.odd hodd).1, (h.odd hodd).2.trans_eq s.upperEnd_mul_quarter⟩
  rw [nearest_eq hnum hden hs.minExp_le hnormal (h.lt hs) hround]
  exact min_eq_left hs.finite.le

/-- A quotient in the interval of a double and below the power of two of its exponent. The
double is that power, and the mantissa of half a place is rounded up to `2 ^ 53`. -/
theorem nearest_of_covers_of_lt {s : Scaled} {num den : Nat} (hs : s.Canonical)
    (hnum : 0 < num) (hden : 0 < den) (h : s.Covers (num / den))
    (hexp : minExp < s.exp) (hlt : (num : ℚ) / den < 2 ^ (s.exp + 52)) :
    nearest num den = s.magnitude := by
  have hmant : 2 ^ 52 ≤ s.mant := by
    rcases hs.normal with heq | hle
    · omega
    · exact hle
  have hfour : (2 : ℚ) ^ (s.exp + 52) = (4 * 2 ^ 52 : ℕ) * s.quarter := by
    rw [zpow_add₀ two_ne_zero, ← s.four_mul_quarter]
    push_cast
    ring
  have hend : Digits.lowerEnd s < 4 * 2 ^ 52 := by
    have := h.lower.trans_lt hlt
    rw [hfour] at this
    exact_mod_cast lt_of_mul_lt_mul_right this s.quarter_pos.le
  have heq : s.mant = 2 ^ 52 := by
    have := s.lowerEnd_ge
    omega
  have hlower : Digits.lowerEnd s = 4 * 2 ^ 52 - 1 := by
    rw [Digits.lowerEnd, if_pos ⟨heq, hexp⟩, heq]
  have hhalf : (2 : ℚ) ^ (s.exp - 1) = 2 * s.quarter := by
    rw [Scaled.quarter, mul_comm, ← zpow_add_one₀ two_ne_zero]
    congr 1
    omega
  have hlow : ((2 ^ 53 : ℕ) - 1 / 2 : ℚ) * 2 ^ (s.exp - 1) ≤ num / den := by
    refine le_trans (le_of_eq ?_) h.lower
    rw [hlower, hhalf]
    push_cast
    ring
  have hbinade : (2 : ℚ) ^ (s.exp - 1 + 52) ≤ num / den := by
    refine le_trans ?_ hlow
    rw [zpow_add₀ two_ne_zero, mul_comm]
    gcongr
    norm_num
  have hupper : (num : ℚ) / den ≤ ((2 ^ 53 : ℕ) + 1 / 2) * 2 ^ (s.exp - 1) := by
    refine hlt.le.trans ?_
    rw [hfour, hhalf]
    have := s.quarter_pos
    push_cast
    linarith
  have hround : Rounds (num / den / 2 ^ (s.exp - 1)) (2 ^ 53) := by
    have hpower : (0 : ℚ) < 2 ^ (s.exp - 1) := zpow_pos two_pos _
    refine ⟨?_, ?_, fun hodd => absurd hodd (by decide)⟩
    · rw [le_div_iff₀ hpower]
      exact hlow
    · rw [div_le_iff₀ hpower]
      exact hupper
  rw [nearest_eq hnum hden (by omega) (.inr hbinade) (by convert hlt using 2; omega) hround]
  have hmagnitude : (s.exp - 1 - minExp).toNat * 2 ^ 52 + 2 ^ 53 = s.magnitude := by
    rw [Scaled.magnitude, heq]
    omega
  rw [hmagnitude]
  exact min_eq_left hs.finite.le

/-- A quotient in the interval of a double is rounded to it. -/
theorem nearest_of_covers {s : Scaled} {num den : Nat} (hs : s.Canonical) (hmant : 0 < s.mant)
    (hden : 0 < den) (h : s.Covers (num / den)) : nearest num den = s.magnitude := by
  have hnum : 0 < num := by
    have hpos := h.pos hs hmant
    by_contra hzero
    obtain rfl : num = 0 := by omega
    simp at hpos
  by_cases hnormal : s.exp = minExp ∨ (2 : ℚ) ^ (s.exp + 52) ≤ num / den
  · exact nearest_of_covers_of_le hs hmant hnum hden h hnormal
  · rw [not_or, not_le] at hnormal
    have hexp : minExp < s.exp := lt_of_le_of_ne hs.minExp_le (Ne.symm hnormal.1)
    exact nearest_of_covers_of_lt hs hnum hden h hexp hnormal.2

/-- The value of a double is rounded to the double. -/
theorem nearest_of_value {s : Scaled} {num den : Nat} (hs : s.Canonical) (hden : 0 < den)
    (h : (num : ℚ) / den = s.value) : nearest num den = s.magnitude := by
  rcases Nat.eq_zero_or_pos s.mant with hzero | hmant
  · rw [nearest_of_eq_zero hden (by simp [h, Scaled.value, hzero]), Scaled.magnitude, hzero]
    rcases hs.normal with hexp | hnormal <;> omega
  · exact nearest_of_covers hs hmant hden (h ▸ s.covers_value)

end Number

-- -----------------------------------------------------------------------
-- Decimals
-- -----------------------------------------------------------------------

namespace Decimal

/-- The value of a decimal without its sign. -/
def value (d : Decimal) : ℚ := d.digits * 10 ^ d.exp

/-- Multiplying by a power of ten gains three binary places for each zero, or more. -/
theorem le_value {d : Decimal} (hdigits : 0 < d.digits) (hexp : 0 ≤ d.exp) :
    (2 : ℚ) ^ (d.digits.log2 + 3 * d.exp) ≤ d.value := by
  rw [value, zpow_add₀ two_ne_zero, zpow_mul]
  have hten : ((2 : ℚ) ^ (3 : ℤ)) ^ d.exp ≤ 10 ^ d.exp :=
    zpow_le_zpow_left₀ hexp (by norm_num) (by norm_num)
  exact mul_le_mul (Number.log2_bounds hdigits).1 hten (by positivity) (by positivity)

/-- Dividing by a power of ten loses three binary places for each zero, or more. -/
theorem value_lt {d : Decimal} (hdigits : 0 < d.digits) (hexp : d.exp ≤ 0) :
    d.value < 2 ^ (d.digits.log2 + 1 + 3 * d.exp) := by
  have hten : (10 : ℚ) ^ d.exp ≤ (2 ^ (3 : ℤ)) ^ d.exp := by
    obtain ⟨n, hn⟩ := Int.eq_ofNat_of_zero_le (Int.neg_nonneg_of_nonpos hexp)
    rw [← neg_neg d.exp, hn, zpow_neg, zpow_neg]
    exact inv_anti₀ (by positivity) (zpow_le_zpow_left₀ (by omega) (by norm_num) (by norm_num))
  rw [value, zpow_add₀ two_ne_zero, zpow_mul]
  exact mul_lt_mul (Number.log2_bounds hdigits).2 hten (by positivity) (by positivity)

/-- A decimal in the interval of a double has its magnitude. Such a decimal is neither so
large nor so small that its power of ten is not computed. -/
theorem magnitude_of_covers {d : Decimal} {s : Scaled} (hs : s.Canonical) (hmant : 0 < s.mant)
    (h : s.Covers d.value) : d.magnitude = s.magnitude := by
  have hpos := h.pos hs hmant
  have hdigits : 0 < d.digits := by
    by_contra hzero
    obtain hzero : d.digits = 0 := by omega
    simp [value, hzero] at hpos
  have hlarge : ¬ (0 ≤ d.exp ∧ 1024 ≤ d.digits.log2 + 3 * d.exp) := by
    rintro ⟨hexp, hsize⟩
    have hlt := (zpow_lt_zpow_iff_right₀ one_lt_two).1
      ((le_value hdigits hexp).trans_lt (h.lt hs))
    have := hs.exp_le
    omega
  have hsmall : ¬ (d.exp < 0 ∧ d.digits.log2 + 1 + 3 * d.exp ≤ -1075) := by
    rintro ⟨hexp, hsize⟩
    have hlt := (zpow_lt_zpow_iff_right₀ one_lt_two).1
      ((h.ge hs hmant).trans_lt (value_lt hdigits hexp.le))
    have : Number.minExp = -1074 := rfl
    omega
  have hquotient : d.value =
      ((d.digits * 10 ^ d.exp.toNat : ℕ) : ℚ) / (10 ^ (-d.exp).toNat : ℕ) := by
    push_cast
    rw [pow_toNat (by norm_num) d.exp, value]
    field_simp
  rw [hquotient] at h
  rw [magnitude, if_neg hdigits.ne', if_neg (by simpa using hlarge), if_neg (by simpa using hsmall)]
  exact Number.nearest_of_covers hs hmant (Nat.pow_pos (by decide)) h

end Decimal

end Wordstack
