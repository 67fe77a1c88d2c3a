-- SUMMARY: The shortest digits of a double lie in the interval that is rounded to it.
import Wordstack.Proofs.Number.Numeral
import Wordstack.Proofs.Number.Rounding

/-!
# Shortest digits are rounded back

The search for the shortest digits of a double only takes decimals in the interval of the
double, and where it finds none all the digits are written. So what it gives is rounded to
the double again (`Digits.covers_shortest`).
-/

namespace Wordstack

namespace Digits

-- -----------------------------------------------------------------------
-- Trailing zeros
-- -----------------------------------------------------------------------

/-- The value of the digits. -/
def value (d : Digits) : ℚ := Decimal.natOfDigits d.digits * 10 ^ d.exp

/-- The digits are written as those of a positive number. -/
structure Proper (d : Digits) : Prop where
  digits : Numeral.AreDigits d.digits
  head : d.digits.head? ≠ some '0'

/-- Only zeros are moved into the exponent. -/
theorem ofNat_eq (n : Nat) (exp : Int) : ∃ count : Nat,
    Nat.toDigits 10 n = (ofNat n exp).digits ++ List.replicate count '0' ∧
      (ofNat n exp).exp = exp + count := by
  set all := Nat.toDigits 10 n with hall
  have hsplit : all = (all.reverse.dropWhile (· == '0')).reverse ++
      (all.reverse.takeWhile (· == '0')).reverse := by
    rw [← List.reverse_append, List.takeWhile_append_dropWhile, List.reverse_reverse]
  have hzeros : (all.reverse.takeWhile (· == '0')).reverse =
      List.replicate (all.length - (all.reverse.dropWhile (· == '0')).reverse.length) '0' := by
    rw [List.eq_replicate_iff]
    constructor
    · have := congrArg List.length hsplit
      rw [List.length_append] at this
      omega
    · intro c hc
      exact beq_iff_eq.1 (List.all_eq_true.1 List.all_takeWhile c (List.mem_reverse.1 hc))
  rw [hzeros] at hsplit
  exact ⟨_, hsplit, rfl⟩

theorem value_ofNat (n : Nat) (exp : Int) : (ofNat n exp).value = n * 10 ^ exp := by
  obtain ⟨count, hdigits, hexp⟩ := ofNat_eq n exp
  have hn : n = Decimal.natOfDigits (ofNat n exp).digits * 10 ^ count := by
    have h := Decimal.natOfDigits_toDigits n
    rw [hdigits, Decimal.natOfDigits_append, Decimal.natOfDigits_zeros,
      List.length_replicate, Nat.add_zero] at h
    exact h.symm
  have hn' : (n : ℚ) = Decimal.natOfDigits (ofNat n exp).digits * 10 ^ count := by
    exact_mod_cast hn
  rw [value, hexp, zpow_add₀ (by norm_num), zpow_natCast, hn']
  ring

theorem proper_ofNat {n : Nat} (hn : 0 < n) (exp : Int) : (ofNat n exp).Proper := by
  obtain ⟨count, hdigits, -⟩ := ofNat_eq n exp
  have hne : (ofNat n exp).digits ≠ [] := by
    intro hnil
    have h := Decimal.natOfDigits_toDigits n
    rw [hdigits, hnil, List.nil_append, Decimal.natOfDigits_zeros] at h
    omega
  refine ⟨⟨hne, ?_⟩, ?_⟩
  · intro c hc
    have hmem : c ∈ Nat.toDigits 10 n := by
      rw [hdigits]
      exact List.mem_append_left _ hc
    exact Nat.isDigit_of_mem_toDigits (by decide) (by decide) hmem
  · have hhead := Decimal.head?_toDigits hn
    obtain ⟨c, cs, hcs⟩ := List.exists_cons_of_ne_nil hne
    rw [hdigits, hcs] at hhead
    rw [hcs]
    exact hhead

-- -----------------------------------------------------------------------
-- The grid
-- -----------------------------------------------------------------------

/-- A quarter of the last place and a step of the grid, counted in the common unit. -/
theorem units_eq (s : Scaled) (g : Int) : ∃ unit : ℚ, 0 < unit ∧
    (quarterUnits s g : ℚ) = s.quarter * unit ∧ (gridUnits s g : ℚ) = 10 ^ g * unit := by
  refine ⟨2 ^ (2 - s.exp).toNat * 10 ^ (-g).toNat, by positivity, ?_, ?_⟩
  · have hpow := pow_toNat two_ne_zero (s.exp - 2)
    rw [neg_sub] at hpow
    rw [quarterUnits, Scaled.quarter, Nat.pow_eq, Nat.pow_eq]
    push_cast
    rw [hpow]
    ring
  · rw [gridUnits, Nat.pow_eq, Nat.pow_eq]
    push_cast
    rw [pow_toNat (by norm_num) g]
    ring

/-- The interval is tested in the common unit. -/
theorem inInterval_iff (s : Scaled) (g : Int) (c : Nat) :
    inInterval s g c = true ↔ s.Covers (c * 10 ^ g) := by
  obtain ⟨unit, hunit, hquarter, hgrid⟩ := units_eq s g
  have hle (a b : Nat) : a * quarterUnits s g ≤ b * gridUnits s g ↔
      (a : ℚ) * s.quarter ≤ b * 10 ^ g := by
    rw [← @Nat.cast_le ℚ]
    push_cast
    rw [hquarter, hgrid, ← mul_assoc, ← mul_assoc, mul_le_mul_iff_left₀ hunit]
  have hge (a b : Nat) : b * gridUnits s g ≤ a * quarterUnits s g ↔
      (b : ℚ) * 10 ^ g ≤ a * s.quarter := by
    rw [← @Nat.cast_le ℚ]
    push_cast
    rw [hquarter, hgrid, ← mul_assoc, ← mul_assoc, mul_le_mul_iff_left₀ hunit]
  simp only [inInterval]
  split
  next heven =>
    rw [Bool.and_eq_true, decide_eq_true_eq, decide_eq_true_eq, hle, hge]
    exact ⟨fun h => ⟨h.1, h.2, fun hodd => by omega⟩, fun h => ⟨h.lower, h.upper⟩⟩
  next hodd =>
    rw [Bool.and_eq_true, decide_eq_true_eq, decide_eq_true_eq, ← not_le, ← not_le, hle, hge,
      not_le, not_le]
    exact ⟨fun h => ⟨h.1.le, h.2.le, fun _ => h⟩, fun h => h.odd (by omega)⟩

theorem nearer_cases (tie : Tie) (s : Scaled) (g : Int) (c : Nat) :
    nearer tie s g c = c ∨ nearer tie s g c = c + 1 := by
  simp only [nearer]
  split
  · exact .inl rfl
  · split
    · exact .inr rfl
    · cases tie with
      | up => exact .inr rfl
      | even =>
        simp only
        omega

/-- What is taken from a grid lies in the interval. -/
theorem covers_of_onGrid? {tie : Tie} {s : Scaled} {g : Int} {c : Nat}
    (h : onGrid? tie s g = some c) : s.Covers (c * 10 ^ g) := by
  rw [← inInterval_iff]
  simp only [onGrid?] at h
  split at h
  next hlow hhigh =>
    obtain rfl := Option.some.inj h
    rcases nearer_cases tie s g (4 * s.mant * quarterUnits s g / gridUnits s g) with heq | heq
    · rw [heq]
      exact hlow
    · rw [heq]
      exact hhigh
  next hlow _ =>
    obtain rfl := Option.some.inj h
    exact hlow
  next _ hhigh =>
    obtain rfl := Option.some.inj h
    exact hhigh
  next => cases h

-- -----------------------------------------------------------------------
-- The digits found
-- -----------------------------------------------------------------------

/-- All the digits of a double are those of its value. -/
theorem exact_eq (s : Scaled) : ∃ (c : Nat) (g : Int), exact s = ofNat c g ∧
    (c : ℚ) * 10 ^ g = s.value := by
  refine ⟨_, _, rfl, ?_⟩
  rw [Scaled.value, Nat.pow_eq, Nat.pow_eq]
  push_cast
  rcases le_total 0 s.exp with hexp | hexp
  · rw [min_eq_right hexp, pow_toNat two_ne_zero, Int.toNat_of_nonpos (by omega)]
    ring
  · rw [min_eq_left hexp, Int.toNat_of_nonpos hexp, pow_toNat (by norm_num), neg_neg,
      Int.toNat_of_nonpos hexp, show (10 : ℚ) = 2 * 5 by norm_num, mul_zpow]
    rw [zpow_neg]
    field_simp

/-- The shortest digits are those of a point of a grid that lies in the interval. -/
theorem shortest_eq (tie : Tie) (s : Scaled) : ∃ (c : Nat) (g : Int),
    shortest tie s = ofNat c g ∧ s.Covers (c * 10 ^ g) := by
  simp only [shortest]
  cases hfound : (List.range 17).findSome? fun (i : Nat) =>
      (onGrid? tie s (floorLog10 s - i)).map (ofNat · (floorLog10 s - i)) with
  | none =>
    obtain ⟨c, g, heq, hvalue⟩ := exact_eq s
    exact ⟨c, g, heq, by rw [hvalue]; exact s.covers_value⟩
  | some d =>
    obtain ⟨i, -, hi⟩ := List.exists_of_findSome?_eq_some hfound
    obtain ⟨c, hc, rfl⟩ := Option.map_eq_some_iff.1 hi
    exact ⟨c, _, rfl, covers_of_onGrid? hc⟩

/-- The shortest digits of a positive double are rounded to it. -/
theorem covers_shortest (tie : Tie) (s : Scaled) : s.Covers (shortest tie s).value := by
  obtain ⟨c, g, heq, hcovers⟩ := shortest_eq tie s
  rw [heq, value_ofNat]
  exact hcovers

theorem proper_shortest (tie : Tie) {s : Scaled} (hs : s.Canonical) (hmant : 0 < s.mant) :
    (shortest tie s).Proper := by
  obtain ⟨c, g, heq, hcovers⟩ := shortest_eq tie s
  have hc : 0 < c := by
    have hpos := hcovers.pos hs hmant
    by_contra hzero
    obtain rfl : c = 0 := by omega
    simp at hpos
  rw [heq]
  exact proper_ofNat hc g

end Digits

end Wordstack
