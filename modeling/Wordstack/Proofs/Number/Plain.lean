-- SUMMARY: Integers and numbers that are written out are literals, and are read back as they are.
import Wordstack.Proofs.Number.Literal
import Wordstack.Proofs.Number.Text
import Wordstack.Settings.Value

/-!
# Numbers written out

An integer and the plain text of a number are literals without a power of ten. An integer is
written back from its digits if none of them is needless (`Numeral.toString_int`), and a plain
text is read as the number it came from (`Number.float?_plainText`).
-/

namespace Wordstack

-- -----------------------------------------------------------------------
-- Digits
-- -----------------------------------------------------------------------

namespace Decimal

variable {ds : List Char}

theorem toDigits_single {c : Char} (hc : c.isDigit = true) :
    natOfDigits [c] < 10 ∧ Nat.toDigits 10 (natOfDigits [c]) = [c] := by
  have hall : ['0', '1', '2', '3', '4', '5', '6', '7', '8', '9'].all (fun c =>
      decide (natOfDigits [c] < 10 ∧ Nat.toDigits 10 (natOfDigits [c]) = [c])) = true := by
    decide
  exact of_decide_eq_true (List.all_eq_true.mp hall c (isDigit_iff.mp hc))

/-- Digits that start with another digit than zero write a positive number. -/
theorem natOfDigits_pos {c : Char} (hc : c.isDigit = true) (hzero : c ≠ '0') :
    0 < natOfDigits (c :: ds) := by
  have hpos : natOfDigits [c] ≠ 0 := by
    intro hnone
    have hsingle := (toDigits_single hc).2
    rw [hnone] at hsingle
    exact hzero (List.singleton_inj.mp hsingle).symm
  rw [← List.singleton_append, natOfDigits_append]
  exact Nat.add_pos_left (Nat.mul_pos (Nat.pos_of_ne_zero hpos) (Nat.pow_pos (by decide))) _

/-- A number is written with the digits that it was read from, if none of them is needless. -/
theorem toDigits_natOfDigits (hds : Numeral.AreDigits ds)
    (hhead : ds = ['0'] ∨ ds.head? ≠ some '0') :
    Nat.toDigits 10 (natOfDigits ds) = ds := by
  obtain ⟨hne, hdigits⟩ := hds
  rcases hhead with rfl | hhead
  · rfl
  · induction ds using List.reverseRecOn with
    | nil => exact absurd rfl hne
    | append_singleton ds c ih =>
      have hc : c.isDigit = true := hdigits c (by simp)
      obtain ⟨hlt, hsingle⟩ := toDigits_single hc
      cases ds with
      | nil => exact hsingle
      | cons d ds =>
        have hd : d.isDigit = true := hdigits d (by simp)
        have hzero : d ≠ '0' := by
          rintro rfl
          exact hhead rfl
        have hrest : Nat.toDigits 10 (natOfDigits (d :: ds)) = d :: ds :=
          ih (by simp) (fun e he => hdigits e (List.mem_append_left _ he)) (by simpa using hzero)
        rw [natOfDigits_append, List.length_singleton, pow_one, Nat.mul_comm,
          ← Nat.toDigits_append_toDigits (by decide) (natOfDigits_pos hd hzero) hlt, hrest, hsingle]

end Decimal

-- -----------------------------------------------------------------------
-- Integers
-- -----------------------------------------------------------------------

namespace Numeral

variable {n : Numeral} {i : Int}

/-- The literal of an integer. -/
def ofInt (i : Int) : Numeral where
  negative := i < 0
  whole := Nat.toDigits 10 i.natAbs
  fraction := []
  power := none

/-- A literal with neither a point nor a power of ten. -/
structure IsWhole (n : Numeral) : Prop where
  fraction : n.fraction = []
  power : n.power = none

/-- The integer that the digits before the point write. -/
def int (n : Numeral) : Int :=
  if n.negative then -(Decimal.natOfDigits n.whole : Int) else Decimal.natOfDigits n.whole

theorem chars_ofInt (i : Int) : String.ofList (ofInt i).chars = toString i := by
  have hchars : (ofInt i).chars = Number.withSign (i < 0) (Nat.toDigits 10 i.natAbs) := by
    simp [chars, ofInt, fractionChars, powerChars]
  apply String.toList_inj.mp
  rw [hchars, String.toList_ofList, Int.toString_eq_repr, Int.repr_eq_if]
  by_cases hi : 0 ≤ i
  · obtain ⟨k, rfl⟩ := Int.eq_ofNat_of_zero_le hi
    simp [Number.withSign, Nat.toList_repr]
  · obtain ⟨k, rfl⟩ := Int.eq_negSucc_of_lt_zero (Int.not_le.mp hi)
    simp [Number.withSign, Nat.toList_repr, String.toList_append]

theorem valid_ofInt (i : Int) : (ofInt i).Valid := by
  refine ⟨⟨Nat.toDigits_ne_nil, ?_⟩, ?_, .inl rfl, by simp [ofInt]⟩
  · exact fun c hc => Nat.isDigit_of_mem_toDigits (by decide) (by decide) hc
  · rcases Nat.eq_zero_or_pos i.natAbs with hzero | hpos
    · left
      simp only [ofInt, hzero]
      rfl
    · exact .inr (Decimal.head?_toDigits hpos)

theorem isWhole_ofInt (i : Int) : (ofInt i).IsWhole := ⟨rfl, rfl⟩

theorem int_ofInt (i : Int) : (ofInt i).int = i := by
  simp only [int, ofInt, Decimal.natOfDigits_toDigits, decide_eq_true_eq]
  split <;> omega

theorem IsWhole.splitSign_chars (hwhole : n.IsWhole) (h : AreDigits n.whole) :
    Decimal.splitSign n.chars = (n.negative, n.whole) := by
  rw [Numeral.splitSign_chars h]
  simp [fractionChars, powerChars, hwhole.fraction, hwhole.power]

/-- Such a literal is read as an integer if that has 64 bits. -/
theorem IsWhole.int?_chars (hwhole : n.IsWhole) (h : n.Valid)
    (hmin : Int64.minValue.toInt ≤ n.int) (hmax : n.int ≤ Int64.maxValue.toInt) :
    RawValue.int? (String.ofList n.chars) = some n.int := by
  have hdigits : (n.whole.isEmpty || !n.whole.all Char.isDigit) = false := by
    simpa [h.whole.1] using h.whole.2
  simp only [RawValue.int?, String.toList_ofList, hwhole.splitSign_chars h.whole, hdigits]
  rw [if_neg (by simp)]
  exact if_pos (by simpa using ⟨hmin, hmax⟩)

/-- No other literal is read as an integer. -/
theorem Valid.of_int?_chars (h : n.Valid) (hint : RawValue.int? (String.ofList n.chars) = some i) :
    n.IsWhole ∧ i = n.int := by
  simp only [RawValue.int?, String.toList_ofList, splitSign_chars h.whole,
    Option.ite_none_left_eq_some, Option.ite_none_right_eq_some, Option.some.injEq] at hint
  obtain ⟨hdigits, -, rfl⟩ := hint
  simp only [Bool.not_eq_true, Bool.or_eq_false_iff, Bool.not_eq_false', List.all_append,
    Bool.and_eq_true, List.all_eq_true] at hdigits
  obtain ⟨-, -, hfraction, hpower⟩ := hdigits
  have hwhole : n.IsWhole := by
    constructor
    · by_contra hne
      rw [fractionChars_of_ne_nil hne] at hfraction
      exact absurd (hfraction '.' List.mem_cons_self) (by decide)
    · cases hn : n.power with
      | none => rfl
      | some power =>
        have he : 'e' ∈ n.powerChars := by simp [powerChars, hn]
        exact absurd (hpower 'e' he) (by decide)
  refine ⟨hwhole, ?_⟩
  simp [int, fractionChars, powerChars, hwhole.fraction, hwhole.power]

/-- An integer is written as the literal that it was read from, if none of its digits is
needless and it is no negative zero. -/
theorem IsWhole.toString_int (hwhole : n.IsWhole) (h : n.Valid)
    (hzero : n.negative = true → n.whole ≠ ['0']) : toString n.int = String.ofList n.chars := by
  have hdigits := Decimal.toDigits_natOfDigits h.whole h.head
  have hpos : n.negative = true → 0 < Decimal.natOfDigits n.whole := by
    intro hnegative
    refine Nat.pos_of_ne_zero fun hnone => hzero hnegative ?_
    rw [← hdigits, hnone]
    rfl
  have hofInt : ofInt n.int = n := by
    obtain ⟨negative, whole, fraction, power⟩ := n
    obtain ⟨rfl, rfl⟩ := hwhole
    cases negative with
    | false => simp_all [ofInt, int]
    | true =>
      simp_all [ofInt, int]
  rw [← chars_ofInt, hofInt]

end Numeral

-- -----------------------------------------------------------------------
-- Numbers
-- -----------------------------------------------------------------------

namespace Number

variable {v : Float} {s : Scaled}

/-- The literal that a finite number is written out as. -/
def plainNumeral (s : Scaled) : Numeral :=
  if s.mant = 0 then { negative := s.negative, whole := ['0'], fraction := [], power := none }
  else (Digits.shortest .up s).written s.negative

theorem plainText_eq (h : scaled? v = some s) :
    plainText v = String.ofList (plainNumeral s).chars := by
  simp only [plainText, h, plainNumeral]
  split
  next => simp [Numeral.chars, Numeral.fractionChars, Numeral.powerChars]
  next => rw [Digits.chars_written]

theorem valid_plainNumeral (hs : s.Canonical) : (plainNumeral s).Valid := by
  unfold plainNumeral
  split
  next =>
    exact ⟨⟨by simp, by simp⟩, .inl rfl, .inl rfl, by simp⟩
  next hmant =>
    exact Digits.valid_written (Digits.proper_shortest .up hs (Nat.pos_of_ne_zero hmant)) _

theorem toFloat_plainNumeral (h : scaled? v = some s) : (plainNumeral s).decimal.toFloat = v := by
  have hs := canonical_of_scaled? h
  have hparts : (plainNumeral s).decimal.negative = s.negative ∧
      (plainNumeral s).decimal.magnitude = s.magnitude := by
    unfold plainNumeral
    split
    next hzero => exact ⟨rfl, (hs.magnitude_of_zero hzero).symm⟩
    next hmant =>
      refine ⟨Digits.negative_written _ _,
        Decimal.magnitude_of_covers hs (Nat.pos_of_ne_zero hmant) ?_⟩
      rw [Digits.value_written]
      exact Digits.covers_shortest .up s
  rw [Decimal.toFloat, hparts.1, hparts.2]
  exact ofMagnitude_of_scaled? h

/-- What is written out is read as a number that is written out alike. -/
theorem float?_plainText (v : Float) :
    ∃ w, RawValue.float? (plainText v) = some w ∧ plainText w = plainText v := by
  cases h : scaled? v with
  | some s =>
    refine ⟨v, ?_, rfl⟩
    simp only [RawValue.float?, plainText_eq h, String.toList_ofList,
      Numeral.parse?_chars (valid_plainNumeral (canonical_of_scaled? h)), toFloat_plainNumeral h]
  | none =>
    simp only [plainText, h]
    split
    next => exact ⟨nan, by decide +kernel⟩
    next =>
      split
      next => exact ⟨ofMagnitude true infinity, by decide +kernel⟩
      next => exact ⟨ofMagnitude false infinity, by decide +kernel⟩

end Number

end Wordstack
