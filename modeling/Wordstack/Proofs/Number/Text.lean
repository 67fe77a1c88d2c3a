-- SUMMARY: The text of a number in a document is a literal, and the double nearest to it is the number.
import Wordstack.Number.Text
import Wordstack.Proofs.Number.Shortest

/-!
# Texts of numbers

Both layouts of the shortest digits are literals with the value of the digits: written out
(`Digits.written`) and with a power of ten (`Digits.inPowers`). Since that value is rounded
to the double it came from, so is the literal: `Number.toFloat_documentNumeral`.
-/

namespace Wordstack

-- -----------------------------------------------------------------------
-- The two layouts
-- -----------------------------------------------------------------------

namespace Digits

/-- The literal that writes the digits out. -/
def written (negative : Bool) (d : Digits) : Numeral :=
  if 0 ≤ d.exp then
    { negative, whole := d.digits ++ List.replicate d.exp.toNat '0', fraction := [], power := none }
  else
    let places := (-d.exp).toNat
    if places < d.digits.length then
      let whole := d.digits.length - places
      { negative, whole := d.digits.take whole, fraction := d.digits.drop whole, power := none }
    else
      { negative, whole := ['0'], power := none
        fraction := List.replicate (places - d.digits.length) '0' ++ d.digits }

/-- The literal with one digit before the point and a power of ten. -/
def inPowers (negative : Bool) (d : Digits) : Numeral where
  negative
  whole := d.digits.take 1
  fraction := d.digits.drop 1
  power := some (d.leadingExp < 0, Nat.toDigits 10 d.leadingExp.natAbs)

theorem negative_written (negative : Bool) (d : Digits) :
    (d.written negative).negative = negative := by
  unfold written
  split
  · rfl
  · simp only
    split <;> rfl

theorem chars_written (negative : Bool) (d : Digits) :
    (d.written negative).chars = Number.withSign negative d.positional := by
  unfold written positional
  split
  next hexp => simp [Numeral.chars, Numeral.fractionChars, Numeral.powerChars]
  next hexp =>
    simp only
    split
    next hplaces =>
      have hne : d.digits.drop (d.digits.length - (-d.exp).toNat) ≠ [] := by
        rw [ne_eq, List.drop_eq_nil_iff]
        omega
      rw [Numeral.chars, Numeral.fractionChars_of_ne_nil hne]
      simp [Numeral.powerChars]
    next hplaces =>
      have hne : List.replicate ((-d.exp).toNat - d.digits.length) '0' ++ d.digits ≠ [] := by
        rw [← List.length_pos_iff, List.length_append, List.length_replicate]
        omega
      rw [Numeral.chars, Numeral.fractionChars_of_ne_nil hne]
      simp [Numeral.powerChars]

theorem chars_inPowers (negative : Bool) (d : Digits) :
    (d.inPowers negative).chars = Number.withSign negative d.scientific := by
  have hfraction : (d.inPowers negative).fractionChars =
      if (d.digits.drop 1).isEmpty then [] else '.' :: d.digits.drop 1 := by
    cases hdrop : d.digits.drop 1 with
    | nil => simp [Numeral.fractionChars, inPowers, hdrop]
    | cons c cs => simp [Numeral.fractionChars, inPowers, hdrop]
  rw [Numeral.chars, hfraction]
  simp [inPowers, scientific, Numeral.powerChars]

theorem valid_written {d : Digits} (h : d.Proper) (negative : Bool) :
    (d.written negative).Valid := by
  have hzeros (n : Nat) : ∀ c ∈ List.replicate n '0', c.isDigit = true := by
    intro c hc
    rw [List.eq_of_mem_replicate hc]
    rfl
  obtain ⟨c, cs, hcs⟩ := List.exists_cons_of_ne_nil h.digits.1
  unfold written
  split
  next hexp =>
    refine ⟨⟨?_, ?_⟩, .inr ?_, .inl rfl, by simp⟩
    · simp [hcs]
    · exact List.forall_mem_append.2 ⟨h.digits.2, hzeros _⟩
    · have := h.head
      rw [hcs] at this ⊢
      exact this
  next hexp =>
    simp only
    split
    next hplaces =>
      refine ⟨⟨?_, ?_⟩, .inr ?_, .inr ⟨?_, ?_⟩, by simp⟩
      · rw [ne_eq, List.take_eq_nil_iff, not_or]
        exact ⟨by omega, h.digits.1⟩
      · exact fun c hc => h.digits.2 c (List.mem_of_mem_take hc)
      · rw [List.head?_take, if_neg (by omega)]
        exact h.head
      · rw [ne_eq, List.drop_eq_nil_iff]
        omega
      · exact fun c hc => h.digits.2 c (List.mem_of_mem_drop hc)
    next hplaces =>
      refine ⟨⟨List.cons_ne_nil _ _, hzeros 1⟩, .inl rfl, .inr ⟨?_, ?_⟩, ?_⟩
      · simp [hcs]
      · exact List.forall_mem_append.2 ⟨hzeros _, h.digits.2⟩
      · simp

theorem valid_inPowers {d : Digits} (h : d.Proper) (negative : Bool) :
    (d.inPowers negative).Valid := by
  obtain ⟨c, cs, hcs⟩ := List.exists_cons_of_ne_nil h.digits.1
  refine ⟨⟨?_, ?_⟩, .inr ?_, ?_, ?_⟩
  · simp [inPowers, hcs]
  · exact fun c hc => h.digits.2 c (List.mem_of_mem_take hc)
  · have := h.head
    rw [hcs] at this
    rw [inPowers, hcs]
    exact this
  · by_cases hdrop : d.digits.drop 1 = []
    · exact .inl hdrop
    · exact .inr ⟨hdrop, fun c hc => h.digits.2 c (List.mem_of_mem_drop hc)⟩
  · intro negative' digits hpower
    simp only [inPowers, Option.some.injEq, Prod.mk.injEq] at hpower
    rw [← hpower.2]
    exact ⟨Nat.toDigits_ne_nil, fun c hc => Nat.isDigit_of_mem_toDigits (by decide) (by decide) hc⟩

theorem value_written (negative : Bool) (d : Digits) :
    (d.written negative).decimal.value = d.value := by
  unfold written
  split
  next hexp =>
    simp only [Decimal.value, Numeral.decimal, Numeral.exponent, value, List.append_nil,
      Decimal.natOfDigits_append, Decimal.natOfDigits_zeros, List.length_replicate]
    push_cast
    rw [← zpow_natCast, Int.toNat_of_nonneg hexp]
    simp
  next hexp =>
    simp only
    split
    next hplaces =>
      have hexponent : -((d.digits.drop (d.digits.length - (-d.exp).toNat)).length : Int) =
          d.exp := by
        rw [List.length_drop]
        omega
      simp only [Decimal.value, Numeral.decimal, Numeral.exponent, value, List.take_append_drop,
        zero_sub, hexponent]
    next hplaces =>
      have hexponent : -(((List.replicate ((-d.exp).toNat - d.digits.length) '0'
          ++ d.digits).length : Nat) : Int) = d.exp := by
        rw [List.length_append, List.length_replicate]
        omega
      have hdigits : Decimal.natOfDigits (['0'] ++
          (List.replicate ((-d.exp).toNat - d.digits.length) '0' ++ d.digits)) =
          Decimal.natOfDigits d.digits := by
        rw [Decimal.natOfDigits_append, Decimal.natOfDigits_append, Decimal.natOfDigits_zeros]
        simp [Decimal.natOfDigits]
      simp only [Decimal.value, Numeral.decimal, Numeral.exponent, value, zero_sub, hexponent,
        hdigits]

theorem exponent_inPowers (negative : Bool) (d : Digits) :
    (d.inPowers negative).exponent = d.leadingExp := by
  simp only [Numeral.exponent, inPowers, Decimal.natOfDigits_toDigits, decide_eq_true_eq]
  split <;> omega

theorem value_inPowers {d : Digits} (h : d.Proper) (negative : Bool) :
    (d.inPowers negative).decimal.value = d.value := by
  have hlength := List.length_pos_iff.2 h.digits.1
  have hexponent : d.leadingExp - ((d.digits.drop 1).length : Int) = d.exp := by
    rw [leadingExp, List.length_drop]
    omega
  simp only [Decimal.value, Numeral.decimal, exponent_inPowers, value]
  simp only [inPowers, List.take_append_drop, hexponent]

end Digits

-- -----------------------------------------------------------------------
-- Numbers in documents
-- -----------------------------------------------------------------------

namespace Numeral

/-- The literal with one more zero after the point. -/
def pointed (n : Numeral) : Numeral := { n with fraction := n.fraction ++ ['0'] }

theorem chars_pointed {n : Numeral} (hfraction : n.fraction = []) (hpower : n.power = none) :
    n.pointed.chars = n.chars ++ ['.', '0'] := by
  cases hnegative : n.negative <;>
    simp [chars, pointed, fractionChars, powerChars, Number.withSign, hfraction, hpower, hnegative]

theorem valid_pointed {n : Numeral} (h : n.Valid) : n.pointed.Valid := by
  refine ⟨h.whole, h.head, .inr ⟨by simp [pointed], ?_⟩, h.power⟩
  intro c hc
  rcases List.mem_append.1 hc with hc | hc
  · rcases h.fraction with hnone | hdigits
    · simp [hnone] at hc
    · exact hdigits.2 c hc
  · rw [List.mem_singleton.1 hc]
    rfl

theorem value_pointed (n : Numeral) : n.pointed.decimal.value = n.decimal.value := by
  have hdigits : Decimal.natOfDigits (n.whole ++ (n.fraction ++ ['0'])) =
      Decimal.natOfDigits (n.whole ++ n.fraction) * 10 := by
    rw [← List.append_assoc, Decimal.natOfDigits_append]
    rfl
  have hexp : n.exponent - ((n.fraction ++ ['0']).length : Int) =
      n.exponent - n.fraction.length - 1 := by
    rw [List.length_append]
    simp
    omega
  simp only [Decimal.value, decimal, pointed, hdigits]
  change _ * (10 : ℚ) ^ (n.exponent - ((n.fraction ++ ['0']).length : Int)) = _
  rw [hexp, zpow_sub_one₀ (by norm_num)]
  push_cast
  ring

end Numeral

namespace Number

/-- The literal of a finite number in a document. -/
def documentNumeral (s : Scaled) : Numeral :=
  if s.mant = 0 then
    { negative := s.negative, whole := ['0'], fraction := ['0'], power := none }
  else
    let d := Digits.shortest .even s
    if -5 ≤ d.leadingExp && d.leadingExp ≤ 15 then
      if 0 ≤ d.exp then (d.written s.negative).pointed else d.written s.negative
    else d.inPowers s.negative

theorem documentText?_eq (v : Float) :
    documentText? v = (scaled? v).map fun s => String.ofList (documentNumeral s).chars := by
  rw [documentText?]
  congr 1
  funext s
  congr 1
  unfold documentNumeral
  split
  · rfl
  · simp only
    split
    · split
      next hexp =>
        rw [Numeral.chars_pointed, Digits.chars_written]
        · cases s.negative <;> rfl
        · rw [Digits.written, if_pos hexp]
        · rw [Digits.written, if_pos hexp]
      next => rw [Digits.chars_written, List.append_nil]
    · rw [Digits.chars_inPowers]

theorem valid_documentNumeral {s : Scaled} (hs : s.Canonical) : (documentNumeral s).Valid := by
  unfold documentNumeral
  split
  next =>
    have hzero : Numeral.AreDigits ['0'] := ⟨List.cons_ne_nil _ _, List.forall_mem_singleton.2 rfl⟩
    exact ⟨hzero, .inl rfl, .inr hzero, by simp⟩
  next hmant =>
    have hproper := Digits.proper_shortest .even hs (Nat.pos_of_ne_zero hmant)
    simp only
    split
    · split
      · exact Numeral.valid_pointed (Digits.valid_written hproper _)
      · exact Digits.valid_written hproper _
    · exact Digits.valid_inPowers hproper _

theorem negative_documentNumeral (s : Scaled) : (documentNumeral s).negative = s.negative := by
  unfold documentNumeral
  split
  · rfl
  · simp only
    split
    · split
      · exact Digits.negative_written _ _
      · exact Digits.negative_written _ _
    · rfl

/-- The literal of a positive number has the value of its shortest digits. -/
theorem value_documentNumeral {s : Scaled} (hs : s.Canonical) (hmant : 0 < s.mant) :
    (documentNumeral s).decimal.value = (Digits.shortest .even s).value := by
  have hproper := Digits.proper_shortest .even hs hmant
  rw [documentNumeral, if_neg hmant.ne']
  simp only
  split
  · split
    · rw [Numeral.value_pointed, Digits.value_written]
    · rw [Digits.value_written]
  · rw [Digits.value_inPowers hproper]

/-- The double nearest to the literal of a number is the number. -/
theorem toFloat_documentNumeral {v : Float} {s : Scaled} (h : scaled? v = some s) :
    (documentNumeral s).decimal.toFloat = v := by
  have hs := canonical_of_scaled? h
  have hnegative : (documentNumeral s).decimal.negative = s.negative := negative_documentNumeral s
  have hmagnitude : (documentNumeral s).decimal.magnitude = s.magnitude := by
    rcases Nat.eq_zero_or_pos s.mant with hzero | hmant
    · rw [documentNumeral, if_pos hzero, hs.magnitude_of_zero hzero]
      rfl
    · apply Decimal.magnitude_of_covers hs hmant
      rw [value_documentNumeral hs hmant]
      exact Digits.covers_shortest .even s
  rw [Decimal.toFloat, hnegative, hmagnitude]
  exact ofMagnitude_of_scaled? h

end Number

end Wordstack
