-- SUMMARY: Number literals taken apart, how they are read off the front of a document, and the value they write.
import Mathlib.Algebra.Group.Nat.Defs
import Wordstack.Json.Reader
import Wordstack.Number.Decimal
import Wordstack.Number.Text

/-!
# Number literals taken apart

A number literal of a document has a sign, digits before the point, digits after it and
a power of ten, of which all but the second may be absent. The reader of documents takes
exactly these characters off a text, if what follows cannot belong to a number
(`Numeral.readNumber_append`). The reader of decimals finds the value that the parts write
(`Numeral.parse?_chars`).
-/

namespace Wordstack

-- -----------------------------------------------------------------------
-- Runs of digits
-- -----------------------------------------------------------------------

namespace Decimal

theorem natOfDigits_append (cs ds : List Char) :
    natOfDigits (cs ++ ds) = natOfDigits cs * 10 ^ ds.length + natOfDigits ds := by
  change Nat.ofDigitChars 10 (cs ++ ds) 0 = Nat.ofDigitChars 10 cs 0 * _ + Nat.ofDigitChars 10 ds 0
  rw [Nat.ofDigitChars_append, Nat.ofDigitChars_eq_ofDigitChars_zero, Nat.mul_comm]

theorem natOfDigits_zeros (n : Nat) : natOfDigits (List.replicate n '0') = 0 :=
  Nat.ofDigitChars_replicate_zero

theorem natOfDigits_toDigits (n : Nat) : natOfDigits (Nat.toDigits 10 n) = n :=
  Nat.ofDigitChars_ten_toDigits

/-- A positive number is written without a needless zero. -/
theorem head?_toDigits {n : Nat} (hn : 0 < n) : (Nat.toDigits 10 n).head? ≠ some '0' := by
  induction n using Nat.base_induction 10 (by decide) with
  | single n hlt =>
    rw [Nat.toDigits_of_lt_base hlt]
    revert hn
    revert n
    decide
  | digit n k hk hpos ih =>
    obtain ⟨c, cs, hcs⟩ := List.exists_cons_of_ne_nil (@Nat.toDigits_ne_nil n 10)
    rw [← Nat.toDigits_append_toDigits (by decide) hpos hk, hcs]
    rw [hcs] at ih
    exact ih hpos

end Decimal

-- -----------------------------------------------------------------------
-- Literals
-- -----------------------------------------------------------------------

/-- A number literal taken apart. -/
structure Numeral where
  negative : Bool
  whole : List Char
  /-- The digits after the point. Without any there is no point. -/
  fraction : List Char
  /-- Whether the power of ten is negative, and its digits. -/
  power : Option (Bool × List Char)

namespace Numeral

def fractionChars (n : Numeral) : List Char :=
  match n.fraction with
  | [] => []
  | digits => '.' :: digits

def powerChars (n : Numeral) : List Char :=
  match n.power with
  | none => []
  | some (negative, digits) => 'e' :: (if negative then '-' else '+') :: digits

/-- The characters of the literal. -/
def chars (n : Numeral) : List Char :=
  Number.withSign n.negative (n.whole ++ (n.fractionChars ++ n.powerChars))

/-- One digit or more. -/
def AreDigits (cs : List Char) : Prop := cs ≠ [] ∧ ∀ c ∈ cs, c.isDigit = true

/-- The parts are those of a number: digits, and before the point no needless zero. -/
structure Valid (n : Numeral) : Prop where
  whole : AreDigits n.whole
  head : n.whole = ['0'] ∨ n.whole.head? ≠ some '0'
  fraction : n.fraction = [] ∨ AreDigits n.fraction
  power : ∀ negative digits, n.power = some (negative, digits) → AreDigits digits

theorem fractionChars_of_ne_nil {n : Numeral} (h : n.fraction ≠ []) :
    n.fractionChars = '.' :: n.fraction := by
  unfold fractionChars
  split
  next hnone => exact absurd hnone h
  next => rfl

/-- What follows cannot belong to a number. -/
def Stops (rest : List Char) : Prop :=
  ∀ c ∈ rest.head?, c.isDigit = false ∧ c ≠ '.' ∧ c ≠ 'e' ∧ c ≠ 'E'

/-- A literal starts with its sign or a digit. -/
theorem Valid.starts {n : Numeral} (h : n.Valid) :
    ∃ c cs, n.chars = c :: cs ∧ (c = '-' ∨ c.isDigit = true) := by
  cases hnegative : n.negative with
  | true => exact ⟨'-', _, by rw [chars, hnegative]; rfl, .inl rfl⟩
  | false =>
    obtain ⟨c, cs, hcs⟩ := List.exists_cons_of_ne_nil h.whole.1
    refine ⟨c, cs ++ (n.fractionChars ++ n.powerChars), ?_, .inr ?_⟩
    · rw [chars, hnegative, hcs]
      rfl
    · exact h.whole.2 c (by rw [hcs]; exact List.mem_cons_self)

-- -----------------------------------------------------------------------
-- Reading in a document
-- -----------------------------------------------------------------------

theorem takeWhile_isDigit {digits rest : List Char} (h : ∀ c ∈ digits, c.isDigit = true)
    (hrest : ∀ c ∈ rest.head?, c.isDigit = false) :
    (digits ++ rest).takeWhile Char.isDigit = digits ∧
      (digits ++ rest).dropWhile Char.isDigit = rest := by
  have hnone : rest.takeWhile Char.isDigit = [] ∧ rest.dropWhile Char.isDigit = rest := by
    cases rest with
    | nil => exact ⟨rfl, rfl⟩
    | cons c cs =>
      have hc : c.isDigit = false := hrest c rfl
      exact ⟨by rw [List.takeWhile_cons, hc]; rfl, by rw [List.dropWhile_cons, hc]; rfl⟩
  constructor
  · rw [List.takeWhile_append_of_pos h, hnone.1, List.append_nil]
  · rw [List.dropWhile_append_of_pos h, hnone.2]

theorem readDigits_append {digits rest : List Char} (h : AreDigits digits)
    (hrest : ∀ c ∈ rest.head?, c.isDigit = false) :
    Json.readDigits (digits ++ rest) = some (digits, rest) := by
  obtain ⟨htake, hdrop⟩ := takeWhile_isDigit h.2 hrest
  simp [Json.readDigits, htake, hdrop, h.1]

theorem readWhole_append {n : Numeral} (h : n.Valid) {rest : List Char}
    (hrest : ∀ c ∈ rest.head?, c.isDigit = false) :
    Json.readWhole (n.whole ++ rest) = some (n.whole, rest) := by
  rcases h.head with hzero | hhead
  · rw [hzero]
    rfl
  · rw [← readDigits_append h.whole hrest]
    cases hwhole : n.whole with
    | nil => exact absurd hwhole h.whole.1
    | cons c cs =>
      have hc : c ≠ '0' := by
        rintro rfl
        rw [hwhole] at hhead
        exact hhead rfl
      simp [Json.readWhole, hc]

theorem readFraction_append {n : Numeral} (h : n.Valid) {rest : List Char}
    (hrest : ∀ c ∈ rest.head?, c.isDigit = false ∧ c ≠ '.') :
    Json.readFraction (n.fractionChars ++ rest) = some (n.fractionChars, rest) := by
  rcases h.fraction with hnone | hdigits
  · rw [fractionChars, hnone]
    cases rest with
    | nil => rfl
    | cons c cs =>
      have hc : c ≠ '.' := (hrest c rfl).2
      simp [Json.readFraction, hc]
  · simp [fractionChars_of_ne_nil hdigits.1, Json.readFraction,
      readDigits_append hdigits fun c hc => (hrest c hc).1]

theorem readExponent_append {n : Numeral} (h : n.Valid) {rest : List Char}
    (hrest : Stops rest) :
    Json.readExponent (n.powerChars ++ rest) = some (n.powerChars, rest) := by
  cases hpower : n.power with
  | none =>
    rw [powerChars, hpower]
    cases rest with
    | nil => rfl
    | cons c cs =>
      obtain ⟨-, -, he, hE⟩ := hrest c rfl
      simp [Json.readExponent, he, hE]
  | some power =>
    obtain ⟨negative, digits⟩ := power
    have hdigits := readDigits_append (h.power negative digits hpower) fun c hc => (hrest c hc).1
    cases negative <;> simp [powerChars, hpower, Json.readExponent, hdigits]

theorem stops_power (n : Numeral) {rest : List Char} (hrest : Stops rest) :
    ∀ c ∈ (n.powerChars ++ rest).head?, c.isDigit = false ∧ c ≠ '.' := by
  intro c hc
  cases hpower : n.power with
  | none =>
    rw [powerChars, hpower] at hc
    exact ⟨(hrest c hc).1, (hrest c hc).2.1⟩
  | some power =>
    rw [powerChars, hpower] at hc
    cases hc
    decide

theorem stops_fraction (n : Numeral) {rest : List Char} (hrest : Stops rest) :
    ∀ c ∈ (n.fractionChars ++ (n.powerChars ++ rest)).head?, c.isDigit = false := by
  intro c hc
  cases hfraction : n.fraction with
  | nil =>
    rw [fractionChars, hfraction] at hc
    exact (stops_power n hrest c hc).1
  | cons d ds =>
    rw [fractionChars, hfraction] at hc
    cases hc
    decide

/-- The literal is read off the front of a text. -/
theorem readNumber_append {n : Numeral} (h : n.Valid) {rest : List Char} (hrest : Stops rest) :
    Json.readNumber (n.chars ++ rest) = some (String.ofList n.chars, rest) := by
  have hpower := readExponent_append h hrest
  have hfraction := readFraction_append h (stops_power n hrest)
  have hwhole := readWhole_append h (stops_fraction n hrest)
  cases hnegative : n.negative with
  | true => simp [chars, hnegative, Number.withSign, Json.readNumber, hwhole, hfraction, hpower]
  | false =>
    obtain ⟨c, cs, hcs⟩ := List.exists_cons_of_ne_nil h.whole.1
    have hminus : c ≠ '-' := by
      rintro rfl
      exact absurd (h.whole.2 '-' (by rw [hcs]; exact List.mem_cons_self)) (by decide)
    rw [hcs] at hwhole
    simp only [List.cons_append] at hwhole
    simp [chars, hnegative, Number.withSign, hcs, Json.readNumber, hminus, hwhole, hfraction,
      hpower, String.append_assoc]

-- -----------------------------------------------------------------------
-- The value
-- -----------------------------------------------------------------------

/-- The value of the power of ten. -/
def exponent (n : Numeral) : Int :=
  match n.power with
  | none => 0
  | some (negative, digits) =>
    if negative then -(Decimal.natOfDigits digits : Int) else Decimal.natOfDigits digits

/-- The value that the literal writes. -/
def decimal (n : Numeral) : Decimal where
  negative := n.negative
  digits := Decimal.natOfDigits (n.whole ++ n.fraction)
  exp := n.exponent - n.fraction.length

theorem splitSign_chars {n : Numeral} (h : AreDigits n.whole) :
    Decimal.splitSign n.chars = (n.negative, n.whole ++ (n.fractionChars ++ n.powerChars)) := by
  cases hnegative : n.negative with
  | true => rw [chars, hnegative]; rfl
  | false =>
    obtain ⟨c, cs, hcs⟩ := List.exists_cons_of_ne_nil h.1
    have hdigit : c.isDigit = true := h.2 c (by rw [hcs]; exact List.mem_cons_self)
    have hminus : c ≠ '-' := by rintro rfl; exact absurd hdigit (by decide)
    have hplus : c ≠ '+' := by rintro rfl; exact absurd hdigit (by decide)
    simp [chars, hnegative, Number.withSign, hcs, Decimal.splitSign, hminus, hplus]

theorem exponent?_powerChars {n : Numeral} 
    (h : ∀ negative digits, n.power = some (negative, digits) → AreDigits digits) :
    Decimal.exponent? n.powerChars = some n.exponent := by
  cases hpower : n.power with
  | none => rw [powerChars, exponent, hpower]; rfl
  | some power =>
    obtain ⟨negative, digits⟩ := power
    obtain ⟨hne, hdigits⟩ := h negative digits hpower
    cases negative <;>
      simpa [powerChars, exponent, hpower, Decimal.exponent?, Decimal.splitSign, hne] using hdigits

/-- The digits before the point end where the fraction or the power of ten starts. -/
theorem Valid.takeWhile_whole {n : Numeral} (h : n.Valid) :
    (n.whole ++ (n.fractionChars ++ n.powerChars)).takeWhile Char.isDigit = n.whole ∧
      (n.whole ++ (n.fractionChars ++ n.powerChars)).dropWhile Char.isDigit =
        n.fractionChars ++ n.powerChars := by
  have hstops := n.stops_fraction (by simp [Stops] : Stops [])
  rw [List.append_nil] at hstops
  exact takeWhile_isDigit h.whole.2 hstops

/-- The digits after the point end where the power of ten starts. -/
theorem takeWhile_fraction {n : Numeral} (h : AreDigits n.fraction) :
    (n.fraction ++ n.powerChars).takeWhile Char.isDigit = n.fraction ∧
      (n.fraction ++ n.powerChars).dropWhile Char.isDigit = n.powerChars := by
  have hstops := n.stops_power (by simp [Stops] : Stops [])
  rw [List.append_nil] at hstops
  exact takeWhile_isDigit h.2 fun c hc => (hstops c hc).1

theorem powerChars_cases (n : Numeral) : n.powerChars = [] ∨ ∃ cs, n.powerChars = 'e' :: cs := by
  unfold powerChars
  split
  · exact .inl rfl
  · exact .inr ⟨_, rfl⟩

/-- The literal is read as the value it writes. -/
theorem parse?_chars {n : Numeral} (h : n.Valid) : Decimal.parse? n.chars = some n.decimal := by
  have hexp := exponent?_powerChars h.power
  simp only [Decimal.parse?, splitSign_chars h.whole, h.takeWhile_whole]
  rcases h.fraction with hnone | hdigits
  · rw [show n.fractionChars = [] by rw [fractionChars, hnone], List.nil_append]
    rcases n.powerChars_cases with hnil | ⟨cs, hcons⟩
    · rw [hnil] at hexp ⊢
      simp [hexp, decimal, hnone, h.whole.1]
    · rw [hcons] at hexp ⊢
      simp [hexp, decimal, hnone, h.whole.1]
  · rw [fractionChars_of_ne_nil hdigits.1]
    simp [takeWhile_fraction hdigits, hexp, decimal, h.whole.1]

end Numeral

end Wordstack
