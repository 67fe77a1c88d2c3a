-- SUMMARY: Decimal literals as a regular language, and that exactly the texts of this language are read as decimals.
import Mathlib.Computability.RegularExpressions
import Wordstack.Proofs.Number.Numeral

/-!
# The language of decimal literals

`Decimal.literal` is the expression `[+-]?(D+(.D*)?|.D+)([eE][+-]?D+)?` over the ten
digits. The reader of decimals takes a text apart from the front and never goes back, while
an expression may split it anywhere. The two agree since each part ends where a character
stands that it cannot hold: `Decimal.isSome_parse?_iff`.
-/

namespace Wordstack.Decimal

open RegularExpression Numeral

-- -----------------------------------------------------------------------
-- The expression
-- -----------------------------------------------------------------------

/-- One of some characters. -/
def oneOf (cs : List Char) : RegularExpression Char := (cs.map char).sum

def optional (r : RegularExpression Char) : RegularExpression Char := 1 + r

def digit : RegularExpression Char := oneOf ['0', '1', '2', '3', '4', '5', '6', '7', '8', '9']

/-- One digit or more. -/
def digitRun : RegularExpression Char := digit * digit.star

def sign : RegularExpression Char := oneOf ['+', '-']

/-- The digits of a literal, with at most one point among or around them. -/
def significand : RegularExpression Char :=
  digitRun * optional (char '.' * digit.star) + char '.' * digitRun

/-- The power of ten of a literal. -/
def power : RegularExpression Char := oneOf ['e', 'E'] * (optional sign * digitRun)

/-- The decimal literals. -/
def literal : RegularExpression Char := optional sign * (significand * optional power)

-- -----------------------------------------------------------------------
-- What the parts match
-- -----------------------------------------------------------------------

variable {cs ds word body : List Char}

theorem mem_oneOf : word ∈ (oneOf cs).matches' ↔ ∃ c ∈ cs, word = [c] := by
  induction cs with
  | nil => simp [oneOf]
  | cons c cs ih =>
    have hsum : oneOf (c :: cs) = char c + oneOf cs := rfl
    rw [hsum, matches'_add, Language.mem_add, ih, List.exists_mem_cons_iff]
    rfl

theorem mem_optional {r : RegularExpression Char} :
    word ∈ (optional r).matches' ↔ word = [] ∨ word ∈ r.matches' := by
  rw [optional, matches'_add, Language.mem_add, matches'_epsilon, Language.mem_one]

theorem mem_char {c : Char} : word ∈ (char c).matches' ↔ word = [c] := Iff.rfl

theorem mem_mul {r s : RegularExpression Char} :
    word ∈ (r * s).matches' ↔ ∃ u ∈ r.matches', ∃ v ∈ s.matches', u ++ v = word := by
  rw [matches'_mul, Language.mem_mul]

theorem isDigit_iff {c : Char} :
    c.isDigit = true ↔ c ∈ ['0', '1', '2', '3', '4', '5', '6', '7', '8', '9'] := by
  constructor
  · intro h
    have hten : ∀ n ≤ '9'.toNat, '0'.toNat ≤ n →
        Char.ofNat n ∈ ['0', '1', '2', '3', '4', '5', '6', '7', '8', '9'] := by decide
    obtain ⟨hlower, hupper⟩ := Char.isDigit_iff_toNat.mp h
    rw [← Char.ofNat_toNat c]
    exact hten c.toNat hupper hlower
  · intro h
    have hall : ['0', '1', '2', '3', '4', '5', '6', '7', '8', '9'].all Char.isDigit = true := by
      decide
    exact List.all_eq_true.mp hall c h

theorem mem_digit : word ∈ digit.matches' ↔ ∃ c, c.isDigit = true ∧ word = [c] := by
  simp only [digit, mem_oneOf, isDigit_iff]

theorem mem_star_digit : word ∈ digit.star.matches' ↔ ∀ c ∈ word, c.isDigit = true := by
  rw [matches'_star, Language.mem_kstar]
  constructor
  · rintro ⟨pieces, rfl, hpieces⟩ c hc
    obtain ⟨piece, hpiece, hc⟩ := List.mem_flatten.mp hc
    obtain ⟨d, hd, rfl⟩ := mem_digit.mp (hpieces piece hpiece)
    rw [List.mem_singleton.mp hc]
    exact hd
  · intro h
    refine ⟨word.map ([·]), by rw [← List.flatMap_def, List.flatMap_singleton'], ?_⟩
    intro piece hpiece
    obtain ⟨c, hc, rfl⟩ := List.mem_map.mp hpiece
    exact mem_digit.mpr ⟨c, h c hc, rfl⟩

theorem mem_digitRun : word ∈ digitRun.matches' ↔ AreDigits word := by
  rw [digitRun, mem_mul]
  constructor
  · rintro ⟨u, hu, v, hv, rfl⟩
    obtain ⟨c, hc, rfl⟩ := mem_digit.mp hu
    exact ⟨by simp, List.forall_mem_cons.mpr ⟨hc, mem_star_digit.mp hv⟩⟩
  · rintro ⟨hne, hdigits⟩
    obtain ⟨c, cs, rfl⟩ := List.exists_cons_of_ne_nil hne
    obtain ⟨hc, hcs⟩ := List.forall_mem_cons.mp hdigits
    exact ⟨[c], mem_digit.mpr ⟨c, hc, rfl⟩, cs, mem_star_digit.mpr hcs, rfl⟩

theorem mem_sign : word ∈ sign.matches' ↔ word = ['+'] ∨ word = ['-'] := by
  simp [sign, mem_oneOf]

-- -----------------------------------------------------------------------
-- The sign and the power of ten
-- -----------------------------------------------------------------------

/-- What is left after the sign follows a sign or nothing. -/
theorem exists_sign (cs : List Char) :
    ∃ u ∈ (optional sign).matches', u ++ (splitSign cs).2 = cs := by
  simp only [mem_optional, mem_sign]
  unfold splitSign
  split
  · exact ⟨['-'], by simp, rfl⟩
  · exact ⟨['+'], by simp, rfl⟩
  · exact ⟨[], by simp, rfl⟩

theorem splitSign_append (h : word ∈ (optional sign).matches')
    (hbody : ∀ c ∈ body.head?, c ≠ '+' ∧ c ≠ '-') : (splitSign (word ++ body)).2 = body := by
  rcases mem_optional.mp h with rfl | h
  · rw [List.nil_append]
    cases body with
    | nil => rfl
    | cons c cs =>
      obtain ⟨hplus, hminus⟩ := hbody c rfl
      simp [splitSign, hplus, hminus]
  · rcases mem_sign.mp h with rfl | rfl <;> rfl

/-- Digits start with neither sign. -/
theorem ne_sign_of_isDigit {c : Char} (h : c.isDigit = true) : c ≠ '+' ∧ c ≠ '-' := by
  constructor <;> rintro rfl <;> exact absurd h (by decide)

theorem splitSign_append_digits (h : word ∈ (optional sign).matches') (hds : AreDigits ds) :
    (splitSign (word ++ ds)).2 = ds :=
  splitSign_append h fun c hc => ne_sign_of_isDigit (hds.2 c (List.mem_of_mem_head? hc))

theorem isSome_exponent?_cons {c : Char} :
    (exponent? (c :: cs)).isSome = true ↔ c ∈ ['e', 'E'] ∧ AreDigits (splitSign cs).2 := by
  simp only [exponent?, AreDigits]
  split
  next he => simp_all
  next he => simp_all

/-- A power of ten is read wherever one is written, and its absence too. -/
theorem isSome_exponent?_iff : (exponent? cs).isSome = true ↔ cs ∈ (optional power).matches' := by
  cases cs with
  | nil => simp [exponent?, mem_optional]
  | cons c cs =>
    rw [isSome_exponent?_cons, mem_optional, or_iff_right (List.cons_ne_nil c cs), power, mem_mul]
    constructor
    · rintro ⟨hc, hdigits⟩
      obtain ⟨u, hu, hcs⟩ := exists_sign cs
      exact ⟨[c], mem_oneOf.mpr ⟨c, hc, rfl⟩, cs,
        mem_mul.mpr ⟨u, hu, _, mem_digitRun.mpr hdigits, hcs⟩, rfl⟩
    · rintro ⟨u, hu, v, hv, huv⟩
      obtain ⟨d, hd, rfl⟩ := mem_oneOf.mp hu
      obtain ⟨rfl, rfl⟩ := List.cons.inj huv
      obtain ⟨w, hw, ds, hds, rfl⟩ := mem_mul.mp hv
      rw [mem_digitRun] at hds
      have hsplit : (splitSign (w ++ ds)).2 = ds := splitSign_append_digits hw hds
      exact ⟨hd, hsplit.symm ▸ hds⟩

/-- A power of ten starts with a letter. -/
theorem head_of_power (h : word ∈ (optional power).matches') :
    ∀ c ∈ word.head?, c.isDigit = false ∧ c ≠ '.' := by
  intro c hc
  rcases mem_optional.mp h with rfl | h
  · cases hc
  · obtain ⟨u, hu, v, -, rfl⟩ := mem_mul.mp h
    obtain ⟨d, hd, rfl⟩ := mem_oneOf.mp hu
    cases hc
    simp only [List.mem_cons, List.not_mem_nil, or_false] at hd
    rcases hd with rfl | rfl <;> decide

-- -----------------------------------------------------------------------
-- The digits
-- -----------------------------------------------------------------------

/-- The digits are a run of them, or there is a point with digits on at least one side. -/
theorem mem_significand : word ∈ significand.matches' ↔ AreDigits word ∨
    ∃ whole fraction, (∀ c ∈ whole, c.isDigit = true) ∧ (∀ c ∈ fraction, c.isDigit = true) ∧
      (whole ≠ [] ∨ fraction ≠ []) ∧ word = whole ++ '.' :: fraction := by
  simp only [significand, matches'_add, Language.mem_add, mem_mul, mem_optional, mem_char,
    mem_digitRun, mem_star_digit]
  constructor
  · rintro (⟨ds, hds, v, rfl | ⟨_, rfl, fraction, hfraction, rfl⟩, rfl⟩ | ⟨_, rfl, ds, hds, rfl⟩)
    · exact .inl (by rwa [List.append_nil])
    · exact .inr ⟨ds, fraction, hds.2, hfraction, .inl hds.1, rfl⟩
    · exact .inr ⟨[], ds, by simp, hds.2, .inr hds.1, rfl⟩
  · rintro (hds | ⟨whole, fraction, hwhole, hfraction, hne, rfl⟩)
    · exact .inl ⟨word, hds, [], .inl rfl, List.append_nil word⟩
    · by_cases hempty : whole = []
      · subst hempty
        exact .inr ⟨['.'], rfl, fraction, ⟨hne.resolve_left (by simp), hfraction⟩, rfl⟩
      · exact .inl ⟨whole, ⟨hempty, hwhole⟩, '.' :: fraction,
          .inr ⟨['.'], rfl, fraction, hfraction, rfl⟩, rfl⟩

/-- A text without its sign as the reader takes it apart: digits before the point, digits
after it, and the rest. -/
structure Parts where
  whole : List Char
  fraction : List Char
  rest : List Char

/-- Takes a point and the digits after it off. -/
def splitFraction : List Char → List Char × List Char
  | '.' :: cs => (cs.takeWhile Char.isDigit, cs.dropWhile Char.isDigit)
  | cs => ([], cs)

def parts (body : List Char) : Parts where
  whole := body.takeWhile Char.isDigit
  fraction := (splitFraction (body.dropWhile Char.isDigit)).1
  rest := (splitFraction (body.dropWhile Char.isDigit)).2

/-- A text is read if it has digits before or after the point, and after these a power of
ten or nothing. -/
theorem isSome_parse?_parts : (parse? cs).isSome = true ↔
    ((parts (splitSign cs).2).whole ≠ [] ∨ (parts (splitSign cs).2).fraction ≠ []) ∧
      (exponent? (parts (splitSign cs).2).rest).isSome = true := by
  have hparse : parse? cs =
      if (parts (splitSign cs).2).whole.isEmpty && (parts (splitSign cs).2).fraction.isEmpty then
        none
      else (exponent? (parts (splitSign cs).2).rest).bind fun exp =>
        some { negative := (splitSign cs).1
               digits := natOfDigits ((parts (splitSign cs).2).whole
                 ++ (parts (splitSign cs).2).fraction)
               exp := exp - (parts (splitSign cs).2).fraction.length } := rfl
  rw [hparse]
  split
  next hempty => simp_all
  next hne =>
    rw [Bool.and_eq_true, List.isEmpty_iff, List.isEmpty_iff, not_and_or] at hne
    rw [Option.isSome_bind, and_iff_right hne]
    simp

theorem splitFraction_of_ne (h : ∀ c ∈ cs.head?, c ≠ '.') : splitFraction cs = ([], cs) := by
  cases cs with
  | nil => rfl
  | cons c cs =>
    have hc : c ≠ '.' := h c rfl
    simp [splitFraction, hc]

theorem splitFraction_cases (cs : List Char) :
    (∃ ds, cs = '.' :: ds ∧
      splitFraction cs = (ds.takeWhile Char.isDigit, ds.dropWhile Char.isDigit)) ∨
    splitFraction cs = ([], cs) := by
  by_cases h : cs.head? = some '.'
  · obtain ⟨ds, rfl⟩ := List.head?_eq_some_iff.mp h
    exact .inl ⟨ds, rfl, rfl⟩
  · exact .inr (splitFraction_of_ne fun c hc hpoint => h (hpoint ▸ hc))

/-- Digits without a point end where something else than a digit or a point stands. -/
theorem parts_digits (hds : ∀ c ∈ ds, c.isDigit = true)
    (hcs : ∀ c ∈ cs.head?, c.isDigit = false ∧ c ≠ '.') :
    parts (ds ++ cs) = { whole := ds, fraction := [], rest := cs } := by
  obtain ⟨htake, hdrop⟩ := takeWhile_isDigit hds fun c hc => (hcs c hc).1
  rw [parts, htake, hdrop, splitFraction_of_ne fun c hc => (hcs c hc).2]

/-- Digits around a point end where something else than a digit stands. -/
theorem parts_pointed {whole fraction : List Char} (hwhole : ∀ c ∈ whole, c.isDigit = true)
    (hfraction : ∀ c ∈ fraction, c.isDigit = true) (hcs : ∀ c ∈ cs.head?, c.isDigit = false) :
    parts (whole ++ '.' :: fraction ++ cs) = { whole, fraction, rest := cs } := by
  have hpoint : ∀ c ∈ ('.' :: (fraction ++ cs)).head?, c.isDigit = false := by
    rintro c ⟨⟩
    decide
  obtain ⟨htake, hdrop⟩ := takeWhile_isDigit hwhole hpoint
  obtain ⟨htake', hdrop'⟩ := takeWhile_isDigit hfraction hcs
  rw [List.append_assoc, List.cons_append, parts, htake, hdrop, splitFraction, htake', hdrop']

/-- What was taken off the front are the digits of a literal, if there are any. -/
theorem exists_significand (h : (parts body).whole ≠ [] ∨ (parts body).fraction ≠ []) :
    ∃ word ∈ significand.matches', word ++ (parts body).rest = body := by
  have hbody : body.takeWhile Char.isDigit ++ body.dropWhile Char.isDigit = body :=
    List.takeWhile_append_dropWhile
  have hdigits (cs : List Char) : ∀ c ∈ cs.takeWhile Char.isDigit, c.isDigit = true :=
    List.all_eq_true.mp List.all_takeWhile
  simp only [mem_significand]
  simp only [parts] at h ⊢
  rcases splitFraction_cases (body.dropWhile Char.isDigit) with ⟨ds, hdrop, hsplit⟩ | hsplit
  · rw [hsplit] at h ⊢
    refine ⟨_, .inr ⟨_, _, hdigits body, hdigits ds, h, rfl⟩, ?_⟩
    rw [List.append_assoc, List.cons_append, List.takeWhile_append_dropWhile, ← hdrop, hbody]
  · rw [hsplit] at h ⊢
    exact ⟨_, .inl ⟨h.resolve_right (by simp), hdigits body⟩, hbody⟩

/-- The digits of a literal start with a digit or the point. -/
theorem head_of_significand (h : word ∈ significand.matches') :
    ∀ c ∈ (word ++ cs).head?, c.isDigit = true ∨ c = '.' := by
  intro c hc
  rcases mem_significand.mp h with ⟨hne, hdigits⟩ | ⟨whole, fraction, hwhole, -, -, rfl⟩
  · rw [List.head?_append_of_ne_nil _ hne] at hc
    exact .inl (hdigits c (List.mem_of_mem_head? hc))
  · cases whole with
    | nil =>
      cases hc
      exact .inr rfl
    | cons d whole =>
      cases hc
      exact .inl (hwhole _ List.mem_cons_self)

/-- The texts that are read as decimals are the literals. -/
theorem isSome_parse?_iff : (parse? cs).isSome = true ↔ cs ∈ literal.matches' := by
  rw [isSome_parse?_parts, isSome_exponent?_iff, literal, mem_mul]
  constructor
  · rintro ⟨hdigits, hpower⟩
    obtain ⟨u, hu, hcs⟩ := exists_sign cs
    obtain ⟨word, hword, hbody⟩ := exists_significand hdigits
    exact ⟨u, hu, _, mem_mul.mpr ⟨word, hword, _, hpower, hbody⟩, hcs⟩
  · rintro ⟨u, hu, v, hv, rfl⟩
    obtain ⟨word, hword, rest, hpower, rfl⟩ := mem_mul.mp hv
    have hsign : (splitSign (u ++ (word ++ rest))).2 = word ++ rest := by
      refine splitSign_append hu fun c hc => ?_
      rcases head_of_significand hword c hc with hdigit | rfl
      · exact ne_sign_of_isDigit hdigit
      · decide
    have hrest := head_of_power hpower
    rw [hsign]
    rcases mem_significand.mp hword with hds | ⟨whole, fraction, hwhole, hfraction, hne, rfl⟩
    · rw [parts_digits hds.2 hrest]
      exact ⟨.inl hds.1, hpower⟩
    · rw [parts_pointed hwhole hfraction fun c hc => (hrest c hc).1]
      exact ⟨hne, hpower⟩

-- -----------------------------------------------------------------------
-- The characters
-- -----------------------------------------------------------------------

/-- The characters that an expression mentions. -/
def letters : RegularExpression Char → List Char
  | .zero => []
  | .epsilon => []
  | .char c => [c]
  | .plus r s => letters r ++ letters s
  | .comp r s => letters r ++ letters s
  | .star r => letters r

theorem mem_letters_of_matches {r : RegularExpression Char} (h : word ∈ r.matches') :
    ∀ c ∈ word, c ∈ letters r := by
  induction r generalizing word with
  | zero => cases h
  | epsilon =>
    cases h
    simp
  | char d =>
    cases h
    exact fun c hc => hc
  | plus r s ihr ihs =>
    intro c hc
    rcases h with h | h
    · exact List.mem_append_left _ (ihr h c hc)
    · exact List.mem_append_right _ (ihs h c hc)
  | comp r s ihr ihs =>
    obtain ⟨u, hu, v, hv, rfl⟩ := Language.mem_mul.mp h
    intro c hc
    rcases List.mem_append.mp hc with hc | hc
    · exact List.mem_append_left _ (ihr hu c hc)
    · exact List.mem_append_right _ (ihs hv c hc)
  | star r ih =>
    obtain ⟨pieces, rfl, hpieces⟩ := Language.mem_kstar.mp h
    intro c hc
    obtain ⟨piece, hpiece, hc⟩ := List.mem_flatten.mp hc
    exact ih (hpieces piece hpiece) c hc

/-- Whether a character can stand in a literal. -/
def isNumeric (c : Char) : Bool := c.isDigit || ['.', '-', '+', 'e', 'E'].contains c

theorem isNumeric_of_literal (h : cs ∈ literal.matches') : ∀ c ∈ cs, isNumeric c = true := by
  intro c hc
  have hall : (letters literal).all isNumeric = true := by decide
  exact List.all_eq_true.mp hall c (mem_letters_of_matches h c hc)

theorem exists_digit_of_literal (h : cs ∈ literal.matches') : ∃ c ∈ cs, c.isDigit = true := by
  obtain ⟨u, -, v, hv, rfl⟩ := mem_mul.mp h
  obtain ⟨word, hword, rest, -, rfl⟩ := mem_mul.mp hv
  have hdigit : ∃ c ∈ word, c.isDigit = true := by
    rcases mem_significand.mp hword with
      ⟨hne, hdigits⟩ | ⟨whole, fraction, hwhole, hfraction, hne, rfl⟩
    · obtain ⟨c, hc⟩ := List.exists_mem_of_ne_nil word hne
      exact ⟨c, hc, hdigits c hc⟩
    · rcases hne with hne | hne
      · obtain ⟨c, hc⟩ := List.exists_mem_of_ne_nil whole hne
        exact ⟨c, by simp [hc], hwhole c hc⟩
      · obtain ⟨c, hc⟩ := List.exists_mem_of_ne_nil fraction hne
        exact ⟨c, by simp [hc], hfraction c hc⟩
  obtain ⟨c, hc, hdigit⟩ := hdigit
  exact ⟨c, by simp [hc], hdigit⟩

/-- A literal starts with a sign, a digit or the point. -/
theorem head_of_literal {c : Char} (h : c :: cs ∈ literal.matches') :
    c ∈ ['+', '-', '.'] ∨ c.isDigit = true := by
  obtain ⟨u, hu, v, hv, huv⟩ := mem_mul.mp h
  obtain ⟨word, hword, rest, -, rfl⟩ := mem_mul.mp hv
  rcases mem_optional.mp hu with rfl | hu
  · rw [List.nil_append] at huv
    rcases head_of_significand hword c (by rw [huv]; rfl) with hdigit | rfl
    · exact .inr hdigit
    · exact .inl (by simp)
  · rcases mem_sign.mp hu with rfl | rfl
    · cases huv
      exact .inl (by simp)
    · cases huv
      exact .inl (by simp)

end Wordstack.Decimal
