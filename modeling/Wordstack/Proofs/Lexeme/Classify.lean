-- SUMMARY: What a bare word stands for: a reserved word for itself, a decimal literal for a number, any other word for a name.
import Wordstack.Proofs.Number.Literal
import Wordstack.Proofs.Number.Scaled
import Wordstack.Proofs.Source
import Wordstack.Settings.Value

/-!
# Classes of words

Words fall into classes that do not overlap: reserved words, decimal literals, and
identifiers, which are all the others. `Token.Stands` says which token a word of each class
stands for, and `Token.stands_ofWord` that this is the token it is given.
-/

namespace Wordstack

-- -----------------------------------------------------------------------
-- Reserved words
-- -----------------------------------------------------------------------

/-- The spellings of operators, keywords, types and truth values. -/
inductive IsReservedWord : String → Prop where
  | op (o : Operator) : IsReservedWord o.spelling
  | keyword (k : Keyword) : IsReservedWord k.spelling
  | type (t : TypeName) : IsReservedWord t.spelling
  | true_ : IsReservedWord "true"
  | false_ : IsReservedWord "false"

theorem isReserved_iff {word : String} : isReserved word = true ↔ IsReservedWord word := by
  simp only [isReserved, Bool.or_eq_true, Option.isSome_iff_exists, beq_iff_eq,
    Operator.ofWord?_eq_some_iff, Keyword.ofWord?_eq_some_iff, TypeName.ofWord?_eq_some_iff]
  constructor
  · rintro ((((⟨o, rfl⟩ | ⟨k, rfl⟩) | ⟨t, rfl⟩) | rfl) | rfl)
    · exact .op o
    · exact .keyword k
    · exact .type t
    · exact .true_
    · exact .false_
  · rintro (o | k | t | _ | _) <;> simp

namespace Token

/-- No reserved word is a number. -/
theorem number?_of_reserved {word : String} (h : IsReservedWord word) : number? word = none := by
  cases h with
  | op o => cases o <;> rfl
  | keyword k => cases k <;> rfl
  | type t => cases t <;> rfl
  | true_ => rfl
  | false_ => rfl

-- -----------------------------------------------------------------------
-- Tokens of words
-- -----------------------------------------------------------------------

/-- The token that a bare word stands for. -/
inductive Stands (word : String) : Token → Prop where
  | op (o : Operator) (h : word = o.spelling) : Stands word (.op o)
  | keyword (k : Keyword) (h : word = k.spelling) : Stands word (.keyword k)
  | type (t : TypeName) (h : word = t.spelling) : Stands word (.type t)
  | bool (b : Bool) (h : word = if b then "true" else "false") : Stands word (.bool b)
  | num (v : Float) (h : number? word = some v) : Stands word (.num .num v)
  | ident (hreserved : ¬ IsReservedWord word) (h : number? word = none) :
      Stands word (.ident word)

theorem stands_ofWord (word : String) : Stands word (ofWord word) := by
  unfold ofWord
  cases hop : Operator.ofWord? word with
  | some o => exact .op o (Operator.ofWord?_eq_some_iff.mp hop)
  | none =>
    cases hkeyword : Keyword.ofWord? word with
    | some k => exact .keyword k (Keyword.ofWord?_eq_some_iff.mp hkeyword)
    | none =>
      cases htype : TypeName.ofWord? word with
      | some t => exact .type t (TypeName.ofWord?_eq_some_iff.mp htype)
      | none =>
        simp only
        split
        next htrue => exact .bool true htrue
        next htrue =>
          split
          next hfalse => exact .bool false hfalse
          next hfalse =>
            cases hnumber : number? word with
            | some v => exact .num v hnumber
            | none =>
              refine .ident ?_ hnumber
              rw [← isReserved_iff]
              simp [isReserved, hop, hkeyword, htype, htrue, hfalse]

/-- A word that is not reserved stands for a number or for itself. -/
theorem ofWord_of_not_reserved {word : String} (h : ¬ IsReservedWord word) :
    ofWord word = match number? word with
      | some v => .num .num v
      | none => .ident word := by
  have hstands := stands_ofWord word
  generalize ofWord word = token at hstands ⊢
  cases hstands with
  | op o ho => exact absurd (ho ▸ .op o) h
  | keyword k hk => exact absurd (hk ▸ .keyword k) h
  | type t ht => exact absurd (ht ▸ .type t) h
  | bool b hb =>
    cases b with
    | true => exact absurd (hb ▸ .true_) h
    | false => exact absurd (hb ▸ .false_) h
  | num v hv => rw [hv]
  | ident _ hnone => rw [hnone]

theorem ofWord_of_number? {word : String} {v : Float} (h : number? word = some v) :
    ofWord word = .num .num v := by
  have hreserved : ¬ IsReservedWord word := by
    intro hreserved
    rw [number?_of_reserved hreserved] at h
    cases h
  rw [ofWord_of_not_reserved hreserved, h]

theorem number?_of_ofWord {word : String} {kind : NumKind} {v : Float}
    (h : ofWord word = .num kind v) : kind = .num ∧ number? word = some v := by
  have hstands := stands_ofWord word
  rw [h] at hstands
  cases hstands with
  | num _ hv => exact ⟨rfl, hv⟩

/-- A token other than a number is written as the word that stands for it. -/
theorem Stands.text_eq {word : String} {token : Token} (h : Stands word token)
    (hnum : ∀ kind v, token ≠ .num kind v) : token.text = word := by
  cases h with
  | op o ho => exact ho.symm
  | keyword k hk => exact hk.symm
  | type t ht => exact ht.symm
  | bool b hb => exact hb.symm
  | num v hv => exact absurd rfl (hnum .num v)
  | ident _ _ => rfl

-- -----------------------------------------------------------------------
-- Numbers
-- -----------------------------------------------------------------------

theorem isSome_number?_iff {word : String} :
    (number? word).isSome = true ↔ word.toList ∈ Decimal.literal.matches' := by
  rw [number?, Option.isSome_map, Decimal.isSome_parse?_iff]

end Token

theorem Decimal.magnitude_le (d : Decimal) : d.magnitude ≤ Number.infinity := by
  unfold magnitude
  split
  · exact Nat.zero_le _
  · split
    · exact Nat.le_refl _
    · split
      · exact Nat.zero_le _
      · unfold Number.nearest
        split
        · exact Nat.zero_le _
        · exact Nat.min_le_right _ _

/-- What is read is never not-a-number. -/
theorem Decimal.isNaN_toFloat (d : Decimal) : d.toFloat.isNaN = false :=
  Number.isNaN_ofMagnitude d.magnitude_le d.negative

/-- A name that starts with a letter other than `e` is not made of the characters of
literals. -/
theorem Decimal.not_isNumeric_of_toLower {c : Char} (h : c.toLower = 'i' ∨ c.toLower = 'n') :
    isNumeric c = false := by
  rw [← Bool.not_eq_true]
  intro hnumeric
  have hall : ['0', '1', '2', '3', '4', '5', '6', '7', '8', '9', '.', '-', '+', 'e', 'E'].all
      (fun c => c.toLower != 'i' && c.toLower != 'n') = true := by decide
  have hmem : c ∈ ['0', '1', '2', '3', '4', '5', '6', '7', '8', '9', '.', '-', '+', 'e', 'E'] := by
    rw [isNumeric, Bool.or_eq_true, isDigit_iff, List.contains_iff_mem] at hnumeric
    exact List.mem_append.mpr hnumeric
  have hc := List.all_eq_true.mp hall c hmem
  rw [Bool.and_eq_true, bne_iff_ne, bne_iff_ne] at hc
  exact h.elim hc.1 hc.2

/-- The names of infinities and of not-a-number hold letters that no literal has. -/
theorem RawValue.float?_of_isNumeric {s : String}
    (hnumeric : ∀ c ∈ s.toList, Decimal.isNumeric c = true) :
    float? s = (Decimal.parse? s.toList).map Decimal.toFloat := by
  -- All three names start with a letter that the characters before cannot be.
  have hname (name : String)
      (hfirst : name.toList.head? = some 'i' ∨ name.toList.head? = some 'n') :
      String.ofList ((Decimal.splitSign s.toList).2.map Char.toLower) ≠ name := by
    rintro rfl
    obtain ⟨u, -, hsplit⟩ := Decimal.exists_sign s.toList
    rw [String.toList_ofList, List.head?_map] at hfirst
    cases hcs : (Decimal.splitSign s.toList).2 with
    | nil => simp [hcs] at hfirst
    | cons c cs =>
      have hmem : c ∈ s.toList := by
        rw [← hsplit, hcs]
        exact List.mem_append_right u List.mem_cons_self
      have hnot : Decimal.isNumeric c = false :=
        Decimal.not_isNumeric_of_toLower (by simpa [hcs] using hfirst)
      rw [hnumeric c hmem] at hnot
      cases hnot
  unfold float?
  cases Decimal.parse? s.toList with
  | some d => rfl
  | none =>
    simp [hname "inf" (.inl rfl), hname "infinity" (.inl rfl), hname "nan" (.inr rfl)]

namespace Token

/-- A word is a number if its characters are those of literals, one of them is a digit, and
it reads as a number where the names of infinities and of not-a-number are numbers too. -/
theorem number?_eq_filtered (word : String) : number? word =
    if word.toList.all Decimal.isNumeric && word.toList.any Char.isDigit then
      RawValue.float? word
    else none := by
  split
  next h =>
    rw [Bool.and_eq_true, List.all_eq_true] at h
    rw [RawValue.float?_of_isNumeric h.1, number?]
  next h =>
    rw [← Option.not_isSome_iff_eq_none, isSome_number?_iff]
    intro hliteral
    refine h ?_
    rw [Bool.and_eq_true, List.all_eq_true, List.any_eq_true]
    exact ⟨Decimal.isNumeric_of_literal hliteral, Decimal.exists_digit_of_literal hliteral⟩

/-- A word stands for a number exactly if it is a decimal literal. The number has the kind of
literals and is never not-a-number. Any other word that is not reserved is an identifier, and
whatever is not a number is written as the word it came from. -/
theorem ofWord_reads_literals (word : String) :
    ((∃ kind v, ofWord word = .num kind v) ↔ word.toList ∈ Decimal.literal.matches') ∧
    (∀ kind v, ofWord word = .num kind v → kind = .num ∧ v.isNaN = false ∧
      (Decimal.parse? word.toList).map Decimal.toFloat = some v) ∧
    (word.toList ∉ Decimal.literal.matches' → ¬ IsReservedWord word →
      ofWord word = .ident word) ∧
    ((∀ kind v, ofWord word ≠ .num kind v) → (ofWord word).text = word) ∧
    number? word =
      if word.toList.all Decimal.isNumeric && word.toList.any Char.isDigit then
        RawValue.float? word
      else none := by
  refine ⟨?_, ?_, ?_, (stands_ofWord word).text_eq, number?_eq_filtered word⟩
  · rw [← isSome_number?_iff, Option.isSome_iff_exists]
    constructor
    · rintro ⟨kind, v, h⟩
      exact ⟨v, (number?_of_ofWord h).2⟩
    · rintro ⟨v, h⟩
      exact ⟨.num, v, ofWord_of_number? h⟩
  · intro kind v h
    obtain ⟨hkind, hv⟩ := number?_of_ofWord h
    obtain ⟨d, -, rfl⟩ := Option.map_eq_some_iff.mp hv
    exact ⟨hkind, d.isNaN_toFloat, hv⟩
  · intro hliteral hreserved
    rw [← isSome_number?_iff, Option.not_isSome_iff_eq_none] at hliteral
    rw [ofWord_of_not_reserved hreserved, hliteral]

/-- Nothing need stand after the point, but something has to after the letter of a power. -/
theorem ofWord_reads_literals_at_edges :
    (∃ kind v, ofWord "+1.E-3" = .num kind v) ∧ ofWord "1.e" = .ident "1.e" ∧
      (ofWord "--1").text = "--1" := by
  have hmatch (word : String) (h : Decimal.literal.rmatch word.toList = true) :
      word.toList ∈ Decimal.literal.matches' :=
    (RegularExpression.rmatch_iff_matches' _ _).mp h
  have hmiss (word : String) (h : Decimal.literal.rmatch word.toList = false) :
      word.toList ∉ Decimal.literal.matches' := by
    rw [← RegularExpression.rmatch_iff_matches', h]
    exact Bool.false_ne_true
  refine ⟨(ofWord_reads_literals "+1.E-3").1.mpr (hmatch _ (by decide +kernel)),
    (ofWord_reads_literals "1.e").2.2.1 (hmiss _ (by decide +kernel)) ?_,
    (ofWord_reads_literals "--1").2.2.2.1 ?_⟩
  · rw [← isReserved_iff]
    decide +kernel
  · intro kind v h
    exact hmiss "--1" (by decide +kernel) ((ofWord_reads_literals "--1").1.mp ⟨kind, v, h⟩)

end Token

end Wordstack
