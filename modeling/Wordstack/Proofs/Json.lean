-- SUMMARY: Reading a document gives back what was written.
import Wordstack.Proofs.Number.Numeral

/-!
# Reading what was written

A document on one line is read back as it is, if its numbers are literals and its
strings are written with escapes (`Json.parse?_compact`). The strings stand for the
texts that were written.
-/

namespace Wordstack.Json

-- -----------------------------------------------------------------------
-- Strings
-- -----------------------------------------------------------------------

theorem hexDigit?_digitChar {n : Nat} (h : n < 16) : hexDigit? n.digitChar = some n := by
  have hall : ∀ n < 16, hexDigit? n.digitChar = some n := by decide
  exact hall n h

theorem hexUnit?_control {c : Char} (h : c.toNat < 0x20) :
    hexUnit? '0' '0' (c.toNat / 16).digitChar (c.toNat % 16).digitChar = some c.toNat := by
  have hhigh : hexDigit? (c.toNat / 16).digitChar = some (c.toNat / 16) :=
    hexDigit?_digitChar (by omega)
  have hlow : hexDigit? (c.toNat % 16).digitChar = some (c.toNat % 16) :=
    hexDigit?_digitChar (by omega)
  have hzero : hexDigit? '0' = some 0 := by decide
  simp only [hexUnit?, hzero, hhigh, hlow, Option.bind_eq_bind, Option.bind_some, Option.pure_def,
    Option.some.injEq]
  omega

/-- What the escape of a character looks like. -/
theorem escape_cases (c : Char) :
    (∃ short, escape c = ['\\', short] ∧ unescape? short = some c ∧ short ≠ 'u') ∨
    (c.toNat < 0x20 ∧ escape c = ['\\', 'u', '0', '0', (c.toNat / 16).digitChar,
      (c.toNat % 16).digitChar]) ∨
    (escape c = [c] ∧ c ≠ '"' ∧ c ≠ '\\' ∧ 0x20 ≤ c.toNat) := by
  unfold escape
  split
  case h_8 c hquote hslash _ _ _ _ _ =>
    split
    next hlt => exact .inr (.inl ⟨hlt, rfl⟩)
    next hle => exact .inr (.inr ⟨rfl, hquote, hslash, Nat.le_of_not_lt hle⟩)
  all_goals exact .inl ⟨_, rfl, rfl, by decide⟩

/-- The reader goes over the escape of a character. -/
theorem readString_escape (c : Char) (done cs : List Char) :
    readString done (escape c ++ cs) = readString ((escape c).reverse ++ done) cs := by
  rcases escape_cases c with ⟨short, hescape, hshort, hu⟩ | ⟨hlt, hescape⟩ |
    ⟨hescape, hquote, hslash, hle⟩
  · simp [hescape, readString, hshort, hu]
  · simp [hescape, readString, hexUnit?_control hlt]
  · simp [hescape, readString, hslash, Nat.not_lt_of_le hle]

theorem readString_escaped (cs done rest : List Char) :
    readString done (cs.flatMap escape ++ '"' :: rest)
      = some (String.ofList (done.reverse ++ cs.flatMap escape), rest) := by
  induction cs generalizing done with
  | nil => simp [readString]
  | cons c cs ih =>
    rw [List.flatMap_cons, List.append_assoc, readString_escape, ih]
    simp

/-- The escape of a character stands for it. -/
theorem decode?_escape (c : Char) (done cs : List Char) :
    decode? done (escape c ++ cs) = decode? (c :: done) cs := by
  rcases escape_cases c with ⟨short, hescape, hshort, hu⟩ | ⟨hlt, hescape⟩ |
    ⟨hescape, hquote, hslash, hle⟩
  · simp [hescape, decode?, hshort, hu]
  · have hsurrogate : ¬ 0xd800 ≤ c.toNat := by omega
    have hsurrogate' : ¬ 0xdc00 ≤ c.toNat := by omega
    simp [hescape, decode?, hexUnit?_control hlt, hsurrogate, hsurrogate']
  · simp [hescape, decode?, hslash]

/-- A text is what its written form stands for. -/
theorem textOf?_escaped (s : String) : textOf? (escaped s) = some s := by
  have hdecode : ∀ cs done : List Char,
      decode? done (cs.flatMap escape) = some (String.ofList (done.reverse ++ cs)) := by
    intro cs
    induction cs with
    | nil => simp [decode?]
    | cons c cs ih =>
      intro done
      rw [List.flatMap_cons, decode?_escape, ih]
      simp
  simp [textOf?, escaped, hdecode]

-- -----------------------------------------------------------------------
-- Values
-- -----------------------------------------------------------------------

/-- The numbers of the document are literals, and its strings are written with
escapes. -/
inductive WellWritten : Json → Prop where
  | null : WellWritten .null
  | bool (b : Bool) : WellWritten (.bool b)
  | number {n : Numeral} (h : n.Valid) : WellWritten (.number (String.ofList n.chars))
  | str (s : String) : WellWritten (.str (escaped s))
  | arr {xs : List Json} (h : ∀ x ∈ xs, WellWritten x) : WellWritten (.arr xs)
  | obj {fields : List (String × Json)} (hname : ∀ f ∈ fields, ∃ s, f.1 = escaped s)
      (h : ∀ f ∈ fields, WellWritten f.2) : WellWritten (.obj fields)

/-- What can follow a value on one line. -/
def EndsValue (rest : List Char) : Prop := ∀ c ∈ rest.head?, c = ',' ∨ c = ']' ∨ c = '\x7d'

theorem EndsValue.stops {rest : List Char} (h : EndsValue rest) : Numeral.Stops rest := by
  intro c hc
  rcases h c hc with rfl | rfl | rfl <;> decide

/-- The character is one that a value can start with. -/
def StartsValue (c : Char) : Prop :=
  c ∈ ['n', 't', 'f', '"', '[', '\x7b', '-'] ∨ c.isDigit = true

theorem StartsValue.not_isSpace {c : Char} (h : StartsValue c) : isSpace c = false := by
  cases hspace : isSpace c with
  | false => rfl
  | true =>
    simp only [isSpace, Bool.or_eq_true, beq_iff_eq] at hspace
    exfalso
    rcases hspace with ((rfl | rfl) | rfl) | rfl <;> exact absurd h (by unfold StartsValue; decide)

theorem WellWritten.starts {j : Json} (h : j.WellWritten) :
    ∃ c cs, write j = c :: cs ∧ StartsValue c := by
  cases h with
  | null => exact ⟨'n', _, rfl, .inl (by decide)⟩
  | bool b => cases b <;> exact ⟨_, _, rfl, .inl (by decide)⟩
  | @number n h =>
    obtain ⟨c, cs, hchars, hc⟩ := h.starts
    refine ⟨c, cs, ?_, ?_⟩
    · rw [write, String.toList_ofList, hchars]
    · rcases hc with rfl | hc
      · exact .inl (by decide)
      · exact .inr hc
  | str s => exact ⟨_, _, rfl, .inl (by decide)⟩
  | arr => exact ⟨'[', _, by rw [write, List.cons_append], .inl (by decide)⟩
  | obj => exact ⟨'\x7b', _, by rw [write, List.cons_append], .inl (by decide)⟩

theorem skipSpace_cons {c : Char} (h : isSpace c = false) (cs : List Char) :
    skipSpace (c :: cs) = c :: cs := by
  rw [skipSpace, List.dropWhile_cons, h]
  rfl

/-- The value is read off the front of a text, with fuel for its characters. -/
def Reads (j : Json) : Prop :=
  ∀ (fuel : Nat) (rest : List Char), 2 * (write j).length ≤ fuel → EndsValue rest →
    readValue fuel (write j ++ rest) = some (j, rest)

theorem readElements_write {xs : List Json} (hne : xs ≠ []) (h : ∀ x ∈ xs, x.Reads)
    {fuel : Nat} (hfuel : 2 * (writeElements xs).length < fuel) (rest : List Char) :
    readElements fuel (writeElements xs ++ ']' :: rest) = some (xs, rest) := by
  induction xs generalizing fuel with
  | nil => exact absurd rfl hne
  | cons x xs ih =>
    obtain ⟨fuel, rfl⟩ := Nat.exists_eq_add_one_of_ne_zero (Nat.ne_zero_of_lt hfuel)
    have hx : x.Reads := h x List.mem_cons_self
    cases xs with
    | nil =>
      have hclose : skipSpace (']' :: rest) = ']' :: rest := rfl
      simp only [writeElements] at hfuel
      simp [writeElements, readElements, hx fuel (']' :: rest) (by omega) (by simp [EndsValue]),
        hclose]
    | cons y ys =>
      simp only [writeElements, List.length_append, List.length_cons] at hfuel
      have hlater : 2 * (writeElements (y :: ys)).length < fuel := by omega
      have hrest := ih (by simp) (fun z hz => h z (List.mem_cons_of_mem x hz)) hlater
      have hcomma : ∀ cs, skipSpace (',' :: cs) = ',' :: cs := fun _ => rfl
      simp [writeElements, readElements, hx fuel (',' :: _) (by omega) (by simp [EndsValue]),
        hcomma, hrest]

theorem readFields_write {fields : List (String × Json)} (hne : fields ≠ [])
    (hname : ∀ f ∈ fields, ∃ s, f.1 = escaped s) (h : ∀ f ∈ fields, f.2.Reads)
    {fuel : Nat} (hfuel : 2 * (writeFields fields).length < fuel) (rest : List Char) :
    readFields fuel (writeFields fields ++ '\x7d' :: rest) = some (fields, rest) := by
  induction fields generalizing fuel with
  | nil => exact absurd rfl hne
  | cons f fields ih =>
    obtain ⟨fuel, rfl⟩ := Nat.exists_eq_add_one_of_ne_zero (Nat.ne_zero_of_lt hfuel)
    obtain ⟨name, x⟩ := f
    obtain ⟨s, rfl : name = escaped s⟩ := hname _ List.mem_cons_self
    have hx : x.Reads := h _ List.mem_cons_self
    have hquote : ∀ cs, skipSpace ('"' :: cs) = '"' :: cs := fun _ => rfl
    have hcolon : ∀ cs, skipSpace (':' :: cs) = ':' :: cs := fun _ => rfl
    have hread : ∀ cs, readString [] ((escaped s).toList ++ '"' :: cs) = some (escaped s, cs) := by
      intro cs
      rw [escaped, String.toList_ofList, readString_escaped]
      rfl
    cases fields with
    | nil =>
      have hclose : skipSpace ('\x7d' :: rest) = '\x7d' :: rest := rfl
      simp only [writeFields, writeString, List.length_append, List.length_cons] at hfuel
      simp [writeFields, writeString, readFields, hquote, hread, hcolon,
        hx fuel ('\x7d' :: rest) (by omega) (by simp [EndsValue]), hclose]
    | cons g gs =>
      simp only [writeFields, writeString, List.length_append, List.length_cons] at hfuel
      have hlater : 2 * (writeFields (g :: gs)).length < fuel := by omega
      have hrest := ih (by simp) (fun z hz => hname z (List.mem_cons_of_mem _ hz))
        (fun z hz => h z (List.mem_cons_of_mem _ hz)) hlater
      have hcomma : ∀ cs, skipSpace (',' :: cs) = ',' :: cs := fun _ => rfl
      simp [writeFields, writeString, readFields, hquote, hread, hcolon,
        hx fuel (',' :: _) (by omega) (by simp [EndsValue]), hcomma, hrest]

/-- A number literal is none of the other values. -/
theorem readValue_number {c : Char} (hc : c = '-' ∨ c.isDigit = true) (fuel : Nat)
    (cs : List Char) :
    readValue (fuel + 1) (c :: cs)
      = (readNumber (c :: cs)).bind fun r => some (.number r.1, r.2) := by
  have hother : ∀ d ∈ ['n', 't', 'f', '"', '[', '\x7b'], c ≠ d := by
    rintro d hd rfl
    rcases hc with rfl | hc
    · exact absurd hd (by decide)
    · simp only [List.mem_cons, List.not_mem_nil, or_false] at hd
      rcases hd with rfl | rfl | rfl | rfl | rfl | rfl <;> exact absurd hc (by decide)
  have hskip : skipSpace (c :: cs) = c :: cs := by
    apply skipSpace_cons
    apply StartsValue.not_isSpace
    rcases hc with rfl | hc
    · exact .inl (by decide)
    · exact .inr hc
  simp only [List.mem_cons, List.not_mem_nil, or_false, forall_eq_or_imp, forall_eq] at hother
  simp [readValue, hskip, hother]

theorem StartsValue.ne_bracket {c : Char} (h : StartsValue c) : c ≠ ']' := by
  rintro rfl
  exact absurd h (by unfold StartsValue; decide)

/-- An array with elements is read up to its bracket. -/
theorem readValue_elements {c : Char} (hc : StartsValue c) (fuel : Nat) (cs : List Char) :
    readValue (fuel + 1) ('[' :: c :: cs)
      = (readElements fuel (c :: cs)).bind fun r => some (.arr r.1, r.2) := by
  have hopen : skipSpace ('[' :: c :: cs) = '[' :: c :: cs := rfl
  have hskip : skipSpace (c :: cs) = c :: cs := skipSpace_cons hc.not_isSpace cs
  simp [readValue, hopen, hskip, hc.ne_bracket]

/-- An object with fields is read up to its brace. -/
theorem readValue_fields (fuel : Nat) (cs : List Char) :
    readValue (fuel + 1) ('\x7b' :: '"' :: cs)
      = (readFields fuel ('"' :: cs)).bind fun r => some (.obj r.1, r.2) := by
  have hopen : skipSpace ('\x7b' :: '"' :: cs) = '\x7b' :: '"' :: cs := rfl
  have hskip : skipSpace ('"' :: cs) = '"' :: cs := rfl
  simp [readValue, hopen, hskip]

theorem writeElements_starts (x : Json) (xs : List Json) :
    ∃ cs, writeElements (x :: xs) = write x ++ cs := by
  cases xs with
  | nil => exact ⟨[], (List.append_nil _).symm⟩
  | cons y ys => exact ⟨',' :: writeElements (y :: ys), rfl⟩

theorem writeFields_starts (f : String × Json) (fields : List (String × Json)) :
    ∃ cs, writeFields (f :: fields) = '"' :: cs := by
  cases fields with
  | nil => exact ⟨_, rfl⟩
  | cons g gs => exact ⟨_, rfl⟩

/-- Whatever is written well is read off the front of a text. -/
theorem WellWritten.reads {j : Json} (h : j.WellWritten) : j.Reads := by
  induction h with
  | null =>
    intro fuel rest hfuel hrest
    obtain ⟨fuel, rfl⟩ := Nat.exists_eq_add_one_of_ne_zero (Nat.ne_zero_of_lt hfuel)
    rfl
  | bool b =>
    intro fuel rest hfuel hrest
    cases b with
    | true =>
      obtain ⟨fuel, rfl⟩ := Nat.exists_eq_add_one_of_ne_zero (Nat.ne_zero_of_lt hfuel)
      rfl
    | false =>
      obtain ⟨fuel, rfl⟩ := Nat.exists_eq_add_one_of_ne_zero (Nat.ne_zero_of_lt hfuel)
      rfl
  | @number n h =>
    intro fuel rest hfuel hrest
    obtain ⟨c, cs, hchars, hc⟩ := h.starts
    have hread := Numeral.readNumber_append h hrest.stops
    simp only [write, String.toList_ofList] at hfuel ⊢
    rw [hchars] at hfuel hread ⊢
    obtain ⟨fuel, rfl⟩ := Nat.exists_eq_add_one_of_ne_zero (Nat.ne_zero_of_lt hfuel)
    rw [List.cons_append] at hread ⊢
    rw [readValue_number hc, hread]
    rfl
  | str s =>
    intro fuel rest hfuel hrest
    obtain ⟨fuel, rfl⟩ := Nat.exists_eq_add_one_of_ne_zero (Nat.ne_zero_of_lt hfuel)
    have hquote : ∀ cs, skipSpace ('"' :: cs) = '"' :: cs := fun _ => rfl
    have hread := readString_escaped s.toList [] rest
    simp [write, writeString, escaped, readValue, hquote, hread]
  | @arr xs h ih =>
    intro fuel rest hfuel hrest
    obtain ⟨fuel, rfl⟩ := Nat.exists_eq_add_one_of_ne_zero (Nat.ne_zero_of_lt hfuel)
    cases xs with
    | nil => rfl
    | cons x xs =>
      obtain ⟨c, cs, hx, hc⟩ := (h x List.mem_cons_self).starts
      obtain ⟨cs', hstarts⟩ := writeElements_starts x xs
      simp only [write, List.length_append, List.length_cons, List.length_nil] at hfuel
      have hlater : 2 * (writeElements (x :: xs)).length < fuel := by omega
      have hread := readElements_write (by simp) ih hlater rest
      rw [hstarts, hx] at hread
      simp only [List.cons_append, List.append_assoc] at hread
      simp [write, hstarts, hx, readValue_elements hc, hread]
  | @obj fields hname h ih =>
    intro fuel rest hfuel hrest
    obtain ⟨fuel, rfl⟩ := Nat.exists_eq_add_one_of_ne_zero (Nat.ne_zero_of_lt hfuel)
    cases fields with
    | nil => rfl
    | cons f fields =>
      obtain ⟨cs, hstarts⟩ := writeFields_starts f fields
      simp only [write, List.length_append, List.length_cons, List.length_nil] at hfuel
      have hlater : 2 * (writeFields (f :: fields)).length < fuel := by omega
      have hread := readFields_write (by simp) hname ih hlater rest
      rw [hstarts] at hread
      simp only [List.cons_append] at hread
      simp [write, hstarts, readValue_fields, hread]

/-- Reading the text of a document gives the document. -/
theorem parse?_compact {j : Json} (h : j.WellWritten) : parse? j.compact = some j := by
  have hread := h.reads (2 * (write j).length + 2) [] (by omega) (by simp [EndsValue])
  rw [List.append_nil] at hread
  simp [parse?, compact, hread, skipSpace]

end Wordstack.Json
