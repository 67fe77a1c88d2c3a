-- SUMMARY: What a reader finds in the records, texts and counts that were written.
import Wordstack.Json.View
import Wordstack.Proofs.Json
import Wordstack.Proofs.Json.Literal

/-!
# Looking into what was written

Documents are built from texts, counts and records. Each of them is written well, so
reading gives it back, and a reader that looks into one finds what it was built from.
-/

namespace Wordstack.Json

-- -----------------------------------------------------------------------
-- Building documents
-- -----------------------------------------------------------------------

namespace WellWritten

@[simp]
theorem text (s : String) : (Json.text s).WellWritten := .str s

@[simp]
theorem nat (n : Nat) : (Json.nat n).WellWritten := by
  rw [Json.nat, ← chars_countNumeral]
  exact .number (valid_countNumeral n)

theorem record {fields : List (String × Json)} (h : ∀ f ∈ fields, f.2.WellWritten) :
    (Json.record fields).WellWritten := by
  rw [Json.record]
  refine .obj (fun f hf => ?_) (fun f hf => ?_)
  · obtain ⟨field, -, rfl⟩ := List.mem_map.1 hf
    exact ⟨field.1, rfl⟩
  · obtain ⟨field, hfield, rfl⟩ := List.mem_map.1 hf
    exact h field hfield

end WellWritten

theorem escape_isDigit {c : Char} (h : c.isDigit = true) : escape c = [c] := by
  unfold escape
  split
  case h_8 =>
    have hle : '0'.toNat ≤ c.toNat := (Char.isDigit_iff_toNat.1 h).1
    exact if_neg (Nat.not_lt_of_le (Nat.le_trans (by decide) hle))
  all_goals exact absurd h (by decide)

/-- A count is written the same as a name and as a number. -/
theorem escaped_toDigits (n : Nat) :
    escaped (String.ofList (Nat.toDigits 10 n)) = String.ofList (Nat.toDigits 10 n) := by
  have hescape : ∀ cs : List Char, (∀ c ∈ cs, c.isDigit = true) → cs.flatMap escape = cs := by
    intro cs
    induction cs with
    | nil => simp
    | cons c cs ih =>
      intro h
      rw [List.flatMap_cons, escape_isDigit (h c List.mem_cons_self),
        ih fun d hd => h d (List.mem_cons_of_mem c hd), List.singleton_append]
  rw [escaped, String.toList_ofList, hescape]
  exact fun c hc => Nat.isDigit_of_mem_toDigits (by decide) (by decide) hc

-- -----------------------------------------------------------------------
-- Looking into them
-- -----------------------------------------------------------------------

@[simp]
theorem text?_text (s : String) : (text s).text? = some s := textOf?_escaped s

@[simp]
theorem choice?_text (held : Bool) (s : String) : (text s).choice? held = some s :=
  textOf?_escaped s

theorem nat?_nat {n : Nat} (hn : n < UInt64.size) : (nat n).nat? = some n :=
  countOfLiteral?_toDigits hn

@[simp]
theorem named?_record (fields : List (String × Json)) : (record fields).named? = some fields := by
  rw [record, named?]
  induction fields with
  | nil => rfl
  | cons f fields ih => simp [textOf?_escaped, ih]

@[simp]
theorem fields?_record (names : List String) (fields : List (String × Json)) :
    (record fields).fields? names = names.mapM (unique? fields) := by
  simp [fields?]

@[simp]
theorem recordFields?_record (names : List String) (fields : List (String × Json)) :
    (record fields).recordFields? names = names.mapM (unique? fields) :=
  fields?_record names fields

-- -----------------------------------------------------------------------
-- Holding them back
-- -----------------------------------------------------------------------

@[simp]
theorem canHold_text (room : Nat) (s : String) : canHold room (text s) = true := by
  simp [text, canHold, textOf?_escaped]

theorem canHold_nat {n : Nat} (hn : n < UInt64.size) (room : Nat) :
    canHold room (nat n) = true := by
  obtain ⟨v, hv⟩ := exists_floatOfLiteral?_toDigits hn
  simp [nat, canHold, hv]

theorem canHold_record {room : Nat} {fields : List (String × Json)}
    (h : ∀ f ∈ fields, canHold room f.2 = true) : canHold (room + 1) (record fields) = true := by
  rw [record, canHold]
  induction fields with
  | nil => rfl
  | cons f fields ih =>
    have hfields := ih fun g hg => h g (List.mem_cons_of_mem f hg)
    simp [canHoldFields, textOf?_escaped, h f List.mem_cons_self, hfields]

end Wordstack.Json
