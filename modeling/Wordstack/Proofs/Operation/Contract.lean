-- SUMMARY: The contract of operators: what each takes off a stack, leaves on it and does besides.
import Mathlib.Data.List.Basic
import Wordstack.Machine.Step
import Wordstack.Proofs.Operation

/-!
# The contract of operators

An operator that has the values it needs looks at nothing under them, so what it does
is settled by those values (`Operator.apply_append`). `Operator.Yields` lists what it
can make of them. With too few values it fails and changes nothing.

A line that an operator prints still has to go to a sink, which may refuse it.
`Operator.applyTo` includes that, and is what the machine carries out
(`Machine.operate_eq`).
-/

namespace Wordstack

-- -----------------------------------------------------------------------
-- Effects
-- -----------------------------------------------------------------------

namespace Operator

/-- How many values the operator leaves in place of those that it needs, unless it
fails. -/
def leaves : Operator → Nat
  | .rot | .carry => 3
  | .copy | .swap => 2
  | .assert | .drop | .print | .ret => 0
  | _ => 1

/-- What an operator can make of exactly the values that it needs. -/
inductive Yields : Operator → Stack → Effect → Prop where
  | next {op : Operator} {top stack : Stack} (hret : op ≠ .ret)
      (hlength : stack.length = op.leaves) : Yields op top (.next stack)
  | print (value : Token) : Yields .print [value] (.print (value.text ++ "\n") [])
  | ret (value : Token) : Yields .ret [value] (.ret value [])
  /-- The values stay where they are. -/
  | mismatch {op : Operator} (hret : op ≠ .ret) (wanted : Wanted) (top : Stack) :
      Yields op top (.fail (.typeMismatch op wanted top.reverse) top)
  | unequal (a b : Token) : Yields .assert [b, a] (.fail (.assertionFailed a b) [])
  | unprintable (value : Token) : Yields .print [value] (.fail (.notPrintable value) [])

theorem yields_applyOne {op : Operator} (harity : op.arity = 1) (a : Token) :
    op.Yields [a] (op.applyOne a []) := by
  cases op with
  | print =>
    simp only [applyOne]
    split
    · exact .print a
    · exact .unprintable a
  | ret => exact .ret a
  | sqrt =>
    simp only [applyOne]
    split
    · exact .next (by simp) rfl
    · exact .next (by simp) rfl
    · exact .mismatch (by simp) .number [a]
  | copy | drop => exact .next (by simp) rfl
  | _ => cases harity

theorem yields_applyTwo {op : Operator} (harity : op.arity = 2) (a b : Token) :
    op.Yields [b, a] (op.applyTwo a b []) := by
  cases op with
  | add =>
    simp only [applyTwo]
    split
    · exact .next (by simp) rfl
    · exact .next (by simp) rfl
    · exact .mismatch (by simp) .twoNumbersOrStrings [b, a]
  | sub | mul | div | mod | max | min | gt | lt | ge | le =>
    simp only [applyTwo]
    split
    · exact .next (by simp) rfl
    · exact .mismatch (by simp) .twoNumbers [b, a]
  | is =>
    simp only [applyTwo]
    split
    · exact .next (by simp) rfl
    · exact .mismatch (by simp) .valueAndType [b, a]
  | assert =>
    simp only [applyTwo]
    split
    · exact .next (by simp) rfl
    · exact .unequal a b
  | eq | ne | swap | carry => exact .next (by simp) rfl
  | _ => cases harity

/-- An operator that has exactly the values it needs does one of the things listed. -/
theorem yields_apply {op : Operator} {top : Stack} (h : top.length = op.arity) :
    op.Yields top (op.apply top) := by
  rcases op.arity_cases with harity | harity | harity
  · obtain ⟨a, rfl⟩ := List.length_eq_one_iff.mp (h.trans harity)
    simp only [apply, harity]
    exact yields_applyOne harity a
  · obtain ⟨b, a, rfl⟩ := List.length_eq_two.mp (h.trans harity)
    simp only [apply, harity]
    exact yields_applyTwo harity a b
  · obtain ⟨c, b, a, rfl⟩ := List.length_eq_three.mp (h.trans harity)
    cases op with
    | rot => exact .next (by simp) rfl
    | _ => cases harity

/-- An operator that has the values it needs does one of the things listed to the
topmost values. -/
theorem exists_yields {op : Operator} {stack : Stack} (h : op.arity ≤ stack.length) :
    ∃ top base effect, stack = top ++ base ∧ op.Yields top effect ∧
      op.apply stack = effect.under base := by
  have hlength : (stack.take op.arity).length = op.arity := List.length_take_of_le h
  have happly := apply_append (Nat.le_of_eq hlength.symm) (stack.drop op.arity)
  rw [List.take_append_drop] at happly
  exact ⟨_, _, _, (List.take_append_drop _ _).symm, yields_apply hlength, happly⟩

/-- How an operator can fail, and which values are gone then. -/
theorem apply_fail {op : Operator} {stack rest : Stack} {e : Error}
    (h : op.apply stack = .fail e rest) :
    (∃ needed found, e = .stackUnderflow op needed found ∧ stack = rest) ∨
      (∃ wanted operands, e = .typeMismatch op wanted operands ∧ stack = rest) ∨
      (∃ a b, e = .assertionFailed a b ∧ stack = b :: a :: rest) ∨
      ∃ value, e = .notPrintable value ∧ stack = value :: rest := by
  by_cases hlt : stack.length < op.arity
  · rw [apply_of_length_lt hlt] at h
    cases h
    exact .inl ⟨_, _, rfl, rfl⟩
  · obtain ⟨top, base, effect, rfl, hyields, happly⟩ := exists_yields (Nat.le_of_not_lt hlt)
    rw [happly] at h
    cases hyields with
    | next | print | ret => cases h
    | mismatch =>
      cases h
      exact .inr (.inl ⟨_, _, rfl, rfl⟩)
    | unequal a b =>
      cases h
      exact .inr (.inr (.inl ⟨a, b, rfl, rfl⟩))
    | unprintable value =>
      cases h
      exact .inr (.inr (.inr ⟨value, rfl, rfl⟩))

theorem apply_print {op : Operator} {stack rest : Stack} {line : String}
    (h : op.apply stack = .print line rest) : ∃ value, stack = value :: rest := by
  by_cases hlt : stack.length < op.arity
  · rw [apply_of_length_lt hlt] at h
    cases h
  · obtain ⟨top, base, effect, rfl, hyields, happly⟩ := exists_yields (Nat.le_of_not_lt hlt)
    rw [happly] at h
    cases hyields with
    | print value =>
      cases h
      exact ⟨value, rfl⟩
    | _ => cases h

end Operator

-- -----------------------------------------------------------------------
-- Operators and sinks
-- -----------------------------------------------------------------------

/-- What an operator has come to once its line, if it prints one, has gone to a sink:
the value that it returns, if any, or its error, the stack, and the state of the sink. -/
structure Applied (σ : Type) where
  result : Except Error (Option Token)
  stack : Stack
  out : σ

variable {σ : Type}

/-- Hands the line of an effect to a sink. -/
def Effect.sendTo (sink : Sink σ) (out : σ) : Effect → Applied σ
  | .next stack => { result := .ok none, stack, out }
  | .ret value stack => { result := .ok (some value), stack, out }
  | .fail e stack => { result := .error e, stack, out }
  | .print line stack =>
    match sink.write out line with
    | (out, none) => { result := .ok none, stack, out }
    | (out, some reason) => { result := .error (.writeFailed reason), stack, out }

/-- More values at the bottom. -/
def Applied.under (base : Stack) (r : Applied σ) : Applied σ :=
  { r with stack := r.stack ++ base }

theorem Effect.sendTo_under (sink : Sink σ) (out : σ) (effect : Effect) (base : Stack) :
    (effect.under base).sendTo sink out = (effect.sendTo sink out).under base := by
  cases effect with
  | print line stack =>
    simp only [Effect.under, sendTo]
    split <;> rfl
  | _ => rfl

/-- Applies an operator, with a sink for what it prints. -/
def Operator.applyTo (op : Operator) (sink : Sink σ) (out : σ) (stack : Stack) : Applied σ :=
  (op.apply stack).sendTo sink out

/-- Puts what an operator has come to into the frame at an index. -/
def Machine.settle (m : Machine σ) (index : Nat) (r : Applied σ) : Machine σ × Signal :=
  let m := { m.setStack index r.stack with out := r.out }
  match r.result with
  | .ok none => (m, .running)
  | .ok (some value) => (m.deliver index value, .running)
  | .error e => (m, .failed e)

/-- This is how the machine applies operators. -/
theorem Machine.operate_eq (ctx : Context σ) (m : Machine σ) (index : Nat) (f : Frame)
    (op : Operator) :
    m.operate ctx index f op = m.settle index (op.applyTo ctx.sink m.out f.stack) := by
  unfold operate Operator.applyTo
  cases op.apply f.stack with
  | print line stack =>
    simp only [Effect.sendTo]
    cases hwrite : ctx.sink.write m.out line with
    | mk out refusal =>
      simp only [hwrite]
      cases refusal <;> rfl
  | _ => rfl

-- -----------------------------------------------------------------------
-- The contract
-- -----------------------------------------------------------------------

namespace Operator

/-- What an operator owes for the values `top` that it needs, over a sink in the state
`out`. The values of the result stand in place of them. -/
structure Honours (op : Operator) (top : Stack) (out : σ) (r : Applied σ) : Prop where
  leaves (value : Option Token) : r.result = .ok value → r.stack.length = op.leaves
  returns (value : Token) : r.result = .ok (some value) ↔ op = .ret ∧ top = [value]
  writes : op ≠ .print → r.out = out
  fails (e : Error) : r.result = .error e →
    (∃ wanted, e = .typeMismatch op wanted top.reverse ∧ r.stack = top ∧ r.out = out) ∨
    (∃ a b, op = .assert ∧ top = [b, a] ∧ e = .assertionFailed a b ∧ r.stack = []) ∨
    (∃ value, op = .print ∧ top = [value] ∧ e = .notPrintable value ∧ r.stack = [] ∧
      r.out = out) ∨
    ∃ reason, op = .print ∧ e = .writeFailed reason ∧ r.stack = []

theorem Yields.honours {op : Operator} {top : Stack} {effect : Effect} (h : op.Yields top effect)
    (sink : Sink σ) (out : σ) : op.Honours top out (effect.sendTo sink out) := by
  cases h with
  | next hret hlength =>
    exact ⟨fun _ _ => hlength, by simp [Effect.sendTo, hret], fun _ => rfl,
      by simp [Effect.sendTo]⟩
  | print value =>
    simp only [Effect.sendTo]
    split
    next => exact ⟨fun _ _ => rfl, by simp, by simp, by simp⟩
    next => exact ⟨fun _ _ => rfl, by simp, by simp, by simp⟩
  | ret value =>
    exact ⟨fun _ _ => rfl, by simp [Effect.sendTo], fun _ => rfl, by simp [Effect.sendTo]⟩
  | mismatch hret wanted top =>
    refine ⟨by simp [Effect.sendTo], by simp [Effect.sendTo, hret], fun _ => rfl, ?_⟩
    rintro e ⟨⟩
    exact .inl ⟨wanted, rfl, rfl, rfl⟩
  | unequal a b =>
    exact ⟨by simp [Effect.sendTo], by simp [Effect.sendTo], fun _ => rfl,
      by simp [Effect.sendTo]⟩
  | unprintable value =>
    exact ⟨by simp [Effect.sendTo], by simp [Effect.sendTo], by simp, by simp [Effect.sendTo]⟩

/-- With too few values an operator fails and leaves everything as it is. With the
values that it needs it honours its contract, and the same over any values below
them. The machine does to a frame what the operator does to its stack. -/
theorem applyTo_contract (op : Operator) (sink : Sink σ) (out : σ) :
    (∀ stack : Stack, stack.length < op.arity → op.applyTo sink out stack =
      { result := .error (.stackUnderflow op op.arity stack.length), stack, out }) ∧
    (∀ top : Stack, top.length = op.arity → ∃ r : Applied σ, op.Honours top out r ∧
      ∀ base, op.applyTo sink out (top ++ base) = r.under base) ∧
    ∀ (ctx : Context σ) (m : Machine σ) (index : Nat) (f : Frame), ctx.sink = sink → m.out = out →
      m.operate ctx index f op = m.settle index (op.applyTo sink out f.stack) := by
  refine ⟨?_, ?_, ?_⟩
  · intro stack hlt
    rw [applyTo, apply_of_length_lt hlt]
    rfl
  · intro top hlength
    refine ⟨op.applyTo sink out top, (yields_apply hlength).honours sink out, ?_⟩
    intro base
    rw [applyTo, apply_append (Nat.le_of_eq hlength.symm), Effect.sendTo_under]
    rfl
  · rintro ctx m index f rfl rfl
    exact Machine.operate_eq ctx m index f op

/-- Values that cannot be subtracted stay in their order, over a value that does not
matter. -/
theorem applyTo_contract_of_mismatch :
    (sub.applyTo .memory "" [.bool true, .str "x", .type .int]).stack
      = [.bool true, .str "x", .type .int] := by
  obtain ⟨-, hcontract, -⟩ := sub.applyTo_contract .memory ""
  obtain ⟨r, hhonours, hunder⟩ := hcontract [.bool true, .str "x"] rfl
  have hresult : r.result = .error (.typeMismatch .sub .twoNumbers [.str "x", .bool true]) :=
    congrArg Applied.result (hunder []).symm
  obtain ⟨_, -, hstack, -⟩ | ⟨_, _, hassert, -⟩ | ⟨_, hprint, -⟩ | ⟨_, hprint, -⟩ :=
    hhonours.fails _ hresult
  · rw [show ([.bool true, .str "x", .type .int] : Stack) = [.bool true, .str "x"] ++ [.type .int]
      from rfl, hunder]
    rw [Applied.under, hstack]
  · cases hassert
  · cases hprint
  · cases hprint

end Operator

end Wordstack
