-- SUMMARY: Operators and bindings see no more of a stack than the values that they take off it.
import Wordstack.Binding
import Wordstack.Operation

/-!
# How deep operators and bindings look

An operator works on as many values as its arity says, and binding on as many as there
are parameters. Whatever lies under those stays where it is and has no influence.
-/

namespace Wordstack

/-- The effect with more values at the bottom of the stack that it leaves. -/
def Effect.under (below : Stack) : Effect → Effect
  | .next stack => .next (stack ++ below)
  | .print line stack => .print line (stack ++ below)
  | .ret value stack => .ret value (stack ++ below)
  | .fail e stack => .fail e (stack ++ below)

namespace Operator

theorem applyOne_append (op : Operator) (a : Token) (rest below : Stack) :
    op.applyOne a (rest ++ below) = (op.applyOne a rest).under below := by
  unfold applyOne
  split
  case h_1 => split <;> rfl
  case h_4 => split <;> rfl
  all_goals rfl

theorem applyTwo_append (op : Operator) (a b : Token) (rest below : Stack) :
    op.applyTwo a b (rest ++ below) = (op.applyTwo a b rest).under below := by
  unfold applyTwo
  split
  all_goals try rfl
  all_goals split <;> rfl

theorem arity_cases (op : Operator) : op.arity = 1 ∨ op.arity = 2 ∨ op.arity = 3 := by
  cases op <;> decide

/-- An operator that has its operands does not see what lies under them. -/
theorem apply_append {op : Operator} {stack : Stack} (h : op.arity ≤ stack.length)
    (below : Stack) : op.apply (stack ++ below) = (op.apply stack).under below := by
  rcases op.arity_cases with harity | harity | harity
  · obtain _ | ⟨a, rest⟩ := stack
    · simp [harity] at h
    · simp only [apply, harity, List.cons_append]
      exact applyOne_append op a rest below
  · obtain _ | ⟨b, _ | ⟨a, rest⟩⟩ := stack
    · simp [harity] at h
    · simp [harity] at h
    · simp only [apply, harity, List.cons_append]
      exact applyTwo_append op a b rest below
  · obtain _ | ⟨c, _ | ⟨b, _ | ⟨a, rest⟩⟩⟩ := stack
    · simp [harity] at h
    · simp [harity] at h
    · simp [harity] at h
    · simp only [apply, harity, List.cons_append]
      rfl

/-- An operator without its operands fails. -/
theorem apply_of_length_lt {op : Operator} {stack : Stack} (h : stack.length < op.arity) :
    op.apply stack = .fail (.stackUnderflow op op.arity stack.length) stack := by
  rcases op.arity_cases with harity | harity | harity
  · obtain _ | ⟨a, rest⟩ := stack
    · simp [apply, harity]
    · simp [harity] at h
  · obtain _ | ⟨b, _ | ⟨a, rest⟩⟩ := stack
    · simp [apply, harity]
    · simp [apply, harity]
    · simp only [harity, List.length_cons] at h
      omega
  · obtain _ | ⟨c, _ | ⟨b, _ | ⟨a, rest⟩⟩⟩ := stack
    · simp [apply, harity]
    · simp [apply, harity]
    · simp [apply, harity]
    · simp only [harity, List.length_cons] at h
      omega

/-- What an operator does without failing it does over any other values too. -/
theorem apply_append_of_not_fail {op : Operator} {stack : Stack}
    (h : ∀ e rest, op.apply stack ≠ .fail e rest) (below : Stack) :
    op.apply (stack ++ below) = (op.apply stack).under below := by
  by_cases hlt : stack.length < op.arity
  · exact absurd (apply_of_length_lt hlt) (h _ _)
  · exact apply_append (Nat.le_of_not_lt hlt) below

end Operator

/-- Binding leaves what lies under the arguments. -/
theorem Definition.bindFrom_append {d : Definition} {caller : String} {done : List Token}
    {params : List Param} {stack args rest : Stack}
    (h : d.bindFrom caller done params stack = .bound args rest) (below : Stack) :
    d.bindFrom caller done params (stack ++ below) = .bound args (rest ++ below) := by
  fun_induction bindFrom d caller done params stack with
  | case1 done stack =>
    cases h
    simp only [bindFrom]
  | case2 => cases h
  | case3 done p before value stack accepted haccept ih =>
    simp only [List.cons_append, bindFrom, haccept]
    exact ih h
  | case4 => cases h

end Wordstack
