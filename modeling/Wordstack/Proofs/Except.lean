-- SUMMARY: When a computation that may fail has a result.

/-!
# Results of computations that may fail

A chain of such computations has a result if every link has one (`Except.bind_eq_ok_iff`). A
result on fixed inputs is found by evaluation; `Except.eq_ok_of_toOption` asks only for the
result then, and not for the kind of errors that there might be.
-/

namespace Except

variable {ε α β : Type}

theorem bind_eq_ok_iff {x : Except ε α} {f : α → Except ε β} {b : β} :
    (x >>= f) = .ok b ↔ ∃ a, x = .ok a ∧ f a = .ok b := by
  cases x with
  | error e => simp [bind, Except.bind]
  | ok a => simp [bind, Except.bind]

theorem eq_ok_of_toOption {x : Except ε α} {a : α} (h : x.toOption = some a) : x = .ok a := by
  cases x with
  | error e => cases h
  | ok b => exact congrArg Except.ok (Option.some.inj h)

end Except
