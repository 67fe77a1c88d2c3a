-- SUMMARY: Which values a call binds, and with which error and what loss it fails to.
import Mathlib.Data.List.Basic
import Wordstack.Binding
import Wordstack.Operation

/-!
# Bound arguments

Binding goes down the caller's stack and the parameters from the last one on, and the
first thing that is wrong decides how it fails. `Definition.Binds` says how it can go,
by positions counted from the top of the stack. Counted from the bottom, the value of
a parameter is at the place that `Definition.argument?` says, and the value that is
wrong is the one of the greatest index.
-/

namespace Wordstack

namespace Definition

variable {d : Definition} {caller : String} {done : List Token} {params : List Param}
  {stack : Stack} {b : Bound}

/-- The values at a place suit the parameter at that place, if there are both. -/
def SuitsAt (params : List Param) (stack : Stack) (k : Nat) : Prop :=
  ∀ (p : Param) (value : Token), params[k]? = some p → stack[k]? = some value →
    (p.type.accept value).isSome = true

/-- How binding parameters, the last one first, to the values of a stack can go. -/
inductive Binds (d : Definition) (caller : String) (done : List Token) (params : List Param)
    (stack : Stack) : Bound → Prop where
  | bound {args : Stack} (hle : params.length ≤ stack.length)
      (hlength : args.length = params.length)
      (hargs : ∀ (k : Nat) (p : Param) (value : Token), params[k]? = some p →
        stack[k]? = some value → args[k]? = p.type.accept value) :
      Binds d caller done params stack (.bound (done.reverse ++ args) (stack.drop params.length))
  | short (hlt : stack.length < params.length) (hsuits : ∀ k, SuitsAt params stack k) :
      Binds d caller done params stack (.failed
        (.missingArguments d.name caller d.params.length (done.length + stack.length)) [])
  | rejected {k : Nat} {p : Param} {value : Token} (hp : params[k]? = some p)
      (hvalue : stack[k]? = some value) (hreject : p.type.accept value = none)
      (habove : ∀ j, j < k → SuitsAt params stack j) :
      Binds d caller done params stack (.failed
        (.argumentType d.name (params.length - (k + 1)) p.type value) (stack.drop (k + 1)))

theorem suitsAt_succ {p : Param} {value : Token} {k : Nat} :
    SuitsAt (p :: params) (value :: stack) (k + 1) ↔ SuitsAt params stack k := by
  simp only [SuitsAt, List.getElem?_cons_succ]

theorem suitsAt_zero {p : Param} {value accepted : Token}
    (h : p.type.accept value = some accepted) :
    SuitsAt (p :: params) (value :: stack) 0 := by
  rintro _ _ ⟨⟩ ⟨⟩
  rw [h]
  rfl

/-- A value that suits goes to the others, and binding goes on below it. -/
theorem Binds.cons {p : Param} {value accepted : Token}
    (h : Binds d caller (accepted :: done) params stack b)
    (haccept : p.type.accept value = some accepted) :
    Binds d caller done (p :: params) (value :: stack) b := by
  cases h with
  | @bound args hle hlength hargs =>
    have hbound : Binds d caller done (p :: params) (value :: stack)
        (.bound (done.reverse ++ accepted :: args)
          ((value :: stack).drop (p :: params).length)) := by
      refine .bound (Nat.succ_le_succ hle) (congrArg Nat.succ hlength) ?_
      intro k q u hq hu
      cases k with
      | zero =>
        cases hq
        cases hu
        exact haccept.symm
      | succ k => exact hargs k q u hq hu
    simpa using hbound
  | short hlt hsuits =>
    have hshort : Binds d caller done (p :: params) (value :: stack) (.failed
        (.missingArguments d.name caller d.params.length (done.length + (value :: stack).length))
        []) := by
      refine .short (Nat.succ_lt_succ hlt) ?_
      intro k
      cases k with
      | zero => exact suitsAt_zero haccept
      | succ k => exact suitsAt_succ.mpr (hsuits k)
    rw [List.length_cons, Nat.add_right_comm]
    exact hshort
  | @rejected k q u hq hu hreject habove =>
    have hrejected : Binds d caller done (p :: params) (value :: stack) (.failed
        (.argumentType d.name ((p :: params).length - (k + 1 + 1)) q.type u)
        ((value :: stack).drop (k + 1 + 1))) := by
      refine .rejected hq hu hreject ?_
      intro j hj
      cases j with
      | zero => exact suitsAt_zero haccept
      | succ j => exact suitsAt_succ.mpr (habove j (Nat.lt_of_succ_lt_succ hj))
    rwa [List.length_cons, Nat.succ_sub_succ] at hrejected

theorem binds_bindFrom (d : Definition) (caller : String) (done : List Token)
    (params : List Param) (stack : Stack) :
    Binds d caller done params stack (d.bindFrom caller done params stack) := by
  fun_induction bindFrom d caller done params stack with
  | case1 done stack =>
    have hbound : Binds d caller done [] stack (.bound (done.reverse ++ []) stack) :=
      .bound (Nat.zero_le _) rfl (by simp)
    rwa [List.append_nil] at hbound
  | case2 done p before =>
    exact .short (Nat.succ_pos _) (by simp [SuitsAt])
  | case3 done p before value stack accepted haccept ih => exact ih.cons haccept
  | case4 done p before value stack hreject =>
    exact .rejected (k := 0) rfl rfl hreject (by simp)

end Definition

-- -----------------------------------------------------------------------
-- Values from the bottom up
-- -----------------------------------------------------------------------

/-- The operator `is` says of the value that it is of this type. -/
def TypeName.Admits (type : TypeName) (value : Token) : Prop :=
  Operator.is.apply [.type type, value] = .next [.bool true]

theorem TypeName.admits_iff {type : TypeName} {value : Token} :
    type.Admits value ↔ (type.accept value).isSome = true := by
  simp [Admits, Operator.apply, Operator.arity, Operator.applyTwo]

theorem TypeName.not_admits_iff {type : TypeName} {value : Token} :
    ¬ type.Admits value ↔ type.accept value = none := by
  rw [admits_iff, Option.not_isSome_iff_eq_none]

namespace Definition

/-- The value for the parameter at an index, among the values of a caller from the
bottom up: the last parameter takes the topmost one. There is none if the values do
not reach that far. -/
def argument? (d : Definition) (values : List Token) (index : Nat) : Option Token :=
  if d.params.length ≤ values.length + index then
    values[values.length + index - d.params.length]?
  else none

/-- The parameter at an index has a value, which is not of its type. -/
structure Rejects (d : Definition) (values : List Token) (index : Nat) (p : Param)
    (value : Token) : Prop where
  param : d.params[index]? = some p
  argument : d.argument? values index = some value
  refused : ¬ p.type.Admits value

variable {d : Definition} {caller : String} {values : List Token} {index k : Nat} {p : Param}
  {value : Token}

theorem getElem?_params_reverse (h : k + index + 1 = d.params.length) :
    d.params.reverse[k]? = d.params[index]? := by
  rw [List.getElem?_reverse (by omega)]
  congr 1
  omega

theorem getElem?_values_reverse (h : k + index + 1 = d.params.length) :
    values.reverse[k]? = d.argument? values index := by
  unfold argument?
  split
  next hle =>
    rw [List.getElem?_reverse (by omega)]
    congr 1
    omega
  next hlt =>
    apply List.getElem?_eq_none
    rw [List.length_reverse]
    omega

/-- The places from the top are the indices in reverse. -/
theorem suitsAt_iff (h : k + index + 1 = d.params.length) :
    SuitsAt d.params.reverse values.reverse k ↔ ∀ p value, ¬ d.Rejects values index p value := by
  unfold SuitsAt
  rw [getElem?_params_reverse h, getElem?_values_reverse h]
  constructor
  · intro hsuits p value hrejects
    exact hrejects.refused (TypeName.admits_iff.mpr (hsuits p value hrejects.param
      hrejects.argument))
  · intro hnone p value hp hvalue
    by_contra hrefused
    exact hnone p value ⟨hp, hvalue, fun hadmits => hrefused (TypeName.admits_iff.mp hadmits)⟩

theorem suitsAt_all_iff : (∀ k, SuitsAt d.params.reverse values.reverse k) ↔
    ∀ index p value, ¬ d.Rejects values index p value := by
  constructor
  · intro hall index p value hrejects
    have hlt : index < d.params.length := (List.getElem?_eq_some_iff.mp hrejects.param).1
    have hplace : d.params.length - (index + 1) + index + 1 = d.params.length := by omega
    exact (suitsAt_iff hplace).mp (hall _) p value hrejects
  · intro hnone k
    by_cases hlt : k < d.params.length
    · have hplace : k + (d.params.length - (k + 1)) + 1 = d.params.length := by omega
      exact (suitsAt_iff hplace).mpr (hnone _)
    · rintro p value hp
      rw [List.getElem?_eq_none (by simpa using hlt)] at hp
      cases hp

-- -----------------------------------------------------------------------
-- The three ways in which binding goes
-- -----------------------------------------------------------------------

/-- How binding can fail, and which values are gone then. -/
theorem bind_failed {stack rest : Stack} {e : Error} (h : d.bind caller stack = .failed e rest) :
    (e = .missingArguments d.name caller d.params.length stack.length ∧
      stack.length < d.params.length ∧ rest = []) ∨
    ∃ index p value taken, e = .argumentType d.name index p.type value ∧
      d.params[index]? = some p ∧ index + taken.length = d.params.length ∧
      taken.getLast? = some value ∧ stack = taken ++ rest := by
  have hbinds := binds_bindFrom d caller [] d.params.reverse stack
  rw [← bind, h] at hbinds
  cases hbinds with
  | short hlt hsuits =>
    rw [List.length_reverse] at hlt
    exact .inl ⟨by rw [List.length_nil, Nat.zero_add], hlt, rfl⟩
  | @rejected k p value hp hvalue =>
    have hk : k < d.params.length := by
      simpa using (List.getElem?_eq_some_iff.mp hp).1
    have hle : k + 1 ≤ stack.length := (List.getElem?_eq_some_iff.mp hvalue).1
    have hplace : k + (d.params.length - (k + 1)) + 1 = d.params.length := by omega
    rw [getElem?_params_reverse hplace] at hp
    refine .inr ⟨_, p, value, stack.take (k + 1), by rw [List.length_reverse], hp, ?_, ?_,
      (List.take_append_drop (k + 1) stack).symm⟩
    · rw [List.length_take_of_le hle]
      omega
    · rw [List.take_add_one, hvalue, Option.toList_some, List.getLast?_concat]

/-- What was bound came from enough values, each of the type of its parameter. -/
theorem of_bind_eq_bound {args rest : Stack}
    (h : d.bind caller values.reverse = .bound args rest) :
    d.params.length ≤ values.length ∧ args.length = d.params.length ∧
      (∀ (index : Nat) (p : Param) (value : Token), d.params[index]? = some p →
        d.argument? values index = some value → args.reverse[index]? = p.type.accept value) ∧
      rest.reverse = values.take (values.length - d.params.length) := by
  have hbinds := binds_bindFrom d caller [] d.params.reverse values.reverse
  rw [← bind, h] at hbinds
  cases hbinds with
  | bound hle hlength hargs =>
    simp only [List.length_reverse] at hle hlength
    refine ⟨hle, hlength, ?_, ?_⟩
    · intro index p value hp hvalue
      have hlt : index < d.params.length := (List.getElem?_eq_some_iff.mp hp).1
      have hplace : d.params.length - (index + 1) + index + 1 = d.params.length := by omega
      rw [← getElem?_params_reverse hplace] at hp
      rw [← getElem?_values_reverse hplace] at hvalue
      rw [← hargs _ p value hp hvalue, List.reverse_nil, List.nil_append,
        List.getElem?_reverse (by omega), hlength]
      congr 1
      omega
    · rw [List.length_reverse, List.drop_reverse, List.reverse_reverse]

/-- The greatest index with a value of the wrong type is the one that binding fails at. -/
theorem bind_of_rejects (h : d.Rejects values index p value)
    (hgreatest : ∀ j q u, index < j → ¬ d.Rejects values j q u) :
    d.bind caller values.reverse = .failed (.argumentType d.name index p.type value)
      (values.take (values.length + index - d.params.length)).reverse := by
  have hlt : index < d.params.length := (List.getElem?_eq_some_iff.mp h.param).1
  have hplace : d.params.length - (index + 1) + index + 1 = d.params.length := by omega
  have hunsuited : ¬ SuitsAt d.params.reverse values.reverse (d.params.length - (index + 1)) :=
    fun hsuits => (suitsAt_iff hplace).mp hsuits p value h
  cases hb : d.bind caller values.reverse with
  | bound args rest =>
    obtain ⟨-, hlength, hargs, -⟩ := of_bind_eq_bound hb
    have hnone := (hargs index p value h.param h.argument).trans
      (TypeName.not_admits_iff.mp h.refused)
    rw [List.getElem?_eq_none_iff, List.length_reverse, hlength] at hnone
    exact absurd hlt (Nat.not_lt.mpr hnone)
  | failed e rest =>
    have hbinds := binds_bindFrom d caller [] d.params.reverse values.reverse
    rw [← bind, hb] at hbinds
    cases hbinds with
    | short hshort hsuits => exact absurd (hsuits _) hunsuited
    | @rejected k q u hq hu hreject habove =>
      have hk : k < d.params.length := by
        simpa using (List.getElem?_eq_some_iff.mp hq).1
      have hplace' : k + (d.params.length - (k + 1)) + 1 = d.params.length := by omega
      rw [getElem?_params_reverse hplace'] at hq
      rw [getElem?_values_reverse hplace'] at hu
      have hle : ¬ index < d.params.length - (k + 1) := fun hlt =>
        hgreatest _ q u hlt ⟨hq, hu, TypeName.not_admits_iff.mpr hreject⟩
      have hge : ¬ d.params.length - (index + 1) < k := fun hlt => hunsuited (habove _ hlt)
      obtain rfl : index = d.params.length - (k + 1) := by omega
      cases hq.symm.trans h.param
      cases hu.symm.trans h.argument
      rw [List.length_reverse, List.drop_reverse]
      congr 3
      omega

/-- If all values that are there are of their types, only their number matters. -/
theorem bind_of_no_rejects (hnone : ∀ index p value, ¬ d.Rejects values index p value) :
    (d.params.length ≤ values.length ∧
      ∃ args rest, d.bind caller values.reverse = .bound args rest) ∨
    (values.length < d.params.length ∧ d.bind caller values.reverse
      = .failed (.missingArguments d.name caller d.params.length values.length) []) := by
  cases hb : d.bind caller values.reverse with
  | bound args rest => exact .inl ⟨(of_bind_eq_bound hb).1, args, rest, rfl⟩
  | failed e rest =>
    have hbinds := binds_bindFrom d caller [] d.params.reverse values.reverse
    rw [← bind, hb] at hbinds
    cases hbinds with
    | short hshort hsuits =>
      simp only [List.length_reverse] at hshort ⊢
      exact .inr ⟨hshort, by rw [List.length_nil, Nat.zero_add]⟩
    | @rejected k q u hq hu hreject habove =>
      have hsuited := suitsAt_all_iff.mpr hnone k q u hq hu
      rw [hreject] at hsuited
      cases hsuited

/-- Binding succeeds exactly if there is a value for each parameter and all are of
their types; it then takes these values, as their types make them, and leaves the
others. If values are of the wrong type, it fails at the one of the greatest index,
whether or not there are enough, and has lost that one and those above it. If none
is, but there are too few, it has lost them all. -/
theorem bind_by_position (d : Definition) (caller : String) (values : List Token) :
    ((∃ args rest, d.bind caller values.reverse = .bound args rest) ↔
      d.params.length ≤ values.length ∧ ∀ (index : Nat) (p : Param) (value : Token),
        d.params[index]? = some p → d.argument? values index = some value →
        p.type.Admits value) ∧
    (∀ args rest, d.bind caller values.reverse = .bound args rest →
      args.length = d.params.length ∧
      (∀ (index : Nat) (p : Param) (value : Token), d.params[index]? = some p →
        d.argument? values index = some value → args.reverse[index]? = p.type.accept value) ∧
      rest.reverse = values.take (values.length - d.params.length)) ∧
    (∀ index p value, d.Rejects values index p value →
      (∀ j q u, index < j → ¬ d.Rejects values j q u) →
      d.bind caller values.reverse = .failed (.argumentType d.name index p.type value)
        (values.take (values.length + index - d.params.length)).reverse) ∧
    (values.length < d.params.length → (∀ index p value, ¬ d.Rejects values index p value) →
      d.bind caller values.reverse
        = .failed (.missingArguments d.name caller d.params.length values.length) []) := by
  refine ⟨⟨?_, ?_⟩, ?_, ?_, ?_⟩
  · rintro ⟨args, rest, hb⟩
    obtain ⟨hle, hlength, hargs, -⟩ := of_bind_eq_bound hb
    refine ⟨hle, ?_⟩
    intro index p value hp hvalue
    have hlt : index < d.params.length := (List.getElem?_eq_some_iff.mp hp).1
    rw [TypeName.admits_iff, ← hargs index p value hp hvalue,
      List.getElem?_eq_getElem (by rwa [List.length_reverse, hlength])]
    rfl
  · rintro ⟨hle, hadmits⟩
    have hnone : ∀ index p value, ¬ d.Rejects values index p value :=
      fun index p value h => h.refused (hadmits index p value h.param h.argument)
    rcases bind_of_no_rejects hnone with ⟨-, hbound⟩ | ⟨hlt, -⟩
    · exact hbound
    · exact absurd hlt (Nat.not_lt.mpr hle)
  · intro args rest hb
    exact (of_bind_eq_bound hb).2
  · intro index p value h hgreatest
    exact bind_of_rejects h hgreatest
  · intro hlt hnone
    rcases bind_of_no_rejects hnone with ⟨hle, -⟩ | ⟨-, hfailed⟩
    · exact absurd hlt (Nat.not_lt.mpr hle)
    · exact hfailed

/-- Of a value that is missing and one of the wrong type over it, the second decides. -/
theorem bind_by_position_of_two_faults :
    bind ⟨"f", [.ofType .num, .ofType .bool, .ofType .bool], #[], ∅⟩ "main" [.bool true, .str "a"]
      = .failed (.argumentType "f" 1 .bool (.str "a")) [] := by
  obtain ⟨-, -, hrejects, -⟩ := bind_by_position
    ⟨"f", [.ofType .num, .ofType .bool, .ofType .bool], #[], ∅⟩ "main" [.str "a", .bool true]
  refine hrejects 1 (.ofType .bool) (.str "a") ⟨rfl, rfl, TypeName.not_admits_iff.mpr rfl⟩ ?_
  intro j q u hj h
  have hlt : j < 3 := (List.getElem?_eq_some_iff.mp h.param).1
  obtain rfl : j = 2 := by omega
  cases h.param
  cases h.argument
  exact h.refused rfl

end Definition

end Wordstack
