-- SUMMARY: How the frames of a visited machine hang together, and that steps stay within bodies and frames.
import Wordstack.Proofs.Code.Place
import Wordstack.Proofs.Machine.Reach
import Wordstack.Proofs.Source

/-!
# The shape of visited machines

Three things hold of the frames of a running machine: there are not more of them
than allowed, each hangs together with the one below it, and each stands at an
offset inside the code that it runs. The last is what keeps a run within its
bodies, and away from the `else` and the `end` of a conditional.
-/

namespace Wordstack

/-- All functions have the jumps of their bodies. -/
def Program.Indexed (p : Program) : Prop :=
  ∀ (name : String) (d : Definition), p.functions[name]? = some d → d.Indexed

theorem Definition.Consists.indexed {d : Definition} {name : String} {params : List Param}
    {body : List Token} (h : d.Consists name params body) : d.Indexed := by
  unfold Indexed
  rw [h.name_eq, h.body_eq]
  exact h.jumps_eq

theorem Program.Describes.indexed {p : Program} {items : List Item} {version : String}
    (h : p.Describes items version) : p.Indexed := by
  intro name d hd
  obtain ⟨params, body, hconsists⟩ := h.consists hd
  exact hconsists.indexed

theorem Program.indexed_of_ofSource {source version : String} {p : Program}
    (h : ofSource source version = .ok p) : p.Indexed := by
  obtain ⟨items, hsplits⟩ := splits_of_ofSource h
  exact (describes_of_ofSource h hsplits).indexed

namespace Frame

/-- What a frame keeps as long as it lives. -/
def fixed (f : Frame) : Frame := { f with pc := 0, stack := [] }

/-- The frame is one of a call, or of a branch, that was started by the frame at an
index. -/
def HangsOn (f : Frame) (index : Nat) (parent : Frame) : Prop :=
  (f.kind = .call ∧ f.returnTo = .frame index) ∨
  (f.kind = .branch ∧ f.func = parent.func ∧ f.callerBlock = parent.callerBlock ∧
    f.returnTo = parent.branchReturn index)

/-- The frame is one of a call at top level. -/
def IsBottom (f : Frame) : Prop :=
  f.kind = .call ∧ (f.returnTo = .own ∨ f.returnTo = .root)

/-- The frame stands at an offset inside the code of a registered function that it
runs. -/
structure Standing (p : Program) (f : Frame) : Prop where
  registered : ∃ name : String, p.functions[name]? = some f.func
  stop_le : f.stop ≤ f.func.body.size
  call_stop : f.kind = .call → f.stop = f.func.body.size
  inside : ∃ start code, f.func.Installed start code ∧ f.stop = start + code.size ∧
    code.Inside f.pc start

/-- The offsets of the frame lie within its body. -/
structure Bounded (f : Frame) : Prop where
  pc_le : f.pc ≤ f.stop
  stop_le : f.stop ≤ f.func.body.size
  call_stop : f.kind = .call → f.stop = f.func.body.size

theorem branchReturn_ne_own {f : Frame} {index : Nat} : f.branchReturn index ≠ .own := by
  unfold branchReturn
  split
  · nofun
  next h => exact h

theorem branchReturn_of_ne_own {f : Frame} {index : Nat} (h : f.returnTo ≠ .own) :
    f.branchReturn index = f.returnTo := by
  unfold branchReturn
  split
  next hown => exact absurd hown h
  next => rfl

theorem branchReturn_eq (f : Frame) (index : Nat) :
    f.branchReturn index = if f.returnTo = .own then .frame index else f.returnTo := by
  split
  next h => simp only [branchReturn, h]
  next h => exact branchReturn_of_ne_own h

theorem HangsOn.congr {f g parent parent' : Frame} {index : Nat} (h : f.HangsOn index parent)
    (hf : g.fixed = f.fixed) (hparent : parent'.fixed = parent.fixed) :
    g.HangsOn index parent' := by
  simp only [fixed, Frame.mk.injEq] at hf hparent
  obtain ⟨hkind, hfunc, -, -, -, hreturn, hcaller⟩ := hf
  obtain ⟨-, hfunc', -, -, -, hreturn', hcaller'⟩ := hparent
  unfold HangsOn branchReturn at *
  rw [hkind, hfunc, hreturn, hcaller, hfunc', hreturn', hcaller']
  exact h

theorem IsBottom.congr {f g : Frame} (h : f.IsBottom) (hf : g.fixed = f.fixed) : g.IsBottom := by
  simp only [fixed, Frame.mk.injEq] at hf
  obtain ⟨hkind, -, -, -, -, hreturn, -⟩ := hf
  unfold IsBottom
  rw [hkind, hreturn]
  exact h

theorem Standing.bounded {p : Program} {f : Frame} (h : f.Standing p) : f.Bounded := by
  obtain ⟨start, code, -, hstop, hinside⟩ := h.inside
  exact ⟨by have := hinside.range; omega, h.stop_le, h.call_stop⟩

theorem Standing.withStack {p : Program} {f : Frame} (h : f.Standing p) (stack : Stack) :
    ({ f with stack } : Frame).Standing p :=
  ⟨h.registered, h.stop_le, h.call_stop, h.inside⟩

/-- What the frame stands at. -/
theorem Standing.spot {p : Program} {f : Frame} (h : f.Standing p) (hlt : f.pc < f.stop) :
    Spot f.func f.pc fun pos => ∀ stack, (f.goTo pos stack).Standing p := by
  obtain ⟨start, code, hinstalled, hstop, hinside⟩ := h.inside
  refine (hinside.spot hinstalled (hstop ▸ hlt)).mono ?_
  intro pos hpos stack
  exact ⟨h.registered, h.stop_le, h.call_stop, start, code, hinstalled, hstop, hpos⟩

theorem next?_eq_some {f : Frame} {token : Token} (h : f.next? = some token) :
    f.pc < f.stop ∧ f.func.body[f.pc]? = some token := by
  simp only [next?] at h
  split at h
  next hlt => exact ⟨hlt, h⟩
  next => cases h

/-- A call of a registered function stands at the start of its body. -/
theorem standing_callFrame {p : Program} (hp : p.Indexed) {name : String} {d : Definition}
    (hd : p.functions[name]? = some d) (args : Stack) (returnTo : ReturnTo)
    (callerBlock : String) : (Machine.callFrame d args returnTo callerBlock).Standing p := by
  obtain ⟨code, hcode, hinstalled⟩ := (hp name d hd).installed
  have hsize : d.body.size = 0 + code.size := by
    rw [Nat.zero_add, Code.size, hcode, Array.length_toList]
  exact ⟨⟨name, hd⟩, Nat.le_refl _, fun _ => rfl, 0, code, hinstalled, hsize,
    Code.Inside.start_self code 0⟩

end Frame

-- -----------------------------------------------------------------------
-- Moves of a frame that stands inside its code
-- -----------------------------------------------------------------------

/-- What a move of the frame at an index can be: the frame stays the one it was,
only further on, and unless it fails it stands inside its code again. -/
inductive Move.Follows (p : Program) (index : Nat) (f : Frame) : Move → Prop where
  | go {pc : Nat} {stack : Stack} (h : (f.goTo pc stack).Standing p) :
      Follows p index f (.go (f.goTo pc stack))
  | start {pc : Nat} {stack : Stack} {g : Frame} (h : (f.goTo pc stack).Standing p)
      (hg : g.Standing p) (hon : g.HangsOn index f) :
      Follows p index f (.start (f.goTo pc stack) g)
  | ret {pc : Nat} {stack : Stack} {value : Token} (h : (f.goTo pc stack).Standing p) :
      Follows p index f (.ret (f.goTo pc stack) value)
  | print {pc : Nat} {stack : Stack} {line : String} (h : (f.goTo pc stack).Standing p) :
      Follows p index f (.print (f.goTo pc stack) line)
  | fail {stack : Stack} {error : Error} :
      Follows p index f (.fail (f.goTo (f.pc + 1) stack) error)

namespace Frame

variable {p : Program} {f : Frame} {index : Nat}

theorem follows_moveOperator (hnext : ∀ stack, (f.goTo (f.pc + 1) stack).Standing p)
    (op : Operator) : (f.moveOperator op).Follows p index f := by
  unfold moveOperator
  cases op.apply f.stack with
  | next stack => exact .go (hnext stack)
  | fail e stack => exact .fail
  | ret value stack => exact .ret (hnext stack)
  | print line stack => exact .print (hnext stack)

theorem follows_moveIdent (hp : p.Indexed)
    (hnext : ∀ stack, (f.goTo (f.pc + 1) stack).Standing p) (name : String) :
    (f.moveIdent p index name).Follows p index f := by
  unfold moveIdent
  cases hd : p.functions[name]? with
  | some d =>
    simp only [moveCall]
    cases Machine.missingBlock? p [d.name, f.func.name] with
    | some e => exact .fail
    | none =>
      cases d.bind f.func.name f.stack with
      | failed e rest => exact .fail
      | bound args rest =>
        exact .start (hnext rest) (standing_callFrame hp hd _ _ _) (.inl ⟨rfl, rfl⟩)
  | none =>
    cases Machine.lookup p f name with
    | error e => exact .fail
    | ok value =>
      cases value with
      | none => exact .go (hnext _)
      | some value => exact .go (hnext _)

/-- A side of a conditional stands at its start. -/
theorem Standing.branchFrame {start stop : Nat} {code : Code} (h : f.Standing p)
    (hcode : f.func.Installed start code) (hstop : stop = start + code.size)
    (hle : stop ≤ f.stop) : (f.branchFrame index start stop).Standing p :=
  ⟨h.registered, Nat.le_trans hle h.stop_le, nofun, start, code, hcode, hstop,
    Code.Inside.start_self code start⟩

theorem follows_moveIf {elseAt : Option Nat} {endAt : Nat} {yes : Code}
    (hjump : f.func.jumps[f.pc]? = some (.branch elseAt endAt))
    (hnext : ∀ stack, (f.goTo (endAt + 1) stack).Standing p)
    (hyes : f.func.Installed (f.pc + 1) yes) (hyesEnd : elseAt.getD endAt = f.pc + 1 + yes.size)
    (hno : ∀ pos, elseAt = some pos →
      ∃ no : Code, f.func.Installed (pos + 1) no ∧ endAt = pos + 1 + no.size)
    (keyword : Keyword) : (f.moveIf index keyword).Follows p index f := by
  simp only [moveIf, hjump]
  cases f.stack with
  | nil => exact .fail
  | cons condition stack =>
    have hend : endAt < f.stop := (hnext stack).bounded.pc_le
    by_cases hcondition : condition = .bool true
    · simp only [if_pos hcondition]
      have hle : elseAt.getD endAt ≤ f.stop := by
        cases elseAt with
        | none => exact Nat.le_of_lt hend
        | some pos =>
          obtain ⟨no, -, hsize⟩ := hno pos rfl
          simp only [Option.getD_some]
          omega
      exact .start (hnext stack) ((hnext stack).branchFrame hyes hyesEnd hle)
        (.inr ⟨rfl, rfl, rfl, rfl⟩)
    · simp only [if_neg hcondition]
      cases elseAt with
      | none => exact .go (hnext stack)
      | some pos =>
        obtain ⟨no, hinstalled, hsize⟩ := hno pos rfl
        exact .start (hnext stack) ((hnext stack).branchFrame hinstalled hsize (Nat.le_of_lt hend))
          (.inr ⟨rfl, rfl, rfl, rfl⟩)

theorem follows_moveDo {endAt : Nat} (hjump : f.func.jumps[f.pc]? = some (.exit endAt))
    (hnext : ∀ stack, (f.goTo (f.pc + 1) stack).Standing p)
    (hleave : ∀ stack, (f.goTo (endAt + 1) stack).Standing p) :
    f.moveDo.Follows p index f := by
  simp only [moveDo, hjump]
  cases f.stack with
  | nil => exact .fail
  | cons condition stack =>
    by_cases hcondition : condition = .bool true
    · simp only [if_pos hcondition]
      exact .go (hnext stack)
    · simp only [if_neg hcondition]
      exact .go (hleave stack)

/-- Running a plain token leads to the one after it. -/
theorem follows_plain (hp : p.Indexed) {token : Token} (hplain : token.isPlain = true)
    (hnext : ∀ stack, (f.goTo (f.pc + 1) stack).Standing p) :
    (f.move p index token).Follows p index f := by
  cases token with
  | op op => exact follows_moveOperator hnext op
  | ident name => exact follows_moveIdent hp hnext name
  | keyword k =>
    cases k with
    | fun_ => exact .go (hnext _)
    | as_ => exact .go (hnext _)
    | _ => nomatch hplain
  | _ => exact .go (hnext _)

theorem Standing.follows (hp : p.Indexed) (h : f.Standing p) {token : Token}
    (hnext : f.next? = some token) : (f.move p index token).Follows p index f := by
  obtain ⟨hlt, hbody⟩ := next?_eq_some hnext
  cases h.spot hlt with
  | plain htoken hplain hto =>
    obtain rfl : _ = token := Option.some.inj (htoken.symm.trans hbody)
    exact follows_plain hp hplain hto
  | @conditional word _ _ _ htoken hjump hto hyes hyesEnd hno =>
    obtain rfl : _ = token := Option.some.inj (htoken.symm.trans hbody)
    cases word <;> exact follows_moveIf hjump hto hyes hyesEnd hno _
  | while_ htoken hto =>
    obtain rfl : _ = token := Option.some.inj (htoken.symm.trans hbody)
    exact .go (hto _)
  | do_ htoken hjump hto hleave =>
    obtain rfl : _ = token := Option.some.inj (htoken.symm.trans hbody)
    exact follows_moveDo hjump hto hleave
  | again htoken hjump hback =>
    obtain rfl : _ = token := Option.some.inj (htoken.symm.trans hbody)
    simp only [move, moveEnd, hjump]
    exact .go (hback _)

end Frame

end Wordstack
