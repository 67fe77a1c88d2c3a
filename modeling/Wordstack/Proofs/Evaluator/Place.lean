-- SUMMARY: The machine in the course of an evaluation, and the steps that it takes there.
import Wordstack.Proofs.Code.Place
import Wordstack.Proofs.Evaluator
import Wordstack.Proofs.Machine.Frames
import Wordstack.Proofs.Machine.Reach

/-!
# Evaluation on the machine

While code is evaluated, the machine has a frame for it over frames that wait.
`Machine.place` is that machine, put together from the waiting frames, the frame of
the code, an offset and what the evaluator works on. Returned values have already
reached the frame that they go to. The steps of such a machine lead to machines of
the same form.
-/

namespace Wordstack

namespace Machine

variable {σ : Type}

/-- Puts returned values on the stack that they go to. A frame that returns values
to itself has nothing to hand down. -/
def receive (m : Machine σ) (returnTo : ReturnTo) (values : Stack) : Machine σ :=
  match returnTo with
  | .own => m
  | .root => { m with root := values ++ m.root }
  | .frame index => m.modify index fun f => { f with stack := values ++ f.stack }

/-- The machine on which a frame over `base` runs code, at an offset. -/
def place (base : Machine σ) (f : Frame) (pc : Nat) (s : Local σ) : Machine σ :=
  ({ base with out := s.out }.receive f.returnTo s.returned).withTop (f.goTo pc s.stack)

@[simp] theorem size_receive (m : Machine σ) (returnTo : ReturnTo) (values : Stack) :
    (m.receive returnTo values).frames.size = m.frames.size := by
  cases returnTo with
  | frame index => exact Array.size_modify
  | _ => rfl

@[simp] theorem out_receive (m : Machine σ) (returnTo : ReturnTo) (values : Stack) :
    (m.receive returnTo values).out = m.out := by
  cases returnTo <;> rfl

@[simp] theorem size_place (base : Machine σ) (f : Frame) (pc : Nat) (s : Local σ) :
    (base.place f pc s).frames.size = base.frames.size + 1 := by
  rw [place, frames_withTop, Array.size_push, size_receive]

@[simp] theorem out_place (base : Machine σ) (f : Frame) (pc : Nat) (s : Local σ) :
    (base.place f pc s).out = s.out := by
  rw [place, out_withTop, out_receive]

theorem modify_modify (m : Machine σ) (index : Nat) (first second : Frame → Frame) :
    (m.modify index first).modify index second = m.modify index fun f => second (first f) := by
  have hframes : (m.frames.modify index first).modify index second
      = m.frames.modify index fun f => second (first f) := by
    apply Array.ext_getElem?
    intro i
    simp only [Array.getElem?_modify]
    split
    · rw [Option.map_map]
      rfl
    · rfl
  simp only [modify, hframes]

theorem modify_id (m : Machine σ) (index : Nat) : (m.modify index fun f => f) = m := by
  have hframes : (m.frames.modify index fun f => f) = m.frames := by
    apply Array.ext_getElem?
    intro i
    rw [Array.getElem?_modify]
    split
    · exact congrFun Option.map_id _
    · rfl
  simp only [modify, hframes]

theorem receive_nil (m : Machine σ) (returnTo : ReturnTo) : m.receive returnTo [] = m := by
  cases returnTo with
  | frame index => exact modify_id m index
  | _ => rfl

theorem receive_receive (m : Machine σ) (returnTo : ReturnTo) (first second : Stack) :
    (m.receive returnTo first).receive returnTo second = m.receive returnTo (second ++ first) := by
  cases returnTo with
  | own => rfl
  | root => simp only [receive, List.append_assoc]
  | frame index => simp only [receive, modify_modify, List.append_assoc]

theorem receive_withOut (m : Machine σ) (returnTo : ReturnTo) (values : Stack) (out : σ) :
    { m.receive returnTo values with out } = { m with out }.receive returnTo values := by
  cases returnTo <;> rfl

theorem place_withOut (base : Machine σ) (f : Frame) (pc : Nat) (s : Local σ) (out : σ) :
    { base.place f pc s with out } = base.place f pc { s with out } := by
  simp only [place, ← receive_withOut]
  rfl

theorem receive_withTop_self (m : Machine σ) (f : Frame) (values : Stack) :
    (m.withTop f).receive (.frame m.frames.size) values
      = m.withTop { f with stack := values ++ f.stack } :=
  modify_withTop_self m f _

/-- A frame that starts has returned nothing yet. -/
theorem withTop_eq_place (m : Machine σ) (f : Frame) :
    m.withTop f = m.place f f.pc { stack := f.stack, returned := [], out := m.out } := by
  rw [place, receive_nil]
  rfl

end Machine

-- -----------------------------------------------------------------------
-- Frames and scopes
-- -----------------------------------------------------------------------

namespace Frame

/-- The scope of the code of a frame over a number of others. -/
def scope (f : Frame) (below : Nat) : Scope :=
  { function := f.func.name, caller := f.callerBlock, ownCaller := decide (f.returnTo = .own),
    live := below + 1 }

theorem function_scope (f : Frame) (below : Nat) : (f.scope below).function = f.func.name := rfl

/-- The frame finds below it and in the program what it refers to. -/
structure Fits (p : Program) (below : Nat) (f : Frame) : Prop where
  target : ∀ index, f.returnTo = .frame index → index < below
  block : p.blocks.contains f.func.name = true
  callerBlock : p.blocks.contains f.callerBlock = true

variable {p : Program} {below : Nat} {f : Frame}

theorem scope_branchFrame (f : Frame) (below start stop : Nat) :
    (f.branchFrame below start stop).scope (below + 1) = (f.scope below).branch := by
  have hown : (f.branchFrame below start stop).returnTo ≠ .own := branchReturn_ne_own
  simp only [scope, hown, decide_false]
  rfl

theorem Fits.branchFrame (h : f.Fits p below) (start stop : Nat) :
    (f.branchFrame below start stop).Fits p (below + 1) := by
  refine ⟨?_, h.block, h.callerBlock⟩
  intro index hindex
  change f.branchReturn below = .frame index at hindex
  rw [branchReturn_eq] at hindex
  split at hindex
  next =>
    cases hindex
    exact Nat.lt_succ_self _
  next => exact Nat.lt_succ_of_lt (h.target index hindex)

theorem Fits.callFrame (h : f.Fits p below) {d : Definition} (hd : p.blocks.contains d.name = true)
    (args : Stack) :
    (Machine.callFrame d args (.frame below) f.func.name).Fits p (below + 1) := by
  refine ⟨?_, hd, h.block⟩
  rintro index ⟨rfl⟩
  exact Nat.lt_succ_self _

theorem Fits.missingBlock? (h : f.Fits p below) {d : Definition}
    (hd : p.blocks.contains d.name = true) :
    Machine.missingBlock? p [d.name, f.func.name] = none := by
  simp [Machine.missingBlock?, hd, h.block]

theorem move_op (p : Program) (below pc : Nat) (stack : Stack) (op : Operator) :
    (f.goTo pc stack).move p below (.op op) = match op.apply stack with
      | .next stack => .go (f.goTo (pc + 1) stack)
      | .fail e stack => .fail (f.goTo (pc + 1) stack) e
      | .ret value stack => .ret (f.goTo (pc + 1) stack) value
      | .print line stack => .print (f.goTo (pc + 1) stack) line := rfl

/-- A call binds its arguments off the caller's stack and starts a frame on them. -/
theorem Fits.move_call (h : f.Fits p below) {token : Token} {d : Definition}
    (hcalled : token.called? p = some d) (hd : p.blocks.contains d.name = true) (pc : Nat)
    (stack : Stack) :
    (f.goTo pc stack).move p below token = match d.bind f.func.name stack with
      | .failed e rest => .fail (f.goTo (pc + 1) rest) e
      | .bound args rest =>
        .start (f.goTo (pc + 1) rest) (Machine.callFrame d args (.frame below) f.func.name) := by
  cases token with
  | ident name =>
    have hname : p.functions[name]? = some d := hcalled
    have hblock : Machine.missingBlock? p [d.name, (f.goTo pc stack).func.name] = none :=
      h.missingBlock? hd
    simp only [move, moveIdent, hname, moveCall, hblock]
    rfl
  | _ => cases hcalled

theorem move_conditional (p : Program) (below : Nat) (word : Conditional) {pc endAt : Nat}
    {elseAt : Option Nat} (hjump : f.func.jumps[pc]? = some (.branch elseAt endAt))
    (stack : Stack) :
    (f.goTo pc stack).move p below (.keyword word.keyword) = match stack with
      | [] => .fail (f.goTo (pc + 1) []) (.noCondition f.func.name word.keyword)
      | condition :: stack =>
        let f' := f.goTo (endAt + 1) stack
        if condition = .bool true then
          .start f' (f'.branchFrame below (pc + 1) (elseAt.getD endAt))
        else
          elseAt.elim (.go f') fun elseAt =>
            .start f' (f'.branchFrame below (elseAt + 1) endAt) := by
  have hgo : (f.goTo pc stack).func.jumps[(f.goTo pc stack).pc]? = some (.branch elseAt endAt) :=
    hjump
  have hmove : (f.goTo pc stack).move p below (.keyword word.keyword)
      = (f.goTo pc stack).moveIf below word.keyword := by
    cases word <;> rfl
  rw [hmove]
  simp only [moveIf, hgo]
  cases stack with
  | nil => rfl
  | cons condition stack => cases elseAt <;> rfl

theorem move_do (p : Program) (below : Nat) {pc endAt : Nat}
    (hjump : f.func.jumps[pc]? = some (.exit endAt)) (stack : Stack) :
    (f.goTo pc stack).move p below (.keyword .do_) = match stack with
      | [] => .fail (f.goTo (pc + 1) []) (.noCondition f.func.name .do_)
      | condition :: stack =>
        .go (f.goTo (if condition = .bool true then pc + 1 else endAt + 1) stack) := by
  have hgo : (f.goTo pc stack).func.jumps[(f.goTo pc stack).pc]? = some (.exit endAt) := hjump
  simp only [move, moveDo, hgo]
  cases stack <;> rfl

theorem move_again (p : Program) (below : Nat) {pc whileAt : Nat}
    (hjump : f.func.jumps[pc]? = some (.back whileAt)) (stack : Stack) :
    (f.goTo pc stack).move p below (.keyword .end_) = .go (f.goTo (whileAt + 1) stack) := by
  have hgo : (f.goTo pc stack).func.jumps[(f.goTo pc stack).pc]? = some (.back whileAt) := hjump
  simp only [move, moveEnd, hgo]
  rfl

end Frame

theorem Program.block_of_contains {p : Program} {name : String}
    (h : p.blocks.contains name = true) :
    ∃ values, p.blocks[name]? = some values ∧ p.block name = .ok values := by
  obtain ⟨values, hvalues⟩ := Option.isSome_iff_exists.mp
    ((Std.ExtTreeMap.contains_eq_isSome_getElem?).symm.trans h)
  exact ⟨values, hvalues, by rw [block, hvalues]⟩

theorem Frame.Fits.lookup {p : Program} {below : Nat} {f : Frame} (h : f.Fits p below)
    (name : String) : Machine.lookup p f name = .ok ((f.scope below).valueOf? p name) := by
  obtain ⟨own, hown, hownBlock⟩ := Program.block_of_contains h.block
  obtain ⟨outer, houter, houterBlock⟩ := Program.block_of_contains h.callerBlock
  simp only [Machine.lookup, hownBlock, houterBlock, Scope.valueOf?, scope, hown, houter,
    Option.bind_some, bind, Except.bind]
  cases own[name]? with
  | none => rfl
  | some value => rfl

-- -----------------------------------------------------------------------
-- Steps
-- -----------------------------------------------------------------------

namespace Machine

variable {σ : Type} {ctx : Context σ} {base : Machine σ} {f : Frame} {pc : Nat} {s : Local σ}
  {token : Token}

/-- The step does what an answer says: it leads to the machine for the answer's value,
or it fails. -/
def Steps (ctx : Context σ) (m : Machine σ) (next : Local σ → Machine σ) :
    Answer σ (Local σ) → Prop
  | .done s => m.step ctx = (next s, .running)
  | .failed e out => ∃ m', m.step ctx = (m', .failed e) ∧ m'.out = out

theorem deliver_withTop (m : Machine σ) (f : Frame) (value : Token) :
    (m.withTop f).deliver m.frames.size value
      = (m.withTop f).receive (f.branchReturn m.frames.size) [value] := by
  simp only [deliver, Frame.branchReturn, getElem?_withTop_self]
  cases f.returnTo <;> rfl

/-- Values that the innermost frame hands on arrive where its scope returns them to. -/
theorem receive_place {p : Program} (h : f.Fits p base.frames.size) (values : Stack) :
    (base.place f pc s).receive (f.branchReturn base.frames.size) values
      = base.place f pc ((f.scope base.frames.size).give values s) := by
  cases hreturn : f.returnTo with
  | own =>
    simp only [Frame.branchReturn, Scope.give, Frame.scope, place, hreturn, decide_true, if_true]
    exact receive_withTop_self { base with out := s.out } _ values
  | root =>
    simp only [Frame.branchReturn, Scope.give, Frame.scope, place, hreturn, reduceCtorEq,
      decide_false, Bool.false_eq_true, if_false]
    rw [← receive_receive]
    rfl
  | frame index =>
    have hlt : index
        < ({ base with out := s.out }.receive (.frame index) s.returned).frames.size := by
      rw [size_receive]
      exact h.target index hreturn
    simp only [Frame.branchReturn, Scope.give, Frame.scope, place, hreturn, reduceCtorEq,
      decide_false, Bool.false_eq_true, if_false]
    rw [← receive_receive]
    exact modify_withTop_of_lt hlt

/-- Values that a callee returned lie on the stack of its caller. -/
theorem receive_place_self (base : Machine σ) (f : Frame) (pc : Nat) (s : Local σ)
    (values : Stack) :
    (base.place f pc s).receive (.frame base.frames.size) values
      = base.place f pc { s with stack := values ++ s.stack } := by
  have h := receive_withTop_self ({ base with out := s.out }.receive f.returnTo s.returned)
    (f.goTo pc s.stack) values
  rw [size_receive] at h
  exact h

theorem step_place (htoken : f.func.body[pc]? = some token) (hlt : pc < f.stop) :
    (base.place f pc s).step ctx
      = ({ base with out := s.out }.receive f.returnTo s.returned).perform ctx
          ((f.goTo pc s.stack).move ctx.program base.frames.size token) := by
  have hnext : (f.goTo pc s.stack).next? = some token := by
    simp only [Frame.next?, Frame.goTo, if_pos hlt, htoken]
  rw [place, step_withTop, hnext, size_receive]

theorem step_go {pc' : Nat} {stack : Stack} (htoken : f.func.body[pc]? = some token)
    (hlt : pc < f.stop)
    (hmove : (f.goTo pc s.stack).move ctx.program base.frames.size token
      = .go (f.goTo pc' stack)) :
    (base.place f pc s).step ctx = (base.place f pc' { s with stack }, .running) := by
  rw [step_place htoken hlt, hmove]
  rfl

theorem step_fail {e : Error} {f' : Frame} (htoken : f.func.body[pc]? = some token)
    (hlt : pc < f.stop)
    (hmove : (f.goTo pc s.stack).move ctx.program base.frames.size token = .fail f' e) :
    ∃ m', (base.place f pc s).step ctx = (m', .failed e) ∧ m'.out = s.out := by
  rw [step_place htoken hlt, hmove]
  exact ⟨_, rfl, out_receive _ _ _⟩

/-- A call or a branch starts on a stack of its own, if it may. -/
theorem step_start {pc' : Nat} {stack : Stack} {g : Frame}
    (htoken : f.func.body[pc]? = some token) (hlt : pc < f.stop)
    (hmove : (f.goTo pc s.stack).move ctx.program base.frames.size token
      = .start (f.goTo pc' stack) g) :
    (base.place f pc s).step ctx =
      if (f.scope base.frames.size).live < ctx.maxFrames then
        ((base.place f pc' { s with stack }).place g g.pc
          { stack := g.stack, returned := [], out := s.out }, .running)
      else (base.place f pc' { s with stack }, .failed (.frameLimit ctx.maxFrames)) := by
  rw [step_place htoken hlt, hmove]
  change (base.place f pc' { s with stack }).push ctx.maxFrames g = _
  rw [push_eq, withTop_eq_place, size_place, out_place]
  rfl

/-- A call or a branch that has come to its end leaves what it returned. -/
theorem step_finish (m : Machine σ) {g : Frame} (t : Local σ)
    (hinner : g.kind = .branch ∨ ∃ index, g.returnTo = .frame index) :
    (m.place g g.stop t).step ctx
      = ({ m with out := t.out }.receive g.returnTo t.returned, .running) := by
  have hnext : (g.goTo g.stop t.stack).next? = none := if_neg (Nat.lt_irrefl g.stop)
  rw [place, step_withTop, hnext]
  simp only [finish, frames_withTop, Array.back?_push, Array.pop_push, Frame.goTo]
  rcases hinner with hkind | ⟨index, hreturn⟩
  · rw [hkind]
    rfl
  · rw [hreturn]
    cases g.kind <;> rfl

theorem steps_operator {op : Operator} (hfits : f.Fits ctx.program base.frames.size)
    (htoken : f.func.body[pc]? = some (.op op)) (hlt : pc < f.stop) :
    (base.place f pc s).Steps ctx (base.place f (pc + 1))
      ((op.apply s.stack).answer ctx (f.scope base.frames.size) s) := by
  have hmove : (f.goTo pc s.stack).move ctx.program base.frames.size (.op op) = _ :=
    Frame.move_op ..
  generalize op.apply s.stack = effect at hmove ⊢
  cases effect with
  | next stack => exact step_go htoken hlt hmove
  | fail e stack => exact step_fail htoken hlt hmove
  | ret value stack =>
    have hgive : (base.place f (pc + 1) { s with stack }).receive
        (f.branchReturn base.frames.size) [value] = _ := receive_place hfits [value]
    simp only [Effect.answer, Steps]
    rw [step_place htoken hlt, hmove, ← hgive]
    simp only [perform]
    rw [deliver_withTop, size_receive]
    rfl
  | print line stack =>
    simp only [Effect.answer]
    rw [Steps.eq_def, step_place htoken hlt, hmove, perform, out_receive]
    cases ctx.sink.write s.out line with
    | mk out refusal =>
      cases refusal with
      | none =>
        have hout := place_withOut base f (pc + 1) { s with stack } out
        exact congrArg (·, Signal.running) hout
      | some reason => exact ⟨_, rfl, rfl⟩

/-- A token that calls no function does what the evaluator says. -/
theorem steps_plain (hfits : f.Fits ctx.program base.frames.size)
    (htoken : f.func.body[pc]? = some token) (hlt : pc < f.stop) (hplain : token.isPlain = true)
    (hcalled : token.called? ctx.program = none) :
    (base.place f pc s).Steps ctx (base.place f (pc + 1))
      (token.answer ctx (f.scope base.frames.size) s) := by
  cases token with
  | op op => exact steps_operator hfits htoken hlt
  | ident name =>
    have hnone : ctx.program.functions[name]? = none := hcalled
    have hlookup : lookup ctx.program (f.goTo pc s.stack) name
        = .ok ((f.scope base.frames.size).valueOf? ctx.program name) := hfits.lookup name
    simp only [Token.answer]
    generalize (f.scope base.frames.size).valueOf? ctx.program name = value? at hlookup ⊢
    cases value? with
    | none =>
      refine step_go htoken hlt ?_
      simp only [Frame.move, Frame.moveIdent, hnone, hlookup]
      rfl
    | some value =>
      refine step_go htoken hlt ?_
      simp only [Frame.move, Frame.moveIdent, hnone, hlookup]
      rfl
  | keyword k =>
    cases k with
    | fun_ => exact step_go htoken hlt rfl
    | as_ => exact step_go htoken hlt rfl
    | _ => cases hplain
  | _ => exact step_go htoken hlt rfl

/-- A callee that has come to its end goes back to its caller. -/
theorem step_return (base : Machine σ) (f : Frame) (pc : Nat) (s t : Local σ) {g : Frame}
    (hreturn : g.returnTo = .frame base.frames.size) :
    ((base.place f pc s).place g g.stop t).step ctx
      = (base.place f pc { s with stack := t.returned ++ s.stack, out := t.out }, .running) := by
  rw [step_finish _ t (.inr ⟨_, hreturn⟩), place_withOut, hreturn, receive_place_self]

/-- A branch that has come to its end goes back to the frame that it is in. -/
theorem step_rejoin {p : Program} (h : f.Fits p base.frames.size) (pc : Nat) (s t : Local σ)
    {g : Frame} (hkind : g.kind = .branch)
    (hreturn : g.returnTo = f.branchReturn base.frames.size) :
    ((base.place f pc s).place g g.stop t).step ctx
      = (base.place f pc ((f.scope base.frames.size).give t.returned { s with out := t.out }),
          .running) := by
  rw [step_finish _ t (.inl hkind), place_withOut, hreturn, receive_place h]

end Machine

end Wordstack
