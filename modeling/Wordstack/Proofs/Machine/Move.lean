-- SUMMARY: What a step does: a move that the program and the innermost frame decide, carried out on the machine.
import Wordstack.Machine.Step

/-!
# Moves

A machine that is not done is a machine with one more frame over it. What its next
step does is decided by the program and that innermost frame alone: `Frame.move`
says which move it is, and `Machine.perform` carries the move out. The frames
below, the root stack, the sink and the limit on frames take part in the second
only.
-/

namespace Wordstack

/-- What running a token comes to. The first frame of each move takes the place of
the innermost one. -/
inductive Move where
  | go (f : Frame)
  /-- A second frame starts over the first. -/
  | start (f g : Frame)
  /-- The frame returns a value. -/
  | ret (f : Frame) (value : Token)
  | print (f : Frame) (line : String)
  | fail (f : Frame) (error : Error)

namespace Frame

/-- The frame further on, with another stack. -/
def goTo (f : Frame) (pc : Nat) (stack : Stack) : Frame := { f with pc, stack }

/-- The frame of a side of an `if` in the frame at an index. -/
def branchFrame (f : Frame) (index start stop : Nat) : Frame :=
  { f with kind := .branch, pc := start, stop, returnTo := f.branchReturn index }

def moveOperator (f : Frame) (op : Operator) : Move :=
  match op.apply f.stack with
  | .next stack => .go (f.goTo (f.pc + 1) stack)
  | .fail e stack => .fail (f.goTo (f.pc + 1) stack) e
  | .ret value stack => .ret (f.goTo (f.pc + 1) stack) value
  | .print line stack => .print (f.goTo (f.pc + 1) stack) line

def moveCall (program : Program) (index : Nat) (f : Frame) (d : Definition) : Move :=
  match Machine.missingBlock? program [d.name, f.func.name] with
  | some e => .fail (f.goTo (f.pc + 1) f.stack) e
  | none =>
    match d.bind f.func.name f.stack with
    | .failed e rest => .fail (f.goTo (f.pc + 1) rest) e
    | .bound args rest =>
      .start (f.goTo (f.pc + 1) rest) (Machine.callFrame d args (.frame index) f.func.name)

def moveIdent (program : Program) (index : Nat) (f : Frame) (name : String) : Move :=
  match program.functions[name]? with
  | some d => f.moveCall program index d
  | none =>
    match Machine.lookup program f name with
    | .ok (some value) => .go (f.goTo (f.pc + 1) (value :: f.stack))
    | .ok none => .go (f.goTo (f.pc + 1) f.stack)
    | .error e => .fail (f.goTo (f.pc + 1) f.stack) e

def moveIf (index : Nat) (f : Frame) (keyword : Keyword) : Move :=
  match f.func.jumps[f.pc]? with
  | some (.branch elseAt endAt) =>
    match f.stack with
    | [] => .fail (f.goTo (f.pc + 1) f.stack) (.noCondition f.func.name keyword)
    | condition :: stack =>
      let f' := f.goTo (endAt + 1) stack
      if condition = .bool true then
        .start f' (f'.branchFrame index (f.pc + 1) (elseAt.getD endAt))
      else
        match elseAt with
        | some elseAt => .start f' (f'.branchFrame index (elseAt + 1) endAt)
        | none => .go f'
  | _ => .fail (f.goTo (f.pc + 1) f.stack) (.missingEnd f.func.name)

def moveDo (f : Frame) : Move :=
  match f.func.jumps[f.pc]? with
  | some (.exit endAt) =>
    match f.stack with
    | [] => .fail (f.goTo (f.pc + 1) f.stack) (.noCondition f.func.name .do_)
    | condition :: stack =>
      .go (f.goTo (if condition = .bool true then f.pc + 1 else endAt + 1) stack)
  | _ => .fail (f.goTo (f.pc + 1) f.stack) (.unexpectedKeyword f.func.name .do_)

def moveEnd (f : Frame) : Move :=
  match f.func.jumps[f.pc]? with
  | some (.back whileAt) => .go (f.goTo (whileAt + 1) f.stack)
  | _ => .go (f.goTo (f.pc + 1) f.stack)

/-- The move that running a token in the frame at an index comes to. -/
def move (program : Program) (index : Nat) (f : Frame) (token : Token) : Move :=
  match token with
  | .op op => f.moveOperator op
  | .ident name => f.moveIdent program index name
  | .keyword .if_ => f.moveIf index .if_
  | .keyword .iff => f.moveIf index .iff
  | .keyword .do_ => f.moveDo
  | .keyword .end_ => f.moveEnd
  | .keyword .while_ | .keyword .else_ => .go (f.goTo (f.pc + 1) f.stack)
  | value => .go (f.goTo (f.pc + 1) (value :: f.stack))

/-- The frames that can start over the frame `parent` at an index: of a registered
function that the one of `parent` calls, or of a side of a conditional. -/
inductive Starts (program : Program) (index : Nat) (parent : Frame) : Frame → Prop where
  | call {name : String} {d : Definition} (args : Stack) (h : program.functions[name]? = some d) :
      Starts program index parent (Machine.callFrame d args (.frame index) parent.func.name)
  | branch (pc : Nat) (stack : Stack) (start stop : Nat) :
      Starts program index parent ((parent.goTo pc stack).branchFrame index start stop)

end Frame

/-- What a move of the frame `f` at an index can be: the frame goes on, and another may
start over it. -/
inductive Move.Issues (program : Program) (index : Nat) (f : Frame) : Move → Prop where
  | go (pc : Nat) (stack : Stack) : Issues program index f (.go (f.goTo pc stack))
  | start (pc : Nat) (stack : Stack) {g : Frame} (h : f.Starts program index g) :
      Issues program index f (.start (f.goTo pc stack) g)
  | ret (pc : Nat) (stack : Stack) (value : Token) :
      Issues program index f (.ret (f.goTo pc stack) value)
  | print (pc : Nat) (stack : Stack) (line : String) :
      Issues program index f (.print (f.goTo pc stack) line)
  | fail (pc : Nat) (stack : Stack) (error : Error) :
      Issues program index f (.fail (f.goTo pc stack) error)

namespace Frame

variable (program : Program) (index : Nat) (f : Frame)

theorem issues_moveOperator (op : Operator) : (f.moveOperator op).Issues program index f := by
  unfold moveOperator
  cases op.apply f.stack with
  | next stack => exact .go _ _
  | fail e stack => exact .fail _ _ _
  | ret value stack => exact .ret _ _ _
  | print line stack => exact .print _ _ _

theorem issues_moveIdent (name : String) :
    (f.moveIdent program index name).Issues program index f := by
  unfold moveIdent
  cases hd : program.functions[name]? with
  | some d =>
    simp only [moveCall]
    cases Machine.missingBlock? program [d.name, f.func.name] with
    | some e => exact .fail _ _ _
    | none =>
      cases d.bind f.func.name f.stack with
      | failed e rest => exact .fail _ _ _
      | bound args rest => exact .start _ _ (.call args hd)
  | none =>
    cases Machine.lookup program f name with
    | error e => exact .fail _ _ _
    | ok value =>
      cases value with
      | none => exact .go _ _
      | some value => exact .go _ _

theorem issues_moveIf (keyword : Keyword) :
    (f.moveIf index keyword).Issues program index f := by
  unfold moveIf
  split
  next elseAt endAt hjump =>
    cases f.stack with
    | nil => exact .fail _ _ _
    | cons condition stack =>
      by_cases hcondition : condition = .bool true
      · simp only [if_pos hcondition]
        exact .start _ _ (.branch _ _ _ _)
      · simp only [if_neg hcondition]
        cases elseAt with
        | none => exact .go _ _
        | some elseAt => exact .start _ _ (.branch _ _ _ _)
  next => exact .fail _ _ _

theorem issues_moveDo : f.moveDo.Issues program index f := by
  unfold moveDo
  split
  next endAt hjump =>
    cases f.stack with
    | nil => exact .fail _ _ _
    | cons condition stack => exact .go _ _
  next => exact .fail _ _ _

theorem issues_moveEnd : f.moveEnd.Issues program index f := by
  unfold moveEnd
  split
  next => exact .go _ _
  next => exact .go _ _

theorem issues_move (token : Token) : (f.move program index token).Issues program index f := by
  cases token with
  | op op => exact issues_moveOperator program index f op
  | ident name => exact issues_moveIdent program index f name
  | keyword k =>
    cases k with
    | if_ => exact issues_moveIf program index f .if_
    | iff => exact issues_moveIf program index f .iff
    | do_ => exact issues_moveDo program index f
    | end_ => exact issues_moveEnd program index f
    | _ => exact .go _ _
  | _ => exact .go _ _

end Frame

namespace Machine

variable {σ : Type}

/-- The machine with one more frame, the innermost one. -/
def withTop (m : Machine σ) (f : Frame) : Machine σ := { m with frames := m.frames.push f }

/-- Carries a move out on the machine below the innermost frame. -/
def perform (ctx : Context σ) (base : Machine σ) : Move → Machine σ × Signal
  | .go f => (base.withTop f, .running)
  | .start f g => (base.withTop f).push ctx.maxFrames g
  | .ret f value => ((base.withTop f).deliver base.frames.size value, .running)
  | .print f line =>
    let (out, refusal) := ctx.sink.write base.out line
    match refusal with
    | none => ({ base.withTop f with out }, .running)
    | some reason => ({ base.withTop f with out }, .failed (.writeFailed reason))
  | .fail f e => (base.withTop f, .failed e)

@[simp] theorem frames_withTop (m : Machine σ) (f : Frame) :
    (m.withTop f).frames = m.frames.push f := rfl

theorem size_withTop (m : Machine σ) (f : Frame) :
    (m.withTop f).frames.size = m.frames.size + 1 := Array.size_push f

@[simp] theorem out_withTop (m : Machine σ) (f : Frame) : (m.withTop f).out = m.out := rfl

/-- A machine has no frames, or one that is innermost. -/
theorem frames_empty_or_withTop (m : Machine σ) :
    m.frames = #[] ∨ ∃ base f, m = withTop base f := by
  by_cases hempty : m.frames = #[]
  · exact .inl hempty
  · obtain ⟨below, f, hpush⟩ := Array.exists_push_of_ne_empty hempty
    exact .inr ⟨{ m with frames := below }, f, by simp [withTop, ← hpush]⟩

theorem exists_withTop_of_back? {m : Machine σ} {f : Frame} (h : m.frames.back? = some f) :
    ∃ base, m = withTop base f := by
  rcases m.frames_empty_or_withTop with hempty | ⟨base, g, rfl⟩
  · rw [hempty] at h
    cases h
  · rw [frames_withTop, Array.back?_push] at h
    cases h
    exact ⟨base, rfl⟩

/-- Changing an entry of an array does not show in what is the same of it afterwards. -/
theorem map_modify_of_same {α β : Type} {view : α → β} {change : α → α}
    (h : ∀ a, view (change a) = view a) (xs : Array α) (index : Nat) :
    (xs.modify index change).map view = xs.map view := by
  apply Array.ext_getElem?
  intro i
  simp only [Array.getElem?_map, Array.getElem?_modify]
  split
  · rw [Option.map_map]
    exact congrFun (congrArg Option.map (funext h)) _
  · rfl

theorem modify_withTop_self (m : Machine σ) (f : Frame) (g : Frame → Frame) :
    (m.withTop f).modify m.frames.size g = m.withTop (g f) := by
  have hframes : (m.frames.push f).modify m.frames.size g = m.frames.push (g f) := by
    apply Array.ext_getElem?
    intro i
    rw [Array.getElem?_modify, Array.getElem?_push, Array.getElem?_push]
    by_cases hi : m.frames.size = i
    · rw [if_pos hi, if_pos hi.symm, if_pos hi.symm]
      rfl
    · rw [if_neg hi, if_neg (Ne.symm hi), if_neg (Ne.symm hi)]
  simp only [withTop, modify, hframes]

theorem modify_withTop_of_lt {m : Machine σ} {f : Frame} {g : Frame → Frame} {index : Nat}
    (h : index < m.frames.size) : (m.withTop f).modify index g = (m.modify index g).withTop f := by
  have hframes : (m.frames.push f).modify index g = (m.frames.modify index g).push f := by
    apply Array.ext_getElem?
    intro i
    simp only [Array.getElem?_modify, Array.getElem?_push, Array.size_modify]
    split
    · rw [if_neg (by omega), if_neg (by omega)]
    · rfl
  simp only [withTop, modify, hframes]

@[simp] theorem setStack_withTop_self (m : Machine σ) (f : Frame) (stack : Stack) :
    (m.withTop f).setStack m.frames.size stack = m.withTop { f with stack } :=
  modify_withTop_self m f _

@[simp] theorem getElem?_withTop_self (m : Machine σ) (f : Frame) :
    (m.withTop f).frames[m.frames.size]? = some f := by
  simp

theorem operate_withTop (ctx : Context σ) (base : Machine σ) (f : Frame) (op : Operator) :
    (base.withTop (f.goTo (f.pc + 1) f.stack)).operate ctx base.frames.size f op
      = base.perform ctx (f.moveOperator op) := by
  unfold operate Frame.moveOperator
  cases op.apply f.stack with
  | next stack => simp only [setStack_withTop_self]; rfl
  | fail e stack => simp only [setStack_withTop_self]; rfl
  | ret value stack => simp only [setStack_withTop_self]; rfl
  | print line stack =>
    simp only [setStack_withTop_self, out_withTop, perform]
    cases ctx.sink.write base.out line with
    | mk out refusal => cases refusal <;> rfl

theorem call_withTop (ctx : Context σ) (base : Machine σ) (f : Frame) (d : Definition) :
    (base.withTop (f.goTo (f.pc + 1) f.stack)).call ctx d base.frames.size
      = base.perform ctx (f.moveCall ctx.program base.frames.size d) := by
  unfold call Frame.moveCall
  rw [getElem?_withTop_self]
  simp only [Frame.goTo]
  cases missingBlock? ctx.program [d.name, f.func.name] with
  | some e => rfl
  | none =>
    cases d.bind f.func.name f.stack with
    | failed e rest => simp only [setStack_withTop_self]; rfl
    | bound args rest => simp only [setStack_withTop_self]; rfl

theorem resolve_withTop (ctx : Context σ) (base : Machine σ) (f : Frame) (name : String) :
    (base.withTop (f.goTo (f.pc + 1) f.stack)).resolve ctx base.frames.size f name
      = base.perform ctx (f.moveIdent ctx.program base.frames.size name) := by
  unfold resolve Frame.moveIdent
  cases ctx.program.functions[name]? with
  | some d => exact call_withTop ctx base f d
  | none =>
    cases lookup ctx.program f name with
    | error e => rfl
    | ok value =>
      cases value with
      | none => rfl
      | some value => simp only [setStack_withTop_self]; rfl

theorem runIf_withTop (ctx : Context σ) (base : Machine σ) (f : Frame) (keyword : Keyword) :
    (base.withTop (f.goTo (f.pc + 1) f.stack)).runIf ctx base.frames.size f keyword
      = base.perform ctx (f.moveIf base.frames.size keyword) := by
  unfold runIf Frame.moveIf
  cases f.func.jumps[f.pc]? with
  | none => rfl
  | some jump =>
    cases jump with
    | branch elseAt endAt =>
      cases f.stack with
      | nil => rfl
      | cons condition stack =>
        simp only [modify_withTop_self, branch, getElem?_withTop_self]
        by_cases hcondition : condition = .bool true
        · simp only [if_pos hcondition]
          rfl
        · simp only [if_neg hcondition]
          cases elseAt with
          | none => rfl
          | some elseAt => rfl
    | _ => rfl

theorem runDo_withTop (ctx : Context σ) (base : Machine σ) (f : Frame) :
    (base.withTop (f.goTo (f.pc + 1) f.stack)).runDo base.frames.size f
      = base.perform ctx f.moveDo := by
  unfold runDo Frame.moveDo
  cases f.func.jumps[f.pc]? with
  | none => rfl
  | some jump =>
    cases jump with
    | exit endAt =>
      cases f.stack with
      | nil => rfl
      | cons condition stack =>
        simp only [modify_withTop_self, setStack_withTop_self]
        by_cases hcondition : condition = .bool true
        · simp only [if_pos hcondition]
          rfl
        · simp only [if_neg hcondition]
          rfl
    | _ => rfl

theorem runEnd_withTop (ctx : Context σ) (base : Machine σ) (f : Frame) :
    ((base.withTop (f.goTo (f.pc + 1) f.stack)).runEnd base.frames.size f, .running)
      = base.perform ctx f.moveEnd := by
  unfold runEnd Frame.moveEnd
  cases f.func.jumps[f.pc]? with
  | none => rfl
  | some jump =>
    cases jump with
    | back whileAt => simp only [modify_withTop_self]; rfl
    | _ => rfl

theorem execute_withTop (ctx : Context σ) (base : Machine σ) (f : Frame) (token : Token) :
    (base.withTop (f.goTo (f.pc + 1) f.stack)).execute ctx base.frames.size f token
      = base.perform ctx (f.move ctx.program base.frames.size token) := by
  cases token with
  | op op => exact operate_withTop ctx base f op
  | ident name => exact resolve_withTop ctx base f name
  | keyword k =>
    cases k with
    | if_ => exact runIf_withTop ctx base f .if_
    | iff => exact runIf_withTop ctx base f .iff
    | do_ => exact runDo_withTop ctx base f
    | end_ => exact runEnd_withTop ctx base f
    | while_ => rfl
    | else_ => rfl
    | _ => simp only [execute, setStack_withTop_self]; rfl
  | _ => simp only [execute, setStack_withTop_self]; rfl

/-- A step ends the innermost frame or carries out the move of its next token. -/
theorem step_withTop (ctx : Context σ) (base : Machine σ) (f : Frame) :
    (base.withTop f).step ctx = match f.next? with
      | none => ((base.withTop f).finish, .running)
      | some token => base.perform ctx (f.move ctx.program base.frames.size token) := by
  unfold step
  simp only [frames_withTop, Array.back?_push, Array.size_push, Nat.add_sub_cancel,
    modify_withTop_self]
  cases f.next? with
  | none => rfl
  | some token => exact execute_withTop ctx base f token

end Machine

end Wordstack
