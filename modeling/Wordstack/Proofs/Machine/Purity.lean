-- SUMMARY: Calls are pure up to printing: what lies below a call has no influence on it.
import Wordstack.Proofs.Machine.Life

/-!
# Purity of calls

A call sees the arguments that it was started on, the program and nothing else. The
frames of the call refer to each other, and to the frame that values are returned to, by
index. So two calls on the same arguments run in lockstep on frames that differ in these
indices only, as long as there is room for the frames of both (`Alike.step`).
-/

namespace Wordstack

-- -----------------------------------------------------------------------
-- Moves of a frame at another place
-- -----------------------------------------------------------------------

/-- The same place for returned values among frames that lie elsewhere. -/
def ReturnTo.rename (place : Nat → Nat) : ReturnTo → ReturnTo
  | .own => .own
  | .root => .root
  | .frame index => .frame (place index)

/-- The frame among frames that lie elsewhere. -/
def Frame.rename (place : Nat → Nat) (f : Frame) : Frame :=
  { f with returnTo := f.returnTo.rename place }

/-- The move of a frame among frames that lie elsewhere. -/
def Move.rename (place : Nat → Nat) : Move → Move
  | .go f => .go (f.rename place)
  | .start f g => .start (f.rename place) (g.rename place)
  | .ret f value => .ret (f.rename place) value
  | .print f line => .print (f.rename place) line
  | .fail f e => .fail (f.rename place) e

/-- The line that a move prints. -/
def Move.line? : Move → Option String
  | .print _ line => some line
  | _ => none

theorem Move.line?_rename (place : Nat → Nat) (move : Move) :
    (move.rename place).line? = move.line? := by
  cases move <;> rfl

namespace Frame

variable (place : Nat → Nat) (p : Program) (index : Nat) (f : Frame)

theorem branchReturn_rename :
    (f.rename place).branchReturn (place index) = (f.branchReturn index).rename place := by
  simp only [branchReturn, rename]
  cases f.returnTo <;> rfl

theorem branchFrame_rename (start stop : Nat) :
    (f.rename place).branchFrame (place index) start stop
      = (f.branchFrame index start stop).rename place := by
  simp only [branchFrame, branchReturn_rename]
  rfl

theorem moveOperator_rename (op : Operator) :
    (f.rename place).moveOperator op = (f.moveOperator op).rename place := by
  simp only [moveOperator, rename]
  cases op.apply f.stack <;> rfl

theorem moveIdent_rename (name : String) :
    (f.rename place).moveIdent p (place index) name
      = (f.moveIdent p index name).rename place := by
  have hlookup : Machine.lookup p (f.rename place) name = Machine.lookup p f name := rfl
  simp only [moveIdent, hlookup]
  cases p.functions[name]? with
  | some d =>
    simp only [moveCall, rename]
    cases Machine.missingBlock? p [d.name, f.func.name] with
    | some e => rfl
    | none => cases d.bind f.func.name f.stack <;> rfl
  | none =>
    cases Machine.lookup p f name with
    | error e => rfl
    | ok value => cases value <;> rfl

theorem moveIf_rename (keyword : Keyword) :
    (f.rename place).moveIf (place index) keyword = (f.moveIf index keyword).rename place := by
  have hbranch : ∀ pc stack start stop,
      ((f.rename place).goTo pc stack).branchFrame (place index) start stop
        = ((f.goTo pc stack).branchFrame index start stop).rename place :=
    fun pc stack => branchFrame_rename place index (f.goTo pc stack)
  have hjumps : (f.rename place).func.jumps[(f.rename place).pc]? = f.func.jumps[f.pc]? := rfl
  have hstack : (f.rename place).stack = f.stack := rfl
  simp only [moveIf, hbranch, hjumps, hstack]
  split
  next elseAt endAt hjump =>
    cases f.stack with
    | nil => rfl
    | cons condition stack =>
      by_cases hcondition : condition = .bool true
      · simp only [if_pos hcondition]
        rfl
      · simp only [if_neg hcondition]
        cases elseAt <;> rfl
  next => rfl

theorem moveDo_rename : (f.rename place).moveDo = f.moveDo.rename place := by
  simp only [moveDo, rename]
  split
  next => cases f.stack <;> rfl
  next => rfl

theorem moveEnd_rename : (f.rename place).moveEnd = f.moveEnd.rename place := by
  simp only [moveEnd, rename]
  split <;> rfl

theorem move_rename (token : Token) :
    (f.rename place).move p (place index) token = (f.move p index token).rename place := by
  cases token with
  | op op => exact moveOperator_rename place f op
  | ident name => exact moveIdent_rename place p index f name
  | keyword k =>
    cases k with
    | if_ => exact moveIf_rename place index f .if_
    | iff => exact moveIf_rename place index f .iff
    | do_ => exact moveDo_rename place f
    | end_ => exact moveEnd_rename place f
    | _ => rfl
  | _ => rfl

end Frame

-- -----------------------------------------------------------------------
-- Machines over others
-- -----------------------------------------------------------------------

/-- The state of a sink that has been given lines. -/
def Sink.writeAll {σ : Type} (sink : Sink σ) (out : σ) (lines : List String) : σ :=
  lines.foldl (fun out line => (sink.write out line).1) out

namespace Machine

variable {σ : Type}

/-- The machine with more frames. -/
def stacked (base : Machine σ) (frames : Array Frame) : Machine σ :=
  { base with frames := base.frames ++ frames }

/-- The machine when a call that returns values to the frame at an index has done so,
and has printed. -/
def answered (m : Machine σ) (sink : Sink σ) (index : Nat) (values : Stack)
    (lines : List String) : Machine σ :=
  { m with out := sink.writeAll m.out lines }.receive (.frame index) values

/-- The line that the next step prints. -/
def line? (p : Program) (m : Machine σ) : Option String :=
  m.frames.back?.bind fun f => f.next?.bind fun token =>
    (f.move p (m.frames.size - 1) token).line?

theorem size_stacked (base : Machine σ) (frames : Array Frame) :
    (base.stacked frames).frames.size = base.frames.size + frames.size := Array.size_append

theorem stacked_empty (base : Machine σ) : base.stacked #[] = base := by
  rw [stacked, Array.append_empty]

theorem withTop_stacked (base : Machine σ) (frames : Array Frame) (f : Frame) :
    (base.stacked frames).withTop f = base.stacked (frames.push f) := by
  simp only [stacked, withTop, Array.push_append]

theorem line?_withTop (p : Program) (base : Machine σ) (f : Frame) :
    (base.withTop f).line? p
      = f.next?.bind fun token => (f.move p base.frames.size token).line? := by
  simp only [line?, frames_withTop, Array.back?_push, Array.size_push, Nat.add_sub_cancel,
    Option.bind_some]

theorem receive_stacked_below {base : Machine σ} {index : Nat} (h : index < base.frames.size)
    (frames : Array Frame) (values : Stack) :
    (base.stacked frames).receive (.frame index) values
      = (base.receive (.frame index) values).stacked frames := by
  have hframes : (base.frames ++ frames).modify index
        (fun f => { f with stack := values ++ f.stack })
      = base.frames.modify index (fun f => { f with stack := values ++ f.stack }) ++ frames := by
    apply Array.ext_getElem?
    intro i
    simp only [Array.getElem?_modify, Array.getElem?_append, Array.size_modify]
    by_cases hi : i < base.frames.size
    · simp only [if_pos hi]
    · have hne : index ≠ i := by omega
      simp only [if_neg hi, if_neg hne]
  simp only [receive, modify, stacked, hframes]

theorem receive_stacked_above (base : Machine σ) (frames : Array Frame) (index : Nat)
    (values : Stack) :
    (base.stacked frames).receive (.frame (base.frames.size + index)) values
      = base.stacked (frames.modify index fun f => { f with stack := values ++ f.stack }) := by
  have hframes : (base.frames ++ frames).modify (base.frames.size + index)
        (fun f => { f with stack := values ++ f.stack })
      = base.frames ++ frames.modify index (fun f => { f with stack := values ++ f.stack }) := by
    apply Array.ext_getElem?
    intro i
    simp only [Array.getElem?_modify, Array.getElem?_append]
    by_cases hi : i < base.frames.size
    · have hne : base.frames.size + index ≠ i := by omega
      simp only [if_pos hi, if_neg hne]
    · have hindex : base.frames.size + index = i ↔ index = i - base.frames.size := by omega
      simp only [if_neg hi, hindex]
  simp only [receive, modify, stacked, hframes]

section Answered

variable (m : Machine σ) (sink : Sink σ) (index : Nat) (values : Stack) (lines : List String)

theorem size_answered : (m.answered sink index values lines).frames.size = m.frames.size :=
  size_receive _ _ _

theorem out_answered : (m.answered sink index values lines).out = sink.writeAll m.out lines :=
  out_receive _ _ _

theorem answered_nil : m.answered sink index [] [] = m := by
  rw [answered, receive_nil]
  rfl

theorem answered_receive (more : Stack) :
    (m.answered sink index values lines).receive (.frame index) more
      = m.answered sink index (more ++ values) lines :=
  receive_receive _ _ _ _

theorem answered_write (line : String) :
    { m.answered sink index values lines with
        out := (sink.write (m.answered sink index values lines).out line).1 }
      = m.answered sink index values (lines ++ [line]) := by
  rw [out_answered, answered, receive_withOut, answered, Sink.writeAll, Sink.writeAll,
    List.foldl_append]
  rfl

end Answered

end Machine

-- -----------------------------------------------------------------------
-- Places of calls
-- -----------------------------------------------------------------------

/-- The frame is one of a call over `low` frames that returns values to the one at
`target`. -/
def Frame.OfCall (low target : Nat) (f : Frame) : Prop :=
  f.returnTo = .frame target ∨ ∃ index, f.returnTo = .frame (low + index)

theorem Frame.OfCall.branchReturn {low target index : Nat} {f : Frame} (h : f.OfCall low target) :
    f.branchReturn index = f.returnTo := by
  apply branchReturn_of_ne_own
  rcases h with hreturn | ⟨i, hreturn⟩ <;> simp [hreturn]

theorem Frame.OfCall.starts {low target index : Nat} {p : Program} {f g : Frame}
    (h : f.OfCall low target) (hg : f.Starts p (low + index) g) : g.OfCall low target := by
  cases hg with
  | call args hd => exact .inr ⟨index, rfl⟩
  | branch pc stack start stop =>
    have hreturn : ((f.goTo pc stack).branchFrame (low + index) start stop).returnTo = f.returnTo :=
      h.branchReturn
    unfold OfCall
    rw [hreturn]
    exact h

/-- Where a call is made: over which machine, with which of its frames to return values
to, and what there is for it to use. -/
structure CallSite (σ : Type) where
  base : Machine σ
  target : Nat
  maxFrames : Nat
  sink : Sink σ

namespace CallSite

variable {σ₁ σ₂ : Type} {p : Program} {a : CallSite σ₁} {b : CallSite σ₂}
  {lines : List String} {values : Stack} {frames : Array Frame} {f : Frame}
  {m m' : Machine σ₁} {n : Machine σ₂}

def size (a : CallSite σ₁) : Nat := a.base.frames.size

def context (a : CallSite σ₁) (p : Program) : Context σ₁ :=
  { program := p, maxFrames := a.maxFrames, sink := a.sink }

/-- The machine below a call that has returned values and printed lines. -/
def answered (a : CallSite σ₁) (values : Stack) (lines : List String) : Machine σ₁ :=
  a.base.answered a.sink a.target values lines

/-- Where the frame at an index lies in the same call at another place. -/
def relocate (a : CallSite σ₁) (b : CallSite σ₂) (index : Nat) : Nat :=
  if index < a.size then b.target else b.size + (index - a.size)

theorem relocate_target (h : a.target < a.size) : a.relocate b a.target = b.target := if_pos h

theorem relocate_add (index : Nat) : a.relocate b (a.size + index) = b.size + index := by
  rw [relocate, if_neg (Nat.not_lt_of_le (Nat.le_add_right _ _)), Nat.add_sub_cancel_left]

theorem size_stacked_answered (a : CallSite σ₁) (values : Stack) (lines : List String)
    (frames : Array Frame) :
    ((a.answered values lines).stacked frames).frames.size = a.size + frames.size := by
  rw [Machine.size_stacked, answered, Machine.size_answered]
  rfl

theorem receive_target (h : a.target < a.size) (values more : Stack) (lines : List String)
    (frames : Array Frame) :
    ((a.answered values lines).stacked frames).receive (.frame a.target) more
      = (a.answered (more ++ values) lines).stacked frames := by
  have hlt : a.target < (a.answered values lines).frames.size := by
    rw [answered, Machine.size_answered]
    exact h
  rw [Machine.receive_stacked_below hlt, answered, Machine.answered_receive]
  rfl

theorem receive_above (a : CallSite σ₁) (values more : Stack) (lines : List String)
    (frames : Array Frame) (index : Nat) :
    ((a.answered values lines).stacked frames).receive (.frame (a.size + index)) more
      = (a.answered values lines).stacked
          (frames.modify index fun f => { f with stack := more ++ f.stack }) := by
  have hsize : a.size = (a.answered values lines).frames.size := by
    rw [answered, Machine.size_answered]
    rfl
  rw [hsize, Machine.receive_stacked_above]

theorem write_stacked_answered (a : CallSite σ₁) (values : Stack) (lines : List String)
    (frames : Array Frame) (line : String) :
    { (a.answered values lines).stacked frames with
        out := (a.sink.write ((a.answered values lines).stacked frames).out line).1 }
      = (a.answered values (lines ++ [line])).stacked frames :=
  congrArg (·.stacked frames) (Machine.answered_write a.base a.sink a.target values lines line)

-- -----------------------------------------------------------------------
-- Two calls in lockstep
-- -----------------------------------------------------------------------

/-- The machines are at the same point of a call that is made at two places: it has
returned and printed the same, and has the same frames but for where they lie. -/
inductive Alike (a : CallSite σ₁) (b : CallSite σ₂) (lines : List String) :
    Machine σ₁ → Machine σ₂ → Prop where
  | mk (values : Stack) {frames : Array Frame} (h : ∀ f ∈ frames, f.OfCall a.size a.target) :
      Alike a b lines ((a.answered values lines).stacked frames)
        ((b.answered values lines).stacked (frames.map (Frame.rename (a.relocate b))))

theorem Alike.sizes (h : Alike a b lines m n) :
    ∃ count, m.frames.size = a.size + count ∧ n.frames.size = b.size + count := by
  obtain @⟨values, frames, h⟩ := h
  exact ⟨frames.size, size_stacked_answered a values lines frames, by
    rw [size_stacked_answered, Array.size_map]⟩

theorem Alike.withTop (h : Alike a b lines m n) (hf : f.OfCall a.size a.target) :
    Alike a b lines (m.withTop f) (n.withTop (f.rename (a.relocate b))) := by
  obtain ⟨values, h⟩ := h
  rw [Machine.withTop_stacked, Machine.withTop_stacked, ← Array.map_push]
  refine .mk values ?_
  intro g hg
  rcases Array.mem_push.mp hg with hg | rfl
  · exact h g hg
  · exact hf

/-- A frame of the call is innermost at both places. -/
theorem Alike.top (h : Alike a b lines m n) (hlive : a.size < m.frames.size) :
    ∃ m₀ n₀ f, Alike a b lines m₀ n₀ ∧ f.OfCall a.size a.target ∧ m = m₀.withTop f ∧
      n = n₀.withTop (f.rename (a.relocate b)) := by
  obtain @⟨values, frames, h⟩ := h
  have hne : frames ≠ #[] := by
    rintro rfl
    rw [size_stacked_answered] at hlive
    exact Nat.lt_irrefl _ hlive
  obtain ⟨below, f, rfl⟩ := Array.exists_push_of_ne_empty hne
  refine ⟨_, _, f, .mk values fun g hg => h g (Array.mem_push_of_mem f hg),
    h f Array.mem_push_self, (Machine.withTop_stacked _ _ _).symm, ?_⟩
  rw [Array.map_push, Machine.withTop_stacked]

/-- Values that a frame of the call returns arrive at the same place. -/
theorem Alike.receive (ha : a.target < a.size) (hb : b.target < b.size)
    (h : Alike a b lines m n) (hf : f.OfCall a.size a.target) (more : Stack) :
    Alike a b lines (m.receive f.returnTo more)
      (n.receive (f.returnTo.rename (a.relocate b)) more) := by
  obtain @⟨values, frames, h⟩ := h
  rcases hf with hreturn | ⟨index, hreturn⟩
  · rw [hreturn, ReturnTo.rename, relocate_target ha, receive_target ha, receive_target hb]
    exact .mk _ h
  · rw [hreturn, ReturnTo.rename, relocate_add, receive_above, receive_above]
    have hmap : (frames.map (Frame.rename (a.relocate b))).modify index
          (fun g => { g with stack := more ++ g.stack })
        = (frames.modify index fun g => { g with stack := more ++ g.stack }).map
            (Frame.rename (a.relocate b)) := by
      apply Array.ext_getElem?
      intro i
      simp only [Array.getElem?_map, Array.getElem?_modify]
      split
      next => simp only [Option.map_map]; rfl
      next => rfl
    rw [hmap]
    refine .mk values ?_
    intro g hg
    obtain ⟨i, hi⟩ := Array.mem_iff_getElem?.mp hg
    rw [Array.getElem?_modify] at hi
    split at hi
    next =>
      obtain ⟨g', hg', rfl⟩ := Option.map_eq_some_iff.mp hi
      exact h g' (Array.mem_of_getElem? hg')
    next => exact h g (Array.mem_of_getElem? hi)

/-- A line that the call prints is printed at both places. -/
theorem Alike.write (h : Alike a b lines m n) (line : String) :
    Alike a b (lines ++ [line]) { m with out := (a.sink.write m.out line).1 }
      { n with out := (b.sink.write n.out line).1 } := by
  obtain ⟨values, h⟩ := h
  rw [write_stacked_answered, write_stacked_answered]
  exact .mk values h

/-- What there has to be at a second place for a call to run there: frames to return
values to, and a sink that refuses nothing. -/
structure Hosts (a : CallSite σ₁) (b : CallSite σ₂) : Prop where
  target : a.target < a.size
  target' : b.target < b.size
  writes : ∀ out line, (b.sink.write out line).2 = none

/-- A move that the call makes at one place it makes at the other. -/
theorem Alike.perform (hhosts : a.Hosts b) (h : Alike a b lines m n)
    (hf : f.OfCall a.size a.target) {move : Move} (hmove : move.Issues p m.frames.size f)
    (hperform : m.perform (a.context p) move = (m', .running))
    (hroom : m'.frames.size + b.size ≤ a.size + b.maxFrames) :
    ∃ n', n.perform (b.context p) (move.rename (a.relocate b)) = (n', .running) ∧
      Alike a b (lines ++ move.line?.toList) m' n' := by
  obtain ⟨count, hsize, hsize'⟩ := h.sizes
  have hmoved : ∀ pc stack, Alike a b lines (m.withTop (f.goTo pc stack))
      (n.withTop ((f.goTo pc stack).rename (a.relocate b))) := fun pc stack => h.withTop hf
  have hsilent : ∀ {m' n'}, Alike a b lines m' n' → Alike a b (lines ++ []) m' n' := by
    intro m' n' h'
    rw [List.append_nil]
    exact h'
  cases hmove with
  | go pc stack =>
    cases hperform
    exact ⟨_, rfl, hsilent (hmoved pc stack)⟩
  | @start pc stack g hstarts =>
    simp only [Machine.perform, Machine.push_eq] at hperform
    split at hperform
    next =>
      cases hperform
      rw [hsize] at hstarts
      refine ⟨_, ?_, hsilent ((hmoved pc stack).withTop (hf.starts hstarts))⟩
      simp only [Machine.size_withTop, hsize] at hroom
      simp only [Move.rename, Machine.perform, Machine.push_eq, Machine.size_withTop, hsize']
      exact if_pos (by simp only [context]; omega)
    next => cases hperform
  | ret pc stack value =>
    cases hperform
    refine ⟨_, rfl, hsilent ?_⟩
    have hplace : n.frames.size = a.relocate b m.frames.size := by
      rw [hsize, relocate_add, hsize']
    have hreturn : (f.goTo pc stack).branchReturn m.frames.size = f.returnTo := hf.branchReturn
    rw [Machine.deliver_withTop, Machine.deliver_withTop, hplace, Frame.branchReturn_rename,
      hreturn]
    exact (hmoved pc stack).receive hhosts.target hhosts.target' hf [value]
  | print pc stack line =>
    simp only [Machine.perform] at hperform
    split at hperform
    next hwrite =>
      cases hperform
      refine ⟨_, ?_, (hmoved pc stack).write line⟩
      simp only [Move.rename, Machine.perform]
      have hnone : ((b.context p).sink.write n.out line).2 = none := hhosts.writes n.out line
      rw [hnone]
      rfl
    next => cases hperform
  | fail pc stack error => cases hperform

/-- A step of the call at one place is one at the other, and prints the same. -/
theorem Alike.step (hhosts : a.Hosts b) (h : Alike a b lines m n) (hlive : a.size < m.frames.size)
    (hstep : m.step (a.context p) = (m', .running))
    (hroom : m'.frames.size + b.size ≤ a.size + b.maxFrames) :
    ∃ n', n.step (b.context p) = (n', .running) ∧ n.line? p = m.line? p ∧
      Alike a b (lines ++ (m.line? p).toList) m' n' := by
  obtain ⟨m, n, f, hbelow, hf, rfl, rfl⟩ := h.top hlive
  obtain ⟨count, hsize, hsize'⟩ := hbelow.sizes
  have hplace : n.frames.size = a.relocate b m.frames.size := by
    rw [hsize, relocate_add, hsize']
  have hnext : (f.rename (a.relocate b)).next? = f.next? := rfl
  rw [Machine.line?_withTop, Machine.line?_withTop, hnext]
  rw [Machine.step_withTop] at hstep ⊢
  rw [hnext]
  cases htoken : f.next? with
  | none =>
    rw [htoken] at hstep
    cases hstep
    have hinner : ∃ index, f.returnTo = .frame index := by
      rcases hf with hreturn | ⟨index, hreturn⟩
      · exact ⟨_, hreturn⟩
      · exact ⟨_, hreturn⟩
    obtain ⟨index, hreturn⟩ := hinner
    have hrenamed : (f.rename (a.relocate b)).returnTo = .frame (a.relocate b index) := by
      rw [Frame.rename, hreturn]
      rfl
    refine ⟨n, ?_, rfl, ?_⟩
    · rw [Machine.finish_inner n (.inr ⟨_, hrenamed⟩)]
    · rw [Machine.finish_inner m (.inr ⟨_, hreturn⟩)]
      change Alike a b (lines ++ []) _ _
      rw [List.append_nil]
      exact hbelow
  | some token =>
    rw [htoken] at hstep
    have hmove := Frame.move_rename (a.relocate b) p m.frames.size f token
    rw [← hplace] at hmove
    obtain ⟨n', hperform, halike⟩ := hbelow.perform hhosts hf (f.issues_move p _ token) hstep hroom
    refine ⟨n', (congrArg (n.perform (b.context p)) hmove).trans hperform, ?_, halike⟩
    simp only [Option.bind_some, hmove, Move.line?_rename]

end CallSite

-- -----------------------------------------------------------------------
-- Runs of calls
-- -----------------------------------------------------------------------

/-- Takes a number of steps and gives the lines that they print along with the machine
that they lead to. Each has to start on more than `low` frames, leave at most `high` and
not fail. -/
def Machine.stepsWithin {σ : Type} (ctx : Context σ) (low high : Nat) :
    Nat → Machine σ → Option (List String × Machine σ)
  | 0, m => some ([], m)
  | count + 1, m =>
    match m.step ctx with
    | (m', .running) =>
      if low < m.frames.size ∧ m'.frames.size ≤ high then
        (stepsWithin ctx low high count m').map fun r => ((m.line? ctx.program).toList ++ r.1, r.2)
      else none
    | _ => none

theorem Machine.stepsWithin_succ {σ : Type} {ctx : Context σ} {low high count : Nat}
    {m m' : Machine σ} {lines : List String} :
    m.stepsWithin ctx low high (count + 1) = some (lines, m') ↔
      ∃ m₁ rest, m.step ctx = (m₁, .running) ∧ low < m.frames.size ∧ m₁.frames.size ≤ high ∧
        m₁.stepsWithin ctx low high count = some (rest, m') ∧
        lines = (m.line? ctx.program).toList ++ rest := by
  simp only [stepsWithin]
  cases hstep : m.step ctx with
  | mk m₁ s =>
    cases s with
    | running =>
      simp only [Option.ite_none_right_eq_some, Option.map_eq_some_iff, Prod.exists,
        Prod.mk.injEq]
      constructor
      · rintro ⟨⟨hlow, hhigh⟩, rest, m', hrest, rfl, rfl⟩
        exact ⟨m₁, rest, ⟨rfl, trivial⟩, hlow, hhigh, hrest, rfl⟩
      · rintro ⟨_, rest, ⟨rfl, -⟩, hlow, hhigh, hrest, rfl⟩
        exact ⟨⟨hlow, hhigh⟩, rest, m', hrest, rfl, rfl⟩
    | _ => simp

namespace CallSite

variable {σ₁ σ₂ : Type} {p : Program} {a : CallSite σ₁} {b : CallSite σ₂}
  {printed lines : List String} {m m' : Machine σ₁} {n : Machine σ₂}

/-- The machine on which a call has just started. -/
def start (a : CallSite σ₁) (d : Definition) (args : Stack) (caller : String) : Machine σ₁ :=
  a.base.withTop (Machine.callFrame d args (.frame a.target) caller)

theorem alike_start (ha : a.target < a.size) (d : Definition) (args : Stack) (caller : String) :
    Alike a b [] (a.start d args caller) (b.start d args caller) := by
  have hbase : Alike a b [] a.base b.base := by
    have hempty : Alike a b [] ((a.answered [] []).stacked #[]) _ := .mk [] (by simp)
    rw [Array.map_empty, Machine.stacked_empty, Machine.stacked_empty, answered, answered,
      Machine.answered_nil, Machine.answered_nil] at hempty
    exact hempty
  have hframe : (Machine.callFrame d args (.frame a.target) caller).rename (a.relocate b)
      = Machine.callFrame d args (.frame b.target) caller := by
    simp only [Frame.rename, Machine.callFrame, ReturnTo.rename, relocate_target ha]
  rw [start, start, ← hframe]
  exact hbase.withTop (.inl rfl)

/-- When the call has ended, nothing but its answer is left of it. -/
theorem Alike.ended (h : Alike a b lines m n) (hsize : m.frames.size = a.size) :
    ∃ values, m = a.answered values lines ∧ n = b.answered values lines := by
  obtain @⟨values, frames, h⟩ := h
  rw [size_stacked_answered] at hsize
  obtain rfl : frames = #[] := Array.size_eq_zero_iff.mp (by omega)
  refine ⟨values, Machine.stacked_empty _, ?_⟩
  rw [Array.map_empty, Machine.stacked_empty]

/-- The steps that the call takes at one place it takes at the other. -/
theorem Alike.stepsWithin (hhosts : a.Hosts b) {used count : Nat}
    (hroom : b.size + used ≤ b.maxFrames) (h : Alike a b printed m n)
    (hsteps : m.stepsWithin (a.context p) a.size (a.size + used) count = some (lines, m')) :
    ∃ n', n.stepsWithin (b.context p) b.size (b.size + used) count = some (lines, n') ∧
      Alike a b (printed ++ lines) m' n' := by
  induction count generalizing printed lines m n with
  | zero =>
    cases hsteps
    refine ⟨n, rfl, ?_⟩
    rw [List.append_nil]
    exact h
  | succ count ih =>
    obtain ⟨m₁, rest, hstep, hlow, hhigh, hrest, rfl⟩ := Machine.stepsWithin_succ.mp hsteps
    obtain ⟨n₁, hstep', hline, halike⟩ := h.step hhosts hlow hstep (by omega)
    obtain ⟨n', hrest', halike'⟩ := ih halike hrest
    obtain ⟨above, hsize, hsize'⟩ := h.sizes
    obtain ⟨above₁, hsize₁, hsize₁'⟩ := halike.sizes
    refine ⟨n', Machine.stepsWithin_succ.mpr ⟨n₁, rest, hstep', by omega, by omega, hrest', ?_⟩, ?_⟩
    · exact congrArg (fun line => line.toList ++ rest) hline.symm
    · rw [← List.append_assoc]
      exact halike'

end CallSite

namespace Program

variable {σ₁ σ₂ : Type} {p : Program}

theorem Visits.target_lt {σ : Type} {options : RunOptions} {sink : Sink σ} {out : σ}
    {phase : Phase} {base : Machine σ} {f : Frame} {target : Nat} (hp : p.Indexed)
    (h : p.Visits options sink out phase (base.withTop f) .running)
    (hreturn : f.returnTo = .frame target) : target < base.frames.size :=
  (h.chain hp).returnTo_lt (Machine.getElem?_withTop_self base f) hreturn

/-- Take two calls of the same function on the same arguments from the same function, in
runs of a program that was read. If the first one ends, then the other ends after as many
steps, and has returned and printed the same, whatever else there is on the machines. For
that it may need as many frames as the first one has used. -/
theorem calls_pure {source version : String} (h : ofSource source version = .ok p)
    {options₁ options₂ : RunOptions} {sink₁ : Sink σ₁} {sink₂ : Sink σ₂} {out₁ : σ₁} {out₂ : σ₂}
    {phase₁ phase₂ : Phase} {base₁ m₁ : Machine σ₁} {base₂ : Machine σ₂} {d : Definition}
    {args : Stack} {caller : String} {target₁ target₂ : Nat}
    (hvisits₁ : p.Visits options₁ sink₁ out₁ phase₁
      (base₁.withTop (Machine.callFrame d args (.frame target₁) caller)) .running)
    (hvisits₂ : p.Visits options₂ sink₂ out₂ phase₂
      (base₂.withTop (Machine.callFrame d args (.frame target₂) caller)) .running)
    (hsink : ∀ out line, (sink₂.write out line).2 = none)
    {used count : Nat} {lines : List String}
    (hcall : (base₁.withTop (Machine.callFrame d args (.frame target₁) caller)).stepsWithin
      (p.context options₁ sink₁) base₁.frames.size (base₁.frames.size + used) count
        = some (lines, m₁))
    (hended : m₁.frames.size = base₁.frames.size)
    (hroom : base₂.frames.size + used ≤ options₂.maxFrames) :
    ∃ values, m₁ = base₁.answered sink₁ target₁ values lines ∧
      (base₂.withTop (Machine.callFrame d args (.frame target₂) caller)).stepsWithin
        (p.context options₂ sink₂) base₂.frames.size (base₂.frames.size + used) count
          = some (lines, base₂.answered sink₂ target₂ values lines) ∧
      (base₂.answered sink₂ target₂ values lines).frames.size = base₂.frames.size := by
  have hp := indexed_of_ofSource h
  let a : CallSite σ₁ :=
    { base := base₁, target := target₁, maxFrames := options₁.maxFrames, sink := sink₁ }
  let b : CallSite σ₂ :=
    { base := base₂, target := target₂, maxFrames := options₂.maxFrames, sink := sink₂ }
  have hhosts : a.Hosts b := ⟨hvisits₁.target_lt hp rfl, hvisits₂.target_lt hp rfl, hsink⟩
  have hstart : a.Alike b [] (a.start d args caller) (b.start d args caller) :=
    CallSite.alike_start hhosts.target d args caller
  obtain ⟨m₂, hsteps, halike⟩ := hstart.stepsWithin hhosts hroom hcall
  obtain ⟨values, rfl, rfl⟩ := halike.ended hended
  exact ⟨values, rfl, hsteps, Machine.size_answered ..⟩

/-- The same call over two and over three frames, under different limits and sinks. It
takes a side of a conditional, prints there and returns a value afterwards. -/
theorem calls_pure_at_two_depths :
    ∃ (p : Program) (d : Definition) (base₁ base₂ m₁ m₂ : Machine String),
      ofSource "fun f as true if 'x' print end 'y' ret end fun g as f end fun h as g end g h"
        defaultVersion = .ok p ∧
      (p.Visits {} .memory "" .top
        (base₁.withTop (Machine.callFrame d [] (.frame 1) "g")) .running ∧
        base₁.frames.size = 2) ∧
      (p.Visits { maxFrames := 5 } (.unflushable "") "" .top
        (base₂.withTop (Machine.callFrame d [] (.frame 2) "g")) .running ∧
        base₂.frames.size = 3) ∧
      (base₁.withTop (Machine.callFrame d [] (.frame 1) "g")).stepsWithin
        (p.context {} .memory) 2 4 8 = some (["x\n"], m₁) ∧
      (base₂.withTop (Machine.callFrame d [] (.frame 2) "g")).stepsWithin
        (p.context { maxFrames := 5 } (.unflushable "")) 3 5 8 = some (["x\n"], m₂) := by
  have hcheck : (do
      let p ← (ofSource
        "fun f as true if 'x' print end 'y' ret end fun g as f end fun h as g end g h"
        defaultVersion).toOption
      let d ← p.functions["f"]?
      let first ← p.trace {} .memory "" 3
      let second ← p.trace { maxFrames := 5 } (.unflushable "") "" 15
      let r ← first.machine.stepsWithin (p.context {} .memory) 2 4 8
      return decide ((first.phase = .top ∧ first.signal = .running ∧
          first.machine.frames.back? = some (Machine.callFrame d [] (.frame 1) "g") ∧
          first.machine.frames.size = 3) ∧
        (second.phase = .top ∧ second.signal = .running ∧
          second.machine.frames.back? = some (Machine.callFrame d [] (.frame 2) "g") ∧
          second.machine.frames.size = 4) ∧
        r.1 = ["x\n"] ∧ r.2.frames.size = 2)) = some true := by
    decide +kernel
  simp only [Option.bind_eq_bind, Option.bind_eq_some_iff] at hcheck
  obtain ⟨p, hp, d, -, ⟨phase₁, first, s₁⟩, htrace₁, ⟨phase₂, second, s₂⟩, htrace₂,
    ⟨lines, m₁⟩, hcall, hcheck⟩ := hcheck
  obtain ⟨⟨rfl, rfl, hback₁, hsize₁⟩, ⟨rfl, rfl, hback₂, hsize₂⟩, rfl, hended⟩ :=
    of_decide_eq_true (Option.some.inj hcheck)
  obtain ⟨base₁, rfl⟩ := Machine.exists_withTop_of_back? hback₁
  obtain ⟨base₂, rfl⟩ := Machine.exists_withTop_of_back? hback₂
  rw [Machine.size_withTop, Nat.succ.injEq] at hsize₁ hsize₂
  have hsource := Except.eq_ok_of_toOption hp
  have hvisits₁ := visits_of_trace htrace₁
  have hvisits₂ := visits_of_trace htrace₂
  have hcall₁ : (base₁.withTop (Machine.callFrame d [] (.frame 1) "g")).stepsWithin
      (p.context {} .memory) base₁.frames.size (base₁.frames.size + 2) 8
        = some (["x\n"], m₁) := by
    rw [hsize₁]
    exact hcall
  have hroom : base₂.frames.size + 2 ≤ 5 := by omega
  obtain ⟨values, -, hcall₂, -⟩ := calls_pure hsource hvisits₁ hvisits₂ (fun _ _ => rfl) hcall₁
    (hended.trans hsize₁.symm) hroom
  rw [hsize₂] at hcall₂
  exact ⟨p, d, base₁, base₂, m₁, _, hsource, ⟨hvisits₁, hsize₁⟩, ⟨hvisits₂, hsize₂⟩, hcall, hcall₂⟩

end Program

end Wordstack
