-- SUMMARY: Runs of programs without loops come to an end, within a number of steps that the program gives.
import Mathlib.Data.Nat.Digits.Defs
import Wordstack.Proofs.Machine.Invariant

/-!
# Programs without loops

In a program without loops a frame only ever moves forward. It may start frames as
long as there is room for them, so neither the number of frames nor the work that
they have left sinks with every step. What does sink is the number that has the work
left in each frame as its digits, the outermost frame first: a frame that starts
another one has moved on itself.
-/

namespace Wordstack

-- -----------------------------------------------------------------------
-- Code without loops
-- -----------------------------------------------------------------------

/-- Code without loops has the jumps of conditionals only. -/
theorem Code.branch_of_no_while {code : Code} (hno : Token.keyword .while_ ∉ code.tokens)
    {start offset : Nat} {jump : Jump} (h : (offset, jump) ∈ code.jumps start) :
    ∃ elseAt endAt, jump = .branch elseAt endAt := by
  induction code generalizing start with
  | done => cases h
  | plain token hplain rest ih =>
    simp only [tokens, List.mem_cons, not_or] at hno
    exact ih hno.2 h
  | ifThen word yes rest ihYes ih =>
    simp only [tokens, List.mem_cons, List.mem_append, not_or] at hno
    simp only [jumps, List.mem_cons, List.mem_append, Prod.mk.injEq] at h
    rcases h with ⟨-, rfl⟩ | h | h
    · exact ⟨_, _, rfl⟩
    · exact ihYes hno.2.1 h
    · exact ih hno.2.2.2 h
  | ifElse word yes no rest ihYes ihNo ih =>
    simp only [tokens, List.mem_cons, List.mem_append, not_or] at hno
    simp only [jumps, List.mem_cons, List.mem_append, Prod.mk.injEq] at h
    rcases h with ⟨-, rfl⟩ | h | h | h
    · exact ⟨_, _, rfl⟩
    · exact ihYes hno.2.1 h
    · exact ihNo hno.2.2.2.1 h
    · exact ih hno.2.2.2.2.2 h
  | loop test body rest ihTest ihBody ih =>
    simp [tokens] at hno

namespace Definition

/-- The body has no loop. -/
def LoopFree (d : Definition) : Prop := Token.keyword .while_ ∉ d.body.toList

instance (d : Definition) : Decidable d.LoopFree :=
  inferInstanceAs (Decidable (Token.keyword .while_ ∉ d.body.toList))

/-- Without loops, all jumps are those of conditionals, and they lead forward. -/
theorem Indexed.jumps_forward {d : Definition} (h : d.Indexed) (hloop : d.LoopFree)
    {offset : Nat} {jump : Jump} (hjump : d.jumps[offset]? = some jump) :
    ∃ elseAt endAt, jump = .branch elseAt endAt ∧ offset < endAt := by
  obtain ⟨code, hcode⟩ := JumpTable.code_of_ofBody h
  have hmem := (JumpTable.getElem?_of_ofBody h hcode offset jump).mp hjump
  unfold LoopFree at hloop
  rw [← hcode] at hloop
  obtain ⟨elseAt, endAt, rfl⟩ := Code.branch_of_no_while hloop hmem
  exact ⟨elseAt, endAt, rfl, (Code.branch_range hmem).1⟩

end Definition

namespace Program

/-- No body of the program has a loop. -/
def LoopFree (p : Program) : Prop :=
  ∀ (name : String) (d : Definition), p.functions[name]? = some d → d.LoopFree

instance (p : Program) : Decidable p.LoopFree :=
  decidable_of_iff (∀ entry ∈ p.functions.toList, entry.2.LoopFree) <| by
    simp only [LoopFree, Prod.forall, Std.ExtTreeMap.mem_toList_iff_getElem?_eq_some]

/-- The number of tokens in the longest body. -/
def longest (p : Program) : Nat := (p.functions.toList.map (·.2.body.size)).max?.getD 0

theorem size_le_longest {p : Program} {name : String} {d : Definition}
    (hd : p.functions[name]? = some d) : d.body.size ≤ p.longest := by
  have hmem : (name, d) ∈ p.functions.toList :=
    Std.ExtTreeMap.mem_toList_iff_getElem?_eq_some.mpr hd
  exact List.le_max?_getD_of_mem (List.mem_map_of_mem hmem)

end Program

-- -----------------------------------------------------------------------
-- Frames only move forward
-- -----------------------------------------------------------------------

/-- The frame that takes the place of the innermost one. -/
def Move.frame : Move → Frame
  | .go f | .start f _ | .ret f _ | .print f _ | .fail f _ => f

namespace Frame

variable {p : Program} {f : Frame} {index : Nat}

/-- The work left in a frame: the tokens before its end, and the end itself. -/
def left (f : Frame) : Nat := f.stop - f.pc + 1

theorem left_goTo_lt {pc : Nat} {stack : Stack} (hlt : f.pc < f.stop) (h : f.pc < pc) :
    (f.goTo pc stack).left < f.left := by
  simp only [left, goTo]
  omega

theorem Standing.left_le (h : f.Standing p) : f.left ≤ p.longest + 1 := by
  obtain ⟨name, hname⟩ := h.registered
  have hsize := Program.size_le_longest hname
  have hstop := h.stop_le
  simp only [left]
  omega

theorem pc_lt_moveOperator (op : Operator) : f.pc < (f.moveOperator op).frame.pc := by
  unfold moveOperator
  cases op.apply f.stack <;> exact Nat.lt_succ_self f.pc

theorem pc_lt_moveIdent (name : String) : f.pc < (f.moveIdent p index name).frame.pc := by
  unfold moveIdent
  cases p.functions[name]? with
  | some d =>
    simp only [moveCall]
    cases Machine.missingBlock? p [d.name, f.func.name] with
    | some e => exact Nat.lt_succ_self f.pc
    | none => cases d.bind f.func.name f.stack <;> exact Nat.lt_succ_self f.pc
  | none =>
    cases Machine.lookup p f name with
    | error e => exact Nat.lt_succ_self f.pc
    | ok value => cases value <;> exact Nat.lt_succ_self f.pc

theorem pc_lt_moveIf (hindexed : f.func.Indexed) (hloop : f.func.LoopFree) (keyword : Keyword) :
    f.pc < (f.moveIf index keyword).frame.pc := by
  unfold moveIf
  split
  next elseAt endAt hjump =>
    obtain ⟨_, _, ⟨⟩, hforward⟩ := hindexed.jumps_forward hloop hjump
    have hlt : f.pc < endAt + 1 := Nat.lt_succ_of_lt hforward
    split
    next => exact Nat.lt_succ_self f.pc
    next condition stack hstack =>
      simp only
      split
      next => exact hlt
      next => cases elseAt <;> exact hlt
  next => exact Nat.lt_succ_self f.pc

theorem pc_lt_moveDo (hindexed : f.func.Indexed) (hloop : f.func.LoopFree) :
    f.pc < f.moveDo.frame.pc := by
  unfold moveDo
  split
  next endAt hjump =>
    obtain ⟨_, _, ⟨⟩, -⟩ := hindexed.jumps_forward hloop hjump
  next => exact Nat.lt_succ_self f.pc

theorem pc_lt_moveEnd (hindexed : f.func.Indexed) (hloop : f.func.LoopFree) :
    f.pc < f.moveEnd.frame.pc := by
  unfold moveEnd
  split
  next whileAt hjump =>
    obtain ⟨_, _, ⟨⟩, -⟩ := hindexed.jumps_forward hloop hjump
  next => exact Nat.lt_succ_self f.pc

/-- Whatever a frame runs in a body without loops, it moves forward. -/
theorem pc_lt_move (hindexed : f.func.Indexed) (hloop : f.func.LoopFree) (token : Token) :
    f.pc < (f.move p index token).frame.pc := by
  cases token with
  | op op => exact pc_lt_moveOperator op
  | ident name => exact pc_lt_moveIdent name
  | keyword k =>
    cases k with
    | if_ => exact pc_lt_moveIf hindexed hloop .if_
    | iff => exact pc_lt_moveIf hindexed hloop .iff
    | do_ => exact pc_lt_moveDo hindexed hloop
    | end_ => exact pc_lt_moveEnd hindexed hloop
    | _ => exact Nat.lt_succ_self f.pc
  | _ => exact Nat.lt_succ_self f.pc

end Frame

-- -----------------------------------------------------------------------
-- The work left in a machine
-- -----------------------------------------------------------------------

namespace Machine

variable {σ : Type} {ctx : Context σ} {base m m' : Machine σ} {s : Signal} {limit : Nat}

/-- The work left in each frame, the innermost one first. -/
def remaining (m : Machine σ) : List Nat := (m.frames.toList.map Frame.left).reverse

/-- The work left in a machine of a program under a limit on frames: a number with a
digit for each frame that there may be, the outermost one first. No frame has as much
work left as the base of that number. -/
def work (p : Program) (limit : Nat) (m : Machine σ) : Nat :=
  Nat.ofDigits (p.longest + 2) m.remaining * (p.longest + 2) ^ (limit - m.frames.size)

@[simp] theorem remaining_withTop (m : Machine σ) (f : Frame) :
    (m.withTop f).remaining = f.left :: m.remaining := by
  simp [remaining]

theorem work_modify (p : Program) (limit : Nat) (m : Machine σ) (index : Nat)
    {change : Frame → Frame} (h : ∀ f, (change f).left = f.left) :
    (m.modify index change).work p limit = m.work p limit := by
  have hmap := congrArg Array.toList (map_modify_of_same h m.frames index)
  rw [Array.toList_map, Array.toList_map] at hmap
  simp only [work, remaining, modify, hmap, Array.size_modify]

theorem work_deliver (p : Program) (limit : Nat) (m : Machine σ) (source : Nat) (value : Token) :
    (m.deliver source value).work p limit = m.work p limit := by
  unfold deliver
  split
  next => rfl
  next =>
    split
    · exact work_modify p limit m _ fun _ => rfl
    · rfl
    · exact work_modify p limit m _ fun _ => rfl

theorem work_withTop (p : Program) (limit : Nat) (m : Machine σ) (f : Frame) :
    (m.withTop f).work p limit = (f.left + (p.longest + 2) * Nat.ofDigits (p.longest + 2)
      m.remaining) * (p.longest + 2) ^ (limit - (m.frames.size + 1)) := by
  rw [work, remaining_withTop, Nat.ofDigits_cons, size_withTop]

theorem base_pow_pos (p : Program) (n : Nat) : 0 < (p.longest + 2) ^ n :=
  Nat.pow_pos (Nat.succ_pos _)

theorem work_withTop_lt (p : Program) (limit : Nat) (m : Machine σ) {f f' : Frame}
    (h : f'.left < f.left) : (m.withTop f').work p limit < (m.withTop f).work p limit := by
  rw [work_withTop, work_withTop]
  exact Nat.mul_lt_mul_of_pos_right (Nat.add_lt_add_right h _) (base_pow_pos p _)

/-- A frame that starts has less work than one token of the frame below it. -/
theorem work_start_lt {p : Program} {f f' g : Frame} (h : f'.left < f.left)
    (hg : g.left ≤ p.longest + 1) (hlimit : base.frames.size + 1 < limit) :
    ((base.withTop f').withTop g).work p limit < (base.withTop f).work p limit := by
  obtain ⟨k, rfl⟩ := Nat.exists_eq_add_of_lt hlimit
  have hinner : base.frames.size + 1 + k + 1 - (base.frames.size + 1 + 1) = k := by omega
  have houter : base.frames.size + 1 + k + 1 - (base.frames.size + 1) = k + 1 := by omega
  rw [work_withTop, work_withTop, remaining_withTop, Nat.ofDigits_cons, size_withTop, hinner,
    houter]
  generalize Nat.ofDigits (p.longest + 2) base.remaining = below
  have hdigit : g.left + (p.longest + 2) * (f'.left + (p.longest + 2) * below)
      < (p.longest + 2) * (f.left + (p.longest + 2) * below) := by
    calc g.left + (p.longest + 2) * (f'.left + (p.longest + 2) * below)
        < (p.longest + 2) + (p.longest + 2) * (f'.left + (p.longest + 2) * below) :=
          Nat.add_lt_add_right (Nat.lt_succ_of_le hg) _
      _ = (p.longest + 2) * (f'.left + 1 + (p.longest + 2) * below) := by ring
      _ ≤ (p.longest + 2) * (f.left + (p.longest + 2) * below) :=
          Nat.mul_le_mul_left _ (Nat.add_le_add_right h _)
  calc (g.left + (p.longest + 2) * (f'.left + (p.longest + 2) * below)) * (p.longest + 2) ^ k
      < (p.longest + 2) * (f.left + (p.longest + 2) * below) * (p.longest + 2) ^ k :=
        Nat.mul_lt_mul_of_pos_right hdigit (base_pow_pos p k)
    _ = (f.left + (p.longest + 2) * below) * (p.longest + 2) ^ (k + 1) := by ring

/-- A frame that ends takes its digit with it. -/
theorem work_finish_lt {p : Program} {f : Frame} (hlimit : base.frames.size < limit) :
    (base.withTop f).finish.work p limit < (base.withTop f).work p limit := by
  obtain ⟨k, rfl⟩ := Nat.exists_eq_add_of_lt hlimit
  have hinner : base.frames.size + k + 1 - (base.frames.size + 1) = k := by omega
  have houter : base.frames.size + k + 1 - base.frames.size = k + 1 := by omega
  rw [work_withTop, work, remaining, frames_finish, ← remaining, hinner, houter]
  generalize Nat.ofDigits (p.longest + 2) base.remaining = below
  calc below * (p.longest + 2) ^ (k + 1)
      = (0 + (p.longest + 2) * below) * (p.longest + 2) ^ k := by ring
    _ < (f.left + (p.longest + 2) * below) * (p.longest + 2) ^ k :=
        Nat.mul_lt_mul_of_pos_right (Nat.add_lt_add_right (Nat.succ_pos _) _) (base_pow_pos p k)

theorem work_perform_lt {f : Frame} {move : Move} {p : Program}
    (hmove : move.Follows p base.frames.size f) (hlt : f.pc < f.stop)
    (hpc : f.pc < move.frame.pc) (hperform : base.perform ctx move = (m', .running)) :
    m'.work p ctx.maxFrames < (base.withTop f).work p ctx.maxFrames := by
  cases hmove with
  | go hf =>
    cases hperform
    exact work_withTop_lt p _ base (Frame.left_goTo_lt hlt hpc)
  | start hf hg hon =>
    simp only [perform, push_eq] at hperform
    split at hperform
    next hlimit =>
      cases hperform
      rw [size_withTop] at hlimit
      exact work_start_lt (Frame.left_goTo_lt hlt hpc) hg.left_le hlimit
    next => cases hperform
  | ret hf =>
    cases hperform
    rw [work_deliver]
    exact work_withTop_lt p _ base (Frame.left_goTo_lt hlt hpc)
  | print hf =>
    simp only [perform] at hperform
    split at hperform
    next =>
      cases hperform
      exact work_withTop_lt p _ base (Frame.left_goTo_lt hlt hpc)
    next => cases hperform
  | fail => cases hperform

/-- Every step leaves less work. -/
theorem work_step_lt (hp : ctx.program.Indexed) (hloop : ctx.program.LoopFree)
    (h : Chain (Frame.Standing ctx.program) ctx.maxFrames m.frames)
    (hstep : m.step ctx = (m', .running)) :
    m'.work ctx.program ctx.maxFrames < m.work ctx.program ctx.maxFrames := by
  rcases m.frames_empty_or_withTop with hempty | ⟨base, f, rfl⟩
  · simp only [step, hempty] at hstep
    cases hstep
  · rw [step_withTop] at hstep
    cases hnext : f.next? with
    | none =>
      rw [hnext] at hstep
      cases hstep
      have hsize := h.size_le
      rw [size_withTop] at hsize
      exact work_finish_lt hsize
    | some token =>
      rw [hnext] at hstep
      obtain ⟨name, hname⟩ := h.top.registered
      exact work_perform_lt (h.top.follows hp hnext) (Frame.next?_eq_some hnext).1
        (Frame.pc_lt_move (hp name f.func hname) (hloop name f.func hname) token) hstep

/-- As many steps as there is work left, and one that finds nothing to do, suffice. -/
theorem exists_run_of_work_lt {fuel : Nat} (hp : ctx.program.Indexed)
    (hloop : ctx.program.LoopFree)
    (h : Chain (Frame.Standing ctx.program) ctx.maxFrames m.frames)
    (hfuel : m.work ctx.program ctx.maxFrames < fuel) : ∃ r, m.run ctx fuel = some r := by
  induction fuel generalizing m with
  | zero => exact absurd hfuel (Nat.not_lt_zero _)
  | succ fuel ih =>
    simp only [run]
    cases hstep : m.step ctx with
    | mk m' s =>
      cases s with
      | running =>
        have hchain : Chain (Frame.Standing ctx.program) ctx.maxFrames m'.frames := by
          rcases kept_step hp h hstep with hchain | ⟨⟨e, he⟩, -⟩
          · exact hchain
          · cases he
        exact ih hchain (Nat.lt_of_lt_of_le (work_step_lt hp hloop h hstep)
          (Nat.le_of_lt_succ hfuel))
      | done => exact ⟨_, rfl⟩
      | failed e => exact ⟨_, rfl⟩

/-- A top-level call has less work than the base to the power of the limit. -/
theorem work_invoke_lt (hp : ctx.program.Indexed) (hempty : m.frames = #[])
    {name callerBlock : String} {returnTo : ReturnTo}
    (hinvoke : m.invoke ctx name callerBlock returnTo = (m', .running)) :
    m'.work ctx.program ctx.maxFrames < (ctx.program.longest + 2) ^ ctx.maxFrames := by
  rcases invoke_cases hinvoke with ⟨e, he, -⟩ | ⟨d, args, rest, hd, -, hlimit, -, rfl⟩
  · cases he
  · rw [hempty] at hlimit
    obtain ⟨k, hk⟩ := Nat.exists_eq_add_of_lt hlimit
    have hleft := (Frame.standing_callFrame hp hd args returnTo callerBlock).left_le
    rw [work_withTop, remaining, hempty, hk]
    simp only [List.size_toArray, List.length_nil, List.map_nil, List.reverse_nil,
      Nat.ofDigits_nil, Nat.mul_zero, Nat.add_zero, Nat.zero_add, Nat.add_sub_cancel]
    rw [Nat.pow_succ']
    exact Nat.mul_lt_mul_of_pos_right (Nat.lt_succ_of_le hleft) (base_pow_pos _ k)

theorem exists_runFunction (hp : ctx.program.Indexed) (hloop : ctx.program.LoopFree)
    (hempty : m.frames = #[]) {name : String} {returnTo : ReturnTo}
    (hreturn : returnTo = .own ∨ returnTo = .root) :
    ∃ r, m.runFunction ctx ((ctx.program.longest + 2) ^ ctx.maxFrames) name returnTo
      = some r := by
  unfold runFunction
  cases hinvoke : m.invoke ctx name globalName returnTo with
  | mk called s =>
    cases s with
    | running =>
      rcases kept_invoke hp hempty hreturn hinvoke with hchain | ⟨⟨e, he⟩, -⟩
      · exact exists_run_of_work_lt hp hloop hchain (work_invoke_lt hp hempty hinvoke)
      · cases he
    | done => exact absurd (congrArg Prod.snd hinvoke) invoke_ne_done
    | failed e => exact ⟨_, rfl⟩

end Machine

-- -----------------------------------------------------------------------
-- Whole runs
-- -----------------------------------------------------------------------

namespace Program

variable {σ : Type} {p : Program}

theorem exists_afterTop (hp : p.Indexed) (hloop : p.LoopFree) (options : RunOptions)
    (sink : Sink σ) {r : Machine σ × Option Error}
    (hframes : ∀ m, r = (m, none) → m.frames = #[]) :
    ∃ outcome, p.afterTop options sink ((p.longest + 2) ^ options.maxFrames) r
      = some outcome := by
  obtain ⟨m, e⟩ := r
  cases e with
  | some e => exact ⟨_, rfl⟩
  | none =>
    simp only [afterTop]
    split
    next =>
      obtain ⟨r, hrun⟩ : ∃ r, m.runFunction (p.context options sink)
          ((p.longest + 2) ^ options.maxFrames) options.entry .root = some r :=
        Machine.exists_runFunction hp hloop (hframes m rfl) (.inr rfl)
      exact ⟨_, Option.map_eq_some_iff.mpr ⟨r, hrun, rfl⟩⟩
    next => split <;> exact ⟨_, rfl⟩

/-- A program without loops comes to an outcome, however its functions call each other,
and in a number of steps that depends on its longest body and on the limit alone. -/
theorem run_loopFree_terminates {source version : String}
    (h : ofSource source version = .ok p) (hloop : p.LoopFree) (options : RunOptions)
    (sink : Sink σ) (out : σ) :
    ∃ outcome, ∀ fuel, (p.longest + 2) ^ options.maxFrames ≤ fuel →
      p.run options sink out fuel = some outcome := by
  have hp := indexed_of_ofSource h
  obtain ⟨r, hrun⟩ : ∃ r, (Machine.init out).runFunction (p.context options sink)
      ((p.longest + 2) ^ options.maxFrames) globalName .own = some r :=
    Machine.exists_runFunction hp hloop rfl (.inl rfl)
  have hframes : ∀ m, r = (m, none) → m.frames = #[] := by
    rintro m rfl
    exact Machine.frames_of_runFunction hrun
  obtain ⟨outcome, hafter⟩ := exists_afterTop hp hloop options sink hframes
  refine ⟨outcome, fun fuel hle => run_of_le ?_ hle⟩
  rw [run_eq]
  exact Option.bind_eq_some_iff.mpr ⟨r, hrun, hafter⟩

/-- Two functions that call each other and the top-level words again, without end but
for the limit. -/
theorem mutual_recursion_terminates :
    ∃ p, ofSource "fun f as g _global end fun g as f end f" defaultVersion = .ok p ∧
      p.LoopFree ∧ ∃ outcome, ∀ fuel, (p.longest + 2) ^ 40 ≤ fuel →
        p.run { maxFrames := 40 } .memory "" fuel = some outcome := by
  have hcheck : (do
      let p ← (ofSource "fun f as g _global end fun g as f end f" defaultVersion).toOption
      return decide p.LoopFree) = some true := by
    decide +kernel
  simp only [Option.bind_eq_bind, Option.bind_eq_some_iff] at hcheck
  obtain ⟨p, hp, hcheck⟩ := hcheck
  have hsource := Except.eq_ok_of_toOption hp
  have hloop : p.LoopFree := of_decide_eq_true (Option.some.inj hcheck)
  exact ⟨p, hsource, hloop, run_loopFree_terminates hsource hloop { maxFrames := 40 } .memory ""⟩

end Program

end Wordstack
