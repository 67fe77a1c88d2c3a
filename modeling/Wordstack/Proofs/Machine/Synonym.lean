-- SUMMARY: A program runs the same with `if` for `iff`; only the word in an error differs.
import Wordstack.Proofs.Binding
import Wordstack.Proofs.Machine.Frames
import Wordstack.Proofs.Machine.Limit
import Wordstack.Proofs.Machine.Trace
import Wordstack.Proofs.Operation.Contract
import Wordstack.Proofs.Source.Synonym

/-!
# Runs with one word for a condition

Frames of a program with `if` for `iff` differ from those of the program in the bodies of
their functions only. They make the same moves (`Frame.move_withIf`), so both programs run in
lockstep on the same stacks. The error of a missing condition is the only one that names the
word.
-/

namespace Wordstack

-- -----------------------------------------------------------------------
-- Errors
-- -----------------------------------------------------------------------

namespace Error

/-- The error with `if` for `iff` where it names the word that has no condition. -/
def withIf : Error → Error
  | .noCondition function k => .noCondition function k.withIf
  | e => e

theorem withIf_of_apply {op : Operator} {stack rest : Stack} {e : Error}
    (h : op.apply stack = .fail e rest) : e.withIf = e := by
  rcases Operator.apply_fail h with
    ⟨_, _, rfl, _⟩ | ⟨_, _, rfl, _⟩ | ⟨_, _, rfl, _⟩ | ⟨_, rfl, _⟩ <;> rfl

theorem withIf_of_bind {d : Definition} {caller : String} {stack rest : Stack} {e : Error}
    (h : d.bind caller stack = .failed e rest) : e.withIf = e := by
  rcases Definition.bind_failed h with ⟨rfl, _⟩ | ⟨_, _, _, _, rfl, _⟩ <;> rfl

theorem withIf_of_missingBlock? {p : Program} {names : List String} {e : Error}
    (h : Machine.missingBlock? p names = some e) : e.withIf = e := by
  obtain ⟨name, -, rfl⟩ := Option.map_eq_some_iff.mp h
  rfl

end Error

theorem Definition.bindFrom_withIf (d : Definition) (caller : String) (done : List Token)
    (params : List Param) (stack : Stack) :
    d.withIf.bindFrom caller done params stack = d.bindFrom caller done params stack := by
  induction params generalizing done stack with
  | nil => simp only [bindFrom]
  | cons param params ih =>
    cases stack with
    | nil => rfl
    | cons value stack =>
      simp only [bindFrom]
      cases param.type.accept value with
      | none => rfl
      | some value => exact ih ..

theorem Definition.bind_withIf (d : Definition) (caller : String) (stack : Stack) :
    d.withIf.bind caller stack = d.bind caller stack :=
  d.bindFrom_withIf caller [] d.params.reverse stack

-- -----------------------------------------------------------------------
-- Moves
-- -----------------------------------------------------------------------

def Frame.withIf (f : Frame) : Frame := { f with func := f.func.withIf }

def Move.withIf : Move → Move
  | .go f => .go f.withIf
  | .start f g => .start f.withIf g.withIf
  | .ret f value => .ret f.withIf value
  | .print f line => .print f.withIf line
  | .fail f e => .fail f.withIf e.withIf

namespace Frame

variable (p : Program) (index : Nat) (f : Frame)

theorem next?_withIf : f.withIf.next? = f.next?.map Token.withIf := by
  simp only [next?, withIf, Definition.withIf, Array.getElem?_map]
  split <;> rfl

theorem callFrame_withIf (d : Definition) (args : Stack) (returnTo : ReturnTo)
    (callerBlock : String) :
    Machine.callFrame d.withIf args returnTo callerBlock =
      (Machine.callFrame d args returnTo callerBlock).withIf := by
  simp only [Machine.callFrame, withIf, Definition.withIf, Array.size_map]

theorem moveOperator_withIf (op : Operator) :
    f.withIf.moveOperator op = (f.moveOperator op).withIf := by
  simp only [moveOperator, withIf]
  cases happly : op.apply f.stack with
  | fail e stack =>
    simp only [Move.withIf, Error.withIf_of_apply happly]
    rfl
  | _ => rfl

theorem moveCall_withIf (d : Definition) :
    f.withIf.moveCall p.withIf index d.withIf = (f.moveCall p index d).withIf := by
  have hblock : Machine.missingBlock? p.withIf [d.withIf.name, f.withIf.func.name] =
      Machine.missingBlock? p [d.name, f.func.name] := rfl
  have hbind : d.withIf.bind f.withIf.func.name f.withIf.stack = d.bind f.func.name f.stack :=
    d.bind_withIf f.func.name f.stack
  simp only [moveCall, hblock, hbind, callFrame_withIf]
  cases hmissing : Machine.missingBlock? p [d.name, f.func.name] with
  | some e =>
    simp only [Move.withIf, Error.withIf_of_missingBlock? hmissing]
    rfl
  | none =>
    cases hbound : d.bind f.func.name f.stack with
    | failed e rest =>
      simp only [Move.withIf, Error.withIf_of_bind hbound]
      rfl
    | bound args rest => rfl

theorem moveIdent_withIf (name : String) :
    f.withIf.moveIdent p.withIf index name = (f.moveIdent p index name).withIf := by
  have hlookup : Machine.lookup p.withIf f.withIf name = Machine.lookup p f name := rfl
  simp only [moveIdent, hlookup, p.functions_withIf]
  cases p.functions[name]? with
  | some d => exact moveCall_withIf p index f d
  | none =>
    simp only [Option.map_none]
    cases hvalue : Machine.lookup p f name with
    | error e =>
      obtain ⟨function, rfl⟩ := Machine.lookup_eq_error hvalue
      rfl
    | ok value => cases value <;> rfl

theorem moveIf_withIf (keyword : Keyword) :
    f.withIf.moveIf index keyword.withIf = (f.moveIf index keyword).withIf := by
  simp only [moveIf, withIf, Definition.withIf]
  split
  next elseAt endAt hjump =>
    cases f.stack with
    | nil => rfl
    | cons condition stack =>
      by_cases hcondition : condition = .bool true
      · simp only [if_pos hcondition]
        rfl
      · simp only [if_neg hcondition]
        cases elseAt <;> rfl
  next => rfl

theorem moveDo_withIf : f.withIf.moveDo = f.moveDo.withIf := by
  simp only [moveDo, withIf, Definition.withIf]
  split
  next => cases f.stack <;> rfl
  next => rfl

theorem moveEnd_withIf : f.withIf.moveEnd = f.moveEnd.withIf := by
  simp only [moveEnd, withIf, Definition.withIf]
  split <;> rfl

/-- The frame makes the move of the word that was there before. -/
theorem move_withIf (token : Token) :
    f.withIf.move p.withIf index token.withIf = (f.move p index token).withIf := by
  cases token with
  | op op => exact moveOperator_withIf f op
  | ident name => exact moveIdent_withIf p index f name
  | keyword k =>
    cases k with
    | if_ => exact moveIf_withIf index f .if_
    | iff => exact moveIf_withIf index f .iff
    | do_ => exact moveDo_withIf f
    | end_ => exact moveEnd_withIf f
    | _ => rfl
  | _ => rfl

end Frame

-- -----------------------------------------------------------------------
-- Steps
-- -----------------------------------------------------------------------

def Signal.withIf : Signal → Signal
  | .failed e => .failed e.withIf
  | s => s

def Context.withIf {σ : Type} (ctx : Context σ) : Context σ :=
  { ctx with program := ctx.program.withIf }

namespace Machine

variable {σ : Type}

/-- The machine with `if` for `iff` in the functions that its frames run. -/
def withIf (m : Machine σ) : Machine σ := { m with frames := m.frames.map Frame.withIf }

variable (ctx : Context σ) (m base : Machine σ)

theorem init_withIf (out : σ) : (init out).withIf = init out := by
  simp only [init, withIf, List.map_toArray, List.map_nil]

theorem withTop_withIf (f : Frame) : (m.withTop f).withIf = m.withIf.withTop f.withIf := by
  simp only [withTop, withIf, Array.map_push]

theorem size_withIf : m.withIf.frames.size = m.frames.size := Array.size_map

theorem push_withIf (limit : Nat) (f : Frame) :
    m.withIf.push limit f.withIf = (m.push limit f).map withIf Signal.withIf := by
  simp only [push, size_withIf]
  split
  · simp only [withIf, Prod.map_apply, Array.map_push]
    rfl
  · rfl

theorem modify_withIf {change : Frame → Frame} (h : ∀ f, (change f).withIf = change f.withIf)
    (index : Nat) : m.withIf.modify index change = (m.modify index change).withIf := by
  have hframes : (m.frames.map Frame.withIf).modify index change =
      (m.frames.modify index change).map Frame.withIf := by
    apply Array.ext_getElem?
    intro i
    simp only [Array.getElem?_modify, Array.getElem?_map]
    split
    · simp only [Option.map_map, Function.comp_def, h]
    · rfl
  simp only [modify, withIf, hframes]

theorem deliver_withIf (source : Nat) (value : Token) :
    m.withIf.deliver source value = (m.deliver source value).withIf := by
  have hframe : m.withIf.frames[source]? = m.frames[source]?.map Frame.withIf :=
    Array.getElem?_map
  simp only [deliver, hframe]
  cases m.frames[source]? with
  | none => rfl
  | some f =>
    have hreturn : f.withIf.returnTo = f.returnTo := rfl
    simp only [Option.map_some, hreturn]
    cases f.returnTo with
    | own => exact modify_withIf m (by intro f; rfl) source
    | root => rfl
    | frame target => exact modify_withIf m (by intro f; rfl) target

theorem perform_withIf (move : Move) :
    base.withIf.perform ctx.withIf move.withIf =
      (base.perform ctx move).map withIf Signal.withIf := by
  cases move with
  | go f => simp only [perform, Move.withIf, Prod.map_apply, withTop_withIf, Signal.withIf]
  | start f g =>
    simp only [perform, Move.withIf, ← withTop_withIf]
    exact push_withIf _ _ _
  | ret f value =>
    simp only [perform, Move.withIf, Prod.map_apply, ← withTop_withIf, size_withIf, deliver_withIf,
      Signal.withIf]
  | print f line =>
    cases hwrite : ctx.sink.write base.out line with
    | mk out refusal =>
      have hwrite' : ctx.withIf.sink.write base.withIf.out line = (out, refusal) := hwrite
      cases refusal with
      | none =>
        simp only [perform, Move.withIf, hwrite, hwrite', ← withTop_withIf]
        rfl
      | some reason =>
        simp only [perform, Move.withIf, hwrite, hwrite', ← withTop_withIf]
        rfl
  | fail f e => simp only [perform, Move.withIf, Prod.map_apply, withTop_withIf, Signal.withIf]

theorem finish_withIf : m.withIf.finish = m.finish.withIf := by
  have hback : m.withIf.frames.back? = m.frames.back?.map Frame.withIf := by
    simp [withIf]
  have hpop : (m.frames.map Frame.withIf).pop = m.frames.pop.map Frame.withIf := by
    simp
  simp only [finish, hback]
  cases m.frames.back? with
  | none => rfl
  | some f =>
    have hkind : f.withIf.kind = f.kind := rfl
    have hreturn : f.withIf.returnTo = f.returnTo := rfl
    simp only [Option.map_some, hkind, hreturn, withIf, hpop]
    cases f.kind <;> cases f.returnTo <;> rfl

/-- A step leads to the same machine and the same signal with `if` for `iff`. -/
theorem step_withIf : m.withIf.step ctx.withIf =
    (m.step ctx).map withIf Signal.withIf := by
  rcases m.frames_empty_or_withTop with hempty | ⟨base, f, rfl⟩
  · have hempty' : m.withIf.frames = #[] := by simp [withIf, hempty]
    simp only [step, hempty, hempty', Array.back?_empty]
    rfl
  · rw [withTop_withIf, step_withTop, step_withTop, f.next?_withIf]
    cases f.next? with
    | none =>
      simp only [Option.map_none, ← withTop_withIf, finish_withIf]
      rfl
    | some token =>
      rw [Option.map_some, size_withIf]
      have hmove := f.move_withIf ctx.program base.frames.size token
      have hperform := perform_withIf ctx base (f.move ctx.program base.frames.size token)
      rw [← hmove] at hperform
      exact hperform

theorem invoke_withIf (name callerBlock : String) (returnTo : ReturnTo) :
    m.withIf.invoke ctx.withIf name callerBlock returnTo =
      (m.invoke ctx name callerBlock returnTo).map withIf Signal.withIf := by
  have hfunction : ctx.withIf.program.functions[name]? =
      ctx.program.functions[name]?.map Definition.withIf := ctx.program.functions_withIf name
  simp only [invoke, hfunction]
  cases ctx.program.functions[name]? with
  | none => rfl
  | some d =>
    have hblock : missingBlock? ctx.withIf.program [d.withIf.name, callerBlock] =
        missingBlock? ctx.program [d.name, callerBlock] := rfl
    have hbind : d.withIf.bind callerBlock m.withIf.root = d.bind callerBlock m.root :=
      d.bind_withIf callerBlock m.root
    simp only [Option.map_some, hblock, hbind]
    cases hmissing : missingBlock? ctx.program [d.name, callerBlock] with
    | some e =>
      simp only [Prod.map_apply, Signal.withIf, Error.withIf_of_missingBlock? hmissing]
    | none =>
      cases hbound : d.bind callerBlock m.root with
      | failed e rest =>
        simp only [Prod.map_apply, Signal.withIf, Error.withIf_of_bind hbound]
        rfl
      | bound args rest =>
        simp only [Frame.callFrame_withIf]
        exact push_withIf { m with root := rest } _ _

-- -----------------------------------------------------------------------
-- Runs
-- -----------------------------------------------------------------------

theorem run_withIf (fuel : Nat) : m.withIf.run ctx.withIf fuel =
    (m.run ctx fuel).map (Prod.map withIf (Option.map Error.withIf)) := by
  induction fuel generalizing m with
  | zero => rfl
  | succ fuel ih =>
    simp only [run, step_withIf]
    cases m.step ctx with
    | mk m' s =>
      cases s with
      | running => exact ih m'
      | done => rfl
      | failed e => rfl

theorem runFunction_withIf (fuel : Nat) (name : String) (returnTo : ReturnTo) :
    m.withIf.runFunction ctx.withIf fuel name returnTo =
      (m.runFunction ctx fuel name returnTo).map (Prod.map withIf (Option.map Error.withIf)) := by
  simp only [runFunction, invoke_withIf]
  cases m.invoke ctx name globalName returnTo with
  | mk m' s =>
    cases s with
    | failed e => rfl
    | _ => exact run_withIf ctx m' fuel

end Machine

/-- The outcome with `if` for `iff` in the error that ended the run, if one did. -/
def Outcome.withIf {σ : Type} (outcome : Outcome σ) : Outcome σ :=
  { outcome with result := outcome.result.mapError Error.withIf }

def Moment.withIf {σ : Type} (moment : Moment σ) : Moment σ :=
  { moment with machine := moment.machine.withIf, signal := moment.signal.withIf }

namespace Program

variable {σ : Type} (p : Program) (options : RunOptions) (sink : Sink σ) (out : σ)

theorem context_withIf : p.withIf.context options sink = (p.context options sink).withIf := rfl

theorem complete_withIf (m : Machine σ) : complete sink m.withIf = (complete sink m).withIf := by
  have hout : m.withIf.out = m.out := rfl
  simp only [complete, hout]
  cases sink.flush m.out with
  | mk out refusal => cases refusal <;> rfl

theorem afterTop_withIf (fuel : Nat) (r : Machine σ × Option Error) :
    p.withIf.afterTop options sink fuel (r.map Machine.withIf (Option.map Error.withIf)) =
      (p.afterTop options sink fuel r).map Outcome.withIf := by
  obtain ⟨m, e⟩ := r
  cases e with
  | some e => rfl
  | none =>
    simp only [afterTop, Prod.map_apply, Option.map_none, p.contains_withIf]
    split
    · have hrun := Machine.runFunction_withIf (p.context options sink) m fuel options.entry .root
      rw [context_withIf, hrun, Option.map_map, Option.map_map]
      congr 1
      funext r
      obtain ⟨m, e⟩ := r
      cases e with
      | some e => rfl
      | none => exact complete_withIf sink m
    · split
      · rfl
      · rw [complete_withIf]
        rfl

/-- A run has the same outcome with `if` for `iff`. -/
theorem run_withIf (fuel : Nat) : p.withIf.run options sink out fuel =
    (p.run options sink out fuel).map Outcome.withIf := by
  have htop := Machine.runFunction_withIf (p.context options sink) (.init out) fuel globalName .own
  rw [Machine.init_withIf] at htop
  rw [run_eq, run_eq, context_withIf, htop]
  cases (Machine.init out).runFunction (p.context options sink) fuel globalName .own with
  | none => rfl
  | some r => exact afterTop_withIf p options sink fuel r

theorem next?_withIf (moment : Moment σ) : moment.withIf.next? p.withIf options sink =
    (moment.next? p options sink).map Moment.withIf := by
  obtain ⟨phase, m, s⟩ := moment
  cases s with
  | running =>
    simp only [Moment.next?, Moment.withIf, Signal.withIf, context_withIf, Machine.step_withIf]
    rfl
  | failed e => rfl
  | done =>
    cases phase with
    | fresh =>
      simp only [Moment.next?, Moment.withIf, Signal.withIf, context_withIf, Machine.invoke_withIf]
      rfl
    | top =>
      simp only [Moment.next?, Moment.withIf, Signal.withIf, context_withIf, Machine.invoke_withIf,
        p.contains_withIf]
      split <;> rfl
    | entry => rfl

/-- A run goes through the same moments with `if` for `iff`. -/
theorem trace_withIf (n : Nat) : p.withIf.trace options sink out n =
    (p.trace options sink out n).map Moment.withIf := by
  induction n with
  | zero =>
    simp only [trace, Option.map_some, Moment.withIf, Machine.init_withIf]
    rfl
  | succ n ih =>
    rw [trace, trace, ih]
    cases p.trace options sink out n with
    | none => rfl
    | some moment => exact next?_withIf p options sink moment

/-- `iff` means `if`. With the one for the other a body has the same jumps, and a program that
was read is the one that is read if the word is replaced in its text. Both go through the same
moments and end with the same stack, output or error; only the word may differ that an error
of a missing condition names. -/
theorem iff_means_if {p : Program} {source version : String}
    (h : ofSource source version = .ok p) :
    (∀ (function : String) (body : List Token),
      JumpTable.ofBody function (body.map Token.withIf) = JumpTable.ofBody function body) ∧
    (∀ (name : String) (d : Definition), p.functions[name]? = some d →
      p.withIf.functions[name]? = some d.withIf ∧ d.withIf.jumps = d.jumps ∧
      Definition.make d.name d.params (d.body.toList.map Token.withIf) = .ok d.withIf) ∧
    (∃ lexemes, Lexeme.scan (Lexeme.dropReturns source) = .ok lexemes ∧
      ofLexemes (lexemes.map Lexeme.withIf) version = .ok p.withIf) ∧
    ∀ (σ : Type) (options : RunOptions) (sink : Sink σ) (out : σ),
      (∀ n, p.withIf.trace options sink out n =
        (p.trace options sink out n).map Moment.withIf) ∧
      ∀ fuel, p.withIf.run options sink out fuel =
        (p.run options sink out fuel).map Outcome.withIf := by
  refine ⟨JumpTable.ofBody_withIf, ?_, ?_, ?_⟩
  · intro name d hd
    have hindexed : d.Indexed := indexed_of_ofSource h name d hd
    have hmake : Definition.make d.name d.params d.body.toList = .ok d := by
      rw [Definition.make, show JumpTable.ofBody d.name d.body.toList = .ok d.jumps from hindexed]
      rfl
    refine ⟨by rw [p.functions_withIf, hd]; rfl, rfl, ?_⟩
    rw [Definition.make_withIf, hmake]
    rfl
  · unfold ofSource at h
    cases hscan : Lexeme.scan (Lexeme.dropReturns source) with
    | error e =>
      rw [hscan] at h
      cases h
    | ok lexemes =>
      rw [hscan] at h
      exact ⟨lexemes, rfl, ofLexemes_withIf h⟩
  · intro σ options sink out
    exact ⟨trace_withIf p options sink out, run_withIf p options sink out⟩

/-- After the same output a missing condition is reported by the word that stands there. -/
theorem iff_means_if_without_condition :
    ∃ p, ofSource "true if 1 print end iff 2 print end" "1.0" = .ok p ∧
      p.run {} .memory "" 9 =
        some { out := "1\n", result := .error (.noCondition globalName .iff) } ∧
      p.withIf.run {} .memory "" 9 =
        some { out := "1\n", result := .error (.noCondition globalName .if_) } := by
  have hcheck : (do
      let p ← (ofSource "true if 1 print end iff 2 print end" "1.0").toOption
      let r ← (Machine.init "").runFunction (p.context {} .memory) 9 globalName .own
      return decide (r.1.out = "1\n" ∧ r.2 = some (.noCondition globalName .iff))) = some true := by
    decide +kernel
  simp only [Option.bind_eq_bind, Option.bind_eq_some_iff] at hcheck
  obtain ⟨p, hp, ⟨m, e⟩, hfirst, hcheck⟩ := hcheck
  obtain ⟨hout, rfl⟩ := of_decide_eq_true (Option.some.inj hcheck)
  have hsource := Except.eq_ok_of_toOption hp
  have hrun : p.run {} .memory "" 9 =
      some { out := "1\n", result := .error (.noCondition globalName .iff) } := by
    rw [run_eq, hfirst, ← hout]
    rfl
  refine ⟨p, hsource, hrun, ?_⟩
  rw [((iff_means_if hsource).2.2.2 String {} .memory "").2 9, hrun]
  rfl

end Program

end Wordstack
