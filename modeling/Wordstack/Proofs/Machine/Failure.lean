-- SUMMARY: What a step that fails leaves of the machine, and what the frame that failed has lost.
import Wordstack.Proofs.Binding
import Wordstack.Proofs.Machine.Limit
import Wordstack.Proofs.Operation.Contract

/-!
# Steps that fail

A step can fail after it has taken values off the stack of the innermost frame and
moved that frame on. It never does more than that: `Frame.Fails` lists, by the error,
which values are gone and where the frame stands, and everything else is as it was.
-/

namespace Wordstack

/-- The errors that are found before anything is taken off the stack. -/
def Error.takesNothing : Error → Bool
  | .stackUnderflow .. | .typeMismatch .. | .noCondition .. | .missingEnd _
  | .unexpectedKeyword .. | .undefinedBlock _ => true
  | _ => false

-- -----------------------------------------------------------------------
-- Moves
-- -----------------------------------------------------------------------

/-- The move may end in an error, and leaves a frame then: it is a failure, or no other
frame may start, or its line is refused. -/
inductive Move.MayFail (limit : Nat) : Move → Frame → Error → Prop where
  | fail (f : Frame) (e : Error) : MayFail limit (.fail f e) f e
  | start (f g : Frame) : MayFail limit (.start f g) f (.frameLimit limit)
  | print (f : Frame) (line reason : String) : MayFail limit (.print f line) f (.writeFailed reason)

namespace Frame

/-- The next token of the frame calls the function. -/
def Calls (program : Program) (f : Frame) (d : Definition) : Prop :=
  ∃ name, f.next? = some (.ident name) ∧ program.functions[name]? = some d

/-- How the next token of the frame can fail: with which error, with which values
gone from the top of the stack, and with the frame at which offset. -/
inductive Fails (program : Program) (limit : Nat) (f : Frame) : Error → Stack → Nat → Prop where
  | early {e : Error} (h : e.takesNothing = true) : Fails program limit f e [] (f.pc + 1)
  | unequal (a b : Token) : Fails program limit f (.assertionFailed a b) [b, a] (f.pc + 1)
  | unprintable (value : Token) : Fails program limit f (.notPrintable value) [value] (f.pc + 1)
  | refused (value : Token) (reason : String) :
      Fails program limit f (.writeFailed reason) [value] (f.pc + 1)
  /-- All values are gone, as there are fewer than parameters. -/
  | short {d : Definition} (hcall : f.Calls program d) (h : f.stack.length < d.params.length) :
      Fails program limit f
        (.missingArguments d.name f.func.name d.params.length f.stack.length) f.stack (f.pc + 1)
  /-- The values of the parameters from the one at the index on are gone. -/
  | rejected {d : Definition} {index : Nat} {p : Param} {taken : Stack} {value : Token}
      (hcall : f.Calls program d) (hp : d.params[index]? = some p)
      (hlength : index + taken.length = d.params.length) (hvalue : taken.getLast? = some value) :
      Fails program limit f (.argumentType d.name index p.type value) taken (f.pc + 1)
  | noCall {d : Definition} {taken : Stack} (hcall : f.Calls program d)
      (hlength : taken.length = d.params.length) :
      Fails program limit f (.frameLimit limit) taken (f.pc + 1)
  /-- The frame is already behind the conditional. -/
  | noBranch {keyword : Keyword} {elseAt : Option Nat} {endAt : Nat}
      (hnext : f.next? = some (.keyword keyword)) (hkeyword : keyword = .if_ ∨ keyword = .iff)
      (hjump : f.func.jumps[f.pc]? = some (.branch elseAt endAt)) (condition : Token) :
      Fails program limit f (.frameLimit limit) [condition] (endAt + 1)

/-- The frame `f` has become `f'` when its next token failed. -/
def FailsAs (program : Program) (limit : Nat) (f f' : Frame) (e : Error) : Prop :=
  ∃ taken, f' = f.goTo f'.pc f'.stack ∧ f.stack = taken ++ f'.stack ∧
    f.Fails program limit e taken f'.pc

variable {program : Program} {limit index : Nat} {f f' : Frame} {e : Error}

theorem failsAs_moveOperator {op : Operator} (h : (f.moveOperator op).MayFail limit f' e) :
    f.FailsAs program limit f' e := by
  unfold moveOperator at h
  cases heffect : op.apply f.stack with
  | next stack =>
    rw [heffect] at h
    cases h
  | ret value stack =>
    rw [heffect] at h
    cases h
  | print line rest =>
    rw [heffect] at h
    cases h
    obtain ⟨value, hstack⟩ := Operator.apply_print heffect
    exact ⟨[value], rfl, hstack, .refused value _⟩
  | fail error rest =>
    rw [heffect] at h
    cases h
    obtain ⟨_, _, rfl, hstack⟩ | ⟨_, _, rfl, hstack⟩ | ⟨a, b, rfl, hstack⟩ |
      ⟨value, rfl, hstack⟩ := Operator.apply_fail heffect
    · exact ⟨[], rfl, hstack, .early rfl⟩
    · exact ⟨[], rfl, hstack, .early rfl⟩
    · exact ⟨[b, a], rfl, hstack, .unequal a b⟩
    · exact ⟨[value], rfl, hstack, .unprintable value⟩

theorem failsAs_moveCall {d : Definition} (hcall : f.Calls program d)
    (h : (f.moveCall program index d).MayFail limit f' e) : f.FailsAs program limit f' e := by
  unfold moveCall at h
  cases hblocks : Machine.missingBlock? program [d.name, f.func.name] with
  | some error =>
    rw [hblocks] at h
    cases h
    obtain ⟨name, rfl⟩ := Machine.missingBlock?_eq_some hblocks
    exact ⟨[], rfl, rfl, .early rfl⟩
  | none =>
    simp only [hblocks] at h
    cases hbind : d.bind f.func.name f.stack with
    | bound args rest =>
      rw [hbind] at h
      cases h
      have hbinds := Definition.binds_bindFrom d f.func.name [] d.params.reverse f.stack
      rw [← Definition.bind, hbind] at hbinds
      cases hbinds with
      | bound hle =>
        rw [List.length_reverse] at hle ⊢
        exact ⟨_, rfl, (List.take_append_drop _ _).symm,
          .noCall hcall (List.length_take_of_le hle)⟩
    | failed error rest =>
      rw [hbind] at h
      cases h
      obtain ⟨rfl, hlt, rfl⟩ | ⟨_, p, value, taken, rfl, hp, hlength, hvalue, hstack⟩ :=
        Definition.bind_failed hbind
      · exact ⟨f.stack, rfl, (List.append_nil _).symm, .short hcall hlt⟩
      · exact ⟨taken, rfl, hstack, .rejected hcall hp hlength hvalue⟩

theorem failsAs_moveIdent {name : String} (hnext : f.next? = some (.ident name))
    (h : (f.moveIdent program index name).MayFail limit f' e) :
    f.FailsAs program limit f' e := by
  unfold moveIdent at h
  cases hd : program.functions[name]? with
  | some d =>
    simp only [hd] at h
    exact failsAs_moveCall ⟨name, hnext, hd⟩ h
  | none =>
    simp only [hd] at h
    cases hlookup : Machine.lookup program f name with
    | error error =>
      rw [hlookup] at h
      cases h
      obtain ⟨function, rfl⟩ := Machine.lookup_eq_error hlookup
      exact ⟨[], rfl, rfl, .early rfl⟩
    | ok value =>
      rw [hlookup] at h
      cases value <;> cases h

theorem failsAs_moveIf {keyword : Keyword} (hnext : f.next? = some (.keyword keyword))
    (hkeyword : keyword = .if_ ∨ keyword = .iff)
    (h : (f.moveIf index keyword).MayFail limit f' e) : f.FailsAs program limit f' e := by
  unfold moveIf at h
  split at h
  next elseAt endAt hjump =>
    split at h
    next hstack =>
      cases h
      exact ⟨[], rfl, rfl, .early rfl⟩
    next condition stack hstack =>
      have hfails : f.FailsAs program limit (f.goTo (endAt + 1) stack) (.frameLimit limit) :=
        ⟨[condition], rfl, hstack, .noBranch hnext hkeyword hjump condition⟩
      simp only at h
      split at h
      next =>
        cases h
        exact hfails
      next =>
        cases elseAt with
        | none => cases h
        | some elseAt =>
          cases h
          exact hfails
  next =>
    cases h
    exact ⟨[], rfl, rfl, .early rfl⟩

theorem failsAs_moveDo (h : f.moveDo.MayFail limit f' e) : f.FailsAs program limit f' e := by
  unfold moveDo at h
  split at h
  next endAt hjump =>
    split at h
    next =>
      cases h
      exact ⟨[], rfl, rfl, .early rfl⟩
    next => cases h
  next =>
    cases h
    exact ⟨[], rfl, rfl, .early rfl⟩

theorem not_mayFail_moveEnd : ¬ f.moveEnd.MayFail limit f' e := by
  unfold moveEnd
  split
  all_goals
    intro h
    cases h

/-- Whatever its next token is, a frame fails in one of the ways listed. -/
theorem failsAs_move {token : Token} (hnext : f.next? = some token)
    (h : (f.move program index token).MayFail limit f' e) : f.FailsAs program limit f' e := by
  cases token with
  | op op => exact failsAs_moveOperator h
  | ident name => exact failsAs_moveIdent hnext h
  | keyword k =>
    cases k with
    | if_ => exact failsAs_moveIf hnext (.inl rfl) h
    | iff => exact failsAs_moveIf hnext (.inr rfl) h
    | do_ => exact failsAs_moveDo h
    | end_ => exact absurd h not_mayFail_moveEnd
    | _ => cases h
  | _ => cases h

end Frame

-- -----------------------------------------------------------------------
-- Steps
-- -----------------------------------------------------------------------

namespace Machine

variable {σ : Type} {ctx : Context σ} {base m m' : Machine σ} {e : Error}

/-- A move that fails has only replaced the innermost frame and, if its line was
refused, reached the sink. -/
theorem perform_failed {move : Move} (h : base.perform ctx move = (m', .failed e)) :
    ∃ f', move.MayFail ctx.maxFrames f' e ∧ m' = { base.withTop f' with out := m'.out } ∧
      ((∀ reason, e ≠ .writeFailed reason) → m'.out = base.out) := by
  cases move with
  | go f => cases h
  | ret f value => cases h
  | fail f error =>
    cases h
    exact ⟨f, .fail f e, rfl, fun _ => rfl⟩
  | start f g =>
    simp only [perform, push_eq] at h
    split at h
    next => cases h
    next =>
      cases h
      exact ⟨f, .start f g, rfl, fun _ => rfl⟩
  | print f line =>
    simp only [perform] at h
    split at h
    next => cases h
    next reason hrefusal =>
      cases h
      exact ⟨f, .print f line reason, rfl, fun hne => absurd rfl (hne reason)⟩

/-- Where a step fails, the number of frames, the root stack and all frames but the
innermost are as they were, and nothing was written unless it was the sink that
failed. The innermost frame has lost values from the top of its stack and has moved
on, as the error says. -/
theorem step_failed_undamaged (h : m.step ctx = (m', .failed e)) :
    m'.frames.size = m.frames.size ∧ m'.root = m.root ∧
    (∀ i, i + 1 ≠ m.frames.size → m'.frames[i]? = m.frames[i]?) ∧
    ((∀ reason, e ≠ .writeFailed reason) → m'.out = m.out) ∧
    ∃ f f' taken, m.frames.back? = some f ∧ m'.frames.back? = some f' ∧
      f' = { f with pc := f'.pc, stack := f'.stack } ∧ f.stack = taken ++ f'.stack ∧
      f.Fails ctx.program ctx.maxFrames e taken f'.pc := by
  rcases m.frames_empty_or_withTop with hempty | ⟨base, f, rfl⟩
  · simp only [step, hempty] at h
    cases h
  rw [step_withTop] at h
  cases hnext : f.next? with
  | none =>
    rw [hnext] at h
    cases h
  | some token =>
    rw [hnext] at h
    obtain ⟨f', hmay, hm', hout⟩ := perform_failed h
    obtain ⟨taken, hf', hstack, hfails⟩ := Frame.failsAs_move hnext hmay
    rw [hm']
    refine ⟨?_, rfl, ?_, hout, f, f', taken, ?_, ?_, hf', hstack, hfails⟩
    · simp only [frames_withTop, Array.size_push]
    · intro i hi
      simp only [frames_withTop, Array.size_push, Array.getElem?_push] at hi ⊢
      rw [if_neg (by omega), if_neg (by omega)]
    · simp only [frames_withTop, Array.back?_push]
    · simp only [frames_withTop, Array.back?_push]

/-- A conditional without room for its side has used up its condition, and the frame
is behind its `end`. -/
theorem step_failed_undamaged_at_branch :
    ∃ m' f', step { program := .empty "", maxFrames := 1, sink := .memory }
        (withTop (init "") (callFrame
          ⟨"f", [], #[.keyword .if_, .keyword .end_], (∅ : JumpTable).insert 0 (.branch none 1)⟩
          [.bool true, .str "x"] .own "f")) = (m', .failed (.frameLimit 1)) ∧
      m'.frames.back? = some f' ∧ f'.pc = 2 ∧ f'.stack = [.str "x"] := by
  have hsignal : (step { program := .empty "", maxFrames := 1, sink := .memory }
      (withTop (init "") (callFrame
        ⟨"f", [], #[.keyword .if_, .keyword .end_], (∅ : JumpTable).insert 0 (.branch none 1)⟩
        [.bool true, .str "x"] .own "f"))).2 = .failed (.frameLimit 1) := by
    decide +kernel
  have hstep := Prod.ext rfl hsignal
  obtain ⟨-, -, -, -, f, f', taken, hf, hf', -, hstack, hfails⟩ := step_failed_undamaged hstep
  refine ⟨_, f', hstep, hf', ?_⟩
  cases hf
  generalize f'.pc = pc at hfails ⊢
  cases hfails with
  | early hearly => cases hearly
  | noCall hcall =>
    obtain ⟨name, hnext, -⟩ := hcall
    cases hnext
  | noBranch hnext hkeyword hjump condition =>
    cases hjump.symm.trans Std.ExtTreeMap.getElem?_insert_self
    exact ⟨rfl, (List.cons.inj hstack).2.symm⟩

end Machine

end Wordstack
