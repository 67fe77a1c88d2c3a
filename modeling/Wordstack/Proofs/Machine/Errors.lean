-- SUMMARY: Which errors reading a program can end with, and which are left once it runs.
import Wordstack.Proofs.Evaluator.Agreement
import Wordstack.Proofs.Machine.Life
import Wordstack.Proofs.Machine.Limit

/-!
# Errors of reading and of running

Reading a text fails over its words or its structure. What the machine checks again
while it runs cannot fail for a program that was read: each structural keyword has its
jump, and each function a block. `Error.ofRunning` lists the errors that are left. A
missing entry function is neither: it is found between the two calls at top level.
-/

namespace Wordstack

-- -----------------------------------------------------------------------
-- Reading
-- -----------------------------------------------------------------------

/-- The error lies in the words of a text or in its structure. -/
def Error.OfReading (e : Error) : Prop :=
  (e.errorClass = .lexical ∨ e.errorClass = .structural) ∧ ∀ entry, e ≠ .entryNotFound entry

theorem JumpTable.indexFrom_error {function : String} {jumps : JumpTable}
    {opened : List OpenBlock} {pos : Nat} {tokens : List Token} {e : Error}
    (h : indexFrom function jumps opened pos tokens = .error e) :
    e = .missingEnd function ∨ ∃ keyword, e = .unexpectedKeyword function keyword := by
  fun_induction indexFrom function jumps opened pos tokens <;> grind

theorem Definition.make_error {name : String} {params : List Param} {body : List Token} {e : Error}
    (h : make name params body = .error e) : e.OfReading := by
  unfold make at h
  cases hjumps : JumpTable.ofBody name body with
  | ok jumps =>
    rw [hjumps] at h
    cases h
  | error e' =>
    rw [hjumps] at h
    cases h
    rcases JumpTable.indexFrom_error hjumps with rfl | ⟨keyword, rfl⟩
    · exact ⟨.inr rfl, by simp⟩
    · exact ⟨.inr rfl, by simp⟩

namespace Reading

theorem pushBody_error {r : Reading} {name : String} {params : List Param} {depth : Nat}
    {body : List Token} {token : Token} {e : Error}
    (h : r.pushBody name params depth body token = .error e) : e.OfReading := by
  unfold pushBody at h
  split at h
  next =>
    cases hmake : Definition.make name params.reverse body.reverse with
    | error e' =>
      rw [hmake] at h
      cases h
      exact Definition.make_error hmake
    | ok d =>
      rw [hmake] at h
      cases h
  next => cases h
  next =>
    cases h
    exact ⟨.inr rfl, by simp⟩
  next => cases h
  next => cases h

theorem push_error {r : Reading} {lexeme : Lexeme} {e : Error} (h : r.push lexeme = .error e) :
    e.OfReading := by
  unfold push at h
  split at h
  next => split at h <;> cases h
  next =>
    split at h
    next =>
      cases h
      exact ⟨.inr rfl, by simp⟩
    next =>
      split at h
      next =>
        cases h
        exact ⟨.inr rfl, by simp⟩
      next => cases h
  next =>
    split at h
    next => cases h
    next =>
      split at h
      next =>
        cases h
        exact ⟨.inr rfl, by simp⟩
      next =>
        split at h
        next => cases h
        next =>
          cases h
          exact ⟨.inr rfl, by simp⟩
  next => exact pushBody_error h

theorem foldlM_push_error {r : Reading} {lexemes : List Lexeme} {e : Error}
    (h : lexemes.foldlM push r = .error e) : e.OfReading := by
  induction lexemes generalizing r with
  | nil => cases h
  | cons lexeme rest ih =>
    rw [List.foldlM_cons] at h
    cases hpush : r.push lexeme with
    | error e' =>
      rw [hpush] at h
      cases h
      exact push_error hpush
    | ok between =>
      rw [hpush] at h
      exact ih h

theorem finish_error {r : Reading} {e : Error} (h : r.finish = .error e) : e.OfReading := by
  unfold finish at h
  split at h
  next =>
    cases hmake : Definition.make globalName [] r.top.reverse with
    | error e' =>
      rw [hmake] at h
      cases h
      exact Definition.make_error hmake
    | ok d =>
      rw [hmake] at h
      cases h
  all_goals
    cases h
    exact ⟨.inr rfl, by simp⟩

end Reading

theorem Lexeme.scan_error {source : String} {e : Error} (h : scan source = .error e) :
    e.OfReading := by
  unfold scan Scan.finish at h
  split at h
  next => cases h
  next =>
    cases h
    exact ⟨.inl rfl, by simp⟩

/-- Reading fails over the words of a text or over its structure. -/
theorem Program.ofSource_error {source version : String} {e : Error}
    (h : ofSource source version = .error e) : e.OfReading := by
  unfold ofSource at h
  cases hscan : Lexeme.scan (Lexeme.dropReturns source) with
  | error e' =>
    rw [hscan] at h
    cases h
    exact Lexeme.scan_error hscan
  | ok lexemes =>
    rw [hscan] at h
    change ofLexemes lexemes version = .error e at h
    unfold ofLexemes at h
    cases hread : lexemes.foldlM Reading.push { program := empty version } with
    | error e' =>
      rw [hread] at h
      cases h
      exact Reading.foldlM_push_error hread
    | ok r =>
      rw [hread] at h
      exact Reading.finish_error h

-- -----------------------------------------------------------------------
-- Moves
-- -----------------------------------------------------------------------

/-- The errors that a program can run into after it has been read. -/
def Error.ofRunning : Error → Bool
  | .stackUnderflow .. | .typeMismatch .. | .assertionFailed .. | .notPrintable _
  | .missingArguments .. | .argumentType .. | .noCondition .. | .frameLimit _
  | .writeFailed _ => true
  | _ => false

theorem Definition.ofRunning_of_bind_failed {d : Definition} {caller : String}
    {stack rest : Stack} {e : Error} (h : d.bind caller stack = .failed e rest) :
    e.ofRunning = true := by
  obtain ⟨rfl, -⟩ | ⟨_, _, _, _, rfl, -⟩ := bind_failed h
  · rfl
  · rfl

namespace Frame

variable {p : Program} {index : Nat} {f f' g : Frame} {token : Token} {e : Error}

/-- The function of the frame and the one that called it have blocks. -/
structure HasBlocks (p : Program) (f : Frame) : Prop where
  own : p.blocks.contains f.func.name = true
  caller : p.blocks.contains f.callerBlock = true

theorem HasBlocks.congr (h : f.HasBlocks p) (hg : g.fixed = f.fixed) : g.HasBlocks p := by
  simp only [fixed, Frame.mk.injEq] at hg
  obtain ⟨-, hfunc, -, -, -, -, hcaller⟩ := hg
  exact ⟨hfunc ▸ h.own, hcaller ▸ h.caller⟩

theorem ofRunning_of_moveOperator {op : Operator} (h : f.moveOperator op = .fail f' e) :
    e.ofRunning = true := by
  unfold moveOperator at h
  cases heffect : op.apply f.stack with
  | fail error rest =>
    simp only [heffect] at h
    cases h
    obtain ⟨_, _, rfl, -⟩ | ⟨_, _, rfl, -⟩ | ⟨_, _, rfl, -⟩ | ⟨_, rfl, -⟩ :=
      Operator.apply_fail heffect
    all_goals rfl
  | _ => simp [heffect] at h

/-- A name is looked up in blocks that are there. -/
theorem HasBlocks.lookup_ne_error (h : f.HasBlocks p) (name : String) :
    Machine.lookup p f name ≠ .error e := by
  obtain ⟨own, -, hown⟩ := Program.block_of_contains h.own
  obtain ⟨outer, -, houter⟩ := Program.block_of_contains h.caller
  simp only [Machine.lookup, hown, houter, bind, Except.bind]
  cases own[name]? with
  | none => simp [pure, Except.pure]
  | some value => simp [pure, Except.pure]

/-- A call of a registered function finds the blocks that it needs. -/
theorem HasBlocks.missingBlock?_eq (hp : p.Regular) (h : f.HasBlocks p) {name : String}
    {d : Definition} (hd : p.functions[name]? = some d) :
    Machine.missingBlock? p [d.name, f.func.name] = none := by
  simp [Machine.missingBlock?, hp.named name d hd, h.own]

theorem HasBlocks.ofRunning_of_moveIdent (hp : p.Regular) (h : f.HasBlocks p) {name : String}
    (hmove : f.moveIdent p index name = .fail f' e) : e.ofRunning = true := by
  unfold moveIdent at hmove
  cases hd : p.functions[name]? with
  | some d =>
    simp only [hd, moveCall, h.missingBlock?_eq hp hd] at hmove
    cases hbind : d.bind f.func.name f.stack with
    | failed error rest =>
      rw [hbind] at hmove
      cases hmove
      exact Definition.ofRunning_of_bind_failed hbind
    | bound args rest =>
      rw [hbind] at hmove
      cases hmove
  | none =>
    simp only [hd] at hmove
    cases hlookup : Machine.lookup p f name with
    | error error => exact absurd hlookup (h.lookup_ne_error name)
    | ok value => cases value <;> simp [hlookup] at hmove

theorem ofRunning_of_moveIf {elseAt : Option Nat} {endAt : Nat}
    (hjump : f.func.jumps[f.pc]? = some (.branch elseAt endAt)) {keyword : Keyword}
    (hmove : f.moveIf index keyword = .fail f' e) : e.ofRunning = true := by
  simp only [moveIf, hjump] at hmove
  split at hmove
  next =>
    cases hmove
    rfl
  next =>
    split at hmove
    next => cases hmove
    next => cases elseAt <;> cases hmove

theorem ofRunning_of_moveDo {endAt : Nat} (hjump : f.func.jumps[f.pc]? = some (.exit endAt))
    (hmove : f.moveDo = .fail f' e) : e.ofRunning = true := by
  simp only [moveDo, hjump] at hmove
  split at hmove
  next =>
    cases hmove
    rfl
  next => cases hmove

/-- A frame that stands inside its code finds all jumps and blocks that it needs. -/
theorem Standing.ofRunning_of_move (hp : p.Regular) (h : f.Standing p)
    (hblocks : f.HasBlocks p) (hnext : f.next? = some token)
    (hmove : f.move p index token = .fail f' e) :
    e.ofRunning = true := by
  obtain ⟨hlt, hbody⟩ := next?_eq_some hnext
  cases h.spot hlt with
  | @plain token' htoken hplain =>
    obtain rfl : token' = token := Option.some.inj (htoken.symm.trans hbody)
    cases token' with
    | op op => exact ofRunning_of_moveOperator hmove
    | ident name => exact hblocks.ofRunning_of_moveIdent hp hmove
    | keyword k =>
      cases k with
      | fun_ | as_ => cases hmove
      | _ => cases hplain
    | _ => cases hmove
  | @conditional word _ _ _ htoken hjump =>
    obtain rfl : _ = token := Option.some.inj (htoken.symm.trans hbody)
    cases word <;> exact ofRunning_of_moveIf hjump hmove
  | while_ htoken =>
    obtain rfl : _ = token := Option.some.inj (htoken.symm.trans hbody)
    cases hmove
  | do_ htoken hjump =>
    obtain rfl : _ = token := Option.some.inj (htoken.symm.trans hbody)
    exact ofRunning_of_moveDo hjump hmove
  | again htoken =>
    obtain rfl : _ = token := Option.some.inj (htoken.symm.trans hbody)
    exact absurd hmove moveEnd_ne_fail

theorem HasBlocks.starts (hp : p.Regular) (h : f.HasBlocks p) (hg : f.Starts p index g) :
    g.HasBlocks p := by
  cases hg with
  | @call name d args hd => exact ⟨hp.named name d hd, h.own⟩
  | branch pc stack start stop => exact ⟨h.own, h.caller⟩

theorem HasBlocks.lasting (hp : p.Regular) : Lasting p (HasBlocks p) :=
  ⟨fun h hg => h.congr hg, fun h hg => h.starts hp hg⟩

end Frame

-- -----------------------------------------------------------------------
-- Steps and calls at top level
-- -----------------------------------------------------------------------

namespace Machine

variable {σ : Type} {ctx : Context σ} {base m m' : Machine σ} {s : Signal} {e : Error} {f : Frame}

theorem ofRunning_of_push {limit : Nat} (h : m.push limit f = (m', .failed e)) :
    e.ofRunning = true := by
  rw [push_eq] at h
  split at h
  next => cases h
  next =>
    cases h
    rfl

theorem ofRunning_of_perform {move : Move} (hfail : ∀ f e, move = .fail f e → e.ofRunning = true)
    (hperform : base.perform ctx move = (m', .failed e)) : e.ofRunning = true := by
  cases move with
  | go f => cases hperform
  | start f g => exact ofRunning_of_push hperform
  | ret f value => cases hperform
  | print f line =>
    simp only [perform] at hperform
    split at hperform
    next => cases hperform
    next =>
      cases hperform
      rfl
  | fail f e' =>
    cases hperform
    exact hfail f e rfl

/-- A step that fails does so with an error of running. -/
theorem ofRunning_of_step (hp : ctx.program.Regular)
    (hchain : Chain (Frame.Standing ctx.program) ctx.maxFrames m.frames)
    (h : ∀ g ∈ m.frames, g.HasBlocks ctx.program) (hstep : m.step ctx = (m', .failed e)) :
    e.ofRunning = true := by
  rcases m.frames_empty_or_withTop with hempty | ⟨base, f, rfl⟩
  · simp only [step, hempty] at hstep
    cases hstep
  · rw [step_withTop] at hstep
    cases hnext : f.next? with
    | none =>
      rw [hnext] at hstep
      cases hstep
    | some token =>
      rw [hnext] at hstep
      refine ofRunning_of_perform ?_ hstep
      intro f' e' hmove
      exact hchain.top.ofRunning_of_move hp (h f Array.mem_push_self) hnext hmove

/-- So does a call of a registered function at top level. -/
theorem ofRunning_of_invoke (hp : ctx.program.Regular) {name : String} {d : Definition}
    (hd : ctx.program.functions[name]? = some d) {returnTo : ReturnTo}
    (hinvoke : m.invoke ctx name globalName returnTo = (m', .failed e)) : e.ofRunning = true := by
  have hblocks : missingBlock? ctx.program [d.name, globalName] = none := by
    simp [missingBlock?, hp.named name d hd, hp.global]
  simp only [invoke, hd, hblocks] at hinvoke
  split at hinvoke
  next error rest hbind =>
    cases hinvoke
    exact Definition.ofRunning_of_bind_failed hbind
  next => exact ofRunning_of_push hinvoke

end Machine

-- -----------------------------------------------------------------------
-- Runs
-- -----------------------------------------------------------------------

theorem Program.regular_of_ofSource {source version : String} {p : Program}
    (h : ofSource source version = .ok p) : p.Regular := by
  obtain ⟨items, hsplits⟩ := splits_of_ofSource h
  exact (describes_of_ofSource h hsplits).regular

namespace Program

variable {σ : Type} {p : Program} {options : RunOptions} {sink : Sink σ} {out : σ}
  {phase : Phase} {m : Machine σ} {s : Signal} {e : Error}

theorem Visits.blocks (hp : p.Regular) (h : p.Visits options sink out phase m s) :
    ∀ g ∈ m.frames, g.HasBlocks p :=
  h.all (Frame.HasBlocks.lasting hp) fun name d _ _ hd => ⟨hp.named name d hd, hp.global⟩

/-- An action that fails in the course of a run does so with an error of running. -/
theorem Visits.ofRunning (hp : p.Regular) (hglobal : p.functions.contains globalName = true)
    (h : p.Visits options sink out phase m (.failed e)) : e.ofRunning = true := by
  have hregistered : ∀ {name : String}, p.functions.contains name = true →
      ∃ d, p.functions[name]? = some d := by
    intro name hname
    rw [Std.ExtTreeMap.contains_eq_isSome_getElem?] at hname
    exact Option.isSome_iff_exists.mp hname
  cases h with
  | start h hinvoke =>
    obtain ⟨d, hd⟩ := hregistered hglobal
    exact Machine.ofRunning_of_invoke hp hd hinvoke
  | enter h hentry hinvoke =>
    obtain ⟨d, hd⟩ := hregistered hentry
    exact Machine.ofRunning_of_invoke hp hd hinvoke
  | step h hstep =>
    exact Machine.ofRunning_of_step hp (h.chain hp.indexed) (h.blocks hp) hstep

theorem contains_globalName_of_ofSource {source version : String}
    (h : ofSource source version = .ok p) : p.functions.contains globalName = true := by
  obtain ⟨items, hsplits⟩ := splits_of_ofSource h
  obtain ⟨d, hd, -⟩ := (describes_of_ofSource h hsplits).global
  rw [Std.ExtTreeMap.contains_eq_isSome_getElem?, hd]
  rfl

theorem result_complete {m : Machine σ} (h : (complete sink m).result = .error e) :
    e.ofRunning = true := by
  unfold complete at h
  split at h
  next => cases h
  next =>
    cases h
    rfl

/-- A run ends with an error of running, or for want of an entry function. -/
theorem ofRunning_of_run (hp : p.Regular) (hglobal : p.functions.contains globalName = true)
    {fuel : Nat} {outcome : Outcome σ} (hrun : p.run options sink out fuel = some outcome)
    (he : outcome.result = .error e) : e.ofRunning = true ∨ e = .entryNotFound options.entry := by
  rcases run_cases hrun with
    ⟨phase, m, e', hvisits, rfl⟩ | ⟨m, -, -, -, rfl⟩ | ⟨phase, m, -, -, rfl⟩
  · cases he
    exact .inl (hvisits.ofRunning hp hglobal)
  · cases he
    exact .inr rfl
  · exact .inl (result_complete he)

/-- An entry function is missing exactly if the top-level words have run to their end,
no function has its name, and one has to. -/
theorem entryNotFound_iff (hp : p.Regular) (hglobal : p.functions.contains globalName = true)
    (fuel : Nat) (entry : String) :
    (∃ outcome, p.run options sink out fuel = some outcome ∧
      outcome.result = .error (.entryNotFound entry)) ↔
    entry = options.entry ∧ p.functions.contains options.entry = false ∧
      options.requireEntry = true ∧ ∃ m, (Machine.init out).runFunction (p.context options sink)
        fuel globalName .own = some (m, none) := by
  constructor
  · rintro ⟨outcome, hrun, he⟩
    rcases run_cases hrun with
      ⟨phase, m, e, hvisits, rfl⟩ | ⟨m, -, hentry, hrequire, rfl⟩ | ⟨phase, m, -, -, rfl⟩
    · cases he
      cases hvisits.ofRunning hp hglobal
    · cases he
      rw [run_eq] at hrun
      obtain ⟨⟨m', e⟩, hfirst, hafter⟩ := Option.bind_eq_some_iff.mp hrun
      cases e with
      | none => exact ⟨rfl, hentry, hrequire, m', hfirst⟩
      | some e =>
        have htop : p.Visits options sink out .top m' (.failed e) :=
          .runFunction (fun _ _ hinvoke => .start .fresh hinvoke) hfirst
        have hrunning := htop.ofRunning hp hglobal
        simp only [afterTop, Option.some.injEq, Outcome.mk.injEq, Except.error.injEq] at hafter
        rw [hafter.2] at hrunning
        cases hrunning
    · cases result_complete he
  · rintro ⟨rfl, hentry, hrequire, m, hfirst⟩
    refine ⟨{ out := m.out, result := .error (.entryNotFound options.entry) }, ?_, rfl⟩
    rw [run_eq, hfirst]
    simp [afterTop, hentry, hrequire]

/-- A text that cannot be read fails over its words or its structure, before anything
is written. A text that can be read runs into errors of running alone, or misses its
entry function, and that exactly if the top-level words have run to their end, no
function is registered under the name of the entry, and one has to be. -/
theorem runSource_errors (source : String) (options : RunOptions) (sink : Sink σ) (out : σ)
    (fuel : Nat) :
    (∀ e, ofSource source options.version = .error e →
      (e.errorClass = .lexical ∨ e.errorClass = .structural) ∧
      (∀ entry, e ≠ .entryNotFound entry) ∧
      runSource source options sink out fuel = some { out, result := .error e }) ∧
    ∀ p, ofSource source options.version = .ok p →
      (∀ outcome e, runSource source options sink out fuel = some outcome →
        outcome.result = .error e → e.ofRunning = true ∨ e = .entryNotFound options.entry) ∧
      ∀ entry, (∃ outcome, runSource source options sink out fuel = some outcome ∧
          outcome.result = .error (.entryNotFound entry)) ↔
        entry = options.entry ∧ p.functions.contains options.entry = false ∧
          options.requireEntry = true ∧ ∃ m, (Machine.init out).runFunction
            (p.context options sink) fuel globalName .own = some (m, none) := by
  refine ⟨?_, ?_⟩
  · intro e he
    obtain ⟨hclass, hentry⟩ := ofSource_error he
    exact ⟨hclass, hentry, by simp only [runSource, he]⟩
  · intro p hp
    have hregular := regular_of_ofSource hp
    have hglobal := contains_globalName_of_ofSource hp
    have hrun : runSource source options sink out fuel = p.run options sink out fuel := by
      simp only [runSource, hp]
    rw [hrun]
    exact ⟨fun outcome e h he => ofRunning_of_run hregular hglobal h he,
      entryNotFound_iff hregular hglobal fuel⟩

/-- The top-level words have printed before the entry function is missed. -/
theorem runSource_errors_without_entry :
    ∃ outcome, runSource "1 print" {} .memory "" 4 = some outcome ∧
      outcome.result = .error (.entryNotFound "main") := by
  have hcheck : (do
      let p ← (ofSource "1 print" defaultVersion).toOption
      let r ← (Machine.init "").runFunction (p.context {} .memory) 4 globalName .own
      return decide (p.functions.contains defaultEntry = false ∧ r.2 = none)) = some true := by
    decide +kernel
  simp only [Option.bind_eq_bind, Option.bind_eq_some_iff] at hcheck
  obtain ⟨p, hp, ⟨m, e⟩, hfirst, hcheck⟩ := hcheck
  obtain ⟨hentry, rfl⟩ := of_decide_eq_true (Option.some.inj hcheck)
  have herrors := (runSource_errors "1 print" {} .memory "" 4).2 p (Except.eq_ok_of_toOption hp)
  exact (herrors.2 "main").mpr ⟨rfl, hentry, rfl, m, hfirst⟩

end Program

end Wordstack
