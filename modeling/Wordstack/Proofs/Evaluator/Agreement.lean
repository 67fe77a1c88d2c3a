-- SUMMARY: Running a program on the machine and evaluating it come to the same outcome, or both to none.
import Wordstack.Proofs.Evaluator.Simulation

/-!
# Agreement

A top-level call on the machine comes to an end if and only if its evaluation does,
and leaves the same root stack and the same state of the sink. So does a whole run of
a program that was read from a source text.
-/

namespace Wordstack

/-- The machine that a top-level call starts on. -/
def Root.machine {σ : Type} (root : Root σ) : Machine σ :=
  { frames := #[], root := root.stack, out := root.out }

/-- What a run of a top-level call comes to. -/
def Answer.ofRun {σ : Type} : Machine σ × Option Error → Answer σ (Root σ)
  | (m, none) => .done { stack := m.root, out := m.out }
  | (m, some e) => .failed e m.out

namespace Root

variable {σ : Type} {ctx : Context σ} {root : Root σ} {name : String} {d : Definition}
  {returnTo : ReturnTo} {args : Stack} {body : Code} {s : Local σ}

/-- A machine without frames is that of its root stack. -/
theorem machine_of_frames {m : Machine σ} (h : m.frames = #[]) :
    m = Root.machine { stack := m.root, out := m.out } := by
  cases m
  cases h
  rfl

/-- A top-level call binds its arguments off the root stack and starts the first
frame on them. -/
theorem invoke_machine (hp : ctx.program.Regular)
    (hd : ctx.program.functions[name]? = some d) :
    root.machine.invoke ctx name globalName returnTo
      = match d.bind globalName root.stack with
        | .failed e rest => (Root.machine { root with stack := rest }, .failed e)
        | .bound args rest =>
          if 0 < ctx.maxFrames then
            ((Root.machine { root with stack := rest }).place
              (Machine.callFrame d args returnTo globalName) 0
              { stack := args, returned := [], out := root.out }, .running)
          else (Root.machine { root with stack := rest }, .failed (.frameLimit ctx.maxFrames)) := by
  have hblocks : Machine.missingBlock? ctx.program [d.name, globalName] = none := by
    simp [Machine.missingBlock?, hp.named name d hd, hp.global]
  simp only [Machine.invoke, hd, hblocks]
  change (match d.bind globalName root.stack with
    | .failed e rest => (Root.machine { root with stack := rest }, Signal.failed e)
    | .bound args rest => (Root.machine { root with stack := rest }).push ctx.maxFrames
        (Machine.callFrame d args returnTo globalName)) = _
  cases d.bind globalName root.stack with
  | failed e rest => rfl
  | bound args rest =>
    simp only [Machine.push_eq, Machine.withTop_eq_place]
    rfl

/-- The end of the first frame leaves a root stack. -/
theorem step_leave (hreturn : returnTo = .own ∨ returnTo = .root) (args : Stack) (t : Local σ) :
    (root.machine.place (Machine.callFrame d args returnTo globalName) d.body.size t).step ctx
      = ((t.leave (decide (returnTo = .own)) root.stack).machine, .running) := by
  have hnext : ((Machine.callFrame d args returnTo globalName).goTo d.body.size t.stack).next?
      = none := if_neg (Nat.lt_irrefl _)
  rw [Machine.place, Machine.step_withTop, hnext]
  rcases hreturn with rfl | rfl
  · rfl
  · rfl

/-- Once its frame has started, a top-level call comes to an end on the machine if its
evaluation does, and with the same answer. -/
theorem run_of_eval (hp : ctx.program.Regular) (hreturn : returnTo = .own ∨ returnTo = .root)
    (hsize : d.body.size = 0 + body.size)
    (hruns : (Machine.callFrame d args returnTo globalName).Runs ctx.program
      root.machine.frames.size 0 body) {b : Answer σ (Local σ)}
    (hb : body.eval ctx ((Machine.callFrame d args returnTo globalName).scope 0) s = some b) :
    ∃ fuel r, (root.machine.place (Machine.callFrame d args returnTo globalName) 0 s).run ctx fuel
        = some r ∧
      Answer.ofRun r = b.map (·.leave (decide (returnTo = .own)) root.stack) := by
  have hleads := Code.leads_of_eval hp hb root.machine _ 0 hruns rfl
  cases b with
  | done t =>
    obtain ⟨n, hn⟩ := hleads
    refine ⟨2 + n, ((t.leave (decide (returnTo = .own)) root.stack).machine, none), ?_, rfl⟩
    rw [hn, ← hsize, Machine.run_succ_of_step (step_leave hreturn args t)]
    rfl
  | failed e out =>
    obtain ⟨fuel, m', hrun, rfl⟩ := hleads
    exact ⟨fuel, _, hrun, rfl⟩

theorem eval_iff_run (root : Root σ) (args : Stack) (hp : ctx.program.Regular)
    (hreturn : returnTo = .own ∨ returnTo = .root) (hd : ctx.program.functions[name]? = some d)
    (hbody : Code.ofTokens? d.body.toList = some body) (a : Answer σ (Root σ)) :
    (∃ b, body.eval ctx ((Machine.callFrame d args returnTo globalName).scope 0) s = some b ∧
      b.map (·.leave (decide (returnTo = .own)) root.stack) = a) ↔
    ∃ fuel r, (root.machine.place (Machine.callFrame d args returnTo globalName) 0 s).run ctx fuel
        = some r ∧ Answer.ofRun r = a := by
  obtain ⟨body', hbody', hinstalled, hsize⟩ := (hp.indexed name d hd).code
  obtain rfl : body = body' := Option.some.inj (hbody.symm.trans hbody')
  have hfits : (Machine.callFrame d args returnTo globalName).Fits ctx.program 0 := by
    refine ⟨?_, hp.named name d hd, hp.global⟩
    rintro index rfl
    rcases hreturn with h | h <;> cases h
  have hruns : (Machine.callFrame d args returnTo globalName).Runs ctx.program
      root.machine.frames.size 0 body := ⟨hfits, hinstalled, Nat.le_of_eq hsize.symm⟩
  constructor
  · rintro ⟨b, hb, rfl⟩
    exact run_of_eval hp hreturn hsize hruns hb
  · rintro ⟨fuel, r, hrun, rfl⟩
    obtain ⟨b, hb⟩ := Code.eval_of_run hp fuel hruns hrun
    obtain ⟨fuel', r', hrun', hr'⟩ := run_of_eval hp hreturn hsize hruns hb
    have hsame := (Machine.run_mono hrun (Nat.le_max_left fuel fuel')).symm.trans
      (Machine.run_mono hrun' (Nat.le_max_right fuel fuel'))
    cases hsame
    exact ⟨b, hb, hr'.symm⟩

/-- A top-level call comes to an end on the machine if and only if its evaluation
does, and with the same answer. -/
theorem evaluateCall_iff (ctx : Context σ) (hp : ctx.program.Regular) (root : Root σ)
    (name : String) (hreturn : returnTo = .own ∨ returnTo = .root) (a : Answer σ (Root σ)) :
    Program.evaluateCall ctx name (decide (returnTo = .own)) root = some a ↔
      ∃ fuel r, root.machine.runFunction ctx fuel name returnTo = some r ∧
        Answer.ofRun r = a := by
  -- A call that fails before its frame starts does so whatever the number of steps.
  have hfailed : ∀ r, some (Answer.ofRun r) = some a ↔
      ∃ (_ : Nat) (r' : Machine σ × Option Error), some r = some r' ∧ Answer.ofRun r' = a := by
    intro r
    constructor
    · rintro ⟨⟩
      exact ⟨0, r, rfl, rfl⟩
    · rintro ⟨_, r', ⟨⟩, rfl⟩
      rfl
  unfold Program.evaluateCall Machine.runFunction
  cases hd : ctx.program.functions[name]? with
  | none =>
    simp only [Machine.invoke, hd]
    exact hfailed (root.machine, some (.undefinedFunction name))
  | some d =>
    rw [invoke_machine hp hd]
    simp only
    cases d.bind globalName root.stack with
    | failed e rest => exact hfailed (Root.machine { root with stack := rest }, some e)
    | bound args rest =>
      by_cases hlimit : 0 < ctx.maxFrames
      · obtain ⟨body, hbody, -⟩ := (hp.indexed name d hd).code
        simp only [if_pos hlimit, hbody]
        exact Option.map_eq_some_iff.trans
          (eval_iff_run { root with stack := rest } args hp hreturn hd hbody a)
      · simp only [if_neg hlimit]
        exact hfailed (Root.machine { root with stack := rest }, some (.frameLimit ctx.maxFrames))

end Root

namespace Program

variable {σ : Type}

/-- Programs that are read from a text have all that their functions refer to. -/
theorem Describes.regular {p : Program} {items : List Item} {version : String}
    (h : p.Describes items version) : p.Regular := by
  have hnamed : ∀ (name : String) (d : Definition), p.functions[name]? = some d →
      p.blocks.contains name = true := by
    intro name d hd
    have hmem : name ∈ p.blocks :=
      (h.sameNames name).mpr (Std.ExtTreeMap.mem_iff_isSome_getElem?.mpr (hd ▸ rfl))
    exact hmem
  refine ⟨h.indexed, ?_, ?_⟩
  · intro name d hd
    obtain ⟨params, body, hconsists⟩ := h.consists hd
    rw [hconsists.name_eq]
    exact hnamed name d hd
  · obtain ⟨d, hd, -⟩ := h.global
    exact hnamed globalName d hd

variable {p : Program} {options : RunOptions} {sink : Sink σ} {out : σ} {outcome : Outcome σ}

/-- A run comes to an outcome if its two parts do, each in some number of steps. -/
theorem exists_run_iff :
    (∃ fuel, p.run options sink out fuel = some outcome) ↔
      ∃ fuel fuel' r,
        (Machine.init out).runFunction (p.context options sink) fuel globalName .own = some r ∧
        p.afterTop options sink fuel' r = some outcome := by
  constructor
  · rintro ⟨fuel, h⟩
    rw [run_eq] at h
    obtain ⟨r, hrun, h⟩ := Option.bind_eq_some_iff.mp h
    exact ⟨fuel, fuel, r, hrun, h⟩
  · rintro ⟨fuel, fuel', r, hrun, h⟩
    refine ⟨max fuel fuel', ?_⟩
    rw [run_eq, Machine.runFunction_mono hrun (Nat.le_max_left fuel fuel')]
    exact afterTop_mono h (Nat.le_max_right fuel fuel')

theorem conclude_eq (sink : Sink σ) (r : Machine σ × Option Error) :
    conclude sink r = match Answer.ofRun r with
      | .failed e out => { out, result := .error e }
      | .done root => flushed sink root := by
  obtain ⟨m, e⟩ := r
  cases e <;> rfl

/-- After the top-level words, the machine and the evaluator go on alike. -/
theorem exists_afterTop_iff (hp : p.Regular) {r : Machine σ × Option Error}
    (hframes : ∀ m, r = (m, none) → m.frames = #[]) :
    (∃ fuel, p.afterTop options sink fuel r = some outcome) ↔
      p.evaluateEntry options sink (Answer.ofRun r) = some outcome := by
  obtain ⟨m, e⟩ := r
  cases e with
  | some e => simp only [afterTop, Answer.ofRun, evaluateEntry, exists_const]
  | none =>
    have hm := Root.machine_of_frames (hframes m rfl)
    have hcall := Root.evaluateCall_iff (p.context options sink) hp
      { stack := m.root, out := m.out } options.entry (.inr rfl)
    rw [← hm] at hcall
    simp only [afterTop, Answer.ofRun, evaluateEntry]
    split
    next =>
      constructor
      · rintro ⟨fuel, h⟩
        obtain ⟨r, hrun, rfl⟩ := Option.map_eq_some_iff.mp h
        rw [conclude_eq]
        exact Option.map_eq_some_iff.mpr ⟨_, (hcall _).mpr ⟨fuel, r, hrun, rfl⟩, rfl⟩
      · intro h
        obtain ⟨a, ha, h⟩ := Option.map_eq_some_iff.mp h
        obtain ⟨fuel, r, hrun, rfl⟩ := (hcall a).mp ha
        exact ⟨fuel, Option.map_eq_some_iff.mpr ⟨r, hrun, (conclude_eq sink r).trans h⟩⟩
    next =>
      rw [exists_const]
      rfl

/-- A run of a program that was read from a source text comes to an outcome if and
only if the evaluation of the program does, and it is the same outcome. -/
theorem run_iff_evaluate {source version : String} {p : Program}
    (h : ofSource source version = .ok p) (options : RunOptions) (sink : Sink σ) (out : σ)
    (outcome : Outcome σ) :
    (∃ fuel, p.run options sink out fuel = some outcome) ↔
      p.evaluate options sink out = some outcome := by
  obtain ⟨items, hsplits⟩ := splits_of_ofSource h
  have hp : p.Regular := (describes_of_ofSource h hsplits).regular
  have hcall := Root.evaluateCall_iff (p.context options sink) hp { stack := [], out }
    globalName (.inl rfl)
  have hframes : ∀ {fuel r}, (Machine.init out).runFunction (p.context options sink) fuel
      globalName .own = some r → ∀ m, r = (m, none) → m.frames = #[] := by
    rintro fuel r hrun m rfl
    exact Machine.frames_of_runFunction hrun
  rw [exists_run_iff]
  constructor
  · rintro ⟨fuel, fuel', r, hrun, h⟩
    refine Option.bind_eq_some_iff.mpr ⟨Answer.ofRun r, (hcall _).mpr ⟨fuel, r, hrun, rfl⟩, ?_⟩
    exact (exists_afterTop_iff hp (hframes hrun)).mp ⟨fuel', h⟩
  · intro h
    obtain ⟨a, ha, h⟩ := Option.bind_eq_some_iff.mp h
    obtain ⟨fuel, r, hrun, rfl⟩ := (hcall a).mp ha
    obtain ⟨fuel', h⟩ := (exists_afterTop_iff hp (hframes hrun)).mpr h
    exact ⟨fuel, fuel', r, hrun, h⟩

/-- Two calls take different sides of a conditional and return values from there. -/
theorem evaluate_two_sides :
    ∃ p, ofSource "fun f bool as if 'y' ret else 'n' ret end end true f false f print"
        defaultVersion = .ok p ∧
      p.evaluate { requireEntry := false } .memory ""
        = some { out := "n\n", result := .ok [.str "y"] } := by
  have hrun : runSource "fun f bool as if 'y' ret else 'n' ret end end true f false f print"
      { requireEntry := false } .memory "" 20
        = some { out := "n\n", result := .ok [.str "y"] } := by
    decide +kernel
  unfold runSource at hrun
  split at hrun
  next => simp at hrun
  next p hp => exact ⟨p, hp, (run_iff_evaluate hp _ _ _ _).mp ⟨20, hrun⟩⟩

end Program

end Wordstack
