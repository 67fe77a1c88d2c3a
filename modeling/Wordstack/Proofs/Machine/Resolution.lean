-- SUMMARY: What identifiers come to in a run: calls, the version of the language, or nothing.
import Wordstack.Proofs.Machine.Errors
import Wordstack.Proofs.Machine.Lockstep
import Wordstack.Proofs.Machine.Values
import Wordstack.Proofs.Source.Append

/-!
# The resolution of names

A name that is not that of a function is looked up in the blocks of the running function and
of its caller. Of all blocks, only that of `_global` binds anything: the version. So a run
depends on the version only where `version` is run in a frame that sees this block.
-/

namespace Wordstack

-- -----------------------------------------------------------------------
-- Callers
-- -----------------------------------------------------------------------

namespace Frame

variable {f f' g g' parent : Frame} {p : Program} {index : Nat}

/-- The frame looks names up where it has to: a call in the block of the function that it
was called from, and a branch where the frame that it belongs to does. -/
def CalledBy (f parent : Frame) : Prop :=
  (f.kind = .call ∧ f.callerBlock = parent.func.name) ∨
    (f.kind = .branch ∧ f.func = parent.func ∧ f.callerBlock = parent.callerBlock)

theorem CalledBy.congr (h : f.CalledBy g) (hf : f'.fixed = f.fixed) (hg : g'.fixed = g.fixed) :
    f'.CalledBy g' := by
  simp only [fixed, Frame.mk.injEq] at hf hg
  obtain ⟨hkind, hfunc, -, -, -, -, hcaller⟩ := hf
  obtain ⟨-, hfunc', -, -, -, -, hcaller'⟩ := hg
  unfold CalledBy
  rw [hkind, hfunc, hcaller, hfunc', hcaller']
  exact h

theorem Starts.calledBy (h : parent.Starts p index f) : f.CalledBy parent := by
  cases h with
  | call args hd => exact .inl ⟨rfl, rfl⟩
  | branch pc stack start stop => exact .inr ⟨rfl, rfl, rfl⟩

end Frame

namespace Machine

variable {σ : Type} {ctx : Context σ} {m m' : Machine σ} {s : Signal}

/-- Calls at top level are calls from `_global`, and all other frames look names up where
they have to. -/
structure CallersKept (m : Machine σ) : Prop where
  bottom : ∀ f, m.frames[0]? = some f → f.callerBlock = globalName
  above : ∀ i f parent, m.frames[i + 1]? = some f → m.frames[i]? = some parent →
    f.CalledBy parent

theorem CallersKept.step (h : m.CallersKept) (hstep : m.step ctx = (m', s)) : m'.CallersKept where
  bottom := by
    intro f hf
    rcases frame_of_step hstep hf with ⟨g, hg, hfixed⟩ | ⟨k, g, hk, -⟩
    · exact (congrArg Frame.callerBlock hfixed).trans (h.bottom g hg)
    · cases hk
  above := by
    intro i f parent hf hparent
    -- A frame over another one is not innermost, so the one below it has not just started.
    have hkept (hlt : i < m.frames.size) :
        ∃ g, m.frames[i]? = some g ∧ parent.fixed = g.fixed := by
      rcases frame_of_step hstep hparent with hold | ⟨k, g, rfl, hsize, -⟩
      · exact hold
      · omega
    rcases frame_of_step hstep hf with ⟨g, hg, hfixed⟩ | ⟨k, g, hk, hsize, hg, hstarts⟩
    · have hlt := (Array.getElem?_eq_some_iff.mp hg).1
      obtain ⟨g', hg', hfixed'⟩ := hkept (by omega)
      exact (h.above i g g' hg hg').congr hfixed hfixed'
    · obtain rfl : i = k := Nat.succ.inj hk
      obtain ⟨g', hg', hfixed'⟩ := hkept (by omega)
      cases hg.symm.trans hg'
      exact hstarts.calledBy.congr rfl hfixed'

theorem callersKept_invoke (hempty : m.frames = #[]) {name : String} {returnTo : ReturnTo}
    (hinvoke : m.invoke ctx name globalName returnTo = (m', s)) : m'.CallersKept := by
  rcases invoke_cases hinvoke with ⟨e, -, hframes, -⟩ | ⟨d, args, rest, -, -, -, -, rfl⟩
  · refine ⟨?_, ?_⟩ <;> simp [hframes, hempty]
  · refine ⟨?_, ?_⟩
    · intro f hf
      rw [frames_withTop, hempty] at hf
      cases hf
      rfl
    · intro i f parent hf
      rw [frames_withTop, hempty] at hf
      cases hf

end Machine

theorem Program.Visits.callersKept {σ : Type} {p : Program} {options : RunOptions}
    {sink : Sink σ} {out : σ} {phase : Phase} {m : Machine σ} {s : Signal} (hp : p.Indexed)
    (h : p.Visits options sink out phase m s) : m.CallersKept := by
  induction h with
  | fresh => refine ⟨?_, ?_⟩ <;> simp [Machine.init]
  | start h hinvoke ih => exact Machine.callersKept_invoke ((h.kept hp).1 rfl) hinvoke
  | enter h hentry hinvoke ih => exact Machine.callersKept_invoke ((h.kept hp).1 rfl) hinvoke
  | step h hstep ih => exact ih.step hstep

-- -----------------------------------------------------------------------
-- Names without a function
-- -----------------------------------------------------------------------

namespace Frame

variable {p : Program} {items : List Item} {version name : String} {f : Frame} {index : Nat}

/-- The frame runs `_global`, or it was called from there. -/
def SeesGlobal (f : Frame) : Prop := f.func.name = globalName ∨ f.callerBlock = globalName

instance (f : Frame) : Decidable f.SeesGlobal := inferInstanceAs (Decidable (_ ∨ _))

/-- What an identifier that is not the name of a function leaves on a stack. -/
def afterName (f : Frame) (version name : String) : Stack :=
  if name = "version" ∧ f.SeesGlobal then .str version :: f.stack else f.stack

theorem HasBlocks.lookup_eq (hblocks : f.HasBlocks p) (h : p.Describes items version)
    (name : String) : Machine.lookup p f name =
      .ok (if name = "version" ∧ f.SeesGlobal then some (.str version) else none) := by
  obtain ⟨own, hown, hownBlock⟩ := Program.block_of_contains hblocks.own
  obtain ⟨outer, houter, houterBlock⟩ := Program.block_of_contains hblocks.caller
  simp only [Machine.lookup, hownBlock, houterBlock, h.getElem?_block hown, h.getElem?_block houter,
    bind, Except.bind, pure, Except.pure, SeesGlobal]
  by_cases hname : name = "version"
  · by_cases hglobal : f.func.name = globalName
    · simp [hname, hglobal]
    · simp [hname, hglobal]
  · simp [hname]

theorem HasBlocks.moveIdent_of_none (hblocks : f.HasBlocks p) (h : p.Describes items version)
    (hnone : p.functions[name]? = none) :
    f.moveIdent p index name = .go (f.goTo (f.pc + 1) (f.afterName version name)) := by
  simp only [moveIdent, hnone, hblocks.lookup_eq h, afterName]
  by_cases hversion : name = "version" ∧ f.SeesGlobal
  · simp only [if_pos hversion]
  · simp only [if_neg hversion]

/-- An identifier that is the name of a function calls it, on the arguments that it finds. -/
theorem HasBlocks.moveIdent_of_some (hblocks : f.HasBlocks p) (hp : p.Regular) {d : Definition}
    (hd : p.functions[name]? = some d) :
    (∃ e rest, d.bind f.func.name f.stack = .failed e rest ∧
      f.moveIdent p index name = .fail (f.goTo (f.pc + 1) rest) e) ∨
    ∃ args rest, d.bind f.func.name f.stack = .bound args rest ∧
      f.moveIdent p index name = .start (f.goTo (f.pc + 1) rest)
        (Machine.callFrame d args (.frame index) f.func.name) := by
  simp only [moveIdent, moveCall, hd, hblocks.missingBlock?_eq hp hd]
  cases d.bind f.func.name f.stack with
  | failed e rest => exact .inl ⟨e, rest, rfl, rfl⟩
  | bound args rest => exact .inr ⟨args, rest, rfl, rfl⟩

end Frame

-- -----------------------------------------------------------------------
-- Steps at identifiers
-- -----------------------------------------------------------------------

namespace Machine

variable {σ : Type} (ctx : Context σ) {base : Machine σ} {f : Frame} {name : String}

theorem step_ident (hnext : f.next? = some (.ident name)) : (base.withTop f).step ctx =
    base.perform ctx (f.moveIdent ctx.program base.frames.size name) := by
  rw [step_withTop, hnext]
  rfl

theorem step_of_none {items : List Item} {version : String}
    (h : ctx.program.Describes items version) (hblocks : f.HasBlocks ctx.program)
    (hnext : f.next? = some (.ident name)) (hnone : ctx.program.functions[name]? = none) :
    (base.withTop f).step ctx =
      (base.withTop (f.goTo (f.pc + 1) (f.afterName version name)), .running) := by
  rw [step_ident ctx hnext, hblocks.moveIdent_of_none h hnone]
  rfl

theorem step_of_some (hp : ctx.program.Regular) (hblocks : f.HasBlocks ctx.program)
    (hnext : f.next? = some (.ident name)) {d : Definition}
    (hd : ctx.program.functions[name]? = some d) :
    (∃ m e, (base.withTop f).step ctx = (m, .failed e) ∧
      ((∃ rest, d.bind f.func.name f.stack = .failed e rest) ∨
        e = .frameLimit ctx.maxFrames ∧ ctx.maxFrames ≤ (base.withTop f).frames.size)) ∨
    ∃ args rest, d.bind f.func.name f.stack = .bound args rest ∧
      (base.withTop f).step ctx = ((base.withTop (f.goTo (f.pc + 1) rest)).withTop
        (callFrame d args (.frame base.frames.size) f.func.name), .running) := by
  rw [step_ident ctx hnext]
  rcases hblocks.moveIdent_of_some hp hd with ⟨e, rest, hbind, hmove⟩ | ⟨args, rest, hbind, hmove⟩
  · rw [hmove]
    exact .inl ⟨_, e, rfl, .inl ⟨rest, hbind⟩⟩
  · rw [hmove, perform, push_eq, size_withTop, size_withTop]
    split
    next => exact .inr ⟨args, rest, hbind, rfl⟩
    next hfull => exact .inl ⟨_, _, rfl, .inr ⟨rfl, Nat.le_of_not_lt hfull⟩⟩

end Machine

-- -----------------------------------------------------------------------
-- Programs with another version
-- -----------------------------------------------------------------------

namespace Program

variable {p q : Program} {items : List Item} {version version' : String}

/-- The programs have the same functions, and blocks for the same functions. -/
structure SharesNames (p q : Program) : Prop where
  functions : ∀ name : String, q.functions[name]? = p.functions[name]?
  blocks : ∀ name : String, q.blocks.contains name = p.blocks.contains name

/-- The version does not matter to what is defined. -/
theorem Describes.sharesNames (hp : p.Describes items version) (hq : q.Describes items version') :
    p.SharesNames q := by
  have hfunctions : ∀ name : String, q.functions[name]? = p.functions[name]? := by
    intro name
    by_cases hname : name = globalName
    · subst hname
      obtain ⟨d, hd, hconsists⟩ := hp.global
      obtain ⟨d', hd', hconsists'⟩ := hq.global
      rw [hd, hd', hconsists.unique hconsists']
    · exact hq.functions_congr hp hname rfl
  refine ⟨hfunctions, ?_⟩
  intro name
  rw [Bool.eq_iff_iff, Std.ExtTreeMap.contains_iff_mem, Std.ExtTreeMap.contains_iff_mem,
    hq.sameNames, hp.sameNames, Std.ExtTreeMap.mem_iff_isSome_getElem?,
    Std.ExtTreeMap.mem_iff_isSome_getElem?, hfunctions]

namespace SharesNames

variable {σ : Type} {options : RunOptions} {sink : Sink σ}

theorem contains_functions (h : p.SharesNames q) (name : String) :
    q.functions.contains name = p.functions.contains name := by
  rw [Std.ExtTreeMap.contains_eq_isSome_getElem?, Std.ExtTreeMap.contains_eq_isSome_getElem?,
    h.functions]

theorem missingBlock?_eq (h : p.SharesNames q) (names : List String) :
    Machine.missingBlock? q names = Machine.missingBlock? p names := by
  simp only [Machine.missingBlock?, h.blocks]

theorem invoke_eq (h : p.SharesNames q) (m : Machine σ) (name callerBlock : String)
    (returnTo : ReturnTo) : m.invoke (q.context options sink) name callerBlock returnTo =
      m.invoke (p.context options sink) name callerBlock returnTo := by
  simp only [Machine.invoke, context, h.functions, h.missingBlock?_eq]

theorem moveIdent_eq (h : p.SharesNames q) {name : String} {d : Definition}
    (hd : p.functions[name]? = some d) (f : Frame) (index : Nat) :
    f.moveIdent q index name = f.moveIdent p index name := by
  simp only [Frame.moveIdent, Frame.moveCall, h.functions, hd, h.missingBlock?_eq]

theorem hasBlocks (h : p.SharesNames q) {f : Frame} (hblocks : f.HasBlocks p) : f.HasBlocks q :=
  ⟨(h.blocks _).trans hblocks.own, (h.blocks _).trans hblocks.caller⟩

end SharesNames

/-- Only identifiers look into the program. -/
theorem move_congr {f : Frame} {index : Nat} {token : Token}
    (h : ∀ name, token = .ident name → f.moveIdent q index name = f.moveIdent p index name) :
    f.move q index token = f.move p index token := by
  cases token with
  | ident name => exact h name rfl
  | keyword k => cases k <;> rfl
  | _ => rfl

variable {σ : Type} {options : RunOptions} {sink : Sink σ} {out : σ}

/-- A step is the same in two programs if they agree on the identifier that it runs, if any. -/
theorem step_congr {m : Machine σ}
    (h : ∀ (base : Machine σ) (f : Frame) name, m = base.withTop f → f.next? = some (.ident name) →
      f.moveIdent q base.frames.size name = f.moveIdent p base.frames.size name) :
    m.step (q.context options sink) = m.step (p.context options sink) := by
  rcases m.frames_empty_or_withTop with hempty | ⟨base, f, rfl⟩
  · simp only [Machine.step, hempty]
    rfl
  · rw [Machine.step_withTop, Machine.step_withTop]
    cases hnext : f.next? with
    | none => rfl
    | some token =>
      have hmove : f.move q base.frames.size token = f.move p base.frames.size token := by
        apply move_congr
        rintro name rfl
        exact h base f name rfl hnext
      simp only [context, hmove]
      cases f.move p base.frames.size token <;> rfl

/-- Wherever the run executes `version` in a frame that sees the block of `_global`, that is
the name of a function. -/
def IgnoresVersion (p : Program) (options : RunOptions) (sink : Sink σ) (out : σ) : Prop :=
  ∀ (phase : Phase) (base : Machine σ) (f : Frame),
    p.Visits options sink out phase (base.withTop f) .running →
    f.next? = some (.ident "version") → f.SeesGlobal → p.functions.contains "version" = true

/-- A name that the run executes comes to the same with another version. -/
theorem Describes.moveIdent_eq (hp : p.Describes items version) (hq : q.Describes items version')
    {f : Frame} {name : String} (hblocks : f.HasBlocks p) (index : Nat)
    (hversion : name = "version" → f.SeesGlobal → p.functions.contains "version" = true) :
    f.moveIdent q index name = f.moveIdent p index name := by
  have hshares := hp.sharesNames hq
  cases hd : p.functions[name]? with
  | some d => exact hshares.moveIdent_eq hd f index
  | none =>
    have hnot : ¬ (name = "version" ∧ f.SeesGlobal) := by
      rintro ⟨rfl, hsees⟩
      have hcontains := hversion rfl hsees
      rw [Std.ExtTreeMap.contains_eq_isSome_getElem?, hd] at hcontains
      cases hcontains
    rw [hblocks.moveIdent_of_none hp hd,
      (hshares.hasBlocks hblocks).moveIdent_of_none hq ((hshares.functions name).trans hd),
      Frame.afterName, if_neg hnot, Frame.afterName, if_neg hnot]

/-- Two programs that differ in their versions only have the same run if it ignores them. -/
theorem Describes.inStep (hp : p.Describes items version) (hq : q.Describes items version')
    (hignores : p.IgnoresVersion options sink out) : InStep p q options sink out where
  entry := (hp.sharesNames hq).contains_functions options.entry
  invoke m name returnTo _ := (hp.sharesNames hq).invoke_eq m name globalName returnTo
  step := by
    intro phase m hvisits
    apply step_congr
    rintro base f name rfl hnext
    have hblocks := hvisits.blocks hp.regular f Array.mem_push_self
    refine hp.moveIdent_eq hq hblocks base.frames.size ?_
    rintro rfl hsees
    exact hignores phase base f hvisits hnext hsees

/-- In all machines that a run visits, an identifier that is the name of a function calls it,
unless its arguments do not suit or no further frame may be live. Any other identifier leaves
everything as it is but the offset of the innermost frame, and the stack of that frame if the
identifier is `version` and the frame sees the block of `_global`: then the version is pushed
there. A frame sees this block if it runs `_global`, or is a call from there or a branch of
one. So programs of one text with different versions have the same run, unless it looks the
version up. -/
theorem identifiers_resolve {source version : String} (h : ofSource source version = .ok p)
    (options : RunOptions) (sink : Sink σ) (out : σ) :
    (∀ (phase : Phase) (base : Machine σ) (f : Frame) (s : Signal) (name : String),
      p.Visits options sink out phase (base.withTop f) s → f.next? = some (.ident name) →
      (base.withTop f).CallersKept ∧
      (∀ d, p.functions[name]? = some d → d.name = name ∧
        ((∃ m e, (base.withTop f).step (p.context options sink) = (m, .failed e) ∧
          ((∃ rest, d.bind f.func.name f.stack = .failed e rest) ∨
            e = .frameLimit options.maxFrames ∧
              options.maxFrames ≤ (base.withTop f).frames.size)) ∨
        ∃ args rest, d.bind f.func.name f.stack = .bound args rest ∧
          (base.withTop f).step (p.context options sink) =
            ((base.withTop (f.goTo (f.pc + 1) rest)).withTop
              (Machine.callFrame d args (.frame base.frames.size) f.func.name), .running))) ∧
      (p.functions[name]? = none → (base.withTop f).step (p.context options sink) =
        (base.withTop (f.goTo (f.pc + 1) (f.afterName version name)), .running))) ∧
    ∀ version' : String, ∃ q, ofSource source version' = .ok q ∧
      (p.IgnoresVersion options sink out →
        (∀ n, q.trace options sink out n = p.trace options sink out n) ∧
        ∀ fuel, q.run options sink out fuel = p.run options sink out fuel) := by
  obtain ⟨items, hsplits⟩ := splits_of_ofSource h
  have hp := describes_of_ofSource h hsplits
  refine ⟨?_, ?_⟩
  · intro phase base f s name hvisits hnext
    have hblocks := hvisits.blocks hp.regular f Array.mem_push_self
    refine ⟨hvisits.callersKept hp.indexed, ?_, ?_⟩
    · intro d hd
      obtain ⟨_, _, hconsists⟩ := hp.consists hd
      exact ⟨hconsists.name_eq,
        Machine.step_of_some (p.context options sink) hp.regular hblocks hnext hd⟩
    · intro hnone
      exact Machine.step_of_none (p.context options sink) hp hblocks hnext hnone
  · intro version'
    obtain ⟨q, hq, hdescribes⟩ := ofSource_of_splits version' hsplits
    refine ⟨q, hq, ?_⟩
    intro hignores
    have hinStep := hp.inStep hdescribes hignores
    exact ⟨hinStep.trace_eq, hinStep.run_eq⟩

/-- A function that is called from top level sees the version, and one that it calls does not.
A text that defines `version` is not told it anywhere. -/
theorem identifiers_resolve_one_level :
    (∃ (p : Program) (first second : Machine String) (f g : Frame),
      ofSource "fun g as version end fun f as version g end f" "1.0" = .ok p ∧
      f.next? = some (.ident "version") ∧ g.next? = some (.ident "version") ∧
      (first.withTop f).step (p.context {} .memory) =
        (first.withTop (f.goTo 1 [.str "1.0"]), .running) ∧
      (second.withTop g).step (p.context {} .memory) =
        (second.withTop (g.goTo 1 []), .running)) ∧
    ∃ p q, ofSource "fun version as 1 ret end version" "1.0" = .ok p ∧
      ofSource "fun version as 1 ret end version" "2.0" = .ok q ∧
      ∀ fuel, q.run {} .memory "" fuel = p.run {} .memory "" fuel := by
  constructor
  · have hcheck : (do
        let p ← (ofSource "fun g as version end fun f as version g end f" "1.0").toOption
        let first ← p.trace {} .memory "" 2
        let second ← p.trace {} .memory "" 4
        let f ← first.machine.frames.back?
        let g ← second.machine.frames.back?
        return decide (p.functions["version"]? = none ∧
          (f.next? = some (.ident "version") ∧ f.pc = 0 ∧ f.stack = [] ∧ f.SeesGlobal) ∧
          g.next? = some (.ident "version") ∧ g.pc = 0 ∧ g.stack = [] ∧ ¬ g.SeesGlobal))
          = some true := by
      decide +kernel
    simp only [Option.bind_eq_bind, Option.bind_eq_some_iff] at hcheck
    obtain ⟨p, hp, ⟨_, m, _⟩, hfirst, ⟨_, m', _⟩, hsecond, f, hf, g, hg, hcheck⟩ := hcheck
    obtain ⟨hnone, ⟨hnext, hpc, hstack, hsees⟩, hnext', hpc', hstack', hsees'⟩ :=
      of_decide_eq_true (Option.some.inj hcheck)
    obtain ⟨first, rfl⟩ := Machine.exists_withTop_of_back? hf
    obtain ⟨second, rfl⟩ := Machine.exists_withTop_of_back? hg
    have hsource := Except.eq_ok_of_toOption hp
    obtain ⟨hresolve, -⟩ := identifiers_resolve hsource {} Sink.memory ""
    have hstep := (hresolve _ _ f _ _ (visits_of_trace hfirst) hnext).2.2 hnone
    have hstep' := (hresolve _ _ g _ _ (visits_of_trace hsecond) hnext').2.2 hnone
    rw [hpc, Frame.afterName, if_pos ⟨rfl, hsees⟩, hstack] at hstep
    rw [hpc', Frame.afterName, if_neg fun h => hsees' h.2, hstack'] at hstep'
    exact ⟨p, first, second, f, g, hsource, hnext, hnext', hstep, hstep'⟩
  · have hcheck : (do
        let p ← (ofSource "fun version as 1 ret end version" "1.0").toOption
        return p.functions.contains "version") = some true := by
      decide +kernel
    simp only [Option.bind_eq_bind, Option.bind_eq_some_iff] at hcheck
    obtain ⟨p, hp, hcheck⟩ := hcheck
    have hsource := Except.eq_ok_of_toOption hp
    obtain ⟨q, hq, hsame⟩ := (identifiers_resolve hsource {} Sink.memory "").2 "2.0"
    have hignores : p.IgnoresVersion {} Sink.memory "" :=
      fun _ _ _ _ _ _ => Option.some.inj hcheck
    exact ⟨p, q, hsource, hq, (hsame hignores).2⟩

end Program

end Wordstack
