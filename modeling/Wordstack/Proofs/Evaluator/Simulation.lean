-- SUMMARY: The machine follows the evaluator through any code, and comes to an end only where the evaluator does.
import Wordstack.Proofs.Evaluator.Place

/-!
# Simulation

A machine that is placed at the start of some code runs to the end of the code if
the evaluator does, with the same stacks and the same state of the sink, and fails
if the evaluator fails (`Code.leads_of_eval`). Conversely, if the run from there
comes to an end at all, so does the evaluator (`Code.eval_of_run`).
-/

namespace Wordstack

namespace Machine

variable {σ : Type} {ctx : Context σ} {m m' m'' : Machine σ} {next next' : Local σ → Machine σ}
  {a : Answer σ (Local σ)}

/-- A run from the first machine passes through the second. -/
def Reaches (ctx : Context σ) (m m' : Machine σ) : Prop :=
  ∃ n, ∀ fuel, m.run ctx (fuel + n) = m'.run ctx fuel

/-- A run from the machine does what an answer says: it passes through the machine for
the answer's value, or it fails. -/
def Leads (ctx : Context σ) (m : Machine σ) (next : Local σ → Machine σ) :
    Answer σ (Local σ) → Prop
  | .done s => Reaches ctx m (next s)
  | .failed e out => ∃ fuel m', m.run ctx fuel = some (m', some e) ∧ m'.out = out

theorem run_succ_of_step (hstep : m.step ctx = (m', .running)) (fuel : Nat) :
    m.run ctx (fuel + 1) = m'.run ctx fuel := by
  rw [run, hstep]

/-- A run that takes a step has one step less to take after it. -/
theorem run_of_step {fuel : Nat} {r : Machine σ × Option Error}
    (h : m.run ctx fuel = some r) (hstep : m.step ctx = (m', .running)) :
    ∃ fuel' < fuel, m'.run ctx fuel' = some r := by
  cases fuel with
  | zero => cases h
  | succ fuel =>
    rw [run_succ_of_step hstep] at h
    exact ⟨fuel, Nat.lt_succ_self fuel, h⟩

/-- Runs from machines with the same next step are the same. -/
theorem run_congr (h : m.step ctx = m'.step ctx) (fuel : Nat) :
    m.run ctx fuel = m'.run ctx fuel := by
  cases fuel with
  | zero => rfl
  | succ fuel => rw [run, run, h]

theorem Reaches.refl (m : Machine σ) : Reaches ctx m m := ⟨0, fun _ => rfl⟩

theorem Reaches.trans (h : Reaches ctx m m') (h' : Reaches ctx m' m'') : Reaches ctx m m'' := by
  obtain ⟨n, hn⟩ := h
  obtain ⟨n', hn'⟩ := h'
  refine ⟨n' + n, fun fuel => ?_⟩
  rw [← Nat.add_assoc, hn, hn']

theorem Reaches.of_step (hstep : m.step ctx = (m', .running)) : Reaches ctx m m' :=
  ⟨1, run_succ_of_step hstep⟩

theorem Reaches.of_step_eq (h : m.step ctx = m'.step ctx) : Reaches ctx m m' :=
  ⟨0, run_congr h⟩

theorem Reaches.run {fuel : Nat} {r : Machine σ × Option Error} (h : Reaches ctx m m')
    (hrun : m.run ctx fuel = some r) : m'.run ctx fuel = some r := by
  obtain ⟨n, hn⟩ := h
  rw [← hn]
  exact run_mono hrun (Nat.le_add_right _ _)

namespace Leads

theorem of_reaches (h : Reaches ctx m m') (h' : Leads ctx m' next a) : Leads ctx m next a := by
  cases a with
  | done s => exact h.trans h'
  | failed e out =>
    obtain ⟨n, hn⟩ := h
    obtain ⟨fuel, last, hrun, hout⟩ := h'
    exact ⟨fuel + n, last, (hn fuel).trans hrun, hout⟩

theorem of_step (hstep : m.step ctx = (m', .running)) (h : Leads ctx m' next a) :
    Leads ctx m next a :=
  of_reaches (.of_step hstep) h

theorem of_steps (h : m.Steps ctx next a) : Leads ctx m next a := by
  cases a with
  | done s => exact Reaches.of_step h
  | failed e out =>
    obtain ⟨last, hstep, hout⟩ := h
    refine ⟨1, last, ?_, hout⟩
    rw [Machine.run, hstep]

end Leads

end Machine

/-- All functions have the jumps of their bodies, and a block under their names. -/
structure Program.Regular (p : Program) : Prop where
  indexed : p.Indexed
  named (name : String) (d : Definition) : p.functions[name]? = some d →
    p.blocks.contains d.name = true
  global : p.blocks.contains globalName = true

namespace Frame

/-- The frame over a number of others runs some code from an offset on. -/
structure Runs (p : Program) (below : Nat) (f : Frame) (start : Nat) (code : Code) : Prop where
  fits : f.Fits p below
  installed : f.func.Installed start code
  stop_le : start + code.size ≤ f.stop

namespace Runs

variable {p : Program} {below start : Nat} {f : Frame} {rest : Code}

theorem plain {token : Token} {hplain : token.isPlain = true}
    (h : f.Runs p below start (.plain token hplain rest)) :
    start < f.stop ∧ f.func.body[start]? = some token ∧ f.Runs p below (start + 1) rest ∧
      start + (Code.plain token hplain rest).size = start + 1 + rest.size := by
  have hle := h.stop_le
  rw [Code.size_plain] at hle ⊢
  exact ⟨by omega, h.installed.1, ⟨h.fits, h.installed.2, by omega⟩, by omega⟩

theorem ifThen {word : Conditional} {yes : Code}
    (h : f.Runs p below start (.ifThen word yes rest)) :
    start < f.stop ∧ f.func.body[start]? = some (.keyword word.keyword) ∧
      f.func.jumps[start]? = some (.branch none (start + 1 + yes.size)) ∧
      f.func.Installed (start + 1) yes ∧ f.Runs p below (start + 1 + yes.size + 1) rest ∧
      start + (Code.ifThen word yes rest).size = start + 1 + yes.size + 1 + rest.size := by
  have hle := h.stop_le
  rw [Code.size_ifThen] at hle ⊢
  obtain ⟨htoken, hjump, hyes, hrest⟩ := h.installed
  exact ⟨by omega, htoken, hjump, hyes, ⟨h.fits, hrest, by omega⟩, by omega⟩

theorem ifElse {word : Conditional} {yes no : Code}
    (h : f.Runs p below start (.ifElse word yes no rest)) :
    start < f.stop ∧ f.func.body[start]? = some (.keyword word.keyword) ∧
      f.func.jumps[start]? = some
        (.branch (some (start + 1 + yes.size)) (start + 1 + yes.size + 1 + no.size)) ∧
      f.func.Installed (start + 1) yes ∧ f.func.Installed (start + 1 + yes.size + 1) no ∧
      f.Runs p below (start + 1 + yes.size + 1 + no.size + 1) rest ∧
      start + (Code.ifElse word yes no rest).size
        = start + 1 + yes.size + 1 + no.size + 1 + rest.size := by
  have hle := h.stop_le
  rw [Code.size_ifElse] at hle ⊢
  obtain ⟨htoken, hjump, hyes, hno, hrest⟩ := h.installed
  exact ⟨by omega, htoken, hjump, hyes, hno, ⟨h.fits, hrest, by omega⟩, by omega⟩

/-- A conditional with two sides takes one of them. -/
theorem takes_side {word : Conditional} {yes no : Code}
    (h : f.Runs p below start (.ifElse word yes no rest)) (condition : Token) (stack : Stack) :
    let side := if condition = .bool true then yes else no
    let f' := f.goTo (start + 1 + yes.size + 1 + no.size + 1) stack
    ∃ from_ upTo, (f.goTo start (condition :: stack)).move p below (.keyword word.keyword)
        = .start f' (f'.branchFrame below from_ upTo) ∧
      f.func.Installed from_ side ∧ upTo = from_ + side.size := by
  obtain ⟨-, -, hjump, hyes, hno, -⟩ := h.ifElse
  have hmove := move_conditional p below word hjump (condition :: stack)
  by_cases hcondition : condition = .bool true
  · simp only [if_pos hcondition] at hmove ⊢
    exact ⟨_, _, hmove, hyes, rfl⟩
  · simp only [if_neg hcondition] at hmove ⊢
    exact ⟨_, _, hmove, hno, rfl⟩

/-- What a frame finds that runs a loop from `start` on. -/
structure Loop (p : Program) (below : Nat) (f : Frame) (start : Nat) (test body rest : Code) :
    Prop where
  while_ : start < f.stop ∧ f.func.body[start]? = some (.keyword .while_)
  runsTest : f.Runs p below (start + 1) test
  do_ : start + 1 + test.size < f.stop ∧
    f.func.body[start + 1 + test.size]? = some (.keyword .do_) ∧
    f.func.jumps[start + 1 + test.size]? = some (.exit (start + 1 + test.size + 1 + body.size))
  runsBody : f.Runs p below (start + 1 + test.size + 1) body
  end_ : start + 1 + test.size + 1 + body.size < f.stop ∧
    f.func.body[start + 1 + test.size + 1 + body.size]? = some (.keyword .end_) ∧
    f.func.jumps[start + 1 + test.size + 1 + body.size]? = some (.back start)
  runsRest : f.Runs p below (start + 1 + test.size + 1 + body.size + 1) rest
  size_eq : start + (Code.loop test body rest).size
    = start + 1 + test.size + 1 + body.size + 1 + rest.size

theorem loop {test body : Code} (h : f.Runs p below start (.loop test body rest)) :
    Loop p below f start test body rest := by
  have hle := h.stop_le
  rw [Code.size_loop] at hle
  obtain ⟨hwhile, ⟨hdo, hexit⟩, ⟨hend, hback⟩, htest, hbody, hrest⟩ := h.installed
  exact ⟨⟨by omega, hwhile⟩, ⟨h.fits, htest, by omega⟩, ⟨by omega, hdo, hexit⟩,
    ⟨h.fits, hbody, by omega⟩, ⟨by omega, hend, hback⟩, ⟨h.fits, hrest, by omega⟩,
    by rw [Code.size_loop]; omega⟩

end Runs

end Frame

/-- The body of a function has a code, which lies at its start. -/
theorem Definition.Indexed.code {d : Definition} (h : d.Indexed) :
    ∃ body, Code.ofTokens? d.body.toList = some body ∧ d.Installed 0 body ∧
      d.body.size = 0 + body.size := by
  obtain ⟨body, htokens, hinstalled⟩ := h.installed
  refine ⟨body, Code.ofTokens?_eq_some_iff.mpr htokens, hinstalled, ?_⟩
  rw [Nat.zero_add, Code.size, htokens, Array.length_toList]

theorem Token.called?_eq_some {p : Program} {token : Token} {d : Definition}
    (h : token.called? p = some d) : ∃ name : String, p.functions[name]? = some d := by
  cases token with
  | ident name => exact ⟨name, h⟩
  | _ => nomatch h

namespace Code

variable {σ : Type}

/-- The machine follows an evaluation of the code with this answer. -/
def Followed (ctx : Context σ) (sc : Scope) (code : Code) (s : Local σ)
    (a : Answer σ (Local σ)) : Prop :=
  ∀ (base : Machine σ) (f : Frame) (start : Nat),
    f.Runs ctx.program base.frames.size start code → f.scope base.frames.size = sc →
    (base.place f start s).Leads ctx (base.place f (start + code.size)) a

end Code

namespace Machine

variable {σ : Type} {ctx : Context σ} {base m : Machine σ} {f : Frame} {pc start : Nat}
  {s : Local σ}

/-- The step of a machine starts a frame that runs some code, and the end of that
frame leads on. -/
structure Enters (ctx : Context σ) (m : Machine σ) (sc : Scope) (code : Code) (s : Local σ)
    (resume : Local σ → Machine σ) (below : Machine σ) (g : Frame) : Prop where
  step : m.step ctx = (below.place g g.pc s, .running)
  runs : g.Runs ctx.program below.frames.size g.pc code
  scope : g.scope below.frames.size = sc
  stop : g.stop = g.pc + code.size
  resume (t : Local σ) : (below.place g g.stop t).step ctx = (resume t, .running)

theorem Enters.leads {sc : Scope} {code : Code} {resume : Local σ → Machine σ}
    {below : Machine σ} {g : Frame} {a : Answer σ (Local σ)}
    (h : m.Enters ctx sc code s resume below g) (hcode : code.Followed ctx sc s a) :
    m.Leads ctx resume a := by
  refine .of_step h.step ?_
  have hinner := hcode below g g.pc h.runs h.scope
  rw [← h.stop] at hinner
  cases a with
  | done t => exact hinner.trans (.of_step (h.resume t))
  | failed e out => exact hinner

/-- A call of a function, once its arguments are bound, enters its body. -/
theorem enters_call (hp : ctx.program.Regular) (hfits : f.Fits ctx.program base.frames.size)
    {token : Token} (htoken : f.func.body[pc]? = some token) (hlt : pc < f.stop) {d : Definition}
    (hcalled : token.called? ctx.program = some d) {args stack : Stack}
    (hbind : d.bind f.func.name s.stack = .bound args stack) {body : Code}
    (hbody : Code.ofTokens? d.body.toList = some body)
    (hlive : (f.scope base.frames.size).live < ctx.maxFrames) :
    (base.place f pc s).Enters ctx ((f.scope base.frames.size).callee d) body
      { stack := args, returned := [], out := s.out }
      (fun t => base.place f (pc + 1) { s with stack := t.returned ++ stack, out := t.out })
      (base.place f (pc + 1) { s with stack })
      (callFrame d args (.frame base.frames.size) f.func.name) := by
  obtain ⟨name, hname⟩ := Token.called?_eq_some hcalled
  have hblock := hp.named name d hname
  have hmove := hfits.move_call hcalled hblock pc s.stack
  rw [hbind] at hmove
  obtain ⟨body', hbody', hinstalled, hsize⟩ := (hp.indexed name d hname).code
  obtain rfl : body = body' := Option.some.inj (hbody.symm.trans hbody')
  refine ⟨?_, ⟨?_, hinstalled, Nat.le_of_eq hsize.symm⟩, ?_, hsize, ?_⟩
  · rw [step_start htoken hlt hmove, if_pos hlive]
    rfl
  · rw [size_place]
    exact hfits.callFrame hblock args
  · rw [size_place]
    rfl
  · intro t
    exact step_return base f (pc + 1) { s with stack } t rfl

/-- A branch that is taken enters its side of the conditional. -/
theorem enters_branch (s : Local σ) (hfits : f.Fits ctx.program base.frames.size) {token : Token}
    (htoken : f.func.body[pc]? = some token) (hlt : pc < f.stop) {pc' start stop : Nat}
    {stack : Stack}
    (hmove : (f.goTo pc s.stack).move ctx.program base.frames.size token
      = .start (f.goTo pc' stack) ((f.goTo pc' stack).branchFrame base.frames.size start stop))
    {side : Code} (hside : f.func.Installed start side) (hstop : stop = start + side.size)
    (hlive : (f.scope base.frames.size).live < ctx.maxFrames) :
    (base.place f pc s).Enters ctx (f.scope base.frames.size).branch side
      { stack, returned := [], out := s.out }
      (fun t => base.place f pc' ((f.scope base.frames.size).give t.returned
        { s with stack, out := t.out }))
      (base.place f pc' { s with stack })
      ((f.goTo pc' stack).branchFrame base.frames.size start stop) := by
  have hgo : (f.goTo pc' stack).Fits ctx.program base.frames.size :=
    ⟨hfits.target, hfits.block, hfits.callerBlock⟩
  refine ⟨?_, ⟨?_, hside, Nat.le_of_eq hstop.symm⟩, ?_, hstop, ?_⟩
  · rw [step_start htoken hlt hmove, if_pos hlive]
    rfl
  · rw [size_place]
    exact hgo.branchFrame start stop
  · rw [size_place]
    exact Frame.scope_branchFrame _ _ start stop
  · intro t
    exact step_rejoin hfits pc' { s with stack } t rfl rfl

theorem step_frameLimit {token : Token} (htoken : f.func.body[pc]? = some token)
    (hlt : pc < f.stop) {pc' : Nat} {stack : Stack} {g : Frame}
    (hmove : (f.goTo pc s.stack).move ctx.program base.frames.size token
      = .start (f.goTo pc' stack) g)
    (hlive : ¬(f.scope base.frames.size).live < ctx.maxFrames)
    {next : Local σ → Machine σ} :
    (base.place f pc s).Steps ctx next (.failed (.frameLimit ctx.maxFrames) s.out) := by
  refine ⟨base.place f pc' { s with stack }, ?_, out_place _ _ _ _⟩
  rw [step_start htoken hlt hmove, if_neg hlive]

theorem step_while {test body rest : Code}
    (h : f.Runs ctx.program base.frames.size start (.loop test body rest)) (s : Local σ) :
    (base.place f start s).step ctx = (base.place f (start + 1) s, .running) :=
  step_go h.loop.while_.2 h.loop.while_.1 rfl

/-- The step from the `end` of a loop is the step from its `while`. -/
theorem step_again {test body rest : Code}
    (h : f.Runs ctx.program base.frames.size start (.loop test body rest)) (s : Local σ) :
    (base.place f (start + 1 + test.size + 1 + body.size) s).step ctx
      = (base.place f start s).step ctx := by
  obtain ⟨hlt, htoken, hjump⟩ := h.loop.end_
  rw [step_while h]
  exact step_go htoken hlt (Frame.move_again _ _ hjump s.stack)

/-- A run to an answer goes on with what the answer is taken to. -/
theorem Leads.andThen {next next' : Local σ → Machine σ} {a b : Answer σ (Local σ)}
    {k : Local σ → Option (Answer σ (Local σ))}
    (hb : (match a with
      | .failed e out => some (.failed e out)
      | .done t => k t) = some b)
    (h : m.Leads ctx next a) (hk : ∀ t, k t = some b → (next t).Leads ctx next' b) :
    m.Leads ctx next' b := by
  cases a with
  | done t => exact .of_reaches h (hk t hb)
  | failed e out =>
    cases hb
    exact h

end Machine

-- -----------------------------------------------------------------------
-- The machine follows the evaluator
-- -----------------------------------------------------------------------

open Machine in
/-- The machine runs any code as the evaluator does. -/
theorem Code.leads_of_eval {σ : Type} {ctx : Context σ} (hp : ctx.program.Regular) {sc : Scope}
    {code : Code} {s : Local σ} {a : Answer σ (Local σ)} (h : code.eval ctx sc s = some a) :
    code.Followed ctx sc s a := by
  refine Code.eval.partial_correctness ctx (fun sc code s a => code.Followed ctx sc s a) ?_
    sc code s a h
  clear h
  intro eval ih sc code s a heval base f start hruns hscope
  subst hscope
  -- What the rest of the code does, from the offset after the part that is run first.
  have hrest : ∀ {rest start' s'}, eval (f.scope base.frames.size) rest s' = some a →
      f.Runs ctx.program base.frames.size start' rest →
      start + code.size = start' + rest.size →
      (base.place f start' s').Leads ctx (base.place f (start + code.size)) a := by
    intro rest start' s' h hruns hsize
    rw [hsize]
    exact ih _ rest s' a h base f start' hruns rfl
  cases code with
  | done =>
    cases heval
    exact .refl _
  | plain token hplain rest =>
    obtain ⟨hlt, htoken, hnext, hsize⟩ := hruns.plain
    cases hcalled : token.called? ctx.program with
    | none =>
      simp only [hcalled] at heval
      refine .andThen heval (.of_steps (steps_plain hruns.fits htoken hlt hplain hcalled)) ?_
      intro t ht
      exact hrest ht hnext hsize
    | some d =>
      simp only [hcalled, Frame.function_scope] at heval
      obtain ⟨name, hname⟩ := Token.called?_eq_some hcalled
      have hmove := hruns.fits.move_call hcalled (hp.named name d hname) start s.stack
      cases hbind : d.bind f.func.name s.stack with
      | failed e stack =>
        rw [hbind] at heval hmove
        cases heval
        exact .of_steps (step_fail htoken hlt hmove)
      | bound args stack =>
        rw [hbind] at heval hmove
        simp only at heval
        split at heval
        next hlive =>
          obtain ⟨body, hbody, heval⟩ := Option.bind_eq_some_iff.mp heval
          obtain ⟨b, hb, heval⟩ := Option.bind_eq_some_iff.mp heval
          have henters := enters_call hp hruns.fits htoken hlt hcalled hbind hbody hlive
          refine .andThen heval (henters.leads (ih _ _ _ b hb)) ?_
          intro t ht
          exact hrest ht hnext hsize
        next hlive =>
          cases heval
          exact .of_steps (step_frameLimit htoken hlt hmove hlive)
  | ifThen word yes rest =>
    obtain ⟨hlt, htoken, hjump, hyes, hnext, hsize⟩ := hruns.ifThen
    obtain ⟨current, returned, out⟩ := s
    have hmove := Frame.move_conditional ctx.program base.frames.size word hjump current
    cases current with
    | nil =>
      cases heval
      exact .of_steps (step_fail htoken hlt hmove)
    | cons condition stack =>
      by_cases hcondition : condition = .bool true
      · simp only [if_pos hcondition] at heval hmove
        split at heval
        next hlive =>
          obtain ⟨b, hb, heval⟩ := Option.bind_eq_some_iff.mp heval
          have henters :=
            enters_branch ⟨_, returned, out⟩ hruns.fits htoken hlt hmove hyes rfl hlive
          refine .andThen heval (henters.leads (ih _ _ _ b hb)) ?_
          intro t ht
          exact hrest ht hnext hsize
        next hlive =>
          cases heval
          exact .of_steps (step_frameLimit htoken hlt hmove hlive)
      · simp only [if_neg hcondition] at heval hmove
        exact .of_step (step_go htoken hlt hmove) (hrest heval hnext hsize)
  | ifElse word yes no rest =>
    obtain ⟨hlt, htoken, hjump, -, -, hnext, hsize⟩ := hruns.ifElse
    obtain ⟨current, returned, out⟩ := s
    cases current with
    | nil =>
      have hmove := Frame.move_conditional ctx.program base.frames.size word hjump []
      cases heval
      exact .of_steps (step_fail htoken hlt hmove)
    | cons condition stack =>
      obtain ⟨_, _, hmove, hside, hstop⟩ := hruns.takes_side condition stack
      simp only at heval
      split at heval
      next hlive =>
        obtain ⟨b, hb, heval⟩ := Option.bind_eq_some_iff.mp heval
        have henters :=
          enters_branch ⟨_, returned, out⟩ hruns.fits htoken hlt hmove hside hstop hlive
        refine .andThen heval (henters.leads (ih _ _ _ b hb)) ?_
        intro t ht
        exact hrest ht hnext hsize
      next hlive =>
        cases heval
        exact .of_steps (step_frameLimit htoken hlt hmove hlive)
  | loop test body rest =>
    have hloop := hruns.loop
    obtain ⟨b, hb, heval⟩ := Option.bind_eq_some_iff.mp heval
    have htest := ih _ test s b hb base f _ hloop.runsTest rfl
    refine .of_step (step_while hruns s) (.andThen heval htest ?_)
    intro t ht
    obtain ⟨hlt, htoken, hjump⟩ := hloop.do_
    obtain ⟨current, returned, out⟩ := t
    have hmove := Frame.move_do ctx.program base.frames.size hjump current
    cases current with
    | nil =>
      cases ht
      exact .of_steps (step_fail htoken hlt hmove)
    | cons condition stack =>
      by_cases hcondition : condition = .bool true
      · simp only [if_pos hcondition] at ht hmove
        obtain ⟨b, hb, ht⟩ := Option.bind_eq_some_iff.mp ht
        refine .of_step (step_go htoken hlt hmove) (.andThen ht (ih _ body _ b hb base f _
          hloop.runsBody rfl) ?_)
        intro u hu
        exact .of_reaches (.of_step_eq (step_again hruns u)) (ih _ _ u a hu base f start hruns rfl)
      · simp only [if_neg hcondition] at ht hmove
        exact .of_step (step_go htoken hlt hmove) (hrest ht hloop.runsRest hloop.size_eq)

-- -----------------------------------------------------------------------
-- The evaluator comes to an end if the machine does
-- -----------------------------------------------------------------------

section Ends

variable {σ : Type} {ctx : Context σ} {base m : Machine σ} {f : Frame} {start fuel : Nat}
  {code : Code} {s t : Local σ} {r : Machine σ × Option Error}

/-- A run from the start of code goes on from the end of the code. -/
theorem Frame.Runs.run_of_eval (h : f.Runs ctx.program base.frames.size start code)
    (hp : ctx.program.Regular)
    (heval : code.eval ctx (f.scope base.frames.size) s = some (.done t))
    (hrun : (base.place f start s).run ctx fuel = some r) :
    (base.place f (start + code.size) t).run ctx fuel = some r :=
  Machine.Reaches.run (Code.leads_of_eval hp heval base f start h rfl) hrun

/-- Evaluation goes on with what an answer is taken to. -/
theorem exists_bind {x : Option (Answer σ (Local σ))}
    {k : Local σ → Option (Answer σ (Local σ))} (hx : ∃ a, x = some a)
    (hk : ∀ t, x = some (.done t) → ∃ b, k t = some b) :
    ∃ b, (x.bind fun
      | .failed e out => some (.failed e out)
      | .done t => k t) = some b := by
  obtain ⟨a, rfl⟩ := hx
  cases a with
  | done t => exact hk t rfl
  | failed e out => exact ⟨_, rfl⟩

/-- Evaluation comes to an end wherever a run from the start of code does within so
many steps. -/
def Code.EndsWithin (ctx : Context σ) (fuel : Nat) : Prop :=
  ∀ {code : Code} {base : Machine σ} {f : Frame} {start : Nat} {s : Local σ}
    {r : Machine σ × Option Error}, f.Runs ctx.program base.frames.size start code →
    (base.place f start s).run ctx fuel = some r →
    ∃ a, code.eval ctx (f.scope base.frames.size) s = some a

/-- A run that enters code evaluates the code and goes on after it. -/
theorem Machine.Enters.exists_eval {sc : Scope} {resume : Local σ → Machine σ}
    {below : Machine σ} {g : Frame} {k : Local σ → Option (Answer σ (Local σ))}
    (h : m.Enters ctx sc code s resume below g) (hp : ctx.program.Regular)
    (ih : ∀ fuel' < fuel, Code.EndsWithin ctx fuel') (hrun : m.run ctx fuel = some r)
    (hk : ∀ t, ∀ fuel' < fuel, (resume t).run ctx fuel' = some r → ∃ b, k t = some b) :
    ∃ b, ((code.eval ctx sc s).bind fun
      | .failed e out => some (.failed e out)
      | .done t => k t) = some b := by
  obtain ⟨fuel₁, hlt₁, hrun₁⟩ := run_of_step hrun h.step
  have hinner := ih fuel₁ hlt₁ h.runs hrun₁
  rw [h.scope] at hinner
  refine exists_bind hinner ?_
  intro t ht
  rw [← h.scope] at ht
  have hend := h.runs.run_of_eval hp ht hrun₁
  rw [← h.stop] at hend
  obtain ⟨fuel₂, hlt₂, hrun₂⟩ := run_of_step hend (h.resume t)
  exact hk t fuel₂ (Nat.lt_trans hlt₂ hlt₁) hrun₂

end Ends

open Machine in
/-- If a run from the start of some code comes to an end, so does the evaluation of
the code. -/
theorem Code.eval_of_run {σ : Type} {ctx : Context σ} (hp : ctx.program.Regular) (fuel : Nat) :
    Code.EndsWithin ctx fuel := by
  induction fuel using Nat.strongRecOn with
  | ind fuel ih =>
  intro code base f start s r hruns hrun
  cases code with
  | done => exact ⟨_, eval.eq_1 ctx _ s⟩
  | plain token hplain rest =>
    obtain ⟨hlt, htoken, hnext, -⟩ := hruns.plain
    rw [eval]
    cases hcalled : token.called? ctx.program with
    | none =>
      have hsteps := steps_plain (s := s) hruns.fits htoken hlt hplain hcalled
      cases hanswer : token.answer ctx (f.scope base.frames.size) s with
      | failed e out => exact ⟨_, rfl⟩
      | done t =>
        rw [hanswer] at hsteps
        obtain ⟨fuel', hlt', hrun'⟩ := run_of_step hrun hsteps
        exact ih fuel' hlt' hnext hrun'
    | some d =>
      obtain ⟨name, hname⟩ := Token.called?_eq_some hcalled
      simp only [Frame.function_scope]
      cases hbind : d.bind f.func.name s.stack with
      | failed e stack => exact ⟨_, rfl⟩
      | bound args stack =>
        simp only
        split
        next hlive =>
          obtain ⟨body, hbody, -⟩ := (hp.indexed name d hname).code
          rw [hbody]
          refine (enters_call hp hruns.fits htoken hlt hcalled hbind hbody hlive).exists_eval hp ih
            hrun ?_
          intro t fuel' hlt' hrun'
          exact ih fuel' hlt' hnext hrun'
        next => exact ⟨_, rfl⟩
  | ifThen word yes rest =>
    obtain ⟨hlt, htoken, hjump, hyes, hnext, -⟩ := hruns.ifThen
    rw [eval]
    obtain ⟨current, returned, out⟩ := s
    cases current with
    | nil => exact ⟨_, rfl⟩
    | cons condition stack =>
      have hmove := Frame.move_conditional ctx.program base.frames.size word hjump
        (condition :: stack)
      by_cases hcondition : condition = .bool true
      · simp only [if_pos hcondition] at hmove ⊢
        split
        next hlive =>
          refine (enters_branch ⟨_, returned, out⟩ hruns.fits htoken hlt hmove hyes rfl
            hlive).exists_eval hp ih hrun ?_
          intro t fuel' hlt' hrun'
          exact ih fuel' hlt' hnext hrun'
        next => exact ⟨_, rfl⟩
      · simp only [if_neg hcondition] at hmove ⊢
        obtain ⟨fuel', hlt', hrun'⟩ := run_of_step hrun (step_go htoken hlt hmove)
        exact ih fuel' hlt' hnext hrun'
  | ifElse word yes no rest =>
    obtain ⟨hlt, htoken, -, -, -, hnext, -⟩ := hruns.ifElse
    rw [eval]
    obtain ⟨current, returned, out⟩ := s
    cases current with
    | nil => exact ⟨_, rfl⟩
    | cons condition stack =>
      obtain ⟨_, _, hmove, hside, hstop⟩ := hruns.takes_side condition stack
      simp only
      split
      next hlive =>
        refine (enters_branch ⟨_, returned, out⟩ hruns.fits htoken hlt hmove hside hstop
          hlive).exists_eval hp ih hrun ?_
        intro t fuel' hlt' hrun'
        exact ih fuel' hlt' hnext hrun'
      next => exact ⟨_, rfl⟩
  | loop test body rest =>
    have hloop := hruns.loop
    rw [eval]
    obtain ⟨fuel₁, hlt₁, hrun₁⟩ := run_of_step hrun (step_while hruns s)
    refine exists_bind (ih fuel₁ hlt₁ hloop.runsTest hrun₁) ?_
    intro t ht
    have hdo := hloop.runsTest.run_of_eval hp ht hrun₁
    obtain ⟨hlt, htoken, hjump⟩ := hloop.do_
    obtain ⟨current, returned, out⟩ := t
    cases current with
    | nil => exact ⟨_, rfl⟩
    | cons condition stack =>
      have hmove := Frame.move_do ctx.program base.frames.size hjump (condition :: stack)
      by_cases hcondition : condition = .bool true
      · simp only [if_pos hcondition] at hmove ⊢
        obtain ⟨fuel₂, hlt₂, hrun₂⟩ := run_of_step hdo (step_go htoken hlt hmove)
        have hlt₂' : fuel₂ < fuel := Nat.lt_trans hlt₂ hlt₁
        refine exists_bind (ih fuel₂ hlt₂' hloop.runsBody hrun₂) ?_
        intro u hu
        have hend := hloop.runsBody.run_of_eval hp hu hrun₂
        rw [run_congr (step_again hruns u)] at hend
        exact ih fuel₂ hlt₂' hruns hend
      · simp only [if_neg hcondition] at hmove ⊢
        obtain ⟨fuel₂, hlt₂, hrun₂⟩ := run_of_step hdo (step_go htoken hlt hmove)
        exact ih fuel₂ (Nat.lt_trans hlt₂ hlt₁) hloop.runsRest hrun₂

end Wordstack
