-- SUMMARY: Values at the bottom of the stack of a call that is its own caller come through its run untouched.
import Wordstack.Proofs.Machine.Life
import Wordstack.Proofs.Operation

/-!
# Values at the bottom of a stack

Values put under the stack of a call that is its own caller are seen by nothing that
runs, as long as nothing fails. A branch starts on a copy of the stack and so has them
at the bottom of its own, a call does not. `Machine.deepen` puts under the stack of each
frame what lies there, and a step of the deeper machine is the step of the other.
-/

namespace Wordstack

-- -----------------------------------------------------------------------
-- Moves
-- -----------------------------------------------------------------------

namespace Frame

/-- The frame with more values at the bottom of its stack. -/
def under (f : Frame) (below : Stack) : Frame := { f with stack := f.stack ++ below }

/-- What a frame that starts has of the values at the bottom of the stack of the frame
that starts it. -/
def inherited (g : Frame) (below : Stack) : Stack :=
  match g.kind with
  | .call => []
  | .branch => below

end Frame

/-- The move of a frame that has more values at the bottom of its stack. -/
def Move.under (below : Stack) : Move → Move
  | .go f => .go (f.under below)
  | .start f g => .start (f.under below) (g.under (g.inherited below))
  | .ret f value => .ret (f.under below) value
  | .print f line => .print (f.under below) line
  | .fail f e => .fail (f.under below) e

namespace Frame

variable {p : Program} {index : Nat} {f : Frame}

theorem moveOperator_under {op : Operator} (h : ∀ f' e, f.moveOperator op ≠ .fail f' e)
    (below : Stack) : (f.under below).moveOperator op = (f.moveOperator op).under below := by
  have happly : op.apply (f.stack ++ below) = (op.apply f.stack).under below := by
    apply Operator.apply_append_of_not_fail
    intro e rest happly
    apply h (f.goTo (f.pc + 1) rest) e
    rw [moveOperator, happly]
  simp only [moveOperator, under, happly]
  cases op.apply f.stack <;> rfl

theorem moveCall_under {d : Definition} (h : ∀ f' e, f.moveCall p index d ≠ .fail f' e)
    (below : Stack) :
    (f.under below).moveCall p index d = (f.moveCall p index d).under below := by
  simp only [moveCall, under] at h ⊢
  cases hblock : Machine.missingBlock? p [d.name, f.func.name] with
  | some e => exact absurd (by rw [hblock]) (h _ e)
  | none =>
    simp only [hblock] at h
    cases hbind : d.bind f.func.name f.stack with
    | failed e rest => exact absurd (by rw [hbind]) (h _ e)
    | bound args rest =>
      have hdeeper : d.bind f.func.name (f.stack ++ below) = .bound args (rest ++ below) :=
        Definition.bindFrom_append hbind below
      simp only [hdeeper, Move.under, inherited, Machine.callFrame, under, List.append_nil]
      rfl

theorem moveIdent_under {name : String} (h : ∀ f' e, f.moveIdent p index name ≠ .fail f' e)
    (below : Stack) :
    (f.under below).moveIdent p index name = (f.moveIdent p index name).under below := by
  have hlookup : Machine.lookup p (f.under below) name = Machine.lookup p f name := rfl
  simp only [moveIdent, hlookup] at h ⊢
  cases hd : p.functions[name]? with
  | some d =>
    simp only [hd] at h
    exact moveCall_under h below
  | none =>
    cases Machine.lookup p f name with
    | error e => rfl
    | ok value => cases value <;> rfl

theorem moveIf_under {keyword : Keyword} (h : ∀ f' e, f.moveIf index keyword ≠ .fail f' e)
    (below : Stack) :
    (f.under below).moveIf index keyword = (f.moveIf index keyword).under below := by
  simp only [moveIf, under] at h ⊢
  split
  next elseAt endAt hjump =>
    simp only [hjump] at h
    cases hstack : f.stack with
    | nil => exact absurd (by rw [hstack]) (h _ _)
    | cons condition stack =>
      simp only [List.cons_append]
      by_cases hcondition : condition = .bool true
      · simp only [if_pos hcondition]
        rfl
      · simp only [if_neg hcondition]
        cases elseAt <;> rfl
  next => rfl

theorem moveDo_under (h : ∀ f' e, f.moveDo ≠ .fail f' e) (below : Stack) :
    (f.under below).moveDo = f.moveDo.under below := by
  simp only [moveDo, under] at h ⊢
  split
  next endAt hjump =>
    simp only [hjump] at h
    cases hstack : f.stack with
    | nil => exact absurd (by rw [hstack]) (h _ _)
    | cons condition stack => rfl
  next => rfl

theorem moveEnd_under (f : Frame) (below : Stack) :
    (f.under below).moveEnd = f.moveEnd.under below := by
  simp only [moveEnd, under]
  split <;> rfl

/-- A move that does not fail does the same over more values. -/
theorem move_under {token : Token} (h : ∀ f' e, f.move p index token ≠ .fail f' e)
    (below : Stack) : (f.under below).move p index token = (f.move p index token).under below := by
  cases token with
  | op op => exact moveOperator_under h below
  | ident name => exact moveIdent_under h below
  | keyword k =>
    cases k with
    | if_ => exact moveIf_under h below
    | iff => exact moveIf_under h below
    | do_ => exact moveDo_under h below
    | end_ => exact moveEnd_under f below
    | _ => rfl
  | _ => rfl

end Frame

-- -----------------------------------------------------------------------
-- Steps
-- -----------------------------------------------------------------------

namespace Machine

variable {σ : Type} {ctx : Context σ} {base m m' n : Machine σ} {s : Signal} {f : Frame}
  {below : Stack}

/-- The machine with more values at the bottoms of its frames' stacks, by the index of
the frame. -/
def deepen (m : Machine σ) (under : Nat → Stack) : Machine σ :=
  { m with frames := m.frames.mapIdx fun i f => f.under (under i) }

theorem size_deepen (m : Machine σ) (under : Nat → Stack) :
    (m.deepen under).frames.size = m.frames.size := Array.size_mapIdx

theorem getElem?_deepen (m : Machine σ) (under : Nat → Stack) (i : Nat) :
    (m.deepen under).frames[i]? = m.frames[i]?.map fun f => f.under (under i) :=
  Array.getElem?_mapIdx

theorem deepen_withTop (m : Machine σ) (f : Frame) (under : Nat → Stack) :
    (m.withTop f).deepen under = (m.deepen under).withTop (f.under (under m.frames.size)) := by
  simp only [deepen, withTop, Array.mapIdx_push]

theorem deepen_congr {under under' : Nat → Stack}
    (h : ∀ i, i < m.frames.size → under i = under' i) : m.deepen under = m.deepen under' := by
  have hframes : (m.deepen under).frames = (m.deepen under').frames := by
    apply Array.ext_getElem?
    intro i
    rw [getElem?_deepen, getElem?_deepen]
    by_cases hi : i < m.frames.size
    · rw [h i hi]
    · rw [Array.getElem?_eq_none (Nat.le_of_not_lt hi)]
      rfl
  simp only [deepen] at hframes ⊢
  rw [hframes]

/-- Returned values arrive at the top. -/
theorem deepen_receive (m : Machine σ) (under : Nat → Stack) (returnTo : ReturnTo)
    (values : Stack) :
    (m.deepen under).receive returnTo values = (m.receive returnTo values).deepen under := by
  cases returnTo with
  | own => rfl
  | root => rfl
  | frame index =>
    have hframes : ((m.deepen under).receive (.frame index) values).frames
        = ((m.receive (.frame index) values).deepen under).frames := by
      apply Array.ext_getElem?
      intro i
      rw [getElem?_receive, getElem?_deepen, getElem?_deepen, getElem?_receive]
      split
      · simp only [Option.map_map]
        congr 1
        funext f
        simp only [Function.comp_apply, Frame.under, List.append_assoc]
      · rfl
    simp only [receive, modify, deepen] at hframes ⊢
    rw [hframes]

/-- A move that the deeper machine's innermost frame makes leads to a deeper machine. -/
theorem perform_deepen {move : Move} (hperform : base.perform ctx move = (m', s))
    (hs : ∀ e, s ≠ .failed e) (under : Nat → Stack) :
    base.frames.size < m'.frames.size ∧ ∃ under', under' 0 = under 0 ∧
      (base.deepen under).perform ctx (move.under (under base.frames.size))
        = (m'.deepen under', s) := by
  cases move with
  | go f =>
    cases hperform
    refine ⟨by simp, under, rfl, ?_⟩
    rw [deepen_withTop]
    rfl
  | start f g =>
    simp only [perform, push_eq] at hperform
    split at hperform
    next hlimit =>
      cases hperform
      -- only the frame that starts is new to the values under the stacks
      let under' : Nat → Stack := fun i =>
        if i ≤ base.frames.size then under i else g.inherited (under base.frames.size)
      have hold : ∀ i, i ≤ base.frames.size → under i = under' i := fun i hi => (if_pos hi).symm
      have hnew : under' (base.frames.size + 1) = g.inherited (under base.frames.size) :=
        if_neg (Nat.not_succ_le_self _)
      refine ⟨by simp only [size_withTop]; omega, under', (hold 0 (Nat.zero_le _)).symm, ?_⟩
      have hbase : base.deepen under = base.deepen under' :=
        deepen_congr fun i hi => hold i (Nat.le_of_lt hi)
      rw [size_withTop] at hlimit
      simp only [Move.under, perform, push_eq, size_withTop, size_deepen, if_pos hlimit]
      rw [deepen_withTop, deepen_withTop, size_withTop, hnew, ← hold _ (Nat.le_refl _), hbase]
    next => exact absurd (congrArg Prod.snd hperform).symm (hs _)
  | ret f value =>
    cases hperform
    refine ⟨?_, under, rfl, ?_⟩
    · rw [deliver_withTop, size_receive, size_withTop]
      exact Nat.lt_succ_self _
    · have hsize := size_deepen base under
      simp only [Move.under, perform]
      rw [deliver_withTop, deliver_withTop, ← deepen_receive, deepen_withTop, hsize]
      rfl
  | print f line =>
    simp only [perform] at hperform
    split at hperform
    next hwrite =>
      cases hperform
      refine ⟨by simp, under, rfl, ?_⟩
      have hout : (base.deepen under).out = base.out := rfl
      simp only [Move.under, perform, hout, hwrite]
      rw [← deepen_withTop]
      rfl
    next => exact absurd (congrArg Prod.snd hperform).symm (hs _)
  | fail f e => exact absurd (congrArg Prod.snd hperform).symm (hs _)

/-- The frames are those of a call that is its own caller: the call itself, and over it
branches and calls that return values to a frame. -/
structure OwnCall (m : Machine σ) : Prop where
  bottom : ∀ f, m.frames[0]? = some f → f.kind = .call ∧ f.returnTo = .own
  inner : ∀ i f, m.frames[i + 1]? = some f → f.kind = .branch ∨ ∃ index, f.returnTo = .frame index

theorem OwnCall.step (h : m.OwnCall) (hstep : m.step ctx = (m', s)) : m'.OwnCall := by
  constructor
  · intro g hg
    rcases frame_of_step hstep hg with ⟨f, hf, hfixed⟩ | ⟨k, f, hk, -⟩
    · obtain ⟨hkind, -, hreturn⟩ := Frame.eq_of_fixed hfixed
      rw [hkind, hreturn]
      exact h.bottom f hf
    · exact absurd hk (Nat.succ_ne_zero k).symm
  · intro i g hg
    rcases frame_of_step hstep hg with ⟨f, hf, hfixed⟩ | ⟨k, f, -, -, -, hstarts⟩
    · obtain ⟨hkind, -, hreturn⟩ := Frame.eq_of_fixed hfixed
      rw [hkind, hreturn]
      exact h.inner i f hf
    · cases hstarts with
      | call args hd => exact .inr ⟨k, rfl⟩
      | branch pc stack start stop => exact .inl rfl

/-- The second machine is the first with more values at the bottom of the stack of the
call that is its own caller, or on the root stack when that call has ended. -/
inductive Deeper (below : Stack) : Machine σ → Machine σ → Prop where
  | live {m : Machine σ} (h : m.OwnCall) (hlive : 0 < m.frames.size) {under : Nat → Stack}
      (hbottom : under 0 = below) : Deeper below m (m.deepen under)
  | ended {m : Machine σ} (hempty : m.frames = #[]) :
      Deeper below m { m with root := m.root ++ below }

/-- The end of a frame is that of the frame with more values under its stack. -/
theorem deeper_finish (h : (base.withTop f).OwnCall) {under : Nat → Stack}
    (hbottom : under 0 = below) :
    Deeper below (base.withTop f).finish ((base.withTop f).deepen under).finish := by
  have htop := getElem?_withTop_self base f
  rw [deepen_withTop]
  cases hsize : base.frames.size with
  | zero =>
    rw [hsize] at htop
    obtain ⟨hkind, hreturn⟩ := h.bottom f htop
    have hempty : base.frames = #[] := Array.size_eq_zero_iff.mp hsize
    have hdeepen : base.deepen under = base := by
      rw [deepen, hempty, Array.mapIdx_empty, ← hempty]
    rw [finish_own base hkind hreturn, hdeepen, hbottom,
      finish_own (f := f.under below) base hkind hreturn]
    exact .ended hempty
  | succ k =>
    rw [hsize] at htop
    have hinner := h.inner k f htop
    rw [finish_inner base hinner, finish_inner (f := f.under _) _ hinner]
    refine .live ⟨?_, ?_⟩ (by omega) hbottom
    · intro g hg
      exact h.bottom g ((getElem?_withTop_of_lt (by omega)).trans hg)
    · intro i g hg
      have hlt := (Array.getElem?_eq_some_iff.mp hg).1
      exact h.inner i g ((getElem?_withTop_of_lt hlt).trans hg)

/-- A step that does not fail is one of the deeper machine too. -/
theorem Deeper.step (h : Deeper below m n) (hstep : m.step ctx = (m', s))
    (hs : ∀ e, s ≠ .failed e) : ∃ n', n.step ctx = (n', s) ∧ Deeper below m' n' := by
  cases h with
  | ended hempty =>
    simp only [Machine.step, hempty] at hstep
    cases hstep
    refine ⟨{ m with root := m.root ++ below }, ?_, .ended hempty⟩
    simp only [Machine.step, hempty]
    rfl
  | @live hown hlive under hbottom =>
    rcases m.frames_empty_or_withTop with hempty | ⟨base, f, rfl⟩
    · rw [hempty] at hlive
      exact absurd hlive (Nat.lt_irrefl 0)
    have hown' := hown.step hstep
    rw [step_withTop] at hstep
    have hnext : (f.under (under base.frames.size)).next? = f.next? := rfl
    cases htoken : f.next? with
    | none =>
      rw [htoken] at hstep
      cases hstep
      refine ⟨_, ?_, deeper_finish hown hbottom⟩
      rw [deepen_withTop, step_withTop, hnext, htoken]
    | some token =>
      rw [htoken] at hstep
      have hmove : ∀ f' e, f.move ctx.program base.frames.size token ≠ .fail f' e := by
        intro f' e hfail
        simp only [hfail] at hstep
        cases hstep
        exact hs e rfl
      obtain ⟨hsize, under', hbottom', hperform⟩ := perform_deepen hstep hs under
      refine ⟨m'.deepen under', ?_, .live hown' (Nat.zero_lt_of_lt hsize) (hbottom'.trans hbottom)⟩
      rw [deepen_withTop, step_withTop, hnext, htoken, size_deepen]
      exact (congrArg _ (Frame.move_under hmove _)).trans hperform

-- -----------------------------------------------------------------------
-- Runs
-- -----------------------------------------------------------------------

/-- A run that does not fail is one of the deeper machine too. -/
theorem Deeper.run (h : Deeper below m n) {fuel : Nat}
    (hrun : ∀ m' e, m.run ctx fuel ≠ some (m', some e)) :
    n.run ctx fuel
      = (m.run ctx fuel).map fun r => ({ r.1 with root := r.1.root ++ below }, r.2) := by
  induction fuel generalizing m n with
  | zero => rfl
  | succ fuel ih =>
    simp only [Machine.run] at hrun ⊢
    cases hstep : m.step ctx with
    | mk m' s =>
      rw [hstep] at hrun
      cases s with
      | failed e => exact absurd rfl (hrun m' e)
      | running =>
        obtain ⟨n', hstep', hdeeper⟩ := h.step hstep (by simp)
        rw [hstep']
        exact ih hdeeper hrun
      | done =>
        obtain ⟨n', hstep', hdeeper⟩ := h.step hstep (by simp)
        rw [hstep']
        obtain ⟨hempty, rfl⟩ := step_eq_done hstep
        cases hdeeper with
        | ended => rfl
        | live hown hlive =>
          rw [hempty] at hlive
          exact absurd hlive (Nat.lt_irrefl 0)

/-- Take a call that is its own caller, alone on a machine, which runs to its end in `n`
steps. Over any values it ends after as many steps and has printed the same, and what it
leaves lies over these values. -/
theorem run_over_values (hframes : m.frames = #[f]) (hkind : f.kind = .call)
    (hreturn : f.returnTo = .own) {steps : Nat} (hmore : m.run ctx steps = none)
    (hrun : m.run ctx (steps + 1) = some (m', none)) (below : Stack) :
    { m with frames := #[{ f with stack := f.stack ++ below }] }.run ctx steps = none ∧
    { m with frames := #[{ f with stack := f.stack ++ below }] }.run ctx (steps + 1)
      = some ({ m' with root := m'.root ++ below }, none) := by
  have hown : m.OwnCall := by
    constructor
    · intro g hg
      rw [hframes] at hg
      cases hg
      exact ⟨hkind, hreturn⟩
    · intro i g hg
      rw [hframes] at hg
      cases hg
  have hdeepen : { m with frames := #[{ f with stack := f.stack ++ below }] }
      = m.deepen fun _ => below := by
    simp only [deepen, hframes]
    rfl
  have hdeeper : Deeper below m { m with frames := #[{ f with stack := f.stack ++ below }] } :=
    hdeepen ▸ .live hown (by rw [hframes]; exact Nat.one_pos) rfl
  constructor
  · rw [hdeeper.run (by simp [hmore]), hmore]
    rfl
  · rw [hdeeper.run (by simp [hrun]), hrun]
    rfl

/-- The top-level words take a side of a conditional, which returns a value of a call to
their own stack, over what already lies there. -/
theorem run_over_values_in_branch :
    ∃ p m f m', Program.ofSource "fun g as 'x' ret end true if g ret 'y' print end"
        defaultVersion = .ok p ∧
      p.Visits {} .memory "" .top m .running ∧ m.frames = #[f] ∧ f.stack = [] ∧
      { m with frames := #[{ f with stack := [.bool false] }] }.run (p.context {} .memory) 12
        = some (m', none) ∧
      m'.root = [.str "x", .bool false] ∧ m'.out = "y\n" := by
  have hcheck : (do
      let p ← (Program.ofSource "fun g as 'x' ret end true if g ret 'y' print end"
        defaultVersion).toOption
      let moment ← p.trace {} .memory "" 1
      let f ← moment.machine.frames[0]?
      let r ← moment.machine.run (p.context {} .memory) 12
      return decide ((moment.phase = .top ∧ moment.signal = .running) ∧
        moment.machine.frames.size = 1 ∧ (f.kind = .call ∧ f.returnTo = .own ∧ f.stack = []) ∧
        (moment.machine.run (p.context {} .memory) 11).isNone ∧
        r.2 = none ∧ r.1.root = [.str "x"] ∧ r.1.out = "y\n")) = some true := by
    decide +kernel
  simp only [Option.bind_eq_bind, Option.bind_eq_some_iff] at hcheck
  obtain ⟨p, hp, ⟨phase, m, s⟩, htrace, f, hf, ⟨m', e⟩, hrun, hcheck⟩ := hcheck
  obtain ⟨⟨rfl, rfl⟩, hsize, ⟨hkind, hreturn, hstack⟩, hmore, rfl, hroot, hout⟩ :=
    of_decide_eq_true (Option.some.inj hcheck)
  have hframes : m.frames = #[f] := by
    obtain ⟨g, hg⟩ := Array.size_eq_one_iff.mp hsize
    rw [hg] at hf
    obtain rfl : g = f := Option.some.inj hf
    exact hg
  have hover := (run_over_values hframes hkind hreturn (by simpa using hmore) hrun
    [.bool false]).2
  rw [hstack] at hover
  refine ⟨p, m, f, _, Except.eq_ok_of_toOption hp, Program.visits_of_trace htrace, hframes,
    hstack, hover, ?_, hout⟩
  rw [hroot]
  rfl

end Machine

end Wordstack
