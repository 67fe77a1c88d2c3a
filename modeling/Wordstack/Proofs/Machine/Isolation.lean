-- SUMMARY: What a frame can do to the frames below it: hand values to the one that it returns to, and nothing else.
import Wordstack.Proofs.Evaluator.Place
import Wordstack.Proofs.Machine.Invariant
import Wordstack.Proofs.Machine.Trace

/-!
# Isolation of frames

As long as a frame lives, whatever runs in it and over it leaves the frames below it
as they are, but for values that arrive on the stack which the frame returns values
to. That is because frames over it either return values to one of themselves, or to
where the frame itself does (`Chain.branchReturn_above`).
-/

namespace Wordstack

/-- While a run goes on, the frames stand inside their code. -/
theorem Program.Visits.chain {σ : Type} {p : Program} {options : RunOptions} {sink : Sink σ}
    {out : σ} {phase : Phase} {m : Machine σ} (hp : p.Indexed)
    (h : p.Visits options sink out phase m .running) :
    Chain (Frame.Standing p) options.maxFrames m.frames := by
  rcases (h.kept hp).2 with hchain | ⟨⟨e, he⟩, -⟩
  · exact hchain
  · cases he

theorem Frame.eq_of_fixed {f g : Frame} (h : g.fixed = f.fixed) :
    g.kind = f.kind ∧ g.func = f.func ∧ g.returnTo = f.returnTo := by
  simp only [fixed, Frame.mk.injEq] at h
  exact ⟨h.1, h.2.1, h.2.2.2.2.2.1⟩

namespace Machine

variable {σ : Type}

/-- Steps that each find the frame at an index still live lead from `m` to the
machine, with the signal of the last one. That one may have ended the frame. -/
inductive WhileLive (ctx : Context σ) (index : Nat) (m : Machine σ) :
    Machine σ → Signal → Prop where
  | here : WhileLive ctx index m m .running
  | step {m' m'' : Machine σ} {s : Signal} (h : WhileLive ctx index m m' .running)
      (hlive : index < m'.frames.size) (hstep : m'.step ctx = (m'', s)) :
      WhileLive ctx index m m'' s

/-- The frame `f` of the machine `m` at an index still lives in `m'`, and below it
`m'` is what `m` becomes when values arrive where the frame returns them to. -/
structure Lives (index : Nat) (f : Frame) (m m' : Machine σ) : Prop where
  frame : m'.frames[index]?.map Frame.fixed = some f.fixed
  received : ∃ values, (∀ j, j < index →
    m'.frames[j]? = (m.receive f.returnTo values).frames[j]?) ∧
    m'.root = (m.receive f.returnTo values).root

theorem getElem?_receive (m : Machine σ) (returnTo : ReturnTo) (values : Stack) (j : Nat) :
    (m.receive returnTo values).frames[j]? = if returnTo = .frame j then
      m.frames[j]?.map fun g => { g with stack := values ++ g.stack } else m.frames[j]? := by
  cases returnTo with
  | frame t =>
    simp only [receive, modify, Array.getElem?_modify, ReturnTo.frame.injEq]
  | _ => simp [receive]

theorem root_receive (m : Machine σ) (returnTo : ReturnTo) (values : Stack) :
    (m.receive returnTo values).root
      = if returnTo = .root then values ++ m.root else m.root := by
  cases returnTo <;> rfl

theorem getElem?_withTop_of_lt {m : Machine σ} {f : Frame} {j : Nat} (h : j < m.frames.size) :
    (m.withTop f).frames[j]? = m.frames[j]? := by
  rw [frames_withTop, Array.getElem?_push, if_neg (Nat.ne_of_lt h)]

namespace Lives

variable {index : Nat} {f : Frame} {m m' m'' : Machine σ}

theorem trans (h : Lives index f m m') (h' : Lives index f m' m'') : Lives index f m m'' := by
  obtain ⟨first, hframes, hroot⟩ := h.received
  obtain ⟨second, hframes', hroot'⟩ := h'.received
  refine ⟨h'.frame, second ++ first, ?_, ?_⟩
  · intro j hj
    rw [hframes' j hj, ← receive_receive, getElem?_receive, hframes j hj, ← getElem?_receive]
  · rw [hroot', ← receive_receive, root_receive, hroot, ← root_receive]

theorem congr {g : Frame} (h : Lives index g m m') (hfixed : g.fixed = f.fixed) :
    Lives index f m m' := by
  obtain ⟨-, -, hreturn⟩ := Frame.eq_of_fixed hfixed
  exact ⟨h.frame.trans (congrArg some hfixed), hreturn ▸ h.received⟩

/-- The frame lives on if it is kept and nothing changes below it. -/
theorem of_same (hframe : m'.frames[index]?.map Frame.fixed = some f.fixed)
    (hbelow : ∀ j, j < index → m'.frames[j]? = m.frames[j]?) (hroot : m'.root = m.root) :
    Lives index f m m' := by
  refine ⟨hframe, [], ?_, ?_⟩
  · rw [receive_nil]
    exact hbelow
  · rw [receive_nil]
    exact hroot

theorem refl (hf : m.frames[index]?.map Frame.fixed = some f.fixed) : Lives index f m m :=
  of_same hf (fun _ _ => rfl) rfl

/-- The innermost frame may move on. -/
theorem replace {base : Machine σ} {g g' : Frame}
    (hf : (base.withTop g).frames[index]?.map Frame.fixed = some f.fixed)
    (hle : index ≤ base.frames.size) (hfixed : g'.fixed = g.fixed) :
    Lives index f (base.withTop g) (base.withTop g') := by
  refine of_same ?_ ?_ rfl
  · rw [frames_withTop, Array.getElem?_push] at hf ⊢
    split
    next hindex =>
      rw [if_pos hindex] at hf
      rw [Option.map_some, hfixed]
      exact hf
    next hindex =>
      rw [if_neg hindex] at hf
      exact hf
  · intro j hj
    have hlt : j < base.frames.size := Nat.lt_of_lt_of_le hj hle
    rw [getElem?_withTop_of_lt hlt, getElem?_withTop_of_lt hlt]

/-- A frame may start over it. -/
theorem withTop (hf : m.frames[index]?.map Frame.fixed = some f.fixed) (g : Frame) :
    Lives index f m (m.withTop g) := by
  have hlt : index < m.frames.size := by
    obtain ⟨f', hf', -⟩ := Option.map_eq_some_iff.mp hf
    exact (Array.getElem?_eq_some_iff.mp hf').1
  refine of_same ?_ ?_ rfl
  · rw [getElem?_withTop_of_lt hlt]
    exact hf
  · intro j hj
    rw [getElem?_withTop_of_lt (Nat.lt_trans hj hlt)]

/-- Values may arrive where the frame returns them to, or above. -/
theorem receive (hf : m.frames[index]?.map Frame.fixed = some f.fixed) {returnTo : ReturnTo}
    (hreturn : returnTo = f.returnTo ∨ ∃ t, index ≤ t ∧ returnTo = .frame t) (values : Stack) :
    Lives index f m (m.receive returnTo values) := by
  have hframe : (m.receive returnTo values).frames[index]?.map Frame.fixed = some f.fixed := by
    rw [getElem?_receive]
    split
    next =>
      rw [Option.map_map]
      exact hf
    next => exact hf
  rcases hreturn with rfl | ⟨t, ht, rfl⟩
  · exact ⟨hframe, values, fun _ _ => rfl, rfl⟩
  · refine of_same hframe ?_ rfl
    intro j hj
    rw [getElem?_receive, if_neg]
    rintro ⟨rfl⟩
    exact absurd hj (Nat.not_lt_of_le ht)

end Lives

end Machine

/-- Values returned by a frame over the one at index `i` go to where the latter
returns values to, or do not pass it. -/
theorem Chain.branchReturn_above {P : Frame → Prop} {limit : Nat} {frames : Array Frame}
    (h : Chain P limit frames) {i k : Nat} {f g : Frame} (hf : frames[i]? = some f)
    (hle : i ≤ k) (hg : frames[k]? = some g) :
    g.branchReturn k = f.returnTo ∨ ∃ t, i ≤ t ∧ g.branchReturn k = .frame t := by
  induction hle generalizing g with
  | refl =>
    obtain rfl : f = g := Option.some.inj (hf.symm.trans hg)
    rw [f.branchReturn_eq]
    split
    next => exact .inr ⟨i, Nat.le_refl i, rfl⟩
    next => exact .inl rfl
  | @step k hle ih =>
    obtain ⟨parent, hparent, ⟨-, hreturn⟩ | ⟨-, -, -, hreturn⟩⟩ := h.parent hg
    · refine .inr ⟨k, hle, ?_⟩
      rw [g.branchReturn_eq, hreturn, if_neg (by simp)]
    · rw [Frame.branchReturn_of_ne_own (hreturn ▸ Frame.branchReturn_ne_own), hreturn]
      exact ih hparent

-- -----------------------------------------------------------------------
-- Steps
-- -----------------------------------------------------------------------

namespace Machine

variable {σ : Type} {ctx : Context σ} {base m m' : Machine σ} {s : Signal} {index : Nat}
  {f : Frame}

theorem lives_perform {g : Frame} {move : Move} {limit : Nat}
    (h : Chain (Frame.Standing ctx.program) limit (base.withTop g).frames)
    (hf : (base.withTop g).frames[index]? = some f)
    (hmove : move.Follows ctx.program base.frames.size g)
    (hperform : base.perform ctx move = (m', s)) : Lives index f (base.withTop g) m' := by
  have hle : index ≤ base.frames.size := by
    have hlt := (Array.getElem?_eq_some_iff.mp hf).1
    rw [size_withTop] at hlt
    exact Nat.le_of_lt_succ hlt
  have hmoved : ∀ pc stack, Lives index f (base.withTop g) (base.withTop (g.goTo pc stack)) :=
    fun pc stack => .replace (hf ▸ rfl) hle rfl
  cases hmove with
  | @go pc stack hg =>
    cases hperform
    exact hmoved pc stack
  | @start pc stack g' hg hg' hon =>
    simp only [perform, push_eq] at hperform
    split at hperform
    next =>
      cases hperform
      exact (hmoved pc stack).trans (.withTop (hmoved pc stack).frame g')
    next =>
      cases hperform
      exact hmoved pc stack
  | @ret pc stack value hg =>
    cases hperform
    rw [deliver_withTop]
    exact (hmoved pc stack).trans (.receive (hmoved pc stack).frame
      (h.branchReturn_above hf hle (getElem?_withTop_self base g)) [value])
  | @print pc stack line hg =>
    have hprinted : ∀ out, Lives index f (base.withTop g)
        { base.withTop (g.goTo pc stack) with out } :=
      fun out => (hmoved pc stack).trans (.of_same (hmoved pc stack).frame (fun _ _ => rfl) rfl)
    simp only [perform] at hperform
    split at hperform
    next =>
      cases hperform
      exact hprinted _
    next =>
      cases hperform
      exact hprinted _
  | @fail stack e =>
    cases hperform
    exact hmoved (g.pc + 1) stack

theorem root_finish (base : Machine σ) (g : Frame) :
    (base.withTop g).finish.root = if g.kind = .branch then base.root
      else match g.returnTo with
        | .own => g.stack
        | .root => g.stack ++ base.root
        | .frame _ => base.root := by
  simp only [finish, frames_withTop, Array.back?_push]
  cases g.kind <;> cases g.returnTo <;> rfl

/-- Only a call at top level leaves something on the root stack when it ends. -/
theorem root_finish_of_hangsOn {g parent : Frame} {i : Nat} (h : g.HangsOn i parent) :
    (base.withTop g).finish.root = base.root := by
  rw [root_finish]
  rcases h with ⟨hkind, hreturn⟩ | ⟨hkind, -⟩
  · rw [hkind, hreturn]
    rfl
  · rw [if_pos hkind]

/-- A step leaves a frame live, and what lies below it as it was but for returned
values, or it ends that frame. -/
theorem lives_step (hp : ctx.program.Indexed)
    (h : Chain (Frame.Standing ctx.program) ctx.maxFrames m.frames)
    (hf : m.frames[index]? = some f) (hstep : m.step ctx = (m', s)) :
    Lives index f m m' ∨ ∃ base : Machine σ,
      m = base.withTop f ∧ base.frames.size = index ∧ m' = m.finish ∧ s = .running := by
  rcases m.frames_empty_or_withTop with hempty | ⟨base, g, rfl⟩
  · rw [hempty] at hf
    cases hf
  rw [step_withTop] at hstep
  cases hnext : g.next? with
  | some token =>
    rw [hnext] at hstep
    exact .inl (lives_perform h hf (h.top.follows hp hnext) hstep)
  | none =>
    rw [hnext] at hstep
    cases hstep
    have hlt := (Array.getElem?_eq_some_iff.mp hf).1
    rw [size_withTop] at hlt
    rcases Nat.lt_succ_iff_lt_or_eq.mp hlt with hbelow | rfl
    · refine .inl (.of_same ?_ ?_ ?_)
      · rw [getElem?_withTop_of_lt hbelow] at hf
        rw [frames_finish, hf]
        rfl
      · intro j hj
        rw [frames_finish, getElem?_withTop_of_lt (Nat.lt_trans hj hbelow)]
      · obtain ⟨k, hk⟩ := Nat.exists_eq_add_one_of_ne_zero (Nat.ne_zero_of_lt hbelow)
        have hg := getElem?_withTop_self base g
        rw [hk] at hg
        obtain ⟨parent, -, hon⟩ := h.parent hg
        exact root_finish_of_hangsOn hon
    · rw [getElem?_withTop_self] at hf
      cases hf
      exact .inr ⟨base, rfl, rfl, rfl, rfl⟩

/-- As long as a frame lives, what lies below it is as it was but for returned
values. The step that ends it comes right after such a machine. -/
theorem WhileLive.lives {p : Program} {options : RunOptions} {sink : Sink σ} {out : σ}
    {phase : Phase} (hp : p.Indexed) (hvisits : p.Visits options sink out phase m .running)
    (hf : m.frames[index]? = some f)
    (h : WhileLive (p.context options sink) index m m' s) :
    p.Visits options sink out phase m' s ∧
      (Lives index f m m' ∨ ∃ (base : Machine σ) (g : Frame),
        WhileLive (p.context options sink) index m (base.withTop g) .running ∧
        Lives index f m (base.withTop g) ∧ base.frames.size = index ∧ g.fixed = f.fixed ∧
        (base.withTop g).step (p.context options sink) = (m', s) ∧
        m' = (base.withTop g).finish ∧ s = .running) := by
  induction h with
  | here => exact ⟨hvisits, .inl (.refl (hf ▸ rfl))⟩
  | @step m₁ m₂ s h hlive hstep ih =>
    obtain ⟨hvisits₁, hlives | ⟨base, g, -, -, hsize, -, -, hfinish, -⟩⟩ := ih
    · refine ⟨hvisits₁.step hstep, ?_⟩
      obtain ⟨f₁, hf₁, hfixed⟩ := Option.map_eq_some_iff.mp hlives.frame
      rcases lives_step hp (hvisits₁.chain hp) hf₁ hstep with hlives₁ | ⟨base, rfl, hsize, rfl, rfl⟩
      · exact .inl (hlives.trans (hlives₁.congr hfixed))
      · exact .inr ⟨base, f₁, h, hlives, hsize, hfixed, hstep, rfl, rfl⟩
    · rw [hfinish, frames_finish, hsize] at hlive
      exact absurd hlive (Nat.lt_irrefl index)

/-- A call at top level starts a frame of the function that it names. -/
theorem bottom_of_invoke (hempty : m.frames = #[]) {name callerBlock : String}
    {returnTo : ReturnTo} (hinvoke : m.invoke ctx name callerBlock returnTo = (m', s))
    (hf : m'.frames[0]? = some f) :
    f.returnTo = returnTo ∧ ctx.program.functions[name]? = some f.func := by
  rcases invoke_cases hinvoke with ⟨e, -, hframes, -⟩ | ⟨d, args, rest, hd, -, -, -, rfl⟩
  · rw [hframes, hempty] at hf
    cases hf
  · rw [frames_withTop, hempty] at hf
    cases hf
    exact ⟨rfl, hd⟩

end Machine

/-- Which function a phase calls at top level, and where that returns values to. -/
def Phase.calls (options : RunOptions) : Phase → Option (String × ReturnTo)
  | .fresh => none
  | .top => some (globalName, .own)
  | .entry => some (options.entry, .root)

namespace Program

variable {σ : Type} {p : Program} {options : RunOptions} {sink : Sink σ} {out : σ}
  {phase : Phase} {m : Machine σ} {s : Signal}

theorem Visits.bottom (hp : p.Indexed) (h : p.Visits options sink out phase m s) {f : Frame}
    (hf : m.frames[0]? = some f) :
    ∃ name, phase.calls options = some (name, f.returnTo) ∧ p.functions[name]? = some f.func := by
  induction h generalizing f with
  | fresh => cases hf
  | start h hinvoke ih =>
    obtain ⟨hreturn, hfunc⟩ := Machine.bottom_of_invoke ((h.kept hp).1 rfl) hinvoke hf
    exact ⟨globalName, by rw [hreturn]; rfl, hfunc⟩
  | enter h hentry hinvoke ih =>
    obtain ⟨hreturn, hfunc⟩ := Machine.bottom_of_invoke ((h.kept hp).1 rfl) hinvoke hf
    exact ⟨options.entry, by rw [hreturn]; rfl, hfunc⟩
  | @step phase m₁ m₂ s h hstep ih =>
    cases hf₁ : m₁.frames[0]? with
    | none =>
      have hempty : m₁.frames = #[] := by simpa using hf₁
      simp only [Machine.step, hempty] at hstep
      cases hstep
      rw [hempty] at hf
      cases hf
    | some f₁ =>
      obtain ⟨name, hcalls, hfunc⟩ := ih hf₁
      rcases Machine.lives_step hp (h.chain hp) hf₁ hstep with
        hlives | ⟨base, rfl, hsize, rfl, rfl⟩
      · have hframe := hlives.frame
        rw [hf, Option.map_some, Option.some.injEq] at hframe
        obtain ⟨-, hfuncEq, hreturnEq⟩ := Frame.eq_of_fixed hframe
        exact ⟨name, by rw [hreturnEq]; exact hcalls, by rw [hfuncEq]; exact hfunc⟩
      · rw [Machine.frames_finish, Array.size_eq_zero_iff.mp hsize] at hf
        cases hf

/-- Only the top-level call of `_global` returns values to itself. -/
theorem Visits.returnTo_own (hp : p.Indexed) (h : p.Visits options sink out phase m .running)
    {i : Nat} {f : Frame} (hf : m.frames[i]? = some f) (hown : f.returnTo = .own) :
    phase = .top ∧ i = 0 ∧ f.kind = .call ∧ p.functions[globalName]? = some f.func := by
  have hchain := h.chain hp
  cases i with
  | succ i =>
    obtain ⟨parent, -, ⟨-, hreturn⟩ | ⟨-, -, -, hreturn⟩⟩ := hchain.parent hf
    · rw [hown] at hreturn
      cases hreturn
    · exact absurd (hreturn.symm.trans hown) Frame.branchReturn_ne_own
  | zero =>
    obtain ⟨name, hcalls, hfunc⟩ := h.bottom hp hf
    rw [hown] at hcalls
    cases phase with
    | top =>
      cases hcalls
      exact ⟨rfl, rfl, (hchain.bottom f hf).1, hfunc⟩
    | _ => cases hcalls

end Program

-- -----------------------------------------------------------------------
-- What a frame leaves alone
-- -----------------------------------------------------------------------

namespace Machine

variable {σ : Type} {m m' : Machine σ} {index : Nat} {f : Frame}

/-- What the frame `f` at an index has left of the machine `m`, as a later machine
`m'` shows it. -/
structure Isolated (ctx : Context σ) (index : Nat) (f : Frame) (m m' : Machine σ) : Prop where
  others (j : Nat) : j < index → f.returnTo ≠ .frame j → m'.frames[j]? = m.frames[j]?
  target (t : Nat) : f.returnTo = .frame t → ∃ g values, m.frames[t]? = some g ∧
    m'.frames[t]? = some { g with stack := values ++ g.stack }
  root_kept : f.returnTo ≠ .root → (f.returnTo = .own → index < m'.frames.size) →
    m'.root = m.root
  root_received : f.returnTo = .root → ∃ values, m'.root = values ++ m.root
  /-- A frame that returns values to itself leaves its stack when it ends. -/
  root_left : f.returnTo = .own → ¬ index < m'.frames.size → ∃ last g,
    m.WhileLive ctx index last .running ∧ last.frames[index]? = some g ∧
    last.step ctx = (m', .running) ∧ m'.root = g.stack

theorem Lives.others (h : Lives index f m m') {j : Nat} (hj : j < index)
    (hreturn : f.returnTo ≠ .frame j) : m'.frames[j]? = m.frames[j]? := by
  obtain ⟨values, hframes, -⟩ := h.received
  rw [hframes j hj, getElem?_receive, if_neg hreturn]

theorem Lives.target (h : Lives index f m m') {t : Nat} {g : Frame} (ht : t < index)
    (hreturn : f.returnTo = .frame t) (hg : m.frames[t]? = some g) :
    ∃ values, m'.frames[t]? = some { g with stack := values ++ g.stack } := by
  obtain ⟨values, hframes, -⟩ := h.received
  refine ⟨values, ?_⟩
  rw [hframes t ht, getElem?_receive, if_pos hreturn, hg]
  rfl

theorem Lives.root_kept (h : Lives index f m m') (hreturn : f.returnTo ≠ .root) :
    m'.root = m.root := by
  obtain ⟨values, -, hroot⟩ := h.received
  rw [hroot, root_receive, if_neg hreturn]

theorem Lives.root_received (h : Lives index f m m') (hreturn : f.returnTo = .root) :
    ∃ values, m'.root = values ++ m.root := by
  obtain ⟨values, -, hroot⟩ := h.received
  exact ⟨values, by rw [hroot, root_receive, if_pos hreturn]⟩

theorem Lives.isolated {ctx : Context σ} (h : Lives index f m m')
    (hbelow : ∀ t, f.returnTo = .frame t → t < index ∧ ∃ g, m.frames[t]? = some g) :
    Isolated ctx index f m m' where
  others j hj hreturn := h.others hj hreturn
  target t hreturn := by
    obtain ⟨ht, g, hg⟩ := hbelow t hreturn
    obtain ⟨values, hvalues⟩ := h.target ht hreturn hg
    exact ⟨g, values, hg, hvalues⟩
  root_kept hreturn _ := h.root_kept hreturn
  root_received := h.root_received
  root_left _ hended := by
    obtain ⟨f', hf', -⟩ := Option.map_eq_some_iff.mp h.frame
    exact absurd (Array.getElem?_eq_some_iff.mp hf').1 hended

/-- The end of the frame changes nothing below it either, and the root stack as far as
the frame is one of a call at top level. -/
theorem Lives.isolated_finish {ctx : Context σ} {base : Machine σ} {g : Frame}
    (h : Lives base.frames.size f m (base.withTop g))
    (hbelow : ∀ t, f.returnTo = .frame t → t < base.frames.size ∧ ∃ g, m.frames[t]? = some g)
    (hown : f.returnTo = .own → f.kind = .call) (hfixed : g.fixed = f.fixed)
    (hlive : m.WhileLive ctx base.frames.size (base.withTop g) .running)
    (hstep : (base.withTop g).step ctx = ((base.withTop g).finish, .running)) :
    Isolated ctx base.frames.size f m (base.withTop g).finish := by
  have hframes : ∀ j, j < base.frames.size →
      (base.withTop g).finish.frames[j]? = (base.withTop g).frames[j]? := by
    intro j hj
    rw [frames_finish, getElem?_withTop_of_lt hj]
  have hended : ¬ base.frames.size < (base.withTop g).finish.frames.size := by
    rw [frames_finish]
    exact Nat.lt_irrefl _
  obtain ⟨hkind, -, hreturnTo⟩ := Frame.eq_of_fixed hfixed
  have hroot := root_finish base g
  rw [hkind, hreturnTo] at hroot
  refine ⟨?_, ?_, ?_, ?_, ?_⟩
  · intro j hj hreturn
    rw [hframes j hj]
    exact h.others hj hreturn
  · intro t hreturn
    obtain ⟨ht, g', hg'⟩ := hbelow t hreturn
    obtain ⟨values, hvalues⟩ := h.target ht hreturn hg'
    exact ⟨g', values, hg', (hframes t ht).trans hvalues⟩
  · intro hreturn hlive
    rw [← h.root_kept hreturn, hroot]
    split
    next => rfl
    next =>
      cases hto : f.returnTo with
      | own => exact absurd (hlive hto) hended
      | root => exact absurd hto hreturn
      | frame t => rfl
  · intro hreturn
    obtain ⟨values, hvalues⟩ := h.root_received hreturn
    rw [hroot, hreturn]
    split
    next => exact ⟨values, hvalues⟩
    next => exact ⟨g.stack ++ values, by rw [List.append_assoc, ← hvalues]; rfl⟩
  · intro hreturn _
    refine ⟨base.withTop g, g, hlive, getElem?_withTop_self base g, hstep, ?_⟩
    rw [hroot, hown hreturn, hreturn]
    rfl

/-- The innermost frame belongs to the call at an index: all that live over it are
branches. -/
def InCall (m : Machine σ) (c : Nat) : Prop :=
  (∃ call, m.frames[c]? = some call ∧ call.kind = .call) ∧
    ∀ j g, c < j → m.frames[j]? = some g → g.kind = .branch

end Machine

/-- Branches return values to where a branch of the call does to which they belong. -/
theorem Chain.branchReturn_of_branches {P : Frame → Prop} {limit : Nat} {frames : Array Frame}
    (h : Chain P limit frames) {c k : Nat} {call f : Frame} (hcall : frames[c]? = some call)
    (hbranches : ∀ j g, c < j → frames[j]? = some g → g.kind = .branch) (hle : c ≤ k)
    (hf : frames[k]? = some f) : f.branchReturn k = call.branchReturn c := by
  induction hle generalizing f with
  | refl =>
    obtain rfl : call = f := Option.some.inj (hcall.symm.trans hf)
    rfl
  | @step k hle ih =>
    obtain ⟨parent, hparent, ⟨hkind, -⟩ | ⟨-, -, -, hreturn⟩⟩ := h.parent hf
    · rw [hbranches (k + 1) f (Nat.lt_succ_of_le hle) hf] at hkind
      cases hkind
    · rw [Frame.branchReturn_of_ne_own (hreturn ▸ Frame.branchReturn_ne_own), hreturn]
      exact ih hparent

/-- A conditional that starts a frame takes its condition off the stack and starts a
branch. -/
theorem Machine.branch_of_moveIf {σ : Type} {ctx : Context σ} {base m : Machine σ} {f : Frame}
    {keyword : Keyword} {condition : Token} {rest : Stack} (hstack : f.stack = condition :: rest)
    (hperform : base.perform ctx (f.moveIf base.frames.size keyword) = (m, .running))
    (hsize : m.frames.size = base.frames.size + 2) :
    ∃ next start stop, m = (base.withTop (f.goTo next rest)).withTop
      ((f.goTo next rest).branchFrame base.frames.size start stop) := by
  have hstarts : ∀ next start stop, base.perform ctx (.start (f.goTo next rest)
      ((f.goTo next rest).branchFrame base.frames.size start stop)) = (m, .running) →
      m = (base.withTop (f.goTo next rest)).withTop
        ((f.goTo next rest).branchFrame base.frames.size start stop) := by
    intro next start stop h
    simp only [perform, push_eq] at h
    split at h
    next =>
      cases h
      rfl
    next => cases h
  unfold Frame.moveIf at hperform
  split at hperform
  next elseAt endAt hjump =>
    rw [hstack] at hperform
    simp only at hperform
    split at hperform
    next => exact ⟨_, _, _, hstarts _ _ _ hperform⟩
    next =>
      split at hperform
      next => exact ⟨_, _, _, hstarts _ _ _ hperform⟩
      next =>
        cases hperform
        rw [size_withTop] at hsize
        omega
  next => cases hperform

namespace Program

variable {σ : Type} {p : Program} {options : RunOptions} {sink : Sink σ} {out : σ}
  {phase : Phase} {m m' : Machine σ} {s : Signal}

theorem Visits.isolated (hp : p.Indexed) (h : p.Visits options sink out phase m .running)
    {i : Nat} {f : Frame} (hf : m.frames[i]? = some f)
    (hlive : m.WhileLive (p.context options sink) i m' s) :
    Machine.Isolated (p.context options sink) i f m m' := by
  have hbelow : ∀ t, f.returnTo = .frame t → t < i ∧ ∃ g, m.frames[t]? = some g := by
    intro t hreturn
    have ht : t < i := (h.chain hp).returnTo_lt hf hreturn
    have hlt : i < m.frames.size := (Array.getElem?_eq_some_iff.mp hf).1
    exact ⟨ht, _, Array.getElem?_eq_getElem (Nat.lt_trans ht hlt)⟩
  obtain ⟨-, hlives | ⟨base, g, hlast, hlives, rfl, hfixed, hstep, rfl, rfl⟩⟩ :=
    hlive.lives hp h hf
  · exact hlives.isolated hbelow
  · exact hlives.isolated_finish hbelow (fun hown => (h.returnTo_own hp hf hown).2.2.1) hfixed
      hlast hstep

/-- A branch returns values to where its call does, and that is below the call, unless
the call is that of `_global` at top level. -/
theorem Visits.branchReturn_ne_frame (hp : p.Indexed)
    (h : p.Visits options sink out phase m .running) {c k j : Nat} {f : Frame}
    (hcall : m.InCall c) (hc : phase = .top → c ≠ 0) (hle : c ≤ k)
    (hf : m.frames[k]? = some f) (hj : c ≤ j) : f.branchReturn k ≠ .frame j := by
  obtain ⟨⟨call, hcallAt, -⟩, hbranches⟩ := hcall
  have hchain := h.chain hp
  have hown : call.returnTo ≠ .own := by
    intro hown
    obtain ⟨hphase, hzero, -⟩ := h.returnTo_own hp hcallAt hown
    exact hc hphase hzero
  intro hframe
  rw [hchain.branchReturn_of_branches hcallAt hbranches hle hf,
    Frame.branchReturn_of_ne_own hown] at hframe
  exact absurd (hchain.returnTo_lt hcallAt hframe) (Nat.not_lt_of_le hj)

/-- A branch leaves the frames of the call that it belongs to alone, unless that is
the top-level call of `_global`. -/
theorem Visits.branch_isolated (hp : p.Indexed) (h : p.Visits options sink out phase m .running)
    {c : Nat} (hcall : m.InCall c) (hc : phase = .top → c ≠ 0) {f : Frame} {word : Conditional}
    {condition : Token} {rest : Stack} {m₁ : Machine σ} (hback : m.frames.back? = some f)
    (hnext : f.next? = some (.keyword word.keyword)) (hstack : f.stack = condition :: rest)
    (hstep : m.step (p.context options sink) = (m₁, .running))
    (hsize : m₁.frames.size = m.frames.size + 1)
    (hlive : m₁.WhileLive (p.context options sink) m.frames.size m' s) :
    (m'.frames[m.frames.size - 1]?).map Frame.stack = some rest ∧
      ∀ j, c ≤ j → j + 1 < m.frames.size → m'.frames[j]? = m.frames[j]? := by
  have hvisits₁ := h.step hstep
  rcases m.frames_empty_or_withTop with hempty | ⟨base, top, rfl⟩
  · rw [hempty] at hback
    cases hback
  obtain rfl : top = f := by simpa using hback
  have hmove : base.perform (p.context options sink) (top.moveIf base.frames.size word.keyword)
      = (m₁, .running) := by
    rw [Machine.step_withTop, hnext] at hstep
    cases word <;> exact hstep
  rw [Machine.size_withTop] at hsize hlive ⊢
  obtain ⟨next, start, stop, rfl⟩ := Machine.branch_of_moveIf hstack hmove hsize
  have hcle : c ≤ base.frames.size := by
    obtain ⟨⟨call, hcallAt, -⟩, -⟩ := hcall
    have hlt := (Array.getElem?_eq_some_iff.mp hcallAt).1
    rw [Machine.size_withTop] at hlt
    exact Nat.le_of_lt_succ hlt
  have hreturn : ∀ j, c ≤ j → top.branchReturn base.frames.size ≠ .frame j := fun j hj =>
    h.branchReturn_ne_frame hp hcall hc hcle (Machine.getElem?_withTop_self base top) hj
  have hsame : ∀ j, c ≤ j → j < base.frames.size + 1 → m'.frames[j]? =
      (base.withTop (top.goTo next rest)).frames[j]? := by
    intro j hj hlt
    have hbranch := Machine.getElem?_withTop_self (base.withTop (top.goTo next rest))
      ((top.goTo next rest).branchFrame base.frames.size start stop)
    rw [Machine.size_withTop] at hbranch
    rw [(hvisits₁.isolated hp hbranch hlive).others j hlt (hreturn j hj)]
    exact Machine.getElem?_withTop_of_lt (by rw [Machine.size_withTop]; exact hlt)
  refine ⟨?_, ?_⟩
  · rw [Nat.add_sub_cancel, hsame base.frames.size hcle (Nat.lt_succ_self _),
      Machine.getElem?_withTop_self]
    rfl
  · intro j hj hlt
    have hlt : j < base.frames.size := Nat.lt_of_succ_lt_succ hlt
    rw [hsame j hj (Nat.lt_succ_of_lt hlt), Machine.getElem?_withTop_of_lt hlt,
      Machine.getElem?_withTop_of_lt hlt]

/-- From any moment of its life on, and until right after its end, a frame leaves the
machine below it as it was, but for the values that it returns. In particular the
side of a conditional that is taken leaves the stacks of its call as they were when
the condition had been taken off, unless that call is `_global` at top level. -/
theorem frames_isolated {source version : String} {p : Program}
    (h : ofSource source version = .ok p) {options : RunOptions} {sink : Sink σ} {out : σ}
    {phase : Phase} {m : Machine σ} (hvisits : p.Visits options sink out phase m .running) :
    (∀ i f, m.frames[i]? = some f →
      (f.returnTo = .own → phase = .top ∧ i = 0 ∧ f.kind = .call ∧
        p.functions[globalName]? = some f.func) ∧
      ∀ m' s, m.WhileLive (p.context options sink) i m' s →
        Machine.Isolated (p.context options sink) i f m m') ∧
    ∀ c f (word : Conditional) condition rest m₁, m.InCall c → (phase = .top → c ≠ 0) →
      m.frames.back? = some f → f.next? = some (.keyword word.keyword) →
      f.stack = condition :: rest → m.step (p.context options sink) = (m₁, .running) →
      m₁.frames.size = m.frames.size + 1 →
      ∀ m' s, m₁.WhileLive (p.context options sink) m.frames.size m' s →
        (m'.frames[m.frames.size - 1]?).map Frame.stack = some rest ∧
        ∀ j, c ≤ j → j + 1 < m.frames.size → m'.frames[j]? = m.frames[j]? := by
  have hp := indexed_of_ofSource h
  refine ⟨?_, ?_⟩
  · intro i f hf
    exact ⟨hvisits.returnTo_own hp hf, fun m' s hlive => hvisits.isolated hp hf hlive⟩
  · intro c f word condition rest m₁ hcall hc hback hnext hstack hstep hsize m' s hlive
    exact hvisits.branch_isolated hp hcall hc hback hnext hstack hstep hsize hlive

/-- The side of a conditional returns a value past the stack of its call. -/
theorem frames_isolated_in_call :
    ∃ p m m₁, ofSource "fun f as 'x' true if 'y' ret end end f" defaultVersion = .ok p ∧
      p.Visits {} .memory "" .top m .running ∧
      m.step (p.context {} .memory) = (m₁, .running) ∧ m₁.frames.size = 3 ∧
      ∀ m' s, m₁.WhileLive (p.context {} .memory) 2 m' s →
        (m'.frames[1]?).map Frame.stack = some [.str "x"] := by
  have hcheck : (do
      let p ← (ofSource "fun f as 'x' true if 'y' ret end end f" defaultVersion).toOption
      let moment ← p.trace {} .memory "" 4
      let f ← moment.machine.frames.back?
      let next := moment.machine.step (p.context {} .memory)
      return decide ((moment.phase = .top ∧ moment.signal = .running) ∧
        moment.machine.frames.map Frame.kind = #[.call, .call] ∧
        (f.next? = some (.keyword .if_) ∧ f.stack = [.bool true, .str "x"]) ∧
        next.2 = .running ∧ next.1.frames.size = 3)) = some true := by
    decide +kernel
  simp only [Option.bind_eq_bind, Option.bind_eq_some_iff] at hcheck
  obtain ⟨p, hp, ⟨phase, m, s⟩, htrace, f, hback, hcheck⟩ := hcheck
  obtain ⟨⟨rfl, rfl⟩, hkinds, ⟨hnext, hstack⟩, hsignal, hsize⟩ :=
    of_decide_eq_true (Option.some.inj hcheck)
  have hsource := Except.eq_ok_of_toOption hp
  have hvisits := visits_of_trace htrace
  have htwo : m.frames.size = 2 := by simpa using congrArg Array.size hkinds
  have hcall : m.InCall 1 := by
    refine ⟨?_, ?_⟩
    · have hkind := congrArg (·[1]?) hkinds
      simpa using hkind
    · intro j g hj hg
      have hlt := (Array.getElem?_eq_some_iff.mp hg).1
      omega
  refine ⟨p, m, _, hsource, hvisits, Prod.ext rfl hsignal, hsize, ?_⟩
  intro m' s hlive
  have hisolated := (frames_isolated hsource hvisits).2 1 f .if_ _ _ _ hcall (by simp) hback
    hnext hstack (Prod.ext rfl hsignal) (by rw [hsize, htwo]) m' s (by rw [htwo]; exact hlive)
  rw [htwo] at hisolated
  exact hisolated.1

end Program

end Wordstack
