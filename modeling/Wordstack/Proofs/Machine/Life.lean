-- SUMMARY: What a step does to the frames: each keeps what it keeps for life, and one may start or end.
import Wordstack.Proofs.Machine.Isolation

/-!
# The life of frames

What a frame keeps as long as it lives is settled when it starts, and a step starts
at most one frame, over the innermost one (`Machine.frame_of_step`). So what depends
on nothing else and is passed on to the frames that start (`Frame.Lasting`) holds of
the frames of a whole run if it holds of the calls at top level.
-/

namespace Wordstack

namespace Machine

variable {σ : Type} {ctx : Context σ} {base m m' : Machine σ} {s : Signal} {f g : Frame}
  {i : Nat}

-- -----------------------------------------------------------------------
-- Steps
-- -----------------------------------------------------------------------

/-- The frames of `m'` are frames of `m` at the same places, as far as they are kept
for life. -/
def KeepsFrames (m m' : Machine σ) : Prop :=
  ∀ (i : Nat) (g : Frame), m'.frames[i]? = some g → ∃ f, m.frames[i]? = some f ∧ g.fixed = f.fixed

theorem KeepsFrames.trans {m'' : Machine σ} (h : m.KeepsFrames m') (h' : m'.KeepsFrames m'') :
    m.KeepsFrames m'' := by
  intro i g hg
  obtain ⟨g', hg', hfixed'⟩ := h' i g hg
  obtain ⟨f, hf, hfixed⟩ := h i g' hg'
  exact ⟨f, hf, hfixed'.trans hfixed⟩

theorem keepsFrames_withTop (base : Machine σ) (hfixed : g.fixed = f.fixed) :
    (base.withTop f).KeepsFrames (base.withTop g) := by
  intro i h hi
  rw [frames_withTop, Array.getElem?_push] at hi ⊢
  split at hi
  next heq =>
    cases hi
    rw [if_pos heq]
    exact ⟨f, rfl, hfixed⟩
  next hne =>
    rw [if_neg hne]
    exact ⟨h, hi, rfl⟩

theorem keepsFrames_receive (m : Machine σ) (returnTo : ReturnTo) (values : Stack) :
    m.KeepsFrames (m.receive returnTo values) := by
  intro i g hg
  rw [getElem?_receive] at hg
  split at hg
  next =>
    obtain ⟨f, hf, rfl⟩ := Option.map_eq_some_iff.mp hg
    exact ⟨f, hf, rfl⟩
  next => exact ⟨g, hg, rfl⟩

/-- A frame of the machine after a move was there before, or it is the one that the
innermost frame has started. -/
theorem frame_of_perform {move : Move}
    (hmove : move.Issues ctx.program base.frames.size f)
    (hperform : base.perform ctx move = (m', s)) (hg : m'.frames[i]? = some g) :
    (∃ f', (base.withTop f).frames[i]? = some f' ∧ g.fixed = f'.fixed) ∨
      (i = base.frames.size + 1 ∧ f.Starts ctx.program base.frames.size g) := by
  have hmoved : ∀ pc stack, (base.withTop f).KeepsFrames (base.withTop (f.goTo pc stack)) :=
    fun pc stack => keepsFrames_withTop base rfl
  cases hmove with
  | go pc stack =>
    cases hperform
    exact .inl (hmoved pc stack i g hg)
  | @start pc stack g' hstarts =>
    simp only [perform, push_eq] at hperform
    split at hperform
    next =>
      cases hperform
      rw [frames_withTop, Array.getElem?_push, size_withTop] at hg
      split at hg
      next heq =>
        cases hg
        exact .inr ⟨heq, hstarts⟩
      next => exact .inl (hmoved pc stack i g hg)
    next =>
      cases hperform
      exact .inl (hmoved pc stack i g hg)
  | ret pc stack value =>
    cases hperform
    rw [deliver_withTop] at hg
    exact .inl (((hmoved pc stack).trans (keepsFrames_receive _ _ _)) i g hg)
  | print pc stack line =>
    simp only [perform] at hperform
    split at hperform
    all_goals
      cases hperform
      exact .inl (hmoved pc stack i g hg)
  | fail pc stack error =>
    cases hperform
    exact .inl (hmoved pc stack i g hg)

/-- A frame of the machine after a step was there before, or it is the one that the
innermost frame has started. -/
theorem frame_of_step (hstep : m.step ctx = (m', s)) (hg : m'.frames[i]? = some g) :
    (∃ f, m.frames[i]? = some f ∧ g.fixed = f.fixed) ∨
      ∃ k f, i = k + 1 ∧ m.frames.size = k + 1 ∧ m.frames[k]? = some f ∧
        f.Starts ctx.program k g := by
  rcases m.frames_empty_or_withTop with hempty | ⟨base, f, rfl⟩
  · simp only [step, hempty] at hstep
    cases hstep
    exact .inl ⟨g, hg, rfl⟩
  rw [step_withTop] at hstep
  cases hnext : f.next? with
  | none =>
    rw [hnext] at hstep
    cases hstep
    rw [frames_finish] at hg
    have hlt : i < base.frames.size := (Array.getElem?_eq_some_iff.mp hg).1
    exact .inl ⟨g, (getElem?_withTop_of_lt hlt).trans hg, rfl⟩
  | some token =>
    rw [hnext] at hstep
    rcases frame_of_perform (f.issues_move _ _ token) hstep hg with hkept | ⟨rfl, hstarts⟩
    · exact .inl hkept
    · exact .inr ⟨base.frames.size, f, rfl, size_withTop base f, getElem?_withTop_self base f,
        hstarts⟩

-- -----------------------------------------------------------------------
-- The end of a frame
-- -----------------------------------------------------------------------

theorem finish_own (base : Machine σ) (hkind : f.kind = .call) (hreturn : f.returnTo = .own) :
    (base.withTop f).finish = { base with root := f.stack } := by
  simp only [finish, withTop, Array.back?_push, Array.pop_push, hkind, hreturn]

theorem finish_inner (base : Machine σ)
    (hinner : f.kind = .branch ∨ ∃ index, f.returnTo = .frame index) :
    (base.withTop f).finish = base := by
  simp only [finish, withTop, Array.back?_push, Array.pop_push]
  rcases hinner with hkind | ⟨index, hreturn⟩
  · rw [hkind]
  · rw [hreturn]
    cases f.kind <;> rfl

end Machine

-- -----------------------------------------------------------------------
-- Runs
-- -----------------------------------------------------------------------

/-- A property that a frame keeps for life, and that it passes on to the frames that it
starts. -/
structure Frame.Lasting (p : Program) (P : Frame → Prop) : Prop where
  congr : ∀ {f g : Frame}, P f → g.fixed = f.fixed → P g
  starts : ∀ {index : Nat} {f g : Frame}, P f → f.Starts p index g → P g

namespace Machine

variable {σ : Type} {ctx : Context σ} {m m' : Machine σ} {s : Signal} {P : Frame → Prop}

theorem all_step (hP : Frame.Lasting ctx.program P) (h : ∀ f ∈ m.frames, P f)
    (hstep : m.step ctx = (m', s)) : ∀ f ∈ m'.frames, P f := by
  intro g hg
  obtain ⟨i, hi⟩ := Array.mem_iff_getElem?.mp hg
  rcases frame_of_step hstep hi with ⟨f, hf, hfixed⟩ | ⟨k, f, -, -, hf, hstarts⟩
  · exact hP.congr (h f (Array.mem_of_getElem? hf)) hfixed
  · exact hP.starts (h f (Array.mem_of_getElem? hf)) hstarts

theorem all_invoke {name callerBlock : String} {returnTo : ReturnTo}
    (hcall : ∀ d args, ctx.program.functions[name]? = some d →
      P (callFrame d args returnTo callerBlock))
    (hempty : m.frames = #[]) (hinvoke : m.invoke ctx name callerBlock returnTo = (m', s)) :
    ∀ f ∈ m'.frames, P f := by
  rcases invoke_cases hinvoke with ⟨e, -, hframes, -⟩ | ⟨d, args, rest, hd, -, -, -, rfl⟩
  · rw [hframes, hempty]
    simp
  · intro f hf
    rw [frames_withTop, hempty, Array.push_empty, Array.mem_singleton] at hf
    subst hf
    exact hcall d args hd

end Machine

namespace Program.Visits

variable {σ : Type} {p : Program} {options : RunOptions} {sink : Sink σ} {out : σ}
  {phase : Phase} {m : Machine σ} {s : Signal} {P : Frame → Prop}

/-- A lasting property holds of all frames of a run if it holds of the calls at top level. -/
theorem all (hP : Frame.Lasting p P)
    (hcall : ∀ (name : String) d args returnTo, p.functions[name]? = some d →
      P (Machine.callFrame d args returnTo globalName))
    (h : p.Visits options sink out phase m s) : ∀ f ∈ m.frames, P f := by
  induction h with
  | fresh => simp [Machine.init]
  | start h hinvoke ih =>
    exact Machine.all_invoke (fun d args => hcall _ d args _) h.frames_of_done hinvoke
  | enter h hentry hinvoke ih =>
    exact Machine.all_invoke (fun d args => hcall _ d args _) h.frames_of_done hinvoke
  | step h hstep ih => exact Machine.all_step hP ih hstep

end Program.Visits

end Wordstack
