-- SUMMARY: The invariant of visited machines: bounded frames that hang together, and steps within their bodies.
import Wordstack.Proofs.Machine.Frames

/-!
# The invariant of a run

`Chain` says that the frames of a machine are not too many, that each of them hangs
on the one below it, and that something holds of all of them. While a run goes on,
that is that they stand inside their code. A step that fails may leave the
innermost frame at an offset inside a conditional, but within its bounds. What
follows for the whole array of frames is listed in `Machine.WellFormed`, and what
follows for the next step in `Machine.Ready`.
-/

namespace Wordstack

/-- At most `limit` frames, each hanging on the one below, with a property that all
of them have. -/
structure Chain (P : Frame → Prop) (limit : Nat) (frames : Array Frame) : Prop where
  size_le : frames.size ≤ limit
  bottom : ∀ f, frames[0]? = some f → f.IsBottom
  hangs : ∀ i f parent, frames[i + 1]? = some f → frames[i]? = some parent → f.HangsOn i parent
  all : ∀ f ∈ frames, P f

namespace Chain

variable {P Q : Frame → Prop} {limit : Nat} {frames frames' : Array Frame} {f g : Frame}

theorem empty : Chain P limit #[] :=
  ⟨Nat.zero_le _, nofun, nofun, nofun⟩

/-- Frames may change what they do not keep for life. -/
theorem congr (h : Chain P limit frames)
    (hfixed : frames'.map Frame.fixed = frames.map Frame.fixed) (hall : ∀ f ∈ frames', Q f) :
    Chain Q limit frames' := by
  have hsize : frames'.size = frames.size := by
    simpa only [Array.size_map] using congrArg Array.size hfixed
  have hget : ∀ (i : Nat) (f' : Frame), frames'[i]? = some f' →
      ∃ f : Frame, frames[i]? = some f ∧ f'.fixed = f.fixed := by
    intro i f' hf'
    have hmap := congrArg (·[i]?) hfixed
    simp only [Array.getElem?_map, hf', Option.map_some] at hmap
    obtain ⟨f, hf, heq⟩ := Option.map_eq_some_iff.mp hmap.symm
    exact ⟨f, hf, heq.symm⟩
  refine ⟨hsize ▸ h.size_le, ?_, ?_, hall⟩
  · intro f' hf'
    obtain ⟨f, hf, heq⟩ := hget 0 f' hf'
    exact (h.bottom f hf).congr heq
  · intro i f' parent' hf' hparent'
    obtain ⟨f, hf, heq⟩ := hget (i + 1) f' hf'
    obtain ⟨parent, hparent, heqParent⟩ := hget i parent' hparent'
    exact (h.hangs i f parent hf hparent).congr heq heqParent

theorem mono (h : Chain P limit frames) (hPQ : ∀ f, P f → Q f) : Chain Q limit frames :=
  h.congr rfl fun f hf => hPQ f (h.all f hf)

theorem top (h : Chain P limit (frames.push f)) : P f := h.all f Array.mem_push_self

theorem below (h : Chain P limit (frames.push f)) : Chain P limit frames := by
  have hget : ∀ (i : Nat) (g : Frame), frames[i]? = some g → (frames.push f)[i]? = some g := by
    intro i g hg
    obtain ⟨hlt, -⟩ := Array.getElem?_eq_some_iff.mp hg
    rwa [Array.getElem?_push, if_neg (Nat.ne_of_lt hlt)]
  refine ⟨?_, ?_, ?_, ?_⟩
  · have := h.size_le
    rw [Array.size_push] at this
    exact Nat.le_of_succ_le this
  · exact fun g hg => h.bottom g (hget 0 g hg)
  · exact fun i g parent hg hparent => h.hangs i g parent (hget _ g hg) (hget i parent hparent)
  · exact fun g hg => h.all g (Array.mem_push_of_mem f hg)

/-- The first frame is one of a call at top level. -/
theorem first (hlimit : 0 < limit) (hbottom : f.IsBottom) (hf : P f) :
    Chain P limit (#[].push f) := by
  refine ⟨hlimit, ?_, ?_, ?_⟩
  · rintro g ⟨rfl⟩
    exact hbottom
  · intro i g parent hg
    cases hg
  · intro g hg
    rw [Array.mem_push] at hg
    rcases hg with hg | rfl
    · exact absurd hg (Array.not_mem_empty g)
    · exact hf

/-- The innermost frame may start another. -/
theorem start (h : Chain P limit (frames.push f)) (hlimit : (frames.push f).size < limit)
    (hon : g.HangsOn frames.size f) (hg : P g) : Chain P limit ((frames.push f).push g) := by
  refine ⟨by rw [Array.size_push]; exact hlimit, ?_, ?_, ?_⟩
  · intro f' hf'
    rw [Array.getElem?_push, if_neg (by simp)] at hf'
    exact h.bottom f' hf'
  · intro i f' parent hf' hparent
    rw [Array.getElem?_push] at hf' hparent
    split at hf'
    next htop =>
      -- The frame that started: what is below it is the frame that was innermost.
      rw [Array.size_push, Nat.add_right_cancel_iff] at htop
      subst htop
      rw [if_neg (by simp), Array.getElem?_push_size] at hparent
      cases hf'
      cases hparent
      exact hon
    next =>
      obtain ⟨hlt, -⟩ := Array.getElem?_eq_some_iff.mp hf'
      rw [if_neg (by omega)] at hparent
      exact h.hangs i f' parent hf' hparent
  · intro f' hf'
    rw [Array.mem_push] at hf'
    rcases hf' with hf' | rfl
    · exact h.all f' hf'
    · exact hg

/-- The innermost frame may move on. -/
theorem replace (h : Chain P limit (frames.push f)) (hfixed : g.fixed = f.fixed)
    (hPQ : ∀ f, P f → Q f) (hg : Q g) : Chain Q limit (frames.push g) := by
  refine h.congr ?_ ?_
  · rw [Array.map_push, Array.map_push, hfixed]
  · intro f' hf'
    rw [Array.mem_push] at hf'
    rcases hf' with hf' | rfl
    · exact hPQ f' (h.below.all f' hf')
    · exact hg

theorem goTo {p : Program} {pc : Nat} {stack : Stack}
    (h : Chain (Frame.Standing p) limit (frames.push f)) (hf : (f.goTo pc stack).Standing p) :
    Chain (Frame.Standing p) limit (frames.push (f.goTo pc stack)) :=
  h.replace rfl (fun _ => id) hf

theorem modify (h : Chain P limit frames) (index : Nat) (change : Frame → Frame)
    (hfixed : ∀ f, (change f).fixed = f.fixed) (hchange : ∀ f, P f → P (change f)) :
    Chain P limit (frames.modify index change) := by
  refine h.congr (Machine.map_modify_of_same hfixed frames index) ?_
  intro f hf
  obtain ⟨i, hi⟩ := Array.mem_iff_getElem?.mp hf
  rw [Array.getElem?_modify] at hi
  split at hi
  · obtain ⟨g, hg, rfl⟩ := Option.map_eq_some_iff.mp hi
    exact hchange g (h.all g (Array.mem_of_getElem? hg))
  · exact h.all f (Array.mem_of_getElem? hi)

/-- Each frame but the first has one below. -/
theorem parent (h : Chain P limit frames) {i : Nat} (hf : frames[i + 1]? = some f) :
    ∃ parent, frames[i]? = some parent ∧ f.HangsOn i parent := by
  obtain ⟨hlt, -⟩ := Array.getElem?_eq_some_iff.mp hf
  have hparent := Array.getElem?_eq_getElem (Nat.lt_of_succ_lt hlt)
  exact ⟨_, hparent, h.hangs i f _ hf hparent⟩

/-- Branches lead down to a call, and return values to where a branch of that call
does. -/
theorem nearest_call (h : Chain P limit frames) {i : Nat} (hf : frames[i]? = some f) :
    ∃ (c : Nat) (call : Frame), c ≤ i ∧ frames[c]? = some call ∧ call.kind = .call ∧
      (∀ (j : Nat) (g : Frame), c < j → j ≤ i → frames[j]? = some g → g.kind = .branch) ∧
      f.branchReturn i = call.branchReturn c := by
  induction i generalizing f with
  | zero =>
    refine ⟨0, f, Nat.le_refl 0, hf, (h.bottom f hf).1, ?_, rfl⟩
    intro j g hj hle
    omega
  | succ i ih =>
    obtain ⟨parent, hparent, ⟨hkind, -⟩ | ⟨hkind, -, -, hreturn⟩⟩ := h.parent hf
    · refine ⟨i + 1, f, Nat.le_refl _, hf, hkind, ?_, rfl⟩
      intro j g hj hle
      omega
    · obtain ⟨c, call, hc, hcall, hcallKind, hbetween, hsame⟩ := ih hparent
      refine ⟨c, call, Nat.le_succ_of_le hc, hcall, hcallKind, ?_, ?_⟩
      · intro j g hj hle hg
        rcases Nat.le_succ_iff.mp hle with hle | rfl
        · exact hbetween j g hj hle hg
        · obtain rfl : f = g := Option.some.inj (hf.symm.trans hg)
          exact hkind
      · rw [hsame] at hreturn
        rw [Frame.branchReturn_of_ne_own (hreturn ▸ Frame.branchReturn_ne_own), hreturn]

end Chain

-- -----------------------------------------------------------------------
-- Steps and runs
-- -----------------------------------------------------------------------

namespace Machine

variable {σ : Type} {ctx : Context σ} {base m m' : Machine σ} {s : Signal}

/-- What holds of the frames after an action: they stand inside their code, or the
action failed and they are within their bounds. -/
def Kept (p : Program) (limit : Nat) (frames : Array Frame) (s : Signal) : Prop :=
  Chain (Frame.Standing p) limit frames ∨
    (∃ e, s = .failed e) ∧ Chain Frame.Bounded limit frames

theorem chain_deliver {p : Program} {limit : Nat} (h : Chain (Frame.Standing p) limit m.frames)
    (source : Nat) (value : Token) :
    Chain (Frame.Standing p) limit (m.deliver source value).frames := by
  have hreceive : ∀ index, Chain (Frame.Standing p) limit
      (m.frames.modify index fun f => { f with stack := value :: f.stack }) :=
    fun index => h.modify index _ (fun _ => rfl) fun f hf => hf.withStack _
  unfold deliver
  split
  · exact h
  · split
    · exact hreceive _
    · exact h
    · exact hreceive _

theorem frames_finish (base : Machine σ) (f : Frame) :
    (base.withTop f).finish.frames = base.frames := by
  simp only [finish, frames_withTop, Array.back?_push, Array.pop_push]
  split <;> rfl

theorem kept_perform {f : Frame} {move : Move}
    (h : Chain (Frame.Standing ctx.program) ctx.maxFrames (base.frames.push f))
    (hlt : f.pc < f.stop) (hmove : move.Follows ctx.program base.frames.size f)
    (hperform : base.perform ctx move = (m', s)) :
    Kept ctx.program ctx.maxFrames m'.frames s := by
  cases hmove with
  | go hf =>
    cases hperform
    exact .inl (h.goTo hf)
  | start hf hg hon =>
    have hmoved := h.goTo hf
    simp only [perform, push_eq] at hperform
    split at hperform
    next hlimit =>
      cases hperform
      exact .inl (hmoved.start hlimit hon hg)
    next =>
      cases hperform
      exact .inl hmoved
  | @ret pc stack value hf =>
    cases hperform
    exact .inl (chain_deliver (h.goTo hf) _ value)
  | @print pc stack line hf =>
    have hmoved := h.goTo hf
    simp only [perform] at hperform
    split at hperform
    · cases hperform
      exact .inl hmoved
    · cases hperform
      exact .inl hmoved
  | fail =>
    cases hperform
    have hbounded := h.top.bounded
    exact .inr ⟨⟨_, rfl⟩, h.replace rfl (fun _ hf => hf.bounded)
      ⟨hlt, hbounded.stop_le, hbounded.call_stop⟩⟩

/-- A step keeps the invariant. -/
theorem kept_step (hp : ctx.program.Indexed)
    (h : Chain (Frame.Standing ctx.program) ctx.maxFrames m.frames)
    (hstep : m.step ctx = (m', s)) : Kept ctx.program ctx.maxFrames m'.frames s := by
  rcases m.frames_empty_or_withTop with hempty | ⟨base, f, rfl⟩
  · simp only [step, hempty] at hstep
    cases hstep
    exact .inl h
  · rw [step_withTop] at hstep
    cases hnext : f.next? with
    | none =>
      rw [hnext] at hstep
      cases hstep
      rw [frames_finish]
      exact .inl h.below
    | some token =>
      rw [hnext] at hstep
      exact kept_perform h (Frame.next?_eq_some hnext).1 (h.top.follows hp hnext) hstep

/-- A call at top level starts the first frame, or fails. -/
theorem kept_invoke (hp : ctx.program.Indexed) (hempty : m.frames = #[]) {name callerBlock : String}
    {returnTo : ReturnTo} (hreturn : returnTo = .own ∨ returnTo = .root)
    (hinvoke : m.invoke ctx name callerBlock returnTo = (m', s)) :
    Kept ctx.program ctx.maxFrames m'.frames s := by
  rcases invoke_cases hinvoke with ⟨e, -, hframes, -⟩ | ⟨d, args, rest, hd, -, hlimit, -, rfl⟩
  · rw [hframes, hempty]
    exact .inl Chain.empty
  · rw [hempty] at hlimit
    rw [frames_withTop, hempty]
    exact .inl (.first hlimit ⟨rfl, hreturn⟩ (Frame.standing_callFrame hp hd args _ _))

end Machine

/-- The invariant holds of every visited machine, and a run that has come to an end
has no frames left. -/
theorem Program.Visits.kept {σ : Type} {p : Program} {options : RunOptions} {sink : Sink σ}
    {out : σ} {phase : Phase} {m : Machine σ} {s : Signal} (hp : p.Indexed)
    (h : p.Visits options sink out phase m s) :
    (s = .done → m.frames = #[]) ∧ Machine.Kept p options.maxFrames m.frames s := by
  refine ⟨?_, ?_⟩
  · rintro rfl
    exact h.frames_of_done
  · induction h with
    | fresh => exact .inl .empty
    | start h hinvoke ih => exact Machine.kept_invoke hp h.frames_of_done (.inl rfl) hinvoke
    | enter h hentry hinvoke ih => exact Machine.kept_invoke hp h.frames_of_done (.inr rfl) hinvoke
    | step h hstep ih =>
      rcases ih with hchain | ⟨⟨e, he⟩, -⟩
      · exact Machine.kept_step hp hchain hstep
      · cases he

-- -----------------------------------------------------------------------
-- What the invariant says
-- -----------------------------------------------------------------------

namespace Machine

variable {σ : Type} {m : Machine σ}

/-- The frames of a machine stay within their limits, and each of them fits the ones
below it. -/
structure WellFormed (limit : Nat) (m : Machine σ) : Prop where
  size_le : m.frames.size ≤ limit
  pc_le (i : Nat) (f : Frame) : m.frames[i]? = some f →
    f.pc ≤ f.stop ∧ f.stop ≤ f.func.body.size
  call_stop (i : Nat) (f : Frame) : m.frames[i]? = some f → f.kind = .call →
    f.stop = f.func.body.size
  bottom (f : Frame) : m.frames[0]? = some f →
    f.kind = .call ∧ (f.returnTo = .own ∨ f.returnTo = .root)
  call_returnTo (i : Nat) (f : Frame) : m.frames[i + 1]? = some f → f.kind = .call →
    f.returnTo = .frame i
  branch_parent (i : Nat) (f : Frame) : m.frames[i + 1]? = some f → f.kind = .branch →
    ∃ parent : Frame, m.frames[i]? = some parent ∧ f.func = parent.func ∧
      f.callerBlock = parent.callerBlock
  /-- A branch returns values to where the nearest call below it does, or to that
  call if it is its own caller. -/
  branch_returnTo (i : Nat) (f : Frame) : m.frames[i]? = some f → f.kind = .branch →
    ∃ (c : Nat) (call : Frame), c < i ∧ m.frames[c]? = some call ∧ call.kind = .call ∧
      (∀ (j : Nat) (g : Frame), c < j → j < i → m.frames[j]? = some g → g.kind = .branch) ∧
      f.returnTo = if call.returnTo = .own then .frame c else call.returnTo
  returnTo_lt (i : Nat) (f : Frame) (t : Nat) : m.frames[i]? = some f →
    f.returnTo = .frame t → t < i

/-- What the next step needs: a token at the offset of the innermost frame, unless
that is its end, which is no `else` and not the `end` of a conditional, and a frame
to return values to. -/
structure Ready (m : Machine σ) : Prop where
  token (f : Frame) : m.frames.back? = some f → f.pc < f.stop →
    ∃ token, f.func.body[f.pc]? = some token ∧ token ≠ .keyword .else_ ∧
      (token = .keyword .end_ → (∃ whileAt, f.func.jumps[f.pc]? = some (.back whileAt)) ∧
        ∀ (offset : Nat) elseAt, f.func.jumps[offset]? ≠ some (.branch elseAt f.pc))
  target (f : Frame) (t : Nat) : m.frames.back? = some f → f.returnTo = .frame t →
    ∃ g, m.frames[t]? = some g

end Machine

namespace Chain

variable {σ : Type} {m : Machine σ} {P : Frame → Prop} {limit : Nat} {frames : Array Frame}
  {f : Frame} {i : Nat}

theorem call_returnTo (h : Chain P limit frames) (hf : frames[i + 1]? = some f)
    (hkind : f.kind = .call) : f.returnTo = .frame i := by
  obtain ⟨parent, -, ⟨-, hreturn⟩ | ⟨hbranch, -⟩⟩ := h.parent hf
  · exact hreturn
  · rw [hkind] at hbranch
    cases hbranch

theorem branch_returnTo (h : Chain P limit frames) (hf : frames[i]? = some f)
    (hkind : f.kind = .branch) :
    ∃ (c : Nat) (call : Frame), c < i ∧ frames[c]? = some call ∧ call.kind = .call ∧
      (∀ (j : Nat) (g : Frame), c < j → j < i → frames[j]? = some g → g.kind = .branch) ∧
      f.returnTo = call.branchReturn c := by
  cases i with
  | zero =>
    rw [(h.bottom f hf).1] at hkind
    cases hkind
  | succ i =>
    obtain ⟨parent, hparent, ⟨hcall, -⟩ | ⟨-, -, -, hreturn⟩⟩ := h.parent hf
    · rw [hkind] at hcall
      cases hcall
    · obtain ⟨c, call, hc, hcall, hcallKind, hbetween, hsame⟩ := h.nearest_call hparent
      refine ⟨c, call, Nat.lt_succ_of_le hc, hcall, hcallKind, ?_, hreturn.trans hsame⟩
      intro j g hj hlt
      exact hbetween j g hj (Nat.le_of_lt_succ hlt)

/-- A frame returns values to one below it. -/
theorem returnTo_lt (h : Chain P limit frames) {t : Nat} (hf : frames[i]? = some f)
    (ht : f.returnTo = .frame t) : t < i := by
  have hcall_lt : ∀ (c : Nat) (call : Frame), frames[c]? = some call → call.kind = .call →
      call.returnTo = .frame t → t < c := by
    intro c call hcall hkind hreturn
    cases c with
    | zero =>
      rcases (h.bottom call hcall).2 with hown | hroot
      · rw [hown] at hreturn
        cases hreturn
      · rw [hroot] at hreturn
        cases hreturn
    | succ c =>
      rw [h.call_returnTo hcall hkind] at hreturn
      cases hreturn
      exact Nat.lt_succ_self _
  cases hkind : f.kind with
  | call => exact hcall_lt i f hf hkind ht
  | branch =>
    obtain ⟨c, call, hc, hcall, hcallKind, -, hreturn⟩ := h.branch_returnTo hf hkind
    rw [ht, Frame.branchReturn_eq] at hreturn
    split at hreturn
    next =>
      cases hreturn
      exact hc
    next => exact Nat.lt_trans (hcall_lt c call hcall hcallKind hreturn.symm) hc

theorem wellFormed (h : Chain Frame.Bounded limit m.frames) : m.WellFormed limit where
  size_le := h.size_le
  pc_le i f hf := ⟨(h.all f (Array.mem_of_getElem? hf)).pc_le,
    (h.all f (Array.mem_of_getElem? hf)).stop_le⟩
  call_stop i f hf hkind := (h.all f (Array.mem_of_getElem? hf)).call_stop hkind
  bottom := h.bottom
  call_returnTo i f hf hkind := h.call_returnTo hf hkind
  branch_parent i f hf hkind := by
    obtain ⟨parent, hparent, ⟨hcall, -⟩ | ⟨-, hfunc, hcaller, -⟩⟩ := h.parent hf
    · rw [hkind] at hcall
      cases hcall
    · exact ⟨parent, hparent, hfunc, hcaller⟩
  branch_returnTo i f hf hkind := by
    obtain ⟨c, call, hc, hcall, hcallKind, hbetween, hreturn⟩ := h.branch_returnTo hf hkind
    exact ⟨c, call, hc, hcall, hcallKind, hbetween, hreturn.trans (call.branchReturn_eq c)⟩
  returnTo_lt i f t hf ht := h.returnTo_lt hf ht

end Chain

/-- What a frame stands at is no `else` and not the `end` of a conditional. -/
theorem Frame.Standing.token {p : Program} {f : Frame} (hp : p.Indexed) (h : f.Standing p)
    (hlt : f.pc < f.stop) :
    ∃ token, f.func.body[f.pc]? = some token ∧ token ≠ .keyword .else_ ∧
      (token = .keyword .end_ → (∃ whileAt, f.func.jumps[f.pc]? = some (.back whileAt)) ∧
        ∀ (offset : Nat) elseAt, f.func.jumps[offset]? ≠ some (.branch elseAt f.pc)) := by
  obtain ⟨name, hname⟩ := h.registered
  cases h.spot hlt with
  | @plain token htoken hplain =>
    refine ⟨token, htoken, ?_, ?_⟩
    · rintro rfl
      cases hplain
    · rintro rfl
      cases hplain
  | @conditional word _ _ _ htoken =>
    refine ⟨_, htoken, ?_, ?_⟩
    · cases word <;> nofun
    · cases word <;> nofun
  | while_ htoken => exact ⟨_, htoken, nofun, nofun⟩
  | do_ htoken => exact ⟨_, htoken, nofun, nofun⟩
  | again htoken hjump =>
    refine ⟨_, htoken, nofun, fun _ => ⟨⟨_, hjump⟩, ?_⟩⟩
    -- The table has no entry for the `end` of a conditional.
    intro offset elseAt hbranch
    obtain ⟨hnone, -⟩ := JumpTable.branch_partners_none (hp name f.func hname) hbranch
    rw [hjump] at hnone
    cases hnone

theorem Chain.ready {σ : Type} {m : Machine σ} {p : Program} {limit : Nat} (hp : p.Indexed)
    (h : Chain (Frame.Standing p) limit m.frames) : m.Ready where
  token f hf hlt := (h.all f (Array.mem_of_back? hf)).token hp hlt
  target f t hf ht := by
    rw [Array.back?_eq_getElem?] at hf
    obtain ⟨hlast, -⟩ := Array.getElem?_eq_some_iff.mp hf
    have hlt : t < m.frames.size := Nat.lt_trans (h.returnTo_lt hf ht) hlast
    exact ⟨_, Array.getElem?_eq_getElem hlt⟩

/-- Programs that are read from a text have the jumps of their bodies, and every
machine that a run of such a program visits is well-formed. While the run goes on,
its next step finds all that it needs. -/
theorem Program.visits_wellFormed :
    (∀ source version p, ofSource source version = .ok p → p.Indexed) ∧
    ∀ (p : Program), p.Indexed → ∀ (σ : Type) (options : RunOptions) (sink : Sink σ) (out : σ)
      (phase : Phase) (m : Machine σ) (signal : Signal),
      p.Visits options sink out phase m signal →
        m.WellFormed options.maxFrames ∧ (signal = .running → m.Ready) := by
  refine ⟨?_, ?_⟩
  · intro source version p h
    obtain ⟨items, hsplits⟩ := splits_of_ofSource h
    exact (describes_of_ofSource h hsplits).indexed
  · intro p hp σ options sink out phase m signal h
    rcases (h.kept hp).2 with hchain | ⟨⟨e, he⟩, hchain⟩
    · exact ⟨(hchain.mono fun _ hf => hf.bounded).wellFormed, fun _ => hchain.ready hp⟩
    · refine ⟨hchain.wellFormed, ?_⟩
      rintro rfl
      cases he

end Wordstack
