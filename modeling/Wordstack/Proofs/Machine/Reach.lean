-- SUMMARY: The machines that a run goes through, and how a run comes to its outcome through them.
import Mathlib.Control.Monad.Basic
import Wordstack.Machine.Run
import Wordstack.Proofs.Machine.Move

/-!
# Visited machines

A run calls `_global`, takes steps until no frame is left, and does the same with
the entry function. `Program.Visits` holds of every machine on the way, together
with the signal of the action that led to it, and of a machine that an action
failed on as well.
-/

namespace Wordstack

/-- How far a run has come. -/
inductive Phase where
  /-- Nothing has been called. -/
  | fresh
  /-- `_global` has been called. -/
  | top
  /-- The entry function has been called. -/
  | entry
deriving DecidableEq, Repr

deriving instance DecidableEq for Outcome

/-- The last signal of a run, by the error that it ended with. -/
def Signal.last : Option Error → Signal
  | none => .done
  | some e => .failed e

namespace Program

variable {σ : Type}

/-- What stays the same throughout a run of the program. -/
def context (p : Program) (options : RunOptions) (sink : Sink σ) : Context σ :=
  { program := p, maxFrames := options.maxFrames, sink }

/-- The machines that a run of the program goes through. -/
inductive Visits (p : Program) (options : RunOptions) (sink : Sink σ) (out : σ) :
    Phase → Machine σ → Signal → Prop where
  | fresh : Visits p options sink out .fresh (.init out) .done
  | start {m m' : Machine σ} {s : Signal} (h : Visits p options sink out .fresh m .done)
      (hinvoke : m.invoke (p.context options sink) globalName globalName .own = (m', s)) :
      Visits p options sink out .top m' s
  | enter {m m' : Machine σ} {s : Signal} (h : Visits p options sink out .top m .done)
      (hentry : p.functions.contains options.entry = true)
      (hinvoke : m.invoke (p.context options sink) options.entry globalName .root = (m', s)) :
      Visits p options sink out .entry m' s
  | step {phase : Phase} {m m' : Machine σ} {s : Signal}
      (h : Visits p options sink out phase m .running)
      (hstep : m.step (p.context options sink) = (m', s)) :
      Visits p options sink out phase m' s

end Program

namespace Machine

variable {σ : Type}

theorem push_eq (m : Machine σ) (limit : Nat) (f : Frame) :
    m.push limit f = if m.frames.size < limit then (m.withTop f, .running)
      else (m, .failed (.frameLimit limit)) := rfl

theorem push_ne_done {m : Machine σ} {limit : Nat} {f : Frame} : (m.push limit f).2 ≠ .done := by
  rw [push_eq]
  split <;> simp

/-- A call at top level fails without starting anything, or it starts a frame on the
arguments that it takes off the root stack. -/
theorem invoke_cases {ctx : Context σ} {m m' : Machine σ} {name callerBlock : String}
    {returnTo : ReturnTo} {s : Signal} (h : m.invoke ctx name callerBlock returnTo = (m', s)) :
    (∃ e, s = .failed e ∧ m'.frames = m.frames ∧ m'.out = m.out) ∨
      ∃ d args rest, ctx.program.functions[name]? = some d ∧
        d.bind callerBlock m.root = .bound args rest ∧ m.frames.size < ctx.maxFrames ∧
        s = .running ∧
        m' = withTop { m with root := rest } (callFrame d args returnTo callerBlock) := by
  unfold invoke at h
  split at h
  next =>
    cases h
    exact .inl ⟨_, rfl, rfl, rfl⟩
  next d hd =>
    split at h
    next =>
      cases h
      exact .inl ⟨_, rfl, rfl, rfl⟩
    next =>
      split at h
      next =>
        cases h
        exact .inl ⟨_, rfl, rfl, rfl⟩
      next args rest hbind =>
        rw [push_eq] at h
        split at h
        next hlimit =>
          cases h
          exact .inr ⟨d, args, rest, hd, hbind, hlimit, rfl, rfl⟩
        next =>
          cases h
          exact .inl ⟨_, rfl, rfl, rfl⟩

theorem invoke_ne_done {ctx : Context σ} {m : Machine σ} {name callerBlock : String}
    {returnTo : ReturnTo} : (m.invoke ctx name callerBlock returnTo).2 ≠ .done := by
  cases hinvoke : m.invoke ctx name callerBlock returnTo with
  | mk m' s =>
    rcases invoke_cases hinvoke with ⟨e, rfl, -⟩ | ⟨d, args, rest, -, -, -, rfl, -⟩
    · simp
    · simp

theorem perform_ne_done {ctx : Context σ} {base : Machine σ} {move : Move} :
    (base.perform ctx move).2 ≠ .done := by
  cases move with
  | start f g => exact push_ne_done
  | print f line =>
    simp only [perform]
    split <;> simp
  | _ => simp [perform]

/-- A step says that nothing is left to run only if that is so. -/
theorem step_eq_done {ctx : Context σ} {m m' : Machine σ} (h : m.step ctx = (m', .done)) :
    m.frames = #[] ∧ m' = m := by
  rcases m.frames_empty_or_withTop with hempty | ⟨base, f, rfl⟩
  · simp only [step, hempty] at h
    cases h
    exact ⟨hempty, rfl⟩
  · rw [step_withTop] at h
    cases hnext : f.next? with
    | none =>
      rw [hnext] at h
      cases h
    | some token =>
      rw [hnext] at h
      exact absurd (congrArg Prod.snd h) perform_ne_done

end Machine

-- -----------------------------------------------------------------------
-- The number of steps
-- -----------------------------------------------------------------------

namespace Machine

variable {σ : Type} {ctx : Context σ} {m m' : Machine σ} {fuel fuel' : Nat} {name : String}
  {returnTo : ReturnTo} {r : Machine σ × Option Error}

/-- More steps than a run needs do not change it. -/
theorem run_mono (h : m.run ctx fuel = some r) (hle : fuel ≤ fuel') :
    m.run ctx fuel' = some r := by
  induction fuel generalizing m fuel' with
  | zero => cases h
  | succ fuel ih =>
    obtain ⟨fuel', rfl⟩ := Nat.exists_eq_add_of_lt hle
    simp only [run] at h ⊢
    split at h
    next => exact ih h (Nat.le_add_right _ _)
    next => exact h
    next => exact h

theorem runFunction_mono (h : m.runFunction ctx fuel name returnTo = some r)
    (hle : fuel ≤ fuel') : m.runFunction ctx fuel' name returnTo = some r := by
  unfold runFunction at h ⊢
  split at h
  next => exact h
  next => exact run_mono h hle

/-- A run that does not fail ends with no frames left. -/
theorem frames_of_run (h : m.run ctx fuel = some (m', none)) : m'.frames = #[] := by
  induction fuel generalizing m with
  | zero => cases h
  | succ fuel ih =>
    simp only [run] at h
    split at h
    next => exact ih h
    next between hstep =>
      cases h
      obtain ⟨hempty, rfl⟩ := step_eq_done hstep
      exact hempty
    next => cases h

theorem frames_of_runFunction (h : m.runFunction ctx fuel name returnTo = some (m', none)) :
    m'.frames = #[] := by
  unfold runFunction at h
  split at h
  next => cases h
  next => exact frames_of_run h

end Machine

-- -----------------------------------------------------------------------
-- Runs go through visited machines
-- -----------------------------------------------------------------------

namespace Program

variable {σ : Type} {p : Program} {options : RunOptions} {sink : Sink σ} {out : σ}
  {phase : Phase} {m m' : Machine σ} {e : Option Error} {fuel : Nat}

theorem Visits.frames_of_done (h : Visits p options sink out phase m .done) : m.frames = #[] := by
  cases h with
  | fresh => rfl
  | start h hinvoke => exact absurd (congrArg Prod.snd hinvoke) Machine.invoke_ne_done
  | enter h hentry hinvoke => exact absurd (congrArg Prod.snd hinvoke) Machine.invoke_ne_done
  | step h hstep =>
    obtain ⟨hempty, rfl⟩ := Machine.step_eq_done hstep
    exact hempty

theorem Visits.run (h : Visits p options sink out phase m .running)
    (hrun : m.run (p.context options sink) fuel = some (m', e)) :
    Visits p options sink out phase m' (.last e) := by
  induction fuel generalizing m with
  | zero => cases hrun
  | succ fuel ih =>
    simp only [Machine.run] at hrun
    split at hrun
    next between hstep => exact ih (h.step hstep) hrun
    next between hstep =>
      cases hrun
      exact h.step hstep
    next between error hstep =>
      cases hrun
      exact h.step hstep

theorem Visits.runFunction {name : String} {returnTo : ReturnTo}
    (hvisits : ∀ called s, m.invoke (p.context options sink) name globalName returnTo =
      (called, s) → Visits p options sink out phase called s)
    (hrun : m.runFunction (p.context options sink) fuel name returnTo = some (m', e)) :
    Visits p options sink out phase m' (.last e) := by
  unfold Machine.runFunction at hrun
  cases hinvoke : m.invoke (p.context options sink) name globalName returnTo with
  | mk called s =>
    rw [hinvoke] at hrun
    cases s with
    | running => exact (hvisits called .running hinvoke).run hrun
    | done => exact absurd (congrArg Prod.snd hinvoke) Machine.invoke_ne_done
    | failed error =>
      cases hrun
      exact hvisits _ (.failed error) hinvoke

/-- The outcome that a run ends with. -/
def conclude (sink : Sink σ) : Machine σ × Option Error → Outcome σ
  | (m, some e) => { out := m.out, result := .error e }
  | (m, none) => complete sink m

/-- What a run does after the top-level words. -/
def afterTop (p : Program) (options : RunOptions) (sink : Sink σ) (fuel : Nat) :
    Machine σ × Option Error → Option (Outcome σ)
  | (m, some e) => some { out := m.out, result := .error e }
  | (m, none) =>
    if p.functions.contains options.entry then
      (m.runFunction (p.context options sink) fuel options.entry .root).map (conclude sink)
    else if options.requireEntry then
      some { out := m.out, result := .error (.entryNotFound options.entry) }
    else some (complete sink m)

theorem run_eq (p : Program) (options : RunOptions) (sink : Sink σ) (out : σ) (fuel : Nat) :
    p.run options sink out fuel =
      ((Machine.init out).runFunction (p.context options sink) fuel globalName .own).bind
        (p.afterTop options sink fuel) := by
  simp only [run, context]
  cases (Machine.init out).runFunction _ fuel globalName .own with
  | none => rfl
  | some first =>
    obtain ⟨m, e⟩ := first
    cases e with
    | some e => rfl
    | none =>
      simp only [Option.bind_some, afterTop, context]
      split
      next =>
        cases m.runFunction _ fuel options.entry .root with
        | none => rfl
        | some second =>
          obtain ⟨m', e⟩ := second
          cases e <;> rfl
      next => rfl

theorem afterTop_mono {fuel' : Nat} {r : Machine σ × Option Error} {outcome : Outcome σ}
    (h : p.afterTop options sink fuel r = some outcome) (hle : fuel ≤ fuel') :
    p.afterTop options sink fuel' r = some outcome := by
  obtain ⟨m, e⟩ := r
  cases e with
  | some e => exact h
  | none =>
    simp only [afterTop] at h ⊢
    by_cases hentry : p.functions.contains options.entry = true
    · rw [if_pos hentry] at h ⊢
      obtain ⟨r, hrun, rfl⟩ := Option.map_eq_some_iff.mp h
      exact Option.map_eq_some_iff.mpr ⟨r, Machine.runFunction_mono hrun hle, rfl⟩
    · rw [if_neg hentry] at h ⊢
      exact h

/-- More steps than a run needs do not change its outcome. -/
theorem run_of_le {fuel' : Nat} {outcome : Outcome σ}
    (h : p.run options sink out fuel = some outcome) (hle : fuel ≤ fuel') :
    p.run options sink out fuel' = some outcome := by
  rw [run_eq] at h ⊢
  obtain ⟨r, hrun, h⟩ := Option.bind_eq_some_iff.mp h
  rw [Machine.runFunction_mono hrun hle]
  exact afterTop_mono h hle

/-- The outcome of a run is read off the last machine that it visits: an action on it
failed, the entry function is missing, or no frames are left. -/
theorem run_cases {outcome : Outcome σ} (h : p.run options sink out fuel = some outcome) :
    (∃ phase m e, Visits p options sink out phase m (.failed e) ∧
      outcome = { out := m.out, result := .error e }) ∨
    (∃ m, Visits p options sink out .top m .done ∧
      p.functions.contains options.entry = false ∧ options.requireEntry = true ∧
      outcome = { out := m.out, result := .error (.entryNotFound options.entry) }) ∨
    ∃ phase m, Visits p options sink out phase m .done ∧
      (phase = .entry ∨ p.functions.contains options.entry = false ∧
        options.requireEntry = false) ∧
      outcome = complete sink m := by
  rw [run_eq] at h
  obtain ⟨⟨m, e⟩, hrun, h⟩ := Option.bind_eq_some_iff.mp h
  have htop : Visits p options sink out .top m (.last e) :=
    .runFunction (fun _ _ hinvoke => .start .fresh hinvoke) hrun
  cases e with
  | some e =>
    cases h
    exact .inl ⟨_, m, e, htop, rfl⟩
  | none =>
    simp only [afterTop] at h
    split at h
    next hentry =>
      obtain ⟨⟨m', e⟩, hrun', rfl⟩ := Option.map_eq_some_iff.mp h
      have hm' : Visits p options sink out .entry m' (.last e) :=
        .runFunction (fun _ _ hinvoke => .enter htop hentry hinvoke) hrun'
      cases e with
      | some e => exact .inl ⟨_, m', e, hm', rfl⟩
      | none => exact .inr (.inr ⟨_, m', hm', .inl rfl, rfl⟩)
    next hentry =>
      rw [Bool.not_eq_true] at hentry
      split at h
      next hrequire =>
        cases h
        exact .inr (.inl ⟨m, htop, hentry, hrequire, rfl⟩)
      next hrequire =>
        cases h
        rw [Bool.not_eq_true] at hrequire
        exact .inr (.inr ⟨_, m, htop, .inr ⟨hentry, hrequire⟩, rfl⟩)

end Program

end Wordstack
