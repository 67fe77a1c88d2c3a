-- SUMMARY: A program that takes the same actions on the machines of another one's run has the same run.
import Wordstack.Proofs.Machine.Trace

/-!
# Runs in step

A run takes its actions on the machines that it visits and on no others. So two programs
need not be equal to have the same run: it is enough that the second takes the actions of
the first on the machines that the first visits (`Program.InStep`). Then the moments of the
two runs and their outcomes are the same, however many steps are allowed.
-/

namespace Wordstack.Program

variable {σ : Type} {p q : Program} {options : RunOptions} {sink : Sink σ} {out : σ}
  {phase : Phase} {m : Machine σ}

/-- The program `q` takes the actions of `p` on all machines that a run of `p` visits. -/
structure InStep (p q : Program) (options : RunOptions) (sink : Sink σ) (out : σ) : Prop where
  entry : q.functions.contains options.entry = p.functions.contains options.entry
  invoke : ∀ (m : Machine σ) (name : String) (returnTo : ReturnTo),
    name = globalName ∨ name = options.entry →
    m.invoke (q.context options sink) name globalName returnTo =
      m.invoke (p.context options sink) name globalName returnTo
  step : ∀ (phase : Phase) (m : Machine σ), p.Visits options sink out phase m .running →
    m.step (q.context options sink) = m.step (p.context options sink)

namespace InStep

theorem next?_eq (h : InStep p q options sink out) {moment : Moment σ}
    (hvisits : p.Visits options sink out moment.phase moment.machine moment.signal) :
    moment.next? q options sink = moment.next? p options sink := by
  obtain ⟨phase, m, s⟩ := moment
  cases s with
  | running => simp only [Moment.next?, h.step phase m hvisits]
  | failed e => rfl
  | done =>
    cases phase with
    | fresh => simp only [Moment.next?, h.invoke m globalName .own (.inl rfl)]
    | top => simp only [Moment.next?, h.entry, h.invoke m options.entry .root (.inr rfl)]
    | entry => rfl

/-- Both runs go through the same moments. -/
theorem trace_eq (h : InStep p q options sink out) (n : Nat) :
    q.trace options sink out n = p.trace options sink out n := by
  induction n with
  | zero => rfl
  | succ n ih =>
    rw [trace, trace, ih]
    cases hn : p.trace options sink out n with
    | none => rfl
    | some moment => exact h.next?_eq (visits_of_trace hn)

theorem machineRun_eq (h : InStep p q options sink out) (fuel : Nat)
    (hvisits : p.Visits options sink out phase m .running) :
    m.run (q.context options sink) fuel = m.run (p.context options sink) fuel := by
  induction fuel generalizing m with
  | zero => rfl
  | succ fuel ih =>
    simp only [Machine.run, h.step phase m hvisits]
    cases hstep : m.step (p.context options sink) with
    | mk m' s =>
      cases s with
      | running => exact ih (hvisits.step hstep)
      | done => rfl
      | failed e => rfl

theorem runFunction_eq (h : InStep p q options sink out) (fuel : Nat) {name : String}
    {returnTo : ReturnTo} (hname : name = globalName ∨ name = options.entry)
    (hvisits : ∀ called s, m.invoke (p.context options sink) name globalName returnTo =
      (called, s) → p.Visits options sink out phase called s) :
    m.runFunction (q.context options sink) fuel name returnTo =
      m.runFunction (p.context options sink) fuel name returnTo := by
  simp only [Machine.runFunction, h.invoke m name returnTo hname]
  cases hinvoke : m.invoke (p.context options sink) name globalName returnTo with
  | mk called s =>
    cases s with
    | running => exact h.machineRun_eq fuel (hvisits called .running hinvoke)
    | done => exact absurd (congrArg Prod.snd hinvoke) Machine.invoke_ne_done
    | failed e => rfl

/-- Both runs have the same outcome, with whatever number of steps. -/
theorem run_eq (h : InStep p q options sink out) (fuel : Nat) :
    q.run options sink out fuel = p.run options sink out fuel := by
  have hstart : ∀ called s, (Machine.init out).invoke (p.context options sink) globalName
      globalName .own = (called, s) → p.Visits options sink out .top called s :=
    fun _ _ hinvoke => .start .fresh hinvoke
  rw [Program.run_eq, Program.run_eq, h.runFunction_eq fuel (.inl rfl) hstart]
  cases hrun : (Machine.init out).runFunction (p.context options sink) fuel globalName .own with
  | none => rfl
  | some r =>
    obtain ⟨m, e⟩ := r
    cases e with
    | some e => rfl
    | none =>
      have htop : p.Visits options sink out .top m .done := .runFunction hstart hrun
      simp only [Option.bind_some, afterTop, h.entry]
      split
      next hentry =>
        rw [h.runFunction_eq fuel (.inr rfl) fun _ _ hinvoke => .enter htop hentry hinvoke]
      next => rfl

end InStep

end Wordstack.Program
