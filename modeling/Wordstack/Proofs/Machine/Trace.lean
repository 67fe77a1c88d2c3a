-- SUMMARY: Runs counted action by action, and which of their moments an outcome is read off.
import Wordstack.Proofs.Machine.Reach

/-!
# Traces

A run takes one action after the other: it calls `_global`, takes steps, calls the
entry function, and takes steps again. `Program.trace` gives the moment that a
number of actions leads to, so that two runs can be compared action by action. The
machines of these moments are those that the run visits.
-/

namespace Wordstack

/-- A moment of a run: how far it has come, on which machine, and with which signal
of the last action. -/
structure Moment (σ : Type) where
  phase : Phase
  machine : Machine σ
  signal : Signal

namespace Moment

variable {σ : Type}

/-- The moment after an action. -/
def after (phase : Phase) (r : Machine σ × Signal) : Moment σ :=
  { phase, machine := r.1, signal := r.2 }

/-- The moment after the next action, unless the run is over. -/
def next? (p : Program) (options : RunOptions) (sink : Sink σ) (moment : Moment σ) :
    Option (Moment σ) :=
  let ctx := p.context options sink
  match moment.signal, moment.phase with
  | .running, phase => some (after phase (moment.machine.step ctx))
  | .done, .fresh => some (after .top (moment.machine.invoke ctx globalName globalName .own))
  | .done, .top =>
    if p.functions.contains options.entry then
      some (after .entry (moment.machine.invoke ctx options.entry globalName .root))
    else none
  | _, _ => none

end Moment

namespace Program

variable {σ : Type} {p : Program} {options : RunOptions} {sink : Sink σ} {out : σ}

/-- The moment of a run after a number of actions, unless it is over before. -/
def trace (p : Program) (options : RunOptions) (sink : Sink σ) (out : σ) :
    Nat → Option (Moment σ)
  | 0 => some { phase := .fresh, machine := .init out, signal := .done }
  | n + 1 => (p.trace options sink out n).bind (Moment.next? p options sink)

theorem visits_of_trace {n : Nat} {moment : Moment σ}
    (h : p.trace options sink out n = some moment) :
    p.Visits options sink out moment.phase moment.machine moment.signal := by
  induction n generalizing moment with
  | zero =>
    cases h
    exact .fresh
  | succ n ih =>
    obtain ⟨⟨phase, m, s⟩, hprevious, hnext⟩ := Option.bind_eq_some_iff.mp h
    have hvisits := ih hprevious
    cases s with
    | running =>
      cases hnext
      exact hvisits.step rfl
    | failed e => cases hnext
    | done =>
      cases phase with
      | fresh =>
        cases hnext
        exact .start hvisits rfl
      | top =>
        simp only [Moment.next?] at hnext
        split at hnext
        next hentry =>
          cases hnext
          exact .enter hvisits hentry rfl
        next => cases hnext
      | entry => cases hnext

/-- The machines that a run visits are those of its moments. -/
theorem visits_iff_trace {phase : Phase} {m : Machine σ} {s : Signal} :
    p.Visits options sink out phase m s ↔
      ∃ n, p.trace options sink out n = some { phase, machine := m, signal := s } := by
  constructor
  · intro h
    induction h with
    | fresh => exact ⟨0, rfl⟩
    | start h hinvoke ih =>
      obtain ⟨n, hn⟩ := ih
      exact ⟨n + 1, by simp only [trace, hn, Option.bind_some, Moment.next?, hinvoke]; rfl⟩
    | enter h hentry hinvoke ih =>
      obtain ⟨n, hn⟩ := ih
      exact ⟨n + 1, by
        simp only [trace, hn, Option.bind_some, Moment.next?, hinvoke, if_pos hentry]; rfl⟩
    | step h hstep ih =>
      obtain ⟨n, hn⟩ := ih
      exact ⟨n + 1, by simp only [trace, hn, Option.bind_some, Moment.next?, hstep]; rfl⟩
  · rintro ⟨n, hn⟩
    exact visits_of_trace hn

end Program

end Wordstack
