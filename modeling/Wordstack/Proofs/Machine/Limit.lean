-- SUMMARY: A larger limit on live frames changes nothing but runs that fail for want of room.
import Wordstack.Proofs.Binding
import Wordstack.Proofs.Machine.Invariant
import Wordstack.Proofs.Machine.Trace
import Wordstack.Proofs.Operation.Contract

/-!
# The limit on live frames

Only the start of a frame looks at the limit. So two runs of a program under
different limits go through the same moments as long as there is room under the
smaller one, and part where it allows no further frame: there one run fails and the
other starts the frame.
-/

namespace Wordstack

-- -----------------------------------------------------------------------
-- Errors of moves
-- -----------------------------------------------------------------------

theorem Machine.missingBlock?_eq_some {p : Program} {names : List String} {e : Error}
    (h : missingBlock? p names = some e) : ∃ name, e = .undefinedBlock name := by
  obtain ⟨name, -, rfl⟩ := Option.map_eq_some_iff.mp h
  exact ⟨name, rfl⟩

theorem Program.block_eq_error {p : Program} {name : String} {e : Error}
    (h : p.block name = .error e) : e = .undefinedBlock name := by
  unfold block at h
  split at h
  next => cases h
  next =>
    cases h
    rfl

theorem Machine.lookup_eq_error {p : Program} {f : Frame} {name : String} {e : Error}
    (h : lookup p f name = .error e) : ∃ function, e = .undefinedBlock function := by
  simp only [lookup, bind, Except.bind] at h
  cases hown : p.block f.func.name with
  | error e' =>
    rw [hown] at h
    cases h
    exact ⟨_, Program.block_eq_error hown⟩
  | ok own =>
    simp only [hown] at h
    cases hvalue : own[name]? with
    | some value =>
      rw [hvalue] at h
      cases h
    | none =>
      simp only [hvalue] at h
      cases houter : p.block f.callerBlock with
      | error e' =>
        rw [houter] at h
        cases h
        exact ⟨_, Program.block_eq_error houter⟩
      | ok outer =>
        rw [houter] at h
        cases h

namespace Frame

variable {p : Program} {index : Nat} {f f' : Frame} {limit : Nat}

theorem moveOperator_ne_frameLimit (op : Operator) :
    f.moveOperator op ≠ .fail f' (.frameLimit limit) := by
  unfold moveOperator
  cases heffect : op.apply f.stack with
  | fail e rest =>
    obtain ⟨_, _, rfl, -⟩ | ⟨_, _, rfl, -⟩ | ⟨_, _, rfl, -⟩ | ⟨_, rfl, -⟩ :=
      Operator.apply_fail heffect
    all_goals simp
  | _ => simp

theorem moveIdent_ne_frameLimit (name : String) :
    f.moveIdent p index name ≠ .fail f' (.frameLimit limit) := by
  unfold moveIdent
  cases p.functions[name]? with
  | some d =>
    simp only [moveCall]
    cases hblocks : Machine.missingBlock? p [d.name, f.func.name] with
    | some e =>
      obtain ⟨_, rfl⟩ := Machine.missingBlock?_eq_some hblocks
      simp
    | none =>
      cases hbind : d.bind f.func.name f.stack with
      | failed e rest =>
        obtain ⟨rfl, -⟩ | ⟨_, _, _, _, rfl, -⟩ := Definition.bind_failed hbind
        all_goals simp
      | bound args rest => simp
  | none =>
    cases hlookup : Machine.lookup p f name with
    | error e =>
      obtain ⟨_, rfl⟩ := Machine.lookup_eq_error hlookup
      simp
    | ok value => cases value <;> simp

theorem moveIf_ne_frameLimit (keyword : Keyword) :
    f.moveIf index keyword ≠ .fail f' (.frameLimit limit) := by
  unfold moveIf
  split
  next elseAt endAt hjump =>
    split
    next => simp
    next condition stack hstack =>
      simp only
      split
      next => simp
      next => cases elseAt <;> simp
  next => simp

theorem moveDo_ne_frameLimit : f.moveDo ≠ .fail f' (.frameLimit limit) := by
  unfold moveDo
  split
  next => split <;> simp
  next => simp

theorem moveEnd_ne_fail {e : Error} : f.moveEnd ≠ .fail f' e := by
  unfold moveEnd
  split <;> simp

/-- What a frame does by itself does not depend on how many others there may be. -/
theorem move_ne_frameLimit (token : Token) :
    f.move p index token ≠ .fail f' (.frameLimit limit) := by
  cases token with
  | op op => exact moveOperator_ne_frameLimit op
  | ident name => exact moveIdent_ne_frameLimit name
  | keyword k =>
    cases k with
    | if_ => exact moveIf_ne_frameLimit .if_
    | iff => exact moveIf_ne_frameLimit .iff
    | do_ => exact moveDo_ne_frameLimit
    | end_ => exact moveEnd_ne_fail
    | _ => simp [move]
  | _ => simp [move]

end Frame

-- -----------------------------------------------------------------------
-- Actions under different limits
-- -----------------------------------------------------------------------

section Limits

variable {σ : Type}

/-- An action that leads to a moment under a limit does so under all larger ones. -/
def Moment.Lasts (act : Nat → Option (Moment σ)) (limit : Nat) (moment : Moment σ) : Prop :=
  (∀ l, moment.signal ≠ .failed (.frameLimit l)) ∧
    ∀ wider, limit ≤ wider → act wider = some moment

/-- An action fails for want of room: as many frames are live as the limit allows, and
under a limit that allows for another one the action starts it. -/
structure Moment.HitsLimit (act : Nat → Option (Moment σ)) (limit : Nat) (moment : Moment σ) :
    Prop where
  signal : moment.signal = .failed (.frameLimit limit)
  full : limit ≤ moment.machine.frames.size
  starts : ∃ g, ∀ wider, moment.machine.frames.size < wider → act wider =
    some { moment with machine := moment.machine.withTop g, signal := .running }

/-- A limit matters to an action only if the action fails for want of room. -/
def Widens (act : Nat → Option (Moment σ)) : Prop :=
  ∀ limit moment, act limit = some moment →
    moment.Lasts act limit ∨ moment.HitsLimit act limit

namespace Widens

theorem const (phase : Phase) (m : Machine σ) {s : Signal}
    (h : ∀ l, s ≠ .failed (.frameLimit l)) : Widens fun _ => some (.after phase (m, s)) := by
  rintro limit moment ⟨⟩
  exact .inl ⟨h, fun _ _ => rfl⟩

theorem push (phase : Phase) (m : Machine σ) (f : Frame) :
    Widens fun limit => some (.after phase (m.push limit f)) := by
  intro limit moment h
  simp only [Machine.push_eq] at h ⊢
  split at h
  next hlt =>
    cases h
    refine .inl ⟨by simp [Moment.after], ?_⟩
    intro wider hle
    simp only [if_pos (Nat.lt_of_lt_of_le hlt hle)]
  next hfull =>
    cases h
    refine .inr ⟨rfl, Nat.le_of_not_lt hfull, f, ?_⟩
    intro wider hroom
    simp only [Moment.after] at hroom ⊢
    rw [if_pos hroom]

theorem perform (phase : Phase) (ctx : Context σ) (base : Machine σ) (f : Frame) (token : Token) :
    Widens fun limit => some (.after phase (base.perform { ctx with maxFrames := limit }
      (f.move ctx.program base.frames.size token))) := by
  cases hmove : f.move ctx.program base.frames.size token with
  | go f' => exact const phase (base.withTop f') (s := .running) (by simp)
  | start f' g => exact push phase (base.withTop f') g
  | ret f' value =>
    exact const phase ((base.withTop f').deliver base.frames.size value) (s := .running) (by simp)
  | print f' line =>
    simp only [Machine.perform]
    split <;> exact const phase _ (by simp)
  | fail f' e =>
    refine const phase (base.withTop f') (s := .failed e) ?_
    rintro l ⟨⟩
    exact Frame.move_ne_frameLimit token hmove

theorem step (phase : Phase) (ctx : Context σ) (m : Machine σ) :
    Widens fun limit => some (.after phase (m.step { ctx with maxFrames := limit })) := by
  rcases m.frames_empty_or_withTop with hempty | ⟨base, f, rfl⟩
  · have hdone : ∀ ctx : Context σ, m.step ctx = (m, .done) := by
      intro ctx
      simp only [Machine.step, hempty]
      rfl
    simp only [hdone]
    exact const phase m (by simp)
  · simp only [Machine.step_withTop]
    cases f.next? with
    | none => exact const phase _ (by simp)
    | some token => exact perform phase ctx base f token

theorem invoke (phase : Phase) (ctx : Context σ) (m : Machine σ) (name callerBlock : String)
    (returnTo : ReturnTo) :
    Widens fun limit => some (.after phase
      (m.invoke { ctx with maxFrames := limit } name callerBlock returnTo)) := by
  simp only [Machine.invoke]
  cases ctx.program.functions[name]? with
  | none => exact const phase m (by simp)
  | some d =>
    simp only
    cases hblocks : Machine.missingBlock? ctx.program [d.name, callerBlock] with
    | some e =>
      obtain ⟨_, rfl⟩ := Machine.missingBlock?_eq_some hblocks
      exact const phase m (by simp)
    | none =>
      simp only
      cases hbind : d.bind callerBlock m.root with
      | failed e rest =>
        obtain ⟨rfl, -⟩ | ⟨_, _, _, _, rfl, -⟩ := Definition.bind_failed hbind
        all_goals exact const phase { m with root := rest } (by simp)
      | bound args rest => exact push phase _ _

/-- An action that does not fail for want of room does the same under larger limits. -/
theorem same {phase : Phase} {act : Nat → Machine σ × Signal}
    (h : Widens fun limit => some (.after phase (act limit))) {limit wider : Nat}
    (hle : limit ≤ wider) (hs : ∀ l, (act limit).2 ≠ .failed (.frameLimit l)) :
    act wider = act limit := by
  rcases h limit _ rfl with ⟨-, hlasts⟩ | hhits
  · have hwider := hlasts wider hle
    simp only [Moment.after, Option.some.injEq, Moment.mk.injEq, true_and] at hwider
    exact Prod.ext hwider.1 hwider.2
  · exact absurd hhits.signal (hs limit)

theorem next? (p : Program) (options : RunOptions) (sink : Sink σ) (moment : Moment σ) :
    Widens fun limit => moment.next? p { options with maxFrames := limit } sink := by
  obtain ⟨phase, m, s⟩ := moment
  have hover : Widens fun _ => (none : Option (Moment σ)) := by
    rintro limit moment ⟨⟩
  cases s with
  | running => exact step phase (p.context options sink) m
  | failed e => exact hover
  | done =>
    cases phase with
    | fresh => exact invoke .top (p.context options sink) m globalName globalName .own
    | top =>
      simp only [Moment.next?]
      split
      next => exact invoke .entry (p.context options sink) m options.entry globalName .root
      next => exact hover
    | entry => exact hover

/-- Runs under different limits go through the same moments as long as none of them
fails for want of room. -/
theorem trace (p : Program) (options : RunOptions) (sink : Sink σ) (out : σ) (n : Nat) :
    Widens fun limit => p.trace { options with maxFrames := limit } sink out n := by
  induction n with
  | zero => exact const .fresh (.init out) (s := .done) (by simp)
  | succ n ih =>
    intro limit moment h
    obtain ⟨previous, hprevious, hnext⟩ := Option.bind_eq_some_iff.mp h
    have hsame : ∀ wider, limit ≤ wider →
        p.trace { options with maxFrames := wider } sink out (n + 1)
          = previous.next? p { options with maxFrames := wider } sink := by
      intro wider hle
      rcases ih limit previous hprevious with ⟨-, hlasts⟩ | hhits
      · have hwider : p.trace { options with maxFrames := wider } sink out n = some previous :=
          hlasts wider hle
        rw [Program.trace, hwider, Option.bind_some]
      · simp only [Moment.next?, hhits.signal] at hnext
        cases hnext
    rcases next? p options sink previous limit moment hnext with ⟨hsignal, hlasts⟩ | hhits
    · refine .inl ⟨hsignal, ?_⟩
      intro wider hle
      exact (hsame wider hle).trans (hlasts wider hle)
    · obtain ⟨g, hstarts⟩ := hhits.starts
      refine .inr ⟨hhits.signal, hhits.full, g, ?_⟩
      intro wider hroom
      have hle : limit ≤ wider := Nat.le_of_lt (Nat.lt_of_le_of_lt hhits.full hroom)
      exact (hsame wider hle).trans (hstarts wider hroom)

end Widens

end Limits

-- -----------------------------------------------------------------------
-- Runs under different limits
-- -----------------------------------------------------------------------

namespace Machine

variable {σ : Type} {ctx : Context σ} {m m' : Machine σ} {e : Option Error} {fuel wider : Nat}

theorem run_widen (hle : ctx.maxFrames ≤ wider) (hrun : m.run ctx fuel = some (m', e))
    (he : ∀ l, e ≠ some (.frameLimit l)) :
    m.run { ctx with maxFrames := wider } fuel = some (m', e) := by
  induction fuel generalizing m with
  | zero => cases hrun
  | succ fuel ih =>
    have hsame := (Widens.step .top ctx m).same hle
    simp only [run] at hrun ⊢
    cases hstep : m.step ctx with
    | mk between s =>
      rw [hstep] at hrun hsame
      cases s with
      | running =>
        rw [hsame (by simp)]
        exact ih hrun
      | done =>
        rw [hsame (by simp)]
        exact hrun
      | failed error =>
        cases hrun
        rw [hsame (by simpa using he)]

theorem runFunction_widen {name : String} {returnTo : ReturnTo} (hle : ctx.maxFrames ≤ wider)
    (hrun : m.runFunction ctx fuel name returnTo = some (m', e))
    (he : ∀ l, e ≠ some (.frameLimit l)) :
    m.runFunction { ctx with maxFrames := wider } fuel name returnTo = some (m', e) := by
  have hsame := (Widens.invoke .top ctx m name globalName returnTo).same hle
  simp only [runFunction] at hrun ⊢
  cases hinvoke : m.invoke ctx name globalName returnTo with
  | mk called s =>
    rw [hinvoke] at hrun hsame
    cases s with
    | failed error =>
      cases hrun
      rw [hsame (by simpa using he)]
    | _ =>
      rw [hsame (by simp)]
      exact run_widen hle hrun he

end Machine

namespace Program

variable {σ : Type} {p : Program} {options : RunOptions} {sink : Sink σ} {out : σ}
  {fuel wider : Nat} {outcome : Outcome σ}

theorem run_widen (hle : options.maxFrames ≤ wider)
    (hrun : p.run options sink out fuel = some outcome)
    (hresult : ∀ l, outcome.result ≠ .error (.frameLimit l)) :
    p.run { options with maxFrames := wider } sink out fuel = some outcome := by
  rw [run_eq] at hrun ⊢
  obtain ⟨⟨m, e⟩, hfirst, hafter⟩ := Option.bind_eq_some_iff.mp hrun
  refine Option.bind_eq_some_iff.mpr ⟨(m, e), ?_, ?_⟩
  · refine Machine.runFunction_widen hle hfirst ?_
    rintro l rfl
    cases hafter
    exact hresult l rfl
  · cases e with
    | some e => exact hafter
    | none =>
      simp only [afterTop] at hafter ⊢
      split at hafter
      next hentry =>
        obtain ⟨⟨m', e⟩, hsecond, rfl⟩ := Option.map_eq_some_iff.mp hafter
        rw [if_pos hentry]
        refine Option.map_eq_some_iff.mpr ⟨(m', e), ?_, rfl⟩
        refine Machine.runFunction_widen hle hsecond ?_
        rintro l rfl
        exact hresult l rfl
      next hentry =>
        rw [if_neg hentry]
        exact hafter

/-- After `n` actions of the run more than `limit` frames are live, for the first
time. -/
structure Exceeds (p : Program) (options : RunOptions) (sink : Sink σ) (out : σ)
    (limit n : Nat) : Prop where
  now : ∃ moment, p.trace options sink out n = some moment ∧
    moment.machine.frames.size = limit + 1
  before (j : Nat) (moment : Moment σ) : j < n → p.trace options sink out j = some moment →
    moment.machine.frames.size ≤ limit

theorem size_le_of_trace (hp : p.Indexed) {n : Nat} {moment : Moment σ}
    (h : p.trace options sink out n = some moment) :
    moment.machine.frames.size ≤ options.maxFrames := by
  rcases ((visits_of_trace h).kept hp).2 with hchain | ⟨-, hchain⟩
  · exact hchain.size_le
  · exact hchain.size_le

/-- Every moment before the last one has a next. -/
theorem trace_of_lt {n j : Nat} {moment : Moment σ}
    (h : p.trace options sink out n = some moment) (hlt : j < n) :
    ∃ before after, p.trace options sink out j = some before ∧
      before.next? p options sink = some after := by
  induction n generalizing moment with
  | zero => exact absurd hlt (Nat.not_lt_zero j)
  | succ n ih =>
    obtain ⟨previous, hprevious, hnext⟩ := Option.bind_eq_some_iff.mp h
    rcases Nat.lt_succ_iff_lt_or_eq.mp hlt with hlt | rfl
    · exact ih hprevious hlt
    · exact ⟨previous, moment, hprevious, hnext⟩

theorem isSome_next? (p : Program) (options : RunOptions) (sink : Sink σ) (wider : Nat)
    (moment : Moment σ) : (moment.next? p { options with maxFrames := wider } sink).isSome
      = (moment.next? p options sink).isSome := by
  obtain ⟨phase, m, s⟩ := moment
  cases s with
  | done =>
    cases phase with
    | top =>
      simp only [Moment.next?]
      split <;> rfl
    | _ => rfl
  | _ => rfl

theorem exceeds_of_hits (hp : p.Indexed) (hwider : options.maxFrames < wider) {n : Nat}
    {moment : Moment σ} (h : p.trace options sink out n = some moment)
    (hhits : moment.HitsLimit
      (fun limit => p.trace { options with maxFrames := limit } sink out n) options.maxFrames) :
    p.Exceeds { options with maxFrames := wider } sink out options.maxFrames n := by
  have hsize : moment.machine.frames.size = options.maxFrames :=
    Nat.le_antisymm (size_le_of_trace hp h) hhits.full
  obtain ⟨g, hstarts⟩ := hhits.starts
  refine ⟨⟨_, hstarts wider (hsize ▸ hwider), ?_⟩, ?_⟩
  · rw [Machine.size_withTop, hsize]
  · intro j at_j hlt hj
    obtain ⟨before, after, hbefore, hnext⟩ := trace_of_lt h hlt
    rcases Widens.trace p options sink out j options.maxFrames before hbefore with
      ⟨-, hlasts⟩ | hhits
    · obtain rfl : before = at_j :=
        Option.some.inj ((hlasts wider (Nat.le_of_lt hwider)).symm.trans hj)
      exact size_le_of_trace hp hbefore
    · simp only [Moment.next?, hhits.signal] at hnext
      cases hnext

/-- As long as a run under a larger limit stays within the smaller one, the other run
goes through the same moments. Where it leaves it, the other fails. -/
theorem trace_narrow (hp : p.Indexed) (hwider : options.maxFrames < wider) {n : Nat}
    {moment : Moment σ}
    (h : p.trace { options with maxFrames := wider } sink out n = some moment)
    (hbefore : ∀ j moment, j < n →
      p.trace { options with maxFrames := wider } sink out j = some moment →
      moment.machine.frames.size ≤ options.maxFrames) :
    p.trace options sink out n = some moment ∨
      ∃ moment', p.trace options sink out n = some moment' ∧ moment'.HitsLimit
        (fun limit => p.trace { options with maxFrames := limit } sink out n)
        options.maxFrames := by
  induction n generalizing moment with
  | zero => exact .inl h
  | succ n ih =>
    obtain ⟨previous, hprevious, hnext⟩ := Option.bind_eq_some_iff.mp h
    rcases ih hprevious (fun j moment hj => hbefore j moment (Nat.lt_succ_of_lt hj)) with
      hsame | ⟨moment', hmoment', hhits⟩
    · obtain ⟨after, hafter⟩ : ∃ after, previous.next? p options sink = some after := by
        rw [← Option.isSome_iff_exists, ← isSome_next? p options sink wider, hnext]
        rfl
      have htrace : p.trace options sink out (n + 1) = some after := by
        rw [trace, hsame, Option.bind_some, hafter]
      rcases Widens.trace p options sink out (n + 1) options.maxFrames after htrace with
        ⟨-, hlasts⟩ | hhits
      · rw [htrace, ← hlasts wider (Nat.le_of_lt hwider)]
        exact .inl h
      · exact .inr ⟨after, htrace, hhits⟩
    · -- The run under the smaller limit failed one action earlier, where the other one
      -- had too many frames.
      obtain ⟨m, hm, hsize⟩ := (exceeds_of_hits hp hwider hmoment' hhits).now
      have hle := hbefore n m (Nat.lt_succ_self n) hm
      rw [hsize] at hle
      exact absurd hle (Nat.not_succ_le_self _)

/-- A run fails for want of room exactly where a run under a larger limit has too many
frames for the first time. -/
theorem exceeds_iff (hp : p.Indexed) (hwider : options.maxFrames < wider) (n : Nat) :
    (∃ moment l, p.trace options sink out n = some moment ∧
      moment.signal = .failed (.frameLimit l)) ↔
      p.Exceeds { options with maxFrames := wider } sink out options.maxFrames n := by
  constructor
  · rintro ⟨moment, l, htrace, hsignal⟩
    rcases Widens.trace p options sink out n options.maxFrames moment htrace with
      ⟨hne, -⟩ | hhits
    · exact absurd hsignal (hne l)
    · exact exceeds_of_hits hp hwider htrace hhits
  · intro hexceeds
    obtain ⟨moment, htrace, hsize⟩ := hexceeds.now
    rcases trace_narrow hp hwider htrace hexceeds.before with hsame | ⟨moment', htrace', hhits⟩
    · have hle := size_le_of_trace hp hsame
      rw [hsize] at hle
      exact absurd hle (Nat.not_succ_le_self _)
    · exact ⟨moment', _, htrace', hhits.signal⟩

theorem result_complete_ne_frameLimit {m : Machine σ} {l : Nat} :
    (complete sink m).result ≠ .error (.frameLimit l) := by
  unfold complete
  split <;> simp

/-- A run with that outcome has come to a moment at which it failed for want of room. -/
theorem trace_of_frameLimit (hrun : p.run options sink out fuel = some outcome) {l : Nat}
    (hresult : outcome.result = .error (.frameLimit l)) :
    ∃ n phase m, p.trace options sink out n
        = some { phase, machine := m, signal := .failed (.frameLimit l) } ∧
      m.out = outcome.out := by
  rcases run_cases hrun with
    ⟨phase, m, e, hvisits, rfl⟩ | ⟨m, -, -, -, rfl⟩ | ⟨phase, m, -, -, rfl⟩
  · cases hresult
    obtain ⟨n, htrace⟩ := visits_iff_trace.mp hvisits
    exact ⟨n, phase, m, htrace, rfl⟩
  · cases hresult
  · exact absurd hresult result_complete_ne_frameLimit

/-- Under a larger limit a run comes to the same outcome, unless it failed for want of
room. It does that exactly where the other run has one frame too many for the first
time, and until then both have printed the same. -/
theorem run_under_larger_limit {source version : String} {p : Program}
    (h : ofSource source version = .ok p) {options : RunOptions} {sink : Sink σ} {out : σ}
    {fuel : Nat} {outcome : Outcome σ} (larger : Nat) (hle : options.maxFrames ≤ larger)
    (hrun : p.run options sink out fuel = some outcome) :
    ((∀ l, outcome.result ≠ .error (.frameLimit l)) →
      p.run { options with maxFrames := larger } sink out fuel = some outcome) ∧
    (∀ l, outcome.result = .error (.frameLimit l) → l = options.maxFrames ∧
      ∃ n phase m, p.trace options sink out n
          = some { phase, machine := m, signal := .failed (.frameLimit l) } ∧
        m.out = outcome.out ∧ m.frames.size = options.maxFrames ∧
        ∃ moment, p.trace { options with maxFrames := larger } sink out n = some moment ∧
          moment.machine.out = outcome.out) ∧
    ∀ wider n, options.maxFrames < wider →
      ((∃ moment l, p.trace options sink out n = some moment ∧
        moment.signal = .failed (.frameLimit l)) ↔
        p.Exceeds { options with maxFrames := wider } sink out options.maxFrames n) := by
  have hp := indexed_of_ofSource h
  refine ⟨run_widen hle hrun, ?_, fun wider n hwider => exceeds_iff hp hwider n⟩
  intro l hresult
  obtain ⟨n, phase, m, htrace, hout⟩ := trace_of_frameLimit hrun hresult
  rcases Widens.trace p options sink out n options.maxFrames _ htrace with ⟨hne, -⟩ | hhits
  · exact absurd rfl (hne l)
  · cases hhits.signal
    have hsize : m.frames.size = options.maxFrames :=
      Nat.le_antisymm (size_le_of_trace hp htrace) hhits.full
    refine ⟨rfl, n, phase, m, htrace, hout, hsize, ?_⟩
    rcases Nat.eq_or_lt_of_le hle with rfl | hlt
    · exact ⟨_, htrace, hout⟩
    · obtain ⟨g, hstarts⟩ := hhits.starts
      exact ⟨_, hstarts larger (hsize ▸ hlt), hout⟩

/-- A function that calls itself without end has printed as much when it fails as it
has by then under a larger limit. -/
theorem larger_limit_of_endless_calls :
    ∃ p, ofSource "fun f as 'x' print f end f" defaultVersion = .ok p ∧
      ∃ n moment, p.trace { maxFrames := 5 } .memory "" n = some moment ∧
        moment.machine.out = "x\nx\n" := by
  have hrun : runSource "fun f as 'x' print f end f" { maxFrames := 3 } .memory "" 10
      = some { out := "x\nx\n", result := .error (.frameLimit 3) } := by
    decide +kernel
  unfold runSource at hrun
  split at hrun
  next => simp at hrun
  next p hp =>
    obtain ⟨-, hlimit, -⟩ := run_under_larger_limit hp 5 (by decide) hrun
    obtain ⟨-, n, phase, m, -, -, -, hmoment⟩ := hlimit 3 rfl
    exact ⟨p, hp, n, hmoment⟩

end Program

end Wordstack
