-- SUMMARY: What can lie on the stacks of a run: values alone, and numbers of declared kinds.
import Wordstack.Proofs.Binding
import Wordstack.Proofs.Machine.Isolation
import Wordstack.Proofs.Operation

/-!
# Values on stacks

A machine pushes every token that it has no other use for, so that its stacks hold
values alone rests on what stands in bodies and blocks. `Program.Supplies` says of a
property that whatever the program puts on a stack has it. Then everything on the
stacks of a run has it (`Program.Visits.holds`): operators make numbers of the kinds
that they find, and strings and truth values of any.
-/

namespace Wordstack

/-- The tokens that can lie on a stack. -/
def Token.isValue : Token → Bool
  | .num .. | .str _ | .bool _ | .type _ | .keyword .as_ => true
  | _ => false

/-- The tokens of a body that go on the stack when they run. -/
def Token.isPushed : Token → Bool
  | .op _ | .ident _ => false
  | .keyword k => k == .fun_ || k == .as_
  | _ => true

/-- A property that all strings and truth values have, and of numbers all those of the
same kind. -/
structure Token.Stable (P : Token → Prop) : Prop where
  num : ∀ kind x y, P (.num kind x) → P (.num kind y)
  str : ∀ s, P (.str s)
  bool : ∀ b, P (.bool b)

-- -----------------------------------------------------------------------
-- Operators and bindings
-- -----------------------------------------------------------------------

/-- All values that the effect leaves or returns have a property. -/
def Effect.All (P : Token → Prop) : Effect → Prop
  | .ret value stack => P value ∧ ∀ t ∈ stack, P t
  | .next stack | .print _ stack | .fail _ stack => ∀ t ∈ stack, P t

namespace Operator

variable {P : Token → Prop} {op : Operator} {a b : Token} {stack rest : Stack}

theorem all_applyOne (hP : Token.Stable P) (ha : P a) (hrest : ∀ t ∈ rest, P t) :
    (op.applyOne a rest).All P := by
  have hone : ∀ t ∈ a :: rest, P t := List.forall_mem_cons.mpr ⟨ha, hrest⟩
  cases op with
  | print =>
    simp only [applyOne]
    split <;> exact hrest
  | ret => exact ⟨ha, hrest⟩
  | drop => exact hrest
  | sqrt =>
    simp only [applyOne]
    split
    next v => exact List.forall_mem_cons.mpr ⟨hP.num _ _ _ ha, hrest⟩
    next kind v _ => exact List.forall_mem_cons.mpr ⟨hP.num _ _ _ ha, hrest⟩
    next => exact hone
  | _ => exact List.forall_mem_cons.mpr ⟨ha, hone⟩

theorem all_applyTwo (hP : Token.Stable P) (ha : P a) (hb : P b) (hrest : ∀ t ∈ rest, P t) :
    (op.applyTwo a b rest).All P := by
  have hone : ∀ {t}, P t → ∀ u ∈ t :: rest, P u :=
    fun ht => List.forall_mem_cons.mpr ⟨ht, hrest⟩
  have htwo : ∀ t ∈ b :: a :: rest, P t := List.forall_mem_cons.mpr ⟨hb, hone ha⟩
  cases op with
  | add =>
    simp only [applyTwo]
    split
    next => exact hone (hP.num _ _ _ ha)
    next => exact hone (hP.str _)
    next => exact htwo
  | sub | mul | div | mod =>
    simp only [applyTwo]
    split
    next => exact hone (hP.num _ _ _ ha)
    next => exact htwo
  | max | min =>
    simp only [applyTwo]
    split
    next => exact hone (by split <;> assumption)
    next => exact htwo
  | gt | lt | ge | le | is =>
    simp only [applyTwo]
    split
    next => exact hone (hP.bool _)
    next => exact htwo
  | eq | ne => exact hone (hP.bool _)
  | assert =>
    simp only [applyTwo]
    split <;> exact hrest
  | swap => exact List.forall_mem_cons.mpr ⟨ha, hone hb⟩
  | carry => exact List.forall_mem_cons.mpr ⟨ha, htwo⟩
  | _ => exact htwo

/-- An operator makes no values of a new kind. -/
theorem all_apply (hP : Token.Stable P) (h : ∀ t ∈ stack, P t) : (op.apply stack).All P := by
  unfold apply
  split
  next a rest _ =>
    obtain ⟨ha, hrest⟩ := List.forall_mem_cons.mp h
    exact all_applyOne hP ha hrest
  next b a rest _ =>
    simp only [List.forall_mem_cons] at h
    obtain ⟨hb, ha, hrest⟩ := h
    exact all_applyTwo hP ha hb hrest
  next c b a rest _ =>
    simp only [Effect.All, List.forall_mem_cons] at h ⊢
    obtain ⟨hc, hb, hrest⟩ := h
    exact ⟨hb, hc, hrest⟩
  next => exact h

end Operator

namespace Definition

variable {d : Definition} {caller : String} {stack args rest : Stack} {e : Error}

/-- What is bound are values of the caller, as the types of parameters make them. -/
theorem mem_of_bind_eq_bound (h : d.bind caller stack = .bound args rest) :
    (∀ t ∈ args, ∃ p ∈ d.params, ∃ value ∈ stack, p.type.accept value = some t) ∧
      ∀ t ∈ rest, t ∈ stack := by
  have hbinds := binds_bindFrom d caller [] d.params.reverse stack
  rw [← bind, h] at hbinds
  cases hbinds with
  | bound hle hlength hargs =>
    refine ⟨?_, fun t ht => List.mem_of_mem_drop ht⟩
    intro t ht
    rw [List.reverse_nil, List.nil_append] at ht
    obtain ⟨k, hk, rfl⟩ := List.mem_iff_getElem.mp ht
    have hparam : k < d.params.reverse.length := hlength ▸ hk
    have hvalue : k < stack.length := Nat.lt_of_lt_of_le hparam hle
    refine ⟨_, List.mem_reverse.mp (List.getElem_mem hparam), _, List.getElem_mem hvalue, ?_⟩
    rw [← hargs k _ _ (List.getElem?_eq_getElem hparam) (List.getElem?_eq_getElem hvalue),
      List.getElem?_eq_getElem hk]

theorem mem_of_bind_eq_failed (h : d.bind caller stack = .failed e rest) :
    ∀ t ∈ rest, t ∈ stack := by
  obtain ⟨-, -, rfl⟩ | ⟨_, _, _, taken, -, -, -, -, rfl⟩ := bind_failed h
  · simp
  · exact fun t ht => List.mem_append_right taken ht

end Definition

-- -----------------------------------------------------------------------
-- Moves
-- -----------------------------------------------------------------------

/-- Whatever the program puts on a stack has a property: the tokens of bodies that are
pushed, the values in blocks, and what parameters make of values that have it. -/
structure Program.Supplies (p : Program) (P : Token → Prop) : Prop where
  stable : Token.Stable P
  body (name : String) (d : Definition) : p.functions[name]? = some d →
    ∀ token ∈ d.body, token.isPushed = true → P token
  block (function name : String) (block : Block) (value : Token) :
    p.blocks[function]? = some block → block[name]? = some value → P value
  accept (name : String) (d : Definition) : p.functions[name]? = some d →
    ∀ param ∈ d.params, ∀ value bound, P value → param.type.accept value = some bound → P bound

/-- All values that the move leaves or hands on have a property. -/
def Move.All (P : Token → Prop) : Move → Prop
  | .go f | .print f _ | .fail f _ => ∀ t ∈ f.stack, P t
  | .start f g => (∀ t ∈ f.stack, P t) ∧ ∀ t ∈ g.stack, P t
  | .ret f value => (∀ t ∈ f.stack, P t) ∧ P value

namespace Program.Supplies

variable {p : Program} {P : Token → Prop} {name caller : String} {d : Definition}
  {stack args rest : Stack} {e : Error}

theorem of_bind_eq_bound (hp : p.Supplies P) (hd : p.functions[name]? = some d)
    (h : ∀ t ∈ stack, P t) (hbind : d.bind caller stack = .bound args rest) :
    (∀ t ∈ args, P t) ∧ ∀ t ∈ rest, P t := by
  obtain ⟨hargs, hrest⟩ := Definition.mem_of_bind_eq_bound hbind
  refine ⟨?_, fun t ht => h t (hrest t ht)⟩
  intro t ht
  obtain ⟨param, hparam, value, hvalue, haccept⟩ := hargs t ht
  exact hp.accept name d hd param hparam value t (h value hvalue) haccept

end Program.Supplies

namespace Frame

variable {p : Program} {P : Token → Prop} {f : Frame} {index : Nat}

theorem all_moveOperator (hP : Token.Stable P) (h : ∀ t ∈ f.stack, P t) (op : Operator) :
    (f.moveOperator op).All P := by
  have hall : (op.apply f.stack).All P := Operator.all_apply hP h
  unfold moveOperator
  cases heffect : op.apply f.stack with
  | ret value stack =>
    rw [heffect] at hall
    exact ⟨hall.2, hall.1⟩
  | _ =>
    rw [heffect] at hall
    exact hall

theorem all_moveCall (hp : p.Supplies P) (h : ∀ t ∈ f.stack, P t) {name : String}
    {d : Definition} (hd : p.functions[name]? = some d) : (f.moveCall p index d).All P := by
  unfold moveCall
  cases Machine.missingBlock? p [d.name, f.func.name] with
  | some e => exact h
  | none =>
    simp only
    cases hbind : d.bind f.func.name f.stack with
    | failed e rest => exact fun t ht => h t (Definition.mem_of_bind_eq_failed hbind t ht)
    | bound args rest => exact (hp.of_bind_eq_bound hd h hbind).symm

theorem value_of_lookup (hp : p.Supplies P) {name : String} {value : Token}
    (h : Machine.lookup p f name = .ok (some value)) : P value := by
  simp only [Machine.lookup, Program.block, bind, Except.bind] at h
  cases hown : p.blocks[f.func.name]? with
  | none =>
    rw [hown] at h
    cases h
  | some own =>
    simp only [hown] at h
    cases hvalue : own[name]? with
    | some inner =>
      rw [hvalue] at h
      cases h
      exact hp.block _ name own value hown hvalue
    | none =>
      simp only [hvalue] at h
      cases houter : p.blocks[f.callerBlock]? with
      | none =>
        rw [houter] at h
        cases h
      | some outer =>
        rw [houter] at h
        exact hp.block _ name outer value houter (Except.ok.inj h)

theorem all_moveIdent (hp : p.Supplies P) (h : ∀ t ∈ f.stack, P t) (name : String) :
    (f.moveIdent p index name).All P := by
  unfold moveIdent
  cases hd : p.functions[name]? with
  | some d => exact all_moveCall hp h hd
  | none =>
    simp only
    cases hlookup : Machine.lookup p f name with
    | error e => exact h
    | ok value =>
      cases value with
      | none => exact h
      | some value => exact List.forall_mem_cons.mpr ⟨value_of_lookup hp hlookup, h⟩

theorem all_moveIf (h : ∀ t ∈ f.stack, P t) (keyword : Keyword) :
    (f.moveIf index keyword).All P := by
  unfold moveIf
  split
  next elseAt endAt hjump =>
    split
    next => exact h
    next condition stack hstack =>
      rw [hstack] at h
      have hrest := (List.forall_mem_cons.mp h).2
      simp only
      split
      next => exact ⟨hrest, hrest⟩
      next =>
        cases elseAt with
        | none => exact hrest
        | some elseAt => exact ⟨hrest, hrest⟩
  next => exact h

theorem all_moveDo (h : ∀ t ∈ f.stack, P t) : f.moveDo.All P := by
  unfold moveDo
  split
  next endAt hjump =>
    split
    next => exact h
    next condition stack hstack =>
      rw [hstack] at h
      exact (List.forall_mem_cons.mp h).2
  next => exact h

theorem all_moveEnd (h : ∀ t ∈ f.stack, P t) : f.moveEnd.All P := by
  unfold moveEnd
  split <;> exact h

/-- A frame of a registered function puts nothing else on stacks. -/
theorem all_move (hp : p.Supplies P)
    (hregistered : ∃ name : String, p.functions[name]? = some f.func)
    (h : ∀ t ∈ f.stack, P t) {token : Token} (hnext : f.next? = some token) :
    (f.move p index token).All P := by
  obtain ⟨name, hd⟩ := hregistered
  have hpushed : token.isPushed = true → ∀ t ∈ token :: f.stack, P t := fun hpushed =>
    List.forall_mem_cons.mpr ⟨hp.body name f.func hd token
      (Array.mem_of_getElem? (next?_eq_some hnext).2) hpushed, h⟩
  cases token with
  | op op => exact all_moveOperator hp.stable h op
  | ident name => exact all_moveIdent hp h name
  | keyword k =>
    cases k with
    | if_ => exact all_moveIf h .if_
    | iff => exact all_moveIf h .iff
    | do_ => exact all_moveDo h
    | end_ => exact all_moveEnd h
    | while_ | else_ => exact h
    | fun_ | as_ => exact hpushed rfl
  | _ => exact hpushed rfl

end Frame

-- -----------------------------------------------------------------------
-- Steps and runs
-- -----------------------------------------------------------------------

namespace Machine

variable {σ : Type} {P : Token → Prop} {ctx : Context σ} {base m m' : Machine σ} {s : Signal}
  {f : Frame}

/-- All values on the stacks of the machine have a property. -/
structure Holds (P : Token → Prop) (m : Machine σ) : Prop where
  frames : ∀ f ∈ m.frames, ∀ t ∈ f.stack, P t
  root : ∀ t ∈ m.root, P t

theorem holds_withTop : (base.withTop f).Holds P ↔ base.Holds P ∧ ∀ t ∈ f.stack, P t := by
  constructor
  · intro h
    exact ⟨⟨fun g hg => h.frames g (Array.mem_push_of_mem f hg), h.root⟩,
      h.frames f Array.mem_push_self⟩
  · rintro ⟨h, hf⟩
    refine ⟨?_, h.root⟩
    intro g hg
    rcases Array.mem_push.mp hg with hg | rfl
    · exact h.frames g hg
    · exact hf

theorem Holds.receive (h : m.Holds P) {value : Token} (hvalue : P value) (returnTo : ReturnTo) :
    (m.receive returnTo [value]).Holds P := by
  refine ⟨?_, ?_⟩
  · intro g hg
    obtain ⟨i, hi⟩ := Array.mem_iff_getElem?.mp hg
    rw [getElem?_receive] at hi
    split at hi
    · obtain ⟨f, hf, rfl⟩ := Option.map_eq_some_iff.mp hi
      exact List.forall_mem_cons.mpr ⟨hvalue, h.frames f (Array.mem_of_getElem? hf)⟩
    · exact h.frames g (Array.mem_of_getElem? hi)
  · rw [root_receive]
    split
    · exact List.forall_mem_cons.mpr ⟨hvalue, h.root⟩
    · exact h.root

theorem Holds.finish (h : (base.withTop f).Holds P) : (base.withTop f).finish.Holds P := by
  obtain ⟨hbase, hf⟩ := holds_withTop.mp h
  refine ⟨?_, ?_⟩
  · rw [frames_finish]
    exact hbase.frames
  · rw [root_finish]
    split
    · exact hbase.root
    · split
      · exact hf
      · exact List.forall_mem_append.mpr ⟨hf, hbase.root⟩
      · exact hbase.root

theorem Holds.push (h : m.Holds P) (hf : ∀ t ∈ f.stack, P t) {limit : Nat}
    (hpush : m.push limit f = (m', s)) : m'.Holds P := by
  rw [push_eq] at hpush
  split at hpush
  · cases hpush
    exact holds_withTop.mpr ⟨h, hf⟩
  · cases hpush
    exact h

theorem Holds.perform (h : base.Holds P) {move : Move} (hmove : move.All P)
    (hperform : base.perform ctx move = (m', s)) : m'.Holds P := by
  cases move with
  | go f =>
    cases hperform
    exact holds_withTop.mpr ⟨h, hmove⟩
  | start f g => exact (holds_withTop.mpr ⟨h, hmove.1⟩).push hmove.2 hperform
  | ret f value =>
    cases hperform
    rw [deliver_withTop]
    exact (holds_withTop.mpr ⟨h, hmove.1⟩).receive hmove.2 _
  | print f line =>
    have hbase := holds_withTop.mpr ⟨h, hmove⟩
    simp only [Machine.perform] at hperform
    split at hperform
    all_goals
      cases hperform
      exact ⟨hbase.frames, hbase.root⟩
  | fail f e =>
    cases hperform
    exact holds_withTop.mpr ⟨h, hmove⟩

/-- A step puts nothing else on stacks, if its frames run registered functions. -/
theorem Holds.step (hp : ctx.program.Supplies P)
    (hregistered : ∀ f ∈ m.frames, ∃ name : String, ctx.program.functions[name]? = some f.func)
    (h : m.Holds P) (hstep : m.step ctx = (m', s)) : m'.Holds P := by
  rcases m.frames_empty_or_withTop with hempty | ⟨base, f, rfl⟩
  · simp only [Machine.step, hempty] at hstep
    cases hstep
    exact h
  · rw [step_withTop] at hstep
    cases hnext : f.next? with
    | none =>
      rw [hnext] at hstep
      cases hstep
      exact h.finish
    | some token =>
      rw [hnext] at hstep
      obtain ⟨hbase, hf⟩ := holds_withTop.mp h
      exact hbase.perform (Frame.all_move hp (hregistered f Array.mem_push_self) hf hnext) hstep

theorem Holds.invoke (hp : ctx.program.Supplies P) (h : m.Holds P) {name callerBlock : String}
    {returnTo : ReturnTo} (hinvoke : m.invoke ctx name callerBlock returnTo = (m', s)) :
    m'.Holds P := by
  unfold Machine.invoke at hinvoke
  split at hinvoke
  next =>
    cases hinvoke
    exact h
  next d hd =>
    split at hinvoke
    next =>
      cases hinvoke
      exact h
    next =>
      split at hinvoke
      next e rest hbind =>
        cases hinvoke
        exact ⟨h.frames, fun t ht => h.root t (Definition.mem_of_bind_eq_failed hbind t ht)⟩
      next args rest hbind =>
        obtain ⟨hargs, hrest⟩ := hp.of_bind_eq_bound hd h.root hbind
        have hbelow : Holds P { m with root := rest } := ⟨h.frames, hrest⟩
        exact hbelow.push hargs hinvoke

end Machine

namespace Program

variable {σ : Type} {p : Program} {P : Token → Prop} {options : RunOptions} {sink : Sink σ}
  {out : σ} {phase : Phase} {m : Machine σ} {s : Signal}

/-- What the program puts on stacks is all that is on the stacks of a run. -/
theorem Visits.holds (hindexed : p.Indexed) (hp : p.Supplies P)
    (h : p.Visits options sink out phase m s) : m.Holds P := by
  induction h with
  | fresh => exact ⟨by simp [Machine.init], by simp [Machine.init]⟩
  | start h hinvoke ih => exact ih.invoke hp hinvoke
  | enter h hentry hinvoke ih => exact ih.invoke hp hinvoke
  | step h hstep ih =>
    exact ih.step hp (fun f hf => ((h.chain hindexed).all f hf).registered) hstep

end Program

-- -----------------------------------------------------------------------
-- Programs that were read
-- -----------------------------------------------------------------------

/-- The token is no number, or one of the kind that literals have. -/
def Token.Untyped (t : Token) : Prop := ∀ kind v, t = .num kind v → kind = .num

theorem Token.isValue_of_isPushed {t : Token} (h : t.isPushed = true) (hfun : t ≠ .keyword .fun_) :
    t.isValue = true := by
  cases t with
  | op | ident => cases h
  | keyword k =>
    cases k with
    | as_ => rfl
    | fun_ => exact absurd rfl hfun
    | _ => cases h
  | _ => rfl

theorem Lexeme.untyped_token (lexeme : Lexeme) : lexeme.token.Untyped := by
  intro kind v h
  cases lexeme with
  | quoted s => cases h
  | word w =>
    simp only [token, Token.ofWord] at h
    repeat' split at h
    all_goals cases h
    rfl

theorem TypeName.isValue_of_accept {type : TypeName} {value bound : Token}
    (h : type.accept value = some bound) : bound.isValue = true := by
  unfold accept at h
  repeat' split at h
  all_goals cases h
  all_goals rfl

theorem TypeName.eq_of_accept {type : TypeName} {value bound : Token}
    (htype : type ≠ .int ∧ type ≠ .float ∧ type ≠ .double)
    (h : type.accept value = some bound) : bound = value := by
  obtain ⟨hint, hfloat, hdouble⟩ := htype
  unfold accept at h
  split at h
  next => exact (Option.some.inj h).symm
  next => exact absurd rfl hint
  next => exact absurd rfl hfloat
  next => exact absurd rfl hdouble
  next => exact (Option.some.inj h).symm
  next => exact (Option.some.inj h).symm
  next => cases h

namespace Program

variable {p : Program} {items : List Item} {version name : String} {d : Definition}

/-- The tokens of bodies are those of lexemes other than `fun`. -/
theorem Describes.lexeme_of_mem (h : p.Describes items version)
    (hd : p.functions[name]? = some d) {token : Token} (htoken : token ∈ d.body) :
    ∃ lexeme : Lexeme, lexeme ≠ .word Keyword.fun_.spelling ∧ lexeme.token = token := by
  rcases h.origin hd with ⟨-, hconsists⟩ | ⟨-, c, -, hconsists⟩
  · rw [hconsists.body_eq, List.mem_toArray, List.mem_flatMap] at htoken
    obtain ⟨item, -, hitem⟩ := htoken
    cases item with
    | single lexeme notFun =>
      rw [Item.topTokens, List.mem_singleton] at hitem
      exact ⟨lexeme, notFun, hitem.symm⟩
    | clause c => cases hitem
  · rw [hconsists.body_eq, List.mem_toArray] at htoken
    obtain ⟨lexeme, hlexeme, rfl⟩ := List.mem_map.mp htoken
    refine ⟨lexeme, ?_, rfl⟩
    rintro rfl
    exact c.noFun hlexeme

/-- Only `_global` binds anything, and that is the version. -/
theorem Describes.getElem?_block (h : p.Describes items version) {function : String}
    {block : Block} (hblock : p.blocks[function]? = some block) (name : String) :
    block[name]? =
      if name = "version" ∧ function = globalName then some (.str version) else none := by
  by_cases hfunction : function = globalName
  · subst hfunction
    cases h.globalBlock.symm.trans hblock
    rw [Std.ExtTreeMap.getElem?_insert, Std.ExtTreeMap.getElem?_empty]
    by_cases hname : name = "version"
    · simp [hname]
    · simp [hname, Ne.symm hname]
  · rw [h.otherBlocks function block hfunction hblock, Std.ExtTreeMap.getElem?_empty,
      if_neg fun hboth => hfunction hboth.2]

theorem Describes.eq_of_block (h : p.Describes items version) {function : String} {block : Block}
    {value : Token} (hblock : p.blocks[function]? = some block)
    (hvalue : block[name]? = some value) : value = .str version := by
  rw [h.getElem?_block hblock] at hvalue
  split at hvalue
  next => exact (Option.some.inj hvalue).symm
  next => cases hvalue

theorem Describes.supplies_values (h : p.Describes items version) :
    p.Supplies fun t => t.isValue = true where
  stable := ⟨fun _ _ _ _ => rfl, fun _ => rfl, fun _ => rfl⟩
  body name d hd token htoken hpushed := by
    obtain ⟨lexeme, hlexeme, rfl⟩ := h.lexeme_of_mem hd htoken
    exact Token.isValue_of_isPushed hpushed
      fun hfun => hlexeme (Lexeme.token_eq_keyword_iff.mp hfun)
  block function name block value hblock hvalue := by
    rw [h.eq_of_block hblock hvalue]
    rfl
  accept name d hd param hparam value bound hvalue haccept := TypeName.isValue_of_accept haccept

theorem Describes.supplies_untyped (h : p.Describes items version)
    (hparams : ∀ (name : String) (d : Definition), p.functions[name]? = some d →
      ∀ param ∈ d.params, param.type ≠ .int ∧ param.type ≠ .float ∧ param.type ≠ .double) :
    p.Supplies Token.Untyped where
  stable := by
    refine ⟨?_, ?_, ?_⟩
    · rintro kind x y hx _ _ ⟨⟩
      exact hx kind x rfl
    · rintro s kind v ⟨⟩
    · rintro b kind v ⟨⟩
  body name d hd token htoken hpushed := by
    obtain ⟨lexeme, -, rfl⟩ := h.lexeme_of_mem hd htoken
    exact lexeme.untyped_token
  block function name block value hblock hvalue := by
    rw [h.eq_of_block hblock hvalue]
    rintro kind v ⟨⟩
  accept name d hd param hparam value bound hvalue haccept := by
    rw [TypeName.eq_of_accept (hparams name d hd param hparam) haccept]
    exact hvalue

/-- In all machines that a run of a program goes through, values alone lie on the
stacks. If no function declares a parameter of a type that gives numbers another
kind, all numbers there have the kind of literals. -/
theorem visits_values {σ : Type} {source version : String} {p : Program}
    (h : ofSource source version = .ok p) {options : RunOptions} {sink : Sink σ} {out : σ}
    {phase : Phase} {m : Machine σ} {s : Signal} (hvisits : p.Visits options sink out phase m s) :
    (m.Holds fun t => t.isValue = true) ∧
    ((∀ (name : String) (d : Definition), p.functions[name]? = some d → ∀ param ∈ d.params,
        param.type ≠ .int ∧ param.type ≠ .float ∧ param.type ≠ .double) →
      m.Holds fun t => ∀ kind v, t = .num kind v → kind = .num) := by
  obtain ⟨items, hsplits⟩ := splits_of_ofSource h
  have hdescribes := describes_of_ofSource h hsplits
  refine ⟨hvisits.holds hdescribes.indexed hdescribes.supplies_values, ?_⟩
  intro hparams
  exact hvisits.holds hdescribes.indexed (hdescribes.supplies_untyped hparams)

/-- A keyword and a type lie under a number at the end of this run. -/
theorem visits_values_of_keyword :
    ∃ p m, ofSource "as bool 1" defaultVersion = .ok p ∧
      p.Visits {} .memory "" .top m .running ∧
      m.root = [.num .num 1, .type .bool, .keyword .as_] ∧
      (m.Holds fun t => t.isValue = true) ∧
      m.Holds fun t => ∀ kind v, t = .num kind v → kind = .num := by
  have hcheck : (do
      let p ← (ofSource "as bool 1" defaultVersion).toOption
      let moment ← p.trace {} .memory "" 5
      return decide (moment.phase = .top ∧ moment.signal = .running ∧
        moment.machine.root = [.num .num 1, .type .bool, .keyword .as_] ∧
        ∀ entry ∈ p.functions.toList, entry.2.params = [])) = some true := by
    decide +kernel
  simp only [Option.bind_eq_bind, Option.bind_eq_some_iff] at hcheck
  obtain ⟨p, hp, moment, htrace, hcheck⟩ := hcheck
  obtain ⟨hphase, hsignal, hroot, hparams⟩ := of_decide_eq_true (Option.some.inj hcheck)
  have hvisits := visits_of_trace htrace
  rw [hphase, hsignal] at hvisits
  have hsource := Except.eq_ok_of_toOption hp
  obtain ⟨hvalues, huntyped⟩ := visits_values hsource hvisits
  refine ⟨p, _, hsource, hvisits, hroot, hvalues, huntyped ?_⟩
  intro name d hd param hparam
  rw [hparams (name, d) (Std.ExtTreeMap.mem_toList_iff_getElem?_eq_some.mpr hd)] at hparam
  cases hparam

end Program

end Wordstack
