-- SUMMARY: Which source texts are programs, and what program each of them is.
import Mathlib.Data.List.Induction
import Wordstack.Program.Source
import Wordstack.Proofs.Code.Jumps
import Wordstack.Proofs.Except

/-!
# Programs and their source texts

A source text is a program when its lexemes are a sequence of items, each of which
is a lexeme other than `fun` or a whole definition, and the lexemes outside
definitions have a block structure as well. The program then holds these as the
body of `_global`, and the last definition of each name.
-/

namespace Wordstack

-- -----------------------------------------------------------------------
-- Reserved words as lexemes
-- -----------------------------------------------------------------------

/-- A word is found in a family if it is how a member is spelled, provided that each member
is found by its own spelling. -/
theorem find?_spelling_eq_some_iff {α : Type} {family : List α} {spelling : α → String}
    (hself : ∀ a, family.find? (spelling · == spelling a) = some a) {word : String} {a : α} :
    family.find? (spelling · == word) = some a ↔ word = spelling a := by
  constructor
  · intro h
    have hfound := List.find?_some h
    exact (beq_iff_eq.mp hfound).symm
  · rintro rfl
    exact hself a

theorem Operator.ofWord?_eq_some_iff {word : String} {o : Operator} :
    ofWord? word = some o ↔ word = o.spelling :=
  find?_spelling_eq_some_iff fun o => by cases o <;> rfl

theorem Keyword.ofWord?_eq_some_iff {word : String} {k : Keyword} :
    ofWord? word = some k ↔ word = k.spelling :=
  find?_spelling_eq_some_iff fun k => by cases k <;> rfl

theorem TypeName.ofWord?_eq_some_iff {word : String} {type : TypeName} :
    ofWord? word = some type ↔ word = type.spelling :=
  find?_spelling_eq_some_iff fun type => by cases type <;> rfl

namespace Lexeme

theorem isKeyword_iff {lexeme : Lexeme} {k : Keyword} :
    lexeme.isKeyword k = true ↔ lexeme = .word k.spelling := by
  cases lexeme with
  | word w => simp [isKeyword]
  | quoted s => simp [isKeyword]

/-- Only the bare word of a keyword stands for it. -/
theorem token_eq_keyword_iff {lexeme : Lexeme} {k : Keyword} :
    lexeme.token = .keyword k ↔ lexeme = .word k.spelling := by
  constructor
  · intro h
    cases lexeme with
    | quoted s => cases h
    | word w =>
      simp only [token, Token.ofWord] at h
      repeat' split at h
      all_goals cases h
      rename_i hkeyword
      rw [Keyword.ofWord?_eq_some_iff.mp hkeyword]
  · rintro rfl
    cases k <;> rfl

end Lexeme

-- -----------------------------------------------------------------------
-- Items of a source text
-- -----------------------------------------------------------------------

/-- A definition as it is written: `fun`, a name, type names, `as`, a body with a
block structure and `end`. -/
structure Clause where
  name : String
  types : List TypeName
  body : List Lexeme
  isName : nameFault? name = none
  noFun : Lexeme.word Keyword.fun_.spelling ∉ body
  isStructured : ∃ code : Code, code.tokens = body.map Lexeme.token

namespace Clause

def params (c : Clause) : List Param := c.types.map Param.ofType

def tokens (c : Clause) : List Token := c.body.map Lexeme.token

def lexemes (c : Clause) : List Lexeme :=
  .word Keyword.fun_.spelling :: .word c.name :: (c.types.map fun type => .word type.spelling)
    ++ .word Keyword.as_.spelling :: (c.body ++ [.word Keyword.end_.spelling])

/-- What stands before the body of a definition. -/
def header (name : String) (types : List TypeName) : List Lexeme :=
  .word Keyword.fun_.spelling :: .word name :: (types.map fun type => .word type.spelling)
    ++ [.word Keyword.as_.spelling]

theorem lexemes_eq (c : Clause) :
    c.lexemes = header c.name c.types ++ (c.body ++ [.word Keyword.end_.spelling]) := by
  simp [lexemes, header]

end Clause

/-- A piece of a source text: a lexeme outside all definitions, or a definition. -/
inductive Item where
  | single (lexeme : Lexeme) (notFun : lexeme ≠ .word Keyword.fun_.spelling)
  | clause (c : Clause)

namespace Item

def lexemes : Item → List Lexeme
  | .single lexeme _ => [lexeme]
  | .clause c => c.lexemes

/-- What the item adds to the body of `_global`. -/
def topTokens : Item → List Token
  | .single lexeme _ => [lexeme.token]
  | .clause _ => []

/-- The item as a definition of a name. -/
def defines? (name : String) : Item → Option Clause
  | .single .. => none
  | .clause c => if c.name = name then some c else none

/-- The last definition of a name. -/
def latest? (items : List Item) (name : String) : Option Clause :=
  items.reverse.findSome? (defines? name)

/-- The items make up the text, and those outside definitions have a block
structure. -/
structure Splits (source : String) (items : List Item) : Prop where
  scan : Lexeme.scan (Lexeme.dropReturns source) = .ok (items.flatMap lexemes)
  isStructured : ∃ code : Code, code.tokens = items.flatMap topTokens

end Item

-- -----------------------------------------------------------------------
-- The program of a sequence of items
-- -----------------------------------------------------------------------

/-- The definition has these parts and the jump table of its body. -/
structure Definition.Consists (d : Definition) (name : String) (params : List Param)
    (body : List Token) : Prop where
  name_eq : d.name = name
  params_eq : d.params = params
  body_eq : d.body = body.toArray
  jumps_eq : JumpTable.ofBody name body = .ok d.jumps

theorem Definition.make_eq_ok_iff {name : String} {params : List Param} {body : List Token}
    {d : Definition} : make name params body = .ok d ↔ d.Consists name params body := by
  unfold make
  constructor
  · intro h
    cases hjumps : JumpTable.ofBody name body with
    | error e =>
      rw [hjumps] at h
      cases h
    | ok jumps =>
      rw [hjumps] at h
      cases h
      exact ⟨rfl, rfl, rfl, hjumps⟩
  · intro h
    obtain ⟨dname, dparams, dbody, djumps⟩ := d
    obtain ⟨rfl, rfl, rfl, hjumps⟩ := h
    rw [hjumps]
    rfl

theorem Definition.exists_make {name : String} {params : List Param} {body : List Token}
    (h : ∃ code : Code, code.tokens = body) : ∃ d, make name params body = .ok d := by
  obtain ⟨code, rfl⟩ := h
  obtain ⟨jumps, hok, -⟩ := JumpTable.ofBody_of_code name code
  exact ⟨{ name, params, body := code.tokens.toArray, jumps },
    make_eq_ok_iff.mpr ⟨rfl, rfl, rfl, hok⟩⟩

theorem Definition.Consists.isStructured {d : Definition} {name : String} {params : List Param}
    {body : List Token} (h : d.Consists name params body) : ∃ code : Code, code.tokens = body :=
  JumpTable.code_of_ofBody h.jumps_eq

/-- What a program with these definitions holds, `_global` itself apart: under each
name the last definition, and a block for each function. -/
structure Program.Registers (p : Program) (items : List Item) (version : String) : Prop where
  latest : ∀ name c, Item.latest? items name = some c →
    ∃ d, p.functions[name]? = some d ∧ d.Consists name c.params c.tokens
  noOther : ∀ name, name ≠ globalName → Item.latest? items name = none →
    p.functions[name]? = none
  sameNames : ∀ name, name ∈ p.blocks ↔ name ∈ p.functions
  globalBlock : p.blocks[globalName]? = some ((∅ : Block).insert "version" (.str version))
  otherBlocks : ∀ name block, name ≠ globalName → p.blocks[name]? = some block → block = ∅

/-- What the program of a sequence of items holds. -/
structure Program.Describes (p : Program) (items : List Item) (version : String) : Prop
    extends p.Registers items version where
  global : ∃ d, p.functions[globalName]? = some d ∧
    d.Consists globalName [] (items.flatMap Item.topTokens)

-- -----------------------------------------------------------------------
-- Items are read
-- -----------------------------------------------------------------------

namespace Reading

theorem foldlM_push_cons {r r' : Reading} {lexeme : Lexeme} {rest : List Lexeme}
    (h : r.push lexeme = .ok r') : (lexeme :: rest).foldlM push r = rest.foldlM push r' := by
  rw [List.foldlM_cons, h]
  rfl

theorem foldlM_push_append {r r' : Reading} {lexemes rest : List Lexeme}
    (h : lexemes.foldlM push r = .ok r') :
    (lexemes ++ rest).foldlM push r = rest.foldlM push r' := by
  rw [List.foldlM_append, h]
  rfl

/-- The depth after some tokens of a body, unless they close the definition. -/
def scanDepth (depth : Nat) : List Token → Option Nat
  | [] => some depth
  | .keyword .end_ :: rest =>
    match depth with
    | 0 => none
    | depth + 1 => scanDepth depth rest
  | .keyword k :: rest => scanDepth (if k.opensBlock then depth + 1 else depth) rest
  | _ :: rest => scanDepth depth rest

theorem scanDepth_plain {depth : Nat} {token : Token} {rest : List Token}
    (h : token.isPlain = true) : scanDepth depth (token :: rest) = scanDepth depth rest := by
  cases token with
  | keyword k =>
    cases k with
    | fun_ => rfl
    | as_ => rfl
    | _ => nomatch h
  | _ => rfl

theorem scanDepth_conditional {depth : Nat} {word : Conditional} {rest : List Token} :
    scanDepth depth (.keyword word.keyword :: rest) = scanDepth (depth + 1) rest := by
  cases word <;> rfl

/-- Structured code leaves the depth as it was. -/
theorem scanDepth_code (code : Code) {depth : Nat} {rest : List Token} :
    scanDepth depth (code.tokens ++ rest) = scanDepth depth rest := by
  induction code generalizing depth rest with
  | done => rfl
  | plain token h last ih =>
    rw [Code.tokens, List.cons_append, scanDepth_plain h, ih]
  | ifThen word yes last ihYes ih =>
    rw [Code.tokens, List.cons_append, List.append_assoc, scanDepth_conditional, ihYes,
      List.cons_append]
    exact ih
  | ifElse word yes no last ihYes ihNo ih =>
    rw [Code.tokens, List.cons_append, List.append_assoc, scanDepth_conditional, ihYes,
      List.cons_append, List.append_assoc]
    exact ihNo.trans ih
  | loop test body last ihTest ihBody ih =>
    rw [Code.tokens, List.cons_append, List.append_assoc, List.cons_append, List.append_assoc]
    exact ihTest.trans (ihBody.trans ih)

theorem scanDepth_cons {depth : Nat} {token : Token} {rest : List Token} :
    scanDepth depth (token :: rest)
      = (scanDepth depth [token]).bind fun depth => scanDepth depth rest := by
  cases token with
  | keyword k =>
    cases k with
    | end_ => cases depth <;> rfl
    | _ => rfl
  | _ => rfl

/-- One more token of a body, unless it closes the definition or starts another. -/
theorem pushBody_eq_ok {r : Reading} {name : String} {params : List Param} {depth depth' : Nat}
    {body : List Token} {token : Token} (hfun : token ≠ .keyword .fun_)
    (hdepth : scanDepth depth [token] = some depth') :
    r.pushBody name params depth body token
      = .ok { r with position := .body name params depth' (token :: body) } := by
  cases token with
  | keyword k =>
    cases k with
    | end_ =>
      cases depth with
      | zero => cases hdepth
      | succ depth =>
        cases hdepth
        rfl
    | fun_ => exact absurd rfl hfun
    | _ =>
      cases hdepth
      rfl
  | _ =>
    cases hdepth
    rfl

theorem foldlM_push_body (r : Reading) (name : String) (params : List Param) {depth depth' : Nat}
    (body : List Token) {lexemes : List Lexeme}
    (hfun : Lexeme.word Keyword.fun_.spelling ∉ lexemes)
    (hdepth : scanDepth depth (lexemes.map Lexeme.token) = some depth') :
    lexemes.foldlM push { r with position := .body name params depth body }
      = .ok { r with
          position := .body name params depth' ((lexemes.map Lexeme.token).reverse ++ body) } := by
  induction lexemes generalizing depth body with
  | nil =>
    cases hdepth
    rfl
  | cons lexeme rest ih =>
    simp only [List.mem_cons, not_or] at hfun
    rw [List.map_cons, scanDepth_cons] at hdepth
    obtain ⟨between, hfirst, hrest⟩ := Option.bind_eq_some_iff.mp hdepth
    have htoken : lexeme.token ≠ .keyword .fun_ :=
      fun h => hfun.1 (Lexeme.token_eq_keyword_iff.mp h).symm
    have hpush : push { r with position := .body name params depth body } lexeme
        = .ok { r with position := .body name params between (lexeme.token :: body) } :=
      pushBody_eq_ok htoken hfirst
    rw [foldlM_push_cons hpush, ih (lexeme.token :: body) hfun.2 hrest]
    simp

theorem foldlM_push_types (r : Reading) (name : String) (params : List Param)
    (types : List TypeName) :
    (types.map fun type => Lexeme.word type.spelling).foldlM push
        { r with position := .params name params }
      = .ok { r with position := .params name ((types.map Param.ofType).reverse ++ params) } := by
  induction types generalizing params with
  | nil => rfl
  | cons type rest ih =>
    have hpush : push { r with position := .params name params } (.word type.spelling)
        = .ok { r with position := .params name (Param.ofType type :: params) } := by
      cases type <;> rfl
    rw [List.map_cons, foldlM_push_cons hpush, ih]
    simp

theorem push_name {r : Reading} {name : String} (h : nameFault? name = none) :
    push { r with position := .name } (.word name)
      = .ok { r with position := .params name [] } := by
  simp only [push, h]
  rfl

/-- A header leads to an empty body. -/
theorem foldlM_push_header {r : Reading} (hposition : r.position = .outside) {name : String}
    (hname : nameFault? name = none) (types : List TypeName) :
    (Clause.header name types).foldlM push r
      = .ok { r with position := .body name (types.map Param.ofType).reverse 0 [] } := by
  have hfun : push r (.word Keyword.fun_.spelling) = .ok { r with position := .name } := by
    simp only [push, hposition]
    rfl
  have htypes := foldlM_push_types r name [] types
  have has : push { r with position := .params name (types.map Param.ofType).reverse }
        (.word Keyword.as_.spelling)
      = .ok { r with position := .body name (types.map Param.ofType).reverse 0 [] } := rfl
  rw [List.append_nil] at htypes
  unfold Clause.header
  rw [List.cons_append, List.cons_append, foldlM_push_cons hfun,
    foldlM_push_cons (push_name hname), foldlM_push_append htypes]
  exact foldlM_push_cons has

/-- The reading after a header and lexemes that do not end the definition. -/
theorem foldlM_push_inside {r : Reading} (hposition : r.position = .outside) {name : String}
    (hname : nameFault? name = none) {inner : List Lexeme}
    (hfun : .word Keyword.fun_.spelling ∉ inner) {depth : Nat}
    (hdepth : scanDepth 0 (inner.map Lexeme.token) = some depth) (types : List TypeName)
    (rest : List Lexeme) :
    (Clause.header name types ++ (inner ++ rest)).foldlM push r = rest.foldlM push
      { r with
        position := .body name (types.map Param.ofType).reverse depth
          (inner.map Lexeme.token).reverse } := by
  have hbody := foldlM_push_body r name (types.map Param.ofType).reverse [] hfun hdepth
  rw [List.append_nil] at hbody
  rw [foldlM_push_append (foldlM_push_header hposition hname types), foldlM_push_append hbody]

/-- The `end` that closes a definition registers what its parts make. -/
theorem push_end {r : Reading} (hposition : r.position = .outside) {name : String}
    {params : List Param} {tokens : List Token} :
    push { r with position := .body name params.reverse 0 tokens.reverse }
        (.word Keyword.end_.spelling)
      = (Definition.make name params tokens).map fun d =>
          { r with program := r.program.define d } := by
  have hclosed : r.pushBody name params.reverse 0 tokens.reverse (.keyword .end_)
      = (Definition.make name params tokens).map fun d =>
          { r with program := r.program.define d, position := .outside } := by
    simp only [pushBody, List.reverse_reverse]
    cases Definition.make name params tokens <;> rfl
  rw [← hposition] at hclosed
  exact hclosed

/-- A definition as it is written is registered. -/
theorem foldlM_push_clause {r : Reading} (hposition : r.position = .outside) (c : Clause) :
    ∃ d, d.Consists c.name c.params c.tokens ∧
      c.lexemes.foldlM push r = .ok { r with program := r.program.define d } := by
  obtain ⟨d, hmake⟩ : ∃ d, Definition.make c.name c.params c.tokens = .ok d :=
    Definition.exists_make c.isStructured
  refine ⟨d, Definition.make_eq_ok_iff.mp hmake, ?_⟩
  have hdepth : scanDepth 0 (c.body.map Lexeme.token) = some 0 := by
    obtain ⟨code, hcode⟩ := c.isStructured
    rw [← hcode, ← List.append_nil code.tokens, scanDepth_code]
    rfl
  rw [c.lexemes_eq, foldlM_push_inside hposition c.isName c.noFun hdepth, ← Clause.params,
    ← Clause.tokens]
  refine foldlM_push_cons ?_
  rw [push_end hposition, hmake]
  rfl

end Reading

-- -----------------------------------------------------------------------
-- The program that the items make up
-- -----------------------------------------------------------------------

theorem Item.latest?_snoc_single {items : List Item} {lexeme : Lexeme}
    {h : lexeme ≠ .word Keyword.fun_.spelling} {name : String} :
    latest? (items ++ [.single lexeme h]) name = latest? items name := by
  simp only [latest?, List.reverse_append, List.reverse_cons, List.reverse_nil, List.nil_append,
    List.singleton_append, List.findSome?_cons, defines?]

theorem Item.latest?_snoc_clause {items : List Item} {c : Clause} {name : String} :
    latest? (items ++ [.clause c]) name = if c.name = name then some c else latest? items name := by
  simp only [latest?, List.reverse_append, List.reverse_cons, List.reverse_nil, List.nil_append,
    List.singleton_append, List.findSome?_cons, defines?]
  by_cases hname : c.name = name
  · simp only [if_pos hname]
  · simp only [if_neg hname]

theorem Clause.name_ne_globalName (c : Clause) : c.name ≠ globalName := by
  intro h
  have hname := c.isName
  simp [nameFault?, h] at hname

theorem Item.name_of_latest? {items : List Item} {name : String} {c : Clause}
    (h : latest? items name = some c) : c.name = name := by
  obtain ⟨item, -, hdefines⟩ := List.exists_of_findSome?_eq_some h
  cases item with
  | single lexeme hlexeme => cases hdefines
  | clause c' =>
    simp only [defines?] at hdefines
    split at hdefines
    next hname =>
      cases hdefines
      exact hname
    next => cases hdefines

namespace Program

theorem functions_insert {p : Program} {d : Definition} {key name : String} :
    (p.functions.insert key d)[name]? = if key = name then some d else p.functions[name]? := by
  simp [Std.ExtTreeMap.getElem?_insert]

theorem functions_define {p : Program} {d : Definition} {name : String} :
    (p.define d).functions[name]? = if d.name = name then some d else p.functions[name]? := by
  simp [define, Std.ExtTreeMap.getElem?_insert]

theorem blocks_define {p : Program} {d : Definition} {name : String} :
    (p.define d).blocks[name]? = if d.name = name then some ∅ else p.blocks[name]? := by
  simp [define, Std.ExtTreeMap.getElem?_insert]

theorem functions_empty {version name : String} :
    (empty version).functions[name]? = if globalName = name then
      some { name := globalName, params := [], body := #[], jumps := ∅ } else none := by
  simp [empty, Std.ExtTreeMap.getElem?_insert]

theorem blocks_empty {version name : String} :
    (empty version).blocks[name]? = if globalName = name then
      some ((∅ : Block).insert "version" (.str version)) else none := by
  simp [empty, Std.ExtTreeMap.getElem?_insert]

theorem Registers.empty (version : String) : (Program.empty version).Registers [] version where
  latest := by
    intro name c h
    cases h
  noOther := by
    intro name hname _
    rw [functions_empty, if_neg (Ne.symm hname)]
  sameNames := by
    intro name
    simp only [Std.ExtTreeMap.mem_iff_isSome_getElem?, functions_empty, blocks_empty]
    split <;> simp
  globalBlock := by
    rw [blocks_empty, if_pos rfl]
  otherBlocks := by
    intro name block hname h
    rw [blocks_empty, if_neg (Ne.symm hname)] at h
    cases h

theorem Registers.single {p : Program} {items : List Item} {version : String} {lexeme : Lexeme}
    (h : p.Registers items version) (hlexeme : lexeme ≠ .word Keyword.fun_.spelling) :
    p.Registers (items ++ [.single lexeme hlexeme]) version where
  latest name c hc := h.latest name c (by rwa [Item.latest?_snoc_single] at hc)
  noOther name hname hnone := h.noOther name hname (by rwa [Item.latest?_snoc_single] at hnone)
  sameNames := h.sameNames
  globalBlock := h.globalBlock
  otherBlocks := h.otherBlocks

theorem Registers.define {p : Program} {items : List Item} {version : String} {c : Clause}
    {d : Definition} (h : p.Registers items version) (hd : d.Consists c.name c.params c.tokens) :
    (p.define d).Registers (items ++ [.clause c]) version where
  latest := by
    intro name c' hc'
    rw [Item.latest?_snoc_clause] at hc'
    rw [functions_define, hd.name_eq]
    split at hc'
    next hname =>
      cases hc'
      rw [if_pos hname]
      exact ⟨d, rfl, hname ▸ hd⟩
    next hname =>
      rw [if_neg hname]
      exact h.latest name c' hc'
  noOther := by
    intro name hglobal hnone
    rw [Item.latest?_snoc_clause] at hnone
    split at hnone
    next => cases hnone
    next hname =>
      rw [functions_define, hd.name_eq, if_neg hname]
      exact h.noOther name hglobal hnone
  sameNames := by
    intro name
    have hsame := h.sameNames name
    simp only [Std.ExtTreeMap.mem_iff_isSome_getElem?] at hsame ⊢
    rw [functions_define, blocks_define]
    split
    · simp
    · exact hsame
  globalBlock := by
    rw [blocks_define, hd.name_eq, if_neg c.name_ne_globalName]
    exact h.globalBlock
  otherBlocks := by
    intro name block hglobal hblock
    rw [blocks_define] at hblock
    split at hblock
    · cases hblock
      rfl
    · exact h.otherBlocks name block hglobal hblock

/-- The top-level words complete what the definitions make up. -/
theorem Registers.describes {p : Program} {items : List Item} {version : String} {d : Definition}
    (h : p.Registers items version)
    (hd : d.Consists globalName [] (items.flatMap Item.topTokens)) :
    Describes { p with functions := p.functions.insert globalName d } items version where
  latest := by
    intro name c hc
    have hname : globalName ≠ name := by
      rw [← Item.name_of_latest? hc]
      exact c.name_ne_globalName.symm
    rw [functions_insert, if_neg hname]
    exact h.latest name c hc
  noOther := by
    intro name hname hnone
    rw [functions_insert, if_neg (Ne.symm hname)]
    exact h.noOther name hname hnone
  sameNames := by
    intro name
    have hsame := h.sameNames name
    have hglobal : globalName ∈ p.blocks := by
      rw [Std.ExtTreeMap.mem_iff_isSome_getElem?, h.globalBlock]
      rfl
    rw [Std.ExtTreeMap.mem_insert, Std.LawfulEqCmp.compare_eq_iff_eq, hsame, or_iff_right_of_imp]
    rintro rfl
    exact (h.sameNames globalName).mp hglobal
  globalBlock := h.globalBlock
  otherBlocks := h.otherBlocks
  global := by
    rw [functions_insert, if_pos rfl]
    exact ⟨d, rfl, hd⟩

end Program

theorem Reading.foldlM_push_items (version : String) (items : List Item) :
    ∃ p : Program, p.Registers items version ∧
      (items.flatMap Item.lexemes).foldlM push { program := .empty version }
        = .ok { program := p, top := (items.flatMap Item.topTokens).reverse } := by
  induction items using List.reverseRecOn with
  | nil => exact ⟨.empty version, .empty version, rfl⟩
  | append_singleton items item ih =>
    obtain ⟨p, hp, hread⟩ := ih
    rw [List.flatMap_append, foldlM_push_append hread, List.flatMap_append,
      List.reverse_append, List.flatMap_singleton, List.flatMap_singleton]
    cases item with
    | single lexeme h =>
      refine ⟨p, hp.single h, foldlM_push_cons ?_⟩
      have hfun : lexeme.isKeyword .fun_ = false :=
        Bool.eq_false_iff.mpr fun hkeyword => h (Lexeme.isKeyword_iff.mp hkeyword)
      simp only [push, hfun]
      rfl
    | clause c =>
      have houtside : (⟨p, (items.flatMap Item.topTokens).reverse, .outside⟩ : Reading).position
          = .outside := rfl
      obtain ⟨d, hd, hclause⟩ := foldlM_push_clause houtside c
      exact ⟨p.define d, hp.define hd, hclause⟩

/-- A text that splits into items is the program that they make up. -/
theorem Program.ofSource_of_splits {source : String} (version : String) {items : List Item}
    (h : Item.Splits source items) :
    ∃ p, ofSource source version = .ok p ∧ p.Describes items version := by
  obtain ⟨p, hp, hread⟩ := Reading.foldlM_push_items version items
  obtain ⟨d, hmake⟩ : ∃ d, Definition.make globalName [] (items.flatMap Item.topTokens) = .ok d :=
    Definition.exists_make h.isStructured
  refine ⟨{ p with functions := p.functions.insert globalName d }, ?_, ?_⟩
  · have hlexemes : ofLexemes (items.flatMap Item.lexemes) version
        = .ok { p with functions := p.functions.insert globalName d } := by
      have hfinish : ofLexemes (items.flatMap Item.lexemes) version = Reading.finish
          { program := p, top := (items.flatMap Item.topTokens).reverse } := by
        unfold ofLexemes
        rw [hread]
        rfl
      rw [hfinish]
      simp only [Reading.finish, List.reverse_reverse, hmake]
      rfl
    unfold ofSource
    rw [h.scan]
    exact hlexemes
  · exact hp.describes (Definition.make_eq_ok_iff.mp hmake)

-- -----------------------------------------------------------------------
-- What is read are items
-- -----------------------------------------------------------------------

namespace Reading

/-- The lexemes go on with the rest of a body, its `end` and items whose top-level
tokens are `top`. -/
def EndsBody (body : List Token) (lexemes : List Lexeme) (top : List Token) : Prop :=
  ∃ (inner : List Lexeme) (items : List Item),
    lexemes = inner ++ .word Keyword.end_.spelling :: items.flatMap Item.lexemes ∧
    Lexeme.word Keyword.fun_.spelling ∉ inner ∧
    (∃ code : Code, code.tokens = body.reverse ++ inner.map Lexeme.token) ∧
    items.flatMap Item.topTokens = top

/-- The lexemes go on with type names and the rest of a definition from `as` on. -/
def EndsParams (lexemes : List Lexeme) (top : List Token) : Prop :=
  ∃ (types : List TypeName) (rest : List Lexeme),
    lexemes = (types.map fun type => .word type.spelling)
      ++ .word Keyword.as_.spelling :: rest ∧
    EndsBody [] rest top

/-- The lexemes go on with the rest of a definition from its name on. -/
def EndsName (lexemes : List Lexeme) (top : List Token) : Prop :=
  ∃ name rest, lexemes = .word name :: rest ∧ nameFault? name = none ∧ EndsParams rest top

/-- The lexemes complete what has been begun at a position, and go on with items
whose top-level tokens are `top`. -/
def Completes : Position → List Lexeme → List Token → Prop
  | .outside, lexemes, top =>
    ∃ items : List Item,
      lexemes = items.flatMap Item.lexemes ∧ items.flatMap Item.topTokens = top
  | .name, lexemes, top => EndsName lexemes top
  | .params _ _, lexemes, top => EndsParams lexemes top
  | .body _ _ _ body, lexemes, top => EndsBody body lexemes top

theorem pushBody_cases {r r' : Reading} {name : String} {params : List Param} {depth : Nat}
    {body : List Token} {token : Token} (h : r.pushBody name params depth body token = .ok r') :
    (token = .keyword .end_ ∧ ∃ d, Definition.make name params.reverse body.reverse = .ok d ∧
      r' = { r with program := r.program.define d, position := .outside }) ∨
    (token ≠ .keyword .fun_ ∧ ∃ depth',
      r' = { r with position := .body name params depth' (token :: body) }) := by
  cases token with
  | keyword k =>
    cases k with
    | end_ =>
      cases depth with
      | zero =>
        simp only [pushBody] at h
        cases hmake : Definition.make name params.reverse body.reverse with
        | error e =>
          rw [hmake] at h
          cases h
        | ok d =>
          rw [hmake] at h
          cases h
          exact .inl ⟨rfl, d, rfl, rfl⟩
      | succ depth =>
        cases h
        exact .inr ⟨nofun, depth, rfl⟩
    | fun_ => cases h
    | _ =>
      cases h
      exact .inr ⟨nofun, _, rfl⟩
  | _ =>
    cases h
    exact .inr ⟨nofun, _, rfl⟩

/-- A definition that ends and items after it are items. -/
theorem EndsName.toItems {lexemes : List Lexeme} {top : List Token} (h : EndsName lexemes top) :
    Completes .outside (.word Keyword.fun_.spelling :: lexemes) top := by
  obtain ⟨name, _, rfl, hname, types, _, rfl, inner, items, rfl, hfun, hcode, rfl⟩ := h
  let c : Clause :=
    { name, types, body := inner, isName := hname, noFun := hfun, isStructured := hcode }
  refine ⟨.clause c :: items, ?_, ?_⟩
  · simp [Item.lexemes, Clause.lexemes, c]
  · simp [Item.topTokens]

/-- Taking in a lexeme leads to a position from which the text can be completed
only if it could be before. -/
theorem push_completes {r r' : Reading} {lexeme : Lexeme} {rest : List Lexeme} {top : List Token}
    (hpush : r.push lexeme = .ok r') (h : Completes r'.position rest top) :
    ∃ top', top'.reverse ++ r.top = top.reverse ++ r'.top ∧
      Completes r.position (lexeme :: rest) top' := by
  unfold push at hpush
  split at hpush
  next hposition =>
    rw [hposition]
    split at hpush
    next hkeyword =>
      cases hpush
      rw [Lexeme.isKeyword_iff.mp hkeyword]
      exact ⟨top, rfl, EndsName.toItems h⟩
    next hkeyword =>
      cases hpush
      change Completes r.position rest top at h
      rw [hposition] at h
      obtain ⟨items, rfl, rfl⟩ := h
      have hfun : lexeme ≠ .word Keyword.fun_.spelling :=
        fun heq => hkeyword (Lexeme.isKeyword_iff.mpr heq)
      exact ⟨_, by simp [Item.topTokens], .single lexeme hfun :: items, rfl, rfl⟩
  next hposition =>
    rw [hposition]
    split at hpush
    next s => cases hpush
    next w =>
      split at hpush
      next fault hfault => cases hpush
      next hname =>
        cases hpush
        exact ⟨top, rfl, w, rest, rfl, hname, h⟩
  next name params hposition =>
    rw [hposition]
    split at hpush
    next hkeyword =>
      cases hpush
      rw [Lexeme.isKeyword_iff.mp hkeyword]
      exact ⟨top, rfl, [], rest, rfl, h⟩
    next hkeyword =>
      split at hpush
      next s => cases hpush
      next w =>
        split at hpush
        next type htype =>
          cases hpush
          obtain ⟨types, rest', rfl, hbody⟩ := h
          rw [TypeName.ofWord?_eq_some_iff.mp htype]
          exact ⟨top, rfl, type :: types, rest', rfl, hbody⟩
        next => cases hpush
  next name params depth body hposition =>
    rw [hposition]
    rcases pushBody_cases hpush with ⟨hend, d, hmake, rfl⟩ | ⟨hfun, depth', rfl⟩
    · obtain ⟨items, rfl, rfl⟩ := h
      rw [Lexeme.token_eq_keyword_iff.mp hend]
      have hcode := (Definition.make_eq_ok_iff.mp hmake).isStructured
      exact ⟨_, rfl, [], items, rfl, List.not_mem_nil, by simpa using hcode, rfl⟩
    · obtain ⟨inner, items, rfl, hinner, hcode, rfl⟩ := h
      refine ⟨_, rfl, lexeme :: inner, items, rfl, ?_, by simpa using hcode, rfl⟩
      rw [List.mem_cons, not_or]
      exact ⟨fun heq => hfun (Lexeme.token_eq_keyword_iff.mpr heq.symm), hinner⟩

theorem foldlM_push_completes {r r' : Reading} {lexemes : List Lexeme}
    (h : lexemes.foldlM push r = .ok r') (hposition : r'.position = .outside) :
    ∃ top, r'.top = top.reverse ++ r.top ∧ Completes r.position lexemes top := by
  induction lexemes generalizing r with
  | nil =>
    cases h
    rw [hposition]
    exact ⟨[], rfl, [], rfl, rfl⟩
  | cons lexeme rest ih =>
    rw [List.foldlM_cons] at h
    cases hpush : r.push lexeme with
    | error e =>
      rw [hpush] at h
      cases h
    | ok between =>
      rw [hpush] at h
      obtain ⟨top, htop, hrest⟩ := ih h
      obtain ⟨top', htop', hall⟩ := push_completes hpush hrest
      exact ⟨top', htop.trans htop'.symm, hall⟩

end Reading

/-- What a program was read from splits into items. -/
theorem Program.splits_of_ofSource {source version : String} {p : Program}
    (h : ofSource source version = .ok p) : ∃ items, Item.Splits source items := by
  unfold ofSource at h
  cases hscan : Lexeme.scan (Lexeme.dropReturns source) with
  | error e =>
    rw [hscan] at h
    cases h
  | ok lexemes =>
    rw [hscan] at h
    change ofLexemes lexemes version = .ok p at h
    unfold ofLexemes at h
    cases hread : lexemes.foldlM Reading.push { program := empty version } with
    | error e =>
      rw [hread] at h
      cases h
    | ok r =>
      rw [hread] at h
      change r.finish = .ok p at h
      unfold Reading.finish at h
      split at h
      next hposition =>
        obtain ⟨top, htop, items, rfl, rfl⟩ := Reading.foldlM_push_completes hread hposition
        cases hmake : Definition.make globalName [] r.top.reverse with
        | error e =>
          rw [hmake] at h
          cases h
        | ok d =>
          have hcode := (Definition.make_eq_ok_iff.mp hmake).isStructured
          rw [htop, List.append_nil, List.reverse_reverse] at hcode
          exact ⟨items, hscan, hcode⟩
      all_goals cases h

/-- The program that a text is read as holds what the items of the text say. -/
theorem Program.describes_of_ofSource {source version : String} {p : Program} {items : List Item}
    (h : ofSource source version = .ok p) (hsplits : Item.Splits source items) :
    p.Describes items version := by
  obtain ⟨p', hp', hdescribes⟩ := ofSource_of_splits version hsplits
  rw [h] at hp'
  cases hp'
  exact hdescribes

/-- A function of a program is `_global`, made from the words outside definitions, or it is
made from the last definition of its name. -/
theorem Program.Describes.origin {p : Program} {items : List Item} {version name : String}
    {d : Definition} (h : p.Describes items version) (hd : p.functions[name]? = some d) :
    (name = globalName ∧ d.Consists name [] (items.flatMap Item.topTokens)) ∨
      (name ≠ globalName ∧
        ∃ c, Item.latest? items name = some c ∧ d.Consists name c.params c.tokens) := by
  by_cases hname : name = globalName
  · subst hname
    obtain ⟨d', hd', hconsists⟩ := h.global
    cases hd.symm.trans hd'
    exact .inl ⟨rfl, hconsists⟩
  · cases hlatest : Item.latest? items name with
    | none =>
      rw [h.noOther name hname hlatest] at hd
      cases hd
    | some c =>
      obtain ⟨d', hd', hconsists⟩ := h.latest name c hlatest
      cases hd.symm.trans hd'
      exact .inr ⟨hname, c, rfl, hconsists⟩

/-- All functions of a program are made from some parts, under their own names. -/
theorem Program.Describes.consists {p : Program} {items : List Item} {version name : String}
    {d : Definition} (h : p.Describes items version) (hd : p.functions[name]? = some d) :
    ∃ params body, d.Consists name params body := by
  rcases h.origin hd with ⟨-, hconsists⟩ | ⟨-, c, -, hconsists⟩
  · exact ⟨_, _, hconsists⟩
  · exact ⟨_, _, hconsists⟩

/-- A source text is a program exactly if it splits into items, and the program
holds what the items say. -/
theorem Program.ofSource_characterization (source version : String) :
    ((∃ p, ofSource source version = .ok p) ↔ ∃ items, Item.Splits source items) ∧
    ∀ p items, ofSource source version = .ok p → Item.Splits source items →
      p.Describes items version := by
  refine ⟨⟨?_, ?_⟩, ?_⟩
  · rintro ⟨p, h⟩
    exact splits_of_ofSource h
  · rintro ⟨items, h⟩
    obtain ⟨p, hp, -⟩ := ofSource_of_splits version h
    exact ⟨p, hp⟩
  · intro p items h hsplits
    exact describes_of_ofSource h hsplits

end Wordstack
