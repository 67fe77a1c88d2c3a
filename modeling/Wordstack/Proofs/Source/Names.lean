-- SUMMARY: Every name that a function may have is an identifier, so every function can be called.
import Wordstack.Proofs.Lexeme
import Wordstack.Proofs.Lexeme.Classify
import Wordstack.Proofs.Machine.Move

/-!
# Names of functions

Names are told by the classes of their characters, tokens by the reserved words and by the
grammar of literals. The two agree: no character of a name is blank or a quote, and the
first one cannot start a literal. So a name is one bare word, which stands for an
identifier (`IsName.ofWord_eq`).
-/

namespace Wordstack

-- -----------------------------------------------------------------------
-- Tables of characters
-- -----------------------------------------------------------------------

namespace Text

variable {c : Char} {runs others : List (Nat × Nat)}

/-- Whether no run of a table meets a run of another. -/
def areApart (runs others : List (Nat × Nat)) : Bool :=
  runs.all fun run => others.all fun other => run.2 < other.1 || other.2 < run.1

theorem inRuns_iff : inRuns runs c = true ↔ ∃ run ∈ runs, run.1 ≤ c.toNat ∧ c.toNat ≤ run.2 := by
  simp [inRuns]

theorem not_inRuns_of_areApart (h : areApart runs others = true) (hc : inRuns runs c = true) :
    inRuns others c = false := by
  rw [← Bool.not_eq_true]
  intro hother
  obtain ⟨run, hrun, hlo, hhi⟩ := inRuns_iff.mp hc
  obtain ⟨other, hother, hlo', hhi'⟩ := inRuns_iff.mp hother
  have hapart := List.all_eq_true.mp (List.all_eq_true.mp h run hrun) other hother
  rw [Bool.or_eq_true, decide_eq_true_eq, decide_eq_true_eq] at hapart
  omega

/-- The runs of blank characters and of quotes, none of which can stand in a bare word. -/
def delimiterRuns : List (Nat × Nat) :=
  [(0x9, 0xd), (0x20, 0x20), (0x22, 0x22), (0x27, 0x27), (0x85, 0x85), (0xa0, 0xa0),
   (0x1680, 0x1680), (0x2000, 0x200a), (0x2028, 0x2029), (0x202f, 0x202f), (0x205f, 0x205f),
   (0x3000, 0x3000)]

theorem inRuns_of_isBlank (h : isBlank c = true) : inRuns delimiterRuns c = true := by
  simp only [isBlank, Bool.or_eq_true, Bool.and_eq_true, decide_eq_true_eq, beq_iff_eq] at h
  simp only [inRuns, delimiterRuns, List.any_cons, List.any_nil, Bool.or_eq_true, Bool.and_eq_true,
    decide_eq_true_eq]
  omega

theorem inRuns_of_isQuote (h : Lexeme.isQuote c = true) : inRuns delimiterRuns c = true := by
  rw [Lexeme.isQuote, Bool.or_eq_true, beq_iff_eq, beq_iff_eq] at h
  rcases h with rfl | rfl <;> decide

/-- Whether a character may stand in a name. -/
def isNamePart (c : Char) : Bool := isLetterOrDigit c || c == '_'

theorem not_delimiter_of_isNamePart (h : isNamePart c = true) : inRuns delimiterRuns c = false := by
  have hletters : areApart alphabeticRuns delimiterRuns = true := by decide +kernel
  have hdigits : areApart numericRuns delimiterRuns = true := by decide +kernel
  rw [isNamePart, isLetterOrDigit, Bool.or_eq_true, Bool.or_eq_true, beq_iff_eq] at h
  rcases h with (h | h) | rfl
  · exact not_inRuns_of_areApart hletters h
  · exact not_inRuns_of_areApart hdigits h
  · decide

theorem not_isBlank_of_isNamePart (h : isNamePart c = true) : isBlank c = false := by
  rw [← Bool.not_eq_true]
  intro hblank
  exact Bool.false_ne_true ((not_delimiter_of_isNamePart h).symm.trans (inRuns_of_isBlank hblank))

theorem not_isQuote_of_isNamePart (h : isNamePart c = true) : Lexeme.isQuote c = false := by
  rw [← Bool.not_eq_true]
  intro hquote
  exact Bool.false_ne_true ((not_delimiter_of_isNamePart h).symm.trans (inRuns_of_isQuote hquote))

/-- The runs of the characters that a literal can start with. -/
def literalRuns : List (Nat × Nat) := [(0x2b, 0x2b), (0x2d, 0x2e), (0x30, 0x39)]

theorem inRuns_of_literal {cs : List Char} (h : c :: cs ∈ Decimal.literal.matches') :
    inRuns literalRuns c = true := by
  have hall : (['+', '-', '.'] ++ ['0', '1', '2', '3', '4', '5', '6', '7', '8', '9']).all
      (inRuns literalRuns) = true := by decide
  refine List.all_eq_true.mp hall c (List.mem_append.mpr ?_)
  rw [← Decimal.isDigit_iff]
  exact Decimal.head_of_literal h

/-- Neither a letter nor an underscore can start a literal. -/
theorem not_literal_of_isLetter (h : isLetter c = true ∨ c = '_') (cs : List Char) :
    c :: cs ∉ Decimal.literal.matches' := by
  have hletters : areApart alphabeticRuns literalRuns = true := by decide +kernel
  intro hliteral
  have hstart := inRuns_of_literal hliteral
  rcases h with h | rfl
  · exact Bool.false_ne_true ((not_inRuns_of_areApart hletters h).symm.trans hstart)
  · revert hstart
    decide

end Text

-- -----------------------------------------------------------------------
-- Names
-- -----------------------------------------------------------------------

/-- What makes a word a name: it is free, and letters, digits and underscores follow a letter
or an underscore. -/
structure IsName (word : String) : Prop where
  notGlobal : word ≠ globalName
  notReserved : ¬ IsReservedWord word
  starts : ∃ c cs, word.toList = c :: cs ∧ (Text.isLetter c = true ∨ c = '_')
  isNamePart : ∀ c ∈ word.toList, Text.isNamePart c = true

variable {word : String}

theorem Text.isNamePart_of_isLetter {c : Char} (h : isLetter c = true ∨ c = '_') :
    isNamePart c = true := by
  rcases h with h | rfl
  · rw [isNamePart, isLetterOrDigit, h]
    rfl
  · rw [isNamePart, beq_self_eq_true, Bool.or_true]

theorem nameFault?_eq_none_iff : nameFault? word = none ↔ IsName word := by
  unfold nameFault?
  constructor
  · intro h
    split at h
    next => cases h
    next hglobal =>
      split at h
      next => cases h
      next hreserved =>
        split at h
        next => cases h
        next c cs hcs =>
          split at h
          next => cases h
          next hfirst =>
            split at h
            next => cases h
            next hother =>
              simp only [Bool.not_eq_true, Bool.not_eq_false', Bool.or_eq_true, beq_iff_eq]
                at hfirst hother
              refine ⟨hglobal, ?_, ⟨c, cs, hcs, hfirst⟩, ?_⟩
              · rwa [← isReserved_iff]
              · rw [hcs, List.forall_mem_cons]
                exact ⟨Text.isNamePart_of_isLetter hfirst, List.all_eq_true.mp hother⟩
  · rintro ⟨hglobal, hreserved, ⟨c, cs, hcs, hfirst⟩, hparts⟩
    have hstart : (Text.isLetter c || c == '_') = true := by simpa using hfirst
    have hall : cs.all (fun c => Text.isLetterOrDigit c || c == '_') = true :=
      List.all_eq_true.mpr fun d hd => hparts d (by simp [hcs, hd])
    rw [if_neg hglobal, if_neg (mt isReserved_iff.mp hreserved), hcs]
    simp [hstart, hall]

namespace IsName

theorem isWord (h : IsName word) : Text.IsWord word.toList := by
  obtain ⟨c, cs, hcs, -⟩ := h.starts
  refine ⟨by simp [hcs], fun c hc => Text.not_isBlank_of_isNamePart (h.isNamePart c hc)⟩

theorem scan_eq (h : IsName word) : Lexeme.scan word = .ok [.word word] := by
  obtain ⟨c, cs, hcs, -⟩ := h.starts
  have hquote : Lexeme.isQuote c = false :=
    Text.not_isQuote_of_isNamePart (h.isNamePart c (by simp [hcs]))
  have hpush : Lexeme.Scan.push {} word.toList = { found := [.word word] } := by
    simp only [Lexeme.Scan.push, hcs, hquote]
    rw [← hcs, String.ofList_toList]
    rfl
  rw [Lexeme.scan, h.isWord.splitWords_eq, List.foldl_cons, hpush]
  rfl

theorem dropReturns_eq (h : IsName word) : Lexeme.dropReturns word = word := by
  have hkeep : word.toList.filter (· != '\r') = word.toList := by
    rw [List.filter_eq_self]
    intro c hc
    rw [bne_iff_ne]
    rintro rfl
    exact absurd (h.isWord.2 _ hc) (by decide)
  rw [Lexeme.dropReturns, hkeep, String.ofList_toList]

theorem number?_eq_none (h : IsName word) : Token.number? word = none := by
  obtain ⟨c, cs, hcs, hfirst⟩ := h.starts
  rw [← Option.not_isSome_iff_eq_none, Token.isSome_number?_iff, hcs]
  exact Text.not_literal_of_isLetter hfirst cs

theorem ofWord_eq (h : IsName word) : Token.ofWord word = .ident word := by
  rw [Token.ofWord_of_not_reserved h.notReserved, h.number?_eq_none]

end IsName

-- -----------------------------------------------------------------------
-- Bodies as they are written
-- -----------------------------------------------------------------------

namespace Item

/-- The lexemes of the item that stand outside definitions. -/
def topLexemes : Item → List Lexeme
  | .single lexeme _ => [lexeme]
  | .clause _ => []

theorem map_topLexemes (item : Item) : item.topLexemes.map Lexeme.token = item.topTokens := by
  cases item <;> rfl

/-- The lexemes of the body of a function: those outside definitions for `_global`, and
those of the last definition for any other name. -/
def bodyOf (items : List Item) (function : String) : List Lexeme :=
  if function = globalName then items.flatMap topLexemes
  else ((latest? items function).map Clause.body).getD []

end Item

namespace Program

variable {p : Program} {items : List Item} {version name function : String} {d : Definition}

/-- The body of a function holds the tokens of its lexemes. -/
theorem Describes.body_eq (h : p.Describes items version) (hd : p.functions[name]? = some d) :
    d.body = ((Item.bodyOf items name).map Lexeme.token).toArray := by
  rcases h.origin hd with ⟨hname, hconsists⟩ | ⟨hname, c, hlatest, hconsists⟩
  · rw [hconsists.body_eq, Item.bodyOf, if_pos hname, List.map_flatMap]
    simp only [Item.map_topLexemes]
  · rw [hconsists.body_eq, Item.bodyOf, if_neg hname, hlatest]
    rfl

/-- The names under which functions are registered stand for identifiers. -/
theorem Describes.ofWord_eq (h : p.Describes items version) (hd : p.functions[name]? = some d) :
    Token.ofWord name = .ident name := by
  rcases h.origin hd with ⟨rfl, -⟩ | ⟨-, c, hlatest, -⟩
  · rfl
  · have hname := nameFault?_eq_none_iff.mp c.isName
    rw [Item.name_of_latest? hlatest] at hname
    exact hname.ofWord_eq

/-- Wherever the bare word of a registered name is written in a body, the body has the
identifier. -/
theorem Describes.body_of_word (h : p.Describes items version) (hd : p.functions[name]? = some d)
    {caller : Definition} (hcaller : p.functions[function]? = some caller) {offset : Nat}
    (hword : (Item.bodyOf items function)[offset]? = some (.word name)) :
    caller.body[offset]? = some (.ident name) := by
  rw [h.body_eq hcaller, List.getElem?_toArray, List.getElem?_map, hword, Option.map_some,
    Lexeme.token, h.ofWord_eq hd]

/-- What is defined anywhere is registered. -/
theorem Describes.exists_of_clause (h : p.Describes items version) {c : Clause}
    (hc : Item.clause c ∈ items) : ∃ d, p.functions[c.name]? = some d := by
  have hdefined : (Item.latest? items c.name).isSome = true := by
    rw [Item.latest?, List.findSome?_isSome_iff]
    exact ⟨_, List.mem_reverse.mpr hc, by simp [Item.defines?]⟩
  obtain ⟨c', hlatest⟩ := Option.isSome_iff_exists.mp hdefined
  obtain ⟨d, hd, -⟩ := h.latest _ c' hlatest
  exact ⟨d, hd⟩

/-- A text is not a program if a definition in it is given a faulty name. -/
theorem ofSource_of_nameFault {source : String} {after : List Lexeme} {fault : NameFault}
    (hscan : Lexeme.scan (Lexeme.dropReturns source) =
      .ok (items.flatMap Item.lexemes ++ .word Keyword.fun_.spelling :: .word word :: after))
    (hfault : nameFault? word = some fault) (version : String) :
    ofSource source version = .error (.invalidFunctionName word fault) := by
  obtain ⟨p, -, hread⟩ := Reading.foldlM_push_items version items
  have hall : (items.flatMap Item.lexemes ++ .word Keyword.fun_.spelling :: .word word
      :: after).foldlM Reading.push { program := .empty version } =
      .error (.invalidFunctionName word fault) := by
    have hfun : Reading.push { program := p, top := (items.flatMap Item.topTokens).reverse }
          (.word Keyword.fun_.spelling) =
        .ok { program := p, top := (items.flatMap Item.topTokens).reverse, position := .name } :=
      rfl
    rw [Reading.foldlM_push_append hread, Reading.foldlM_push_cons hfun, List.foldlM_cons]
    simp only [Reading.push, hfault]
    rfl
  unfold ofSource
  rw [hscan]
  change ofLexemes _ version = _
  unfold ofLexemes
  rw [hall]
  rfl

end Program

/-- The innermost frame stands at an offset of a function that it has to run. -/
def Machine.IsAt {σ : Type} (m : Machine σ) (d : Definition) (offset : Nat) : Prop :=
  ∃ f, m.frames.back? = some f ∧ f.func = d ∧ f.pc = offset ∧ offset < f.stop

/-- At an identifier of a registered name the function is called. -/
theorem Machine.IsAt.step_of_registered {σ : Type} {ctx : Context σ} {m : Machine σ}
    {caller d : Definition} {offset : Nat} {name : String} (h : m.IsAt caller offset)
    (hident : caller.body[offset]? = some (.ident name))
    (hd : ctx.program.functions[name]? = some d) :
    m.step ctx = (m.modify (m.frames.size - 1) ({ · with pc := offset + 1 })).call ctx d
      (m.frames.size - 1) := by
  obtain ⟨f, hback, rfl, rfl, hstop⟩ := h
  have hnext : f.next? = some (.ident name) := by rw [Frame.next?, if_pos hstop, hident]
  simp only [step, hback, hnext, execute, resolve, hd]

theorem nameFault?_of_not_ident (h : word = globalName ∨ ∀ name, Token.ofWord word ≠ .ident name) :
    ∃ fault, nameFault? word = some fault := by
  cases hfault : nameFault? word with
  | some fault => exact ⟨fault, rfl⟩
  | none =>
    have hname := nameFault?_eq_none_iff.mp hfault
    rcases h with hglobal | hident
    · exact absurd hglobal hname.notGlobal
    · exact absurd hname.ofWord_eq (hident word)

/-- Every word that may be a name is read as one bare word, which stands for an identifier.
So in every program, wherever the name of a function is written as a bare word in a body,
there is an identifier that calls the function. The name of the top level, and all words that
stand for anything but an identifier, are refused as names. -/
theorem Program.names_are_callable :
    (∀ word : String, nameFault? word = none → Lexeme.dropReturns word = word ∧
      Lexeme.scan word = .ok [.word word] ∧ Token.ofWord word = .ident word) ∧
    (∀ (source version : String) (p : Program) (items : List Item),
      ofSource source version = .ok p → Item.Splits source items →
      (∀ c, .clause c ∈ items → ∃ d, p.functions[c.name]? = some d) ∧
      ∀ (name function : String) (d caller : Definition) (offset : Nat),
        p.functions[name]? = some d → p.functions[function]? = some caller →
        (Item.bodyOf items function)[offset]? = some (.word name) →
        d.name = name ∧ caller.body[offset]? = some (.ident name) ∧
        ∀ (σ : Type) (ctx : Context σ) (m : Machine σ), ctx.program = p → m.IsAt caller offset →
          m.step ctx = (m.modify (m.frames.size - 1) ({ · with pc := offset + 1 })).call ctx d
            (m.frames.size - 1)) ∧
    (∀ word : String, (word = globalName ∨ ∀ name, Token.ofWord word ≠ .ident name) →
      ∃ fault, nameFault? word = some fault ∧
        ∀ (source version : String) (items : List Item) (after : List Lexeme),
          Lexeme.scan (Lexeme.dropReturns source) = .ok (items.flatMap Item.lexemes ++
            .word Keyword.fun_.spelling :: .word word :: after) →
          ofSource source version = .error (.invalidFunctionName word fault)) := by
  refine ⟨?_, ?_, ?_⟩
  · intro word hfault
    have hname := nameFault?_eq_none_iff.mp hfault
    exact ⟨hname.dropReturns_eq, hname.scan_eq, hname.ofWord_eq⟩
  · intro source version p items hp hsplits
    have hdescribes := describes_of_ofSource hp hsplits
    refine ⟨fun c hc => hdescribes.exists_of_clause hc, ?_⟩
    intro name function d caller offset hd hcaller hword
    obtain ⟨_, _, hconsists⟩ := hdescribes.consists hd
    have hident := hdescribes.body_of_word hd hcaller hword
    refine ⟨hconsists.name_eq, hident, ?_⟩
    rintro σ ctx m rfl hat
    exact hat.step_of_registered hident hd
  · intro word hword
    obtain ⟨fault, hfault⟩ := nameFault?_of_not_ident hword
    exact ⟨fault, hfault, fun source version items after hscan =>
      ofSource_of_nameFault hscan hfault version⟩

/-- `E10` is made of characters of literals only, but it can be defined and called. `1e5`
cannot be defined. -/
theorem Program.names_are_callable_of_power :
    Token.ofWord "E10" = .ident "E10" ∧
    (∃ p d caller, ofSource "fun E10 as end E10" defaultVersion = .ok p ∧
      p.functions["E10"]? = some d ∧ p.functions[globalName]? = some caller ∧
      caller.body[0]? = some (.ident "E10") ∧
      ∀ (ctx : Context String) (m : Machine String), ctx.program = p → m.IsAt caller 0 →
        m.step ctx = (m.modify (m.frames.size - 1) ({ · with pc := 1 })).call ctx d
          (m.frames.size - 1)) ∧
    ∃ fault, ofSource "fun 1e5 as end" defaultVersion =
      .error (.invalidFunctionName "1e5" fault) := by
  obtain ⟨hnames, hcalls, hrefused⟩ := Program.names_are_callable
  have hname : nameFault? "E10" = none := by decide +kernel
  refine ⟨(hnames "E10" hname).2.2, ?_, ?_⟩
  · let c : Clause :=
      { name := "E10", types := [], body := [], isName := hname, noFun := List.not_mem_nil
        isStructured := ⟨.done, rfl⟩ }
    let items : List Item := [.clause c, .single (.word "E10") (by decide)]
    have hsplits : Item.Splits "fun E10 as end E10" items := by
      have hscan : Lexeme.scan (Lexeme.dropReturns "fun E10 as end E10") =
          .ok [.word "fun", .word "E10", .word "as", .word "end", .word "E10"] := by
        decide +kernel
      refine ⟨hscan, .plain (.ident "E10") rfl .done, ?_⟩
      simp only [items, List.flatMap_cons, Item.topTokens, Lexeme.token, (hnames "E10" hname).2.2]
      rfl
    obtain ⟨p, hp, hdescribes⟩ := ofSource_of_splits defaultVersion hsplits
    obtain ⟨hdefined, hat⟩ := hcalls _ _ p items hp hsplits
    obtain ⟨d, hd⟩ := hdefined c List.mem_cons_self
    obtain ⟨caller, hcaller, -⟩ := hdescribes.global
    obtain ⟨-, hident, hstep⟩ := hat "E10" globalName d caller 0 hd hcaller rfl
    exact ⟨p, d, caller, hp, hd, hcaller, hident, fun ctx m => hstep String ctx m⟩
  · have hnumber : ∀ name, Token.ofWord "1e5" ≠ .ident name := by
      have hsome : (Token.number? "1e5").isSome = true := by decide +kernel
      obtain ⟨v, hv⟩ := Option.isSome_iff_exists.mp hsome
      rw [Token.ofWord_of_number? hv]
      rintro name ⟨⟩
    obtain ⟨fault, -, hsource⟩ := hrefused "1e5" (.inr hnumber)
    exact ⟨fault, hsource _ _ [] [.word "as", .word "end"] (by decide +kernel)⟩

end Wordstack
