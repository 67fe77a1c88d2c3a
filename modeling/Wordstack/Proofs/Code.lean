-- SUMMARY: Structured code: the nested blocks of a body, the tokens they are written as, and reading them back.
import Wordstack.Jump

/-!
# Structured code

A body is a flat list of tokens. Its block structure is a derivation of the
grammar

    Body ::= (plain | (if | iff) Body [else Body] end | while Body do Body end)*

and `Code` is the type of these derivations. `Code.tokens` writes one down and
`Code.ofTokens?` finds it again, so a body has at most one block structure.
-/

namespace Wordstack

/-- Whether a token has no part in the block structure. -/
def Token.isPlain : Token → Bool
  | .keyword .fun_ | .keyword .as_ => true
  | .keyword _ => false
  | _ => true

/-- The two words that open a conditional. -/
inductive Conditional where
  | if_ | iff
deriving DecidableEq, Repr

def Conditional.keyword : Conditional → Keyword
  | .if_ => .if_
  | .iff => .iff

/-- A sequence of plain tokens and blocks, as a derivation of the grammar of
bodies. -/
inductive Code where
  | done
  | plain (token : Token) (isPlain : token.isPlain = true) (rest : Code)
  | ifThen (word : Conditional) (yes rest : Code)
  | ifElse (word : Conditional) (yes no rest : Code)
  | loop (test body rest : Code)

namespace Code

/-- The tokens that the code is written as. -/
def tokens : Code → List Token
  | .done => []
  | .plain token _ rest => token :: rest.tokens
  | .ifThen word yes rest =>
    .keyword word.keyword :: (yes.tokens ++ .keyword .end_ :: rest.tokens)
  | .ifElse word yes no rest =>
    .keyword word.keyword ::
      (yes.tokens ++ .keyword .else_ :: (no.tokens ++ .keyword .end_ :: rest.tokens))
  | .loop test body rest =>
    .keyword .while_ ::
      (test.tokens ++ .keyword .do_ :: (body.tokens ++ .keyword .end_ :: rest.tokens))

/-- How many tokens the code is written as. -/
def size (code : Code) : Nat := code.tokens.length

@[simp] theorem size_done : Code.done.size = 0 := rfl

@[simp] theorem size_plain {token : Token} {h : token.isPlain = true} {rest : Code} :
    (plain token h rest).size = rest.size + 1 := rfl

@[simp] theorem size_ifThen {word : Conditional} {yes rest : Code} :
    (ifThen word yes rest).size = yes.size + rest.size + 2 := by
  simp only [size, tokens, List.length_cons, List.length_append]
  omega

@[simp] theorem size_ifElse {word : Conditional} {yes no rest : Code} :
    (ifElse word yes no rest).size = yes.size + no.size + rest.size + 3 := by
  simp only [size, tokens, List.length_cons, List.length_append]
  omega

@[simp] theorem size_loop {test body rest : Code} :
    (loop test body rest).size = test.size + body.size + rest.size + 3 := by
  simp only [size, tokens, List.length_cons, List.length_append]
  omega

/-- One code after another. -/
def append : Code → Code → Code
  | .done, last => last
  | .plain token h rest, last => .plain token h (rest.append last)
  | .ifThen word yes rest, last => .ifThen word yes (rest.append last)
  | .ifElse word yes no rest, last => .ifElse word yes no (rest.append last)
  | .loop test body rest, last => .loop test body (rest.append last)

@[simp] theorem append_done (code : Code) : code.append .done = code := by
  induction code with
  | done => rfl
  | plain token h rest ih => simp [append, ih]
  | ifThen word yes rest _ ih => simp [append, ih]
  | ifElse word yes no rest _ _ ih => simp [append, ih]
  | loop test body rest _ _ ih => simp [append, ih]

@[simp] theorem tokens_append (code last : Code) :
    (code.append last).tokens = code.tokens ++ last.tokens := by
  induction code with
  | done => rfl
  | plain token h rest ih => simp [append, tokens, ih]
  | ifThen word yes rest _ ih => simp [append, tokens, ih]
  | ifElse word yes no rest _ _ ih => simp [append, tokens, ih]
  | loop test body rest _ _ ih => simp [append, tokens, ih]

-- -----------------------------------------------------------------------
-- Reading code back from its tokens
-- -----------------------------------------------------------------------

/-- The part of a block that stands to the right of a place inside it, with the
code after the block. -/
inductive Closing where
  /-- Only the `end`. -/
  | atEnd (rest : Code)
  /-- The `else` and its side. -/
  | atElse (no rest : Code)
  /-- The `do` and the body of the loop. -/
  | atDo (body rest : Code)

def Closing.tokens : Closing → List Token
  | .atEnd rest => .keyword .end_ :: rest.tokens
  | .atElse no rest => .keyword .else_ :: (no.tokens ++ .keyword .end_ :: rest.tokens)
  | .atDo body rest => .keyword .do_ :: (body.tokens ++ .keyword .end_ :: rest.tokens)

/-- Puts a token in front of code inside blocks that are known from their right
ends, the innermost first. -/
def readToken (token : Token) (state : Code × List Closing) : Option (Code × List Closing) :=
  match token, state with
  | .keyword .end_, (code, outer) => some (.done, .atEnd code :: outer)
  | .keyword .else_, (code, .atEnd rest :: outer) => some (.done, .atElse code rest :: outer)
  | .keyword .do_, (code, .atEnd rest :: outer) => some (.done, .atDo code rest :: outer)
  | .keyword .if_, (code, .atEnd rest :: outer) => some (.ifThen .if_ code rest, outer)
  | .keyword .if_, (code, .atElse no rest :: outer) => some (.ifElse .if_ code no rest, outer)
  | .keyword .iff, (code, .atEnd rest :: outer) => some (.ifThen .iff code rest, outer)
  | .keyword .iff, (code, .atElse no rest :: outer) => some (.ifElse .iff code no rest, outer)
  | .keyword .while_, (code, .atDo body rest :: outer) => some (.loop code body rest, outer)
  | token, (code, outer) =>
    if h : token.isPlain = true then some (.plain token h code, outer) else none

/-- Reads a list of tokens that need not open all of the blocks that it closes. -/
def readTokens : List Token → Option (Code × List Closing)
  | [] => some (.done, [])
  | token :: rest => (readTokens rest).bind (readToken token)

/-- The code that is written as these tokens. -/
def ofTokens? (tokens : List Token) : Option Code :=
  match readTokens tokens with
  | some (code, []) => some code
  | _ => none

theorem readToken_plain {token : Token} (h : token.isPlain = true)
    (state : Code × List Closing) :
    readToken token state = some (.plain token h state.1, state.2) := by
  unfold readToken
  split
  case h_9 => exact dif_pos h
  all_goals nomatch h

theorem readTokens_append {tokens : List Token} {last : Code} {outer : List Closing}
    (code : Code) (h : readTokens tokens = some (last, outer)) :
    readTokens (code.tokens ++ tokens) = some (code.append last, outer) := by
  induction code generalizing tokens last outer with
  | done => simpa [Code.tokens, append] using h
  | plain token hplain rest ih =>
    simp [Code.tokens, append, readTokens, ih h, readToken_plain hplain]
  | ifThen word yes rest ihYes ih =>
    have hrest := ih h
    have hend : readTokens (.keyword .end_ :: (rest.tokens ++ tokens))
        = some (.done, .atEnd (rest.append last) :: outer) := by
      simp [readTokens, hrest, readToken]
    have hyes := ihYes hend
    cases word <;> simp_all [Code.tokens, append, readTokens, readToken, Conditional.keyword]
  | ifElse word yes no rest ihYes ihNo ih =>
    have hrest := ih h
    have hend : readTokens (.keyword .end_ :: (rest.tokens ++ tokens))
        = some (.done, .atEnd (rest.append last) :: outer) := by
      simp [readTokens, hrest, readToken]
    have hno := ihNo hend
    have helse : readTokens
          (.keyword .else_ :: (no.tokens ++ .keyword .end_ :: (rest.tokens ++ tokens)))
        = some (.done, .atElse no (rest.append last) :: outer) := by
      simp [readTokens, hno, readToken]
    have hyes := ihYes helse
    cases word <;> simp_all [Code.tokens, append, readTokens, readToken, Conditional.keyword]
  | loop test body rest ihTest ihBody ih =>
    have hrest := ih h
    have hend : readTokens (.keyword .end_ :: (rest.tokens ++ tokens))
        = some (.done, .atEnd (rest.append last) :: outer) := by
      simp [readTokens, hrest, readToken]
    have hbody := ihBody hend
    have hdo : readTokens
          (.keyword .do_ :: (body.tokens ++ .keyword .end_ :: (rest.tokens ++ tokens)))
        = some (.done, .atDo body (rest.append last) :: outer) := by
      simp [readTokens, hbody, readToken]
    have htest := ihTest hdo
    simp_all [Code.tokens, append, readTokens, readToken]

theorem readToken_tokens {token : Token} {state state' : Code × List Closing}
    (h : readToken token state = some state') :
    state'.1.tokens ++ state'.2.flatMap Closing.tokens
      = token :: (state.1.tokens ++ state.2.flatMap Closing.tokens) := by
  unfold readToken at h
  split at h
  all_goals try
    cases h
    simp [Code.tokens, Closing.tokens, Conditional.keyword]
  split at h
  · cases h
    simp [Code.tokens]
  · cases h

theorem readTokens_tokens {tokens : List Token} {code : Code} {outer : List Closing}
    (h : readTokens tokens = some (code, outer)) :
    code.tokens ++ outer.flatMap Closing.tokens = tokens := by
  induction tokens generalizing code outer with
  | nil =>
    cases h
    rfl
  | cons token rest ih =>
    obtain ⟨⟨code', outer'⟩, hrest, htoken⟩ := Option.bind_eq_some_iff.mp h
    rw [readToken_tokens htoken, ih hrest]

theorem ofTokens?_eq_some_iff {tokens : List Token} {code : Code} :
    ofTokens? tokens = some code ↔ code.tokens = tokens := by
  constructor
  · intro h
    unfold ofTokens? at h
    split at h
    next code' hread =>
      cases h
      simpa using readTokens_tokens hread
    next => cases h
  · rintro rfl
    have hnil : readTokens [] = some (.done, []) := rfl
    have hread : readTokens code.tokens = some (code, []) := by
      simpa using readTokens_append code hnil
    simp [ofTokens?, hread]

end Code

end Wordstack
