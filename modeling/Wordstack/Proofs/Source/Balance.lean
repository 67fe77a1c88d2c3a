-- SUMMARY: Where the body of a definition ends, and why its blocks are balanced there.
import Wordstack.Proofs.Code.Unfinished
import Wordstack.Proofs.Source

/-!
# The end of a definition

A counter finds the `end` of a definition among its lexemes, and a stack of open blocks
matches the keywords of the body that has been collected up to there. The counter is the
height of the stack, so the body is balanced: the stack can still refuse a keyword in it,
but never for an `end` too many or too few.
-/

namespace Wordstack

/-- Whether a token opens a block that an `end` closes. -/
def Token.opensBlock : Token → Bool
  | .keyword k => k.opensBlock
  | _ => false

/-- No start of the tokens holds more `end`s than words that open a block. -/
def StaysOpen (tokens : List Token) : Prop :=
  ∀ before, before <+: tokens →
    before.count (.keyword .end_) ≤ before.countP Token.opensBlock

/-- The tokens hold as many `end`s as words that open a block, and no start of them holds
more. -/
structure Balanced (tokens : List Token) : Prop where
  sameCount : tokens.count (.keyword .end_) = tokens.countP Token.opensBlock
  staysOpen : StaysOpen tokens

-- -----------------------------------------------------------------------
-- Depth and counts
-- -----------------------------------------------------------------------

namespace Reading

theorem scanDepth_append {depth : Nat} {tokens rest : List Token} :
    scanDepth depth (tokens ++ rest)
      = (scanDepth depth tokens).bind fun depth => scanDepth depth rest := by
  induction tokens generalizing depth with
  | nil => rfl
  | cons token tokens ih =>
    have hfirst : scanDepth depth (token :: tokens) = _ := scanDepth_cons
    rw [List.cons_append, scanDepth_cons, hfirst, Option.bind_assoc]
    simp only [ih]

theorem scanDepth_single {depth depth' : Nat} {token : Token}
    (h : scanDepth depth [token] = some depth') :
    depth + [token].countP Token.opensBlock = depth' + [token].count (.keyword .end_) := by
  cases token with
  | keyword k =>
    cases k with
    | end_ =>
      cases depth with
      | zero => cases h
      | succ depth =>
        cases h
        rfl
    | _ =>
      cases h
      rfl
  | _ =>
    cases h
    rfl

/-- The depth rises with each word that opens a block and falls with each `end`. -/
theorem scanDepth_counts {depth depth' : Nat} {tokens : List Token}
    (h : scanDepth depth tokens = some depth') :
    depth + tokens.countP Token.opensBlock = depth' + tokens.count (.keyword .end_) := by
  induction tokens generalizing depth with
  | nil =>
    cases h
    rfl
  | cons token rest ih =>
    rw [scanDepth_cons] at h
    obtain ⟨between, hfirst, hrest⟩ := Option.bind_eq_some_iff.mp h
    have hone := scanDepth_single hfirst
    have hmore := ih hrest
    rw [← List.singleton_append, List.countP_append, List.count_append]
    omega

theorem staysOpen_of_scanDepth {depth : Nat} {tokens : List Token}
    (h : scanDepth 0 tokens = some depth) : StaysOpen tokens := by
  rintro before ⟨after, rfl⟩
  rw [scanDepth_append] at h
  obtain ⟨between, hbefore, -⟩ := Option.bind_eq_some_iff.mp h
  have hcounts := scanDepth_counts hbefore
  omega

theorem balanced_of_scanDepth {tokens : List Token} (h : scanDepth 0 tokens = some 0) :
    Balanced tokens where
  sameCount := by
    have hcounts := scanDepth_counts h
    omega
  staysOpen := staysOpen_of_scanDepth h

end Reading

-- -----------------------------------------------------------------------
-- Depth and open blocks
-- -----------------------------------------------------------------------

namespace JumpTable

open Reading (scanDepth scanDepth_append scanDepth_cons)

variable {pos : Nat} {opened opened' : List OpenBlock} {tokens : List Token}

theorem Takes.scanDepth {token : Token} (h : Takes pos opened token opened') :
    scanDepth opened.length [token] = some opened'.length := by
  cases h with
  | plain h => exact Reading.scanDepth_plain h
  | conditional word => exact Reading.scanDepth_conditional
  | _ => rfl

/-- The depth is the number of open blocks. -/
theorem Passes.scanDepth (h : Passes pos opened tokens opened') :
    scanDepth opened.length tokens = some opened'.length := by
  induction h with
  | nil => rfl
  | cons hfirst _ ih =>
    rw [scanDepth_cons, hfirst.scanDepth]
    exact ih

/-- A balanced body is indexed, unless an `else`, a `do` or the want of a `do` prevents
it. -/
theorem ofBody_of_scanDepth (function : String) (h : Reading.scanDepth 0 tokens = some 0) :
    (∃ jumps, ofBody function tokens = .ok jumps) ∨
    ∃ k, (k = .else_ ∨ k = .do_ ∨ k = .while_) ∧
      ofBody function tokens = .error (.unexpectedKeyword function k) := by
  rcases passes_or_refuses 0 [] tokens with
    ⟨opened, hpasses⟩ | ⟨before, token, after, k, opened, rfl, hpasses, hrefuses⟩
  · have hdepth := hpasses.scanDepth
    rw [List.length_nil, h] at hdepth
    obtain rfl : opened = [] := List.eq_nil_of_length_eq_zero (Option.some.inj hdepth).symm
    exact .inl hpasses.exists_jumps
  · refine .inr ⟨k, ?_, ofBody_of_refuses hpasses hrefuses⟩
    cases hrefuses with
    | else_ h => exact .inl rfl
    | do_ h => exact .inr (.inl rfl)
    | while_ => exact .inr (.inr rfl)
    | end_ =>
      -- The counter would have ended the definition at this `end`.
      have hdepth := hpasses.scanDepth
      rw [List.length_nil] at hdepth
      rw [scanDepth_append, hdepth] at h
      cases h

end JumpTable

-- -----------------------------------------------------------------------
-- How a definition goes on after its header
-- -----------------------------------------------------------------------

namespace Reading

theorem eq_end_of_scanDepth_eq_none {depth : Nat} {token : Token}
    (h : scanDepth depth [token] = none) : depth = 0 ∧ token = .keyword .end_ := by
  cases token with
  | keyword k =>
    cases k with
    | end_ =>
      cases depth with
      | zero => exact ⟨rfl, rfl⟩
      | succ depth => cases h
    | _ => cases h
  | _ => cases h

/-- The lexemes after a header reach a `fun`, or run out, or reach the `end` that closes
the definition. -/
theorem scanDepth_cases (depth : Nat) (rest : List Lexeme) :
    (∃ inner after depth', rest = inner ++ .word Keyword.fun_.spelling :: after ∧
      .word Keyword.fun_.spelling ∉ inner ∧
      scanDepth depth (inner.map Lexeme.token) = some depth') ∨
    (.word Keyword.fun_.spelling ∉ rest ∧
      ∃ depth', scanDepth depth (rest.map Lexeme.token) = some depth') ∨
    ∃ inner after, rest = inner ++ .word Keyword.end_.spelling :: after ∧
      .word Keyword.fun_.spelling ∉ inner ∧
      scanDepth depth (inner.map Lexeme.token) = some 0 := by
  induction rest generalizing depth with
  | nil => exact .inr (.inl ⟨List.not_mem_nil, depth, rfl⟩)
  | cons lexeme rest ih =>
    by_cases hfun : lexeme = .word Keyword.fun_.spelling
    · subst hfun
      exact .inl ⟨[], rest, depth, rfl, List.not_mem_nil, rfl⟩
    · cases hdepth : scanDepth depth [lexeme.token] with
      | none =>
        obtain ⟨rfl, hend⟩ := eq_end_of_scanDepth_eq_none hdepth
        rw [Lexeme.token_eq_keyword_iff.mp hend]
        exact .inr (.inr ⟨[], rest, rfl, List.not_mem_nil, rfl⟩)
      | some between =>
        have hcons : ∀ {inner : List Lexeme},
            .word Keyword.fun_.spelling ∉ inner → .word Keyword.fun_.spelling ∉ lexeme :: inner :=
          fun hinner hmem => (List.mem_cons.mp hmem).elim (fun h => hfun h.symm) hinner
        have hscan : ∀ {inner : List Lexeme}, scanDepth depth ((lexeme :: inner).map Lexeme.token)
            = scanDepth between (inner.map Lexeme.token) := by
          intro inner
          rw [List.map_cons, scanDepth_cons, hdepth]
          rfl
        rcases ih between with ⟨inner, after, depth', rfl, hinner, hrest⟩ |
          ⟨hinner, depth', hrest⟩ | ⟨inner, after, rfl, hinner, hrest⟩
        · exact .inl ⟨lexeme :: inner, after, depth', rfl, hcons hinner, hscan.trans hrest⟩
        · exact .inr (.inl ⟨hcons hinner, depth', hscan.trans hrest⟩)
        · exact .inr (.inr ⟨lexeme :: inner, after, rfl, hcons hinner, hscan.trans hrest⟩)

variable {r : Reading} {name : String}

theorem push_nested {params : List Param} {depth : Nat} {body : List Token} :
    push { r with position := .body name params depth body } (.word Keyword.fun_.spelling)
      = .error (.nestedFunction name) := by
  cases depth <;> rfl

/-- How a definition ends. Its body goes on to a `fun`, which is refused; or the lexemes
run out, and an `end` is missing; or the body ends at the first `end` that no block inside
it takes. Such a body is balanced, so that it can be refused for an `else`, a `do` or a
`while` only. -/
theorem definition_ends_balanced (hposition : r.position = .outside)
    (hname : nameFault? name = none) (types : List TypeName) (rest : List Lexeme) :
    (∃ inner after, rest = inner ++ .word Keyword.fun_.spelling :: after ∧
      .word Keyword.fun_.spelling ∉ inner ∧ StaysOpen (inner.map Lexeme.token) ∧
      (Clause.header name types ++ rest).foldlM push r = .error (.nestedFunction name)) ∨
    (.word Keyword.fun_.spelling ∉ rest ∧ StaysOpen (rest.map Lexeme.token) ∧
      (Clause.header name types ++ rest).foldlM push r >>= finish
        = .error (.missingEnd name)) ∨
    ∃ inner after, rest = inner ++ .word Keyword.end_.spelling :: after ∧
      .word Keyword.fun_.spelling ∉ inner ∧ Balanced (inner.map Lexeme.token) ∧
      ((∃ jumps, JumpTable.ofBody name (inner.map Lexeme.token) = .ok jumps ∧
          (Clause.header name types ++ rest).foldlM push r = after.foldlM push
            { r with
              program := r.program.define
                { name, params := types.map Param.ofType,
                  body := (inner.map Lexeme.token).toArray, jumps } }) ∨
        ∃ k, (k = .else_ ∨ k = .do_ ∨ k = .while_) ∧
          JumpTable.ofBody name (inner.map Lexeme.token) = .error (.unexpectedKeyword name k) ∧
          (Clause.header name types ++ rest).foldlM push r
            = .error (.unexpectedKeyword name k)) := by
  rcases scanDepth_cases 0 rest with ⟨inner, after, depth, rfl, hfun, hdepth⟩ |
    ⟨hfun, depth, hdepth⟩ | ⟨inner, after, rfl, hfun, hdepth⟩
  · refine .inl ⟨inner, after, rfl, hfun, staysOpen_of_scanDepth hdepth, ?_⟩
    rw [foldlM_push_inside hposition hname hfun hdepth, List.foldlM_cons, push_nested]
    rfl
  · refine .inr (.inl ⟨hfun, staysOpen_of_scanDepth hdepth, ?_⟩)
    have hread := foldlM_push_inside hposition hname hfun hdepth types []
    rw [List.append_nil] at hread
    rw [hread]
    rfl
  · refine .inr (.inr ⟨inner, after, rfl, hfun, balanced_of_scanDepth hdepth, ?_⟩)
    rw [foldlM_push_inside hposition hname hfun hdepth, List.foldlM_cons, push_end hposition]
    rcases JumpTable.ofBody_of_scanDepth name hdepth with ⟨jumps, hok⟩ | ⟨k, hk, herror⟩
    · exact .inl ⟨jumps, hok, by rw [Definition.make, hok]; rfl⟩
    · exact .inr ⟨k, hk, herror, by rw [Definition.make, herror]; rfl⟩

/-- The first `end` of this definition belongs to the conditional inside it. -/
theorem definition_ends_balanced_of_conditional :
    nameFault? "f" = none ∧
    ∃ jumps, JumpTable.ofBody "f" [.keyword .if_, .keyword .end_] = .ok jumps ∧
      (Clause.header "f" [.int] ++ [Lexeme.word "if", .word "end", .word "end"]).foldlM push
          { program := .empty defaultVersion }
        = .ok
          { program := (Program.empty defaultVersion).define
              { name := "f", params := [.ofType .int], body := #[.keyword .if_, .keyword .end_],
                jumps } } := by
  have hname : nameFault? "f" = none := by decide +kernel
  have houtside : Reading.position { program := .empty defaultVersion } = .outside := rfl
  refine ⟨hname, ?_⟩
  rcases definition_ends_balanced houtside hname [.int] [.word "if", .word "end", .word "end"] with
    ⟨inner, after, hrest, -⟩ | ⟨-, hopen, -⟩ | ⟨inner, after, hrest, -, hbalanced, hends⟩
  · have hfun : Lexeme.word Keyword.fun_.spelling ∈ inner ++ .word Keyword.fun_.spelling :: after :=
      by simp
    rw [← hrest] at hfun
    exact absurd hfun (by decide)
  · exact absurd (hopen _ (List.prefix_refl _)) (by decide)
  · -- Of the two places before an `end`, only the second leaves a balanced body.
    rcases inner with _ | ⟨first, _ | ⟨second, _ | ⟨third, inner⟩⟩⟩
    · simp [Keyword.spelling] at hrest
    · cases hrest
      exact absurd hbalanced.sameCount (by decide)
    · cases hrest
      rcases hends with ⟨jumps, hok, hread⟩ | ⟨k, -, herror, -⟩
      · exact ⟨jumps, hok, hread⟩
      · cases herror
    · simp at hrest

end Reading

end Wordstack
