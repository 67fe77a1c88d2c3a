-- SUMMARY: With `if` for every `iff` a program keeps its blocks, and it is what is read if the word is replaced.
import Wordstack.Proofs.Lexeme.Classify

/-!
# Two words for a condition

`iff` is another word for `if`. Putting the one for the other throughout a body changes none
of its jumps (`JumpTable.ofBody_withIf`), and doing so in a text changes the bodies of its
program and nothing else (`Program.ofLexemes_withIf`).
-/

namespace Wordstack

-- -----------------------------------------------------------------------
-- One word for both
-- -----------------------------------------------------------------------

/-- The keyword, or `if` in place of `iff`. -/
def Keyword.withIf : Keyword → Keyword
  | .iff => .if_
  | k => k

def Token.withIf : Token → Token
  | .keyword k => .keyword k.withIf
  | token => token

/-- The function with `if` for every `iff`, and the jumps it had. -/
def Definition.withIf (d : Definition) : Definition := { d with body := d.body.map Token.withIf }

/-- The program with `if` for every `iff` in its functions. -/
def Program.withIf (p : Program) : Program :=
  { p with functions := p.functions.map fun _ d => d.withIf }

def Lexeme.withIf : Lexeme → Lexeme
  | .word w => .word (if w = "iff" then "if" else w)
  | .quoted s => .quoted s

-- -----------------------------------------------------------------------
-- Blocks
-- -----------------------------------------------------------------------

namespace JumpTable

theorem indexFrom_withIf (function : String) (jumps : JumpTable) (opened : List OpenBlock)
    (pos : Nat) (body : List Token) :
    indexFrom function jumps opened pos (body.map Token.withIf) =
      indexFrom function jumps opened pos body := by
  induction body generalizing jumps opened pos with
  | nil => rfl
  | cons token body ih =>
    cases token with
    | keyword k =>
      cases k with
      | else_ =>
        simp only [List.map_cons, Token.withIf, Keyword.withIf, indexFrom]
        cases setMiddle? false pos opened with
        | none => rfl
        | some opened => exact ih ..
      | do_ =>
        simp only [List.map_cons, Token.withIf, Keyword.withIf, indexFrom]
        cases setMiddle? true pos opened with
        | none => rfl
        | some opened => exact ih ..
      | end_ =>
        simp only [List.map_cons, Token.withIf, Keyword.withIf, indexFrom]
        cases opened with
        | nil => rfl
        | cons block outer =>
          simp only
          cases close? jumps block pos with
          | none => rfl
          | some jumps => exact ih ..
      | _ => exact ih ..
    | _ => exact ih ..

/-- The blocks of a body do not depend on which of the two words starts them, nor does what
is wrong with them. -/
theorem ofBody_withIf (function : String) (body : List Token) :
    ofBody function (body.map Token.withIf) = ofBody function body :=
  indexFrom_withIf function ∅ [] 0 body

end JumpTable

theorem Definition.make_withIf (name : String) (params : List Param) (body : List Token) :
    make name params (body.map Token.withIf) = (make name params body).map withIf := by
  simp only [make, JumpTable.ofBody_withIf]
  cases JumpTable.ofBody name body with
  | error e => rfl
  | ok jumps =>
    change (Except.ok { name, params, body := (body.map Token.withIf).toArray, jumps } :
        Except Error Definition)
      = .ok (withIf { name, params, body := body.toArray, jumps })
    simp only [withIf, List.map_toArray]

-- -----------------------------------------------------------------------
-- Functions
-- -----------------------------------------------------------------------

namespace Program

theorem functions_withIf (p : Program) (name : String) :
    p.withIf.functions[name]? = p.functions[name]?.map Definition.withIf :=
  Std.ExtTreeMap.getElem?_map

theorem contains_withIf (p : Program) (name : String) :
    p.withIf.functions.contains name = p.functions.contains name :=
  Std.ExtTreeMap.contains_map

theorem map_insert_withIf (functions : Std.ExtTreeMap String Definition) (name : String)
    (d : Definition) :
    (functions.insert name d).map (fun _ d => d.withIf) =
      (functions.map fun _ d => d.withIf).insert name d.withIf := by
  apply Std.ExtTreeMap.ext_getElem?
  intro other
  simp only [Std.ExtTreeMap.getElem?_map, Std.ExtTreeMap.getElem?_insert]
  split <;> rfl

theorem define_withIf (p : Program) (d : Definition) :
    (p.define d).withIf = p.withIf.define d.withIf := by
  simp only [define, withIf, map_insert_withIf]
  rfl

theorem empty_withIf (version : String) : (empty version).withIf = empty version := by
  have hempty : (Std.ExtTreeMap.empty : Std.ExtTreeMap String Definition).map
      (fun _ d => d.withIf) = .empty := by
    apply Std.ExtTreeMap.ext_getElem?
    intro name
    rw [Std.ExtTreeMap.getElem?_map]
    rfl
  have hglobal (d : Definition) (hbody : d.body = #[]) : d.withIf = d := by
    obtain ⟨name, params, body, jumps⟩ := d
    cases hbody
    simp [Definition.withIf]
  simp only [empty, withIf, map_insert_withIf, hempty]
  rw [hglobal _ rfl]

end Program

-- -----------------------------------------------------------------------
-- Reading
-- -----------------------------------------------------------------------

namespace Lexeme

theorem token_withIf (lexeme : Lexeme) : lexeme.withIf.token = lexeme.token.withIf := by
  cases lexeme with
  | quoted s => rfl
  | word w =>
    by_cases hw : w = "iff"
    · subst hw
      rfl
    · simp only [withIf, if_neg hw, token]
      have hstands := Token.stands_ofWord w
      generalize Token.ofWord w = token at hstands ⊢
      cases hstands with
      | keyword k hk =>
        cases k with
        | iff => exact absurd hk hw
        | _ => rfl
      | _ => rfl

theorem isKeyword_withIf {k : Keyword} (hif : k ≠ .if_) (hiff : k ≠ .iff) (lexeme : Lexeme) :
    lexeme.withIf.isKeyword k = lexeme.isKeyword k := by
  cases lexeme with
  | quoted s => rfl
  | word w =>
    by_cases hw : w = "iff"
    · subst hw
      cases k with
      | if_ => exact absurd rfl hif
      | iff => exact absurd rfl hiff
      | _ => rfl
    · simp only [withIf, if_neg hw]

/-- Only the word `iff` is replaced. -/
theorem withIf_word {w : String} (h : w ≠ "iff") : (word w).withIf = word w := by
  simp only [withIf, if_neg h]

end Lexeme

def Position.withIf : Position → Position
  | .body function types depth tokens => .body function types depth (tokens.map Token.withIf)
  | position => position

namespace Reading

/-- What has been read if `if` stands for every `iff`. -/
def withIf (r : Reading) : Reading where
  program := r.program.withIf
  top := r.top.map Token.withIf
  position := r.position.withIf

variable {r r' : Reading}

theorem pushBody_withIf (r : Reading) (name : String) (params : List Param) (depth : Nat)
    (body : List Token) (token : Token) :
    r.withIf.pushBody name params depth (body.map Token.withIf) token.withIf =
      (r.pushBody name params depth body token).map withIf := by
  cases token with
  | keyword k =>
    cases k with
    | end_ =>
      cases depth with
      | zero =>
        have hmake := Definition.make_withIf name params.reverse body.reverse
        rw [List.map_reverse] at hmake
        simp only [pushBody, Token.withIf, Keyword.withIf, hmake]
        cases Definition.make name params.reverse body.reverse with
        | error e => rfl
        | ok d =>
          simp only [Except.map, bind, Except.bind, pure, Except.pure, withIf,
            Program.define_withIf, Position.withIf]
      | succ depth => rfl
    | _ => rfl
  | _ => rfl

/-- A lexeme that can be taken in leads to the same place with `if` for `iff`: where the word
could stand for something else, it is refused. -/
theorem push_withIf {lexeme : Lexeme} (h : r.push lexeme = .ok r') :
    r.withIf.push lexeme.withIf = .ok r'.withIf := by
  obtain ⟨program, top, position⟩ := r
  cases position with
  | outside =>
    have hkeyword : lexeme.withIf.isKeyword .fun_ = lexeme.isKeyword .fun_ :=
      lexeme.isKeyword_withIf (by decide) (by decide)
    simp only [push, withIf, Position.withIf, hkeyword, lexeme.token_withIf] at h ⊢
    split at h
    next hfun =>
      cases h
      rw [if_pos hfun]
      rfl
    next hfun =>
      cases h
      rw [if_neg hfun]
      rfl
  | name =>
    cases lexeme with
    | quoted s => cases h
    | word w =>
      simp only [push] at h
      cases hfault : nameFault? w with
      | some fault =>
        rw [hfault] at h
        cases h
      | none =>
        rw [hfault] at h
        cases h
        have hw : w ≠ "iff" := by
          rintro rfl
          cases hfault
        rw [Lexeme.withIf_word hw]
        simp only [push, withIf, Position.withIf, hfault]
        rfl
  | params name params =>
    have hkeyword : lexeme.withIf.isKeyword .as_ = lexeme.isKeyword .as_ :=
      lexeme.isKeyword_withIf (by decide) (by decide)
    simp only [push, withIf, Position.withIf, hkeyword] at h ⊢
    split at h
    next has =>
      cases h
      rw [if_pos has]
      rfl
    next has =>
      rw [if_neg has]
      cases lexeme with
      | quoted s => cases h
      | word w =>
        simp only at h
        cases htype : TypeName.ofWord? w with
        | none =>
          rw [htype] at h
          cases h
        | some type =>
          rw [htype] at h
          cases h
          have hw : w ≠ "iff" := by
            rintro rfl
            cases htype
          rw [Lexeme.withIf_word hw]
          simp only [htype]
          rfl
  | body name params depth body =>
    have hpush := pushBody_withIf ⟨program, top, .body name params depth body⟩ name params depth
      body lexeme.token
    rw [show pushBody _ name params depth body lexeme.token = .ok r' from h,
      ← lexeme.token_withIf] at hpush
    exact hpush

theorem finish_withIf {p : Program} (h : r.finish = .ok p) : r.withIf.finish = .ok p.withIf := by
  obtain ⟨program, top, position⟩ := r
  cases position with
  | outside =>
    have hmake := Definition.make_withIf globalName [] top.reverse
    rw [List.map_reverse] at hmake
    simp only [finish, withIf, Position.withIf, hmake] at h ⊢
    cases hd : Definition.make globalName [] top.reverse with
    | error e =>
      rw [hd] at h
      cases h
    | ok d =>
      rw [hd] at h
      cases h
      simp only [Program.withIf, Program.map_insert_withIf]
      rfl
  | _ => cases h

theorem foldlM_push_withIf {lexemes : List Lexeme} (h : lexemes.foldlM push r = .ok r') :
    (lexemes.map Lexeme.withIf).foldlM push r.withIf = .ok r'.withIf := by
  induction lexemes generalizing r with
  | nil =>
    cases h
    rfl
  | cons lexeme lexemes ih =>
    simp only [List.foldlM_cons, List.map_cons] at h ⊢
    cases hpush : r.push lexeme with
    | error e =>
      rw [hpush] at h
      cases h
    | ok next =>
      rw [hpush] at h
      rw [push_withIf hpush]
      exact ih h

end Reading

namespace Program

/-- The program of a text with `if` for `iff` has `if` for `iff` in its functions. -/
theorem ofLexemes_withIf {lexemes : List Lexeme} {version : String} {p : Program}
    (h : ofLexemes lexemes version = .ok p) :
    ofLexemes (lexemes.map Lexeme.withIf) version = .ok p.withIf := by
  unfold ofLexemes at h ⊢
  cases hread : lexemes.foldlM Reading.push { program := empty version } with
  | error e =>
    rw [hread] at h
    cases h
  | ok r =>
    rw [hread] at h
    have hread' := Reading.foldlM_push_withIf hread
    rw [Reading.withIf, empty_withIf] at hread'
    rw [show List.foldlM Reading.push { program := empty version } _ = _ from hread']
    exact Reading.finish_withIf h

end Program

end Wordstack
