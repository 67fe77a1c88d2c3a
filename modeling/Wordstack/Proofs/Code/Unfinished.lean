-- SUMMARY: Which starts of a body can be completed, and where indexing stops on those that cannot.
import Mathlib.Order.Bounds.Defs
import Wordstack.Proofs.Code.Partners

/-!
# Unfinished bodies

Indexing fails on a body for one of two reasons. Either blocks are still open at its
end, and then more tokens complete it; or a token is refused, and then no tokens can.

`Takes` and `Refuses` say what one token does to the open blocks. `Opens` ties these to
the tokens that have been read: the open blocks, from the outermost to the innermost, are
the ones that have begun between pieces of structured code.
-/

namespace Wordstack

namespace JumpTable

-- -----------------------------------------------------------------------
-- One token
-- -----------------------------------------------------------------------

/-- The open blocks before and after a token at an offset. -/
inductive Takes (pos : Nat) : List OpenBlock → Token → List OpenBlock → Prop where
  | plain {opened : List OpenBlock} {token : Token} (h : token.isPlain = true) :
      Takes pos opened token opened
  | conditional {opened : List OpenBlock} (word : Conditional) :
      Takes pos opened (.keyword word.keyword) ({ isLoop := false, start := pos } :: opened)
  | while_ {opened : List OpenBlock} :
      Takes pos opened (.keyword .while_) ({ isLoop := true, start := pos } :: opened)
  | else_ {start : Nat} {outer : List OpenBlock} :
      Takes pos ({ isLoop := false, start } :: outer) (.keyword .else_)
        ({ isLoop := false, start, middle := some pos } :: outer)
  | do_ {start : Nat} {outer : List OpenBlock} :
      Takes pos ({ isLoop := true, start } :: outer) (.keyword .do_)
        ({ isLoop := true, start, middle := some pos } :: outer)
  | end_ {block : OpenBlock} {outer : List OpenBlock}
      (h : block.isLoop = true → block.middle.isSome = true) :
      Takes pos (block :: outer) (.keyword .end_) outer

/-- The keyword that is reported for a token that does not fit the open blocks. -/
inductive Refuses : List OpenBlock → Token → Keyword → Prop where
  | else_ {opened : List OpenBlock}
      (h : ∀ start outer, opened ≠ { isLoop := false, start } :: outer) :
      Refuses opened (.keyword .else_) .else_
  | do_ {opened : List OpenBlock}
      (h : ∀ start outer, opened ≠ { isLoop := true, start } :: outer) :
      Refuses opened (.keyword .do_) .do_
  | end_ : Refuses [] (.keyword .end_) .end_
  | while_ {start : Nat} {outer : List OpenBlock} :
      Refuses ({ isLoop := true, start } :: outer) (.keyword .end_) .while_

section

variable {pos : Nat} {token : Token} {k : Keyword} {opened opened' : List OpenBlock}

theorem takes_or_refuses (pos : Nat) (opened : List OpenBlock) (token : Token) :
    (∃ opened', Takes pos opened token opened') ∨ ∃ k, Refuses opened token k := by
  cases token with
  | keyword k =>
    cases k with
    | if_ => exact .inl ⟨_, .conditional .if_⟩
    | iff => exact .inl ⟨_, .conditional .iff⟩
    | while_ => exact .inl ⟨_, .while_⟩
    | else_ =>
      by_cases h : ∃ start outer, opened = { isLoop := false, start } :: outer
      · obtain ⟨start, outer, rfl⟩ := h
        exact .inl ⟨_, .else_⟩
      · exact .inr ⟨_, .else_ fun start outer heq => h ⟨start, outer, heq⟩⟩
    | do_ =>
      by_cases h : ∃ start outer, opened = { isLoop := true, start } :: outer
      · obtain ⟨start, outer, rfl⟩ := h
        exact .inl ⟨_, .do_⟩
      · exact .inr ⟨_, .do_ fun start outer heq => h ⟨start, outer, heq⟩⟩
    | end_ =>
      cases opened with
      | nil => exact .inr ⟨_, .end_⟩
      | cons block outer =>
        obtain ⟨isLoop, start, middle⟩ := block
        cases isLoop with
        | false => exact .inl ⟨_, .end_ (by simp)⟩
        | true =>
          cases middle with
          | none => exact .inr ⟨_, .while_⟩
          | some doAt => exact .inl ⟨_, .end_ (by simp)⟩
    | fun_ => exact .inl ⟨_, .plain rfl⟩
    | as_ => exact .inl ⟨_, .plain rfl⟩
  | _ => exact .inl ⟨_, .plain rfl⟩

/-- Indexing goes past a token that the open blocks take. -/
theorem Takes.indexFrom (h : Takes pos opened token opened') (function : String)
    (jumps : JumpTable) : ∃ jumps', ∀ rest, indexFrom function jumps opened pos (token :: rest)
      = JumpTable.indexFrom function jumps' opened' (pos + 1) rest := by
  cases h with
  | plain h => exact ⟨jumps, fun rest => indexFrom_plain h⟩
  | conditional word => exact ⟨jumps, fun rest => indexFrom_conditional⟩
  | while_ => exact ⟨jumps, fun rest => rfl⟩
  | else_ => exact ⟨jumps, fun rest => rfl⟩
  | do_ => exact ⟨jumps, fun rest => rfl⟩
  | @end_ block outer h =>
    obtain ⟨isLoop, start, middle⟩ := block
    cases isLoop with
    | false => exact ⟨_, fun rest => rfl⟩
    | true =>
      obtain ⟨doAt, rfl⟩ := Option.isSome_iff_exists.mp (h rfl)
      exact ⟨_, fun rest => rfl⟩

theorem setMiddle?_eq_none {isLoop : Bool}
    (h : ∀ start outer, opened ≠ { isLoop, start } :: outer) :
    setMiddle? isLoop pos opened = none := by
  cases opened with
  | nil => rfl
  | cons block outer =>
    refine if_neg ?_
    rintro ⟨rfl, hmiddle⟩
    exact h block.start outer (by rw [← hmiddle])

/-- Indexing stops at a token that the open blocks refuse. -/
theorem Refuses.indexFrom (h : Refuses opened token k) (function : String) (jumps : JumpTable)
    (rest : List Token) : indexFrom function jumps opened pos (token :: rest)
      = .error (.unexpectedKeyword function k) := by
  cases h with
  | else_ h => simp only [JumpTable.indexFrom, setMiddle?_eq_none h]
  | do_ h => simp only [JumpTable.indexFrom, setMiddle?_eq_none h]
  | end_ => rfl
  | while_ => rfl

end

-- -----------------------------------------------------------------------
-- Many tokens
-- -----------------------------------------------------------------------

/-- The open blocks before and after tokens at an offset. -/
inductive Passes : Nat → List OpenBlock → List Token → List OpenBlock → Prop where
  | nil {pos : Nat} {opened : List OpenBlock} : Passes pos opened [] opened
  | cons {pos : Nat} {opened between opened' : List OpenBlock} {token : Token}
      {rest : List Token} (hfirst : Takes pos opened token between)
      (hrest : Passes (pos + 1) between rest opened') : Passes pos opened (token :: rest) opened'

theorem Passes.append {pos : Nat} {opened between opened' : List OpenBlock}
    {tokens more : List Token} (h : Passes pos opened tokens between)
    (hmore : Passes (pos + tokens.length) between more opened') :
    Passes pos opened (tokens ++ more) opened' := by
  induction h with
  | nil => exact hmore
  | cons hfirst _ ih =>
    rw [List.length_cons, Nat.add_comm _ 1, ← Nat.add_assoc] at hmore
    exact .cons hfirst (ih hmore)

/-- The open blocks take all of the tokens, or refuse one of them. -/
theorem passes_or_refuses (pos : Nat) (opened : List OpenBlock) (tokens : List Token) :
    (∃ opened', Passes pos opened tokens opened') ∨
    ∃ before token after k opened', tokens = before ++ token :: after ∧
      Passes pos opened before opened' ∧ Refuses opened' token k := by
  induction tokens generalizing pos opened with
  | nil => exact .inl ⟨opened, .nil⟩
  | cons token rest ih =>
    rcases takes_or_refuses pos opened token with ⟨between, hfirst⟩ | ⟨k, hrefuses⟩
    · rcases ih (pos + 1) between with
        ⟨opened', hrest⟩ | ⟨before, token', after, k, opened', rfl, hbefore, hrefuses⟩
      · exact .inl ⟨opened', .cons hfirst hrest⟩
      · exact .inr ⟨token :: before, token', after, k, opened', rfl, .cons hfirst hbefore,
          hrefuses⟩
    · exact .inr ⟨[], token, rest, k, opened, rfl, .nil, hrefuses⟩

theorem Passes.indexFrom {pos : Nat} {opened opened' : List OpenBlock} {tokens : List Token}
    (h : Passes pos opened tokens opened') (function : String) (jumps : JumpTable) :
    ∃ jumps', ∀ rest, indexFrom function jumps opened pos (tokens ++ rest)
      = JumpTable.indexFrom function jumps' opened' (pos + tokens.length) rest := by
  induction h generalizing jumps with
  | nil => exact ⟨jumps, fun rest => rfl⟩
  | cons hfirst _ ih =>
    obtain ⟨jumps₁, hone⟩ := hfirst.indexFrom function jumps
    obtain ⟨jumps₂, hmore⟩ := ih jumps₁
    refine ⟨jumps₂, fun rest => ?_⟩
    rw [List.cons_append, hone, hmore, List.length_cons, Nat.add_assoc, Nat.add_comm 1]

-- -----------------------------------------------------------------------
-- What has been read
-- -----------------------------------------------------------------------

/-- The tokens are structured code up to the blocks that are open at their end. -/
inductive Opens : List Token → List OpenBlock → Prop where
  | outside (code : Code) : Opens code.tokens []
  | yes {read : List Token} {outer : List OpenBlock} (h : Opens read outer) (word : Conditional)
      (yes : Code) :
      Opens (read ++ .keyword word.keyword :: yes.tokens)
        ({ isLoop := false, start := read.length } :: outer)
  | no {read : List Token} {outer : List OpenBlock} (h : Opens read outer) (word : Conditional)
      (yes no : Code) :
      Opens (read ++ .keyword word.keyword :: (yes.tokens ++ .keyword .else_ :: no.tokens))
        ({ isLoop := false, start := read.length, middle := some (read.length + 1 + yes.size) }
          :: outer)
  | test {read : List Token} {outer : List OpenBlock} (h : Opens read outer) (test : Code) :
      Opens (read ++ .keyword .while_ :: test.tokens)
        ({ isLoop := true, start := read.length } :: outer)
  | body {read : List Token} {outer : List OpenBlock} (h : Opens read outer) (test body : Code) :
      Opens (read ++ .keyword .while_ :: (test.tokens ++ .keyword .do_ :: body.tokens))
        ({ isLoop := true, start := read.length, middle := some (read.length + 1 + test.size) }
          :: outer)

/-- Structured code leaves the open blocks as they are. -/
theorem Opens.append {read : List Token} {opened : List OpenBlock} (h : Opens read opened)
    (code : Code) : Opens (read ++ code.tokens) opened := by
  cases h with
  | outside first =>
    rw [← Code.tokens_append]
    exact .outside _
  | yes h word yes =>
    rw [List.append_assoc, List.cons_append, ← Code.tokens_append]
    exact .yes h word _
  | no h word yes no =>
    rw [List.append_assoc, List.cons_append, List.append_assoc, List.cons_append,
      ← Code.tokens_append]
    exact .no h word yes _
  | test h test =>
    rw [List.append_assoc, List.cons_append, ← Code.tokens_append]
    exact .test h _
  | body h test body =>
    rw [List.append_assoc, List.cons_append, List.append_assoc, List.cons_append,
      ← Code.tokens_append]
    exact .body h test _

/-- A token that closes a block makes it a part of the code around it. -/
theorem Opens.takes {read : List Token} {opened opened' : List OpenBlock} {token : Token}
    (h : Opens read opened) (htakes : Takes read.length opened token opened') :
    Opens (read ++ [token]) opened' := by
  cases htakes with
  | plain hplain => exact h.append (.plain token hplain .done)
  | conditional word => exact .yes h word .done
  | while_ => exact .test h .done
  | else_ =>
    cases h with
    | yes h word yes =>
      have hopens := Opens.no h word yes .done
      simpa [Code.tokens, Code.size, Nat.add_assoc, Nat.add_comm 1] using hopens
  | do_ =>
    cases h with
    | test h test =>
      have hopens := Opens.body h test .done
      simpa [Code.tokens, Code.size, Nat.add_assoc, Nat.add_comm 1] using hopens
  | end_ hmiddle =>
    cases h with
    | yes h word yes => simpa [Code.tokens] using h.append (.ifThen word yes .done)
    | no h word yes no => simpa [Code.tokens] using h.append (.ifElse word yes no .done)
    | test h test => cases hmiddle rfl
    | body h test body => simpa [Code.tokens] using h.append (.loop test body .done)

theorem Opens.passes {read tokens : List Token} {opened opened' : List OpenBlock}
    (h : Opens read opened) (hpasses : Passes read.length opened tokens opened') :
    Opens (read ++ tokens) opened' := by
  generalize hpos : read.length = pos at hpasses
  induction hpasses generalizing read with
  | nil => rwa [List.append_nil]
  | @cons pos opened between opened' token rest hfirst _ ih =>
    subst hpos
    rw [← List.singleton_append, ← List.append_assoc]
    exact ih (h.takes hfirst) (by simp)

-- -----------------------------------------------------------------------
-- Completing a body
-- -----------------------------------------------------------------------

/-- Some tokens after these make up a body that has a jump table. -/
def Completable (function : String) (tokens : List Token) : Prop :=
  ∃ more jumps, ofBody function (tokens ++ more) = .ok jumps

section

variable {function : String} {tokens before after : List Token} {token : Token} {k : Keyword}
  {opened : List OpenBlock}

theorem Completable.left (h : Completable function (before ++ after)) :
    Completable function before := by
  obtain ⟨more, jumps, hok⟩ := h
  exact ⟨after ++ more, jumps, by rwa [← List.append_assoc]⟩

/-- All open blocks can be closed, after a `do` where a loop has none yet. -/
theorem exists_passes_nil (pos : Nat) (opened : List OpenBlock) :
    ∃ more, Passes pos opened more [] := by
  induction opened generalizing pos with
  | nil => exact ⟨[], .nil⟩
  | cons block outer ih =>
    obtain ⟨isLoop, start, middle⟩ := block
    by_cases hdo : isLoop = true ∧ middle = none
    · obtain ⟨rfl, rfl⟩ := hdo
      obtain ⟨more, hmore⟩ := ih (pos + 1 + 1)
      exact ⟨_, .cons .do_ (.cons (.end_ fun _ => rfl) hmore)⟩
    · obtain ⟨more, hmore⟩ := ih (pos + 1)
      refine ⟨_, .cons (.end_ fun hloop => ?_) hmore⟩
      exact Option.isSome_iff_ne_none.mpr fun hnone => hdo ⟨hloop, hnone⟩

/-- Tokens at the end of which no block is open have a jump table. -/
theorem Passes.exists_jumps (h : Passes 0 [] tokens []) :
    ∃ jumps, ofBody function tokens = .ok jumps := by
  obtain ⟨jumps, hindex⟩ := h.indexFrom function ∅
  refine ⟨jumps, ?_⟩
  rw [← List.append_nil tokens]
  exact hindex []

theorem Passes.completable (h : Passes 0 [] tokens opened) : Completable function tokens := by
  obtain ⟨more, hmore⟩ := exists_passes_nil (0 + tokens.length) opened
  exact ⟨more, (h.append hmore).exists_jumps⟩

/-- Where the open blocks take all tokens, only an `end` can be missing. -/
theorem Passes.missingEnd {e : Error} (h : Passes 0 [] tokens opened)
    (herror : ofBody function tokens = .error e) : e = .missingEnd function := by
  obtain ⟨jumps, hindex⟩ := h.indexFrom function ∅
  have hend := hindex []
  rw [List.append_nil] at hend
  change ofBody function tokens = _ at hend
  rw [herror, JumpTable.indexFrom] at hend
  split at hend
  · cases hend
  · cases hend
    rfl

/-- What follows a token that is refused does not matter. -/
theorem ofBody_of_refuses (h : Passes 0 [] before opened) (hrefuses : Refuses opened token k) :
    ofBody function (before ++ token :: after) = .error (.unexpectedKeyword function k) := by
  obtain ⟨jumps, hindex⟩ := h.indexFrom function ∅
  exact (hindex (token :: after)).trans (hrefuses.indexFrom function jumps after)

theorem not_completable_of_refuses (h : Passes 0 [] before opened)
    (hrefuses : Refuses opened token k) : ¬ Completable function (before ++ token :: after) := by
  rintro ⟨more, jumps, hok⟩
  rw [List.append_assoc, List.cons_append, ofBody_of_refuses h hrefuses] at hok
  cases hok

/-- A body can be completed up to the first token that is refused. -/
theorem isLeast_of_refuses (h : Passes 0 [] before opened) (hrefuses : Refuses opened token k) :
    IsLeast { p | Completable function ((before ++ token :: after).take p) ∧
      ¬ Completable function ((before ++ token :: after).take (p + 1)) } before.length := by
  refine ⟨⟨?_, ?_⟩, ?_⟩
  · rw [List.take_left]
    exact h.completable
  · rw [List.take_append, List.take_of_length_le (by omega), Nat.add_sub_cancel_left]
    exact not_completable_of_refuses h hrefuses
  · rintro q ⟨-, hq⟩
    refine Nat.le_of_not_lt fun hlt => hq ?_
    have hbefore : Completable function (before.take (q + 1) ++ before.drop (q + 1)) := by
      rw [List.take_append_drop]
      exact h.completable
    rw [List.take_append_of_le_length hlt]
    exact hbefore.left

/-- A refused token is the keyword that is reported, or the `end` of a loop that has no
`do`. -/
theorem Refuses.cases (h : Refuses opened token k) (hopens : Opens before opened) :
    (k ≠ .while_ ∧ token = .keyword k) ∨
    (k = .while_ ∧ token = .keyword .end_ ∧
      ∃ (read : List Token) (test : Code), before = read ++ .keyword .while_ :: test.tokens) := by
  cases h with
  | else_ h => exact .inl ⟨by simp, rfl⟩
  | do_ h => exact .inl ⟨by simp, rfl⟩
  | end_ => exact .inl ⟨by simp, rfl⟩
  | while_ =>
    cases hopens with
    | test h test => exact .inr ⟨rfl, rfl, _, test, rfl⟩

end

/-- Why indexing fails. An `end` is missing exactly if more tokens complete the body, and
a keyword is unexpected exactly if none do. In the second case there is a first offset up
to which the body can be completed and past which it cannot. The keyword that is reported
stands there; but a `while` is reported at the `end` that closes it, for want of a `do`. -/
theorem ofBody_error_classified {function : String} {body : List Token} {e : Error}
    (h : ofBody function body = .error e) :
    (e = .missingEnd function ↔ Completable function body) ∧
    ((∃ k, e = .unexpectedKeyword function k) ↔ ¬ Completable function body) ∧
    ∀ k, e = .unexpectedKeyword function k → ∃ pos,
      IsLeast { p | Completable function (body.take p) ∧
        ¬ Completable function (body.take (p + 1)) } pos ∧
      (k ≠ .while_ → body[pos]? = some (.keyword k)) ∧
      (k = .while_ → body[pos]? = some (.keyword .end_) ∧
        ∃ start : Nat, body[start]? = some (.keyword .while_) ∧
          Partners.after body start = some { elses := [], dos := [], endAt := pos }) := by
  rcases passes_or_refuses 0 [] body with
    ⟨opened, hpasses⟩ | ⟨before, token, after, k, opened, rfl, hpasses, hrefuses⟩
  · obtain rfl := hpasses.missingEnd h
    have hcompletable : Completable function body := hpasses.completable
    simp [hcompletable]
  · rw [ofBody_of_refuses hpasses hrefuses] at h
    obtain rfl := Except.error.inj h
    have hnot : ¬ Completable function (before ++ token :: after) :=
      not_completable_of_refuses hpasses hrefuses
    refine ⟨by simp [hnot], by simp [hnot], ?_⟩
    rintro k ⟨rfl⟩
    refine ⟨before.length, isLeast_of_refuses hpasses hrefuses, ?_⟩
    have htoken : (before ++ token :: after)[before.length]? = some token := by simp
    have hopens : Opens before opened := (Opens.outside .done).passes hpasses
    rcases hrefuses.cases hopens with ⟨hk, rfl⟩ | ⟨rfl, rfl, read, test, rfl⟩
    · exact ⟨fun _ => htoken, fun hwhile => absurd hwhile hk⟩
    · refine ⟨fun hne => absurd rfl hne, fun _ => ⟨htoken, read.length, by simp, ?_⟩⟩
      rw [List.append_assoc, List.cons_append, Partners.after_append, Partners.seek_code]
      simp [Partners.seek, Code.size, Nat.add_assoc, Nat.add_comm 1]

/-- A loop without a `do`, which a conditional inside it and an `else` behind it do not
hide. -/
theorem ofBody_error_classified_of_loop :
    ∃ body, body = [.keyword .while_, .keyword .if_, .keyword .end_, .keyword .end_,
        .keyword .else_] ∧
      ofBody "f" body = .error (.unexpectedKeyword "f" .while_) ∧ ¬ Completable "f" body ∧
      ∃ pos, IsLeast { p | Completable "f" (body.take p) ∧
          ¬ Completable "f" (body.take (p + 1)) } pos ∧
        body[pos]? = some (.keyword .end_) ∧
        ∃ start : Nat, body[start]? = some (.keyword .while_) ∧
          Partners.after body start = some { endAt := pos } := by
  have herror : ofBody "f" [.keyword .while_, .keyword .if_, .keyword .end_, .keyword .end_,
      .keyword .else_] = .error (.unexpectedKeyword "f" .while_) := rfl
  obtain ⟨-, hunexpected, hleast⟩ := ofBody_error_classified herror
  obtain ⟨pos, hpos, -, hwhile⟩ := hleast .while_ rfl
  exact ⟨_, rfl, herror, hunexpected.mp ⟨.while_, rfl⟩, pos, hpos, hwhile rfl⟩

end JumpTable

end Wordstack
