-- SUMMARY: The partners that a jump table names are those that a search with a nesting counter finds.
import Wordstack.Proofs.Code.Jumps

/-!
# Searching for partners

The partners of a keyword can also be found without a table: a search forward from
the keyword counts how many blocks are open and stops at the first `end` outside of
all of them. `Partners.seek` is this search. Wherever a body has a jump table, a
search from each `if`, `iff` and `while` meets what the table says.
-/

namespace Wordstack

/-- What a search meets outside of the blocks that it goes past: the offsets of each
`else` and of each `do`, and of the `end` that stops it. -/
structure Partners where
  elses : List Nat := []
  dos : List Nat := []
  endAt : Nat
deriving DecidableEq, Repr

namespace Partners

/-- Searches the rest of a body from the offset `pos` on, inside `depth` blocks that
the search has to leave first. -/
def seek (depth pos : Nat) : List Token → Option Partners
  | [] => none
  | .keyword .end_ :: rest =>
    match depth with
    | 0 => some { endAt := pos }
    | depth + 1 => seek depth (pos + 1) rest
  | .keyword .else_ :: rest =>
    let found := seek depth (pos + 1) rest
    if depth = 0 then found.map fun p => { p with elses := pos :: p.elses } else found
  | .keyword .do_ :: rest =>
    let found := seek depth (pos + 1) rest
    if depth = 0 then found.map fun p => { p with dos := pos :: p.dos } else found
  | .keyword k :: rest => seek (if k.opensBlock then depth + 1 else depth) (pos + 1) rest
  | _ :: rest => seek depth (pos + 1) rest

/-- The partners of the keyword at an offset, by a search from right behind it. -/
def after (body : List Token) (start : Nat) : Option Partners :=
  seek 0 (start + 1) (body.drop (start + 1))

theorem after_append {before rest : List Token} {token : Token} :
    after (before ++ token :: rest) before.length = seek 0 (before.length + 1) rest := by
  simp [after]

theorem seek_plain {depth pos : Nat} {token : Token} {rest : List Token}
    (h : token.isPlain = true) : seek depth pos (token :: rest) = seek depth (pos + 1) rest := by
  cases token with
  | keyword k =>
    cases k with
    | fun_ => rfl
    | as_ => rfl
    | _ => cases h
  | _ => rfl

theorem seek_conditional {depth pos : Nat} {word : Conditional} {rest : List Token} :
    seek depth pos (.keyword word.keyword :: rest) = seek (depth + 1) (pos + 1) rest := by
  cases word <;> rfl

/-- A search goes past structured code and meets nothing in it. -/
theorem seek_code (code : Code) {depth pos : Nat} {rest : List Token} :
    seek depth pos (code.tokens ++ rest) = seek depth (pos + code.size) rest := by
  induction code generalizing depth pos rest with
  | done => rfl
  | plain token h last ih =>
    rw [Code.tokens, List.cons_append, seek_plain h, ih, Code.size_plain,
      show pos + 1 + last.size = pos + (last.size + 1) by omega]
  | ifThen word yes last ihYes ih =>
    rw [Code.tokens, List.cons_append, List.append_assoc, seek_conditional, ihYes,
      Code.size_ifThen, show pos + (yes.size + last.size + 2)
        = pos + 1 + yes.size + 1 + last.size by omega]
    exact ih
  | ifElse word yes no last ihYes ihNo ih =>
    rw [Code.tokens, List.cons_append, List.append_assoc, seek_conditional, ihYes,
      List.cons_append, List.append_assoc, Code.size_ifElse,
      show pos + (yes.size + no.size + last.size + 3)
        = pos + 1 + yes.size + 1 + no.size + 1 + last.size by omega]
    exact ihNo.trans ih
  | loop test body last ihTest ihBody ih =>
    rw [Code.tokens, List.cons_append, List.append_assoc, List.cons_append, List.append_assoc,
      Code.size_loop, show pos + (test.size + body.size + last.size + 3)
        = pos + 1 + test.size + 1 + body.size + 1 + last.size by omega]
    exact ihTest.trans (ihBody.trans ih)

end Partners

-- -----------------------------------------------------------------------
-- Blocks inside code
-- -----------------------------------------------------------------------

/-- Of two lists around a token, one holds each occurrence of another token. -/
theorem Token.occurs_cases {xs ys before after : List Token} {middle token : Token}
    (hne : middle ≠ token) (h : xs ++ middle :: ys = before ++ token :: after) :
    (∃ between, xs = before ++ token :: between ∧ after = between ++ middle :: ys) ∨
    ∃ between, before = xs ++ middle :: between ∧ ys = between ++ token :: after := by
  rcases List.append_eq_append_iff.mp h with ⟨between, rfl, heq⟩ | ⟨between, rfl, heq⟩
  · rcases List.cons_eq_append_iff.mp heq with ⟨-, heq⟩ | ⟨between, rfl, rfl⟩
    · exact absurd (List.cons.inj heq).1.symm hne
    · exact .inr ⟨between, rfl, rfl⟩
  · rcases List.cons_eq_append_iff.mp heq with ⟨-, heq⟩ | ⟨between, rfl, rfl⟩
    · exact absurd (List.cons.inj heq).1 hne
    · exact .inl ⟨between, rfl, rfl⟩

namespace Code

/-- The tokens start with some code, and the jumps of that code at an offset are among
the entries. -/
def Begins (pos : Nat) (tokens : List Token) (entries : List (Nat × Jump)) : Prop :=
  ∃ (part : Code) (rest : List Token),
    part ≠ .done ∧ tokens = part.tokens ++ rest ∧ part.jumps pos ⊆ entries

/-- Code begins at each word that opens a block in tokens at an offset. -/
def BlocksBegin (start : Nat) (tokens : List Token) (entries : List (Nat × Jump)) : Prop :=
  ∀ before k after, tokens = before ++ .keyword k :: after → k.opensBlock = true →
    Begins (start + before.length) (.keyword k :: after) entries

variable {start : Nat} {entries entries' : List (Nat × Jump)} {token : Token}
  {tokens rest : List Token}

theorem Begins.mono {pos : Nat} (h : Begins pos tokens entries) (hsub : entries ⊆ entries') :
    Begins pos (tokens ++ rest) entries' := by
  obtain ⟨part, last, hpart, rfl, hjumps⟩ := h
  exact ⟨part, last ++ rest, hpart, by simp, fun _ hentry => hsub (hjumps hentry)⟩

theorem BlocksBegin.mono (h : BlocksBegin start tokens entries) (hsub : entries ⊆ entries') :
    BlocksBegin start tokens entries' := by
  intro before k after htokens hk
  have hbegins : Begins _ ((.keyword k :: after) ++ []) entries' :=
    (h before k after htokens hk).mono hsub
  rwa [List.append_nil] at hbegins

theorem BlocksBegin.cons {code : Code} (hcode : code.tokens = token :: rest)
    (h : BlocksBegin (start + 1) rest (code.jumps start)) :
    BlocksBegin start code.tokens (code.jumps start) := by
  intro before k after htokens hk
  cases before with
  | nil =>
    rw [List.nil_append] at htokens
    refine ⟨code, [], ?_, by simp [htokens], List.Subset.refl _⟩
    rintro rfl
    cases htokens
  | cons first before =>
    rw [hcode] at htokens
    have hbegins := h before k after (List.cons.inj htokens).2 hk
    rwa [Nat.add_assoc, Nat.add_comm 1] at hbegins

theorem BlocksBegin.joined {word : Keyword} (hword : word.opensBlock = false)
    (hleft : BlocksBegin start tokens entries)
    (hright : BlocksBegin (start + tokens.length + 1) rest entries) :
    BlocksBegin start (tokens ++ .keyword word :: rest) entries := by
  intro before k after htokens hk
  have hne : Token.keyword word ≠ .keyword k := by
    rintro ⟨⟩
    rw [hk] at hword
    cases hword
  rcases Token.occurs_cases hne htokens with ⟨between, hsplit, rfl⟩ | ⟨between, rfl, hsplit⟩
  · exact (hleft before k between hsplit hk).mono (List.Subset.refl _)
  · have hbegins := hright between k after hsplit hk
    rwa [show start + tokens.length + 1 + between.length
      = start + (tokens ++ .keyword word :: between).length by simp; omega] at hbegins

/-- Code begins at each word of code that opens a block, with the jumps that it has as
a part of the whole. -/
theorem blocksBegin (code : Code) (start : Nat) :
    BlocksBegin start code.tokens (code.jumps start) := by
  induction code generalizing start with
  | done =>
    intro before k after h
    simp [tokens] at h
  | plain token h rest ih => exact .cons rfl (ih (start + 1))
  | ifThen word yes rest ihYes ih =>
    refine .cons rfl (.joined rfl ((ihYes _).mono ?_) ((ih _).mono ?_))
    · exact List.subset_cons_of_subset _ (List.subset_append_left _ _)
    · exact List.subset_cons_of_subset _ (List.subset_append_right _ _)
  | ifElse word yes no rest ihYes ihNo ih =>
    refine .cons rfl (.joined rfl ((ihYes _).mono ?_)
      (.joined rfl ((ihNo _).mono ?_) ((ih _).mono ?_)))
    · exact List.subset_cons_of_subset _ (List.subset_append_left _ _)
    · exact List.subset_cons_of_subset _
        (List.subset_append_of_subset_right _ (List.subset_append_left _ _))
    · exact List.subset_cons_of_subset _
        (List.subset_append_of_subset_right _ (List.subset_append_right _ _))
  | loop test body rest ihTest ihBody ih =>
    have hparts : test.jumps (start + 1) ++ (body.jumps (start + 1 + test.size + 1)
          ++ rest.jumps (start + 1 + test.size + 1 + body.size + 1))
        ⊆ (loop test body rest).jumps start :=
      List.subset_cons_of_subset _ (List.subset_cons_of_subset _ (List.subset_cons_self _ _))
    refine .cons rfl (.joined rfl ((ihTest _).mono ?_)
      (.joined rfl ((ihBody _).mono ?_) ((ih _).mono ?_)))
    · exact List.Subset.trans (List.subset_append_left _ _) hparts
    · exact List.Subset.trans
        (List.subset_append_of_subset_right _ (List.subset_append_left _ _)) hparts
    · exact List.Subset.trans
        (List.subset_append_of_subset_right _ (List.subset_append_right _ _)) hparts

end Code

-- -----------------------------------------------------------------------
-- Jump tables and searches
-- -----------------------------------------------------------------------

namespace JumpTable

open Code

variable {function : String} {body : List Token} {jumps : JumpTable} {start : Nat}

/-- Code begins at each word of an indexed body that opens a block, and the table holds
its jumps. -/
theorem begins_of_ofBody (h : ofBody function body = .ok jumps) {k : Keyword}
    (hk : k.opensBlock = true) (hstart : body[start]? = some (.keyword k)) :
    ∃ (part : Code) (rest : List Token), part ≠ .done ∧
      .keyword k :: body.drop (start + 1) = part.tokens ++ rest ∧
      ∀ offset jump, (offset, jump) ∈ part.jumps start → jumps[offset]? = some jump := by
  obtain ⟨code, hcode⟩ := code_of_ofBody h
  obtain ⟨hlt, hget⟩ := List.getElem?_eq_some_iff.mp hstart
  have hsplit : code.tokens = body.take start ++ .keyword k :: body.drop (start + 1) := by
    rw [hcode, ← hget, ← List.drop_eq_getElem_cons hlt, List.take_append_drop]
  obtain ⟨part, rest, hpart, htokens, hjumps⟩ := code.blocksBegin 0 _ _ _ hsplit hk
  rw [List.length_take_of_le (Nat.le_of_lt hlt), Nat.zero_add] at hjumps
  refine ⟨part, rest, hpart, htokens, fun offset jump hentry => ?_⟩
  exact (getElem?_of_ofBody h hcode offset jump).mpr (hjumps hentry)

theorem partners_of_conditional (h : ofBody function body = .ok jumps) {word : Conditional}
    (hstart : body[start]? = some (.keyword word.keyword)) :
    ∃ elseAt endAt, jumps[start]? = some (.branch elseAt endAt) ∧
      Partners.after body start = some { elses := elseAt.toList, endAt } := by
  have hk : word.keyword.opensBlock = true := by cases word <;> rfl
  obtain ⟨part, rest, hpart, htokens, hjumps⟩ := begins_of_ofBody h hk hstart
  cases part with
  | done => exact absurd rfl hpart
  | plain token hplain last =>
    obtain ⟨rfl, -⟩ := List.cons.inj htokens
    cases word <;> cases hplain
  | ifThen word' yes last =>
    refine ⟨none, start + 1 + yes.size, hjumps _ _ List.mem_cons_self, ?_⟩
    simp only [tokens, List.cons_append, List.append_assoc, List.cons.injEq] at htokens
    rw [Partners.after, htokens.2, Partners.seek_code]
    rfl
  | ifElse word' yes no last =>
    refine ⟨some (start + 1 + yes.size), start + 1 + yes.size + 1 + no.size,
      hjumps _ _ List.mem_cons_self, ?_⟩
    simp only [tokens, List.cons_append, List.append_assoc, List.cons.injEq] at htokens
    rw [Partners.after, htokens.2, Partners.seek_code, Partners.seek, Partners.seek_code]
    rfl
  | loop test inner last =>
    have hword := (List.cons.inj htokens).1
    cases word <;> cases hword

theorem partners_of_loop (h : ofBody function body = .ok jumps)
    (hstart : body[start]? = some (.keyword .while_)) :
    ∃ doAt endAt, jumps[start]? = some (.loop doAt endAt) ∧
      jumps[doAt]? = some (.exit endAt) ∧ jumps[endAt]? = some (.back start) ∧
      Partners.after body start = some { dos := [doAt], endAt } := by
  obtain ⟨part, rest, hpart, htokens, hjumps⟩ := begins_of_ofBody h rfl hstart
  cases part with
  | done => exact absurd rfl hpart
  | plain token hplain last =>
    obtain ⟨rfl, -⟩ := List.cons.inj htokens
    cases hplain
  | ifThen word yes last =>
    have hword := (List.cons.inj htokens).1
    cases word <;> cases hword
  | ifElse word yes no last =>
    have hword := (List.cons.inj htokens).1
    cases word <;> cases hword
  | loop test inner last =>
    simp only [Code.jumps, List.mem_cons, or_imp, forall_and] at hjumps
    obtain ⟨hwhile, hdo, hend, -⟩ := hjumps
    refine ⟨_, _, hwhile _ _ rfl, hdo _ _ rfl, hend _ _ rfl, ?_⟩
    simp only [tokens, List.cons_append, List.append_assoc, List.cons.injEq] at htokens
    rw [Partners.after, htokens.2, Partners.seek_code, Partners.seek, Partners.seek_code]
    rfl

/-- A jump table agrees with a search. From each `if`, `iff` and `while` of an indexed
body, a search stops at the `end` that the table names; outside of inner blocks it meets
the `else` or the `do` that the table names, and no other; and the `do` and the `end` of
a loop lead to that `end` and back to that loop. -/
theorem ofBody_agrees_with_search (h : ofBody function body = .ok jumps) :
    (∀ (start : Nat) (word : Conditional), body[start]? = some (.keyword word.keyword) →
      ∃ elseAt endAt, jumps[start]? = some (Jump.branch elseAt endAt) ∧
        Partners.after body start = some { elses := elseAt.toList, dos := [], endAt }) ∧
    ∀ start : Nat, body[start]? = some (.keyword .while_) →
      ∃ doAt endAt, jumps[start]? = some (Jump.loop doAt endAt) ∧
        jumps[doAt]? = some (Jump.exit endAt) ∧ jumps[endAt]? = some (Jump.back start) ∧
        Partners.after body start = some { elses := [], dos := [doAt], endAt } := by
  refine ⟨fun start word hstart => ?_, fun start hstart => ?_⟩
  · exact partners_of_conditional h hstart
  · exact partners_of_loop h hstart

/-- A conditional with an `else`, around a loop, around another such conditional. -/
theorem ofBody_agrees_with_search_nested :
    ∃ body jumps, body = [.keyword .if_, .keyword .while_, .keyword .do_, .keyword .iff,
        .keyword .else_, .keyword .end_, .keyword .end_, .keyword .else_, .keyword .end_] ∧
      ofBody "f" body = .ok jumps ∧
      jumps[0]? = some (Jump.branch (some 7) 8) ∧ jumps[1]? = some (Jump.loop 2 6) ∧
      jumps[2]? = some (Jump.exit 6) ∧ jumps[6]? = some (Jump.back 1) ∧
      Partners.after body 0 = some { elses := [7], endAt := 8 } ∧
      Partners.after body 1 = some { dos := [2], endAt := 6 } := by
  obtain ⟨jumps, hok, -⟩ := ofBody_of_code "f"
    (.ifElse .if_ (.loop .done (.ifElse .iff .done .done .done) .done) .done .done)
  obtain ⟨hconditionals, hloops⟩ := ofBody_agrees_with_search hok
  obtain ⟨elseAt, endAt, hbranch, hbranchSearch⟩ := hconditionals 0 .if_ rfl
  obtain ⟨doAt, endAt', hloop, hexit, hback, hloopSearch⟩ := hloops 1 rfl
  -- What the two searches meet says which offsets the table has to hold.
  have hbranchFound : some (⟨[7], [], 8⟩ : Partners) = some ⟨elseAt.toList, [], endAt⟩ :=
    hbranchSearch
  have hloopFound : some (⟨[], [2], 6⟩ : Partners) = some ⟨[], [doAt], endAt'⟩ := hloopSearch
  cases hloopFound
  cases elseAt with
  | none => cases hbranchFound
  | some pos =>
    cases hbranchFound
    exact ⟨_, jumps, rfl, hok, hbranch, hloop, hexit, hback, rfl, rfl⟩

end JumpTable

end Wordstack
