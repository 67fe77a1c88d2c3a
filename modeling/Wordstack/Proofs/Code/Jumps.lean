-- SUMMARY: The jump table of a body is the one that its block structure gives.
import Mathlib.Data.List.Forall2
import Wordstack.Proofs.Code

/-!
# Jumps of structured code

`Code.jumps` reads the jumps off a derivation of the grammar of bodies.
`JumpTable.ofBody` works on the flat body with a stack of open blocks instead. It
succeeds exactly on the bodies that have a derivation, and its table then holds
the jumps of the derivation and no others.
-/

namespace Wordstack

/-- The offsets that a jump names. -/
def Jump.offsets : Jump → List Nat
  | .branch elseAt endAt => elseAt.toList ++ [endAt]
  | .loop doAt endAt => [doAt, endAt]
  | .exit endAt => [endAt]
  | .back whileAt => [whileAt]

namespace Code

/-- The jumps of code that starts at an offset, each with the offset of the keyword
that it belongs to. -/
def jumps (start : Nat) : Code → List (Nat × Jump)
  | .done => []
  | .plain _ _ rest => rest.jumps (start + 1)
  | .ifThen _ yes rest =>
    let endAt := start + 1 + yes.size
    (start, .branch none endAt) :: (yes.jumps (start + 1) ++ rest.jumps (endAt + 1))
  | .ifElse _ yes no rest =>
    let elseAt := start + 1 + yes.size
    let endAt := elseAt + 1 + no.size
    (start, .branch (some elseAt) endAt) ::
      (yes.jumps (start + 1) ++ (no.jumps (elseAt + 1) ++ rest.jumps (endAt + 1)))
  | .loop test body rest =>
    let doAt := start + 1 + test.size
    let endAt := doAt + 1 + body.size
    (start, .loop doAt endAt) :: (doAt, .exit endAt) :: (endAt, .back start) ::
      (test.jumps (start + 1) ++ (body.jumps (doAt + 1) ++ rest.jumps (endAt + 1)))

theorem jumps_range {code : Code} {start offset : Nat} {jump : Jump}
    (h : (offset, jump) ∈ code.jumps start) : start ≤ offset ∧ offset < start + code.size := by
  induction code generalizing start with
  | done => cases h
  | plain token hplain rest ih =>
    have := ih h
    simp only [size_plain]
    omega
  | ifThen word yes rest ihYes ih =>
    simp only [jumps, List.mem_cons, List.mem_append, Prod.mk.injEq] at h
    simp only [size_ifThen]
    rcases h with ⟨rfl, -⟩ | h | h
    · omega
    · have := ihYes h
      omega
    · have := ih h
      omega
  | ifElse word yes no rest ihYes ihNo ih =>
    simp only [jumps, List.mem_cons, List.mem_append, Prod.mk.injEq] at h
    simp only [size_ifElse]
    rcases h with ⟨rfl, -⟩ | h | h | h
    · omega
    · have := ihYes h
      omega
    · have := ihNo h
      omega
    · have := ih h
      omega
  | loop test body rest ihTest ihBody ih =>
    simp only [jumps, List.mem_cons, List.mem_append, Prod.mk.injEq] at h
    simp only [size_loop]
    rcases h with ⟨rfl, -⟩ | ⟨rfl, -⟩ | ⟨rfl, -⟩ | h | h | h
    · omega
    · omega
    · omega
    · have := ihTest h
      omega
    · have := ihBody h
      omega
    · have := ih h
      omega

/-- Jumps stay within the code that they are in. -/
theorem offsets_lt {code : Code} {start offset n : Nat} {jump : Jump}
    (h : (offset, jump) ∈ code.jumps start) (hn : n ∈ jump.offsets) : n < start + code.size := by
  induction code generalizing start with
  | done => cases h
  | plain token hplain rest ih =>
    have := ih h
    simp only [size_plain]
    omega
  | ifThen word yes rest ihYes ih =>
    simp only [jumps, List.mem_cons, List.mem_append, Prod.mk.injEq] at h
    simp only [size_ifThen]
    rcases h with ⟨rfl, rfl⟩ | h | h
    · simp only [Jump.offsets, Option.toList_none, List.nil_append, List.mem_singleton] at hn
      omega
    · have := ihYes h
      omega
    · have := ih h
      omega
  | ifElse word yes no rest ihYes ihNo ih =>
    simp only [jumps, List.mem_cons, List.mem_append, Prod.mk.injEq] at h
    simp only [size_ifElse]
    rcases h with ⟨rfl, rfl⟩ | h | h | h
    · simp only [Jump.offsets, Option.toList_some, List.mem_append, List.mem_singleton] at hn
      omega
    · have := ihYes h
      omega
    · have := ihNo h
      omega
    · have := ih h
      omega
  | loop test body rest ihTest ihBody ih =>
    simp only [jumps, List.mem_cons, List.mem_append, Prod.mk.injEq] at h
    simp only [size_loop]
    rcases h with ⟨rfl, rfl⟩ | ⟨rfl, rfl⟩ | ⟨rfl, rfl⟩ | h | h | h
    · simp only [Jump.offsets, List.mem_cons, List.not_mem_nil, or_false] at hn
      omega
    · simp only [Jump.offsets, List.mem_singleton] at hn
      omega
    · simp only [Jump.offsets, List.mem_singleton] at hn
      omega
    · have := ihTest h
      omega
    · have := ihBody h
      omega
    · have := ih h
      omega

/-- The `else` and the `end` of a conditional lie behind it and within the code
that it stands in. -/
theorem branch_range {code : Code} {start offset endAt : Nat} {elseAt : Option Nat}
    (h : (offset, .branch elseAt endAt) ∈ code.jumps start) :
    offset < endAt ∧ endAt < start + code.size ∧
      ∀ pos, elseAt = some pos → offset < pos ∧ pos < endAt := by
  induction code generalizing start with
  | done => cases h
  | plain token hplain rest ih =>
    obtain ⟨hlt, hle, helse⟩ := ih h
    exact ⟨hlt, by simp only [size_plain]; omega, helse⟩
  | ifThen word yes rest ihYes ih =>
    simp only [jumps, List.mem_cons, List.mem_append, Prod.mk.injEq, Jump.branch.injEq] at h
    simp only [size_ifThen]
    rcases h with ⟨rfl, rfl, rfl⟩ | h | h
    · refine ⟨by omega, by omega, ?_⟩
      rintro pos ⟨⟩
    · obtain ⟨hlt, hle, helse⟩ := ihYes h
      exact ⟨hlt, by omega, helse⟩
    · obtain ⟨hlt, hle, helse⟩ := ih h
      exact ⟨hlt, by omega, helse⟩
  | ifElse word yes no rest ihYes ihNo ih =>
    simp only [jumps, List.mem_cons, List.mem_append, Prod.mk.injEq, Jump.branch.injEq] at h
    simp only [size_ifElse]
    rcases h with ⟨rfl, rfl, rfl⟩ | h | h | h
    · refine ⟨by omega, by omega, ?_⟩
      rintro pos ⟨rfl⟩
      omega
    · obtain ⟨hlt, hle, helse⟩ := ihYes h
      exact ⟨hlt, by omega, helse⟩
    · obtain ⟨hlt, hle, helse⟩ := ihNo h
      exact ⟨hlt, by omega, helse⟩
    · obtain ⟨hlt, hle, helse⟩ := ih h
      exact ⟨hlt, by omega, helse⟩
  | loop test body rest ihTest ihBody ih =>
    simp only [jumps, List.mem_cons, List.mem_append, Prod.mk.injEq, reduceCtorEq, and_false,
      false_or] at h
    simp only [size_loop]
    rcases h with h | h | h
    · obtain ⟨hlt, hle, helse⟩ := ihTest h
      exact ⟨hlt, by omega, helse⟩
    · obtain ⟨hlt, hle, helse⟩ := ihBody h
      exact ⟨hlt, by omega, helse⟩
    · obtain ⟨hlt, hle, helse⟩ := ih h
      exact ⟨hlt, by omega, helse⟩

/-- Nothing belongs to the `end` of a conditional, nor to its `else`. -/
theorem branch_partners_free {code : Code} {start offset endAt pos : Nat} {elseAt : Option Nat}
    {jump : Jump} (h : (offset, .branch elseAt endAt) ∈ code.jumps start)
    (hpos : pos = endAt ∨ elseAt = some pos) : (pos, jump) ∉ code.jumps start := by
  have hwithin : ∀ {part : Code} {from_ : Nat}, (offset, .branch elseAt endAt) ∈ part.jumps from_ →
      from_ < pos ∧ pos < from_ + part.size := by
    intro part from_ hmem
    have hoffset := (jumps_range hmem).1
    obtain ⟨hlt, hle, helse⟩ := branch_range hmem
    rcases hpos with rfl | hpos
    · omega
    · have := helse pos hpos
      omega
  intro hentry
  induction code generalizing start with
  | done => cases h
  | plain token hplain rest ih => exact ih h hentry
  | ifThen word yes rest ihYes ih =>
    simp only [jumps, List.mem_cons, List.mem_append, Prod.mk.injEq] at h hentry
    grind [→ jumps_range]
  | ifElse word yes no rest ihYes ihNo ih =>
    simp only [jumps, List.mem_cons, List.mem_append, Prod.mk.injEq] at h hentry
    grind [→ jumps_range]
  | loop test body rest ihTest ihBody ih =>
    simp only [jumps, List.mem_cons, List.mem_append, Prod.mk.injEq] at h hentry
    grind [→ jumps_range]

end Code

namespace JumpTable

open Code

-- -----------------------------------------------------------------------
-- Bodies with a block structure are indexed
-- -----------------------------------------------------------------------

theorem indexFrom_plain {function : String} {jumps : JumpTable} {opened : List OpenBlock}
    {pos : Nat} {token : Token} {rest : List Token} (h : token.isPlain = true) :
    indexFrom function jumps opened pos (token :: rest)
      = indexFrom function jumps opened (pos + 1) rest := by
  cases token with
  | keyword k =>
    cases k with
    | fun_ => rfl
    | as_ => rfl
    | _ => nomatch h
  | _ => rfl

theorem indexFrom_conditional {function : String} {jumps : JumpTable} {opened : List OpenBlock}
    {pos : Nat} {word : Conditional} {rest : List Token} :
    indexFrom function jumps opened pos (.keyword word.keyword :: rest)
      = indexFrom function jumps ({ isLoop := false, start := pos } :: opened) (pos + 1) rest := by
  cases word <;> rfl

/-- The table has no jumps from an offset on. -/
def EndsBefore (jumps : JumpTable) (offset : Nat) : Prop :=
  ∀ i, offset ≤ i → jumps[i]? = none

/-- The second table holds what the first does and the jumps of code at an offset. -/
def Extends (jumps : JumpTable) (start : Nat) (code : Code) (jumps' : JumpTable) : Prop :=
  ∀ i jump, jumps'[i]? = some jump ↔ jumps[i]? = some jump ∨ (i, jump) ∈ code.jumps start

theorem getElem?_insert_eq {jumps : JumpTable} {offset i : Nat} {jump : Jump} :
    (jumps.insert offset jump)[i]? = if offset = i then some jump else jumps[i]? := by
  simp [Std.ExtTreeMap.getElem?_insert]

theorem EndsBefore.mono {jumps : JumpTable} {offset later : Nat} (h : jumps.EndsBefore offset)
    (hle : offset ≤ later) : jumps.EndsBefore later :=
  fun i hi => h i (by omega)

theorem EndsBefore.insert {jumps : JumpTable} {offset pos : Nat} {jump : Jump}
    (h : jumps.EndsBefore offset) (hpos : pos < offset) :
    EndsBefore (jumps.insert pos jump) offset := by
  intro i hi
  rw [getElem?_insert_eq, if_neg (by omega), h i hi]

theorem EndsBefore.extends {jumps jumps' : JumpTable} {code : Code} {start : Nat}
    (h : jumps.EndsBefore start) (hext : Extends jumps start code jumps') :
    jumps'.EndsBefore (start + code.size) := by
  intro i hi
  rw [Option.eq_none_iff_forall_ne_some]
  intro jump hjump
  rcases (hext i jump).mp hjump with hold | hnew
  · rw [h i (by omega)] at hold
    cases hold
  · have := (jumps_range hnew).2
    omega

theorem Extends.ifThen {jumps inner jumps' : JumpTable} {word : Conditional} {yes rest : Code}
    {start : Nat} (hfresh : jumps.EndsBefore start) (hyes : Extends jumps (start + 1) yes inner)
    (hrest : Extends (inner.insert start (.branch none (start + 1 + yes.size)))
      (start + 1 + yes.size + 1) rest jumps') :
    Extends jumps start (.ifThen word yes rest) jumps' := by
  intro i jump
  rw [hrest i jump, getElem?_insert_eq]
  simp only [Code.jumps, List.mem_cons, List.mem_append, Prod.mk.injEq]
  by_cases hi : start = i
  · subst hi
    have hnone := hfresh start (Nat.le_refl start)
    grind [→ jumps_range]
  · rw [if_neg hi, hyes i jump]
    grind

theorem Extends.ifElse {jumps first second jumps' : JumpTable} {word : Conditional}
    {yes no rest : Code} {start : Nat} (hfresh : jumps.EndsBefore start)
    (hyes : Extends jumps (start + 1) yes first)
    (hno : Extends first (start + 1 + yes.size + 1) no second)
    (hrest : Extends (second.insert start
        (.branch (some (start + 1 + yes.size)) (start + 1 + yes.size + 1 + no.size)))
      (start + 1 + yes.size + 1 + no.size + 1) rest jumps') :
    Extends jumps start (.ifElse word yes no rest) jumps' := by
  intro i jump
  rw [hrest i jump, getElem?_insert_eq]
  simp only [Code.jumps, List.mem_cons, List.mem_append, Prod.mk.injEq]
  by_cases hi : start = i
  · subst hi
    have hnone := hfresh start (Nat.le_refl start)
    grind [→ jumps_range]
  · rw [if_neg hi, hno i jump, hyes i jump]
    grind

theorem Extends.loop {jumps first second jumps' : JumpTable} {test body rest : Code}
    {start doAt endAt : Nat} (hfresh : jumps.EndsBefore start)
    (hdo : doAt = start + 1 + test.size) (hend : endAt = doAt + 1 + body.size)
    (htest : Extends jumps (start + 1) test first) (hbody : Extends first (doAt + 1) body second)
    (hrest : Extends (((second.insert start (.loop doAt endAt)).insert doAt (.exit endAt)).insert
      endAt (.back start)) (endAt + 1) rest jumps') :
    Extends jumps start (.loop test body rest) jumps' := by
  intro i jump
  rw [hrest i jump, getElem?_insert_eq, getElem?_insert_eq, getElem?_insert_eq]
  simp only [Code.jumps, List.mem_cons, List.mem_append, Prod.mk.injEq, ← hdo, ← hend]
  by_cases hi : i = start ∨ i = doAt ∨ i = endAt
  · have hnone := hfresh i (by omega)
    grind [→ jumps_range]
  · rw [if_neg (by omega), if_neg (by omega), if_neg (by omega), hbody i jump, htest i jump]
    grind

/-- Indexing goes past structured code and adds its jumps to a table that has none
from the start of the code on. -/
theorem indexFrom_code (code : Code) {jumps : JumpTable} {start : Nat}
    (hfresh : jumps.EndsBefore start) :
    ∃ jumps' : JumpTable, Extends jumps start code jumps' ∧
      ∀ function opened rest, indexFrom function jumps opened start (code.tokens ++ rest)
        = indexFrom function jumps' opened (start + code.size) rest := by
  induction code generalizing jumps start with
  | done => exact ⟨jumps, by simp [Extends, Code.jumps], by simp [tokens]⟩
  | plain token h rest ih =>
    obtain ⟨jumps', hext, hindex⟩ := ih (hfresh.mono (Nat.le_add_right start 1))
    refine ⟨jumps', hext, fun function opened after => ?_⟩
    rw [tokens, List.cons_append, indexFrom_plain h, hindex, size_plain,
      show start + 1 + rest.size = start + (rest.size + 1) by omega]
  | ifThen word yes rest ihYes ih =>
    have hfreshYes := hfresh.mono (Nat.le_add_right start 1)
    obtain ⟨inner, hyes, hindexYes⟩ := ihYes hfreshYes
    have hfreshRest : EndsBefore (inner.insert start (.branch none (start + 1 + yes.size)))
        (start + 1 + yes.size + 1) :=
      ((hfreshYes.extends hyes).mono (Nat.le_succ _)).insert (by omega)
    obtain ⟨jumps', hrest, hindexRest⟩ := ih hfreshRest
    refine ⟨jumps', .ifThen hfresh hyes hrest, fun function opened after => ?_⟩
    rw [tokens, List.cons_append, List.append_assoc, indexFrom_conditional, hindexYes,
      size_ifThen, show start + (yes.size + rest.size + 2)
        = start + 1 + yes.size + 1 + rest.size by omega]
    exact hindexRest function opened after
  | ifElse word yes no rest ihYes ihNo ih =>
    have hfreshYes := hfresh.mono (Nat.le_add_right start 1)
    obtain ⟨first, hyes, hindexYes⟩ := ihYes hfreshYes
    have hfreshNo := (hfreshYes.extends hyes).mono (Nat.le_add_right _ 1)
    obtain ⟨second, hno, hindexNo⟩ := ihNo hfreshNo
    have hfreshRest : EndsBefore (second.insert start
          (.branch (some (start + 1 + yes.size)) (start + 1 + yes.size + 1 + no.size)))
        (start + 1 + yes.size + 1 + no.size + 1) :=
      ((hfreshNo.extends hno).mono (Nat.le_succ _)).insert (by omega)
    obtain ⟨jumps', hrest, hindexRest⟩ := ih hfreshRest
    refine ⟨jumps', .ifElse hfresh hyes hno hrest, fun function opened after => ?_⟩
    rw [tokens, List.cons_append, List.append_assoc, indexFrom_conditional, hindexYes,
      List.cons_append, List.append_assoc]
    refine (hindexNo function ({ isLoop := false, start, middle := some _ } :: opened) _).trans ?_
    rw [size_ifElse, show start + (yes.size + no.size + rest.size + 3)
        = start + 1 + yes.size + 1 + no.size + 1 + rest.size by omega]
    exact hindexRest function opened after
  | loop test body rest ihTest ihBody ih =>
    have hfreshTest := hfresh.mono (Nat.le_add_right start 1)
    obtain ⟨first, htest, hindexTest⟩ := ihTest hfreshTest
    have hfreshBody := (hfreshTest.extends htest).mono (Nat.le_add_right _ 1)
    obtain ⟨second, hbody, hindexBody⟩ := ihBody hfreshBody
    have hfreshRest : EndsBefore (((second.insert start
          (.loop (start + 1 + test.size) (start + 1 + test.size + 1 + body.size))).insert
          (start + 1 + test.size) (.exit (start + 1 + test.size + 1 + body.size))).insert
          (start + 1 + test.size + 1 + body.size) (.back start))
        (start + 1 + test.size + 1 + body.size + 1) :=
      ((((hfreshBody.extends hbody).mono (Nat.le_succ _)).insert (by omega)).insert
        (by omega)).insert (by omega)
    obtain ⟨jumps', hrest, hindexRest⟩ := ih hfreshRest
    refine ⟨jumps', .loop hfresh rfl rfl htest hbody hrest, fun function opened after => ?_⟩
    rw [tokens, List.cons_append, List.append_assoc]
    refine (hindexTest function ({ isLoop := true, start } :: opened) _).trans ?_
    rw [List.cons_append, List.append_assoc]
    refine (hindexBody function ({ isLoop := true, start, middle := some _ } :: opened) _).trans ?_
    rw [size_loop, show start + (test.size + body.size + rest.size + 3)
        = start + 1 + test.size + 1 + body.size + 1 + rest.size by omega]
    exact hindexRest function opened after

-- -----------------------------------------------------------------------
-- Bodies that are indexed have a block structure
-- -----------------------------------------------------------------------

/-- Whether an open block can go on as it is closed: a loop takes its `do` before
its `end`, and no block takes a second middle. -/
def Closes (block : OpenBlock) : Closing → Prop
  | .atEnd _ => block.isLoop = true → block.middle.isSome = true
  | .atElse _ _ => block.isLoop = false ∧ block.middle = none
  | .atDo _ _ => block.isLoop = true ∧ block.middle = none

theorem setMiddle?_eq_some {isLoop : Bool} {pos : Nat} {opened opened' : List OpenBlock}
    (h : setMiddle? isLoop pos opened = some opened') :
    ∃ block outer, opened = block :: outer ∧ block.isLoop = isLoop ∧ block.middle = none ∧
      opened' = { block with middle := some pos } :: outer := by
  cases opened with
  | nil => cases h
  | cons block outer =>
    simp only [setMiddle?] at h
    split at h
    next hfits =>
      cases h
      exact ⟨block, outer, rfl, hfits.1, hfits.2, rfl⟩
    next => cases h

theorem close?_isSome {jumps jumps' : JumpTable} {block : OpenBlock} {endAt : Nat}
    (h : close? jumps block endAt = some jumps') (hloop : block.isLoop = true) :
    block.middle.isSome = true := by
  simp only [close?, hloop, if_true, Option.map_eq_some_iff] at h
  obtain ⟨doAt, hmiddle, -⟩ := h
  simp [hmiddle]

/-- A conditional takes the innermost block that is closed behind it. -/
theorem readTokens_conditional {word : Conditional} {start : Nat} {opened : List OpenBlock}
    {rest : List Token} {code : Code} {closings : List Closing}
    (hread : readTokens rest = some (code, closings))
    (hcloses : List.Forall₂ Closes ({ isLoop := false, start } :: opened) closings) :
    ∃ code' outer, readTokens (.keyword word.keyword :: rest) = some (code', outer) ∧
      List.Forall₂ Closes opened outer := by
  rcases hcloses with _ | ⟨hblock, houter⟩
  rename_i closing outer
  cases closing with
  | atEnd last =>
    refine ⟨.ifThen word code last, outer, ?_, houter⟩
    cases word <;> simp [readTokens, hread, readToken, Conditional.keyword]
  | atElse no last =>
    refine ⟨.ifElse word code no last, outer, ?_, houter⟩
    cases word <;> simp [readTokens, hread, readToken, Conditional.keyword]
  | atDo body last => cases hblock.1

/-- A block that has its middle is closed by its `end`. -/
theorem Closes.atEnd_of_middle {block : OpenBlock} {pos : Nat} {closing : Closing}
    (h : Closes { block with middle := some pos } closing) : ∃ last, closing = .atEnd last := by
  cases closing with
  | atEnd last => exact ⟨last, rfl⟩
  | atElse no last => cases h.2
  | atDo body last => cases h.2

/-- What is left of a body closes the blocks that are open. The induction is on
the rest of the body, which is how the blocks come to be read from their ends. -/
theorem readTokens_of_indexFrom {function : String} {jumps result : JumpTable}
    {opened : List OpenBlock} {pos : Nat} {tokens : List Token}
    (h : indexFrom function jumps opened pos tokens = .ok result) :
    ∃ code closings, readTokens tokens = some (code, closings) ∧
      List.Forall₂ Closes opened closings := by
  fun_induction indexFrom function jumps opened pos tokens with
  | case1 jumps opened pos hempty =>
    rw [List.isEmpty_iff.mp hempty]
    exact ⟨.done, [], rfl, .nil⟩
  | case2 => cases h
  | case3 jumps opened pos rest ih =>
    obtain ⟨code, closings, hread, hcloses⟩ := ih h
    have hword : Keyword.if_ = Conditional.if_.keyword := rfl
    rw [hword]
    exact readTokens_conditional hread hcloses
  | case4 jumps opened pos rest ih =>
    obtain ⟨code, closings, hread, hcloses⟩ := ih h
    have hword : Keyword.iff = Conditional.iff.keyword := rfl
    rw [hword]
    exact readTokens_conditional hread hcloses
  | case5 jumps opened pos rest ih =>
    obtain ⟨code, closings, hread, hcloses⟩ := ih h
    rcases hcloses with _ | ⟨hblock, houter⟩
    rename_i closing outer
    cases closing with
    | atEnd last => cases hblock rfl
    | atElse no last => cases hblock.1
    | atDo body last =>
      exact ⟨.loop code body last, outer, by simp [readTokens, hread, readToken], houter⟩
  | case6 jumps opened pos rest opened' hmiddle ih =>
    obtain ⟨block, outer, rfl, hloop, hnone, rfl⟩ := setMiddle?_eq_some hmiddle
    obtain ⟨code, closings, hread, hcloses⟩ := ih h
    rcases hcloses with _ | ⟨hblock, houter⟩
    obtain ⟨last, rfl⟩ := hblock.atEnd_of_middle
    exact ⟨.done, .atElse code last :: _, by simp [readTokens, hread, readToken],
      .cons ⟨hloop, hnone⟩ houter⟩
  | case7 => cases h
  | case8 jumps opened pos rest opened' hmiddle ih =>
    obtain ⟨block, outer, rfl, hloop, hnone, rfl⟩ := setMiddle?_eq_some hmiddle
    obtain ⟨code, closings, hread, hcloses⟩ := ih h
    rcases hcloses with _ | ⟨hblock, houter⟩
    obtain ⟨last, rfl⟩ := hblock.atEnd_of_middle
    exact ⟨.done, .atDo code last :: _, by simp [readTokens, hread, readToken],
      .cons ⟨hloop, hnone⟩ houter⟩
  | case9 => cases h
  | case10 => cases h
  | case11 jumps pos rest block outer jumps' hclose ih =>
    obtain ⟨code, closings, hread, hcloses⟩ := ih h
    exact ⟨.done, .atEnd code :: closings, by simp [readTokens, hread, readToken],
      .cons (close?_isSome hclose) hcloses⟩
  | case12 => cases h
  | case13 jumps opened pos token rest hif hiff hwhile helse hdo hend ih =>
    obtain ⟨code, closings, hread, hcloses⟩ := ih h
    have hplain : token.isPlain = true := by
      cases token with
      | keyword k =>
        cases k with
        | fun_ => rfl
        | as_ => rfl
        | _ => contradiction
      | _ => rfl
    exact ⟨.plain token hplain code, closings, by simp [readTokens, hread, readToken_plain hplain],
      hcloses⟩

theorem ofBody_of_code (function : String) (code : Code) :
    ∃ jumps, ofBody function code.tokens = .ok jumps ∧
      ∀ offset jump, jumps[offset]? = some jump ↔ (offset, jump) ∈ code.jumps 0 := by
  have hempty : EndsBefore ∅ 0 := fun i _ => Std.ExtTreeMap.getElem?_empty
  obtain ⟨jumps, hext, hindex⟩ := indexFrom_code code hempty
  refine ⟨jumps, ?_, fun offset jump => ?_⟩
  · have hall := hindex function [] []
    rw [List.append_nil] at hall
    exact hall
  · simpa using hext offset jump

theorem code_of_ofBody {function : String} {body : List Token} {jumps : JumpTable}
    (h : ofBody function body = .ok jumps) : ∃ code : Code, code.tokens = body := by
  obtain ⟨code, closings, hread, hcloses⟩ := readTokens_of_indexFrom h
  cases hcloses
  exact ⟨code, by simpa using readTokens_tokens hread⟩

theorem getElem?_of_ofBody {function : String} {body : List Token} {jumps : JumpTable}
    {code : Code} (h : ofBody function body = .ok jumps) (hcode : code.tokens = body)
    (offset : Nat) (jump : Jump) :
    jumps[offset]? = some jump ↔ (offset, jump) ∈ code.jumps 0 := by
  obtain ⟨jumps', hok, hjumps⟩ := ofBody_of_code function code
  rw [hcode, h] at hok
  cases hok
  exact hjumps offset jump

/-- A table has no entries for the `end` and the `else` of a conditional. -/
theorem branch_partners_none {function : String} {body : List Token} {jumps : JumpTable}
    {offset endAt : Nat} {elseAt : Option Nat} (h : ofBody function body = .ok jumps)
    (hbranch : jumps[offset]? = some (.branch elseAt endAt)) :
    jumps[endAt]? = none ∧ ∀ pos, elseAt = some pos → jumps[pos]? = none := by
  obtain ⟨code, hcode⟩ := code_of_ofBody h
  have hlookup := getElem?_of_ofBody h hcode
  have hmem := (hlookup offset _).mp hbranch
  have hfree : ∀ pos, pos = endAt ∨ elseAt = some pos → jumps[pos]? = none := by
    intro pos hpos
    rw [Option.eq_none_iff_forall_ne_some]
    intro jump hjump
    exact branch_partners_free hmem hpos ((hlookup pos jump).mp hjump)
  exact ⟨hfree endAt (.inl rfl), fun pos hpos => hfree pos (.inr hpos)⟩

/-- Indexing succeeds exactly on the bodies with a block structure. The table then
holds the jumps of that structure, and nothing for the `else` and the `end` of a
conditional. -/
theorem ofBody_reads_off_structure (function : String) (body : List Token) :
    ((∃ jumps, ofBody function body = .ok jumps) ↔ ∃ code : Code, code.tokens = body) ∧
    ∀ jumps, ofBody function body = .ok jumps →
      (∀ code : Code, code.tokens = body →
        ∀ offset jump, jumps[offset]? = some jump ↔ (offset, jump) ∈ code.jumps 0) ∧
      (∀ (offset endAt : Nat) (elseAt : Option Nat),
        jumps[offset]? = some (Jump.branch elseAt endAt) →
        jumps[endAt]? = none ∧ ∀ pos, elseAt = some pos → jumps[pos]? = none) := by
  refine ⟨⟨?_, ?_⟩, fun jumps h => ⟨?_, ?_⟩⟩
  · rintro ⟨jumps, h⟩
    exact code_of_ofBody h
  · rintro ⟨code, rfl⟩
    obtain ⟨jumps, h, -⟩ := ofBody_of_code function code
    exact ⟨jumps, h⟩
  · intro code hcode
    exact getElem?_of_ofBody h hcode
  · intro offset endAt elseAt hbranch
    exact branch_partners_none h hbranch

end JumpTable

end Wordstack
