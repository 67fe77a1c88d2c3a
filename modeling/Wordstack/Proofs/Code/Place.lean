-- SUMMARY: Where structured code lies in a body, and the offsets at which a frame that runs it can stand.
import Wordstack.Program
import Wordstack.Proofs.Code.Jumps

/-!
# Code in its place

`Definition.Installed` says that a definition has the tokens and the jumps of some
code from an offset on. A frame that runs the code does not stand at all of its
offsets: what lies inside a conditional is run by a frame of its own. `Code.Inside`
says which offsets are left, and `Spot` what the token at such an offset is and
where the frame can go from there.
-/

namespace Wordstack

namespace Definition

/-- The jumps of the definition are those that indexing its body gives. -/
def Indexed (d : Definition) : Prop := JumpTable.ofBody d.name d.body.toList = .ok d.jumps

/-- The body has these tokens from an offset on. -/
def Holds (d : Definition) (start : Nat) (tokens : List Token) : Prop :=
  ∃ before after, d.body.toList = before ++ (tokens ++ after) ∧ before.length = start

theorem Holds.head {d : Definition} {start : Nat} {token : Token} {tokens : List Token}
    (h : d.Holds start (token :: tokens)) : d.body[start]? = some token := by
  obtain ⟨before, after, hbody, rfl⟩ := h
  rw [← Array.getElem?_toList, hbody]
  simp

theorem Holds.tail {d : Definition} {start : Nat} {token : Token} {tokens : List Token}
    (h : d.Holds start (token :: tokens)) : d.Holds (start + 1) tokens := by
  obtain ⟨before, after, hbody, rfl⟩ := h
  exact ⟨before ++ [token], after, by simp [hbody], by simp⟩

theorem Holds.left {d : Definition} {start : Nat} {first second : List Token}
    (h : d.Holds start (first ++ second)) : d.Holds start first := by
  obtain ⟨before, after, hbody, rfl⟩ := h
  exact ⟨before, second ++ after, by simp [hbody], rfl⟩

theorem Holds.right {d : Definition} {start : Nat} {first second : List Token}
    (h : d.Holds start (first ++ second)) : d.Holds (start + first.length) second := by
  obtain ⟨before, after, hbody, rfl⟩ := h
  exact ⟨before ++ first, after, by simp [hbody], by simp⟩

/-- The definition has the tokens and the jumps that running the code needs from
an offset on. The `else` and the `end` of a conditional are never run. -/
def Installed (d : Definition) (start : Nat) : Code → Prop
  | .done => True
  | .plain token _ rest => d.body[start]? = some token ∧ d.Installed (start + 1) rest
  | .ifThen word yes rest =>
    let endAt := start + 1 + yes.size
    d.body[start]? = some (.keyword word.keyword) ∧
      d.jumps[start]? = some (.branch none endAt) ∧
      d.Installed (start + 1) yes ∧ d.Installed (endAt + 1) rest
  | .ifElse word yes no rest =>
    let elseAt := start + 1 + yes.size
    let endAt := elseAt + 1 + no.size
    d.body[start]? = some (.keyword word.keyword) ∧
      d.jumps[start]? = some (.branch (some elseAt) endAt) ∧
      d.Installed (start + 1) yes ∧ d.Installed (elseAt + 1) no ∧ d.Installed (endAt + 1) rest
  | .loop test body rest =>
    let doAt := start + 1 + test.size
    let endAt := doAt + 1 + body.size
    d.body[start]? = some (.keyword .while_) ∧
      (d.body[doAt]? = some (.keyword .do_) ∧ d.jumps[doAt]? = some (.exit endAt)) ∧
      (d.body[endAt]? = some (.keyword .end_) ∧ d.jumps[endAt]? = some (.back start)) ∧
      d.Installed (start + 1) test ∧ d.Installed (doAt + 1) body ∧ d.Installed (endAt + 1) rest

theorem installed_of_holds {d : Definition} {code : Code} {start : Nat}
    (htokens : d.Holds start code.tokens)
    (hjumps : ∀ offset jump, (offset, jump) ∈ code.jumps start → d.jumps[offset]? = some jump) :
    d.Installed start code := by
  induction code generalizing start with
  | done => trivial
  | plain token h rest ih => exact ⟨htokens.head, ih htokens.tail hjumps⟩
  | ifThen word yes rest ihYes ih =>
    simp only [Code.jumps, List.mem_cons, List.mem_append, or_imp, forall_and] at hjumps
    obtain ⟨hstart, hyes, hrest⟩ := hjumps
    exact ⟨htokens.head, hstart _ _ rfl, ihYes htokens.tail.left hyes,
      ih htokens.tail.right.tail hrest⟩
  | ifElse word yes no rest ihYes ihNo ih =>
    simp only [Code.jumps, List.mem_cons, List.mem_append, or_imp, forall_and] at hjumps
    obtain ⟨hstart, hyes, hno, hrest⟩ := hjumps
    have hfromNo := htokens.tail.right.tail
    exact ⟨htokens.head, hstart _ _ rfl, ihYes htokens.tail.left hyes, ihNo hfromNo.left hno,
      ih hfromNo.right.tail hrest⟩
  | loop test body rest ihTest ihBody ih =>
    simp only [Code.jumps, List.mem_cons, List.mem_append, or_imp, forall_and] at hjumps
    obtain ⟨-, hdo, hend, htest, hbody, hrest⟩ := hjumps
    have hfromDo := htokens.tail.right
    have hfromEnd := hfromDo.tail.right
    exact ⟨htokens.head, ⟨hfromDo.head, hdo _ _ rfl⟩, ⟨hfromEnd.head, hend _ _ rfl⟩,
      ihTest htokens.tail.left htest, ihBody hfromDo.tail.left hbody, ih hfromEnd.tail hrest⟩

/-- A definition with the jumps of its body has its block structure installed. -/
theorem Indexed.installed {d : Definition} (h : d.Indexed) :
    ∃ code : Code, code.tokens = d.body.toList ∧ d.Installed 0 code := by
  obtain ⟨code, hcode⟩ := JumpTable.code_of_ofBody h
  refine ⟨code, hcode, installed_of_holds ⟨[], [], by simp [hcode], rfl⟩ ?_⟩
  intro offset jump hmem
  exact (JumpTable.getElem?_of_ofBody h hcode offset jump).mpr hmem

end Definition

-- -----------------------------------------------------------------------
-- Offsets at which a frame stands
-- -----------------------------------------------------------------------

/-- Whether a frame that runs the code from `start` on can stand at `pc`: before a
part of it that it runs itself, or at its end. -/
def Code.Inside (pc start : Nat) : Code → Prop
  | .done => pc = start
  | .plain _ _ rest => pc = start ∨ rest.Inside pc (start + 1)
  | .ifThen _ yes rest => pc = start ∨ rest.Inside pc (start + 1 + yes.size + 1)
  | .ifElse _ yes no rest =>
    pc = start ∨ rest.Inside pc (start + 1 + yes.size + 1 + no.size + 1)
  | .loop test body rest =>
    pc = start ∨ test.Inside pc (start + 1) ∨ body.Inside pc (start + 1 + test.size + 1) ∨
      rest.Inside pc (start + 1 + test.size + 1 + body.size + 1)

namespace Code.Inside

theorem start_self (code : Code) (start : Nat) : code.Inside start start := by
  cases code with
  | done => rfl
  | _ => exact .inl rfl

theorem range {code : Code} {pc start : Nat} (h : code.Inside pc start) :
    start ≤ pc ∧ pc ≤ start + code.size := by
  induction code generalizing start with
  | done =>
    cases h
    exact ⟨Nat.le_refl _, Nat.le_refl _⟩
  | plain token hplain rest ih =>
    rw [size_plain]
    rcases h with rfl | h
    · omega
    · have := ih h
      omega
  | ifThen word yes rest ihYes ih =>
    rw [size_ifThen]
    rcases h with rfl | h
    · omega
    · have := ih h
      omega
  | ifElse word yes no rest ihYes ihNo ih =>
    rw [size_ifElse]
    rcases h with rfl | h
    · omega
    · have := ih h
      omega
  | loop test body rest ihTest ihBody ih =>
    rw [size_loop]
    rcases h with rfl | h | h | h
    · omega
    · have := ihTest h
      omega
    · have := ihBody h
      omega
    · have := ih h
      omega

end Code.Inside

/-- What the token at an offset is, for a frame that stands there, and where the
frame can go from it: always to an offset at which it may stand. -/
inductive Spot (d : Definition) (pc : Nat) (mayStand : Nat → Prop) : Prop where
  | plain {token : Token} (htoken : d.body[pc]? = some token) (hplain : token.isPlain = true)
      (hnext : mayStand (pc + 1))
  | conditional {word : Conditional} {elseAt : Option Nat} {endAt : Nat} {yes : Code}
      (htoken : d.body[pc]? = some (.keyword word.keyword))
      (hjump : d.jumps[pc]? = some (.branch elseAt endAt)) (hnext : mayStand (endAt + 1))
      (hyes : d.Installed (pc + 1) yes) (hyesEnd : elseAt.getD endAt = pc + 1 + yes.size)
      (hno : ∀ pos, elseAt = some pos →
        ∃ no : Code, d.Installed (pos + 1) no ∧ endAt = pos + 1 + no.size)
  | while_ (htoken : d.body[pc]? = some (.keyword .while_)) (hnext : mayStand (pc + 1))
  | do_ {endAt : Nat} (htoken : d.body[pc]? = some (.keyword .do_))
      (hjump : d.jumps[pc]? = some (.exit endAt)) (hnext : mayStand (pc + 1))
      (hleave : mayStand (endAt + 1))
  | again {whileAt : Nat} (htoken : d.body[pc]? = some (.keyword .end_))
      (hjump : d.jumps[pc]? = some (.back whileAt)) (hback : mayStand (whileAt + 1))

theorem Spot.mono {d : Definition} {pc : Nat} {P Q : Nat → Prop} (h : Spot d pc P)
    (hPQ : ∀ pos, P pos → Q pos) : Spot d pc Q := by
  cases h with
  | plain htoken hplain hnext => exact .plain htoken hplain (hPQ _ hnext)
  | conditional htoken hjump hnext hyes hyesEnd hno =>
    exact .conditional htoken hjump (hPQ _ hnext) hyes hyesEnd hno
  | while_ htoken hnext => exact .while_ htoken (hPQ _ hnext)
  | do_ htoken hjump hnext hleave => exact .do_ htoken hjump (hPQ _ hnext) (hPQ _ hleave)
  | again htoken hjump hback => exact .again htoken hjump (hPQ _ hback)

/-- At each of the offsets inside code, short of its end, there is something to
run, and it leads to such an offset again. -/
theorem Code.Inside.spot {d : Definition} {code : Code} {pc start : Nat}
    (h : code.Inside pc start) (hinstalled : d.Installed start code)
    (hlt : pc < start + code.size) : Spot d pc fun pos => code.Inside pos start := by
  induction code generalizing start with
  | done =>
    cases h
    rw [size_done] at hlt
    omega
  | plain token hplain rest ih =>
    rw [size_plain] at hlt
    rcases h with rfl | h
    · exact .plain hinstalled.1 hplain (.inr (start_self rest _))
    · exact (ih h hinstalled.2 (by omega)).mono fun _ => .inr
  | ifThen word yes rest ihYes ih =>
    rw [size_ifThen] at hlt
    obtain ⟨htoken, hjump, hyes, hrest⟩ := hinstalled
    rcases h with rfl | h
    · exact .conditional htoken hjump (.inr (start_self rest _)) hyes rfl nofun
    · exact (ih h hrest (by omega)).mono fun _ => .inr
  | ifElse word yes no rest ihYes ihNo ih =>
    rw [size_ifElse] at hlt
    obtain ⟨htoken, hjump, hyes, hno, hrest⟩ := hinstalled
    rcases h with rfl | h
    · refine .conditional htoken hjump (.inr (start_self rest _)) hyes rfl ?_
      rintro pos ⟨rfl⟩
      exact ⟨no, hno, rfl⟩
    · exact (ih h hrest (by omega)).mono fun _ => .inr
  | loop test body rest ihTest ihBody ih =>
    rw [size_loop] at hlt
    obtain ⟨hwhile, ⟨hdo, hexit⟩, ⟨hend, hback⟩, htest, hbody, hrest⟩ := hinstalled
    rcases h with rfl | h | h | h
    · exact .while_ hwhile (.inr (.inl (start_self test _)))
    · by_cases hpc : pc < start + 1 + test.size
      · exact (ihTest h htest hpc).mono fun _ hpos => .inr (.inl hpos)
      · obtain rfl : pc = start + 1 + test.size := by
          have := h.range
          omega
        exact .do_ hdo hexit (.inr (.inr (.inl (start_self body _))))
          (.inr (.inr (.inr (start_self rest _))))
    · by_cases hpc : pc < start + 1 + test.size + 1 + body.size
      · exact (ihBody h hbody hpc).mono fun _ hpos => .inr (.inr (.inl hpos))
      · obtain rfl : pc = start + 1 + test.size + 1 + body.size := by
          have := h.range
          omega
        exact .again hend hback (.inr (.inl (start_self test _)))
    · exact (ih h hrest (by omega)).mono fun _ hpos => .inr (.inr (.inr hpos))

end Wordstack
