-- SUMMARY: The program of two texts with a space between them is put together from their programs.
import Wordstack.Proofs.Lexeme
import Wordstack.Proofs.Source

/-!
# Programs of joined texts

Nothing that reading keeps goes over the space between two texts that are programs on
their own: no word, no string, no definition and no block. So the two programs make up the
program of the joined text. The top-level words of the second one follow those of the
first, and their jumps are shifted by as many tokens.
-/

namespace Wordstack

namespace Jump

/-- The jump of a body that follows `n` tokens of another one. -/
def shift (n : Nat) : Jump → Jump
  | .branch elseAt endAt => .branch (elseAt.map (n + ·)) (n + endAt)
  | .loop doAt endAt => .loop (n + doAt) (n + endAt)
  | .exit endAt => .exit (n + endAt)
  | .back whileAt => .back (n + whileAt)

@[simp] theorem shift_branch {n endAt : Nat} {elseAt : Option Nat} :
    (branch elseAt endAt).shift n = branch (elseAt.map (n + ·)) (n + endAt) := rfl

@[simp] theorem shift_loop {n doAt endAt : Nat} :
    (loop doAt endAt).shift n = loop (n + doAt) (n + endAt) := rfl

@[simp] theorem shift_exit {n endAt : Nat} : (exit endAt).shift n = exit (n + endAt) := rfl

@[simp] theorem shift_back {n whileAt : Nat} : (back whileAt).shift n = back (n + whileAt) := rfl

end Jump

-- -----------------------------------------------------------------------
-- Jumps of code after code
-- -----------------------------------------------------------------------

namespace Code

theorem mem_jumps_append {code last : Code} {start : Nat} {entry : Nat × Jump} :
    entry ∈ (code.append last).jumps start ↔
      entry ∈ code.jumps start ∨ entry ∈ last.jumps (start + code.size) := by
  induction code generalizing start with
  | done => simp [append, jumps]
  | plain token h rest ih =>
    rw [append, jumps, ih, size_plain, Nat.add_assoc, Nat.add_comm 1]
    rfl
  | ifThen word yes rest _ ih =>
    rw [size_ifThen, show start + (yes.size + rest.size + 2)
      = start + 1 + yes.size + 1 + rest.size by omega]
    simp only [append, jumps, List.mem_cons, List.mem_append, ih, or_assoc]
  | ifElse word yes no rest _ _ ih =>
    rw [size_ifElse, show start + (yes.size + no.size + rest.size + 3)
      = start + 1 + yes.size + 1 + no.size + 1 + rest.size by omega]
    simp only [append, jumps, List.mem_cons, List.mem_append, ih, or_assoc]
  | loop test body rest _ _ ih =>
    rw [size_loop, show start + (test.size + body.size + rest.size + 3)
      = start + 1 + test.size + 1 + body.size + 1 + rest.size by omega]
    simp only [append, jumps, List.mem_cons, List.mem_append, ih, or_assoc]

theorem jumps_shift (code : Code) (n start : Nat) :
    code.jumps (n + start)
      = (code.jumps start).map fun entry => (n + entry.1, entry.2.shift n) := by
  induction code generalizing start with
  | done => rfl
  | plain token h rest ih => exact ih (start + 1)
  | ifThen word yes rest ihYes ih => simp [jumps, Nat.add_assoc, ihYes, ih]
  | ifElse word yes no rest ihYes ihNo ih => simp [jumps, Nat.add_assoc, ihYes, ihNo, ih]
  | loop test body rest ihTest ihBody ih => simp [jumps, Nat.add_assoc, ihTest, ihBody, ih]

end Code

namespace JumpTable

/-- The jumps of a body made of two that are indexed. -/
theorem getElem?_of_ofBody_append {function first second : String} {tokens rest : List Token}
    {jumps jumps₁ jumps₂ : JumpTable} (h : ofBody function (tokens ++ rest) = .ok jumps)
    (h₁ : ofBody first tokens = .ok jumps₁) (h₂ : ofBody second rest = .ok jumps₂)
    (offset : Nat) (jump : Jump) :
    jumps[offset]? = some jump ↔ jumps₁[offset]? = some jump ∨
      ∃ offset' jump', jumps₂[offset']? = some jump' ∧
        offset = tokens.length + offset' ∧ jump = jump'.shift tokens.length := by
  obtain ⟨code, rfl⟩ := code_of_ofBody h₁
  obtain ⟨last, rfl⟩ := code_of_ofBody h₂
  rw [getElem?_of_ofBody h (Code.tokens_append code last), getElem?_of_ofBody h₁ rfl,
    Code.mem_jumps_append, Nat.add_comm, Code.jumps_shift, List.mem_map]
  refine or_congr Iff.rfl ⟨?_, ?_⟩
  · rintro ⟨⟨offset', jump'⟩, hmem, ⟨⟩⟩
    exact ⟨offset', jump', (getElem?_of_ofBody h₂ rfl _ _).mpr hmem, rfl, rfl⟩
  · rintro ⟨offset', jump', hget, rfl, rfl⟩
    exact ⟨(offset', jump'), (getElem?_of_ofBody h₂ rfl _ _).mp hget, rfl⟩

end JumpTable

-- -----------------------------------------------------------------------
-- Lexemes of joined texts
-- -----------------------------------------------------------------------

namespace Lexeme

variable {first second : String}

theorem dropReturns_append :
    dropReturns (first ++ " " ++ second) = dropReturns first ++ " " ++ dropReturns second := by
  apply String.toList_injective
  simp [dropReturns, List.filter_append]

/-- The words of both texts are rendered one after the other. -/
theorem scan_append {lexemes₁ lexemes₂ : List Lexeme} (h₁ : scan first = .ok lexemes₁)
    (h₂ : scan second = .ok lexemes₂) :
    scan (first ++ " " ++ second) = .ok (lexemes₁ ++ lexemes₂) := by
  obtain ⟨pieces₁, hpieces₁, rfl, hwords₁⟩ := scan_eq_ok_iff.mp h₁
  obtain ⟨pieces₂, hpieces₂, rfl, hwords₂⟩ := scan_eq_ok_iff.mp h₂
  refine scan_eq_ok_iff.mpr ⟨pieces₁ ++ pieces₂, ?_, by simp, ?_⟩
  · exact List.forall_mem_append.mpr ⟨hpieces₁, hpieces₂⟩
  · have htext : (first ++ " " ++ second).toList = first.toList ++ ' ' :: second.toList := by
      simp
    rw [htext, Text.splitWords_append_blank (by decide), hwords₁, hwords₂, splitWords_render,
      splitWords_render, splitWords_render, List.flatMap_append]

end Lexeme

-- -----------------------------------------------------------------------
-- Items of joined texts
-- -----------------------------------------------------------------------

namespace Item

theorem Splits.append {first second : String} {items₁ items₂ : List Item}
    (h₁ : Splits first items₁) (h₂ : Splits second items₂) :
    Splits (first ++ " " ++ second) (items₁ ++ items₂) where
  scan := by
    rw [Lexeme.dropReturns_append, Lexeme.scan_append h₁.scan h₂.scan, List.flatMap_append]
  isStructured := by
    obtain ⟨code, hcode⟩ := h₁.isStructured
    obtain ⟨last, hlast⟩ := h₂.isStructured
    exact ⟨code.append last, by rw [Code.tokens_append, hcode, hlast, List.flatMap_append]⟩

theorem latest?_append (items₁ items₂ : List Item) (name : String) :
    latest? (items₁ ++ items₂) name = (latest? items₂ name).or (latest? items₁ name) := by
  rw [latest?, List.reverse_append, List.findSome?_append]
  rfl

end Item

-- -----------------------------------------------------------------------
-- Programs of joined texts
-- -----------------------------------------------------------------------

/-- The definition has the words of two others, one after the other, and the jumps of both,
those of the second one shifted. -/
structure Definition.Follows (d first second : Definition) : Prop where
  body_eq : d.body = first.body ++ second.body
  jumps_iff : ∀ offset jump, d.jumps[offset]? = some jump ↔
    first.jumps[offset]? = some jump ∨
      ∃ offset' jump', second.jumps[offset']? = some jump' ∧
        offset = first.body.size + offset' ∧ jump = jump'.shift first.body.size

theorem Definition.Consists.unique {d d' : Definition} {name : String} {params : List Param}
    {body : List Token} (h : d.Consists name params body) (h' : d'.Consists name params body) :
    d = d' := by
  have hmake := make_eq_ok_iff.mpr h
  rw [make_eq_ok_iff.mpr h'] at hmake
  exact (Except.ok.inj hmake).symm

theorem Definition.Consists.follows {d d₁ d₂ : Definition} {name : String} {params : List Param}
    {body₁ body₂ : List Token} (h : d.Consists name params (body₁ ++ body₂))
    (h₁ : d₁.Consists name params body₁) (h₂ : d₂.Consists name params body₂) :
    d.Follows d₁ d₂ where
  body_eq := by simp [h.body_eq, h₁.body_eq, h₂.body_eq]
  jumps_iff := by
    have hsize : d₁.body.size = body₁.length := by simp [h₁.body_eq]
    rw [hsize]
    exact JumpTable.getElem?_of_ofBody_append h.jumps_eq h₁.jumps_eq h₂.jumps_eq

namespace Program

/-- The program is made of two others: `_global` has the words of the first one and then
those of the second, and any other name stands for what it does in the second one, or else
in the first. -/
structure Joins (p first second : Program) : Prop where
  global : ∃ d d₁ d₂, p.functions[globalName]? = some d ∧
    first.functions[globalName]? = some d₁ ∧ second.functions[globalName]? = some d₂ ∧
    d.name = globalName ∧ d.params = [] ∧ d.Follows d₁ d₂
  functions : ∀ name : String, name ≠ globalName →
    p.functions[name]? = second.functions[name]?.or first.functions[name]?
  blocks : ∀ name : String, p.blocks[name]? = second.blocks[name]?.or first.blocks[name]?

variable {p q : Program} {items items' : List Item} {version version' name : String}

/-- What a name other than `_global` stands for depends on its last definition alone. -/
theorem Describes.functions_congr (hp : p.Describes items version)
    (hq : q.Describes items' version') (hname : name ≠ globalName)
    (h : Item.latest? items name = Item.latest? items' name) :
    p.functions[name]? = q.functions[name]? := by
  cases hlatest : Item.latest? items name with
  | none => rw [hp.noOther name hname hlatest, hq.noOther name hname (h ▸ hlatest)]
  | some c =>
    obtain ⟨d, hd, hconsists⟩ := hp.latest name c hlatest
    obtain ⟨d', hd', hconsists'⟩ := hq.latest name c (h ▸ hlatest)
    rw [hd, hd', hconsists.unique hconsists']

theorem Describes.blocks_eq (h : p.Describes items version) (hname : name ≠ globalName) :
    p.blocks[name]? = p.functions[name]?.map fun _ => ∅ := by
  have hsame := h.sameNames name
  simp only [Std.ExtTreeMap.mem_iff_isSome_getElem?] at hsame
  cases hd : p.functions[name]? with
  | none => simpa [hd] using hsame
  | some d =>
    rw [hd] at hsame
    obtain ⟨block, hblock⟩ := Option.isSome_iff_exists.mp (hsame.mpr rfl)
    rw [hblock, h.otherBlocks name block hname hblock]
    rfl

variable {p₁ p₂ : Program} {items₁ items₂ : List Item}

theorem Describes.joins (h : p.Describes (items₁ ++ items₂) version)
    (h₁ : p₁.Describes items₁ version) (h₂ : p₂.Describes items₂ version) : p.Joins p₁ p₂ := by
  have hfunctions : ∀ name : String, name ≠ globalName →
      p.functions[name]? = p₂.functions[name]?.or p₁.functions[name]? := by
    intro name hname
    have hlatest := Item.latest?_append items₁ items₂ name
    cases hsecond : Item.latest? items₂ name with
    | none =>
      rw [hsecond, Option.none_or] at hlatest
      rw [h₂.noOther name hname hsecond, Option.none_or, h.functions_congr h₁ hname hlatest]
    | some c =>
      rw [hsecond, Option.some_or, ← hsecond] at hlatest
      obtain ⟨d, hd, -⟩ := h₂.latest name c hsecond
      rw [h.functions_congr h₂ hname hlatest, hd, Option.some_or]
  refine ⟨?_, hfunctions, ?_⟩
  · obtain ⟨d, hd, hconsists⟩ := h.global
    obtain ⟨d₁, hd₁, hconsists₁⟩ := h₁.global
    obtain ⟨d₂, hd₂, hconsists₂⟩ := h₂.global
    rw [List.flatMap_append] at hconsists
    exact ⟨d, d₁, d₂, hd, hd₁, hd₂, hconsists.name_eq, hconsists.params_eq,
      hconsists.follows hconsists₁ hconsists₂⟩
  · intro name
    by_cases hname : name = globalName
    · rw [hname, h.globalBlock, h₂.globalBlock, Option.some_or]
    · rw [h.blocks_eq hname, h₁.blocks_eq hname, h₂.blocks_eq hname, hfunctions name hname,
        Option.map_or]

/-- Two texts that are programs make up a program with a space between them: the top-level
words of the second one follow those of the first, with their jumps shifted, and of two
definitions of a name the one in the second text counts. -/
theorem ofSource_append {first second version : String} {p₁ p₂ : Program}
    (h₁ : ofSource first version = .ok p₁) (h₂ : ofSource second version = .ok p₂) :
    ∃ p, ofSource (first ++ " " ++ second) version = .ok p ∧ p.Joins p₁ p₂ := by
  obtain ⟨items₁, hsplits₁⟩ := splits_of_ofSource h₁
  obtain ⟨items₂, hsplits₂⟩ := splits_of_ofSource h₂
  obtain ⟨p, hp, hdescribes⟩ := ofSource_of_splits version (hsplits₁.append hsplits₂)
  exact ⟨p, hp, hdescribes.joins (describes_of_ofSource h₁ hsplits₁)
    (describes_of_ofSource h₂ hsplits₂)⟩

/-- A loop after a conditional, and two definitions of one name. -/
theorem ofSource_append_of_loop :
    ∃ p₁ p₂ p d, ofSource "true if end fun f as 1 ret end" defaultVersion = .ok p₁ ∧
      ofSource "while f do end fun f as false ret end" defaultVersion = .ok p₂ ∧
      ofSource ("true if end fun f as 1 ret end" ++ " " ++ "while f do end fun f as false ret end")
        defaultVersion = .ok p ∧ p.Joins p₁ p₂ ∧
      p.functions[globalName]? = some d ∧ d.jumps[3]? = some (Jump.loop 5 6) := by
  have hcheck : (do
      let p₁ ← (ofSource "true if end fun f as 1 ret end" defaultVersion).toOption
      let p₂ ← (ofSource "while f do end fun f as false ret end" defaultVersion).toOption
      let d₁ ← p₁.functions[globalName]?
      let d₂ ← p₂.functions[globalName]?
      return decide (d₁.body.size = 3 ∧ d₂.jumps[0]? = some (Jump.loop 2 3))) = some true := by
    decide +kernel
  simp only [Option.bind_eq_bind, Option.bind_eq_some_iff] at hcheck
  obtain ⟨p₁, hp₁, p₂, hp₂, d₁, hd₁, d₂, hd₂, hcheck⟩ := hcheck
  obtain ⟨hsize, hloop⟩ := of_decide_eq_true (Option.some.inj hcheck)
  have hfirst := Except.eq_ok_of_toOption hp₁
  have hsecond := Except.eq_ok_of_toOption hp₂
  obtain ⟨p, hp, hjoins⟩ := ofSource_append hfirst hsecond
  obtain ⟨d, e₁, e₂, hd, he₁, he₂, -, -, hfollows⟩ := hjoins.global
  obtain rfl : d₁ = e₁ := Option.some.inj (hd₁.symm.trans he₁)
  obtain rfl : d₂ = e₂ := Option.some.inj (hd₂.symm.trans he₂)
  refine ⟨p₁, p₂, p, d, hfirst, hsecond, hp, hjoins, hd, ?_⟩
  refine (hfollows.jumps_iff 3 _).mpr (.inr ⟨0, .loop 2 3, hloop, ?_, ?_⟩)
  · rw [hsize]
  · rw [hsize]
    rfl

end Program

end Wordstack
