-- SUMMARY: Scanning reads back what rendering writes, and fails on exactly the texts with a string that nothing closes.
import Mathlib.Data.List.Induction
import Mathlib.Data.List.Infix
import Wordstack.Lexeme

/-!
# Rendering and scanning

A piece is a bare word, or a string with the quote that is written around it.
Scanning undoes the rendering of pieces, up to blanks between words, for exactly those
strings that are written with single spaces and that no quote closes too early.

Scanning sees words, and the conditions on strings are about characters. `Text.joined`
goes between the two: a text with single spaces is its first word and the words that
follow, and each place where a space stands is a place between two of those words.
-/

namespace Wordstack

-- -----------------------------------------------------------------------
-- Words
-- -----------------------------------------------------------------------

namespace Text

variable {w start u after t : List Char} {rest : List (List Char)} {b c : Char}

/-- Whether characters make up a word. -/
def IsWord (w : List Char) : Prop := w ≠ [] ∧ ∀ c ∈ w, isBlank c = false

instance (w : List Char) : Decidable (IsWord w) :=
  decidable_of_iff (w ≠ [] ∧ w.all (!isBlank ·) = true) (by simp [IsWord])

theorem consWord_append (w : List Char) (ws vs : List (List Char)) :
    consWord w (ws ++ vs) = consWord w ws ++ vs := by
  unfold consWord
  split <;> rfl

theorem splitWords_eq (cs : List Char) :
    splitWords cs =
      consWord (cs.foldr splitStep ([], [])).1 (cs.foldr splitStep ([], [])).2 := rfl

theorem foldr_splitStep (cs : List Char) (ws : List (List Char)) :
    cs.foldr splitStep ([], ws) =
      ((cs.foldr splitStep ([], [])).1, (cs.foldr splitStep ([], [])).2 ++ ws) := by
  induction cs with
  | nil => rfl
  | cons c cs ih =>
    simp only [List.foldr_cons, ih, splitStep]
    split
    · rw [consWord_append]
    · rfl

/-- No word goes over a blank. -/
theorem splitWords_append_blank (hb : isBlank b = true) (xs ys : List Char) :
    splitWords (xs ++ b :: ys) = splitWords xs ++ splitWords ys := by
  have hys : (b :: ys).foldr splitStep ([], []) = ([], splitWords ys) := by
    rw [List.foldr_cons, splitStep, if_pos hb, splitWords_eq]
  rw [splitWords_eq, List.foldr_append, hys, foldr_splitStep, splitWords_eq xs]
  exact consWord_append _ _ _

theorem foldr_of_not_blank (h : ∀ c ∈ w, isBlank c = false) :
    w.foldr splitStep ([], []) = (w, []) := by
  induction w with
  | nil => rfl
  | cons c w ih =>
    have hc : isBlank c = false := h c List.mem_cons_self
    rw [List.foldr_cons, ih fun c hc => h c (List.mem_cons_of_mem _ hc), splitStep, hc]
    rfl

theorem IsWord.splitWords_eq (h : IsWord w) : splitWords w = [w] := by
  rw [Text.splitWords_eq, foldr_of_not_blank h.2, consWord, if_neg (by simp [h.1])]

theorem isWord_of_mem_consWord {v : List Char} {ws : List (List Char)}
    (hv : ∀ c ∈ v, isBlank c = false) (hws : ∀ w ∈ ws, IsWord w) (h : w ∈ consWord v ws) :
    IsWord w := by
  unfold consWord at h
  split at h
  · exact hws w h
  next hne =>
    rcases List.mem_cons.mp h with rfl | h
    · exact ⟨by simpa using hne, hv⟩
    · exact hws w h

/-- What splitting has found at any time: a word that may go on, and words. -/
theorem foldr_splitStep_words (cs : List Char) :
    (∀ c ∈ (cs.foldr splitStep ([], [])).1, isBlank c = false) ∧
      ∀ w ∈ (cs.foldr splitStep ([], [])).2, IsWord w := by
  induction cs with
  | nil => simp
  | cons c cs ih =>
    obtain ⟨hfirst, hwords⟩ := ih
    simp only [List.foldr_cons, splitStep]
    split
    · exact ⟨by simp, fun w hw => isWord_of_mem_consWord hfirst hwords hw⟩
    next hc =>
      refine ⟨?_, hwords⟩
      intro d hd
      rcases List.mem_cons.mp hd with rfl | hd
      · exact Bool.not_eq_true _ ▸ hc
      · exact hfirst d hd

theorem isWord_of_mem_splitWords {cs : List Char} (h : w ∈ splitWords cs) : IsWord w := by
  obtain ⟨hfirst, hwords⟩ := foldr_splitStep_words cs
  rw [splitWords_eq] at h
  exact isWord_of_mem_consWord hfirst hwords h

/-- A text that starts with a character of a word starts with that word. -/
theorem splitWords_cons (hc : isBlank c = false) (cs : List Char) :
    ∃ w rest, splitWords (c :: cs) = (c :: w) :: rest := by
  refine ⟨(cs.foldr splitStep ([], [])).1, (cs.foldr splitStep ([], [])).2, ?_⟩
  rw [splitWords_eq, List.foldr_cons, splitStep, hc]
  rfl

theorem splitWords_intercalate (texts : List (List Char)) :
    splitWords ([' '].intercalate texts) = texts.flatMap splitWords := by
  induction texts with
  | nil => rfl
  | cons text texts ih =>
    cases texts with
    | nil => simp
    | cons next texts =>
      rw [List.intercalate_cons_cons, List.append_assoc, List.singleton_append,
        splitWords_append_blank (by decide), ih, ← List.flatMap_cons]

-- -----------------------------------------------------------------------
-- Texts with single spaces
-- -----------------------------------------------------------------------

/-- A text and the words that follow it, each after a single space. -/
def joined (start : List Char) : List (List Char) → List Char
  | [] => start
  | w :: rest => start ++ ' ' :: joined w rest

theorem joined_append (start : List Char) (taken : List (List Char)) (w : List Char)
    (more : List (List Char)) :
    joined start (taken ++ w :: more) = joined start taken ++ ' ' :: joined w more := by
  induction taken generalizing start with
  | nil => rfl
  | cons v taken ih => simp only [List.cons_append, joined, ih, List.append_assoc]

theorem cons_joined (c : Char) (start : List Char) (rest : List (List Char)) :
    c :: joined start rest = joined (c :: start) rest := by
  cases rest <;> rfl

theorem splitWords_joined (hw : IsWord w) (hrest : ∀ v ∈ rest, IsWord v) :
    splitWords (joined w rest) = w :: rest := by
  induction rest generalizing w with
  | nil => exact hw.splitWords_eq
  | cons v rest ih =>
    obtain ⟨hv, hrest⟩ := List.forall_mem_cons.mp hrest
    rw [joined, splitWords_append_blank (by decide), hw.splitWords_eq, ih hv hrest]
    rfl

theorem space_not_mem (h : ∀ c ∈ start, isBlank c = false) : ' ' ∉ start := by
  intro hmem
  exact absurd (h ' ' hmem) (by decide)

/-- A space in joined words stands between two of them. -/
theorem joined_eq_append_space (hstart : ∀ c ∈ start, isBlank c = false)
    (hrest : ∀ v ∈ rest, IsWord v) (h : joined start rest = u ++ ' ' :: after) :
    ∃ taken w more, rest = taken ++ w :: more ∧ u = joined start taken ∧
      after = joined w more := by
  induction rest generalizing start u with
  | nil =>
    rw [joined] at h
    exact absurd (by simp [h]) (space_not_mem hstart)
  | cons w rest ih =>
    obtain ⟨hw, hrest⟩ := List.forall_mem_cons.mp hrest
    rw [joined] at h
    rcases List.append_eq_append_iff.mp h with ⟨a, rfl, ha⟩ | ⟨a, rfl, ha⟩
    · cases a with
      | nil =>
        cases ha
        exact ⟨[], w, rest, rfl, by simp [joined], rfl⟩
      | cons d a =>
        obtain ⟨hd, htail⟩ := List.cons.inj ha
        obtain ⟨taken, v, more, rfl, rfl, rfl⟩ := ih hw.2 hrest htail
        subst hd
        exact ⟨w :: taken, v, more, rfl, rfl, rfl⟩
    · cases a with
      | nil =>
        cases ha
        exact ⟨[], w, rest, rfl, by simp [joined], rfl⟩
      | cons d a =>
        obtain ⟨rfl, -⟩ := List.cons.inj ha
        exact absurd (by simp) (space_not_mem hstart)

/-- All blanks are spaces, and no two of them are adjacent. -/
def Spaced (t : List Char) : Prop :=
  (∀ c ∈ t, isBlank c = true → c = ' ') ∧ ¬ [' ', ' '] <:+: t

instance (t : List Char) : Decidable (Spaced t) :=
  decidable_of_iff (t.all (fun c => !isBlank c || c == ' ') = true ∧ ¬ [' ', ' '] <:+: t) <| by
    simp [Spaced, ← Bool.not_eq_true, Classical.or_iff_not_imp_left]

theorem Spaced.of_infix (h : Spaced t) (hu : u <:+: t) : Spaced u :=
  ⟨fun c hc => h.1 c (hu.subset hc), fun hspaces => h.2 (hspaces.trans hu)⟩

theorem Spaced.concat (h : Spaced t) (hc : isBlank c = false) : Spaced (t ++ [c]) := by
  refine ⟨?_, ?_⟩
  · intro d hd hblank
    rcases List.mem_append.mp hd with hd | hd
    · exact h.1 d hd hblank
    · rw [List.mem_singleton.mp hd, hc] at hblank
      cases hblank
  · intro hspaces
    rcases List.infix_concat_iff.mp hspaces with hsuffix | hinfix
    · have hlast := hsuffix.getLast (by simp)
      simp only [List.getLast_append_singleton] at hlast
      rw [← hlast] at hc
      exact absurd hc (by decide)
    · exact h.2 hinfix

theorem mem_joined {d : Char} (hstart : ∀ c ∈ start, isBlank c = false)
    (hrest : ∀ v ∈ rest, IsWord v) (hd : d ∈ joined start rest) (hblank : isBlank d = true) :
    d = ' ' := by
  induction rest generalizing start with
  | nil => exact absurd hblank (by simp [hstart d hd])
  | cons w rest ih =>
    obtain ⟨hw, hrest⟩ := List.forall_mem_cons.mp hrest
    rw [joined, List.mem_append, List.mem_cons] at hd
    rcases hd with hd | rfl | hd
    · exact absurd hblank (by simp [hstart d hd])
    · rfl
    · exact ih hw.2 hrest hd

theorem spaced_joined (hstart : ∀ c ∈ start, isBlank c = false)
    (hrest : ∀ v ∈ rest, IsWord v) : Spaced (joined start rest) := by
  refine ⟨fun d hd hblank => mem_joined hstart hrest hd hblank, ?_⟩
  rintro ⟨u, v, h⟩
  have hsplit : joined start rest = u ++ ' ' :: ' ' :: v := by simp [← h]
  obtain ⟨taken, w, more, rfl, -, hafter⟩ := joined_eq_append_space hstart hrest hsplit
  obtain ⟨hne, hw⟩ := hrest w (by simp)
  cases w with
  | nil => exact hne rfl
  | cons c w =>
    rw [← cons_joined] at hafter
    obtain ⟨rfl, -⟩ := List.cons.inj hafter
    exact absurd (by simp) (space_not_mem hw)

/-- A text with single spaces, and none at its end, is made of joined words. -/
theorem exists_joined (h : Spaced t) (hlast : t.getLast? ≠ some ' ') :
    ∃ start rest, t = joined start rest ∧ (∀ c ∈ start, isBlank c = false) ∧
      ∀ v ∈ rest, IsWord v := by
  induction t with
  | nil => exact ⟨[], [], rfl, by simp, by simp⟩
  | cons c t ih =>
    have htail : t.getLast? ≠ some ' ' := by
      intro ht
      exact hlast (by simp [List.getLast?_cons, ht])
    obtain ⟨start, rest, rfl, hstart, hrest⟩ :=
      ih (h.of_infix (List.suffix_cons c t).isInfix) htail
    cases hc : isBlank c with
    | false => exact ⟨c :: start, rest, cons_joined c start rest,
        List.forall_mem_cons.mpr ⟨hc, hstart⟩, hrest⟩
    | true =>
      obtain rfl := h.1 c List.mem_cons_self hc
      refine ⟨[], start :: rest, rfl, by simp, ?_⟩
      refine List.forall_mem_cons.mpr ⟨⟨?_, hstart⟩, hrest⟩
      rintro rfl
      cases rest with
      | nil => exact hlast rfl
      | cons w rest => exact h.2 ⟨[], joined w rest, rfl⟩

end Text

namespace Lexeme

open Text (IsWord Spaced joined splitWords)

variable {q : Char} {s : String} {start opening t : List Char} {rest : List (List Char)}
  {found : List Lexeme} {ws : List (List Char)} {w : List Char}

-- -----------------------------------------------------------------------
-- Strings that can be written between quotes
-- -----------------------------------------------------------------------

/-- The text ends with the quote, and no backslash stands right before it. -/
def Closes (quote : Char) (text : List Char) : Prop :=
  ∃ before, text = before ++ [quote] ∧ before.getLast? ≠ some '\\'

theorem isClosed_iff :
    OpenString.isClosed { start := opening, quote := q, reversed := t.reverse } = true ↔
      Closes q t := by
  rcases List.eq_nil_or_concat t with rfl | ⟨before, c, rfl⟩
  · simp [OpenString.isClosed, Closes]
  · simp only [OpenString.isClosed, Closes, List.concat_eq_append, List.reverse_append,
      List.reverse_singleton, List.singleton_append, List.head?_reverse, Bool.and_eq_true,
      beq_iff_eq, bne_iff_ne]
    constructor
    · rintro ⟨rfl, hlast⟩
      exact ⟨before, rfl, hlast⟩
    · rintro ⟨before', h, hlast⟩
      obtain ⟨rfl, hc⟩ := List.append_inj' h rfl
      exact ⟨(List.cons.inj hc).1, hlast⟩

theorem settle_of_closes (h : Closes q (s.toList ++ [q])) :
    Scan.settle found { start := opening, quote := q, reversed := (s.toList ++ [q]).reverse } =
      { found := .quoted s :: found } := by
  rw [Scan.settle, if_pos (isClosed_iff.mpr h)]
  simp [OpenString.content]

theorem settle_of_not_closes (h : ¬ Closes q t) :
    Scan.settle found { start := opening, quote := q, reversed := t.reverse } =
      { found, pending := some { start := opening, quote := q, reversed := t.reverse } } := by
  rw [Scan.settle, if_neg (mt isClosed_iff.mp h)]

theorem not_isBlank_of_isQuote (h : isQuote q = true) : Text.isBlank q = false := by
  simp only [isQuote, Bool.or_eq_true, beq_iff_eq] at h
  rcases h with rfl | rfl
  · decide
  · decide

theorem isWord_opening (hq : isQuote q = true) (hstart : ∀ c ∈ start, Text.isBlank c = false) :
    IsWord (q :: start) :=
  ⟨by simp, List.forall_mem_cons.mpr ⟨not_isBlank_of_isQuote hq, hstart⟩⟩

/-- The blanks of the string are single spaces, it does not end with a backslash, and
wherever the quote stands before a space, a backslash stands before the quote. -/
structure Quotable (quote : Char) (s : String) : Prop where
  isQuote : isQuote quote = true
  spaced : Spaced s.toList
  last : s.toList.getLast? ≠ some '\\'
  escaped (before after : List Char) : s.toList = before ++ quote :: ' ' :: after →
    before.getLast? = some '\\'

instance (quote : Char) (s : String) : Decidable (Quotable quote s) :=
  decidable_of_iff (Lexeme.isQuote quote = true ∧ Spaced s.toList ∧
      s.toList.getLast? ≠ some '\\' ∧ ∀ i < s.toList.length,
        (s.toList.drop i).take 2 = [quote, ' '] → (s.toList.take i).getLast? = some '\\') <| by
    constructor
    · rintro ⟨hq, hspaced, hlast, hescaped⟩
      refine ⟨hq, hspaced, hlast, ?_⟩
      intro before after h
      have hbefore := hescaped before.length (by simp [h]) (by simp [h])
      rwa [h, List.take_left] at hbefore
    · rintro ⟨hq, hspaced, hlast, hescaped⟩
      refine ⟨hq, hspaced, hlast, ?_⟩
      intro i _ hi
      refine hescaped (s.toList.take i) ((s.toList.drop i).drop 2) ?_
      calc s.toList = s.toList.take i ++ s.toList.drop i := (List.take_append_drop i _).symm
        _ = s.toList.take i ++ ((s.toList.drop i).take 2 ++ (s.toList.drop i).drop 2) := by
          rw [List.take_append_drop 2]
        _ = s.toList.take i ++ quote :: ' ' :: (s.toList.drop i).drop 2 := by rw [hi]; rfl

/-- No start of the text that ends before a space is closed. -/
def OpenUntilEnd (quote : Char) (start : List Char) (rest : List (List Char)) : Prop :=
  ∀ taken w more, rest = taken ++ w :: more → ¬ Closes quote (joined start taken)

/-- A string that can be written between quotes is made of words, and only the last of
them closes it. -/
theorem Quotable.exists_joined (h : Quotable q s) :
    ∃ start rest, s.toList ++ [q] = joined start rest ∧
      (∀ c ∈ start, Text.isBlank c = false) ∧ (∀ v ∈ rest, IsWord v) ∧
      OpenUntilEnd q start rest := by
  have hq := not_isBlank_of_isQuote h.isQuote
  have hlast : (s.toList ++ [q]).getLast? ≠ some ' ' := by
    rw [List.getLast?_concat]
    rintro ⟨rfl⟩
    exact absurd hq (by decide)
  obtain ⟨start, rest, heq, hstart, hrest⟩ := Text.exists_joined (h.spaced.concat hq) hlast
  refine ⟨start, rest, heq, hstart, hrest, ?_⟩
  rintro taken w more rfl ⟨before, hbefore, hbackslash⟩
  rw [Text.joined_append, hbefore] at heq
  -- The quote at the very end belongs to the words that are still to come.
  rcases List.eq_nil_or_concat (joined w more) with hnil | ⟨after, d, hafter⟩
  · have hw := hrest w (by simp)
    cases more with
    | nil => exact hw.1 hnil
    | cons v more => simp [joined] at hnil
  · rw [hafter, List.concat_eq_append] at heq
    have hs : s.toList ++ [q] = before ++ q :: ' ' :: after ++ [d] := by simp [heq]
    exact hbackslash (h.escaped before after (List.append_inj' hs rfl).1)

/-- Words of which the last one is the first to close them make up a string that can be
written between quotes. -/
theorem quotable_of_closes (hq : isQuote q = true) (hstart : ∀ c ∈ start, Text.isBlank c = false)
    (hrest : ∀ v ∈ rest, IsWord v) (hopen : OpenUntilEnd q start rest)
    (hcloses : Closes q (joined start rest)) :
    ∃ s : String, joined start rest = s.toList ++ [q] ∧ Quotable q s := by
  obtain ⟨content, hcontent, hlast⟩ := hcloses
  refine ⟨String.ofList content, by simpa using hcontent, hq, ?_, by simpa using hlast, ?_⟩
  · have hspaced := Text.spaced_joined hstart hrest
    rw [hcontent] at hspaced
    simpa using hspaced.of_infix (List.prefix_append content [q]).isInfix
  · intro before after h
    rw [String.toList_ofList] at h
    have hspace : joined start rest = before ++ [q] ++ ' ' :: (after ++ [q]) := by
      simp [hcontent, h]
    obtain ⟨taken, w, more, hsplit, htaken, -⟩ :=
      Text.joined_eq_append_space hstart hrest hspace
    apply Classical.byContradiction
    intro hbackslash
    exact hopen taken w more hsplit ⟨before, htaken.symm, hbackslash⟩

/-- Scanning goes on with a string through all words that do not close it. -/
theorem foldl_push_joined (hq : isQuote q = true) (hopen : OpenUntilEnd q start rest) :
    ((q :: start) :: rest).foldl Scan.push { found } =
      Scan.settle found { start := q :: start, quote := q, reversed := (joined start rest).reverse }
    := by
  induction rest using List.reverseRecOn with
  | nil => simp [Scan.push, hq, joined]
  | append_singleton rest w ih =>
    have hbefore : OpenUntilEnd q start rest := by
      rintro taken v more rfl
      exact hopen taken v (more ++ [w]) (by simp)
    rw [← List.cons_append, List.foldl_append, ih hbefore,
      settle_of_not_closes (hopen rest w [] rfl)]
    simp [Scan.push, OpenString.append, Text.joined_append, joined]

-- -----------------------------------------------------------------------
-- Pieces
-- -----------------------------------------------------------------------

/-- A bare word, or a string and the quote that is written around it. -/
inductive Piece where
  | word (w : String)
  | quoted (quote : Char) (s : String)
deriving DecidableEq, Repr

namespace Piece

def lexeme : Piece → Lexeme
  | .word w => .word w
  | .quoted _ s => .quoted s

def text : Piece → String
  | .word w => w
  | .quoted quote s => String.singleton quote ++ s ++ String.singleton quote

/-- A bare word is a word that does not start with a quote. -/
def Renderable : Piece → Prop
  | .word w => IsWord w.toList ∧ w.toList.head?.any isQuote = false
  | .quoted quote s => Quotable quote s

instance : (piece : Piece) → Decidable piece.Renderable
  | .word w => inferInstanceAs (Decidable (IsWord w.toList ∧ w.toList.head?.any isQuote = false))
  | .quoted quote s => inferInstanceAs (Decidable (Quotable quote s))

theorem toList_text_quoted (quote : Char) (s : String) :
    (quoted quote s).text.toList = quote :: (s.toList ++ [quote]) := by
  simp [text]

theorem foldl_push_text {piece : Piece} (h : piece.Renderable) :
    (splitWords piece.text.toList).foldl Scan.push { found } =
      { found := piece.lexeme :: found } := by
  cases piece with
  | word w =>
    obtain ⟨hword, hbare⟩ := h
    have hscan : Scan.push { found } w.toList = { found := .word w :: found } := by
      cases hw : w.toList with
      | nil => exact absurd hw hword.1
      | cons c cs =>
        rw [hw] at hbare
        have hc : isQuote c = false := hbare
        have hback : String.ofList (c :: cs) = w := by rw [← hw, String.ofList_toList]
        simp [Scan.push, hc, hback]
    rw [text, hword.splitWords_eq]
    exact hscan
  | quoted quote s =>
    obtain ⟨start, rest, heq, hstart, hrest, hopen⟩ := Quotable.exists_joined h
    have hwords := Text.splitWords_joined (isWord_opening h.isQuote hstart) hrest
    rw [toList_text_quoted, heq, Text.cons_joined, hwords, foldl_push_joined h.isQuote hopen,
      ← heq, settle_of_closes ⟨s.toList, rfl, h.last⟩]
    rfl

end Piece

/-- Writes pieces one after the other, with single spaces between them. -/
def render (pieces : List Piece) : String := " ".intercalate (pieces.map Piece.text)

theorem splitWords_render (pieces : List Piece) :
    splitWords (render pieces).toList =
      pieces.flatMap fun piece => splitWords piece.text.toList := by
  have hspace : " ".toList = [' '] := rfl
  rw [render, String.toList_intercalate, hspace, Text.splitWords_intercalate, List.map_map,
    List.flatMap_map]
  rfl

theorem splitWords_render_concat (pieces : List Piece) (piece : Piece) :
    splitWords (render (pieces ++ [piece])).toList =
      splitWords (render pieces).toList ++ splitWords piece.text.toList := by
  rw [splitWords_render, splitWords_render, List.flatMap_append, List.flatMap_singleton]

theorem foldl_push_render {pieces : List Piece} (h : ∀ piece ∈ pieces, piece.Renderable) :
    (splitWords (render pieces).toList).foldl Scan.push {} =
      { found := (pieces.map Piece.lexeme).reverse } := by
  induction pieces using List.reverseRecOn with
  | nil => rfl
  | append_singleton pieces piece ih =>
    have hpieces : ∀ piece ∈ pieces, piece.Renderable := by
      intro piece hpiece
      exact h piece (List.mem_append_left _ hpiece)
    rw [splitWords_render_concat, List.foldl_append, ih hpieces,
      Piece.foldl_push_text (h piece (by simp))]
    simp

-- -----------------------------------------------------------------------
-- What scanning has read
-- -----------------------------------------------------------------------

/-- The words are those of rendered pieces, and after them those of a string that
nothing has closed, if one is pending. -/
inductive Reads : List (List Char) → Scan → Prop where
  | settled {pieces : List Piece} (h : ∀ piece ∈ pieces, piece.Renderable) :
      Reads (splitWords (render pieces).toList) { found := (pieces.map Piece.lexeme).reverse }
  | pending {pieces : List Piece} (h : ∀ piece ∈ pieces, piece.Renderable) {q : Char}
      {start : List Char} {rest : List (List Char)} (hq : isQuote q = true)
      (hopen : ∀ taken, taken <+: rest → ¬ Closes q (joined start taken)) :
      Reads (splitWords (render pieces).toList ++ (q :: start) :: rest)
        { found := (pieces.map Piece.lexeme).reverse,
          pending := some
            { start := q :: start, quote := q, reversed := (joined start rest).reverse } }

theorem Reads.concat {pieces : List Piece} (h : ∀ piece ∈ pieces, piece.Renderable)
    {piece : Piece} (hpiece : piece.Renderable) :
    Reads (splitWords (render pieces).toList ++ splitWords piece.text.toList)
      { found := piece.lexeme :: (pieces.map Piece.lexeme).reverse } := by
  have hreads := Reads.settled
    (List.forall_mem_append.mpr ⟨h, List.forall_mem_singleton.mpr hpiece⟩)
  rw [splitWords_render_concat] at hreads
  simpa using hreads

/-- One more word of a string closes it, or leaves it pending. -/
theorem Reads.settle {pieces : List Piece} (h : ∀ piece ∈ pieces, piece.Renderable)
    (hq : isQuote q = true) (hstart : ∀ c ∈ start, Text.isBlank c = false)
    (hrest : ∀ v ∈ rest, IsWord v) (hopen : OpenUntilEnd q start rest) :
    Reads (splitWords (render pieces).toList ++ (q :: start) :: rest)
      (Scan.settle (pieces.map Piece.lexeme).reverse
        { start := q :: start, quote := q, reversed := (joined start rest).reverse }) := by
  by_cases hcloses : Closes q (joined start rest)
  · obtain ⟨s, heq, hs⟩ := quotable_of_closes hq hstart hrest hopen hcloses
    have hwords := Text.splitWords_joined (isWord_opening hq hstart) hrest
    have hpiece : (Piece.quoted q s).Renderable := hs
    have hreads := Reads.concat h hpiece
    rw [Piece.toList_text_quoted, ← heq, Text.cons_joined, hwords] at hreads
    rw [heq] at hcloses ⊢
    rw [settle_of_closes hcloses]
    exact hreads
  · rw [settle_of_not_closes hcloses]
    refine .pending h hq ?_
    rintro taken ⟨more, rfl⟩
    cases more with
    | nil => simpa using hcloses
    | cons w more => exact hopen taken w more rfl

theorem Reads.push {scan : Scan} (h : Reads ws scan) (hws : ∀ v ∈ ws, IsWord v)
    (hw : IsWord w) : Reads (ws ++ [w]) (scan.push w) := by
  cases h with
  | @settled pieces hpieces =>
    cases w with
    | nil => exact absurd rfl hw.1
    | cons c cs =>
      obtain ⟨hc, hcs⟩ := List.forall_mem_cons.mp hw.2
      by_cases hquote : isQuote c = true
      · simp only [Scan.push, if_pos hquote]
        refine Reads.settle hpieces hquote hcs (by simp) ?_
        intro taken v more h
        simp at h
      · simp only [Scan.push, if_neg hquote]
        have hbare : (Piece.word (String.ofList (c :: cs))).Renderable :=
          ⟨by simpa using hw, by simpa using hquote⟩
        have hreads := Reads.concat hpieces hbare
        rw [Piece.text, String.toList_ofList, hw.splitWords_eq] at hreads
        exact hreads
  | @pending pieces hpieces q start rest hq hopen =>
    obtain ⟨hword, hrest⟩ := List.forall_mem_cons.mp (List.forall_mem_append.mp hws).2
    have hstart := (List.forall_mem_cons.mp hword.2).2
    have hrest' : ∀ v ∈ rest ++ [w], IsWord v :=
      List.forall_mem_append.mpr ⟨hrest, List.forall_mem_singleton.mpr hw⟩
    have hopen' : OpenUntilEnd q start (rest ++ [w]) := by
      intro taken v more h
      refine hopen taken ?_
      rcases List.eq_nil_or_concat more with rfl | ⟨more, d, rfl⟩
      · exact ⟨[], by simpa using (List.append_inj' h rfl).1.symm⟩
      · have hsplit : rest ++ [w] = taken ++ v :: more ++ [d] := by simp [h]
        exact ⟨v :: more, (List.append_inj' hsplit rfl).1.symm⟩
    have hreads := Reads.settle hpieces hq hstart hrest' hopen'
    rw [← List.cons_append, ← List.append_assoc] at hreads
    simpa [Scan.push, OpenString.append, Text.joined_append, joined] using hreads

theorem reads_foldl (hws : ∀ v ∈ ws, IsWord v) : Reads ws (ws.foldl Scan.push {}) := by
  induction ws using List.reverseRecOn with
  | nil => exact @Reads.settled [] (by simp)
  | append_singleton ws w ih =>
    obtain ⟨hbefore, hw⟩ := List.forall_mem_append.mp hws
    rw [List.foldl_append]
    exact (ih hbefore).push hbefore (hw w List.mem_cons_self)

theorem reads_scan (source : String) :
    ∃ result, Reads (splitWords source.toList) result ∧ scan source = result.finish :=
  ⟨_, reads_foldl fun _ => Text.isWord_of_mem_splitWords, rfl⟩

/-- A scan succeeds on the words of rendered pieces, and on no others. -/
theorem scan_eq_ok_iff {source : String} {lexemes : List Lexeme} :
    scan source = .ok lexemes ↔ ∃ pieces, (∀ piece ∈ pieces, piece.Renderable) ∧
      lexemes = pieces.map Piece.lexeme ∧
      splitWords source.toList = splitWords (render pieces).toList := by
  constructor
  · intro h
    obtain ⟨result, hreads, hresult⟩ := reads_scan source
    rw [hresult] at h
    generalize splitWords source.toList = ws at hreads
    cases hreads with
    | @settled pieces hpieces =>
      rw [Scan.finish, List.reverse_reverse] at h
      cases h
      exact ⟨pieces, hpieces, rfl, rfl⟩
    | pending => cases h
  · rintro ⟨pieces, hpieces, rfl, hwords⟩
    rw [scan, hwords, foldl_push_render hpieces, Scan.finish, List.reverse_reverse]

/-- A scan fails on the words of rendered pieces that an opening word follows which
nothing closes, and on no others. -/
theorem scan_eq_error_iff {source : String} {e : Error} :
    scan source = .error e ↔ ∃ pieces q start rest, (∀ piece ∈ pieces, piece.Renderable) ∧
      isQuote q = true ∧
      splitWords source.toList = splitWords (render pieces).toList ++ (q :: start) :: rest ∧
      (∀ taken, taken <+: rest → ¬ Closes q (joined start taken)) ∧
      e = .unterminatedString (String.ofList (q :: start)) := by
  constructor
  · intro h
    obtain ⟨result, hreads, hresult⟩ := reads_scan source
    rw [hresult] at h
    generalize splitWords source.toList = ws at hreads
    cases hreads with
    | settled => cases h
    | @pending pieces hpieces q start rest hq hopen =>
      cases h
      exact ⟨pieces, q, start, rest, hpieces, hq, rfl, hopen, rfl⟩
  · rintro ⟨pieces, q, start, rest, hpieces, hq, hwords, hopen, rfl⟩
    have huntil : OpenUntilEnd q start rest := by
      rintro taken w more rfl
      exact hopen taken (List.prefix_append _ _)
    rw [scan, hwords, List.foldl_append, foldl_push_render hpieces, foldl_push_joined hq huntil,
      settle_of_not_closes (hopen rest (List.prefix_refl _))]
    rfl

/-- A string between quotes is read back if and only if it can be written there. -/
theorem scan_quoted_iff (hq : isQuote q = true) :
    scan (Piece.quoted q s).text = .ok [.quoted s] ↔ Quotable q s := by
  have hrender (quote : Char) : render [.quoted quote s] = (Piece.quoted quote s).text := by
    simp [render]
  rw [scan_eq_ok_iff]
  constructor
  · rintro ⟨pieces, hpieces, hlexemes, hwords⟩
    obtain ⟨piece, rfl, hpiece⟩ := List.map_eq_singleton_iff.mp hlexemes.symm
    have hrenderable := hpieces piece List.mem_cons_self
    cases piece with
    | word w => cases hpiece
    | quoted quote s' =>
      cases hpiece
      have hquotable : Quotable quote s := hrenderable
      -- Both texts have the same first word, and it starts with the quote.
      obtain ⟨_, _, hfirst⟩ := Text.splitWords_cons (not_isBlank_of_isQuote hq) (s.toList ++ [q])
      obtain ⟨_, _, hsecond⟩ := Text.splitWords_cons
        (not_isBlank_of_isQuote hquotable.isQuote) (s.toList ++ [quote])
      rw [hrender, Piece.toList_text_quoted, Piece.toList_text_quoted, hfirst, hsecond] at hwords
      obtain rfl := (List.cons.inj (List.cons.inj hwords).1).1
      exact hquotable
  · intro h
    exact ⟨[.quoted q s], List.forall_mem_singleton.mpr h, rfl, by rw [hrender]⟩

/-- Scanning undoes rendering. It succeeds on the words of rendered pieces only, with
their lexemes; it reads a string between quotes back only if the string can be written
there; and it fails only where an opening word has been reached that no word from there
on closes, and names that word. -/
theorem scan_undoes_render :
    (∀ pieces : List Piece, (∀ piece ∈ pieces, piece.Renderable) →
      scan (render pieces) = .ok (pieces.map Piece.lexeme)) ∧
    (∀ (source : String) (lexemes : List Lexeme), scan source = .ok lexemes ↔
      ∃ pieces, (∀ piece ∈ pieces, piece.Renderable) ∧ lexemes = pieces.map Piece.lexeme ∧
        splitWords source.toList = splitWords (render pieces).toList) ∧
    (∀ (q : Char) (s : String), isQuote q = true →
      (scan (Piece.quoted q s).text = .ok [.quoted s] ↔ Quotable q s)) ∧
    ∀ (source : String) (e : Error), scan source = .error e ↔
      ∃ pieces q start rest, (∀ piece ∈ pieces, piece.Renderable) ∧ isQuote q = true ∧
        splitWords source.toList = splitWords (render pieces).toList ++ (q :: start) :: rest ∧
        (∀ taken, taken <+: rest → ¬ Closes q (joined start taken)) ∧
        e = .unterminatedString (String.ofList (q :: start)) := by
  refine ⟨?_, fun _ _ => scan_eq_ok_iff, fun _ _ => scan_quoted_iff, fun _ _ => scan_eq_error_iff⟩
  intro pieces hpieces
  exact scan_eq_ok_iff.mpr ⟨pieces, hpieces, rfl, rfl⟩

/-- Escaped quotes before a space, a string of one space, and an empty one. -/
theorem scan_undoes_render_of_escapes :
    (∀ piece ∈ [Piece.word "it's", .quoted '"' "a \\\" b\"", .quoted '\x27' " ", .quoted '"' ""],
      piece.Renderable) ∧
    scan (render [.word "it's", .quoted '"' "a \\\" b\"", .quoted '\x27' " ", .quoted '"' ""]) =
      .ok [.word "it's", .quoted "a \\\" b\"", .quoted " ", .quoted ""] := by
  have hpieces : ∀ piece ∈ [Piece.word "it's", .quoted '"' "a \\\" b\"", .quoted '\x27' " ",
      .quoted '"' ""], piece.Renderable := by
    decide +kernel
  exact ⟨hpieces, scan_undoes_render.1 _ hpieces⟩

end Lexeme

end Wordstack
