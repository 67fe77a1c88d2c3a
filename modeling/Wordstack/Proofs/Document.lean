-- SUMMARY: Reading the document of a program back: what survives, and what the reader makes of its numbers.
import Wordstack.Program.Document
import Wordstack.Proofs.Json.View
import Wordstack.Proofs.Machine.Frames
import Wordstack.Proofs.Number.Text

/-!
# Reading a program back

Everything in the document of a program is read back as it was, except for its numbers.
A number is written in the shortest digits that no other double is nearest to. The
reader does not always take them for that double: it scales the digits by a power of
ten, and rounds more than once. `Number.reread?` is what it makes of a number, and
`Program.Rereads` relates a program to the one that is read from its document.

Documents list the entries of a map in any order.
-/

namespace Wordstack

-- -----------------------------------------------------------------------
-- Numbers
-- -----------------------------------------------------------------------

namespace Number

/-- The decimal that a finite number is written as. -/
def written? (v : Float) : Option Decimal :=
  (documentText? v).bind fun literal => Decimal.parse? literal.toList

/-- The number that is read from the literal of another one, if there is a literal and
it is in range. -/
def reread? (v : Float) : Option Float := (documentText? v).bind Json.floatOfLiteral?

/-- The literal of the number is taken for the double nearest to it. -/
def ReadsNearest (v : Float) : Prop := reread? v = (written? v).map Decimal.toFloat

theorem documentText?_eq_some {v : Float} {literal : String} (h : documentText? v = some literal) :
    ∃ n : Numeral, n.Valid ∧ literal = String.ofList n.chars ∧ written? v = some n.decimal ∧
      n.decimal.toFloat = v := by
  rw [written?, h]
  rw [documentText?_eq, Option.map_eq_some_iff] at h
  obtain ⟨s, hs, rfl⟩ := h
  have hvalid := valid_documentNumeral (canonical_of_scaled? hs)
  refine ⟨documentNumeral s, hvalid, rfl, ?_, toFloat_documentNumeral hs⟩
  rw [Option.bind_some, String.toList_ofList, Numeral.parse?_chars hvalid]

theorem isSome_documentText? (v : Float) : (documentText? v).isSome = true ↔ v.isFinite = true := by
  rw [documentText?_eq, Option.isSome_map, isFinite_iff, Option.isSome_iff_exists]

theorem reread?_of_not_finite {v : Float} (h : ¬ v.isFinite = true) : reread? v = none := by
  rw [← isSome_documentText?, Option.not_isSome_iff_eq_none] at h
  rw [reread?, h, Option.bind_none]

/-- A number survives if it is finite and its literal is read as it should be. -/
theorem reread?_eq_self_iff (v : Float) :
    reread? v = some v ↔ v.isFinite = true ∧ ReadsNearest v := by
  rw [← isSome_documentText?, ReadsNearest]
  cases htext : documentText? v with
  | none => simp [reread?, htext]
  | some literal =>
    obtain ⟨n, -, -, hwritten, hfloat⟩ := documentText?_eq_some htext
    simp [hwritten, hfloat]

/-- Few digits and a small power of ten are read as they should be. -/
theorem readsNearest_of_short {v : Float} (h : ∀ d ∈ written? v, d.Short) : ReadsNearest v := by
  rw [ReadsNearest]
  cases htext : documentText? v with
  | none => simp [reread?, written?, htext]
  | some literal =>
    obtain ⟨n, hvalid, rfl, hwritten, -⟩ := documentText?_eq_some htext
    rw [reread?, htext, hwritten]
    exact Json.floatOfLiteral?_of_short hvalid (h _ hwritten)

end Number

-- -----------------------------------------------------------------------
-- Names
-- -----------------------------------------------------------------------

theorem ofDocumentName?_text {α : Type} {family : List α} {name : α → String} {a : α}
    (h : family.find? (name · == name a) = some a) (held : Bool) :
    ofDocumentName? family name held (.text (name a)) = some a := by
  simp [ofDocumentName?, h]

theorem Operator.find?_documentName (o : Operator) :
    all.find? (documentName · == o.documentName) = some o := by
  cases o <;> decide

theorem Keyword.find?_documentName (k : Keyword) :
    all.find? (documentName · == k.documentName) = some k := by
  cases k <;> decide

theorem TypeName.find?_documentName (t : TypeName) :
    all.find? (documentName · == t.documentName) = some t := by
  cases t <;> decide

theorem NumKind.find?_documentName (k : NumKind) :
    all.find? (documentName · == k.documentName) = some k := by
  cases k <;> decide

-- -----------------------------------------------------------------------
-- Tokens
-- -----------------------------------------------------------------------

namespace Token

/-- The number that a token is. -/
def float? : Token → Option Float
  | .num _ v => some v
  | _ => none

/-- The token that is read from the document of another one. -/
def reread? : Token → Option Token
  | .num kind v => (Number.reread? v).map (.num kind)
  | t => some t

theorem wellWritten_numberJson (v : Float) : (numberJson v).WellWritten := by
  unfold numberJson
  cases htext : Number.documentText? v with
  | none => exact .null
  | some literal =>
    obtain ⟨n, hvalid, rfl, -⟩ := Number.documentText?_eq_some htext
    exact .number hvalid

theorem wellWritten_tagged {value : Json} (h : value.WellWritten) (tag : String) :
    (tagged tag value).WellWritten :=
  .record (by simp [h])

theorem wellWritten_toJson (t : Token) : t.toJson.WellWritten := by
  cases t with
  | num kind v =>
    refine wellWritten_tagged (.record ?_) "Num"
    simp [wellWritten_numberJson]
  | bool b => exact wellWritten_tagged (.bool b) "Bool"
  | op o => exact wellWritten_tagged (.text _) "Op"
  | str s => exact wellWritten_tagged (.text s) "Str"
  | type t => exact wellWritten_tagged (.text _) "Type"
  | keyword k => exact wellWritten_tagged (.text _) "Keyword"
  | ident name => exact wellWritten_tagged (.text name) "Ident"

theorem float?_numberJson (v : Float) : (numberJson v).float? = Number.reread? v := by
  unfold numberJson Number.reread?
  cases Number.documentText? v with
  | none => rfl
  | some literal => rfl

theorem numberOfJson?_record (held : Bool) (kind : NumKind) (v : Float) :
    numberOfJson? held (.record [("kind", .text kind.documentName), ("v", numberJson v)])
      = (Token.num kind v).reread? := by
  simp [numberOfJson?, Json.unique?, ofDocumentName?_text kind.find?_documentName,
    float?_numberJson, reread?, Option.map_eq_bind]

/-- The tag comes first, so no value is held back. -/
theorem ofJson?_tagged (room : Nat) (tag : String) (value : Json) :
    ofJson? room (tagged tag value) = ofTagged? tag false value := by
  have hnamed := Json.named?_record [("t", .text tag), ("v", value)]
  obtain ⟨fields, hobj⟩ : ∃ fields, tagged tag value = .obj fields := ⟨_, rfl⟩
  rw [← tagged, hobj] at hnamed
  rw [hobj]
  simp [ofJson?, hnamed, Json.unique?]

theorem ofJson?_toJson (room : Nat) (t : Token) : ofJson? room t.toJson = t.reread? := by
  cases t with
  | op o =>
    simp [toJson, ofJson?_tagged, ofTagged?, ofDocumentName?_text o.find?_documentName, reread?]
  | num kind v =>
    rw [toJson, ofJson?_tagged]
    exact numberOfJson?_record false kind v
  | str s => simp [toJson, ofJson?_tagged, ofTagged?, reread?]
  | bool b => simp [toJson, ofJson?_tagged, ofTagged?, Json.bool?, reread?]
  | type t =>
    simp [toJson, ofJson?_tagged, ofTagged?, ofDocumentName?_text t.find?_documentName, reread?]
  | keyword k =>
    simp [toJson, ofJson?_tagged, ofTagged?, ofDocumentName?_text k.find?_documentName, reread?]
  | ident name => simp [toJson, ofJson?_tagged, ofTagged?, reread?]

theorem reread?_eq_self_iff (t : Token) :
    t.reread? = some t ↔ ∀ v ∈ t.float?, Number.reread? v = some v := by
  cases t <;> simp [reread?, float?]

theorem exists_reread?_iff (t : Token) :
    (∃ t', t.reread? = some t') ↔ ∀ v ∈ t.float?, ∃ w, Number.reread? v = some w := by
  cases t <;> simp [reread?, float?]

end Token

-- -----------------------------------------------------------------------
-- Jumps
-- -----------------------------------------------------------------------

namespace Jump

theorem wellWritten_toJson (jump : Jump) : jump.toJson.WellWritten := by
  cases jump with
  | branch elseAt endAt =>
    refine .record ?_
    cases elseAt with
    | none => simp [Json.WellWritten.null]
    | some pos => simp
  | loop doAt endAt => exact .record (by simp)
  | exit endAt => exact .record (by simp)
  | back whileAt => exact .record (by simp)

theorem splitTag?_record {fields : List (String × Json)} (h : ∀ f ∈ fields, f.1 ≠ "t")
    (tag : String) :
    splitTag? (.record (("t", .text tag) :: fields)) = some (tag, .record fields) := by
  have htag : (fields.filter fun f => f.1 == "t") = [] := by simpa using h
  have hrest : (fields.filter fun f => !f.1 == "t") = fields := by simpa using h
  simp [Json.record, splitTag?, Json.textOf?_escaped, List.filter_map, Function.comp_def, htag,
    hrest]

theorem optionalOffset?_map {offset : Option Nat} (h : ∀ n ∈ offset, n < UInt64.size) :
    optionalOffset? (some ((offset.map Json.nat).getD .null)) = some offset := by
  cases offset with
  | none => rfl
  | some n =>
    have hn : (Json.nat n).nat? = some n := Json.nat?_nat (h n rfl)
    exact congrArg (Option.map some) hn

theorem canHold_toJson {jump : Jump} (h : ∀ n ∈ jump.offsets, n < UInt64.size) (room : Nat) :
    jump.toJson.canHold (room + 1) = true := by
  cases jump with
  | branch elseAt endAt =>
    apply Json.canHold_record
    cases elseAt with
    | none => simp_all [offsets, Json.canHold_nat, Json.canHold]
    | some pos => simp_all [offsets, Json.canHold_nat]
  | loop doAt endAt =>
    apply Json.canHold_record
    simp_all [offsets, Json.canHold_nat]
  | exit endAt =>
    apply Json.canHold_record
    simp_all [offsets, Json.canHold_nat]
  | back whileAt =>
    apply Json.canHold_record
    simp_all [offsets, Json.canHold_nat]

theorem ofJson?_toJson {jump : Jump} (h : ∀ n ∈ jump.offsets, n < UInt64.size) (room : Nat) :
    ofJson? (room + 1) jump.toJson = some jump := by
  rw [ofJson?, if_pos (canHold_toJson h room)]
  cases jump with
  | branch elseAt endAt =>
    have helse : ∀ n ∈ elseAt, n < UInt64.size := fun n hn => h n (by simp_all [offsets])
    have hend : endAt < UInt64.size := h endAt (by simp [offsets])
    rw [toJson, splitTag?_record (by simp)]
    simp [ofTagged?, Json.unique?, optionalOffset?_map helse, Json.nat?_nat hend]
  | loop doAt endAt =>
    have hdo : doAt < UInt64.size := h doAt (by simp [offsets])
    have hend : endAt < UInt64.size := h endAt (by simp [offsets])
    rw [toJson, splitTag?_record (by simp)]
    simp [ofTagged?, Json.unique?, Json.nat?_nat, hdo, hend]
  | exit endAt =>
    have hend : endAt < UInt64.size := h endAt (by simp [offsets])
    rw [toJson, splitTag?_record (by simp)]
    simp [ofTagged?, Json.unique?, Json.nat?_nat hend]
  | back whileAt =>
    have hwhile : whileAt < UInt64.size := h whileAt (by simp [offsets])
    rw [toJson, splitTag?_record (by simp)]
    simp [ofTagged?, Json.unique?, Json.nat?_nat hwhile]

end Jump

-- -----------------------------------------------------------------------
-- Maps
-- -----------------------------------------------------------------------

section Maps

variable {α β γ : Type} [Ord α] [Std.TransOrd α]

/-- Every entry of the first map has a related one in the second, which has no others. -/
def Pointwise (rel : β → γ → Prop) (map : Std.ExtTreeMap α β) (map' : Std.ExtTreeMap α γ) : Prop :=
  (∀ (a : α) (b : β), map[a]? = some b → ∃ c, map'[a]? = some c ∧ rel b c) ∧
  ∀ a : α, map[a]? = none → map'[a]? = none

theorem pointwise_self_iff {rel : β → β → Prop} {map : Std.ExtTreeMap α β} :
    Pointwise rel map map ↔ ∀ (a : α) (b : β), map[a]? = some b → rel b b := by
  refine ⟨fun h a b hb => ?_, fun h => ⟨fun a b hb => ⟨b, hb, h a b hb⟩, fun a ha => ha⟩⟩
  obtain ⟨c, hc, hrel⟩ := h.1 a b hb
  rw [hb, Option.some.injEq] at hc
  exact hc ▸ hrel

theorem exists_pointwise_iff {rel : β → γ → Prop} {map : Std.ExtTreeMap α β} :
    (∃ map', Pointwise rel map map') ↔
      ∀ (a : α) (b : β), map[a]? = some b → ∃ c, rel b c := by
  classical
  constructor
  · rintro ⟨map', hentries, -⟩ a b hb
    obtain ⟨c, -, hc⟩ := hentries a b hb
    exact ⟨c, hc⟩
  · intro h
    -- Only the relation is known, so the values are chosen.
    refine ⟨map.filterMap fun _ b => if hc : ∃ c, rel b c then some hc.choose else none,
      fun a b hb => ?_, fun a ha => ?_⟩
    · refine ⟨(h a b hb).choose, ?_, (h a b hb).choose_spec⟩
      simp [hb, h a b hb]
    · simp [ha]

/-- The document is an object with a field for each entry of a map, in any order. -/
def Json.Lists (key : α → String) (writes : β → Json → Prop) (map : Std.ExtTreeMap α β)
    (j : Json) : Prop :=
  ∃ (order : List α) (values : α → Json), order.Perm map.keys ∧
    (∀ (a : α) (b : β), map[a]? = some b → writes b (values a)) ∧
    j = .obj (order.map fun a => (key a, values a))

variable [Std.LawfulEqOrd α]

theorem Json.lists_toList {writes : β → Json → Prop} (write : β → Json)
    (h : ∀ b, writes b (write b)) (key : α → String) (map : Std.ExtTreeMap α β) :
    Lists key writes map (.obj (map.toList.map fun e => (key e.1, write e.2))) := by
  refine ⟨map.keys, fun a => (map[a]?.map write).getD .null, .refl _, fun a b hb => ?_, ?_⟩
  · simpa [hb] using h b
  · rw [← Std.ExtTreeMap.map_fst_toList_eq_keys, List.map_map]
    congr 1
    refine List.map_congr_left fun e he => ?_
    have hvalue := Std.ExtTreeMap.mem_toList_iff_getElem?_eq_some.1 he
    simp [hvalue]

theorem Json.Lists.wellWritten {key : α → String} {writes : β → Json → Prop}
    {map : Std.ExtTreeMap α β} {j : Json} (h : Lists key writes map j)
    (hkey : ∀ a, ∃ s, key a = escaped s) (hwrites : ∀ b x, writes b x → x.WellWritten) :
    j.WellWritten := by
  obtain ⟨order, values, hperm, hvalues, rfl⟩ := h
  refine .obj (fun f hf => ?_) (fun f hf => ?_)
  · obtain ⟨a, -, rfl⟩ := List.mem_map.1 hf
    exact hkey a
  · obtain ⟨a, ha, rfl⟩ := List.mem_map.1 hf
    rw [hperm.mem_iff, Std.ExtTreeMap.mem_keys] at ha
    exact hwrites _ _ (hvalues a map[a] (Std.ExtTreeMap.getElem?_eq_some_getElem ha))

/-- What a map holds after fields with distinct keys were read into it. -/
theorem foldlM_insert_iff {readKey : String → Option α} {read : Json → Option γ}
    {key : α → String} {values : α → Json} {order : List α} (hdistinct : order.Nodup)
    (hkey : ∀ a ∈ order, readKey (key a) = some a) (start result : Std.ExtTreeMap α γ) :
    (order.map fun a => (key a, values a)).foldlM
        (fun map f => do return map.insert (← readKey f.1) (← read f.2)) start = some result ↔
      (∀ a ∈ order, ∃ c, read (values a) = some c ∧ result[a]? = some c) ∧
      ∀ a, a ∉ order → result[a]? = start[a]? := by
  induction order generalizing start with
  | nil =>
    simp only [List.map_nil, List.foldlM_nil, Option.pure_def, Option.some.injEq, List.not_mem_nil]
    constructor
    · rintro rfl
      simp
    · intro h
      exact (Std.ExtTreeMap.ext_getElem? fun a => h.2 a (by simp)).symm
  | cons a order ih =>
    obtain ⟨hnew, hdistinct⟩ := List.nodup_cons.1 hdistinct
    rw [List.forall_mem_cons] at hkey
    have hrest := ih hdistinct hkey.2
    -- The keys are distinct, so no later field replaces what this one inserts.
    simp only [List.map_cons, List.foldlM_cons, hkey.1, Option.bind_eq_bind, Option.bind_some,
      Option.pure_def, Option.bind_eq_some_iff, Option.some.injEq, List.forall_mem_cons] at hrest ⊢
    constructor
    · rintro ⟨_, ⟨c, hc, rfl⟩, hread⟩
      obtain ⟨hentries, hothers⟩ := (hrest _).1 hread
      refine ⟨⟨⟨c, hc, ?_⟩, hentries⟩, fun a' ha' => ?_⟩
      · simp [hothers a hnew]
      · rw [List.mem_cons, not_or] at ha'
        simp [hothers a' ha'.2, Std.ExtTreeMap.getElem?_insert, Ne.symm ha'.1]
    · rintro ⟨⟨⟨c, hc, hown⟩, hentries⟩, hothers⟩
      refine ⟨_, ⟨c, hc, rfl⟩, (hrest _).2 ⟨hentries, fun a' ha' => ?_⟩⟩
      by_cases heq : a = a'
      · subst heq
        simp [hown]
      · rw [hothers a' (by simp [Ne.symm heq, ha'])]
        simp [Std.ExtTreeMap.getElem?_insert, heq]

/-- The maps that are read from the document of a map. -/
theorem mapOfJson?_lists {key : α → String} {readKey : String → Option α}
    {writes : β → Json → Prop} {read : Json → Option γ} {map : Std.ExtTreeMap α β} {j : Json}
    (reads : β → γ → Prop) (h : Json.Lists key writes map j)
    (hkey : ∀ a ∈ map, readKey (key a) = some a)
    (hread : ∀ (a : α) (b : β), map[a]? = some b → ∀ x, writes b x →
      ∀ c, read x = some c ↔ reads b c)
    (result : Std.ExtTreeMap α γ) :
    mapOfJson? readKey read j = some result ↔ Pointwise reads map result := by
  obtain ⟨order, values, hperm, hvalues, rfl⟩ := h
  have hmem : ∀ a, a ∈ order ↔ map[a]?.isSome = true := by
    intro a
    rw [hperm.mem_iff, Std.ExtTreeMap.mem_keys, Std.ExtTreeMap.mem_iff_isSome_getElem?]
  have hdistinct : order.Nodup := hperm.nodup_iff.2 Std.ExtTreeMap.nodup_keys
  have hname : ∀ a ∈ order, readKey (key a) = some a :=
    fun a ha => hkey a (Std.ExtTreeMap.mem_keys.1 (hperm.mem_iff.1 ha))
  refine (foldlM_insert_iff hdistinct hname ∅ result).trans ⟨?_, ?_⟩
  · rintro ⟨hentries, hothers⟩
    refine ⟨fun a b ha => ?_, fun a ha => ?_⟩
    · obtain ⟨c, hc, hresult⟩ := hentries a (by rw [hmem, ha, Option.isSome_some])
      exact ⟨c, hresult, (hread a b ha _ (hvalues a b ha) c).1 hc⟩
    · rw [hothers a (by simp [hmem, ha]), Std.ExtTreeMap.getElem?_empty]
  · rintro ⟨hentries, hothers⟩
    refine ⟨fun a ha => ?_, fun a ha => ?_⟩
    · obtain ⟨b, hb⟩ := Option.isSome_iff_exists.1 ((hmem a).1 ha)
      obtain ⟨c, hresult, hc⟩ := hentries a b hb
      exact ⟨c, (hread a b hb _ (hvalues a b hb) c).2 hc, hresult⟩
    · rw [hmem, Option.not_isSome_iff_eq_none] at ha
      rw [hothers a ha, Std.ExtTreeMap.getElem?_empty]

end Maps

-- -----------------------------------------------------------------------
-- Definitions and blocks
-- -----------------------------------------------------------------------

theorem elementsOfJson?_map {α β : Type} (read : Json → Option β) (write : α → Json)
    (xs : List α) :
    elementsOfJson? read (.arr (xs.map write)) = xs.mapM fun x => read (write x) := by
  rw [elementsOfJson?, List.mapM_map]
  rfl

theorem mapM_eq_self_iff {α : Type} {f : α → Option α} {xs : List α} :
    xs.mapM f = some xs ↔ ∀ x ∈ xs, f x = some x := by
  induction xs with
  | nil => simp
  | cons x xs ih =>
    simp only [List.mapM_cons, Option.bind_eq_bind, Option.bind_eq_some_iff, Option.pure_def,
      Option.some.injEq, List.cons.injEq, List.forall_mem_cons, ← ih]
    constructor
    · rintro ⟨_, hx, _, hxs, rfl, rfl⟩
      exact ⟨hx, hxs⟩
    · rintro ⟨hx, hxs⟩
      exact ⟨x, hx, xs, hxs, rfl, rfl⟩

theorem exists_mapM_iff {α β : Type} {f : α → Option β} {xs : List α} :
    (∃ ys, xs.mapM f = some ys) ↔ ∀ x ∈ xs, ∃ y, f x = some y := by
  induction xs with
  | nil => simp
  | cons x xs ih =>
    simp only [List.mapM_cons, Option.bind_eq_bind, Option.bind_eq_some_iff, Option.pure_def,
      Option.some.injEq, List.forall_mem_cons, ← ih]
    constructor
    · rintro ⟨_, y, hy, ys, hys, -⟩
      exact ⟨⟨y, hy⟩, ys, hys⟩
    · rintro ⟨⟨y, hy⟩, ys, hys⟩
      exact ⟨y :: ys, y, hy, ys, hys, rfl⟩

namespace Param

theorem wellWritten_toJson (p : Param) : p.toJson.WellWritten :=
  .record (by simp)

theorem ofJson?_toJson (p : Param) : ofJson? p.toJson = some p := by
  simp [ofJson?, toJson, Json.unique?, ofDocumentName?_text p.type.find?_documentName]

end Param

namespace Definition

/-- The document is one of the definition, with its jumps in any order. -/
def Writes (d : Definition) (j : Json) : Prop :=
  ∃ jumps, Json.Lists (fun at_ => String.ofList (Nat.toDigits 10 at_))
      (Jump.toJson · = ·) d.jumps jumps ∧
    j = .record [("name", .text d.name), ("params", .arr (d.params.map Param.toJson)),
      ("body", .arr (d.body.toList.map Token.toJson)), ("jumps", jumps)]

theorem writes_toJson (d : Definition) : d.Writes d.toJson :=
  ⟨_, Json.lists_toList Jump.toJson (fun _ => rfl) _ d.jumps, rfl⟩

theorem Writes.wellWritten {d : Definition} {j : Json} (h : d.Writes j) : j.WellWritten := by
  obtain ⟨jumps, hjumps, rfl⟩ := h
  have hnames : ∀ at_ : Nat, ∃ s, String.ofList (Nat.toDigits 10 at_) = Json.escaped s :=
    fun at_ => ⟨_, (Json.escaped_toDigits at_).symm⟩
  have hparams : (Json.arr (d.params.map Param.toJson)).WellWritten :=
    .arr (List.forall_mem_map.2 fun p _ => p.wellWritten_toJson)
  have hbody : (Json.arr (d.body.toList.map Token.toJson)).WellWritten :=
    .arr (List.forall_mem_map.2 fun t _ => t.wellWritten_toJson)
  have htable : jumps.WellWritten := by
    refine hjumps.wellWritten hnames ?_
    rintro jump x rfl
    exact jump.wellWritten_toJson
  exact .record (by simp [hparams, hbody, htable])

/-- The jumps stand at offsets that a machine word can hold, and lead to such. -/
def InRange (d : Definition) : Prop :=
  ∀ e ∈ d.jumps.toList, e.1 < UInt64.size ∧ ∀ n ∈ e.2.offsets, n < UInt64.size

/-- The jumps of a body that is not too long are in range. -/
theorem Indexed.inRange {d : Definition} (h : d.Indexed) (hsize : d.body.size < UInt64.size) :
    d.InRange := by
  obtain ⟨code, hcode⟩ := JumpTable.code_of_ofBody h
  have hlength : code.size = d.body.size := by
    rw [Code.size, hcode, Array.length_toList]
  intro e he
  have hjump := Std.ExtTreeMap.mem_toList_iff_getElem?_eq_some.1 he
  have hmem := (JumpTable.getElem?_of_ofBody h hcode e.1 e.2).1 hjump
  refine ⟨?_, fun n hn => ?_⟩
  · have := (Code.jumps_range hmem).2
    omega
  · have := Code.offsets_lt hmem hn
    omega

/-- The definition that is read from the document of another one. -/
def reread? (d : Definition) : Option Definition :=
  (d.body.toList.mapM Token.reread?).map fun body => { d with body := body.toArray }

theorem ofJson?_of_writes {d : Definition} {j : Json} (h : d.Writes j) (hrange : d.InRange) :
    ofJson? j = d.reread? := by
  obtain ⟨jumps, hjumps, rfl⟩ := h
  have hparams : elementsOfJson? Param.ofJson? (.arr (d.params.map Param.toJson))
      = some d.params := by
    simp [elementsOfJson?_map, mapM_eq_self_iff, Param.ofJson?_toJson]
  have hbody (room : Nat) :
      elementsOfJson? (Token.ofJson? room) (.arr (d.body.toList.map Token.toJson))
        = d.body.toList.mapM Token.reread? := by
    simp only [elementsOfJson?_map, Token.ofJson?_toJson]
  have htable : mapOfJson? Json.countOfLiteral? (Jump.ofJson? (Json.maxDepth - 4)) jumps
      = some d.jumps := by
    refine (mapOfJson?_lists Eq hjumps (fun at_ hat => ?_) ?_ d.jumps).2 ?_
    · have hjump := Std.ExtTreeMap.getElem?_eq_some_getElem hat
      exact Json.countOfLiteral?_toDigits
        (hrange _ (Std.ExtTreeMap.mem_toList_iff_getElem?_eq_some.2 hjump)).1
    · rintro at_ jump hjump x rfl c
      have hoffsets := (hrange _ (Std.ExtTreeMap.mem_toList_iff_getElem?_eq_some.2 hjump)).2
      rw [Json.maxDepth, Jump.ofJson?_toJson hoffsets, Option.some.injEq]
    · exact pointwise_self_iff.2 fun _ _ _ => rfl
  simp [ofJson?, Json.unique?, hparams, hbody, htable, reread?, Option.map_eq_bind]

theorem reread?_eq_self_iff (d : Definition) :
    d.reread? = some d ↔ ∀ t ∈ d.body, t.reread? = some t := by
  simp only [← Array.mem_toList_iff, ← mapM_eq_self_iff]
  rw [reread?, Option.map_eq_some_iff]
  constructor
  · rintro ⟨body, hbody, hd⟩
    rw [hbody, ← hd]
  · intro hbody
    exact ⟨d.body.toList, hbody, rfl⟩

theorem exists_reread?_iff (d : Definition) :
    (∃ d', d.reread? = some d') ↔ ∀ t ∈ d.body, ∃ t', t.reread? = some t' := by
  simp only [← Array.mem_toList_iff, ← exists_mapM_iff, reread?, Option.map_eq_some_iff]
  constructor
  · rintro ⟨_, body, hbody, -⟩
    exact ⟨body, hbody⟩
  · rintro ⟨body, hbody⟩
    exact ⟨_, body, hbody, rfl⟩

end Definition

namespace Block

/-- The document is one of the block, with its values in any order. -/
def Writes (b : Block) (j : Json) : Prop :=
  Json.Lists Json.escaped (Token.toJson · = ·) b j

/-- The second block can be read from the document of the first. -/
def Rereads (b b' : Block) : Prop := Pointwise (fun t t' => t.reread? = some t') b b'

theorem writes_toJson (b : Block) : Writes b (Block.toJson b) := by
  rw [Block.toJson, Json.record, List.map_map]
  exact Json.lists_toList Token.toJson (fun _ => rfl) Json.escaped b

theorem Writes.wellWritten {b : Block} {j : Json} (h : Writes b j) : j.WellWritten := by
  refine Json.Lists.wellWritten h (fun name => ⟨name, rfl⟩) ?_
  rintro t x rfl
  exact t.wellWritten_toJson

theorem ofJson?_of_writes {b b' : Block} {j : Json} (h : Writes b j) :
    Block.ofJson? j = some b' ↔ Rereads b b' := by
  refine mapOfJson?_lists _ h (fun name _ => Json.textOf?_escaped name) ?_ b'
  rintro name t - x rfl t'
  rw [Token.ofJson?_toJson]

end Block

-- -----------------------------------------------------------------------
-- Programs
-- -----------------------------------------------------------------------

namespace Program

/-- The document is one of the program, with the entries of its maps in any order. -/
def Writes (p : Program) (j : Json) : Prop :=
  ∃ functions blocks, Json.Lists Json.escaped Definition.Writes p.functions functions ∧
    Json.Lists Json.escaped Block.Writes p.blocks blocks ∧
    j = .record [("functions", functions), ("blocks", blocks)]

/-- All jumps stand at offsets that a machine word can hold, and lead to such. -/
def InRange (p : Program) : Prop :=
  ∀ e ∈ p.functions.toList, e.2.InRange

/-- The second program can be read from the document of the first. -/
structure Rereads (p q : Program) : Prop where
  functions : Pointwise (fun d d' => d.reread? = some d') p.functions q.functions
  blocks : Pointwise Block.Rereads p.blocks q.blocks

/-- The numbers in the bodies and in the blocks of the program. -/
def numbers (p : Program) : List Float :=
  p.functions.toList.flatMap (fun e => e.2.body.toList.filterMap Token.float?) ++
    p.blocks.toList.flatMap fun e => e.2.toList.filterMap (·.2.float?)

theorem writes_toJson (p : Program) : p.Writes p.toJson := by
  have hfunctions : Json.Lists Json.escaped Definition.Writes p.functions
      (.record (p.functions.toList.map fun e => (e.1, e.2.toJson))) := by
    rw [Json.record, List.map_map]
    exact Json.lists_toList _ Definition.writes_toJson Json.escaped p.functions
  have hblocks : Json.Lists Json.escaped Block.Writes p.blocks
      (.record (p.blocks.toList.map fun e => (e.1, Block.toJson e.2))) := by
    rw [Json.record, List.map_map]
    exact Json.lists_toList _ Block.writes_toJson Json.escaped p.blocks
  exact ⟨_, _, hfunctions, hblocks, rfl⟩

theorem Writes.wellWritten {p : Program} {j : Json} (h : p.Writes j) : j.WellWritten := by
  obtain ⟨functions, blocks, hfunctions, hblocks, rfl⟩ := h
  have hnames : ∀ name : String, ∃ s, Json.escaped name = Json.escaped s := fun name => ⟨name, rfl⟩
  have hfirst := hfunctions.wellWritten hnames fun _ _ hd => hd.wellWritten
  have hsecond := hblocks.wellWritten hnames fun _ _ hb => hb.wellWritten
  exact .record (by simp [hfirst, hsecond])

/-- What is read from a document of the program. -/
theorem ofDocument?_of_writes {p q : Program} {j : Json} (h : p.Writes j) (hrange : p.InRange) :
    ofDocument? j.compact = some q ↔ p.Rereads q := by
  rw [ofDocument?, Json.parse?_compact h.wellWritten]
  obtain ⟨functions, blocks, hfunctions, hblocks, rfl⟩ := h
  have hread : ∀ (name : String) (d : Definition), p.functions[name]? = some d → ∀ x,
      d.Writes x → ∀ d', Definition.ofJson? x = some d' ↔ d.reread? = some d' := by
    intro name d hd x hx d'
    have hmem := Std.ExtTreeMap.mem_toList_iff_getElem?_eq_some.2 hd
    rw [Definition.ofJson?_of_writes hx (hrange _ hmem)]
  have hfirst := mapOfJson?_lists (fun d d' => d.reread? = some d') hfunctions
    (fun name _ => Json.textOf?_escaped name) hread
  have hsecond := mapOfJson?_lists Block.Rereads hblocks
    (fun name _ => Json.textOf?_escaped name) (fun _ _ _ _ hx _ => Block.ofJson?_of_writes hx)
  have hrecord : ofJson? (.record [("functions", functions), ("blocks", blocks)]) =
      (mapOfJson? Json.textOf? Definition.ofJson? functions).bind fun f =>
        (mapOfJson? Json.textOf? Block.ofJson? blocks).map fun b => ⟨f, b⟩ := by
    simp [ofJson?, Json.unique?, Option.map_eq_bind]
  simp only [Option.bind_eq_bind, Option.bind_some, hrecord, Option.bind_eq_some_iff,
    Option.map_eq_some_iff, hfirst, hsecond]
  constructor
  · rintro ⟨f, hf, b, hb, rfl⟩
    exact ⟨hf, hb⟩
  · rintro ⟨hf, hb⟩
    exact ⟨q.functions, hf, q.blocks, hb, rfl⟩

/-- Something holds of all numbers of the program if it holds of those in its bodies and
those in its blocks. -/
theorem forall_numbers {p : Program} {holds : Float → Prop} :
    (∀ v ∈ p.numbers, holds v) ↔
      (∀ (name : String) (d : Definition), p.functions[name]? = some d →
        ∀ t ∈ d.body, ∀ v ∈ t.float?, holds v) ∧
      ∀ (name : String) (b : Block), p.blocks[name]? = some b →
        ∀ (key : String) (t : Token), b[key]? = some t → ∀ v ∈ t.float?, holds v := by
  simp only [numbers, List.mem_append, List.mem_flatMap, List.mem_filterMap, Prod.exists,
    Std.ExtTreeMap.mem_toList_iff_getElem?_eq_some, Array.mem_toList_iff, Option.mem_def]
  grind

theorem rereads_self_iff (p : Program) :
    p.Rereads p ↔ ∀ v ∈ p.numbers, Number.reread? v = some v := by
  simp only [forall_numbers, ← Token.reread?_eq_self_iff, ← Definition.reread?_eq_self_iff]
  constructor
  · rintro ⟨hfunctions, hblocks⟩
    refine ⟨pointwise_self_iff.1 hfunctions, fun name b hb => ?_⟩
    exact pointwise_self_iff.1 (pointwise_self_iff.1 hblocks name b hb)
  · rintro ⟨hfunctions, hblocks⟩
    refine ⟨pointwise_self_iff.2 hfunctions, pointwise_self_iff.2 fun name b hb => ?_⟩
    exact pointwise_self_iff.2 (hblocks name b hb)

/-- A program is read if each of the numbers is. -/
theorem exists_rereads_iff (p : Program) :
    (∃ q, p.Rereads q) ↔ ∀ v ∈ p.numbers, ∃ w, Number.reread? v = some w := by
  simp only [forall_numbers, ← Token.exists_reread?_iff, ← Definition.exists_reread?_iff]
  constructor
  · rintro ⟨q, hfunctions, hblocks⟩
    refine ⟨exists_pointwise_iff.1 ⟨_, hfunctions⟩, fun name b hb => ?_⟩
    exact exists_pointwise_iff.1 (exists_pointwise_iff.1 ⟨_, hblocks⟩ name b hb)
  · rintro ⟨hfunctions, hblocks⟩
    obtain ⟨functions, hf⟩ := exists_pointwise_iff.2 hfunctions
    obtain ⟨blocks, hb⟩ := exists_pointwise_iff.2 fun name b hb =>
      exists_pointwise_iff.2 (hblocks name b hb)
    exact ⟨⟨functions, blocks⟩, hf, hb⟩

theorem inRange_of_ofSource {source version : String} {p : Program}
    (h : ofSource source version = .ok p)
    (hsize : ∀ e ∈ p.functions.toList, e.2.body.size < UInt64.size) : p.InRange := by
  intro e he
  have hd := Std.ExtTreeMap.mem_toList_iff_getElem?_eq_some.1 he
  exact (indexed_of_ofSource h e.1 e.2 hd).inRange (hsize e he)

/-- What is read from the documents of a program. It is the program with its numbers read
again, and there is one unless a number cannot be read, as one that is not finite. The
program itself is read exactly if all of its numbers are finite and their literals are
taken for the nearest doubles, and they are for literals with few digits and a small
power of ten. Parsed programs are in range. -/
theorem ofDocument?_characterization (p : Program) :
    (∀ source version, ofSource source version = .ok p →
      (∀ e ∈ p.functions.toList, e.2.body.size < UInt64.size) → p.InRange) ∧
    (p.InRange → p.Writes p.toJson ∧ ∀ j, p.Writes j →
      (∀ q, ofDocument? j.compact = some q ↔ p.Rereads q) ∧
      ((∃ q, ofDocument? j.compact = some q) ↔
        ∀ v ∈ p.numbers, ∃ w, Number.reread? v = some w) ∧
      ((∃ v ∈ p.numbers, ¬ v.isFinite = true) → ofDocument? j.compact = none) ∧
      (ofDocument? j.compact = some p ↔
        ∀ v ∈ p.numbers, v.isFinite = true ∧ Number.ReadsNearest v) ∧
      ((∀ v ∈ p.numbers, v.isFinite = true ∧ ∀ d ∈ Number.written? v, d.Short) →
        ofDocument? j.compact = some p)) := by
  refine ⟨fun source version => inRange_of_ofSource, fun hrange => ⟨p.writes_toJson, ?_⟩⟩
  intro j hj
  have hreads : ∀ q, ofDocument? j.compact = some q ↔ p.Rereads q :=
    fun q => ofDocument?_of_writes hj hrange
  have hsome : (∃ q, ofDocument? j.compact = some q) ↔
      ∀ v ∈ p.numbers, ∃ w, Number.reread? v = some w := by
    simp only [hreads, exists_rereads_iff]
  have hself : ofDocument? j.compact = some p ↔
      ∀ v ∈ p.numbers, v.isFinite = true ∧ Number.ReadsNearest v := by
    simp only [hreads, rereads_self_iff, Number.reread?_eq_self_iff]
  refine ⟨hreads, hsome, ?_, hself, fun h => hself.2 fun v hv => ?_⟩
  · rintro ⟨v, hv, hinfinite⟩
    rw [Option.eq_none_iff_forall_ne_some]
    intro q hq
    obtain ⟨w, hw⟩ := hsome.1 ⟨q, hq⟩ v hv
    rw [Number.reread?_of_not_finite hinfinite] at hw
    cases hw
  · exact ⟨(h v hv).1, Number.readsNearest_of_short (h v hv).2⟩

/-- Jumps, parameters, an escaped quote and numbers of several sizes, all read back. -/
theorem ofDocument?_of_short_literals :
    ∃ p, ofSource
        "fun f num as if 0.5 * ret else 'a\"b' end end while false do -2e-7 1e21 end 0.1 f"
        defaultVersion = .ok p ∧
      p.InRange ∧ ofDocument? p.toJson.compact = some p := by
  have hcheck : (do
      let p ← (ofSource
        "fun f num as if 0.5 * ret else 'a\"b' end end while false do -2e-7 1e21 end 0.1 f"
        defaultVersion).toOption
      return decide ((∀ e ∈ p.functions.toList, e.2.body.size < UInt64.size) ∧
        ∀ v ∈ p.numbers, v.isFinite = true ∧ ∀ d ∈ Number.written? v, d.Short)) = some true := by
    decide +kernel
  simp only [Option.bind_eq_bind, Option.bind_eq_some_iff] at hcheck
  obtain ⟨p, hp, hcheck⟩ := hcheck
  obtain ⟨hsize, hshort⟩ := of_decide_eq_true (Option.some.inj hcheck)
  have hsource := Except.eq_ok_of_toOption hp
  have hrange := (ofDocument?_characterization p).1 _ _ hsource hsize
  obtain ⟨hwrites, hread⟩ := (ofDocument?_characterization p).2 hrange
  exact ⟨p, hsource, hrange, (hread _ hwrites).2.2.2.2 hshort⟩

/-- The literal of a finite number is taken for the double above it. Its ten digits are
scaled by a power of ten that is no double, so the digits are rounded twice. -/
theorem ofDocument?_of_long_exponent :
    ∃ p q, ofSource "1.602176634e-19" defaultVersion = .ok p ∧
      (∀ v ∈ p.numbers, v.isFinite = true) ∧ ofDocument? p.toJson.compact = some q ∧ q ≠ p := by
  have hcheck : (do
      let p ← (ofSource "1.602176634e-19" defaultVersion).toOption
      let q ← ofDocument? p.toJson.compact
      return decide ((∀ v ∈ p.numbers, v.isFinite = true) ∧ q ≠ p)) = some true := by
    decide +kernel
  simp only [Option.bind_eq_bind, Option.bind_eq_some_iff] at hcheck
  obtain ⟨p, hp, q, hq, hcheck⟩ := hcheck
  obtain ⟨hfinite, hne⟩ := of_decide_eq_true (Option.some.inj hcheck)
  exact ⟨p, q, Except.eq_ok_of_toOption hp, hfinite, hq, hne⟩

end Program

end Wordstack
