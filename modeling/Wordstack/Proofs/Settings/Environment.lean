-- SUMMARY: Which variable counts for a setting, and what a file of variables makes of those that are not set.
import Mathlib.Data.List.Basic
import Wordstack.Proofs.Settings

/-!
# Variables and settings

A variable bears on the setting that its name stands for, in any case, or on a part of it.
The last variable that bears on a setting and is not empty counts: `Environment.gives_value?`.
A file of variables leaves those that are set alone (`Environment.exists_supplied`), and of
several values that it offers to another one the first counts (`Environment.becomes_get?`).
What it offers depends on the variables that are referred to, and on no others
(`Environment.filter_acceptAll`).
-/

namespace Wordstack

-- -----------------------------------------------------------------------
-- The values of variables
-- -----------------------------------------------------------------------

/-- What the text of a variable stands for, by what it can be read as. -/
inductive RawValue.Stands (s : String) : RawValue → Prop where
  | true (h : Text.lowercase s = "true") : Stands s (.bool true)
  | false (h : Text.lowercase s = "false") : Stands s (.bool false)
  | int {i : Int} (hword : Text.lowercase s ∉ ["true", "false"]) (h : int? s = some i) :
      Stands s (.int i)
  | float {v : Float} (hword : Text.lowercase s ∉ ["true", "false"]) (hint : int? s = none)
      (h : float? s = some v) : Stands s (.float v)
  | text (hword : Text.lowercase s ∉ ["true", "false"]) (hint : int? s = none)
      (hfloat : float? s = none) : Stands s (.text s)

theorem RawValue.stands_ofVariable (s : String) : Stands s (ofVariable s) := by
  unfold ofVariable
  by_cases htrue : Text.lowercase s = "true"
  · simp only [if_pos htrue]
    exact .true htrue
  · by_cases hfalse : Text.lowercase s = "false"
    · simp only [if_neg htrue, if_pos hfalse]
      exact .false hfalse
    · have hword : Text.lowercase s ∉ ["true", "false"] := by simp [htrue, hfalse]
      simp only [if_neg htrue, if_neg hfalse]
      split
      next i hint => exact .int hword hint
      next hint =>
        split
        next v hfloat => exact .float hword hint hfloat
        next hfloat => exact .text hword hint hfloat

/-- What a value makes of the setting that a key leads to or into. -/
def Key.valueOf (k : Key) (v : RawValue) : RawValue :=
  match k.step with
  | none => v
  | some .field => .table false
  | some .item => .list

namespace Environment

variable {env before after : Environment} {key name value : String}

-- -----------------------------------------------------------------------
-- The settings that variables give
-- -----------------------------------------------------------------------

/-- The setting, or the part of one, that a variable's name stands for. -/
def settingKey? (name : String) : Option Key :=
  (settingName? name).map fun text => Key.ofText (Text.lowercase text)

/-- The variable is not empty, and its name stands for a setting or for a part of it. -/
def Bears (key : String) (entry : String × String) : Prop :=
  entry.2 ≠ "" ∧ (settingKey? entry.1).map Key.name = some key

instance (key : String) (entry : String × String) : Decidable (Bears key entry) :=
  inferInstanceAs (Decidable (_ ∧ _))

/-- The layer of some variables. -/
def layer (env : Environment) : Layer :=
  env.settings.map fun (key, value) => Assignment.ofText (some .environment) key value

theorem layer_append (before after : Environment) :
    (before ++ after).layer = before.layer ++ after.layer := by
  simp only [layer, settings, List.filterMap_append, List.map_append]

/-- The assignment of a single variable. -/
theorem layer_single (name value : String) :
    layer [(name, value)] = if value = "" then [] else
      (settingKey? name).toList.map fun key =>
        { key, given := { value := .ofVariable value, origin := some .environment } } := by
  unfold layer settings settingKey?
  split
  next h => simp [h]
  next h =>
    cases hname : settingName? name with
    | none => simp [h, hname]
    | some text => simp [h, hname, Assignment.ofText]

theorem layer_cons (entry : String × String) (env : Environment) :
    layer (entry :: env) = layer [entry] ++ layer env :=
  layer_append [entry] env

/-- Variables that do not bear on a setting assign nothing to it. -/
theorem filter_layer_of_not_bears (h : ∀ entry ∈ env, ¬ Bears key entry) :
    env.layer.filter (·.key.name == key) = [] := by
  induction env with
  | nil => rfl
  | cons entry env ih =>
    obtain ⟨name, value⟩ := entry
    obtain ⟨hentry, henv⟩ := List.forall_mem_cons.mp h
    rw [layer_cons, List.filter_append, ih henv, List.append_nil, layer_single]
    split
    · rfl
    next hvalue =>
      cases hname : settingKey? name with
      | none => rfl
      | some k =>
        have hk : k.name ≠ key := by
          rintro rfl
          exact hentry ⟨hvalue, by simp [hname]⟩
        simp [hk]

/-- Only the variables that bear on a setting take part in it. -/
theorem filter_layer_filter {p : String × String → Bool}
    (h : ∀ entry, p entry = false → ¬ Bears key entry) (env : Environment) :
    (layer (env.filter p)).filter (·.key.name == key) =
      env.layer.filter (·.key.name == key) := by
  induction env with
  | nil => rfl
  | cons entry env ih =>
    rw [layer_cons, List.filter_append, ← ih]
    cases hp : p entry with
    | true => rw [List.filter_cons_of_pos hp, layer_cons, List.filter_append]
    | false =>
      have hnone : (layer [entry]).filter (·.key.name == key) = [] :=
        filter_layer_of_not_bears (by simpa using h entry hp)
      rw [List.filter_cons_of_neg (by simp [hp]), hnone, List.nil_append]

/-- A variable never gives an empty table, so what it gives counts. -/
theorem value?_ofVariable (k : Key) (value : String) (origin : Option Origin) :
    Assignment.value? { key := k, given := { value := .ofVariable value, origin } } =
      some (k.valueOf (.ofVariable value)) := by
  obtain ⟨name, step⟩ := k
  have hstands := RawValue.stands_ofVariable value
  generalize RawValue.ofVariable value = v at hstands ⊢
  cases step with
  | none => cases hstands <;> rfl
  | some step => cases step <;> rfl

/-- What some variables give to a setting. -/
inductive Gives (key : String) : Environment → Option RawValue → Prop where
  | nothing {env : Environment} (h : ∀ entry ∈ env, ¬ Bears key entry) : Gives key env none
  /-- The last one that bears on the setting counts. -/
  | last {before after : Environment} {name value : String} {k : Key} (hvalue : value ≠ "")
      (hname : settingKey? name = some k) (hkey : k.name = key)
      (hafter : ∀ entry ∈ after, ¬ Bears key entry) :
      Gives key (before ++ (name, value) :: after) (some (k.valueOf (.ofVariable value)))

theorem Gives.eq_value? {v : Option RawValue} (h : env.Gives key v) : env.layer.value? key = v := by
  cases h with
  | nothing h => exact Layer.value?_eq_none (filter_layer_of_not_bears h)
  | @last before after name value k hvalue hname hkey hafter =>
    rw [layer_append, layer_cons, Layer.value?_append, Layer.value?_append,
      Layer.value?_eq_none (filter_layer_of_not_bears hafter), layer_single, if_neg hvalue, hname]
    simp [Layer.value?, value?_ofVariable, hkey]

theorem gives_value? (env : Environment) (key : String) : env.Gives key (env.layer.value? key) := by
  have hgives : ∃ v, env.Gives key v := by
    induction env using List.reverseRecOn with
    | nil => exact ⟨none, .nothing (by simp)⟩
    | append_singleton env entry ih =>
      obtain ⟨name, value⟩ := entry
      by_cases hbears : Bears key (name, value)
      · obtain ⟨hvalue, hname⟩ := hbears
        obtain ⟨k, hk, hkey⟩ := Option.map_eq_some_iff.mp hname
        exact ⟨_, .last hvalue hk hkey (by simp)⟩
      · obtain ⟨v, hv⟩ := ih
        cases hv with
        | nothing h =>
          exact ⟨none, .nothing (List.forall_mem_append.mpr ⟨h, by simpa using hbears⟩)⟩
        | @last before after name' value' k hvalue hname hkey hafter =>
          rw [List.append_assoc, List.cons_append]
          exact ⟨_, .last hvalue hname hkey
            (List.forall_mem_append.mpr ⟨hafter, by simpa using hbears⟩)⟩
  obtain ⟨v, hv⟩ := hgives
  rwa [hv.eq_value?]

-- -----------------------------------------------------------------------
-- The names of variables
-- -----------------------------------------------------------------------

/-- The variable of a setting is its key after `numen_`, in any case. -/
theorem settingKey?_of_lowercase (hkey : key ∈ Settings.keys)
    (hname : Text.lowercase name = "numen_" ++ key) : settingKey? name = some { name := key } := by
  have hplain : ∀ key ∈ Settings.keys, Key.ofText (Text.lowercase key) = { name := key } := by
    decide +kernel
  have hsetting : settingName? name = some key := by
    simp [settingName?, hname, String.toList_append]
  rw [settingKey?, hsetting, Option.map_some, hplain key hkey]

/-- The variable that names the configuration file. -/
def pathVariable : String := "NUMEN_CONFIG_PATH"

theorem not_bears_pathVariable (hkey : key ∈ Settings.keys) (value : String) :
    ¬ Bears key (pathVariable, value) := by
  have hother : ∀ key ∈ Settings.keys, (settingKey? pathVariable).map Key.name ≠ some key := by
    decide +kernel
  exact fun hbears => hother key hkey hbears.2

-- -----------------------------------------------------------------------
-- Files of variables
-- -----------------------------------------------------------------------

theorem get?_append (before after : Environment) (name : String) :
    (before ++ after).get? name = (before.get? name).or (after.get? name) :=
  List.lookup_append

/-- The variable that a part of a value refers to. -/
def Part.reference? : Part → Option String
  | .char _ => none
  | .reference name => some name

/-- The variables that an offer refers to. -/
def Offer.references (offer : Offer) : List String := offer.value.filterMap Part.reference?

/-- The text of an offer depends on the variables that it refers to, and on no others. -/
theorem Offer.text_congr {env env' : Environment} {offer : Offer}
    (h : ∀ name ∈ offer.references, env.get? name = env'.get? name) :
    offer.text env = offer.text env' := by
  refine congrArg String.ofList (List.flatMap_congr fun part hpart => ?_)
  cases part with
  | char c => rfl
  | reference name =>
    have hname : name ∈ offer.references := List.mem_filterMap.mpr ⟨_, hpart, rfl⟩
    rw [Part.expand, Part.expand, h name hname]

theorem acceptAll_cons (env : Environment) (offer : Offer) (offers : List Offer) :
    env.acceptAll (offer :: offers) = (env.accept offer).acceptAll offers := rfl

theorem acceptAll_append (env : Environment) (before after : List Offer) :
    env.acceptAll (before ++ after) = (env.acceptAll before).acceptAll after :=
  List.foldl_append

/-- Offers leave the variables that are set as they are. -/
theorem exists_supplied (env : Environment) (offers : List Offer) :
    ∃ supplied, env.acceptAll offers = env ++ supplied ∧
      ∀ entry ∈ supplied, env.get? entry.1 = none := by
  induction offers generalizing env with
  | nil => exact ⟨[], by simp [acceptAll], by simp⟩
  | cons offer offers ih =>
    rw [acceptAll_cons, accept, supply]
    split
    · exact ih env
    next hset =>
      obtain ⟨supplied, hoffers, hnew⟩ := ih (env ++ [(offer.name, offer.text env)])
      refine ⟨(offer.name, offer.text env) :: supplied, by rw [hoffers, List.append_assoc]; rfl, ?_⟩
      refine List.forall_mem_cons.mpr ⟨by simpa using hset, ?_⟩
      intro entry hentry
      have hnone := hnew entry hentry
      rw [get?_append, Option.or_eq_none_iff] at hnone
      exact hnone.1

theorem get?_cons (entry : String × String) (env : Environment) (name : String) :
    get? (entry :: env) name = if name = entry.1 then some entry.2 else env.get? name := by
  obtain ⟨key, value⟩ := entry
  by_cases hname : name = key
  · rw [if_pos hname, hname]
    exact List.lookup_cons_self
  · rw [if_neg hname, get?, List.lookup_cons, beq_eq_false_iff_ne.mpr hname]
    rfl

theorem get?_accept (env : Environment) (offer : Offer) (name : String) :
    (env.accept offer).get? name =
      (env.get? name).or (if name = offer.name then some (offer.text env) else none) := by
  unfold accept supply
  split
  next hset =>
    obtain ⟨value, hvalue⟩ := Option.isSome_iff_exists.mp hset
    by_cases hname : name = offer.name
    · rw [hname, hvalue]
      rfl
    · rw [if_neg hname, Option.or_none]
  next =>
    rw [get?_append, get?_cons]
    rfl

theorem get?_acceptAll_of_set {offers : List Offer} (h : env.get? name = some value) :
    (env.acceptAll offers).get? name = some value := by
  obtain ⟨supplied, hoffers, -⟩ := env.exists_supplied offers
  rw [hoffers, get?_append, h]
  rfl

theorem get?_acceptAll_of_not_offered {offers : List Offer}
    (h : ∀ offer ∈ offers, offer.name ≠ name) :
    (env.acceptAll offers).get? name = env.get? name := by
  induction offers generalizing env with
  | nil => rfl
  | cons offer offers ih =>
    obtain ⟨hoffer, hoffers⟩ := List.forall_mem_cons.mp h
    rw [acceptAll_cons, ih hoffers, get?_accept, if_neg hoffer.symm, Option.or_none]

/-- What becomes of a variable when offers are made. -/
inductive Becomes (env : Environment) (offers : List Offer) (name : String) :
    Option String → Prop where
  | kept {value : String} (h : env.get? name = some value) : Becomes env offers name (some value)
  /-- The first offer counts, with the values that other variables have by then. -/
  | offered {before after : List Offer} {offer : Offer} (hset : env.get? name = none)
      (hoffers : offers = before ++ offer :: after) (hname : offer.name = name)
      (hfirst : ∀ other ∈ before, other.name ≠ name) :
      Becomes env offers name (some (offer.text (env.acceptAll before)))
  | missing (hset : env.get? name = none) (h : ∀ offer ∈ offers, offer.name ≠ name) :
      Becomes env offers name none

theorem becomes_get? (env : Environment) (offers : List Offer) (name : String) :
    env.Becomes offers name ((env.acceptAll offers).get? name) := by
  cases hset : env.get? name with
  | some value =>
    rw [get?_acceptAll_of_set hset]
    exact .kept hset
  | none =>
    cases hfound : offers.find? (·.name == name) with
    | none =>
      have hother : ∀ offer ∈ offers, offer.name ≠ name := by simpa using hfound
      rw [get?_acceptAll_of_not_offered hother, hset]
      exact .missing hset hother
    | some offer =>
      obtain ⟨hname, before, after, hoffers, hbefore⟩ := List.find?_eq_some_iff_append.mp hfound
      have hname : offer.name = name := beq_iff_eq.mp hname
      have hfirst : ∀ other ∈ before, other.name ≠ name := by simpa using hbefore
      have haccept : ((env.acceptAll before).accept offer).get? name =
          some (offer.text (env.acceptAll before)) := by
        rw [get?_accept, get?_acceptAll_of_not_offered hfirst, hset, if_pos hname.symm]
        rfl
      rw [hoffers, acceptAll_append, acceptAll_cons, get?_acceptAll_of_set haccept, ← hoffers]
      exact .offered hset hoffers hname hfirst

/-- Offers to variables that are set take no part. -/
theorem acceptAll_filter {env : Environment} {p : Offer → Bool}
    (h : ∀ offer, p offer = false → (env.get? offer.name).isSome) (offers : List Offer) :
    env.acceptAll (offers.filter p) = env.acceptAll offers := by
  induction offers generalizing env with
  | nil => rfl
  | cons offer offers ih =>
    cases hp : p offer with
    | true =>
      rw [List.filter_cons_of_pos hp, acceptAll_cons, acceptAll_cons]
      refine ih fun other hother => ?_
      rw [get?_accept]
      simp [h other hother]
    | false =>
      have hset : env.accept offer = env := if_pos (h offer hp)
      rw [List.filter_cons_of_neg (by simp [hp]), ih h, acceptAll_cons, hset]

theorem get?_filter {p : String → Bool} {name : String} (hp : p name = true) (env : Environment) :
    get? (env.filter (p ·.1)) name = env.get? name := by
  induction env with
  | nil => rfl
  | cons entry env ih =>
    cases hentry : p entry.1 with
    | true => rw [List.filter_cons_of_pos (by exact hentry), get?_cons, get?_cons, ih]
    | false =>
      have hname : name ≠ entry.1 := by
        rintro rfl
        simp [hp] at hentry
      rw [List.filter_cons_of_neg (by simp [hentry]), get?_cons, if_neg hname, ih]

/-- What variables of some names become depends on no others, if no offer to one of them
refers to another. -/
theorem filter_acceptAll {env env' : Environment} {p : String → Bool}
    (h : env.filter (p ·.1) = env'.filter (p ·.1)) {offers : List Offer}
    (hclosed : ∀ offer ∈ offers, p offer.name = true → ∀ name ∈ offer.references, p name = true) :
    (env.acceptAll offers).filter (p ·.1) =
      (env'.acceptAll (offers.filter (p ·.name))).filter (p ·.1) := by
  induction offers generalizing env env' with
  | nil => exact h
  | cons offer offers ih =>
    obtain ⟨hoffer, hoffers⟩ := List.forall_mem_cons.mp hclosed
    have hget (name : String) (hname : p name = true) : env.get? name = env'.get? name := by
      rw [← get?_filter hname env, ← get?_filter hname env', h]
    cases hp : p offer.name with
    | true =>
      have htext : offer.text env = offer.text env' :=
        Offer.text_congr fun name hname => hget name (hoffer hp name hname)
      rw [List.filter_cons, if_pos hp, acceptAll_cons, acceptAll_cons]
      refine ih ?_ hoffers
      simp only [accept, supply, hget offer.name hp, htext]
      split
      · exact h
      · rw [List.filter_append, List.filter_append, h]
    | false =>
      have haccept : (env.accept offer).filter (p ·.1) = env.filter (p ·.1) := by
        unfold accept supply
        split
        · rfl
        · simp [hp]
      rw [List.filter_cons_of_neg (by simp [hp]), acceptAll_cons]
      exact ih (haccept.trans h) hoffers

end Environment

end Wordstack
