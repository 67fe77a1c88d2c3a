-- SUMMARY: A number of frames that is asked for outright, from its digits on the command line to the run.
import Mathlib.Algebra.Group.Int.Defs
import Mathlib.Algebra.Group.Nat.Defs
import Wordstack.Command.Run
import Wordstack.Proofs.Number.Numeral
import Wordstack.Proofs.Settings

/-!
# How many frames are asked for

A number of frames is carried in the 64 bits of an integer with a sign. So a number below
`2 ^ 63` is what the run is limited to, and any larger one comes out negative and is refused
(`Settings.build_withFrames`).
-/

namespace Wordstack

-- -----------------------------------------------------------------------
-- The number in its layer
-- -----------------------------------------------------------------------

namespace Overrides

/-- In the 64 bits of an integer with a sign the upper half of the counts is negative. -/
theorem signed_eq {n : Nat} (h : n < 2 ^ 64) :
    signed n = if n < 2 ^ 63 then (n : Int) else n - 2 ^ 64 := by
  have hsigned : signed n = (BitVec.ofNat 64 n).toInt := rfl
  have hnat : (BitVec.ofNat 64 n).toNat = n := by
    rw [BitVec.toNat_ofNat, Nat.mod_eq_of_lt h]
  rw [hsigned, BitVec.toInt_eq_toNat_cond, hnat]
  split <;> split <;> omega

theorem filter_layer_frames {o : Overrides} {n : Nat} (h : o.maxFrames = some n) :
    o.layer.filter (·.key.name == "max_frames") =
      [{ key := { name := "max_frames" }, given := { value := .int (signed n) } }] := by
  obtain ⟨entry, requireEntry, maxFrames, version, logLevel⟩ := o
  cases h
  cases entry <;> cases requireEntry <;> cases version <;> cases logLevel <;> rfl

theorem filter_layer_other (o : Overrides) (n m : Nat) {key : String} (h : key ≠ "max_frames") :
    ({ o with maxFrames := some n } : Overrides).layer.filter (·.key.name == key) =
      ({ o with maxFrames := some m } : Overrides).layer.filter (·.key.name == key) := by
  simp [layer, h.symm]

end Overrides

/-- The request that asks for a number of frames, whatever else it asks for. -/
def SettingsRequest.withFrames (r : SettingsRequest) (n : Nat) : SettingsRequest :=
  { r with overrides := { r.overrides with maxFrames := some n } }

namespace Settings

variable {r : SettingsRequest} {s : Settings} {layers layers' : List Layer} {n m : Nat}

-- -----------------------------------------------------------------------
-- The settings
-- -----------------------------------------------------------------------

/-- If layers differ in the number of frames at most, so do their settings, and nothing else
can be wrong with them. -/
theorem ofLayers_of_frames (h : ofLayers layers = .ok s)
    (hother : ∀ key, key ≠ "max_frames" →
      Layer.get? layers'.flatten key = Layer.get? layers.flatten key) :
    ofLayers layers' =
      (field layers' "max_frames" RawValue.toCount 1000000).map ({ s with maxFrames := · }) := by
  have hfield {α : Type} (key : String) (hkey : key ≠ "max_frames")
      (convert : RawValue → Except (Unfit × Need) α) (default : α) :
      field layers' key convert default = field layers key convert default := by
    simp only [field, hother key hkey]
  simp only [ofLayers, Except.bind_eq_ok_iff] at h
  obtain ⟨entry, hentry, requireEntry, hrequire, maxFrames, -, version, hversion, logLevel, hlevel,
    ⟨⟩⟩ := h
  simp only [ofLayers, hfield "entry" (by decide), hfield "require_entry" (by decide),
    hfield "version" (by decide), hfield "log_level" (by decide), hentry, hrequire, hversion,
    hlevel]
  cases field layers' "max_frames" RawValue.toCount 1000000 <;> rfl

/-- The error of a number that does not fit. -/
def framesError (n : Nat) : SettingsError :=
  .unfit (.negative (n - 2 ^ 64)) .unsigned "max_frames" none

theorem toCount_signed (h : n < 2 ^ 64) :
    RawValue.toCount (.int (Overrides.signed n)) =
      if n < 2 ^ 63 then .ok n else .error (.negative (n - 2 ^ 64), .unsigned) := by
  rw [RawValue.toCount, Overrides.signed_eq h]
  by_cases hlower : n < 2 ^ 63
  · rw [if_pos hlower, if_pos hlower, if_neg (by omega), Int.toNat_natCast]
  · rw [if_neg hlower, if_neg hlower, if_pos (by omega)]

/-- The number that is asked for stands above all others. -/
theorem field_frames (file environment : Layer) {o : Overrides} (h : o.maxFrames = some n)
    (hword : n < 2 ^ 64) :
    field [file, environment, o.layer] "max_frames" RawValue.toCount 1000000 =
      if n < 2 ^ 63 then .ok n else .error (framesError n) := by
  have hget : Layer.get? [file, environment, o.layer].flatten "max_frames" =
      some { value := .int (Overrides.signed n) } := by
    simp [Layer.get?, Overrides.filter_layer_frames h, Assignment.apply]
  simp only [field, hget, toCount_signed hword]
  by_cases hlower : n < 2 ^ 63
  · simp only [if_pos hlower]
  · simp only [if_neg hlower, framesError]

/-- A number of frames is taken as it is asked for if it has 63 bits, and refused if not,
provided that nothing else is wrong. -/
theorem build_withFrames (hpos : 1 ≤ n) (hword : n < 2 ^ 64) (h : build (r.withFrames m) = .ok s) :
    build (r.withFrames n) =
      if n < 2 ^ 63 then .ok { s with maxFrames := n } else .error (framesError n) := by
  obtain ⟨file, hfile, hlayers, hfault⟩ := build_eq_ok_iff_ofLayers.mp h
  have hfile' : (r.withFrames n).fileLayer = .ok file := hfile
  have hother (key : String) (hkey : key ≠ "max_frames") :
      Layer.get? [file, r.environmentLayer, (r.withFrames n).overrides.layer].flatten key =
        Layer.get? [file, r.environmentLayer, (r.withFrames m).overrides.layer].flatten key := by
    refine Layer.get?_congr ?_
    simp only [List.flatten_cons, List.filter_append]
    rw [show (r.withFrames n).overrides.layer.filter (·.key.name == key) = _ from
      r.overrides.filter_layer_other n m hkey]
    rfl
  have hsettings := ofLayers_of_frames hlayers hother
  rw [field_frames _ _ rfl hword] at hsettings
  by_cases hlower : n < 2 ^ 63
  · rw [if_pos hlower] at hsettings ⊢
    rw [fault?_eq_none_iff] at hfault
    exact build_eq_ok_iff_ofLayers.mpr
      ⟨file, hfile', hsettings, (fault?_eq_none_iff _).mpr ⟨hfault.1, hpos⟩⟩
  · rw [if_neg hlower] at hsettings ⊢
    have hlayers' : (r.withFrames n).layers =
        .ok [file, r.environmentLayer, (r.withFrames n).overrides.layer] := by
      rw [SettingsRequest.layers, hfile']
      rfl
    have herror : ofLayers [file, r.environmentLayer, (r.withFrames n).overrides.layer] =
        .error (framesError n) := hsettings
    simp only [build, hlayers', bind, Except.bind, herror]

end Settings

-- -----------------------------------------------------------------------
-- The command line
-- -----------------------------------------------------------------------

namespace Arguments

/-- A number is written as digits. -/
theorem exists_toString (n : Nat) : ∃ c cs, (toString n).toList = c :: cs ∧
    (∀ d ∈ c :: cs, d.isDigit = true) ∧ Decimal.natOfDigits (c :: cs) = n := by
  have hdigits : (toString n).toList = Nat.toDigits 10 n := Nat.toList_repr
  obtain ⟨c, cs, hcs⟩ := List.exists_cons_of_ne_nil (@Nat.toDigits_ne_nil n 10)
  refine ⟨c, cs, hdigits.trans hcs, ?_, ?_⟩
  · rw [← hcs]
    exact fun d hd => Nat.isDigit_of_mem_toDigits (by decide) (by decide) hd
  · rw [← hcs, Decimal.natOfDigits_toDigits]

/-- A number does not look like an option. -/
theorem shape_toString (n : Nat) : shape (toString n) = .word := by
  obtain ⟨c, cs, hcs, hdigits, -⟩ := exists_toString n
  have hc : c ≠ '-' := by
    rintro rfl
    exact absurd (hdigits '-' List.mem_cons_self) (by decide)
  rw [shape, hcs]
  simp [hc]

theorem number_toString {n : Nat} (h : n < 2 ^ 64) : number (toString n) = .ok n := by
  obtain ⟨c, cs, hcs, hdigits, hvalue⟩ := exists_toString n
  have hc : c ≠ '+' := by
    rintro rfl
    exact absurd (hdigits '+' List.mem_cons_self) (by decide)
  have hcount : RawValue.count? (toString n) = some n := by
    have hsize : n < UInt64.size := h
    rw [RawValue.count?, hcs]
    simpa [hc, hvalue, hsize] using hdigits
  rw [number, hcount]

variable {n : Nat} {word file : String}

theorem resolve_frames (h : number word = .ok n) :
    resolve { pending := some (.maxFrames, [word]) } = .ok { maxFrames := some n } := by
  simp only [resolve, store, setOnce, h]
  rfl

theorem resolve_file (h : file ≠ "") :
    resolve { maxFrames := some n, pending := some (.file, [file]) } =
      .ok { maxFrames := some n, files := [file] } := by
  simp [resolve, store, path, h]

variable {command : CommandName} {a : Arguments} {rest : List String}

/-- A word after an option that lacks its value is the value. -/
theorem pushAll_value (hshape : shape word = .word) (hawaiting : a.awaiting = true)
    (hfiles : a.onlyFiles = false) :
    pushAll command a (word :: rest) = pushAll command (a.pushValue word) rest := by
  rw [pushAll]
  simp only [takesWord, hshape, hawaiting, hfiles]
  rfl

/-- Any other word is a file. -/
theorem pushAll_file (hshape : shape file = .word) (hawaiting : a.awaiting = false) :
    pushAll command a (file :: rest) =
      (a.pushFile command file >>= fun a => pushAll command a rest) := by
  rw [pushAll]
  simp only [takesWord, hshape, hawaiting]
  cases a.onlyFiles <;> rfl

theorem pushAll_frames (hword : shape word = .word) (hnumber : number word = .ok n)
    (hshape : shape file = .word) (hfile : file ≠ "") :
    pushAll .run {} ["--max-frames", word, file] =
      .ok { maxFrames := some n, files := [file] } := by
  have hpush : pushFile { pending := some (.maxFrames, [word]) } .run file =
      .ok { maxFrames := some n, pending := some (.file, [file]) } := by
    simp only [pushFile, resolve_frames hnumber]
    rfl
  calc pushAll .run {} ["--max-frames", word, file]
    _ = pushAll .run { pending := some (.maxFrames, []), awaiting := true } [word, file] := rfl
    _ = pushAll .run { pending := some (.maxFrames, [word]) } [file] := pushAll_value hword rfl rfl
    _ = pushAll .run { maxFrames := some n, pending := some (.file, [file]) } [] := by
      rw [pushAll_file hshape rfl, hpush]
      rfl
    _ = .ok { maxFrames := some n, files := [file] } := resolve_file hfile

end Arguments

namespace CommandLine

/-- A number that is given on the command line is asked for. -/
theorem parse_run_frames {n : Nat} (h : n < 2 ^ 64) {file : String}
    (hshape : Arguments.shape file = .word) (hfile : file ≠ "") :
    parse ["run", "--max-frames", toString n, file] =
      .ok { config := none, logLevel := none, command := .run [file] none false (some n) } := by
  have hname : parse ("run" :: ["--max-frames", toString n, file]) =
      afterName {} .run ["--max-frames", toString n, file] := rfl
  rw [hname, afterName, Arguments.pushAll_frames (Arguments.shape_toString n)
    (Arguments.number_toString h) hshape hfile]
  rfl

theorem withFrames_request {line : CommandLine} {files : List String} {entry : Option String}
    {noEntry : Bool} {n : Nat} (h : line.command = .run files entry noEntry (some n))
    (folder : Folder) (environment : Environment) (formats : Formats) :
    (line.request folder environment formats).withFrames n =
      line.request folder environment formats := by
  simp [SettingsRequest.withFrames, request, overrides, h]

end CommandLine

namespace Settings

/-- A number of frames from one to `2 ^ 63 - 1` that is asked for outright, also on the
command line, is what the run is limited to. A larger one is refused, as if it were
negative. -/
theorem frames_as_asked {n : Nat} (hpos : 1 ≤ n) (hword : n < 2 ^ 64) :
    (∀ (r : SettingsRequest) (m : Nat) (s : Settings), build (r.withFrames m) = .ok s →
      (n < 2 ^ 63 → ∃ t, build (r.withFrames n) = .ok t ∧ t = { s with maxFrames := n } ∧
        t.runOptions = { s.runOptions with maxFrames := n }) ∧
      (2 ^ 63 ≤ n → build (r.withFrames n) = .error (framesError n))) ∧
    (∀ file, Arguments.shape file = .word → file ≠ "" →
      CommandLine.parse ["run", "--max-frames", toString n, file] =
        .ok { config := none, logLevel := none, command := .run [file] none false (some n) }) ∧
    ∀ (line : CommandLine) (files : List String) (entry : Option String) (noEntry : Bool),
      line.command = .run files entry noEntry (some n) →
      ∀ (folder : Folder) (environment : Environment) (formats : Formats) (m : Nat) (s : Settings)
        (fuel : Nat), build ((line.request folder environment formats).withFrames m) = .ok s →
        (n < 2 ^ 63 → line.execute folder environment fuel formats =
          CommandLine.runFiles folder { s.runOptions with maxFrames := n } fuel "" files) ∧
        (2 ^ 63 ≤ n → line.execute folder environment fuel formats =
          some { shown := .text "", failure := some (.settings (framesError n)) }) := by
  refine ⟨?_, ?_, ?_⟩
  · intro r m s h
    have hbuild := build_withFrames hpos hword h
    refine ⟨fun hlower => ⟨_, hbuild.trans (if_pos hlower), rfl, rfl⟩, fun hupper => ?_⟩
    exact hbuild.trans (if_neg (by omega))
  · exact fun file hshape hfile => CommandLine.parse_run_frames hword hshape hfile
  · intro line files entry noEntry hcommand folder environment formats m s fuel h
    have hbuild := build_withFrames hpos hword h
    rw [CommandLine.withFrames_request hcommand] at hbuild
    refine ⟨fun hlower => ?_, fun hupper => ?_⟩
    · simp only [CommandLine.execute, hbuild, if_pos hlower, hcommand]
      rfl
    · simp only [CommandLine.execute, hbuild, if_neg (show ¬ n < 2 ^ 63 by omega)]

/-- The largest number with 63 bits can be asked for. -/
theorem frames_as_asked_at_bound :
    build { folder := .ofEntries [], overrides := { maxFrames := some 9223372036854775807 } } =
      .ok { maxFrames := 9223372036854775807 } := by
  obtain ⟨hasked, -⟩ := frames_as_asked (n := 9223372036854775807) (by decide) (by decide)
  have hone : build (SettingsRequest.withFrames { folder := .ofEntries [] } 1) =
      .ok { maxFrames := 1 } := Except.eq_ok_of_toOption (by decide +kernel)
  obtain ⟨t, ht, rfl, -⟩ := (hasked _ 1 _ hone).1 (by decide)
  exact ht

/-- One more is taken on the command line, but refused as a setting, so nothing runs. -/
theorem frames_as_asked_above_bound :
    let line (n : Nat) : CommandLine :=
      { config := none, logLevel := none, command := .run ["a.nm"] none false (some n) }
    let folder : Folder := .ofEntries [("a.nm", .ok (.file "1 print fun main as end".toUTF8))]
    CommandLine.parse ["run", "--max-frames", "9223372036854775808", "a.nm"] =
      .ok (line 9223372036854775808) ∧
    ((line 9223372036854775808).execute folder [] 10).map (fun r => (r.shown.render, r.failure)) =
      some ("", some (.settings (framesError 9223372036854775808))) ∧
    ((line 9223372036854775807).execute folder [] 10).map (fun r => (r.shown.render, r.failure)) =
      some ("1\n", none) := by
  refine ⟨Except.eq_ok_of_toOption (by decide +kernel), by decide +kernel, by decide +kernel⟩

end Settings

end Wordstack
