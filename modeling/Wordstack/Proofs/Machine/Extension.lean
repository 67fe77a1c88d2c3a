-- SUMMARY: Programs that agree on the names that one of them uses have the same runs, whatever else they define.
import Mathlib.Data.Set.Defs
import Wordstack.Proofs.Machine.Resolution

/-!
# Extended programs

A run gets at functions and blocks by their names, and the only names that it goes by are
those of functions of the program and the identifiers in their bodies. So two programs that
agree on a set of names have the same run if the functions of one of them stay within that set
(`Program.AgreesOn.inStep`). In particular a program may be given a further function that it
does not mention: that function is never called, and its block is never looked into.
-/

namespace Wordstack

-- -----------------------------------------------------------------------
-- The names that a program uses
-- -----------------------------------------------------------------------

/-- The name is an identifier in the body of a function. -/
def Program.Mentions (p : Program) (name : String) : Prop :=
  ∃ (function : String) (d : Definition),
    p.functions[function]? = some d ∧ Token.ident name ∈ d.body

theorem Program.mentions_iff {p : Program} {name : String} : p.Mentions name ↔
    (p.functions.toList.any fun entry => entry.2.body.contains (.ident name)) = true := by
  simp only [List.any_eq_true, Prod.exists, Std.ExtTreeMap.mem_toList_iff_getElem?_eq_some,
    Array.contains_iff_mem]
  rfl

instance (p : Program) (name : String) : Decidable (p.Mentions name) :=
  decidable_of_iff _ Program.mentions_iff.symm

/-- The name of the function is in a set, and so are all names that its body mentions. -/
structure Definition.Within (names : Set String) (d : Definition) : Prop where
  name_mem : d.name ∈ names
  mentions_mem : ∀ name, Token.ident name ∈ d.body → name ∈ names

/-- The program uses no names outside a set. -/
structure Program.Within (names : Set String) (p : Program) : Prop where
  global_mem : globalName ∈ names
  functions : ∀ (name : String) d, p.functions[name]? = some d → d.Within names

/-- The frame uses no names outside a set, and looks in no other blocks. -/
structure Frame.Within (names : Set String) (f : Frame) : Prop where
  func : f.func.Within names
  caller_mem : f.callerBlock ∈ names

namespace Frame.Within

variable {names : Set String} {p : Program} {f g : Frame} {index : Nat}

theorem congr (h : f.Within names) (hg : g.fixed = f.fixed) : g.Within names := by
  simp only [fixed, Frame.mk.injEq] at hg
  obtain ⟨-, hfunc, -, -, -, -, hcaller⟩ := hg
  exact ⟨hfunc ▸ h.func, hcaller ▸ h.caller_mem⟩

theorem starts (hp : p.Within names) (h : f.Within names) (hg : f.Starts p index g) :
    g.Within names := by
  cases hg with
  | @call name d args hd => exact ⟨hp.functions name d hd, h.func.name_mem⟩
  | branch pc stack start stop => exact ⟨h.func, h.caller_mem⟩

theorem lasting (hp : p.Within names) : Lasting p (Frame.Within names) :=
  ⟨fun h hg => h.congr hg, fun h hg => h.starts hp hg⟩

theorem mem_of_next? (h : f.Within names) {name : String} (hnext : f.next? = some (.ident name)) :
    name ∈ names :=
  h.func.mentions_mem name (Array.mem_of_getElem? (next?_eq_some hnext).2)

end Frame.Within

namespace Program

variable {p q : Program} {names : Set String} {name : String} {σ : Type} {options : RunOptions}
  {sink : Sink σ} {out : σ}

theorem Visits.within (hp : p.Within names) {phase : Phase} {m : Machine σ} {s : Signal}
    (h : p.Visits options sink out phase m s) : ∀ f ∈ m.frames, f.Within names :=
  h.all (Frame.Within.lasting hp) fun name d _ _ hd => ⟨hp.functions name d hd, hp.global_mem⟩

-- -----------------------------------------------------------------------
-- Programs that agree
-- -----------------------------------------------------------------------

/-- The programs have the same functions and blocks under the names in a set. -/
structure AgreesOn (p q : Program) (names : Set String) : Prop where
  functions : ∀ name ∈ names, q.functions[name]? = p.functions[name]?
  blocks : ∀ name ∈ names, q.blocks[name]? = p.blocks[name]?

namespace AgreesOn

theorem missingBlock?_eq (h : p.AgreesOn q names) {own caller : String} (hown : own ∈ names)
    (hcaller : caller ∈ names) :
    Machine.missingBlock? q [own, caller] = Machine.missingBlock? p [own, caller] := by
  simp only [Machine.missingBlock?, List.find?_cons, List.find?_nil,
    Std.ExtTreeMap.contains_eq_isSome_getElem?, h.blocks own hown, h.blocks caller hcaller]

theorem lookup_eq (h : p.AgreesOn q names) {f : Frame} (hf : f.Within names) (name : String) :
    Machine.lookup q f name = Machine.lookup p f name := by
  simp only [Machine.lookup, block, h.blocks _ hf.func.name_mem, h.blocks _ hf.caller_mem]

theorem moveIdent_eq (h : p.AgreesOn q names) (hp : p.Within names) {f : Frame}
    (hf : f.Within names) (hname : name ∈ names) (index : Nat) :
    f.moveIdent q index name = f.moveIdent p index name := by
  unfold Frame.moveIdent
  rw [h.functions name hname]
  cases hd : p.functions[name]? with
  | none => simp only [h.lookup_eq hf]
  | some d =>
    have hblocks := h.missingBlock?_eq (hp.functions name d hd).name_mem hf.func.name_mem
    simp only [Frame.moveCall, hblocks]

theorem invoke_eq (h : p.AgreesOn q names) (hp : p.Within names) (hname : name ∈ names)
    (m : Machine σ) (returnTo : ReturnTo) :
    m.invoke (q.context options sink) name globalName returnTo =
      m.invoke (p.context options sink) name globalName returnTo := by
  simp only [Machine.invoke, context, h.functions name hname]
  cases hd : p.functions[name]? with
  | none => rfl
  | some d => simp only [h.missingBlock?_eq (hp.functions name d hd).name_mem hp.global_mem]

/-- A run does not show what lies outside the names that its program uses. -/
theorem inStep (h : p.AgreesOn q names) (hp : p.Within names) (hentry : options.entry ∈ names) :
    InStep p q options sink out where
  entry := by
    rw [Std.ExtTreeMap.contains_eq_isSome_getElem?, Std.ExtTreeMap.contains_eq_isSome_getElem?,
      h.functions _ hentry]
  invoke := by
    rintro m name returnTo (rfl | rfl)
    · exact h.invoke_eq hp hp.global_mem m returnTo
    · exact h.invoke_eq hp hentry m returnTo
  step := by
    intro phase m hvisits
    apply step_congr
    rintro base f name rfl hnext
    have hf := hvisits.within hp f Array.mem_push_self
    exact h.moveIdent_eq hp hf (hf.mem_of_next? hnext) base.frames.size

end AgreesOn

-- -----------------------------------------------------------------------
-- A further function
-- -----------------------------------------------------------------------

theorem agreesOn_define (p : Program) (d : Definition) :
    p.AgreesOn (p.define d) {name | name ≠ d.name} where
  functions _ hname := by rw [functions_define, if_neg (Ne.symm hname)]
  blocks _ hname := by rw [blocks_define, if_neg (Ne.symm hname)]

/-- A program that was read goes by the names of its functions. -/
theorem within_of_ofSource {source version : String} (h : ofSource source version = .ok p)
    (hnew : name ∉ p.functions) (hunused : ¬ p.Mentions name) :
    p.Within {other | other ≠ name} := by
  obtain ⟨items, hsplits⟩ := splits_of_ofSource h
  have hdescribes := describes_of_ofSource h hsplits
  have hne : ∀ (other : String) d, p.functions[other]? = some d → other ≠ name := by
    rintro other d hd rfl
    exact hnew (Std.ExtTreeMap.mem_iff_isSome_getElem?.mpr (hd ▸ rfl))
  refine ⟨?_, ?_⟩
  · obtain ⟨d, hd, -⟩ := hdescribes.global
    exact hne globalName d hd
  · intro other d hd
    refine ⟨?_, ?_⟩
    · obtain ⟨_, _, hconsists⟩ := hdescribes.consists hd
      exact hconsists.name_eq ▸ hne other d hd
    · rintro mentioned hmentioned rfl
      exact hunused ⟨other, d, hd, hmentioned⟩

/-- A further function whose name is new to a program, is not that of the entry function and
is mentioned nowhere leaves every run as it is, moment by moment and in its outcome, though
the program then has it. It is never called, and its block is never looked into. -/
theorem define_conservative {source version : String} (h : ofSource source version = .ok p)
    {params : List Param} {body : List Token} {d : Definition}
    (hmake : Definition.make name params body = .ok d) (hnew : name ∉ p.functions)
    (hunused : ¬ p.Mentions name) (options : RunOptions) (hentry : name ≠ options.entry)
    (sink : Sink σ) (out : σ) :
    (p.define d).functions[name]? = some d ∧
    (∀ n, (p.define d).trace options sink out n = p.trace options sink out n) ∧
    (∀ fuel, (p.define d).run options sink out fuel = p.run options sink out fuel) ∧
    ∀ (phase : Phase) (m : Machine σ) (s : Signal),
      (p.define d).Visits options sink out phase m s →
        ∀ f ∈ m.frames, f.func.name ≠ name ∧ f.callerBlock ≠ name := by
  obtain ⟨rfl, -⟩ := Definition.make_eq_ok_iff.mp hmake
  have hwithin := within_of_ofSource h hnew hunused
  have hinStep : InStep p (p.define d) options sink out :=
    (p.agreesOn_define d).inStep hwithin hentry.symm
  refine ⟨?_, hinStep.trace_eq, hinStep.run_eq, ?_⟩
  · rw [functions_define, if_pos rfl]
  · intro phase m s hvisits f hf
    obtain ⟨n, hn⟩ := visits_iff_trace.mp hvisits
    rw [hinStep.trace_eq n] at hn
    have hframe := (visits_of_trace hn).within hwithin f hf
    exact ⟨hframe.func.name_mem, hframe.caller_mem⟩

/-- A text that quotes `version` runs as before once a function of that name is there, up to
the assertion that fails. A text that runs the word as a name does not. -/
theorem define_conservative_of_quoted_name :
    (∃ p d, ofSource "fun f as false ret end 'version' print true f assert" "1.0" = .ok p ∧
      Definition.make "version" [] [.ident "f", .ident "version"] = .ok d ∧
      "version" ∉ p.functions ∧ ¬ p.Mentions "version" ∧
      (p.define d).run {} .memory "" 9 = some
        { out := "version\n", result := .error (.assertionFailed (.bool true) (.bool false)) }) ∧
    ∃ p d, ofSource "version print" "1.0" = .ok p ∧
      Definition.make "version" [] [] = .ok d ∧
      "version" ∉ p.functions ∧ p.Mentions "version" ∧
      (p.define d).run {} .memory "" 9 ≠ p.run {} .memory "" 9 := by
  constructor
  · have hcheck : (do
        let p ← (ofSource "fun f as false ret end 'version' print true f assert" "1.0").toOption
        return decide ("version" ∉ p.functions ∧ ¬ p.Mentions "version" ∧
          p.run {} .memory "" 9 = some
            { out := "version\n",
              result := .error (.assertionFailed (.bool true) (.bool false)) })) = some true := by
      decide +kernel
    simp only [Option.bind_eq_bind, Option.bind_eq_some_iff] at hcheck
    obtain ⟨p, hp, hcheck⟩ := hcheck
    obtain ⟨hnew, hunused, hrun⟩ := of_decide_eq_true (Option.some.inj hcheck)
    have hsource := Except.eq_ok_of_toOption hp
    have hmake : Definition.make "version" [] [.ident "f", .ident "version"] = .ok
        { name := "version", params := [], body := #[.ident "f", .ident "version"], jumps := ∅ } :=
      rfl
    obtain ⟨-, -, hsame, -⟩ :=
      define_conservative hsource hmake hnew hunused {} (by decide) Sink.memory ""
    exact ⟨p, _, hsource, hmake, hnew, hunused, (hsame 9).trans hrun⟩
  · have hcheck : (do
        let p ← (ofSource "version print" "1.0").toOption
        let d ← (Definition.make "version" [] []).toOption
        return decide ("version" ∉ p.functions ∧ p.Mentions "version" ∧
          (p.define d).run {} .memory "" 9 ≠ p.run {} .memory "" 9)) = some true := by
      decide +kernel
    simp only [Option.bind_eq_bind, Option.bind_eq_some_iff] at hcheck
    obtain ⟨p, hp, d, hd, hcheck⟩ := hcheck
    obtain ⟨hnew, hmentions, hdiffer⟩ := of_decide_eq_true (Option.some.inj hcheck)
    cases hd
    exact ⟨p, _, Except.eq_ok_of_toOption hp, rfl, hnew, hmentions, hdiffer⟩

end Program

end Wordstack
