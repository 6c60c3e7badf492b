import ShellExpansion.Proofs.Parameter.Elements
import ShellExpansion.Proofs.Session.Changes
import ShellExpansion.Proofs.Session.Running
import ShellExpansion.Proofs.Store.Local

/-! # Declarations in a function call

`declare` without `-g` and `local` without `-I` work in the innermost frame: whatever becomes of
their operands, the call returns to the store that it was made from (`pop?_of_declaration`).  Two
ways lead out of the frame all the same (`declaration_changes_outerFrame`): `+n` ends the nearest
reference of the name that it is given, in whichever frame that is, and `-nr` makes the variable
read-only that the new reference designates. -/

namespace ShellExpansion

open Eval

variable {deeper : Evaluators} {outer : Store} {bound : String → Prop}

/-- Of a store inside a call, only the innermost frame is changed, and its bindings keep a
property. -/
abbrev Shell.StaysInside (outer : Store) (bound : String → Prop) (q : String → Binding → Prop) :
    Shell → Shell → Prop :=
  Keeping fun shell => outer.Inside bound q shell.store

/-! ### Assigning in the innermost frame -/

/-- A text assigned to a variable of a frame without references and integers goes there. -/
theorem Evaluators.assign_inside {name text : String} (hname : isIdentifier name = true)
    (hliteral : ArrayLiteral.isLiteral text = false) (append : Bool) {shell : Shell} {b : Binding}
    (h : outer.Inside bound (fun _ => Binding.IsPlain) shell.store)
    (hfind : shell.store.find? .current name = some b) :
    outer.Inside bound (fun _ => Binding.IsPlain)
      (deeper.assign name text .current append shell).2.store := by
  unfold Evaluators.assign
  rw [splitSubscript_of_isIdentifier hname]
  simp only [hliteral, Bool.false_eq_true, if_false]
  rw [bind_run, change_run]
  cases hprepare : shell.store.prepare name .current with
  | error e => exact h
  | ok result =>
      obtain ⟨place, prepared⟩ := result
      obtain ⟨rfl, rfl⟩ := h.prepare_plain hfind hprepare
      have hb := h.find?_current hfind
      have hat : shell.store.at? ⟨.current, name⟩ = some b := hfind
      dsimp only
      rw [store_bind_run, Store.get_of_at? hat, if_neg (by simp [hb.value]),
        if_neg (by simp [hb.integer]), change_run]
      cases hassign : shell.store.assign name text .current append with
      | error e => exact h
      | ok result => exact h.assign_plain hfind hassign

namespace Builtin

/-- The words that `options` and `operands` were read from declare variables of the innermost frame:
each operand is a name, perhaps with a text for it that is no array literal, and no option asks for
another frame, for a copy of an outer variable, or for integers.  The last two conditions are about
references that lead out of the frame. -/
structure DeclaresLocally (frame : Frame) (outer : Store) (options : Options)
    (operands : List String) : Prop where
  innermost : options.isSet 'g' = false
  new : options.isSet 'I' = false
  texts : options.states.lookup 'i' = none
  names : ∀ word ∈ operands, isIdentifier (Operand.ofWord word).target = true
  scalars : ∀ word ∈ operands, ∀ text ∈ (Operand.ofWord word).value,
    ArrayLiteral.isLiteral text = false
  /-- No reference is ended. -/
  ended : options.isCleared 'n' = true → ∀ word ∈ operands,
    ∀ b, (outer.calling frame).lookup (Operand.ofWord word).target = some b →
      b.value.isReference = false
  /-- What is made a reference and read-only refers to a variable of the frame, or to none. -/
  marked : options.isSet 'n' = true → options.isSet 'r' = true → ∀ word ∈ operands, ∀ text,
    (Operand.ofWord word).value = some text ∨
      (∃ b, frame.bindings.get? (Operand.ofWord word).target = some b ∧ b.value = .scalar text) →
    (frame.bindings.get? text).isSome = true ∨ outer.lookup text = none

theorem kindOf_eq_reference_iff (options : Options) :
    kindOf options = some .reference ↔ options.isSet 'n' = true := by
  unfold kindOf
  cases options.isSet 'n' <;> cases options.isSet 'A' <;> cases options.isSet 'a' <;> simp

theorem integer_notMem_add {options : Options} (h : options.states.lookup 'i' = none)
    (scope : Scope) (inherit : Bool) :
    Attribute.integer ∉ (declarationOf options scope inherit).add := by
  have hset : options.isSet 'i' = false := by
    rw [Options.isSet, h]
    rfl
  simp [declarationOf, Attribute.letter, hset]

/-- A part that is left out when a reference is not to be ended, and what is done behind it. -/
theorem respects_dropReference {R : Shell → Shell → Prop} [IsPreorder Shell R] {p : Prop}
    [Decidable p] {name : String} {rest : Unit → Eval Unit}
    (hdrop : p → ∀ shell : Shell, R shell { shell with store := shell.store.dropReference name })
    (hrest : ∀ done, Respects R (rest done)) :
    Respects R (if p then do
      let done ← setStore ((← store).dropReference name)
      rest done
    else rest ()) := by
  split
  · next hp =>
    intro shell
    rw [store_bind_run]
    exact respects_bind_at (hdrop hp shell) fun done shell' _ => hrest done shell'
  · exact hrest ()

/-- A variable is declared in a frame without references, and then assigned to there. -/
theorem respects_declare_assign {request : Store.Declaration} {name : String}
    {value : Option String} {rest : Unit → Eval Unit} (hkind : request.kind ≠ some .reference)
    (hadd : Attribute.integer ∉ request.add) (hscope : request.scope = .current)
    (hinherit : request.inherit = false) (hname : isIdentifier name = true)
    (hscalar : ∀ text ∈ value, ArrayLiteral.isLiteral text = false) (append : Bool)
    (hrest : ∀ done, Respects (Shell.StaysInside outer bound fun _ => Binding.IsPlain) (rest done)) :
    Respects (Shell.StaysInside outer bound fun _ => Binding.IsPlain) (do
      discard (partialChange (·.declare name request))
      match value with
      | some text => do
        let done ← discard (deeper.assign name text request.scope append)
        rest done
      | _ => rest ()) := by
  have hdeclare : Respects (Shell.StaysInside outer bound fun _ => Binding.IsPlain)
      (discard (partialChange (·.declare name request))) :=
    .discard (.partialChange fun shell h => h.declare_plain hkind hadd hscope hinherit name)
  intro shell h
  refine respects_bind_at (R := Shell.StaysInside outer bound fun _ => Binding.IsPlain)
    (hdeclare shell) (fun _ shell' hrun => ?_) h
  cases value with
  | none => exact hrest () shell'
  | some text =>
      obtain ⟨place, hrun⟩ := discard_eq_ok hrun
      rw [partialChange_run] at hrun
      obtain ⟨hok, rfl⟩ := Prod.mk.inj hrun
      obtain ⟨b, hfind⟩ := h.find?_of_declare hkind hscope hok
      refine respects_bind_at (fun h' => ?_) fun done shell'' _ => hrest done shell''
      rw [discard_run_snd, hscope]
      exact Evaluators.assign_inside hname (hscalar text rfl) append h' hfind

/-- **An operand that makes no reference stays in the innermost frame.** -/
theorem declareOperand_plain (command : String) {options : Options} {word : String}
    (hset : options.isSet 'n' = false) (hinteger : options.states.lookup 'i' = none)
    (hname : isIdentifier (Operand.ofWord word).target = true)
    (hscalar : ∀ text ∈ (Operand.ofWord word).value, ArrayLiteral.isLiteral text = false)
    (hended : options.isCleared 'n' = true → bound (Operand.ofWord word).target ∨
      ∀ b, outer.lookup (Operand.ofWord word).target = some b → b.value.isReference = false) :
    Respects (Shell.StaysInside outer bound fun _ => Binding.IsPlain)
      (declareOperand deeper command options (declarationOf options .current false) word) := by
  have hkind : kindOf options ≠ some .reference := by
    rw [Ne, kindOf_eq_reference_iff, hset]
    exact Bool.false_ne_true
  have hadd := integer_notMem_add hinteger .current false
  unfold declareOperand
  extract_lets operand forReference
  rw [splitSubscript_of_isIdentifier hname]
  refine .optional (.refuse _) fun _ => .optional (.refuse _) fun _ => ?_
  extract_lets readonly declared
  have hmark (shell : Shell)
      (h : outer.Inside bound (fun _ => Binding.IsPlain) shell.store) :
      outer.Inside bound (fun _ => Binding.IsPlain)
        (shell.store.declare operand.target ⟨none, [.readonly], [], .current, false⟩).2 :=
    h.declare_plain (by simp) (by simp) rfl rfl _
  have hreadonly (done : Unit) :
      Respects (Shell.StaysInside outer bound fun _ => Binding.IsPlain) (readonly done) :=
    .ite (.discard (.partialChange hmark)) (.pure _)
  have hdeclared (done : Unit) :
      Respects (Shell.StaysInside outer bound fun _ => Binding.IsPlain) (declared done) := by
    unfold declared
    split
    · next htrue _ => exact absurd (beq_iff_eq.mp htrue) hkind
    · exact respects_declare_assign hkind hadd rfl rfl hname hscalar operand.append hreadonly
  exact respects_dropReference (fun hcleared shell h => by
    rwa [h.dropReference_plain (hended hcleared)]) hdeclared

/-- **An operand that makes a reference stays in the innermost frame**, and so do attributes that
are set through the reference when its target is near. -/
theorem declareOperand_reference (command : String) {options : Options} {word : String}
    {near : String → Prop} {names : List String} (hset : options.isSet 'n' = true)
    (hname : isIdentifier (Operand.ofWord word).target = true)
    (hmem : (Operand.ofWord word).target ∈ names)
    (htarget : ∀ text ∈ (Operand.ofWord word).value, near text)
    (hnear : options.isSet 'r' = true →
      ∀ target, near target → bound target ∨ outer.lookup target = none) :
    Respects (Shell.StaysInside outer bound (Store.LeadsNear near names))
      (declareOperand deeper command options (declarationOf options .current false) word) := by
  have hkind := (kindOf_eq_reference_iff options).mpr hset
  have hcleared : options.isCleared 'n' = false := by
    unfold Options.isSet at hset
    rw [Options.isCleared, beq_iff_eq.mp hset]
    rfl
  unfold declareOperand
  extract_lets operand forReference
  rw [splitSubscript_of_isIdentifier hname]
  refine .optional (.refuse _) fun _ => .optional (.refuse _) fun _ => ?_
  extract_lets readonly declared
  have hreadonly (done : Unit) :
      Respects (Shell.StaysInside outer bound (Store.LeadsNear near names)) (readonly done) := by
    unfold readonly
    split
    · next hr =>
      exact .discard (.partialChange fun shell h =>
        h.declare_attributes (hnear hr) rfl rfl rfl operand.target)
    · exact .pure _
  have hdeclared (done : Unit) :
      Respects (Shell.StaysInside outer bound (Store.LeadsNear near names)) (declared done) := by
    unfold declared
    split
    · next target _ hvalue =>
      exact .bind (.discard (.partialChange fun shell h =>
        h.setReference hmem (htarget target hvalue))) hreadonly
    · next hnone =>
      refine .bind (.discard (.partialChange fun shell h =>
        h.declare_reference hkind rfl rfl hmem)) fun _ => ?_
      split
      · next text hvalue => exact (hnone text (beq_iff_eq.mpr hkind) hvalue).elim
      · exact hreadonly ()
  exact respects_dropReference (fun h => absurd h (by simp [hcleared])) hdeclared

/-- **A declaration of local variables changes the innermost frame alone.** -/
theorem declareAll_inside (command : String) {frame : Frame} {options : Options}
    {operands : List String}
    (hplain : ∀ name b, frame.bindings.get? name = some b → b.IsPlain)
    (hlocal : DeclaresLocally frame outer options operands) {shell : Shell}
    (hshell : shell.store = outer.calling frame) :
    ∃ frame', (declareAll deeper command options .current false operands shell).2.store.pop? =
      some (frame', outer) := by
  cases hset : options.isSet 'n' with
  | false =>
      have hinside : outer.Inside (fun name => (frame.bindings.get? name).isSome = true)
          (fun _ => Binding.IsPlain) shell.store := ⟨frame, hshell, fun _ => id, hplain⟩
      refine Store.Inside.pop? (Respects.ite (.pure _) (respects_reportEach fun word hword =>
        respects_reportOf _ (declareOperand_plain command hset hlocal.texts
          (hlocal.names word hword) (hlocal.scalars word hword) fun hcleared => ?_)) shell hinside)
      have hended := hlocal.ended hcleared word hword
      rw [Store.lookup_calling] at hended
      cases hfind : frame.bindings.get? (Operand.ofWord word).target with
      | some b => exact .inl rfl
      | none =>
          rw [hfind] at hended
          exact .inr hended
  | true =>
      let bound (name : String) : Prop := (frame.bindings.get? name).isSome = true
      let near (text : String) : Prop :=
        options.isSet 'r' = true → bound text ∨ outer.lookup text = none
      let names := operands.map fun word => (Operand.ofWord word).target
      have hinside : outer.Inside bound (Store.LeadsNear near names) shell.store := by
        refine ⟨frame, hshell, fun _ => id, fun name b hfind => ⟨fun target heq => ?_, ?_⟩⟩
        · have hvalue := (hplain name b hfind).value
          rw [heq] at hvalue
          cases hvalue
        · intro hmem text heq hr
          obtain ⟨word, hword, rfl⟩ := List.mem_map.mp hmem
          exact hlocal.marked hset hr word hword text (.inr ⟨b, hfind, heq⟩)
      have hoperand (word : String) (hword : word ∈ operands) :
          Respects (Shell.StaysInside outer bound (Store.LeadsNear near names))
            (declareOperand deeper command options (declarationOf options .current false) word) :=
        declareOperand_reference command hset (hlocal.names word hword)
          (List.mem_map_of_mem hword)
          (fun text htext hr => hlocal.marked hset hr word hword text (.inl htext))
          fun hr target htarget => htarget hr
      exact Store.Inside.pop? (Respects.ite (.pure _) (respects_reportEach fun word hword =>
        respects_reportOf _ (hoperand word hword)) shell hinside)

/-- The commands that declare variables of the innermost frame, with their options. -/
def Command.declaring? : Command → Option (String × String)
  | .declare => some ("declare", "aAginprx")
  | .localize => some ("local", "aAiInrx")
  | _ => none

theorem run_inside {builtin : Command} {command allowed : String}
    (hbuiltin : builtin.declaring? = some (command, allowed)) {words : List String}
    {frame : Frame} (hplain : ∀ name b, frame.bindings.get? name = some b → b.IsPlain)
    (hwords : ∀ options operands, Options.parse command allowed.toList words =
      .ok (options, operands) → DeclaresLocally frame outer options operands) {shell : Shell}
    (hshell : shell.store = outer.calling frame) :
    ∃ frame', (builtin.run deeper words shell).2.store.pop? = some (frame', outer) := by
  have hpop : shell.store.pop? = some (frame, outer) := by
    rw [hshell]
    rfl
  -- Words that do not parse, and words that ask for a listing, change nothing.
  have hoptions {run : Options → List String → Eval Outcome}
      (hrun : ∀ options operands, DeclaresLocally frame outer options operands →
        ∃ frame', (run options operands shell).2.store.pop? = some (frame', outer)) :
      ∃ frame', (withOptions command allowed words run shell).2.store.pop? =
        some (frame', outer) := by
    unfold withOptions
    cases hparse : Options.parse command allowed.toList words with
    | error outcome => exact ⟨frame, hpop⟩
    | ok result => exact hrun result.1 result.2 (hwords _ _ hparse)
  cases builtin with
  | declare =>
      cases hbuiltin
      refine hoptions fun options operands hlocal => ?_
      split
      · rw [store_bind_run, ofExcept_run]
        exact ⟨frame, hpop⟩
      · rw [if_neg (by simp [hlocal.innermost])]
        exact declareAll_inside "declare" hplain hlocal hshell
  | localize =>
      cases hbuiltin
      show ∃ frame', (Builtin.localize deeper words shell).2.store.pop? = _
      unfold Builtin.localize
      rw [store_bind_run]
      split
      · exact ⟨frame, hpop⟩
      · refine hoptions fun options operands hlocal => ?_
        rw [hlocal.new]
        exact declareAll_inside "local" hplain hlocal hshell
  | _ => cases hbuiltin

end Builtin

/-- **A declaration in a function call is local**: `declare` without `-g` and `local` without `-I`,
given names and texts for them, leave all frames but the innermost one as they are, whatever becomes
of the operands, if that frame has no references and no integers. -/
theorem pop?_of_declaration {builtin : Builtin.Command} {command allowed : String}
    (hbuiltin : builtin.declaring? = some (command, allowed)) {words : List String} {shell : Shell}
    {frame : Frame} {outer : Store} (hcall : shell.store.pop? = some (frame, outer))
    (hplain : ∀ name b, frame.bindings.get? name = some b → b.IsPlain)
    (hwords : ∀ options operands, Builtin.Options.parse command allowed.toList words =
      .ok (options, operands) → Builtin.DeclaresLocally frame outer options operands) :
    ∃ frame', ((Action.command builtin words).run shell).2.store.pop? = some (frame', outer) := by
  obtain ⟨frame', hpop⟩ : ∃ frame',
      (builtin.run (evaluators shell.store.limits.nesting) words shell).2.store.pop? =
        some (frame', outer) :=
    Builtin.run_inside hbuiltin hplain hwords (Store.eq_calling_of_pop? hcall)
  refine ⟨frame', ?_⟩
  rw [Action.run_eq rfl, Action.perform, bind_run]
  cases hrun : builtin.run (evaluators shell.store.limits.nesting) words shell with
  | mk result shell' =>
      rw [hrun] at hpop
      cases result <;> exact hpop

/-- A read-only reference to a local variable hides an outer array, and leaves an outer variable of
the target's name alone. -/
theorem pop?_of_declaration_readonlyReference :
    let outer : Store := ⟨[], ⟨"global", ["1"], Table.ofList
      [("q", ⟨.indexed (IndexedArray.singleton "x"), .none, 0⟩),
        ("v", ⟨.scalar "y", .none, 0⟩)]⟩, .standard⟩
    let frame : Frame := ⟨"f", [], Table.empty.insert "v" ⟨.scalar "z", .none, 0⟩⟩
    let shell : Shell := ⟨outer.calling frame, false, "script", 0⟩
    ∃ frame', ((Action.command .localize ["-nr", "q=v"]).run shell).2.store.pop? =
      some (frame', outer) := by
  intro outer frame shell
  refine pop?_of_declaration rfl rfl (fun name b hfind => ?_) fun options operands hparse => ?_
  · have hvalue : b = ⟨.scalar "z", .none, 0⟩ := by
      rw [show frame.bindings = Table.empty.insert "v" ⟨.scalar "z", .none, 0⟩ from rfl,
        Table.get?_insert] at hfind
      split_ifs at hfind
      · exact (Option.some.inj hfind).symm
      · cases hfind
    rw [hvalue]
    exact ⟨rfl, rfl⟩
  · have hparsed : Builtin.Options.parse "local" "aAiInrx".toList ["-nr", "q=v"] =
        .ok (⟨[('r', true), ('n', true)]⟩, ["q=v"]) := by decide
    rw [hparsed] at hparse
    cases hparse
    refine ⟨rfl, rfl, rfl, by decide, by decide, nofun, fun _ _ => ?_⟩
    rw [List.forall_mem_singleton]
    rintro text (htarget | ⟨b, hfind, -⟩)
    · cases htarget
      exact .inl rfl
    · cases hfind

/-- **Two declarations reach out of the innermost frame**: one that ends a reference ends the
nearest one, and one that makes a reference read-only marks what it refers to. -/
theorem declaration_changes_outerFrame :
    let outer : Store := ⟨[], ⟨"global", [], Table.ofList [("r", ⟨.reference "x", .none, 0⟩),
      ("x", ⟨.scalar "1", .none, 0⟩)]⟩, .standard⟩
    let shell : Shell := ⟨outer.calling (Frame.new "f" []), false, "script", 0⟩
    let behind (builtin : Builtin.Command) (words : List String) : Option Store :=
      ((Action.command builtin words).run shell).2.store.pop?.map Prod.snd
    outer.lookup "r" = some ⟨.reference "x", .none, 0⟩ ∧
      (behind .declare ["+n", "r"]).bind (·.lookup "r") = some ⟨.scalar "x", .none, 0⟩ ∧
      outer.lookup "x" = some ⟨.scalar "1", .none, 0⟩ ∧
      (behind .localize ["-nr", "q=x"]).bind (·.lookup "x") =
        some ⟨.scalar "1", ⟨false, true, false⟩, 0⟩ := by
  decide +kernel

end ShellExpansion
