import ShellExpansion.Proofs.Eval.Bounded
import ShellExpansion.Proofs.Eval.Entries
import ShellExpansion.Proofs.Parameter.Elements

/-! # Indirect expansions

The text that a variable holds can name the parameter that is meant (`namesParameter`).  An indirect
expansion of the variable is then the expansion of that parameter, whatever the operation is
(`Evaluators.expandParameter_indirect`): the operation looks at what was read and at the name that
the text gives, and no more at the variable.  Slices are the exception.  They ask the variable
whether the positional parameters are meant, which a variable never is, and so miss them where its
text is one of their two names (`Evaluators.indirect_slice_misses_positional`). -/

namespace ShellExpansion

open Eval

/-- The text names a parameter: a variable or an element, a number, or a special parameter. -/
def namesParameter (text : String) : Bool :=
  isIdentifier (splitSubscript text).1 || isPositional (splitSubscript text).1

/-- The operation is on the value of the parameter.  Names and keys are listed without it. -/
def Operation.isOnValue : Operation → Bool
  | .names _ => false
  | .keys _ => false
  | _ => true

variable {name text : String}

theorem ne_empty_of_namesParameter (h : namesParameter text = true) : text ≠ "" := by
  rintro rfl
  exact absurd h (by decide)

/-- What a subscript was taken from is the name of a variable, or nothing was taken from it. -/
theorem splitSubscript_fst (text : String) : (splitSubscript text).1 = text ∨
    ∃ c rest, (splitSubscript text).1.toList = c :: rest ∧ isNameStart c = true := by
  unfold splitSubscript
  dsimp only
  split
  · next c rest after hname _ =>
      split_ifs with hc
      · split
        · exact .inr ⟨c, rest, by rw [hname, String.toList_ofList], hc⟩
        · exact .inl rfl
      · exact .inl rfl
  · exact .inl rfl

namespace Evaluators

variable {deeper : Evaluators} {shell : Shell}

/-- A variable is read as the value that its name leads to. -/
theorem directReading_variable (deeper : Evaluators) (hname : isIdentifier name = true) :
    deeper.directReading name none = (do return .one (← query (·.get? name))) :=
  directReading_identifier deeper hname none

theorem reading_variable (deeper : Evaluators) {found : Option String}
    (hname : isIdentifier name = true) (hvalue : shell.store.get? name = .ok found)
    (operation : Option Operation) :
    deeper.reading ⟨name, none, false, operation⟩ shell = (.ok ⟨name, .one found⟩, shell) := by
  show (deeper.directReading name none >>= fun reading => pure _) shell = _
  rw [directReading_variable deeper hname, bind_assoc, bind_run_of_ok (query_run_of_ok hvalue)]
  rfl

/-- A variable that is no reference is read through the text that it holds. -/
theorem indirectReading_variable
    (hnearest : ∀ b ∈ shell.store.lookup name, b.value.isReference = false) :
    deeper.indirectReading name none shell = (do
      let text := (← deeper.directReading name none).toText
      if text = "" then return ⟨name, .one none⟩
      else if namesParameter text then
        let (final, sub) := splitSubscript text
        return ⟨withSubscript final sub, ← deeper.directReading final sub⟩
      else refuse (.substitution (.invalidIndirect text)) : Eval ReadParameter) shell := by
  unfold indirectReading
  rw [store_bind_run]
  cases hlookup : shell.store.lookup name with
  | none => rfl
  | some b =>
      have hb := hnearest b hlookup
      rw [Option.map_some]
      cases hvalue : b.value with
      | reference target =>
          rw [hvalue] at hb
          cases hb
      | _ => rfl

/-- A slice depends on the parameter by one question alone. -/
theorem applySubstring_congr {first other : Parameter}
    (h : (first.name = "@" ∨ first.name = "*") ∧ !first.indirect ↔
      (other.name = "@" ∨ other.name = "*") ∧ !other.indirect) :
    deeper.applySubstring first = deeper.applySubstring other := by
  funext offset length found
  unfold applySubstring
  simp only [h]

/-- Behind the reading, an expansion depends on the parameter in slices only. -/
theorem expandParameter_congr {first other : Parameter} (hsame : first.operation = other.operation)
    (hoperation : ∀ o ∈ first.operation, o.isOnValue = true)
    (hslice : ∀ offset length, first.operation = some (.substring offset length) →
      deeper.applySubstring first = deeper.applySubstring other)
    (hreading : deeper.reading first shell = deeper.reading other shell) :
    deeper.expandParameter first shell = deeper.expandParameter other shell := by
  unfold expandParameter
  rw [← hsame]
  cases hfirst : first.operation with
  | none =>
      refine bind_congr_at hreading fun found shell' _ => ?_
      cases found.reading <;> rfl
  | some o =>
      cases o with
      | names joined => exact absurd (hoperation _ hfirst) Bool.false_ne_true
      | keys joined => exact absurd (hoperation _ hfirst) Bool.false_ne_true
      | substring offset length =>
          refine bind_congr_at hreading fun found shell' _ => ?_
          rw [hslice offset length hfirst]
      | _ =>
          refine bind_congr_at hreading fun found shell' _ => ?_
          cases found.reading <;> rfl

section indirect

variable (hname : isIdentifier name = true)
  (hnearest : ∀ b ∈ shell.store.lookup name, b.value.isReference = false)
  (hvalue : shell.store.get? name = .ok (some text)) (htext : namesParameter text = true)

include hname hnearest hvalue htext

/-- A variable that holds the name of a parameter is read as that parameter. -/
theorem reading_indirect (operation : Option Operation) :
    deeper.reading ⟨name, none, true, operation⟩ shell = deeper.reading
      ⟨(splitSubscript text).1, (splitSubscript text).2, false, operation⟩ shell := by
  have hdirect : deeper.directReading name none shell = (.ok (.one (some text)), shell) := by
    rw [directReading_variable deeper hname, bind_run_of_ok (query_run_of_ok hvalue)]
    rfl
  show deeper.indirectReading name none shell = _
  rw [indirectReading_variable hnearest, bind_run_of_ok hdirect]
  show (if text = "" then _ else if namesParameter text then _ else _ : Eval ReadParameter) _ = _
  rw [if_neg (ne_empty_of_namesParameter htext), if_pos htext]
  rfl

/-- **Indirection is one lookup more and nothing else.**  If a variable, which is no reference,
holds the name of a parameter, then its indirect expansion gives the words or the error, and leaves
the shell, of the expansion of that parameter with the same operation.  This goes for every
operation on values, unless it is a slice and the text names all positional parameters. -/
theorem expandParameter_indirect {operation : Option Operation}
    (hoperation : ∀ o ∈ operation, o.isOnValue = true)
    (hslice : ∀ offset length, operation = some (.substring offset length) →
      text ≠ "@" ∧ text ≠ "*") :
    deeper.expandParameter ⟨name, none, true, operation⟩ shell = deeper.expandParameter
      ⟨(splitSubscript text).1, (splitSubscript text).2, false, operation⟩ shell := by
  refine expandParameter_congr rfl hoperation (fun offset length heq => ?_)
    (reading_indirect hname hnearest hvalue htext operation)
  obtain ⟨hall, hstar⟩ := hslice offset length heq
  have hfinal : ¬((splitSubscript text).1 = "@" ∨ (splitSubscript text).1 = "*") := by
    rcases splitSubscript_fst text with hsame | ⟨c, rest, hfirst, hc⟩
    · rw [hsame]
      exact not_or.mpr ⟨hall, hstar⟩
    · rintro (hspecial | hspecial)
      all_goals
        rw [hspecial] at hfirst
        obtain rfl := (List.cons.inj hfirst).1
        cases hc
  exact applySubstring_congr ⟨fun h => absurd h.2 Bool.false_ne_true, fun h => absurd h.1 hfinal⟩

end indirect

/-- A variable holds the name of an element with an expansion in its subscript; the case of the
element is changed. -/
theorem expandParameter_indirect_element :
    let bindings := ((Table.empty.insert "r" ⟨.scalar "m[$k]", .none, 0⟩).insert
      "k" ⟨.scalar "x", .none, 0⟩).insert
      "m" ⟨.associative (Table.empty.insert "x" "yz"), .none, 0⟩
    let shell : Shell := ⟨⟨[], ⟨"global", [], bindings⟩, .standard⟩, true, "script", 0⟩
    let operation : Operation := .changeCase .upper false ""
    isIdentifier "r" = true ∧ shell.store.get? "r" = .ok (some "m[$k]") ∧
      namesParameter "m[$k]" = true ∧ operation.isOnValue = true ∧
      (evaluators 2).expandParameter ⟨"r", none, true, some operation⟩ shell =
        (.ok ["Yz"], shell) := by
  intro bindings shell operation
  have hname : isIdentifier "r" = true := by decide
  have hnearest : ∀ b ∈ shell.store.lookup "r", b.value.isReference = false := by
    rintro b ⟨⟩
    rfl
  have hvalue : shell.store.get? "r" = .ok (some "m[$k]") := by decide
  have htext : namesParameter "m[$k]" = true := by decide
  have hoperation : ∀ o ∈ some operation, o.isOnValue = true := by
    rintro o ⟨⟩
    rfl
  refine ⟨hname, hvalue, htext, rfl, ?_⟩
  rw [expandParameter_indirect hname hnearest hvalue htext hoperation
    (fun offset length heq => absurd (Option.some.inj heq) Operation.noConfusion)]
  show (_ : Except Fault (List String) × Shell) = _
  decide +kernel

/-- **A slice misses the positional parameters** that the text of a variable names. -/
theorem indirect_slice_misses_positional :
    let bindings := Table.empty.insert "r" ⟨.scalar "@", .none, 0⟩
    let shell : Shell :=
      ⟨⟨[], ⟨"global", ["p", "q"], bindings⟩, .standard⟩, false, "script", 0⟩
    let slice : Option Operation := some (.substring "1" none)
    isIdentifier "r" = true ∧ (∀ b ∈ shell.store.lookup "r", b.value.isReference = false) ∧
      shell.store.get? "r" = .ok (some "@") ∧ splitSubscript "@" = ("@", none) ∧
      (evaluators 2).expandParameter ⟨"@", none, false, slice⟩ shell = (.ok ["p", "q"], shell) ∧
      (evaluators 2).expandParameter ⟨"r", none, true, slice⟩ shell = (.ok [], shell) := by
  intro bindings shell slice
  have hnearest : ∀ b ∈ shell.store.lookup "r", b.value.isReference = false := by
    rintro b ⟨⟩
    rfl
  let read (parameter : Parameter) : Except Fault ReadParameter × Shell :=
    (evaluators 2).reading parameter shell
  have hdirect : read ⟨"@", none, false, slice⟩ =
      (.ok ⟨"@", .all ["p", "q"] false⟩, shell) := by decide +kernel
  have hindirect : read ⟨"r", none, true, slice⟩ =
      (.ok ⟨"@", .all ["p", "q"] false⟩, shell) := by decide +kernel
  have hone : (evaluators 2).evaluate "1" = pure 1 :=
    evaluate_toString (n := 1) (by decide) 1
  refine ⟨by decide, hnearest, by decide, by decide, ?_, ?_⟩
  · rw [expandParameter_substring rfl hdirect rfl, applySubstring, hone]
    show (_ : Except Fault (List String) × Shell) = _
    decide +kernel
  · rw [expandParameter_substring rfl hindirect rfl, applySubstring, hone]
    show (_ : Except Fault (List String) × Shell) = _
    decide +kernel

end Evaluators

end ShellExpansion
