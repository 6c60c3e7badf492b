import ShellExpansion.Proofs.Parameter.Elements

/-! # Names in braces

A name of a variable is a letter or underscore and letters, digits and underscores behind it, and
not the underscore alone; but one line end may follow it.  In braces the name stands for the value
of the variable (`loneParameter?_value`), and with a line end behind it for nothing
(`loneParameter?_lineEnd`). -/

namespace ShellExpansion

/-- The expansion of a variable. -/
def valueText (name : String) : String := "$\x7b" ++ name ++ "\x7d"

theorem ne_underscore {name : String} (h : isIdentifier name = true) : name ≠ "_" := by
  rintro rfl
  cases h

section names

variable {name : String} {c : Char} {rest back : List Char}
  (hname : name.toList = c :: (rest ++ back)) (hc : isNameStart c = true)
  (hrest : ∀ d ∈ rest, isNameChar d = true)

include hname hc hrest

/-- Characters that go on a name are read up to where they end. -/
theorem Parameter.named?_name (hback : back = [] ∨ back = ['\n']) :
    Parameter.named? false name.toList =
      (Parameter.operation? back).map fun operation =>
        ⟨String.ofList (c :: rest), none, false, operation⟩ := by
  have htext : IsNameText (String.ofList (c :: rest)) :=
    ⟨c, rest, String.toList_ofList, hc, hrest⟩
  have hafter : ∀ d ∈ back.head?, isNameChar d = false ∧ d ≠ '[' := by
    rcases hback with rfl | rfl <;> simp [isNameChar]
  have hread := Parameter.name?_append htext hafter
  rw [String.toList_ofList, List.cons_append, ← hname] at hread
  rw [Parameter.named?, hread]

end names

namespace Evaluators

/-- What braces enclose is the content of a lone expansion. -/
theorem loneParameter?_valueText {inside : String}
    (hcloses : Lexical.Closes '\x7b' '\x7d' inside.toList) : loneParameter? (valueText inside) =
    some ((Parameter.content? inside.toList).elim
      (.error (.substitution (.malformed inside))) .ok) := by
  have htext : valueText inside =
      String.ofList ('$' :: '\x7b' :: (inside.toList ++ ['\x7d'])) := by
    rw [← String.toList_inj]
    simp [valueText]
  rw [htext, loneParameter?_enclosed hcloses, String.ofList_toList]

variable {name : String} (h : isIdentifier name = true) {c : Char} {rest : List Char}

include h

/-- **A name in braces is the expansion of the variable.** -/
theorem loneParameter?_value (hname : name.toList = c :: rest) (hc : isNameStart c = true)
    (hrest : ∀ d ∈ rest, isNameChar d = true) :
    loneParameter? (valueText name) = some (.ok (Parameter.ofName name)) := by
  have hcontent : Parameter.content? name.toList = some (Parameter.ofName name) := by
    have hname' : name.toList = c :: (rest ++ []) := by rw [hname, List.append_nil]
    have hnamed := Parameter.named?_name hname' hc hrest (.inl rfl)
    rw [hname, Parameter.content?_of_isNameStart hc, ← hname, hnamed, ← hname,
      String.ofList_toList]
    rfl
  rw [loneParameter?_valueText (passes_of_isIdentifier h).closes_braces, hcontent, Option.elim_some]

/-- A name with a line end behind it is no expansion in braces. -/
theorem loneParameter?_lineEnd (hname : name.toList = c :: (rest ++ ['\n']))
    (hc : isNameStart c = true) (hrest : ∀ d ∈ rest, isNameChar d = true) :
    loneParameter? (valueText name) = some (.error (.substitution (.malformed name))) := by
  have hcontent : Parameter.content? name.toList = none := by
    have hnamed := Parameter.named?_name hname hc hrest (.inr rfl)
    rw [hname, Parameter.content?_of_isNameStart hc, ← hname, hnamed]
    rfl
  rw [loneParameter?_valueText (passes_of_isIdentifier h).closes_braces, hcontent, Option.elim_none]

end Evaluators

end ShellExpansion
