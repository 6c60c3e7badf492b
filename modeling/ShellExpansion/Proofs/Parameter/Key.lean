import ShellExpansion.Proofs.Lexical.Subscript
import ShellExpansion.Proofs.Parameter.Name

/-! # Elements in targets and in braces

An element of an array is written with the name of the array and a subscript in brackets.  The
target of an assignment and the parameter of an expansion are read in different ways, and both find
the same subscript (`splitSubscript_withSubscript`, `loneParameter?_element`), if the brackets and
the braces around it are those that close.  Those around a key in quotes are, since none of the
brackets, braces and quotes of the key counts (`loneParameter?_elementText`). -/

namespace ShellExpansion

open Lexical

/-- An element of an array under any key. -/
def elementName (name key : String) : String := name ++ "[" ++ singleQuote key ++ "]"

/-- The expansion of an element under any key. -/
def elementText (name key : String) : String := "$\x7b" ++ elementName name key ++ "\x7d"

theorem elementName_eq (name key : String) :
    elementName name key = withSubscript name (some (singleQuote key)) := rfl

variable {name : String} (h : IsPlainName name)

include h

/-- As the target of an assignment, an element has its subscript. -/
theorem splitSubscript_withSubscript (subscript : String) :
    splitSubscript (withSubscript name (some subscript)) = (name, some subscript) := by
  obtain ⟨c, rest, hname, hc, -⟩ := h.exists_cons
  have hstop : ∀ d ∈ ('[' :: (subscript.toList ++ [']'])).head?, isNameChar d = false := by
    rintro d ⟨⟩
    decide
  have htake := takeWhile_append_of_head? h.forall_isNameChar hstop
  have hdrop := dropWhile_append_of_head? h.forall_isNameChar hstop
  rw [← toList_withSubscript] at htake hdrop
  have hbracket : beforeLastBracket? (subscript.toList ++ [']']) = some subscript.toList := by
    simp [beforeLastBracket?]
  simp only [splitSubscript, htake, hdrop, hname, hc, if_true, hbracket]
  rw [← hname, String.ofList_toList, String.ofList_toList]

/-- As a parameter in braces, an element has its subscript. -/
theorem loneParameter?_element {subscript : String} (hcloses : Closes '[' ']' subscript.toList)
    (hbraces : Closes '\x7b' '\x7d' (withSubscript name (some subscript)).toList) :
    Evaluators.loneParameter? (valueText (withSubscript name (some subscript))) =
      some (.ok ⟨name, some subscript, false, none⟩) := by
  have hread := Parameter.name?_subscript h.exists_cons hcloses []
  rw [String.ofList_toList] at hread
  have hcontent : Parameter.content? (withSubscript name (some subscript)).toList =
      some ⟨name, some subscript, false, none⟩ := by
    rw [toList_withSubscript, Parameter.content?_name h.exists_cons, Parameter.named?, hread]
    rfl
  rw [Evaluators.loneParameter?_valueText hbraces, hcontent, Option.elim_some]

/-- The braces around an element are those that close, if none in its subscript counts. -/
theorem closes_withSubscript {subscript : String}
    (hsubscript : Passes '\x7b' '\x7d' subscript.toList) :
    Closes '\x7b' '\x7d' (withSubscript name (some subscript)).toList := by
  have hmarks : ['['].all Evaluators.isUnmarked = true ∧
      [']'].all Evaluators.isUnmarked = true := by
    decide
  have hpasses := (Evaluators.passes_name h).append
    ((Evaluators.passes_of_unmarked hmarks.1).append
      (hsubscript.append (Evaluators.passes_of_unmarked hmarks.2)))
  rw [List.singleton_append] at hpasses
  rw [toList_withSubscript]
  exact hpasses.closes_braces

/-- As a parameter in braces, an element under a quoted key has this subscript. -/
theorem loneParameter?_elementText (key : String) :
    Evaluators.loneParameter? (elementText name key) =
      some (.ok ⟨name, some (singleQuote key), false, none⟩) := by
  have hquotes : Quotes (singleQuote key).toList key.toList := QuoteStyle.single.quotes key
  exact loneParameter?_element h hquotes.passes.closes_brackets
    (closes_withSubscript h hquotes.passes)

end ShellExpansion
