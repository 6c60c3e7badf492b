import ShellExpansion.Eval.Word
import ShellExpansion.Proofs.Eval.Running
import ShellExpansion.Proofs.Word.Pieces

/-! # Words that stand behind one another

A word is expanded piece by piece, and each expansion runs on the shell that the one before has
left.  A text in front that is made of whole pieces is therefore expanded as if nothing stood behind
it, and the text behind it as if nothing stood in front, on the shell that is left then
(`Evaluators.expandWord_append`). -/

namespace ShellExpansion.Evaluators

open Eval Word

/-- Pieces behind others are expanded when these are, and their text stands behind theirs. -/
theorem expandEach_append {α : Type} (expand : α → Eval String) (front back : List α) :
    expandEach expand (front ++ back) = (do
      let first ← expandEach expand front
      return first ++ (← expandEach expand back)) := by
  induction front with
  | nil =>
      have hempty (text : String) : "" ++ text = text := String.empty_append
      simp only [List.nil_append, expandEach, pure_bind, hempty, bind_pure]
  | cons piece front ih =>
      rw [List.cons_append, expandEach, expandEach, ih]
      simp only [bind_assoc, pure_bind, String.append_assoc]

variable (deeper : Evaluators) (mode : WordMode)

/-- Behind whole pieces a word is expanded as it is where it stands alone. -/
theorem expandWord_whole {front : String} (h : IsWhole front.toList) (back : String) :
    deeper.expandWord mode (front ++ back) = (do
      let first ← deeper.expandWord mode front
      return first ++ (← deeper.expandWord mode back)) := by
  have hpieces : pieces (front ++ back) = pieces front ++ pieces back := by
    rw [pieces, String.toList_append, piecesList_append h]
    rfl
  rw [expandWord, hpieces, expandEach_append]
  rfl

/-- **A word is expanded from left to right.**  Let the text in front be made of whole pieces, and
let any text stand behind it, in either mode and on every shell.  If the expansion of the text in
front fails, so does that of both, with the same fault and the same shell left behind.  If it
succeeds, the text behind is expanded on the shell that it leaves: where this fails, both fail with
that fault and that shell, and else the results stand behind one another. -/
theorem expandWord_append {front : String} (h : IsWhole front.toList) (back : String)
    (shell : Shell) :
    deeper.expandWord mode (front ++ back) shell =
      match deeper.expandWord mode front shell with
      | (.error fault, shell') => (.error fault, shell')
      | (.ok first, shell') =>
        match deeper.expandWord mode back shell' with
        | (.error fault, shell'') => (.error fault, shell'')
        | (.ok second, shell'') => (.ok (first ++ second), shell'') := by
  rw [deeper.expandWord_whole mode h, bind_run]
  cases deeper.expandWord mode front shell with
  | mk result shell' =>
      cases result with
      | error fault => rfl
      | ok first =>
          dsimp only
          rw [bind_run]
          cases deeper.expandWord mode back shell' with
          | mk result shell'' => cases result <;> rfl

/-- A pattern that begins with a quoted section and an expression that counts a variable up: in the
section the variable has no value yet, behind the expression it has one. -/
theorem expandWord_append_counting :
    let shell (bindings : Table Binding) : Shell :=
      ⟨⟨[], ⟨"global", [], bindings⟩, .standard⟩, false, "script", 0⟩
    let counted : Shell := shell (Table.empty.insert "i" ⟨.scalar "1", .none, 0⟩)
    let front := "\"*$i\"?$((i++))"
    IsWhole front.toList ∧
      (evaluators 2).expandWord .pattern front (shell Table.empty) = (.ok "\\*?0", counted) ∧
      (evaluators 2).expandWord .pattern "$i*" counted = (.ok "1*", counted) ∧
      (evaluators 2).expandWord .pattern (front ++ "$i*") (shell Table.empty) =
        (.ok "\\*?01*", counted) := by
  intro shell counted front
  have hwhole : IsWhole front.toList := by
    have htext : front.toList = '"' :: (['*', '$', 'i'] ++ '"' :: '?' :: '$' :: '(' :: '(' ::
      (['i', '+', '+'] ++ [')', ')'])) := by decide
    rw [htext]
    exact .double (by decide) (.bare (by decide) (.arithmetic (by decide) .nil))
  have hfront : (evaluators 2).expandWord .pattern front (shell Table.empty) =
      (.ok "\\*?0", counted) := by
    show (_ : Except Fault String × Shell) = _
    decide +kernel
  have hback : (evaluators 2).expandWord .pattern "$i*" counted = (.ok "1*", counted) := by
    show (_ : Except Fault String × Shell) = _
    decide +kernel
  have hboth := (evaluators 2).expandWord_append .pattern hwhole "$i*" (shell Table.empty)
  rw [hfront] at hboth
  dsimp only at hboth
  rw [hback] at hboth
  exact ⟨hwhole, hfront, hback, hboth⟩

end ShellExpansion.Evaluators
