import ShellExpansion.Proofs.Eval.Counting
import ShellExpansion.Proofs.Session.Changes

/-! # Removals and the range of indices

An array without one of its elements has no new indices, and a variable that is removed takes its
array with it.  So removals keep all arrays in the range that expressions stand for
(`unsetElement_keepsInRange`).  What can take an array out of it is the subscript of an element that
is to be removed, while it is evaluated (`Builtin.unset_inRange`). -/

namespace ShellExpansion

variable {shell shell' : Shell}

/-- Changes that assign nothing keep what is true of arrays without elements and of those with one,
at index zero. -/
theorem Shell.Changes.keepsArrays {p : IndexedArray → Prop} {rights : Store.Rights}
    (hpointing : rights.pointing = true) (hempty : p .empty)
    (hsingleton : ∀ text, p (.singleton text))
    (h : Shell.Changes rights shell shell') : Eval.Keeping (Shell.AllArrays p) shell shell' := by
  intro hall
  have hlasting : Store.Lasting rights fun _ value => value.Arrays p :=
    Store.lasting_arrays hpointing hempty hsingleton
  exact ⟨h.store.sameFrames.depth.trans hall.depth, hlasting.kept.changes h.store hall.arrays⟩

namespace Eval

variable {α : Type}

/-- The evaluation counts an array on, from the last index of the range to the next one. -/
def CountsOn (evaluation : Eval α) (shell : Shell) : Prop :=
  shell.store.EveryArray IndexedArray.InRange ∧
    (evaluation shell).2.store.SomeArray IndexedArray.CountsOn

/-- Where arrays stay counted, they stay in the range or are counted on. -/
theorem KeepsCounted.inRange_or_countsOn {evaluation : Eval α} (h : KeepsCounted evaluation)
    (hshell : shell.InRange) : (evaluation shell).2.InRange ∨ CountsOn evaluation shell := by
  have hcounted := h shell hshell.counted
  by_cases hrange : (evaluation shell).2.store.EveryArray IndexedArray.InRange
  · exact .inl ⟨hcounted.depth, hrange⟩
  · exact .inr ⟨hshell.arrays, hcounted.arrays.exists_countsOn hrange⟩

/-- Removing a variable keeps the arrays in the range. -/
theorem erase_keepsInRange (name : String) (keepTarget : Bool) :
    Respects (Keeping Shell.InRange) (change (·.erase name keepTarget)) := by
  have herase : OnlyChanges ⟨[], .nearest, true⟩ (change (·.erase name keepTarget)) :=
    OnlyChanges.change fun _ _ _ => Store.erase_changes
  exact herase.mono fun _ _ => Shell.Changes.keepsArrays rfl IndexedArray.inRange_empty
    IndexedArray.inRange_singleton

/-- **Removing an element keeps the arrays in the range.** -/
theorem unsetElement_keepsInRange (name : String) (key : Key) :
    Respects (Keeping Shell.InRange) (unsetElement name key) := by
  refine respects_unsetElement (fun shell final b value hat _ hloses h => ?_)
    (fun final => erase_keepsInRange final false) name key
  refine h.putValue _ ?_
  have hold : b.value.Arrays IndexedArray.InRange := h.arrays.at? hat
  generalize b.value = old at hold hloses
  cases hloses with
  | indexed elements index =>
      rintro _ ⟨⟩
      exact (hold elements rfl).erase index
  | associative elements key => exact fun _ heq => nomatch heq

end Eval

/-! ### Operands -/

namespace Builtin

open Eval

variable {deeper : Evaluators}

/-- The subscript of the operand counts an array on. -/
def SubscriptCountsOn (deeper : Evaluators) (word : String) (shell : Shell) : Prop :=
  ∃ name subscript, splitSubscript word = (name, some subscript) ∧
    CountsOn (deeper.elementKey name subscript) shell

/-- While the operands are gone through, the subscript of one of them counts an array on. -/
def OperandCountsOn (deeper : Evaluators) (keepTarget : Bool) (operands : List String)
    (shell : Shell) : Prop :=
  ∃ front word rest reports between, operands = front ++ word :: rest ∧
    front.mapM (unsetOperand deeper keepTarget) shell = (.ok reports, between) ∧
    SubscriptCountsOn deeper word between

/-- While variables and elements are removed, the subscript of one of them counts an array on. -/
def UnsetCountsOn (deeper : Evaluators) (words : List String) (shell : Shell) : Prop :=
  ∃ options operands, Options.parse "unset" "vn".toList words = .ok (options, operands) ∧
    OperandCountsOn deeper (options.isSet 'n') operands shell

section operands

variable (hkeys : ∀ name subscript, KeepsCounted (deeper.elementKey name subscript))

include hkeys

/-- What is removed takes no array out of the range, but its subscript may. -/
theorem unsetOperand_inRange (keepTarget : Bool) (word : String) (h : shell.InRange) :
    (unsetOperand deeper keepTarget word shell).2.InRange ∨
      SubscriptCountsOn deeper word shell := by
  unfold unsetOperand SubscriptCountsOn
  cases splitSubscript word with
  | mk name subscript =>
      dsimp only
      split_ifs
      · exact .inl h
      · rw [reportOf_run_snd]
        cases subscript with
        | none => exact .inl (Respects.discard (erase_keepsInRange name keepTarget) shell h)
        | some subscript =>
            refine ((hkeys name subscript).inRange_or_countsOn h).imp (fun hkey => ?_)
              fun hcounts => ⟨name, subscript, rfl, hcounts⟩
            exact bind_holds hkey fun key => .discard (unsetElement_keepsInRange name key)

theorem mapM_unsetOperand_inRange (keepTarget : Bool) :
    ∀ (operands : List String) {shell : Shell}, shell.InRange →
      (operands.mapM (unsetOperand deeper keepTarget) shell).2.InRange ∨
        OperandCountsOn deeper keepTarget operands shell
  | [], _, h => .inl h
  | word :: rest, shell, h => by
      rcases unsetOperand_inRange hkeys keepTarget word h with hword | hcounts
      · rw [List.mapM_cons, bind_run]
        cases hrun : unsetOperand deeper keepTarget word shell with
        | mk result between =>
            rw [hrun] at hword
            cases result with
            | error fault => exact .inl hword
            | ok report =>
                rcases mapM_unsetOperand_inRange keepTarget rest hword with hrest | hrest
                · exact .inl (bind_holds hrest fun _ => .pure _)
                · right
                  obtain ⟨front, word', behind, reports, last, rfl, hfront, hcounts⟩ := hrest
                  refine ⟨word :: front, word', behind, report :: reports, last, rfl, ?_, hcounts⟩
                  rw [List.mapM_cons, bind_run_of_ok hrun, bind_run_of_ok hfront]
                  rfl
      · exact .inr ⟨[], word, rest, [], shell, rfl, rfl, hcounts⟩

/-- **What is removed takes no array out of the range**, but subscripts of elements may. -/
theorem unset_inRange (words : List String) (h : shell.InRange) :
    (unset deeper words shell).2.InRange ∨ UnsetCountsOn deeper words shell := by
  unfold unset withOptions UnsetCountsOn
  cases hparse : Options.parse "unset" "vn".toList words with
  | error outcome => exact .inl h
  | ok result =>
      obtain ⟨options, operands⟩ := result
      exact (mapM_unsetOperand_inRange hkeys (options.isSet 'n') operands h).imp
        (fun hrange => bind_holds hrange fun _ => .pure _)
        fun hcounts => ⟨options, operands, rfl, hcounts⟩

end operands

end Builtin

end ShellExpansion
