import ShellExpansion.Proofs.Eval.Counting
import ShellExpansion.Proofs.Session.Key
import ShellExpansion.Proofs.Session.Release
import ShellExpansion.Proofs.Session.Removing
import ShellExpansion.Proofs.Session.WellFormed

/-! # Elements under their own keys

What a script does outside of calls keeps the arrays counted, if it removes no elements
(`Action.step_counted`), and removals take no array out of the range that expressions stand for.  So
an index beyond the range is there only if, on the path to the shell, an item of a literal was
counted on to it from the last index of the range (`Action.step_inRange`).  An element under any
other index is found by the decimal text of this index (`elements_of_mem_states`); one beyond the
range is not (`element_beyondRange`). -/

namespace ShellExpansion

open Eval

/-! ### Commands -/

/-- **Changes that assign nothing keep the arrays counted**. -/
theorem Shell.Changes.keepsCounted {rights : Store.Rights} (hpointing : rights.pointing = true)
    {shell shell' : Shell} (h : Shell.Changes rights shell shell') :
    Keeping Shell.Counted shell shell' :=
  h.keepsArrays hpointing (.inl IndexedArray.inRange_empty)
    fun text => .inl (IndexedArray.inRange_singleton text)

theorem Eval.OnlyChanges.keepsCounted {α : Type} {rights : Store.Rights}
    (hpointing : rights.pointing = true) {action : Eval α} (h : OnlyChanges rights action) :
    KeepsCounted action :=
  h.mono fun _ _ => Shell.Changes.keepsCounted hpointing

namespace Builtin

section commands

variable {deeper : Evaluators} (h : deeper.Respect (Keeping Shell.Counted))
  (hwrites : deeper.OnlyWrite) (hrange : deeper.InRange)

include h hwrites hrange

theorem declareAll_keepsCounted (command : String) (options : Options) (scope : Scope)
    (inherit : Bool) (words : List String) :
    KeepsCounted (declareAll deeper command options scope inherit words) := by
  refine .ite (.pure _) (respects_reportEach fun word _ => respects_reportOf _ ?_)
  -- What is assigned is looked at by itself; all else may end references and make them.
  let rights : Store.Rights := ⟨[operandName word], .nearest, true⟩
  have hchanges {α : Type} {f : Store → Except Fault α × Store}
      (hf : ∀ s : Store, s.Changes rights (f s).2) : KeepsCounted (partialChange f) :=
    OnlyChanges.keepsCounted rfl (OnlyChanges.partialChange hf)
  apply respects_declareOperand
  · intro _ shell
    have hdrop : Store.Change rights shell.store (shell.store.dropReference (operandName word)) :=
      .dropReference (List.mem_singleton_self _)
    exact Shell.Changes.keepsCounted rfl (.of_store (.of_change hdrop))
  · exact fun _ target => hchanges fun s => Store.setReference_changes rfl s _ target _
  · exact fun other _ => hchanges fun s => s.declare_changes _ other fun _ => rfl
  · exact fun _ value append => Evaluators.assign_counted h hwrites hrange _ value _ append

/-- **Commands keep the arrays counted**, if they do not remove elements. -/
theorem run_keepsCounted {command : Command} (hunset : command ≠ .unset) (words : List String) :
    KeepsCounted (command.run deeper words) := by
  have hdeclare := declareAll_keepsCounted h hwrites hrange
  cases command with
  | declare =>
      exact respects_withOptions fun options operands _ =>
        .ite (.bind .store fun _ => .ofExcept _) (hdeclare _ options _ false operands)
  | localize =>
      exact .bind .store fun _ => .ite (.pure _) (respects_withOptions fun options operands _ =>
        hdeclare _ options _ _ operands)
  | unset => exact absurd rfl hunset
  | readonly =>
      exact respects_withOptions fun options operands _ =>
        .ite (.bind .store fun _ => .ofExcept _) (hdeclare _ _ _ false operands)
  | exports =>
      exact respects_withOptions fun options operands _ =>
        .ite (.bind .store fun _ => .ofExcept _) (hdeclare _ _ _ false operands)
  | settings =>
      have hchanges : OnlyChanges ⟨[], .nearest, true⟩ (settingsOf words) :=
        settingsOf_onlyChanges words
      exact .ite (.bind .store fun _ => .ofExcept _) (hchanges.keepsCounted rfl)

end commands

end Builtin

/-! ### Sessions -/

namespace Action

/-- The action is an expansion, an evaluation, an assignment or a command of a script. -/
def isScripted : Action → Bool
  | expand _ | word _ _ | arithmetic _ | assign _ _ _ _ | command _ _ => true
  | _ => false

/-- **What a script does keeps the arrays counted**, if it does not remove elements. -/
theorem step_counted {action : Action} (hscripted : action.isScripted = true)
    (hunset : ∀ words, action ≠ .command .unset words) {shell : Shell} (h : shell.Counted) :
    (action.step shell).2.Counted := by
  have hrun : KeepsCounted action.run := by
    refine .bind (.ofExcept _) fun _ => .bind .limits fun limits => ?_
    have hkeeps := evaluators_keepCounted limits.nesting
    have hwrites := evaluators_onlyWrite limits.nesting
    have hrange := evaluators_inRange limits.nesting
    have hall := Evaluators.respectAll_counted hkeeps hwrites hrange
    cases action with
    | expand text => exact .bind (hall.expand text) fun _ => .pure _
    | word mode text => exact .bind (hall.expandWord mode text) fun _ => .pure _
    | arithmetic text => exact .bind (hkeeps.evaluate text) fun _ => .pure _
    | assign target value scope append =>
        exact .bind (Evaluators.assign_counted hkeeps hwrites hrange target value scope append)
          respects_bindingAt
    | command builtin words =>
        have hother : builtin ≠ .unset := fun heq => hunset words (heq ▸ rfl)
        exact .bind (Builtin.run_keepsCounted hkeeps hwrites hrange hother words) fun _ => .pure _
    | _ => cases hscripted
  rw [step_snd]
  exact hrun shell h

theorem movesFrames_of_isScripted {action : Action} (h : action.isScripted = true) :
    action.movesFrames = false := by
  cases action <;> first | rfl | cases h

end Action

theorem stepActions_map_act : ∀ actions : List Action, stepActions (actions.map .act) = actions
  | [] => rfl
  | action :: rest => congrArg (action :: ·) (stepActions_map_act rest)

/-- Actions that move no frames leave as many calls under way as there were. -/
theorem depth_of_mem_stepStates {actions : List Action}
    (hactions : ∀ action ∈ actions, action.movesFrames = false) {shell shell' : Shell}
    (hmem : shell' ∈ stepStates false (actions.map .act) shell) :
    shell'.store.depth = shell.store.depth := by
  induction actions generalizing shell with
  | nil => rw [List.mem_singleton.mp hmem]
  | cons action rest ih =>
      obtain ⟨hfirst, hrest⟩ := List.forall_mem_cons.mp hactions
      have hstep := (action.step_sameCalls hfirst shell).depth
      rw [List.map_cons, stepStates_cons] at hmem
      rcases List.mem_cons.mp hmem with rfl | hmem
      · rfl
      · rcases List.mem_append.mp hmem with hinner | hmem
        · exact absurd hinner List.not_mem_nil
        · exact (ih hrest hmem).trans hstep

/-- The action takes an array out of the range that expressions stand for: it counts on from the
last index of the range to the next one; or it removes elements, and evaluates a subscript that
counts on. -/
def Action.LeavesRange (action : Action) (shell : Shell) : Prop :=
  shell.store.EveryArray IndexedArray.InRange ∧
    ¬ (action.step shell).2.store.EveryArray IndexedArray.InRange ∧
    ((action.step shell).2.store.SomeArray IndexedArray.CountsOn ∨
      ∃ words, action = .command .unset words ∧
        Builtin.UnsetCountsOn (evaluators shell.store.limits.nesting) words shell)

theorem Action.step_unset_inRange {shell : Shell} (h : shell.InRange) (words : List String) :
    ((command .unset words).step shell).2.InRange ∨
      Builtin.UnsetCountsOn (evaluators shell.store.limits.nesting) words shell := by
  have hall := Evaluators.respectAll_counted (evaluators_keepCounted shell.store.limits.nesting)
    (evaluators_onlyWrite _) (evaluators_inRange _)
  refine (Builtin.unset_inRange hall.elementKey words h).imp_left fun hrange => ?_
  rw [step_snd, run_eq rfl, perform]
  exact bind_holds hrange fun _ => .pure _

/-- **A script leaves the range by counting on.** -/
theorem Action.step_inRange {action : Action} (hscripted : action.isScripted = true) {shell : Shell}
    (h : shell.InRange) :
    (action.step shell).2.store.EveryArray IndexedArray.InRange ∨ action.LeavesRange shell := by
  rw [or_iff_not_imp_left]
  intro hafter
  refine ⟨h.arrays, hafter, ?_⟩
  by_cases hunset : ∃ words, action = .command .unset words
  · obtain ⟨words, rfl⟩ := hunset
    have hcounts := (step_unset_inRange h words).resolve_left fun hrange => hafter hrange.arrays
    exact .inr ⟨words, rfl, hcounts⟩
  · have hcounted := action.step_counted hscripted (not_exists.mp hunset) h.counted
    exact .inl (hcounted.arrays.exists_countsOn hafter)

section scripts

variable {config : Config} {actions : List Action} {shell : Shell}

/-- **Indices are in the range**, unless an item without a subscript was counted on beyond it. -/
theorem inRange_of_mem_states (hscripted : ∀ action ∈ actions, action.isScripted = true)
    (hshell : shell ∈ (Session.mk config (actions.map .act)).states) :
    shell.store.EveryArray IndexedArray.InRange ∨
      ∃ path, (path, shell) ∈ (Session.mk config (actions.map .act)).paths ∧
        ∃ action shell', (action, shell') ∈ path ∧ action.LeavesRange shell' := by
  obtain ⟨path, hpath⟩ := Session.exists_path_of_mem_states hshell
  rw [or_iff_not_imp_right]
  intro hnone
  refine stepPaths_kept (Store.keptByCalls_everyValue _) false _
    (Store.everyValue_new fun _ _ _ _ heq => nomatch heq) _ hpath ?_
  rintro ⟨action, shell'⟩ hentry hbefore
  obtain ⟨haction, hshell'⟩ := stepPaths_within false _ _ _ hpath _ hentry
  rw [stepActions_map_act] at haction
  have hdepth : shell'.store.depth = 0 := depth_of_mem_stepStates
    (fun action haction => Action.movesFrames_of_isScripted (hscripted action haction)) hshell'
  exact (action.step_inRange (hscripted action haction) ⟨hdepth, hbefore⟩).resolve_right
    fun hleaves => hnone ⟨path, hpath, action, shell', hentry, hleaves⟩

end scripts

/-! ### Elements -/

theorem toString_ne_singleton {c : Char} (hc : ∀ d < 10, Nat.digitChar d ≠ c) (n : Nat) :
    toString n ≠ String.singleton c := by
  intro heq
  have hother : ∀ d ∈ (toString n).toList, d ≠ c := Text.forall_mem_toString hc n
  rw [heq, String.toList_singleton] at hother
  exact hother c (List.mem_singleton_self c) rfl

section elements

open Lexical

variable {name : String} {elements : IndexedArray} {shell : Shell}

/-- An element is written with its index in brackets. -/
theorem loneParameter?_index (hname : IsPlainName name) (n : Nat) :
    Evaluators.loneParameter? (valueText (withSubscript name (some (toString n)))) =
      some (.ok ⟨name, some (toString n), false, none⟩) := by
  have hdigits : (toString n).toList.all Evaluators.isUnmarked = true := by
    have hunmarked : ∀ d < 10, Evaluators.isUnmarked (Nat.digitChar d) = true := by decide
    exact List.all_eq_true.mpr (Text.forall_mem_toString hunmarked n)
  have hbraces := closes_withSubscript hname (Evaluators.passes_of_unmarked hdigits)
  exact loneParameter?_element hname (readableKey_toString n).closes hbraces

/-- The key that the text of an index means is the index, wrapped: the first one beyond the range
counts from the end. -/
theorem elementKey_index (hleads : Evaluators.LeadsTo shell name elements) {n : Nat}
    (hn : n ≤ 2 ^ 63) (levels : Nat) :
    (evaluators (levels + 1)).elementKey name (toString n) shell =
      (.ok (.index (Arith.wrap n)), shell) := by
  have hassociative : isAssociative name shell = (.ok false, shell) := by
    rw [isAssociative, bind_run_of_ok (Evaluators.valueNamed_run hleads)]
    rfl
  have hblank : Text.allBlank (toString n) = false := Text.allBlank_decimal n
  have htext : toString n = Arith.integerText n := (Arith.numeral_of_le hn).symm
  rw [Evaluators.elementKey, bind_run_of_ok hassociative, if_neg Bool.false_ne_true,
    Evaluators.index, hblank, if_neg Bool.false_ne_true, htext, Evaluators.evaluate_integerText]
  rfl

/-- **What stands under an index is read**, also where this is the first one beyond the range. -/
theorem run_expand_wrapped (hname : IsPlainName name)
    (hleads : Evaluators.LeadsTo shell name elements) {n : Nat} (hn : n ≤ 2 ^ 63)
    {found : Option String} (hfound : elements.getFromEnd? (Arith.wrap n) = found)
    (hset : shell.nounset = true → found.isSome = true)
    (hlength : ((found.getD "").length : Int) ≤ shell.store.limits.stringLength) :
    (Action.expand (valueText (withSubscript name (some (toString n))))).run shell =
      (.ok (.texts [found.getD ""]), shell) := by
  obtain ⟨levels, hlevels⟩ := Evaluators.exists_nesting_eq shell.store.limits
  have hkey := elementKey_index hleads hn levels
  obtain ⟨b, hbinding, hvalue⟩ := hleads
  have helement : getElement? name (.index (Arith.wrap n)) shell = (.ok found, shell) := by
    rw [getElement?_indexed hbinding hvalue rfl, hfound]
  apply Action.run_expand_of_loneParameter? (loneParameter?_index hname n)
  rw [hlevels]
  have hall : ∀ d < 10, Nat.digitChar d ≠ '@' := by decide
  have hstar : ∀ d < 10, Nat.digitChar d ≠ '*' := by decide
  exact Evaluators.expandParameter_found hname (toString_ne_singleton hall n)
    (toString_ne_singleton hstar n) hkey helement hset hlength

/-- **An element is found under its index**, if this is in the range. -/
theorem run_expand_index (hname : IsPlainName name)
    (hleads : Evaluators.LeadsTo shell name elements) {index : Nat} {value : String}
    (hentry : (index, value) ∈ elements.entries) (hindex : index < 2 ^ 63)
    (hlength : (value.length : Int) ≤ shell.store.limits.stringLength) :
    (Action.expand (valueText (withSubscript name (some (toString index))))).run shell =
      (.ok (.texts [value]), shell) := by
  have hfits : Arith.Fits index := ⟨by omega, Int.ofNat_lt.mpr hindex⟩
  have hfound : elements.getFromEnd? (Arith.wrap index) = some value := by
    rw [Arith.wrap_of_fits hfits, IndexedArray.getFromEnd?, IndexedArray.fromEnd,
      if_pos (Int.natCast_nonneg index)]
    exact IndexedArray.get?_of_mem hentry
  exact run_expand_wrapped hname hleads (Nat.le_of_lt hindex) hfound (fun _ => rfl) hlength

/-- The indices of an array are listed as its keys. -/
theorem run_expand_indices (hname : IsPlainName name)
    (hleads : Evaluators.LeadsTo shell name elements)
    (hindices : ∀ index ∈ elements.indices, Text.isWritable index = true ∧
      ((toString index).length : Int) ≤ shell.store.limits.stringLength) :
    (Action.expand (keysText name)).run shell =
      (.ok (.texts (elements.indices.map toString)), shell) := by
  apply Action.run_expand_of_loneParameter? (Evaluators.loneParameter?_keys hname)
  rw [Evaluators.expandParameter_keys _ hleads fun index hindex => (hindices index hindex).1]
  exact words_run (List.forall_mem_map.mpr fun index hindex => (hindices index hindex).2)

end elements

/-- **Elements are found under their own keys**, wherever a script comes outside of calls: all
indices are in the range that expressions stand for, unless an action that was carried out before
counted on to the next one beyond it; the keys of an array that a name leads to are its indices, and
under each that is in the range there is the value that stands at the same place among all values. -/
theorem elements_of_mem_states {config : Config} {actions : List Action}
    (hscripted : ∀ action ∈ actions, action.isScripted = true) {shell : Shell}
    (hshell : shell ∈ (Session.mk config (actions.map .act)).states) :
    (shell.store.EveryArray IndexedArray.InRange ∨
      ∃ path, (path, shell) ∈ (Session.mk config (actions.map .act)).paths ∧
        ∃ action shell', (action, shell') ∈ path ∧ action.LeavesRange shell') ∧
    ∀ (name : String) (elements : IndexedArray), IsPlainName name →
      Evaluators.LeadsTo shell name elements →
      (∀ value ∈ elements.values, (value.length : Int) ≤ shell.store.limits.stringLength) →
      (Action.expand (elementsText name)).run shell = (.ok (.texts elements.values), shell) ∧
      ((∀ index ∈ elements.indices, Text.isWritable index = true ∧
          ((toString index).length : Int) ≤ shell.store.limits.stringLength) →
        (Action.expand (keysText name)).run shell =
          (.ok (.texts (elements.indices.map toString)), shell)) ∧
      ∀ index value, (index, value) ∈ elements.entries → index < 2 ^ 63 →
        (Action.expand (valueText (withSubscript name (some (toString index))))).run shell =
          (.ok (.texts [value]), shell) := by
  refine ⟨inRange_of_mem_states hscripted hshell, fun name elements hname hleads hvalues =>
    ⟨?_, run_expand_indices hname hleads, fun index value hentry hindex => ?_⟩⟩
  · apply Action.run_expand_of_loneParameter? (Evaluators.loneParameter?_elements hname)
    exact Evaluators.expandParameter_elements _ hname hleads hvalues
  · exact run_expand_index hname hleads hentry hindex
      (hvalues value (List.mem_map_of_mem hentry))

/-- The elements of an array that was assigned and appended to. -/
theorem elements_of_mem_states_appended :
    let actions : List Action :=
      [.assign "a" "(x y)" .nearest false, .assign "a" "(z)" .nearest true]
    let session : Session := ⟨⟨[], false, [], "script", .standard⟩, actions.map .act⟩
    let elements : IndexedArray := ⟨[(0, "x"), (1, "y"), (2, "z")], by decide⟩
    let shell := session.run.2
    (∀ action ∈ actions, action.isScripted = true) ∧ shell ∈ session.states ∧
      IsPlainName "a" ∧ Evaluators.LeadsTo shell "a" elements ∧
      (∀ value ∈ elements.values, (value.length : Int) ≤ shell.store.limits.stringLength) ∧
      (Action.expand (elementsText "a")).run shell = (.ok (.texts ["x", "y", "z"]), shell) ∧
      (Action.expand (valueText (withSubscript "a" (some (toString 2))))).run shell =
        (.ok (.texts ["z"]), shell) := by
  intro actions session elements shell
  have hscripted : ∀ action ∈ actions, action.isScripted = true := by decide
  have hshell : shell ∈ session.states := Session.run_mem_states session
  have hname : IsPlainName "a" := ⟨by decide, by decide⟩
  have hleads : Evaluators.LeadsTo shell "a" elements :=
    ⟨⟨.indexed elements, .none, 2⟩, by decide +kernel, rfl⟩
  have hvalues : ∀ value ∈ elements.values,
      (value.length : Int) ≤ shell.store.limits.stringLength := by decide +kernel
  obtain ⟨-, helements⟩ := elements_of_mem_states hscripted hshell
  obtain ⟨hlisted, -, hfound⟩ := helements "a" elements hname hleads hvalues
  exact ⟨hscripted, hshell, hname, hleads, hvalues, hlisted, hfound 2 "z" (by decide) (by decide)⟩

/-- **An element beyond the range is not found under its own key**: the item behind the last index of
the range gets the next one, which stands for a negative integer where it is a subscript. -/
theorem element_beyondRange :
    let text := "([9223372036854775807]=x y)"
    let session : Session :=
      ⟨⟨[], false, [], "script", .standard⟩, [.act (.assign "a" text .nearest false)]⟩
    let elements : IndexedArray := ⟨[(2 ^ 63 - 1, "x"), (2 ^ 63, "y")], by decide⟩
    let shell := session.run.2
    shell ∈ session.states ∧ Evaluators.LeadsTo shell "a" elements ∧
      (Action.expand (keysText "a")).run shell =
        (.ok (.texts ["9223372036854775807", "9223372036854775808"]), shell) ∧
      (Action.expand "$\x7ba[9223372036854775808]\x7d").run shell = (.ok (.texts [""]), shell) := by
  intro text session elements shell
  have hname : IsPlainName "a" := ⟨by decide, by decide⟩
  let first := Shell.new session.config
  let prepared := first.store.put ⟨.nearest, "a"⟩ .unset
  obtain ⟨levels, hlevels⟩ := Evaluators.exists_nesting_eq first.store.limits
  have hlast : (evaluators (levels + 1)).index "a" "9223372036854775807" = pure (2 ^ 63 - 1 : Nat) :=
    Evaluators.index_toString (by decide : 2 ^ 63 - 1 < 2 ^ 63) levels "a"
  have hliteral : (ArrayLiteral.ofText "([9223372036854775807]=x y)").items =
      [⟨some "9223372036854775807", "x"⟩, ⟨none, "y"⟩] := by decide +kernel
  have hitems : (evaluators first.store.limits.nesting).insertItems "a" false
      (ArrayLiteral.ofText text).items 0 .empty = pure elements := by
    rw [show (ArrayLiteral.ofText text).items = _ from hliteral, hlevels, Evaluators.insertItems]
    dsimp only
    rw [hlast, pure_bind]
    rfl
  have hprepare : first.store.prepare "a" .nearest = .ok (⟨.nearest, "a"⟩, prepared) := by
    decide +kernel
  have hget : prepared.get ⟨.nearest, "a"⟩ = .unset := by decide +kernel
  have hassign := (evaluators first.store.limits.nesting).assignLiteral_indexed_run hprepare hget
    (.inl rfl) hitems
  have hrun := Action.run_assign_of_assignLiteral hname.identifier (by decide +kernel) hassign
  have hshell : shell =
      { first with store := prepared.put ⟨.nearest, "a"⟩ ⟨.indexed elements, .none, 1⟩ } := by
    show Prod.snd (Session.run _) = _
    rw [Session.run_snd_singleton, hrun]
    rfl
  have hleads : Evaluators.LeadsTo shell "a" elements :=
    ⟨⟨.indexed elements, .none, 1⟩, by rw [hshell]; decide +kernel, rfl⟩
  have hlimits : shell.store.limits = .standard := by rw [hshell]; rfl
  refine ⟨Session.run_mem_states session, hleads, ?_, ?_⟩
  · have hkeys : elements.indices.map toString =
        ["9223372036854775807", "9223372036854775808"] := by decide +kernel
    rw [← hkeys]
    apply run_expand_indices hname hleads
    rw [hlimits]
    decide +kernel
  · have htext : "$\x7ba[9223372036854775808]\x7d" =
        valueText (withSubscript "a" (some (toString (2 ^ 63)))) := by decide +kernel
    have hnone : elements.getFromEnd? (Arith.wrap (2 ^ 63 : Nat)) = none := by decide +kernel
    have hnounset : shell.nounset = false := by rw [hshell]; rfl
    rw [htext]
    apply run_expand_wrapped hname hleads (Nat.le_refl _) hnone
    · intro h
      rw [hnounset] at h
      cases h
    · rw [hlimits]
      decide

end ShellExpansion
