import ShellExpansion.Proofs.Session.States

/-! # What assignments keep

Expansions, evaluations and assignments only write (`Action.perform_onlyWrites`).  So however many
of them run, and whether they succeed or fail, every binding stays in its frame, with its attributes
and its kind, unless a variable without a kind becomes an indexed array, and a reference that has a
target has one afterwards (`bindings_of_assignments`).  It is the same target, unless something is
assigned in the outermost frame past a nearer binding (`assignment_repoints_reference`). -/

namespace ShellExpansion

variable {shell : Shell} {level : Nat} {name : String} {b : Binding} {actions : List Action}

theorem Action.run_onlyWrites {action : Action} (h : action.onlyAssigns = true) :
    Eval.OnlyWrites action.scope action.run :=
  .bind (.ofExcept _) fun _ => .bind .limits fun limits =>
    perform_onlyWrites (evaluators_onlyWrite limits.nesting) h

theorem Action.step_writes {action : Action} (h : action.onlyAssigns = true) (shell : Shell) :
    Shell.Writes action.scope shell (action.step shell).2 := by
  rw [action.step_snd]
  exact run_onlyWrites h shell

theorem exists_slot?_of_assignments (hactions : ∀ action ∈ actions, action.onlyAssigns = true)
    (stop : Bool) (hslot : shell.store.slot? level name = some b) :
    ∃ b', (runSteps stop (actions.map .act) shell).2.2.store.slot? level name = some b' ∧
      b.Rewritten (level ≠ 0 ∨ ∀ action ∈ actions, action.scope ≠ .outermost) b' := by
  induction actions generalizing shell b with
  | nil => exact ⟨b, hslot, .refl b⟩
  | cons action rest ih =>
      obtain ⟨hfirst, hrest⟩ := List.forall_mem_cons.mp hactions
      obtain ⟨b₁, hslot₁, hrewritten₁⟩ :=
        (action.step_writes hfirst shell).store.exists_slot? hslot
      have hstep : b.Rewritten
          (level ≠ 0 ∨ ∀ other ∈ action :: rest, other.scope ≠ .outermost) b₁ :=
        hrewritten₁.mono (Or.imp_right fun h => h action List.mem_cons_self)
      rw [List.map_cons, runSteps_cons]
      split_ifs
      · exact ⟨b₁, hslot₁, hstep⟩
      · obtain ⟨b₂, hslot₂, hrewritten₂⟩ := ih hrest hslot₁
        exact ⟨b₂, hslot₂, hstep.trans
          (hrewritten₂.mono (Or.imp_right fun h => (List.forall_mem_cons.mp h).2))⟩

theorem sameFrames_of_assignments (hactions : ∀ action ∈ actions, action.onlyAssigns = true)
    (stop : Bool) (shell : Shell) :
    shell.store.SameFrames (runSteps stop (actions.map .act) shell).2.2.store := by
  induction actions generalizing shell with
  | nil => exact .refl _
  | cons action rest ih =>
      obtain ⟨hfirst, hrest⟩ := List.forall_mem_cons.mp hactions
      have hchanges : Store.Changes ⟨[], action.scope, false⟩ shell.store
          (action.step shell).2.store :=
        .of_writes rfl (action.step_writes hfirst shell).store
      rw [List.map_cons, runSteps_cons]
      split_ifs
      · exact hchanges.sameFrames
      · exact hchanges.sameFrames.trans (ih hrest _)

/-- **Assignments keep bindings**: whatever is expanded, evaluated and assigned, with or without
success, the frames stay, and every binding stays in its frame with its attributes and its kind; if
it has no kind, it can become an indexed array.  A reference that has a target has one afterwards,
and the same one, if it is in the frame of a call or nothing is assigned in the outermost frame past
nearer bindings. -/
theorem bindings_of_assignments (hactions : ∀ action ∈ actions, action.onlyAssigns = true)
    (stop : Bool) (hslot : shell.store.slot? level name = some b) :
    let shell' := (runSteps stop (actions.map .act) shell).2.2
    shell.store.SameFrames shell'.store ∧
      ∃ b', shell'.store.slot? level name = some b' ∧ b'.attributes = b.attributes ∧
        (b'.value.kind? = b.value.kind? ∨
          b.value.kind? = none ∧ b'.value.kind? = some .indexed) ∧
        ∀ target ≠ "", b.value = .reference target →
          (∃ target' ≠ "", b'.value = .reference target') ∧
          ((level ≠ 0 ∨ ∀ action ∈ actions, action.scope ≠ .outermost) →
            b'.value = .reference target) := by
  obtain ⟨b', hslot', hattributes, hvalue, htarget⟩ :=
    exists_slot?_of_assignments hactions stop hslot
  refine ⟨sameFrames_of_assignments hactions stop shell, b', hslot', hattributes, hvalue.kind?_eq,
    fun target hne hreference => ⟨?_, fun hsteady => ?_⟩⟩
  · rw [hreference] at hvalue
    exact hvalue.exists_target hne
  · exact (htarget hsteady target hne hreference).trans hreference

/-- In a call a default is assigned through a reference of the outermost frame, which is then
assigned to in an expression, and an element is written before an assignment that fails. -/
theorem bindings_of_assignments_throughReference :
    let r : Binding := ⟨.reference "x", .none, 0⟩
    let store : Store :=
      ⟨[⟨"f", [], Table.empty⟩], ⟨"global", [], Table.empty.insert "r" r⟩, .standard⟩
    let shell : Shell := ⟨store, false, "script", 0⟩
    let actions : List Action := [.expand "$\x7br:=1\x7d", .arithmetic "r += 2",
      .assign "a[x]" "v" .current false, .assign "r" "(" .nearest true,
      .assign "1" "" .nearest false]
    let shell' := (runSteps false (actions.map .act) shell).2.2
    (∀ action ∈ actions, action.onlyAssigns = true) ∧
      (∀ action ∈ actions, action.scope ≠ .outermost) ∧
      ∃ b, shell'.store.slot? 0 "r" = some b ∧ b.value = .reference "x" := by
  intro r store shell actions shell'
  have hactions : ∀ action ∈ actions, action.onlyAssigns = true := by decide
  have hscope : ∀ action ∈ actions, action.scope ≠ .outermost := by decide
  have hr : shell.store.slot? 0 "r" = some r := by decide
  obtain ⟨-, b, hslot, -, -, htarget⟩ := bindings_of_assignments hactions false hr
  exact ⟨hactions, hscope, b, hslot, (htarget "x" (by decide) rfl).2 (.inr hscope)⟩

/-- **An assignment in the outermost frame re-points a reference** that a nearer binding hides: it
gives the reference another target, and assigns nothing to the one that it had. -/
theorem assignment_repoints_reference :
    let session : Session := ⟨⟨[], false, [], "script", .standard⟩,
      [.act (.command .declare ["-n", "r=x"]), .act (.push "f" []),
        .act (.command .localize ["r=1"])]⟩
    let shell := session.run.2
    let shell' := (runSteps false [.act (.assign "r" "y" .outermost false)] shell).2.2
    (Action.assign "r" "y" .outermost false).onlyAssigns = true ∧
      shell.store.slot? 0 "r" = some ⟨.reference "x", .none, 0⟩ ∧
      shell'.store.slot? 0 "r" = some ⟨.reference "y", .none, 0⟩ ∧
      shell'.store.slot? 0 "x" = none := by
  decide +kernel

end ShellExpansion
