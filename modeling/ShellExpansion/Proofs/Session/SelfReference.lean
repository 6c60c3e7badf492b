import ShellExpansion.Proofs.Session.WellFormed
import ShellExpansion.Proofs.Store.SelfReference

/-! # References to themselves in sessions

Whenever a session comes by a reference of a name to itself, an action on the path to it has made
it that assigns: to a reference of the name without a target, or in the outermost frame past nearer
bindings (`exists_assignment_of_refers_self`).  This happens: a first assignment to a reference is
not refused when it is of its own name (`assign_makes_selfReference`). -/

namespace ShellExpansion

open Store

variable {session : Session} {name target : String}

/-- An action that does not assign makes no references to themselves, and neither does one that
assigns, if the references of the name have targets. -/
theorem Action.step_avoids {action : Action} {shell : Shell} (hname : name ≠ "")
    (h : action.isPointing = true ∨ action.scope ≠ .outermost ∧ ¬ shell.store.Refers name "")
    (hself : shell.store.EveryValue (Avoids name name)) :
    (action.step shell).2.store.EveryValue (Avoids name name) := by
  cases hpointing : action.isPointing with
  | true => exact (kept_pointing hpointing hname).moves (action.step_moves shell) hself
  | false =>
      obtain ⟨hscope, htarget⟩ := h.resolve_left (by simp [hpointing])
      have hlasting : Lasting action.storeRights fun other value =>
          Avoids name name other value ∧ Avoids name "" other value :=
        lasting_assigning hpointing hscope
      have hafter := hlasting.kept.moves (action.step_moves shell) fun _ _ _ hslot =>
        ⟨hself hslot, not_refers_iff.mp htarget hslot⟩
      exact fun _ _ _ hslot => (hafter hslot).1

/-- No name of a variable is empty. -/
theorem ne_empty_of_refers {shell : Shell} (hshell : shell ∈ session.states)
    (h : shell.store.Refers name target) : name ≠ "" := by
  rintro rfl
  refine not_refers_iff.mpr (fun level other b hslot hother _ => ?_) h
  have hname := (everyValue_of_mem_states hshell hslot).1
  rw [hother] at hname
  cases hname

/-- **References to themselves are made by assignments**: if a session comes by a reference of a
name to itself, an action that was carried out before made it so that assigns, and either the name
had a reference without a target, or the assignment was meant for the outermost frame.  All other
operations are refused where they would make such a reference. -/
theorem exists_assignment_of_refers_self (session : Session) (name : String) :
    (∀ shell ∈ session.states, shell.store.Refers name name →
      ∃ path, (path, shell) ∈ session.paths ∧
        ∃ action shell', (action, shell') ∈ path ∧ action.isPointing = false ∧
          (action.scope = .outermost ∨ shell'.store.Refers name "") ∧
          ¬ shell'.store.Refers name name ∧ (action.step shell').2.store.Refers name name) ∧
      ∀ shell ∈ session.states, shell.store.GuardsSelfReference name := by
  refine ⟨fun shell hshell hself => ?_, fun shell _ => guardsSelfReference shell.store name⟩
  have hname := ne_empty_of_refers hshell hself
  obtain ⟨path, hpath⟩ := Session.exists_path_of_mem_states hshell
  refine ⟨path, hpath, ?_⟩
  by_contra hnone
  -- Without such an action none of them takes away that the name does not refer to itself.
  refine absurd hself (not_refers_iff.mpr (stepPaths_kept
    (keptByCalls_everyValue (Avoids name name)) false session.steps
    (everyValue_new fun _ _ _ _ => nofun) _ hpath ?_))
  rintro ⟨action, shell'⟩ hentry hbefore
  by_contra hafter
  have hassigns : ¬ (action.isPointing = true ∨
      action.scope ≠ .outermost ∧ ¬ shell'.store.Refers name "") :=
    fun h => hafter (action.step_avoids hname h hbefore)
  rw [not_or, not_and_or, not_not, not_not, Bool.not_eq_true] at hassigns
  exact hnone ⟨action, shell', hentry, hassigns.1, hassigns.2,
    not_refers_iff.mpr hbefore, by_contra fun h => hafter (not_refers_iff.mp h)⟩

/-- A reference of a call without a target is assigned its own name. -/
theorem exists_assignment_of_refers_self_inCall :
    let session : Session := ⟨⟨[], false, [], "script", .standard⟩,
      [.call "f" [] false
        [.act (.command .localize ["-n", "r"]), .act (.assign "r" "r" .nearest false)]]⟩
    let inner : Table Binding := Table.empty.insert "r" ⟨.reference "r", .none, 0⟩
    let shell : Shell :=
      ⟨⟨[⟨"f", [], inner⟩], ⟨"global", [], Table.empty⟩, .standard⟩, false, "script", 0⟩
    shell ∈ session.states ∧ shell.store.Refers "r" "r" ∧
      ∃ path, (path, shell) ∈ session.paths ∧
        ∃ action shell', (action, shell') ∈ path ∧ action.isPointing = false ∧
          (action.scope = .outermost ∨ shell'.store.Refers "r" "") ∧
          ¬ shell'.store.Refers "r" "r" ∧ (action.step shell').2.store.Refers "r" "r" := by
  intro session inner shell
  have hshell : shell ∈ session.states := by decide +kernel
  have hself : shell.store.Refers "r" "r" := by decide +kernel
  exact ⟨hshell, hself, (exists_assignment_of_refers_self session "r").1 shell hshell hself⟩

/-- **A first assignment can make a reference to itself**, and is not refused. -/
theorem assign_makes_selfReference :
    let session : Session := ⟨⟨[], false, [], "script", .standard⟩,
      [.act (.command .declare ["-n", "r"]), .act (.assign "r" "r" .nearest false)]⟩
    session.run.1.map Answer.fault? = [none, none] ∧ session.run.2 ∈ session.states ∧
      session.run.2.store.Refers "r" "r" :=
  ⟨by decide +kernel, Session.run_mem_states _, by decide +kernel⟩

end ShellExpansion
