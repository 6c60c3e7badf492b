import ShellExpansion.Proofs.Session.States

/-! # Calls are left

An action that neither enters nor leaves a call leaves the calls as they are, and the positional
parameters of all but the innermost one (`Store.Change.sameCalls`).  The frame of a call step is
taken off again however its steps end, so that behind any step without such actions all is as it was
before (`frames_of_run`), and nothing is left of the nesting of evaluations
(`Step.run_arithDepth`). -/

namespace ShellExpansion

namespace Store

variable {s s' s'' : Store} {rights : Rights}

/-- The same calls are under way in the stores, and all of them but the innermost one have the same
positional parameters. -/
structure SameCalls (s s' : Store) : Prop extends SameFrames s s' where
  positional : ∀ level < s.depth,
    (s'.frame? level).map Frame.positional = (s.frame? level).map Frame.positional

namespace SameCalls

theorem refl (s : Store) : SameCalls s s := ⟨.refl s, fun _ _ => rfl⟩

theorem trans (h : SameCalls s s') (h' : SameCalls s' s'') : SameCalls s s'' where
  toSameFrames := h.toSameFrames.trans h'.toSameFrames
  positional level hlevel :=
    (h'.positional level (h.depth.symm ▸ hlevel)).trans (h.positional level hlevel)

/-- Frames with the same headers have the same positional parameters. -/
theorem of_header (hframes : SameFrames s s')
    (h : ∀ level, (s'.frame? level).map Frame.header = (s.frame? level).map Frame.header) :
    SameCalls s s' where
  toSameFrames := hframes
  positional level _ := by
    have hsnd := congrArg (Option.map Prod.snd) (h level)
    rw [Option.map_map, Option.map_map] at hsnd
    exact hsnd

theorem bind (s : Store) (scope : Scope) (name : String) (b : Binding) :
    SameCalls s (s.bind scope name b) :=
  .of_header (.bind ..) (header_bind s scope name b)

theorem unbind (s : Store) (name : String) : SameCalls s (s.unbind name) := by
  refine .of_header (.unbind ..) fun level => ?_
  rw [frame?_unbind]
  split_ifs
  · rw [Option.map_map]
    rfl
  · rfl

theorem setPositional (s : Store) (args : List String) : SameCalls s (s.setPositional args) where
  toSameFrames := .setPositional s args
  positional level hlevel := by
    unfold Store.setPositional
    rw [frame?_modifyCurrent, if_neg (Nat.ne_of_lt hlevel)]

theorem dropReference (s : Store) (name : String) : SameCalls s (s.dropReference name) := by
  obtain heq | ⟨b, target, -, -, heq⟩ := s.dropReference_cases name
  · rw [heq]
    exact refl s
  · rw [heq]
    exact bind ..

end SameCalls

theorem Change.sameCalls (h : Change rights s s') : SameCalls s s' := by
  cases h with
  | write _ _ hwrite => cases hwrite <;> exact .bind ..
  | dropReference => exact .dropReference ..
  | remove => exact .unbind ..
  | setPositional => exact .setPositional ..
  | _ => exact .bind ..

theorem Changes.sameCalls (h : Changes rights s s') : SameCalls s s' := by
  induction h with
  | refl => exact .refl s
  | tail _ hchange ih => exact ih.trans hchange.sameCalls

/-- Without the frame that was pushed, frames are as before: there is one to take off, and the calls
below it are the same ones. -/
theorem SameCalls.pop {name : String} {args : List String} (hpush : s.push name args = .ok s')
    (h : SameCalls s' s'') : ∃ frame rest, s''.pop? = some (frame, rest) ∧ SameCalls s rest := by
  unfold Store.push at hpush
  split_ifs at hpush
  cases hpush
  obtain ⟨frames, outermost, limits⟩ := s''
  have hdepth : frames.length = s.depth + 1 := h.depth
  cases frames with
  | nil => cases hdepth
  | cons frame rest =>
      have hrest : (Store.mk rest outermost limits).depth = s.depth := Nat.succ.inj hdepth
      have hbelow {level : Nat} (hlevel : level ≤ s.depth) :
          (Store.mk (frame :: rest) outermost limits).frame? level =
              (Store.mk rest outermost limits).frame? level ∧
            (Store.mk (Frame.new name args :: s.inner) s.outermost s.limits).frame? level =
              s.frame? level := by
        have hinner : s.inner.length = s.depth := rfl
        have hlength : rest.length = s.depth := hrest
        rw [frame?_cons, frame?_cons, if_neg (by omega), if_neg (by omega)]
        exact ⟨rfl, rfl⟩
      refine ⟨frame, ⟨rest, outermost, limits⟩, rfl, ⟨hrest, h.limits, fun level => ?_⟩,
        fun level hlevel => ?_⟩
      · by_cases hlevel : level ≤ s.depth
        · obtain ⟨hframe, hframe'⟩ := hbelow hlevel
          rw [← hframe, ← hframe']
          exact h.names level
        · rw [frame?_of_lt (by omega), frame?_of_lt (by omega)]
      · obtain ⟨hframe, hframe'⟩ := hbelow (Nat.le_of_lt hlevel)
        rw [← hframe, ← hframe']
        exact h.positional level (Nat.lt_succ_of_lt hlevel)

end Store

variable {shell : Shell}

/-! ### Nested evaluations -/

theorem Action.step_arithDepth (action : Action) (shell : Shell) :
    (action.step shell).2.arithDepth = shell.arithDepth := by
  have hmoves := action.step_moves shell
  generalize (action.step shell).2 = shell' at hmoves ⊢
  cases hmoves with
  | change h => exact h.arithDepth
  | push => rfl
  | pop => rfl

mutual

/-- **Behind a step as many evaluations are nested as before**, however it ends. -/
theorem Step.run_arithDepth : ∀ (step : Step) (shell : Shell),
    (step.run shell).2.arithDepth = shell.arithDepth
  | .act action, shell => action.step_arithDepth shell
  | .call name args stop steps, shell => by
      cases hpush : shell.store.push name args with
      | error e =>
          unfold Step.run
          rw [hpush]
      | ok store =>
          have hinner := runSteps_arithDepth stop steps { shell with store := store }
          obtain hrun | ⟨frame, rest, -, hrun⟩ := Step.run_call hpush stop steps
          · rw [hrun]
            exact hinner
          · rw [hrun]
            exact hinner
  | .subshell _ _, _ => rfl

theorem runSteps_arithDepth (stop : Bool) : ∀ (steps : List Step) (shell : Shell),
    (runSteps stop steps shell).2.2.arithDepth = shell.arithDepth
  | [], _ => rfl
  | step :: rest, shell => by
      rw [runSteps_cons]
      split_ifs
      · exact step.run_arithDepth shell
      · rw [runSteps_arithDepth stop rest]
        exact step.run_arithDepth shell

end

mutual

theorem Step.innerStates_arithDepth : ∀ (step : Step) {shell : Shell}, shell.arithDepth = 0 →
    ∀ shell' ∈ step.innerStates shell, shell'.arithDepth = 0
  | .act _, _, _ => fun _ hmem => absurd hmem List.not_mem_nil
  | .call name args stop steps, shell, h => by
      unfold Step.innerStates
      cases shell.store.push name args with
      | error e => exact fun _ hmem => absurd hmem List.not_mem_nil
      | ok store => exact stepStates_arithDepth stop steps h
  | .subshell stop steps, _, _ => stepStates_arithDepth stop steps rfl

/-- Steps are not run inside evaluations. -/
theorem stepStates_arithDepth (stop : Bool) : ∀ (steps : List Step) {shell : Shell},
    shell.arithDepth = 0 → ∀ shell' ∈ stepStates stop steps shell, shell'.arithDepth = 0
  | [], shell, h => by
      intro shell' hmem
      rw [List.mem_singleton.mp hmem]
      exact h
  | step :: rest, shell, h => by
      have hbehind : (step.run shell).2.arithDepth = 0 := (step.run_arithDepth shell).trans h
      rw [stepStates_cons]
      refine List.forall_mem_cons.mpr
        ⟨h, List.forall_mem_append.mpr ⟨step.innerStates_arithDepth h, ?_⟩⟩
      split_ifs
      · exact List.forall_mem_singleton.mpr hbehind
      · exact stepStates_arithDepth stop rest hbehind

end

/-! ### Frames -/

theorem Action.step_sameCalls {action : Action} (h : action.movesFrames = false) (shell : Shell) :
    shell.store.SameCalls (action.step shell).2.store := by
  have hrun : Eval.OnlyChanges action.storeRights action.run :=
    .bind (.ofExcept _) fun _ => .bind .limits fun limits =>
      perform_onlyChanges (evaluators_onlyWrite limits.nesting) h
  rw [action.step_snd]
  exact (hrun shell).store.sameCalls

mutual

/-- A step leaves the calls that were under way before it. -/
theorem Step.run_sameCalls : ∀ (step : Step),
    (∀ action ∈ step.actions, action.movesFrames = false) →
    ∀ shell : Shell, shell.store.SameCalls (step.run shell).2.store
  | .act action, h, shell =>
      action.step_sameCalls (h action (List.mem_singleton_self action)) shell
  | .call name args stop steps, h, shell => by
      unfold Step.run
      cases hpush : shell.store.push name args with
      | error e => exact .refl _
      | ok store =>
          obtain ⟨frame, rest, hpop, hrest⟩ := Store.SameCalls.pop hpush
            (runSteps_sameCalls stop steps h { shell with store := store })
          dsimp only
          rw [hpop]
          exact hrest
  | .subshell _ _, _, _ => .refl _

theorem runSteps_sameCalls (stop : Bool) : ∀ (steps : List Step),
    (∀ action ∈ stepActions steps, action.movesFrames = false) →
    ∀ shell : Shell, shell.store.SameCalls (runSteps stop steps shell).2.2.store
  | [], _, _ => .refl _
  | step :: rest, h, shell => by
      obtain ⟨hfirst, hrest⟩ := List.forall_mem_append.mp h
      have hstep := step.run_sameCalls hfirst shell
      rw [runSteps_cons]
      split_ifs
      · exact hstep
      · exact hstep.trans (runSteps_sameCalls stop rest hrest _)

end

/-- **Calls and evaluations are left again**, whatever a step does and wherever it or a step inside
it fails: behind a step that has no frames pushed and popped by hand there are as many frames as
before, with the same names, all but the innermost one have the positional parameters that they had,
and as many evaluations are nested as before, which are none in any shell of a session. -/
theorem frames_of_run (step : Step) (hstays : ∀ action ∈ step.actions, action.movesFrames = false)
    (shell : Shell) :
    let shell' := (step.run shell).2
    shell'.store.depth = shell.store.depth ∧
      (∀ level, (shell'.store.frame? level).map Frame.name =
        (shell.store.frame? level).map Frame.name) ∧
      (∀ level < shell.store.depth, (shell'.store.frame? level).map Frame.positional =
        (shell.store.frame? level).map Frame.positional) ∧
      shell'.arithDepth = shell.arithDepth ∧
      ∀ session : Session, shell ∈ session.states → shell'.arithDepth = 0 := by
  have hcalls := step.run_sameCalls hstays shell
  have harith := step.run_arithDepth shell
  exact ⟨hcalls.depth, hcalls.names, hcalls.positional, harith, fun session hshell =>
    harith.trans (stepStates_arithDepth false session.steps rfl shell hshell)⟩

/-- In a call, steps of another call fail in the middle of nested evaluations, and in a call too
many inside a subshell. -/
theorem frames_of_run_failingCalls :
    let shell : Shell := ⟨⟨[⟨"f", ["1"], Table.empty⟩], ⟨"global", ["a"], Table.empty⟩,
      ⟨2, 100, 3, 10485760⟩⟩, false, "script", 0⟩
    let step : Step := .call "g" ["2"] true
      [.act (.command .settings ["--", "3"]), .act (.assign "n" "n" .nearest false),
        .subshell false [.call "h" [] false []], .act (.arithmetic "n"), .act (.expand "$1")]
    let shell' := (step.run shell).2
    (∀ action ∈ step.actions, action.movesFrames = false) ∧ shell'.store.depth = 1 ∧
      (shell'.store.frame? 0).map Frame.positional = some ["a"] ∧ shell'.arithDepth = 0 := by
  intro shell step shell'
  have hstays : ∀ action ∈ step.actions, action.movesFrames = false := by decide
  obtain ⟨hdepth, -, hpositional, harith, -⟩ := frames_of_run step hstays shell
  exact ⟨hstays, hdepth, hpositional 0 Nat.one_pos, harith⟩

end ShellExpansion
