import ShellExpansion.Proofs.Session.Changes
import ShellExpansion.Proofs.Store.Lasting
import ShellExpansion.Session.Basic

/-! # States of sessions

A session comes by the shells before and behind each of its steps, also of those inside calls and
subshells, and of those that fail (`Session.states`).  Each of them is led to by a path: the actions
that were carried out before it, and the shells that these ran on (`Session.paths`).  An action
moves the shell as it may (`Action.step_moves`), and a call enters a frame and leaves it
(`Step.run_call`).  So a property of stores that calls do not take away holds of a shell, if no
action on the path to it takes it away (`stepPaths_kept`). -/

namespace ShellExpansion

variable {shell shell' : Shell} {rights : Store.Rights} {p : Store → Prop}

/-! ### Steps -/

theorem Action.run_moves (action : Action) :
    Eval.Respects (Shell.Moves action.storeRights) action.run := by
  intro shell
  unfold Action.run
  rw [Eval.bind_run]
  cases checkWritable action.numbers with
  | error fault => exact .change (refl shell)
  | ok _ => exact action.perform_moves (evaluators_onlyWrite shell.store.limits.nesting) shell

theorem Action.step_snd (action : Action) (shell : Shell) :
    (action.step shell).2 = (action.run shell).2 := by
  unfold Action.step
  cases action.run shell with
  | mk result shell' => cases result <;> rfl

theorem Action.step_moves (action : Action) (shell : Shell) :
    shell.Moves action.storeRights (action.step shell).2 := by
  rw [action.step_snd]
  exact action.run_moves shell

/-- Behind the steps inside a call its frame, or what took its place, is left. -/
theorem Step.run_call {call : String} {args : List String} {store : Store}
    (hpush : shell.store.push call args = .ok store) (stop : Bool) (steps : List Step) :
    let inner := (runSteps stop steps { shell with store := store }).2.2
    ((Step.call call args stop steps).run shell).2 = inner ∨
      ∃ frame rest, inner.store.pop? = some (frame, rest) ∧
        ((Step.call call args stop steps).run shell).2 = { inner with store := rest } := by
  unfold Step.run
  rw [hpush]
  dsimp only
  cases hpop : (runSteps stop steps { shell with store := store }).2.2.store.pop? with
  | none => exact .inl rfl
  | some result => exact .inr ⟨result.1, result.2, rfl, rfl⟩

/-- Steps that are left at the first failure are left at the step. -/
def Step.isLast (stop : Bool) (step : Step) (shell : Shell) : Bool :=
  stop && (step.run shell).1.fault?.isSome

theorem runSteps_cons (stop : Bool) (step : Step) (rest : List Step) (shell : Shell) :
    (runSteps stop (step :: rest) shell).2.2 =
      if step.isLast stop shell then (step.run shell).2
      else (runSteps stop rest (step.run shell).2).2.2 := by
  unfold Step.isLast
  rw [runSteps]
  cases step.run shell with
  | mk answer shell' =>
      dsimp only
      cases stop <;> cases answer.fault? <;> rfl

theorem Store.Kept.moves (hp : Store.Kept rights p) (hmoves : shell.Moves rights shell')
    (h : p shell.store) : p shell'.store := by
  cases hmoves with
  | change hchange => exact hp.changes hchange.store h
  | push hpush => exact hp.push hpush h
  | pop hpop => exact hp.pop hpop h

/-! ### Shells that steps come by -/

mutual

/-- The actions of a step, those inside calls and subshells among them. -/
def Step.actions : Step → List Action
  | .act action => [action]
  | .call _ _ _ steps => stepActions steps
  | .subshell _ steps => stepActions steps

/-- The actions of steps. -/
def stepActions : List Step → List Action
  | [] => []
  | step :: rest => step.actions ++ stepActions rest

end

mutual

/-- The shells that come by inside a step. -/
def Step.innerStates : Step → Shell → List Shell
  | .act _, _ => []
  | .call name args stop steps, shell =>
    match shell.store.push name args with
    | .error _ => []
    | .ok store => stepStates stop steps { shell with store := store }
  | .subshell stop steps, shell => stepStates stop steps { shell with arithDepth := 0 }

/-- The shells that come by while steps run: the one before each step, those inside it, and the one
behind the last step that runs. -/
def stepStates (stop : Bool) : List Step → Shell → List Shell
  | [], shell => [shell]
  | step :: rest, shell =>
    shell :: (step.innerStates shell ++
      if step.isLast stop shell then [(step.run shell).2]
      else stepStates stop rest (step.run shell).2)

end

/-- The shells that a session comes by. -/
def Session.states (session : Session) : List Shell :=
  stepStates false session.steps (Shell.new session.config)

theorem stepStates_cons (stop : Bool) (step : Step) (rest : List Step) (shell : Shell) :
    stepStates stop (step :: rest) shell = shell :: (step.innerStates shell ++
      if step.isLast stop shell then [(step.run shell).2]
      else stepStates stop rest (step.run shell).2) := rfl

theorem runSteps_mem_stepStates (stop : Bool) (steps : List Step) (shell : Shell) :
    (runSteps stop steps shell).2.2 ∈ stepStates stop steps shell := by
  induction steps generalizing shell with
  | nil => exact List.mem_singleton_self shell
  | cons step rest ih =>
      rw [runSteps_cons, stepStates_cons]
      refine List.mem_cons_of_mem _ (List.mem_append_right _ ?_)
      split_ifs
      · exact List.mem_singleton_self _
      · exact ih (step.run shell).2

/-- A session of one action ends as the action does. -/
theorem Session.run_snd_singleton (config : Config) (action : Action) :
    (Session.mk config [.act action]).run.2 = (action.run (Shell.new config)).2 := by
  rw [← action.step_snd]
  exact runSteps_cons false (.act action) [] (Shell.new config)

theorem Session.run_mem_states (session : Session) : session.run.2 ∈ session.states :=
  runSteps_mem_stepStates false session.steps (Shell.new session.config)

/-! ### Paths to shells -/

/-- Actions that lead from shell to shell, each with the shell that it is carried out on. -/
abbrev Path := List (Action × Shell)

mutual

/-- The actions that lead through a step.  Those of a subshell lead to no shell behind it. -/
def Step.passage : Step → Shell → Path
  | .act action, shell => [(action, shell)]
  | .call name args stop steps, shell =>
    match shell.store.push name args with
    | .error _ => []
    | .ok store => stepPassage stop steps { shell with store := store }
  | .subshell _ _, _ => []

/-- The actions that lead through steps, up to the one that these are left at. -/
def stepPassage (stop : Bool) : List Step → Shell → Path
  | [], _ => []
  | step :: rest, shell =>
    step.passage shell ++
      if step.isLast stop shell then [] else stepPassage stop rest (step.run shell).2

end

mutual

/-- The shells that come by inside a step, each with the path to it. -/
def Step.innerPaths : Step → Shell → List (Path × Shell)
  | .act _, _ => []
  | .call name args stop steps, shell =>
    match shell.store.push name args with
    | .error _ => []
    | .ok store => stepPaths stop steps { shell with store := store }
  | .subshell stop steps, shell => stepPaths stop steps { shell with arithDepth := 0 }

/-- The shells that come by while steps run, each with the path to it. -/
def stepPaths (stop : Bool) : List Step → Shell → List (Path × Shell)
  | [], shell => [([], shell)]
  | step :: rest, shell =>
    ([], shell) :: (step.innerPaths shell ++
      (if step.isLast stop shell then [([], (step.run shell).2)]
      else stepPaths stop rest (step.run shell).2).map (Prod.map (step.passage shell ++ ·) id))

end

/-- The shells that a session comes by, each with the path to it. -/
def Session.paths (session : Session) : List (Path × Shell) :=
  stepPaths false session.steps (Shell.new session.config)

theorem stepPassage_cons (stop : Bool) (step : Step) (rest : List Step) (shell : Shell) :
    stepPassage stop (step :: rest) shell = step.passage shell ++
      if step.isLast stop shell then [] else stepPassage stop rest (step.run shell).2 := rfl

theorem stepPaths_cons (stop : Bool) (step : Step) (rest : List Step) (shell : Shell) :
    stepPaths stop (step :: rest) shell = ([], shell) :: (step.innerPaths shell ++
      (if step.isLast stop shell then [([], (step.run shell).2)]
      else stepPaths stop rest (step.run shell).2).map (Prod.map (step.passage shell ++ ·) id)) :=
  rfl

mutual

theorem Step.innerPaths_map_snd : ∀ (step : Step) (shell : Shell),
    (step.innerPaths shell).map Prod.snd = step.innerStates shell
  | .act _, _ => rfl
  | .call name args stop steps, shell => by
      unfold Step.innerPaths Step.innerStates
      cases shell.store.push name args with
      | error e => rfl
      | ok store => exact stepPaths_map_snd stop steps _
  | .subshell stop steps, shell => stepPaths_map_snd stop steps _

/-- **Paths lead to all shells that come by**, in the same order. -/
theorem stepPaths_map_snd (stop : Bool) : ∀ (steps : List Step) (shell : Shell),
    (stepPaths stop steps shell).map Prod.snd = stepStates stop steps shell
  | [], _ => rfl
  | step :: rest, shell => by
      rw [stepPaths_cons, stepStates_cons, List.map_cons, List.map_append,
        step.innerPaths_map_snd, List.map_map]
      split_ifs
      · rfl
      · rw [← stepPaths_map_snd stop rest]
        rfl

end

theorem Session.exists_path_of_mem_states {session : Session} (h : shell ∈ session.states) :
    ∃ path, (path, shell) ∈ session.paths := by
  unfold Session.states at h
  rw [← stepPaths_map_snd] at h
  obtain ⟨⟨path, reached⟩, hmem, rfl⟩ := List.mem_map.mp h
  exact ⟨path, hmem⟩

/-- The path goes along some of the actions and shells. -/
def Path.Within (actions : List Action) (shells : List Shell) (path : Path) : Prop :=
  ∀ entry ∈ path, entry.1 ∈ actions ∧ entry.2 ∈ shells

theorem Path.Within.mono {actions actions' : List Action} {shells shells' : List Shell}
    {path : Path} (h : path.Within actions shells) (hactions : actions ⊆ actions')
    (hshells : shells ⊆ shells') : path.Within actions' shells' :=
  fun entry hentry => ⟨hactions (h entry hentry).1, hshells (h entry hentry).2⟩

theorem Path.Within.append {actions : List Action} {shells : List Shell} {path path' : Path}
    (h : path.Within actions shells) (h' : path'.Within actions shells) :
    Path.Within actions shells (path ++ path') :=
  List.forall_mem_append.mpr ⟨h, h'⟩

theorem Path.within_nil {actions : List Action} {shells : List Shell} :
    Path.Within actions shells [] :=
  fun _ hentry => absurd hentry List.not_mem_nil

mutual

theorem Step.passage_within : ∀ (step : Step) (shell : Shell),
    (step.passage shell).Within step.actions (shell :: step.innerStates shell)
  | .act action, shell => by
      rintro entry hentry
      rw [List.mem_singleton.mp hentry]
      exact ⟨List.mem_singleton_self action, List.mem_cons_self⟩
  | .call name args stop steps, shell => by
      unfold Step.passage Step.innerStates
      cases shell.store.push name args with
      | error e => exact Path.within_nil
      | ok store =>
          exact (stepPassage_within stop steps _).mono (List.Subset.refl _)
            (List.subset_cons_self _ _)
  | .subshell _ _, _ => Path.within_nil

/-- What leads through steps is theirs. -/
theorem stepPassage_within (stop : Bool) : ∀ (steps : List Step) (shell : Shell),
    (stepPassage stop steps shell).Within (stepActions steps) (stepStates stop steps shell)
  | [], _ => Path.within_nil
  | step :: rest, shell => by
      have hfirst := step.passage_within shell
      have hrest := stepPassage_within stop rest (step.run shell).2
      rw [stepPassage_cons, stepStates_cons]
      refine .append (hfirst.mono (List.subset_append_left _ _)
        (List.cons_subset_cons _ (List.subset_append_left _ _))) ?_
      split_ifs
      · exact Path.within_nil
      · exact hrest.mono (List.subset_append_right _ _)
          (List.subset_cons_of_subset _ (List.subset_append_right _ _))

end

mutual

theorem Step.innerPaths_within : ∀ (step : Step) (shell : Shell),
    ∀ reached ∈ step.innerPaths shell, reached.1.Within step.actions (step.innerStates shell)
  | .act _, _ => fun _ hmem => absurd hmem List.not_mem_nil
  | .call name args stop steps, shell => by
      unfold Step.innerPaths Step.innerStates
      cases shell.store.push name args with
      | error e => exact fun _ hmem => absurd hmem List.not_mem_nil
      | ok store => exact stepPaths_within stop steps _
  | .subshell stop steps, shell => stepPaths_within stop steps _

/-- **Paths go along the actions and the shells of the steps.** -/
theorem stepPaths_within (stop : Bool) : ∀ (steps : List Step) (shell : Shell),
    ∀ reached ∈ stepPaths stop steps shell,
      reached.1.Within (stepActions steps) (stepStates stop steps shell)
  | [], _ => fun _ hmem => List.mem_singleton.mp hmem ▸ Path.within_nil
  | step :: rest, shell => by
      rw [stepPaths_cons, stepStates_cons]
      refine List.forall_mem_cons.mpr ⟨Path.within_nil, List.forall_mem_append.mpr ⟨?_, ?_⟩⟩
      · intro reached hmem
        exact (step.innerPaths_within shell reached hmem).mono (List.subset_append_left _ _)
          (List.subset_cons_of_subset _ (List.subset_append_left _ _))
      · refine List.forall_mem_map.mpr fun reached hmem => .append
          ((step.passage_within shell).mono (List.subset_append_left _ _)
            (List.cons_subset_cons _ (List.subset_append_left _ _))) ?_
        split_ifs at hmem ⊢
        · rw [List.mem_singleton.mp hmem]
          exact Path.within_nil
        · exact (stepPaths_within stop rest _ reached hmem).mono (List.subset_append_right _ _)
            (List.subset_cons_of_subset _ (List.subset_append_right _ _))

end

/-! ### What stays -/

/-- No action on the path takes a property of stores away. -/
def Path.Keeps (p : Store → Prop) (path : Path) : Prop :=
  ∀ entry ∈ path, p entry.2.store → p (entry.1.step entry.2).2.store

theorem Path.keeps_append {path path' : Path} :
    Path.Keeps p (path ++ path') ↔ path.Keeps p ∧ path'.Keeps p :=
  List.forall_mem_append

mutual

theorem Step.run_kept (hp : Store.KeptByCalls p) : ∀ (step : Step) {shell : Shell},
    (step.passage shell).Keeps p → p shell.store → p (step.run shell).2.store
  | .act action, shell, hkeeps, h => hkeeps (action, shell) (List.mem_singleton_self _) h
  | .call name args stop steps, shell, hkeeps, h => by
      unfold Step.passage at hkeeps
      cases hpush : shell.store.push name args with
      | error e =>
          unfold Step.run
          rw [hpush]
          exact h
      | ok store =>
          rw [hpush] at hkeeps
          have hinner := runSteps_kept hp stop steps hkeeps (hp.push hpush h)
          obtain hrun | ⟨frame, rest, hpop, hrun⟩ := Step.run_call hpush stop steps
          · rw [hrun]
            exact hinner
          · rw [hrun]
            exact hp.pop hpop hinner
  | .subshell _ _, _, _, h => h

/-- What no action takes away is still there behind the steps. -/
theorem runSteps_kept (hp : Store.KeptByCalls p) (stop : Bool) :
    ∀ (steps : List Step) {shell : Shell},
      (stepPassage stop steps shell).Keeps p → p shell.store →
        p (runSteps stop steps shell).2.2.store
  | [], _, _, h => h
  | step :: rest, shell, hkeeps, h => by
      rw [stepPassage_cons, Path.keeps_append] at hkeeps
      have hbehind := step.run_kept hp hkeeps.1 h
      have hrest := hkeeps.2
      rw [runSteps_cons]
      split_ifs at hrest ⊢
      · exact hbehind
      · exact runSteps_kept hp stop rest hrest hbehind

end

mutual

theorem Step.innerPaths_kept (hp : Store.KeptByCalls p) : ∀ (step : Step) {shell : Shell},
    p shell.store → ∀ reached ∈ step.innerPaths shell, reached.1.Keeps p → p reached.2.store
  | .act _, _, _ => fun _ hmem => absurd hmem List.not_mem_nil
  | .call name args stop steps, shell, h => by
      unfold Step.innerPaths
      cases hpush : shell.store.push name args with
      | error e => exact fun _ hmem => absurd hmem List.not_mem_nil
      | ok store => exact stepPaths_kept hp stop steps (hp.push hpush h)
  | .subshell stop steps, _, h => stepPaths_kept hp stop steps h

/-- **What no action on the path takes away stays**, up to the shell that the path leads to. -/
theorem stepPaths_kept (hp : Store.KeptByCalls p) (stop : Bool) :
    ∀ (steps : List Step) {shell : Shell}, p shell.store →
      ∀ reached ∈ stepPaths stop steps shell, reached.1.Keeps p → p reached.2.store
  | [], _, h => fun _ hmem _ => List.mem_singleton.mp hmem ▸ h
  | step :: rest, shell, h => by
      rw [stepPaths_cons]
      refine List.forall_mem_cons.mpr ⟨fun _ => h, List.forall_mem_append.mpr
        ⟨step.innerPaths_kept hp h, List.forall_mem_map.mpr fun reached hmem hkeeps => ?_⟩⟩
      obtain ⟨hfirst, hrest⟩ := Path.keeps_append.mp hkeeps
      have hbehind := step.run_kept hp hfirst h
      split_ifs at hmem
      · rw [List.mem_singleton.mp hmem]
        exact hbehind
      · exact stepPaths_kept hp stop rest hbehind reached hmem hrest

end

/-- A property that neither calls nor actions take away holds of all shells of a session. -/
theorem Session.kept_of_mem_states (hp : Store.KeptByCalls p)
    (hact : ∀ (action : Action) (shell : Shell), p shell.store → p (action.step shell).2.store)
    {session : Session} (hnew : p (Shell.new session.config).store)
    (hshell : shell ∈ session.states) : p shell.store := by
  obtain ⟨path, hpath⟩ := Session.exists_path_of_mem_states hshell
  exact stepPaths_kept hp false session.steps hnew _ hpath fun entry _ => hact entry.1 entry.2

end ShellExpansion
