import ShellExpansion.Proofs.Session.States

/-! # Read-only variables in sessions

A frame lasts as long as the number of calls under way does not fall below its level.  The lowest
number of calls under way while steps run (`lowestDepth`) thus tells which frames last, and what is
known of a read-only binding in those stays known whatever steps run (`runSteps_holds`).  So no step
of a session changes a read-only value that is no reference (`readonly_value_of_runSteps`).  A
read-only reference keeps its target, too, up to a declaration that clears the attribute of its name
(`readonly_reference_of_runSteps`): this does not ask whether the reference is read-only
(`runSteps_clears_readonly_reference`). -/

namespace ShellExpansion

variable {level : Nat} {name : String} {value : Value} {shell shell' : Shell}
  {names : List String} {p : Binding → Prop} {rights : Store.Rights}

theorem Shell.Moves.holds (hp : Store.Firm rights.ended name p) (hmoves : shell.Moves rights shell')
    (h : shell.store.Holds level name p) (hlevel : level ≤ shell'.store.depth) :
    shell'.store.Holds level name p := by
  cases hmoves with
  | change hchange => exact hchange.store.holds hp h
  | push hpush => exact h.push hpush
  | pop hpop => exact h.pop hpop hlevel

mutual

/-- The lowest number of calls under way while a step runs. -/
def Step.lowestDepth : Step → Shell → Nat
  | .act action, shell => (action.step shell).2.store.depth
  | .call name args stop steps, shell =>
    match shell.store.push name args with
    | .error _ => shell.store.depth
    | .ok store =>
      min (lowestDepth stop steps { shell with store := store })
        ((Step.call name args stop steps).run shell).2.store.depth
  | .subshell _ _, shell => shell.store.depth

/-- The lowest number of calls under way while steps run. -/
def lowestDepth (stop : Bool) : List Step → Shell → Nat
  | [], shell => shell.store.depth
  | step :: rest, shell =>
    match stop, (step.run shell).1.fault? with
    | true, some _ => step.lowestDepth shell
    | _, _ => min (step.lowestDepth shell) (lowestDepth stop rest (step.run shell).2)

end

mutual

/-- The names by which a step may end references.  What happens in a subshell is not counted. -/
def Step.endedNames : Step → List String
  | .act action => action.endedNames
  | .call _ _ _ steps => endedNames steps
  | .subshell _ _ => []

/-- The names by which steps may end references. -/
def endedNames : List Step → List String
  | [] => []
  | step :: rest => step.endedNames ++ endedNames rest

end

theorem lowestDepth_cons (stop : Bool) (step : Step) (rest : List Step) (shell : Shell) :
    lowestDepth stop (step :: rest) shell =
      if step.isLast stop shell then step.lowestDepth shell
      else min (step.lowestDepth shell) (lowestDepth stop rest (step.run shell).2) := by
  conv_lhs => unfold lowestDepth
  unfold Step.isLast
  cases stop <;> cases (step.run shell).1.fault? <;> rfl

mutual

/-- What is known of a read-only binding is known after every step, if its frame stays. -/
theorem Step.run_holds (hp : Store.Firm names name p) : ∀ (step : Step) {shell : Shell},
    step.endedNames ⊆ names → shell.store.Holds level name p → level ≤ step.lowestDepth shell →
      (step.run shell).2.store.Holds level name p
  | .act action, shell, hnames, h, hlevel =>
      (action.step_moves shell).holds (hp.mono hnames) h hlevel
  | .call call args stop steps, shell, hnames, h, hlevel => by
      unfold Step.lowestDepth at hlevel
      cases hpush : shell.store.push call args with
      | error e =>
          unfold Step.run
          rw [hpush]
          exact h
      | ok store =>
          rw [hpush] at hlevel
          obtain ⟨hinside, hafter⟩ := Nat.le_min.mp hlevel
          have hholds := runSteps_holds hp stop steps hnames (h.push hpush) hinside
          obtain hrun | ⟨frame, rest, hpop, hrun⟩ := Step.run_call hpush stop steps
          · rw [hrun]
            exact hholds
          · rw [hrun] at hafter ⊢
            exact hholds.pop hpop hafter
  | .subshell _ _, _, _, h, _ => h

theorem runSteps_holds (hp : Store.Firm names name p) (stop : Bool) :
    ∀ (steps : List Step) {shell : Shell}, endedNames steps ⊆ names →
      shell.store.Holds level name p → level ≤ lowestDepth stop steps shell →
        (runSteps stop steps shell).2.2.store.Holds level name p
  | [], _, _, h, _ => h
  | step :: rest, shell, hnames, h, hlevel => by
      unfold endedNames at hnames
      obtain ⟨hfirst, hothers⟩ := List.append_subset.mp hnames
      rw [lowestDepth_cons] at hlevel
      rw [runSteps_cons]
      split_ifs at hlevel ⊢
      · exact step.run_holds hp hfirst h hlevel
      · obtain ⟨hstep, hrest⟩ := Nat.le_min.mp hlevel
        exact runSteps_holds hp _ rest hothers (step.run_holds hp hfirst h hstep) hrest

end

theorem runSteps_fixed (stop : Bool) (steps : List Step) (h : shell.store.Fixed level name value)
    (hlevel : level ≤ lowestDepth stop steps shell) :
    (runSteps stop steps shell).2.2.store.Fixed level name value :=
  runSteps_holds (Store.firm_fixed _ name value) stop steps (List.Subset.refl _) h hlevel

/-- **Read-only values never change**: whatever steps run on a shell, a read-only binding of a frame
that lasts keeps its value and stays read-only, unless the value is a reference. -/
theorem readonly_value_of_runSteps {b : Binding} (hslot : shell.store.slot? level name = some b)
    (hreadonly : b.attributes.readonly = true) (hvalue : b.value.isReference = false) (stop : Bool)
    (steps : List Step) (hlevel : level ≤ lowestDepth stop steps shell) :
    ∃ b', (runSteps stop steps shell).2.2.store.slot? level name = some b' ∧ b'.value = b.value ∧
      b'.attributes.readonly = true := by
  obtain ⟨b', hslot', hvalue', -, hreadonly'⟩ :=
    runSteps_fixed stop steps ⟨b, hslot, rfl, hvalue, hreadonly⟩ hlevel
  exact ⟨b', hslot', hvalue', hreadonly'⟩

/-- In a call, an inner call tries to unset and to declare again a read-only variable of the outer
one, and then the outer one assigns to it. -/
theorem readonly_value_of_runSteps_innerCall :
    let a : Binding := ⟨.scalar "1", ⟨false, true, false⟩, 0⟩
    let store : Store :=
      ⟨[⟨"f", [], Table.empty.insert "a" a⟩], ⟨"global", [], Table.empty⟩, .standard⟩
    let shell : Shell := ⟨store, false, "script", 0⟩
    let steps : List Step :=
      [.call "g" [] false [.act (.command .unset ["a"]), .act (.command .exports ["a=2"])],
        .act (.store "a" "3" .nearest false)]
    1 ≤ lowestDepth false steps shell ∧
      ∃ b, (runSteps false steps shell).2.2.store.slot? 1 "a" = some b ∧ b.value = .scalar "1" ∧
        b.attributes.readonly = true := by
  intro a store shell steps
  have hlevel : 1 ≤ lowestDepth false steps shell := by decide +kernel
  exact ⟨hlevel, readonly_value_of_runSteps (b := a) (by decide) rfl rfl false steps hlevel⟩

/-- **A read-only reference stays pointed** unless a declaration clears the attribute of its name:
whatever steps run on a shell, a read-only reference of a frame that lasts stays bound and
read-only, and it is the same reference or what is left of it when it was ended, where only steps
that end references by its name can have ended it. -/
theorem readonly_reference_of_runSteps {b : Binding} {target : String}
    (hslot : shell.store.slot? level name = some b) (hreadonly : b.attributes.readonly = true)
    (hvalue : b.value = .reference target) (stop : Bool) (steps : List Step)
    (hlevel : level ≤ lowestDepth stop steps shell) :
    ∃ b', (runSteps stop steps shell).2.2.store.slot? level name = some b' ∧
      b'.attributes.readonly = true ∧
      (b'.value = .reference target ∨ b'.value = Store.endedReference target) ∧
      (name ∉ endedNames steps → b'.value = .reference target) := by
  have hheld := runSteps_holds (Store.firm_held (endedNames steps) name target) stop steps
    (List.Subset.refl _) ⟨b, hslot, .inl hvalue, hreadonly⟩ hlevel
  obtain ⟨b', hslot', hvalue', hreadonly'⟩ := hheld
  refine ⟨b', hslot', hreadonly', hvalue', fun hname => ?_⟩
  obtain ⟨b'', hslot'', hvalue'', -⟩ := runSteps_holds (Store.firm_pointed hname target) stop steps
    (List.Subset.refl _) ⟨b, hslot, hvalue, hreadonly⟩ hlevel
  rw [hslot'] at hslot''
  cases hslot''
  exact hvalue''

/-- In a call, an inner call tries to unset, to point elsewhere and to convert a read-only reference
of the outer one, ends another reference, and then the outer one assigns through it. -/
theorem readonly_reference_of_runSteps_innerCall :
    let r : Binding := ⟨.reference "a", ⟨false, true, false⟩, 0⟩
    let store : Store :=
      ⟨[⟨"f", [], Table.empty.insert "r" r⟩], ⟨"global", [], Table.empty⟩, .standard⟩
    let shell : Shell := ⟨store, false, "script", 0⟩
    let steps : List Step :=
      [.call "g" [] false [.act (.command .unset ["-n", "r"]),
          .act (.command .declare ["-n", "r=b"]), .act (.command .declare ["-a", "r"]),
          .act (.command .declare ["+n", "q"])],
        .act (.store "r" "3" .nearest false)]
    1 ≤ lowestDepth false steps shell ∧ "r" ∉ endedNames steps ∧
      ∃ b, (runSteps false steps shell).2.2.store.slot? 1 "r" = some b ∧
        b.value = .reference "a" ∧ b.attributes.readonly = true := by
  intro r store shell steps
  have hlevel : 1 ≤ lowestDepth false steps shell := by decide +kernel
  have hname : "r" ∉ endedNames steps := by decide +kernel
  have hr : shell.store.slot? 1 "r" = some r := by decide
  obtain ⟨b, hslot, hreadonly, -, hvalue⟩ :=
    readonly_reference_of_runSteps hr rfl rfl false steps hlevel
  exact ⟨hlevel, hname, b, hslot, hvalue hname, hreadonly⟩

/-- **Clearing the attribute ends a read-only reference**: it becomes a read-only text, and one that
has no target yet an unset read-only variable. -/
theorem runSteps_clears_readonly_reference :
    let config : Config := ⟨[], false, [], "script", .standard⟩
    let pointed : List Step := [.act (.command .declare ["-nr", "r=x"]),
      .act (.command .declare ["-n", "q"]), .act (.command .readonly ["q"])]
    let cleared : List Step := [.act (.command .declare ["+n", "r"]),
      .act (.command .declare ["+n", "q"])]
    let shell := (Session.run ⟨config, pointed⟩).2
    let shell' := (runSteps false cleared shell).2.2
    shell.store.slot? 0 "r" = some ⟨.reference "x", ⟨false, true, false⟩, 0⟩ ∧
      shell'.store.slot? 0 "r" = some ⟨.scalar "x", ⟨false, true, false⟩, 0⟩ ∧
      shell.store.slot? 0 "q" = some ⟨.reference "", ⟨false, true, false⟩, 0⟩ ∧
      shell'.store.slot? 0 "q" = some ⟨.unset, ⟨false, true, false⟩, 0⟩ := by
  decide +kernel

end ShellExpansion
