import ShellExpansion.Proofs.Parameter.Name
import ShellExpansion.Proofs.Session.Shown
import ShellExpansion.Proofs.Session.States

/-! # Well-formed sessions

Every shell that a session comes by has a well-formed store, and shows bindings under their names
(`wellFormed_of_mem_states`).  All names that are bound are names of variables.  They can be written
as expansions in braces, but for those that a line end stands behind: these are bound, too, and
cannot be expanded (`names_of_mem_states`, `lineEnd_in_bound_name`). -/

namespace ShellExpansion

namespace Store

/-- A new shell binds names of variables to texts, and nothing else. -/
theorem slot?_new {config : Config} {level : Nat} {name : String} {b : Binding}
    (h : (Shell.new config).store.slot? level name = some b) :
    isIdentifier name = true ∧ ∃ text, b.value = .scalar text := by
  cases level with
  | zero =>
      obtain ⟨entry, hentry, heq⟩ := List.mem_map.mp (Table.mem_of_get?_ofList h)
      cases heq
      exact ⟨(List.mem_filter.mp hentry).2, entry.2, rfl⟩
  | succ level => cases h

theorem everyValue_new {config : Config} {q : String → Value → Prop}
    (h : ∀ name text, isIdentifier name = true → q name (.scalar text)) :
    (Shell.new config).store.EveryValue q := by
  intro level name b hslot
  obtain ⟨hname, text, htext⟩ := slot?_new hslot
  rw [htext]
  exact h name text hname

theorem framed_new {config : Config} (h : 0 ≤ config.limits.callDepth) :
    (Shell.new config).store.Framed config.limits :=
  ⟨rfl, rfl, h⟩

end Store

variable {session : Session} {shell : Shell}

theorem everyValue_of_mem_states (hshell : shell ∈ session.states) :
    shell.store.EveryValue Store.Named :=
  Session.kept_of_mem_states (Store.keptByCalls_everyValue Store.Named)
    (fun action shell =>
      (Store.lasting_named action.storeRights).kept.moves (action.step_moves shell))
    (Store.everyValue_new fun _ _ hname => ⟨hname, fun _ heq => nomatch heq⟩) hshell

theorem framed_of_mem_states (hdepth : 0 ≤ session.config.limits.callDepth)
    (hshell : shell ∈ session.states) : shell.store.Framed session.config.limits :=
  Session.kept_of_mem_states (Store.keptByCalls_framed session.config.limits)
    (fun action shell =>
      (Store.kept_framed action.storeRights session.config.limits).moves (action.step_moves shell))
    (Store.framed_new hdepth) hshell

/-- **All shells of a session are well-formed**: there is a frame under all calls, there are not
more calls than the bound allows, and every binding has in it what a binding can have; and whatever
is done to the shell, a binding is shown with the name under which it stands. -/
theorem wellFormed_of_mem_states (hdepth : 0 ≤ session.config.limits.callDepth)
    (hshell : shell ∈ session.states) :
    shell.store.WellFormed session.config.limits.callDepth ∧
      ∀ (action : Action) (reply : Reply) (shell' : Shell), action.run shell = (.ok reply, shell') →
        ∀ named ∈ reply.shown?, shell'.store.Contains named :=
  ⟨Store.wellFormed_of_framed (framed_of_mem_states hdepth hshell)
    (everyValue_of_mem_states hshell), fun action _ _ hrun => action.run_shows hrun⟩

/-- In a subshell of the only call that is allowed, after a call too many, a variable was made
through a reference of the call. -/
theorem wellFormed_of_mem_states_callInSubshell :
    let limits : Limits := ⟨1, 100, 128, 10485760⟩
    let session : Session := ⟨⟨[("HOME", "/")], false, ["a"], "script", limits⟩,
      [.call "f" ["1"] false [.act (.command .localize ["-n", "r=x"]), .call "g" [] false [],
        .subshell false [.act (.assign "r" "5" .nearest false)]]]⟩
    let global : Table Binding := (Table.empty.insert "HOME"
      ⟨.scalar "/", ⟨false, false, true⟩, 0⟩).insert "x" ⟨.scalar "5", .none, 0⟩
    let inner : Table Binding := Table.empty.insert "r" ⟨.reference "x", .none, 0⟩
    let shell : Shell :=
      ⟨⟨[⟨"f", ["1"], inner⟩], ⟨"global", ["a"], global⟩, limits⟩, false, "script", 0⟩
    0 ≤ session.config.limits.callDepth ∧ shell ∈ session.states ∧
      shell.store.WellFormed session.config.limits.callDepth := by
  intro limits session global inner shell
  have hshell : shell ∈ session.states := by decide +kernel
  exact ⟨by decide, hshell, (wellFormed_of_mem_states (by decide) hshell).1⟩

/-- **Bound names are names of variables**, and can be expanded in braces if no line end follows. -/
theorem names_of_mem_states (hshell : shell ∈ session.states) {frame : Frame}
    (hframe : frame ∈ shell.store.frames) {entry : String × Binding}
    (hentry : entry ∈ frame.bindings.entries) :
    entry.1 ≠ "_" ∧ ∃ c rest back, entry.1.toList = c :: (rest ++ back) ∧ isNameStart c = true ∧
      (∀ d ∈ rest, isNameChar d = true) ∧
      (back = [] ∧ Evaluators.loneParameter? (valueText entry.1) =
          some (.ok (Parameter.ofName entry.1)) ∨
        back = ['\n'] ∧ Evaluators.loneParameter? (valueText entry.1) =
          some (.error (.substitution (.malformed entry.1)))) := by
  obtain ⟨level, hlevel⟩ := Store.mem_frames_iff.mp hframe
  have hslot : shell.store.slot? level entry.1 = some entry.2 := by
    rw [Store.slot?, hlevel, Option.bind_some, Table.get?_eq_some_iff]
    exact hentry
  have hname : isIdentifier entry.1 = true := (everyValue_of_mem_states hshell hslot).1
  obtain ⟨c, rest, back, htext, hc, hrest, hback⟩ := exists_of_isIdentifier hname
  refine ⟨ne_underscore hname, c, rest, back, htext, hc, hrest, hback.imp ?_ ?_⟩
  · rintro rfl
    rw [List.append_nil] at htext
    exact ⟨rfl, Evaluators.loneParameter?_value hname htext hc hrest⟩
  · rintro rfl
    exact ⟨rfl, Evaluators.loneParameter?_lineEnd hname htext hc hrest⟩

/-- A call names a local variable. -/
theorem names_of_mem_states_local :
    let limits : Limits := .standard
    let session : Session := ⟨⟨[], false, [], "script", limits⟩,
      [.call "f" [] false [.act (.command .localize ["a_1"])]]⟩
    let inner : Table Binding := Table.empty.insert "a_1" .unset
    let shell : Shell :=
      ⟨⟨[⟨"f", [], inner⟩], ⟨"global", [], Table.empty⟩, limits⟩, false, "script", 0⟩
    shell ∈ session.states ∧ ⟨"f", [], inner⟩ ∈ shell.store.frames ∧
      ("a_1", .unset) ∈ inner.entries ∧ "a_1" ≠ "_" := by
  intro limits session inner shell
  have hshell : shell ∈ session.states := by decide +kernel
  have hframe : ⟨"f", [], inner⟩ ∈ shell.store.frames := List.mem_cons_self
  have hentry : ("a_1", .unset) ∈ inner.entries := by decide
  exact ⟨hshell, hframe, hentry, (names_of_mem_states hshell hframe hentry).1⟩

/-- **A line end can stand behind a bound name**: a variable of the environment is bound with it,
and its name in braces is refused. -/
theorem lineEnd_in_bound_name :
    let session : Session := ⟨⟨[("a\n", "1")], false, [], "script", .standard⟩, []⟩
    let shell := session.run.2
    shell ∈ session.states ∧
      shell.store.slot? 0 "a\n" = some ⟨.scalar "1", ⟨false, false, true⟩, 0⟩ ∧
      isNameChar '\n' = false ∧
      (Action.expand (valueText "a\n")).run shell =
        (.error (.error (.substitution (.malformed "a\n"))), shell) :=
  ⟨Session.run_mem_states _, by decide +kernel, by decide, by rfl⟩

end ShellExpansion
