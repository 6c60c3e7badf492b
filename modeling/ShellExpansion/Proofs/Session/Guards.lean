import ShellExpansion.Proofs.Eval.Loosening
import ShellExpansion.Proofs.Session.Running

/-! # Guards only turn results into errors

Expansions, evaluations, matches and assignments that succeed give the same reply, and leave the
same shell, when the bounds are larger and unset parameters are no errors
(`Action.run_loosen`). -/

namespace ShellExpansion

open Eval

variable {strict loose : Guards} {lost : Fault → Prop}

namespace Action

/-- The action is an expansion, an evaluation or a match, or reads or writes variables and elements
as scripts do. -/
def isEvaluation : Action → Bool
  | expand _ | word _ _ | braces _ | arithmetic _ | expression _ | valueOf _ _ => true
  | isMatch _ _ | select _ _ _ | assign _ _ _ _ | get _ => true
  | elementKey _ _ | getElement _ _ | setElement _ _ _ _ _ | allValues _ | allKeys _ => true
  | length _ | slice _ _ _ | assignLiteral _ _ _ _ | appendLiteral _ _ _ => true
  | _ => false

theorem lifts_bindingAt (place : Store.Place) :
    Lifts strict loose lost (bindingAt place) (bindingAt place) := by
  refine .store_bind fun s => ?_
  rw [Store.at?_under, Store.at?_under]
  exact .pure _

theorem lifts_valueAt {first other : Evaluators} (h : first.Lift strict loose lost other)
    (target : String) : Lifts strict loose lost (valueAt first target) (valueAt other target) := by
  unfold valueAt
  cases splitSubscript target with
  | mk name subscript =>
      cases subscript with
      | none => exact lifts_get? h.guards target
      | some subscript =>
          exact .bind (h.elementKey name subscript) fun key =>
            lifts_getElement? h.guards name key

theorem lifts_expandBraces {first other : Evaluators} (h : first.Lift strict loose lost other)
    (text : String) :
    Lifts strict loose lost (expandBraces first text) (expandBraces other text) :=
  .bind (.ofExcept _) fun _ => .mapM (h.expandWord .text) _

theorem perform_lifts {first other : Evaluators} (h : first.Lift strict loose lost other)
    {action : Action} (hevaluation : action.isEvaluation = true) :
    Lifts strict loose lost (action.perform first) (action.perform other) := by
  have hreply {α : Type} {x y : Eval α} (h : Lifts strict loose lost x y) (reply : α → Reply) :
      Lifts strict loose lost (do return reply (← x)) (do return reply (← y)) :=
    .bind h fun _ => .pure _
  have hplace {x y : Eval Store.Place} (h : Lifts strict loose lost x y) :
      Lifts strict loose lost (x >>= bindingAt) (y >>= bindingAt) :=
    .bind h lifts_bindingAt
  match action, hevaluation with
  | .expand text, _ => exact hreply (h.expand text) _
  | .word mode text, _ => exact hreply (h.expandWord mode text) _
  | .braces text, _ => exact hreply (lifts_expandBraces h text) _
  | .arithmetic text, _ => exact hreply (h.evaluate text) _
  | .expression text, _ =>
      exact .bind (.ofExcept _) fun parsed => hreply (h.expression "" "" parsed) _
  | .valueOf value source, _ => exact hreply (h.valueOf source source value) _
  | .isMatch pattern text, _ => exact hreply (h.matchesWord text pattern) _
  | .select subject clauses count, _ => exact hreply (h.selectBodies subject clauses count) _
  | .assign target value scope append, _ => exact hplace (h.assign target value scope append)
  | .get target, _ => exact hreply (lifts_valueAt h target) _
  | .elementKey name subscript, _ => exact hreply (h.elementKey name subscript) _
  | .getElement name key, _ => exact hreply (lifts_getElement? h.guards name key) _
  | .setElement name key value append scope, _ =>
      exact hplace (h.setElement name key value append scope)
  | .allValues name, _ => exact hreply (lifts_allValues h.guards name) _
  | .allKeys name, _ => exact hreply (lifts_allKeys h.guards name) _
  | .length name, _ =>
      exact hreply (.bind (lifts_allValues h.guards name) fun _ => .pure _) Reply.count
  | .slice name start count, _ => exact hreply (lifts_slice h.guards name start count) _
  | .assignLiteral name literal scope append, _ =>
      exact hplace (h.assignLiteral name literal scope append)
  | .appendLiteral name values overrides, _ =>
      exact hplace (h.appendLiteral name values (Table.ofList overrides))

/-- An evaluation that succeeds does so under guards that are looser, up to the faults by which its
result may be lost. -/
theorem run_lifts {action : Action} (hevaluation : action.isEvaluation = true)
    (hguards : Guards.WithinUpTo lost strict loose) :
    Lifts strict loose lost action.run action.run := by
  have hnesting : strict.limits.nesting ≤ loose.limits.nesting := by
    have hdepth := hguards.arithmeticDepth
    unfold Limits.nesting
    omega
  exact .bind (.ofExcept _) fun _ =>
    .limits_bind (perform_lifts (evaluators_lift hguards hnesting) hevaluation)

/-- **Guards only turn results into errors**: what succeeds gives the same reply under looser
guards, and leaves the same shell up to the guards. -/
theorem run_loosen {action : Action} (hevaluation : action.isEvaluation = true)
    {shell shell' : Shell} (hguards : shell.guards.Within loose) {reply : Reply}
    (hrun : action.run shell = (.ok reply, shell')) :
    action.run (shell.under loose) = (.ok reply, shell'.under loose) ∧
      shell'.guards = shell.guards := by
  have hlifts := run_lifts hevaluation (hguards.withinUpTo fun _ => False)
  obtain ⟨bare, rfl, hloose | ⟨fault, -, hfalse⟩⟩ := hlifts shell reply shell' hrun
  · exact ⟨hloose, rfl⟩
  · exact hfalse.elim

/-- The value of a variable that another one refers to is expanded under the least bounds that admit
this, and where unset parameters are errors. -/
theorem run_loosen_leastBounds :
    let bindings := (Table.empty.insert "a" ⟨.scalar "xyz", .none, 0⟩).insert "r"
      ⟨.reference "a", .none, 0⟩
    let strict : Guards := ⟨true, ⟨0, 2, 0, 3⟩⟩
    let loose : Guards := ⟨false, .standard⟩
    let shell : Shell := ⟨⟨[], ⟨"global", [], bindings⟩, strict.limits⟩, true, "script", 0⟩
    let action : Action := .expand "$r"
    action.isEvaluation = true ∧ shell.guards.Within loose ∧
      action.run shell = (.ok (.texts ["xyz"]), shell) ∧
      action.run (shell.under loose) = (.ok (.texts ["xyz"]), shell.under loose) := by
  intro bindings strict loose shell action
  have hguards : shell.guards.Within loose := ⟨by decide, by decide, by decide, by decide⟩
  have hexpanded : (evaluators shell.store.limits.nesting).expand "$r" shell =
      (.ok ["xyz"], shell) := by
    show (_ : Except Fault (List String) × Shell) = _
    decide +kernel
  have hrun : action.run shell = (.ok (.texts ["xyz"]), shell) := by
    rw [run_expand]
    exact bind_run_of_ok hexpanded
  exact ⟨rfl, hguards, hrun, (run_loosen rfl hguards hrun).1⟩

end Action

end ShellExpansion
