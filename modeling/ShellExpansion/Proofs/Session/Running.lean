import ShellExpansion.Proofs.Eval.Running
import ShellExpansion.Session.Action

/-! # Runs of actions

An action that is given no numbers runs as it is carried out by the evaluators of the outermost
nesting level (`Action.run_eq`). -/

namespace ShellExpansion.Action

open Eval

theorem run_eq {action : Action} (hnumbers : action.numbers = []) (shell : Shell) :
    action.run shell = action.perform (evaluators shell.store.limits.nesting) shell := by
  have hcheck : (ofExcept (checkWritable []) : Eval Unit) shell = (.ok (), shell) := rfl
  rw [run, hnumbers, bind_run_of_ok hcheck, limits_bind_run]

theorem run_expand (text : String) (shell : Shell) : (Action.expand text).run shell =
    ((evaluators shell.store.limits.nesting).expand text >>= fun words =>
      pure (Reply.texts words)) shell := by
  rw [run_eq rfl, perform]

theorem run_word (mode : WordMode) (text : String) (shell : Shell) :
    (Action.word mode text).run shell =
      ((evaluators shell.store.limits.nesting).expandWord mode text >>= fun expanded =>
        pure (Reply.text (some expanded))) shell := by
  rw [run_eq rfl, perform]

theorem run_assign (target value : String) (scope : Scope) (append : Bool) (shell : Shell) :
    (Action.assign target value scope append).run shell =
      ((evaluators shell.store.limits.nesting).assign target value scope append >>= bindingAt)
        shell := by
  rw [run_eq rfl, perform]

/-- An assignment to the nearest binding of a name shows what the name has then. -/
theorem run_assign_nearest {target value final : String} {append : Bool} {shell shell' : Shell}
    (h : (evaluators shell.store.limits.nesting).assign target value .nearest append shell =
      (.ok ⟨.nearest, final⟩, shell')) :
    (Action.assign target value .nearest append).run shell =
      (.ok (.binding final (shell'.store.lookup final)), shell') := by
  rw [run_assign, bind_run_of_ok h]
  rfl

end ShellExpansion.Action
