import ShellExpansion.Proofs.Eval.Running
import ShellExpansion.Proofs.Except
import ShellExpansion.Proofs.Store.Resolution
import ShellExpansion.Proofs.Store.WellFormed
import ShellExpansion.Session.Action

/-! # Bindings in replies

A binding does not hold its own name: wherever a reply shows a binding with a name, the binding
stands in a frame under this name when the action ends (`Action.run_shows`). -/

namespace ShellExpansion

/-- The binding that a reply shows, with the name that it is shown with. -/
def Reply.shown? : Reply → Option (String × Binding)
  | .binding name found => found.map (name, ·)
  | .resolved name found => found.map (name, ·)
  | _ => none

/-- One of the frames binds the name to the binding. -/
def Store.Contains (s : Store) (named : String × Binding) : Prop :=
  ∃ frame ∈ s.frames, named ∈ frame.bindings.entries

theorem Store.contains_of_slot? {s : Store} {level : Nat} {name : String} {b : Binding}
    (h : s.slot? level name = some b) : s.Contains (name, b) := by
  obtain ⟨frame, hframe, hget⟩ := Option.bind_eq_some_iff.mp h
  exact ⟨frame, mem_frames_iff.mpr ⟨level, hframe⟩, Table.get?_eq_some_iff.mp hget⟩

theorem Store.contains_of_find? {s : Store} {scope : Scope} {name : String} {b : Binding}
    (h : s.find? scope name = some b) : s.Contains (name, b) := by
  rw [find?_eq_slot?] at h
  exact contains_of_slot? h

theorem Store.contains_of_lookup {s : Store} {name : String} {b : Binding}
    (h : s.lookup name = some b) : s.Contains (name, b) := by
  rw [lookup_eq_slot?] at h
  exact contains_of_slot? h

/-- A question is answered without bindings. -/
theorem Query.shown?_answer {question : Query} {reply : Reply} (h : question.answer = .ok reply) :
    reply.shown? = none := by
  cases question with
  | parseParameter text =>
      obtain ⟨parsed, -, rfl⟩ := exists_of_map_eq_ok h
      rfl
  | parseExpression text =>
      obtain ⟨parsed, -, h⟩ := exists_of_bind_eq_ok h
      obtain ⟨-, -, h⟩ := exists_of_bind_eq_ok h
      cases h
      rfl
  | tokenize text =>
      obtain ⟨tokens, -, rfl⟩ := exists_of_map_eq_ok h
      rfl
  | constant text source =>
      obtain ⟨value, -, h⟩ := exists_of_bind_eq_ok h
      obtain ⟨-, -, h⟩ := exists_of_bind_eq_ok h
      cases h
      rfl
  | braces text =>
      obtain ⟨words, -, rfl⟩ := exists_of_map_eq_ok h
      rfl
  | _ =>
      cases h
      rfl

namespace Eval

variable {α : Type} {action : Eval α}

/-- What the evaluation replies is in the store when it ends. -/
def Shows (action : Eval Reply) : Prop :=
  ∀ ⦃shell reply shell'⦄, action shell = (.ok reply, shell') →
    ∀ named ∈ reply.shown?, shell'.store.Contains named

namespace Shows

/-- A reply shows what the evaluation behind the first one shows. -/
theorem bind {rest : α → Eval Reply} (h : ∀ a, Shows (rest a)) : Shows (action >>= rest) := by
  intro shell reply shell' hrun
  rw [bind_run] at hrun
  cases haction : action shell with
  | mk result between =>
      rw [haction] at hrun
      cases result with
      | ok a => exact h a hrun
      | error fault => cases hrun

theorem pure {reply : Reply} (h : reply.shown? = none) : Shows (Pure.pure reply) := by
  intro shell reply' shell' hrun
  cases hrun
  rw [h]
  exact nofun

theorem throw (fault : Fault) : Shows (MonadExcept.throw fault) := by
  intro shell reply shell' hrun
  cases hrun

/-- The reply shows no binding, whatever the evaluation gives. -/
theorem of_none {reply : α → Reply} (h : ∀ a, (reply a).shown? = none) :
    Shows (do return reply (← action)) :=
  .bind fun a => .pure (h a)

theorem bindingAt (place : Store.Place) : Shows (Action.bindingAt place) := by
  intro shell reply shell' hrun named hnamed
  cases hrun
  obtain ⟨b, hat, rfl⟩ := Option.map_eq_some_iff.mp hnamed
  exact Store.contains_of_find? hat

end Shows

end Eval

open Eval

theorem Action.perform_shows (deeper : Evaluators) (action : Action) :
    Shows (action.perform deeper) := by
  cases action with
  | ask question =>
      intro shell reply shell' hrun named hnamed
      cases hanswer : question.answer with
      | error fault =>
          rw [perform, hanswer] at hrun
          cases hrun
      | ok answer =>
          rw [perform, hanswer] at hrun
          cases hrun
          rw [Query.shown?_answer hanswer] at hnamed
          cases hnamed
  | expression text => exact .bind fun _ => .of_none fun _ => rfl
  | lookup name =>
      intro shell reply shell' hrun named hnamed
      cases hrun
      obtain ⟨b, hlookup, rfl⟩ := Option.map_eq_some_iff.mp hnamed
      exact Store.contains_of_lookup hlookup
  | resolve name =>
      intro shell reply shell' hrun named hnamed
      rw [perform, bind_run, query_run] at hrun
      cases hresolve : shell.store.resolve name with
      | error e =>
          rw [hresolve] at hrun
          cases hrun
      | ok result =>
          rw [hresolve] at hrun
          cases hrun
          obtain ⟨b, hfound, rfl⟩ := Option.map_eq_some_iff.mp hnamed
          have hlookup := (Store.resolve_spec hresolve).2
          rw [hfound] at hlookup
          exact Store.contains_of_lookup hlookup.symm
  | push name args => exact .bind fun _ => .bind fun _ => .pure rfl
  | pop =>
      intro shell reply shell' hrun
      rw [perform, store_bind_run] at hrun
      cases hpop : shell.store.pop? with
      | none =>
          rw [hpop] at hrun
          cases hrun
      | some result =>
          rw [hpop] at hrun
          cases hrun
          exact nofun
  | setPositional args => exact .bind fun _ => .bind fun _ => .pure rfl
  | assign target value scope append => exact .bind Shows.bindingAt
  | store name value scope append => exact .bind Shows.bindingAt
  | declare name request => exact .bind Shows.bindingAt
  | setReference name target scope => exact .bind Shows.bindingAt
  | setElement name key value append scope => exact .bind Shows.bindingAt
  | assignLiteral name literal scope append => exact .bind Shows.bindingAt
  | appendLiteral name values overrides => exact .bind Shows.bindingAt
  | _ => exact .of_none fun _ => rfl

/-- **Replies show what is there**: a binding stands in a frame under the name it is shown with. -/
theorem Action.run_shows (action : Action) : Shows action.run :=
  .bind fun _ => .bind fun _ => perform_shows _ action

end ShellExpansion
