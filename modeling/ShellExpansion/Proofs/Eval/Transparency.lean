import ShellExpansion.Proofs.Eval.Running
import ShellExpansion.Proofs.Store.Resolution
import ShellExpansion.Session.Action

/-! # References are transparent

Operations that name a variable (`Access`) do on a name what they do on the last name that it leads
to: they give the same result or the same error, and leave the same shell (`access_transparent`).
They reach the variable in one of three ways, by its binding, by the place that a write goes to, or
by the last name itself, and each of these is the same for both names. -/

namespace ShellExpansion

namespace Store

variable {s : Store} {name final : String} {found : Option Binding}

theorem resolve_eq_final (h : s.resolve name = .ok (final, found)) :
    s.resolve name = s.resolve final := by
  rw [h, resolve_final h]

theorem binding?_eq_final (h : s.resolve name = .ok (final, found)) :
    s.binding? name = s.binding? final := by
  unfold binding?
  rw [resolve_eq_final h]

theorem get?_eq_final (h : s.resolve name = .ok (final, found)) :
    s.get? name = s.get? final := by
  unfold get?
  rw [binding?_eq_final h]

theorem prepare_eq_final (h : s.resolve name = .ok (final, found)) :
    s.prepare name .nearest = s.prepare final .nearest := by
  unfold prepare
  rw [place_nearest h, place_nearest (resolve_final h)]

theorem assign_eq_final (h : s.resolve name = .ok (final, found)) (text : String)
    (append : Bool) : s.assign name text .nearest append = s.assign final text .nearest append := by
  unfold assign
  rw [prepare_eq_final h]

end Store

/-- An operation on the variable that a name leads to; writes go where the name leads. -/
inductive Access
  | isSet
  | getElement (key : Key)
  | allValues
  | allKeys
  | length
  | slice (start : Int) (count : Option Int)
  | assign (text : String) (append : Bool)
  | setElement (key : Key) (text : String) (append : Bool)
  | unsetElement (key : Key)
  | assignLiteral (literal : ArrayLiteral) (append : Bool)
deriving DecidableEq, Repr

/-- The action of an operation on a name. -/
def Access.on (name : String) : Access → Action
  | isSet => .isSet name
  | getElement key => .getElement name key
  | allValues => .allValues name
  | allKeys => .allKeys name
  | length => .length name
  | slice start count => .slice name start count
  | assign text append => .store name text .nearest append
  | setElement key text append => .setElement name key text append .nearest
  | unsetElement key => .unsetElement name key
  | assignLiteral literal append => .assignLiteral name literal .nearest append

namespace Eval

variable {shell : Shell} {name final : String} {found : Option Binding}

theorem valueNamed_eq_final (h : shell.store.resolve name = .ok (final, found)) :
    valueNamed name shell = valueNamed final shell :=
  bind_congr_run (query_congr_run (Store.binding?_eq_final h)) _

theorem allValues_eq_final (h : shell.store.resolve name = .ok (final, found)) :
    allValues name shell = allValues final shell :=
  bind_congr_run (valueNamed_eq_final h) _

theorem slice_eq_final (h : shell.store.resolve name = .ok (final, found)) (start : Int)
    (count : Option Int) : slice name start count shell = slice final start count shell := by
  have hrest {β : Type} (rest : Value → Eval β) :
      (valueNamed name >>= rest) shell = (valueNamed final >>= rest) shell :=
    bind_congr_run (valueNamed_eq_final h) rest
  unfold slice
  cases count with
  | none => exact hrest _
  | some n =>
      by_cases hn : n < 0
      · simp only [hn, if_true]
        rw [bind_run, bind_run, refuseShowing_run]
      · simp only [hn, if_false]
        exact hrest _

end Eval

/-- **References are transparent**: reading a name, and every operation on it, does what it does on
the last name that it leads to. -/
theorem access_transparent {shell : Shell} {name final : String} {found : Option Binding}
    (h : shell.store.resolve name = .ok (final, found)) :
    shell.store.get? name = shell.store.get? final ∧
      ∀ (deeper : Evaluators) (access : Access),
        (access.on name).perform deeper shell = (access.on final).perform deeper shell := by
  refine ⟨Store.get?_eq_final h, fun deeper access => ?_⟩
  have hprepare : Eval.change (·.prepare name .nearest) shell =
      Eval.change (·.prepare final .nearest) shell :=
    Eval.change_congr_run (Store.prepare_eq_final h)
  cases access with
  | isSet => exact Eval.bind_congr_run (Eval.query_congr_run (Store.get?_eq_final h)) _
  | getElement key =>
      exact Eval.bind_congr_run (Eval.bind_congr_run (Eval.valueNamed_eq_final h) _) _
  | allValues => exact Eval.bind_congr_run (Eval.allValues_eq_final h) _
  | allKeys => exact Eval.bind_congr_run (Eval.bind_congr_run (Eval.valueNamed_eq_final h) _) _
  | length => exact Eval.bind_congr_run (Eval.bind_congr_run (Eval.allValues_eq_final h) _) _
  | slice start count => exact Eval.bind_congr_run (Eval.slice_eq_final h start count) _
  | assign text append =>
      exact Eval.bind_congr_run (Eval.change_congr_run (Store.assign_eq_final h text append)) _
  | setElement key text append => exact Eval.bind_congr_run (Eval.bind_congr_run hprepare _) _
  | unsetElement key =>
      have hresolve : Eval.query (·.resolve name) shell = Eval.query (·.resolve final) shell :=
        Eval.query_congr_run (Store.resolve_eq_final h)
      exact Eval.bind_congr_run (Eval.bind_congr_run hresolve _) _
  | assignLiteral literal append => exact Eval.bind_congr_run (Eval.bind_congr_run hprepare _) _

/-- A local reference leads through an outer one to an array. -/
theorem access_transparent_twoLinks :
    let a : Binding := ⟨.indexed (IndexedArray.singleton "x"), .none, 0⟩
    let outermost : Table Binding :=
      (Table.empty.insert "a" a).insert "q" ⟨.reference "a", .none, 0⟩
    let store : Store := ⟨[⟨"f", [], Table.empty.insert "r" ⟨.reference "q", .none, 0⟩⟩],
      ⟨"global", [], outermost⟩, .standard⟩
    let shell : Shell := ⟨store, false, "script", 0⟩
    store.resolve "r" = .ok ("a", some a) ∧ store.get? "r" = store.get? "a" ∧
      ∀ (deeper : Evaluators) (access : Access),
        (access.on "r").perform deeper shell = (access.on "a").perform deeper shell := by
  intro a outermost store shell
  have hresolve : shell.store.resolve "r" = .ok ("a", some a) := by decide
  exact ⟨hresolve, access_transparent hresolve⟩

end ShellExpansion
