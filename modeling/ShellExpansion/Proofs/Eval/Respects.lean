import Mathlib.Order.Defs.Unbundled
import ShellExpansion.Proofs.Eval.Running

/-! # What evaluations do to the shell

An evaluation respects a relation on shells if the shell that it is given and the shell that it
leaves are always related, whether it succeeds or fails (`Eval.Respects`).  For a preorder this goes
through sequences, so that it holds of an evaluator if it holds of the changes it is made of. -/

namespace ShellExpansion.Eval

variable {α β : Type} {R : Shell → Shell → Prop}

/-- The shell before and the shell after the evaluation are related, also when it fails. -/
def Respects (R : Shell → Shell → Prop) (action : Eval α) : Prop :=
  ∀ shell, R shell (action shell).2

/-- What is true of the first shell is true of the second. -/
def Keeping (P : Shell → Prop) (shell shell' : Shell) : Prop := P shell → P shell'

instance (P : Shell → Prop) : IsPreorder Shell (Keeping P) where
  refl _ := id
  trans _ _ _ h h' := h' ∘ h

/-- What is done behind an evaluation needs to be looked at for its results only. -/
theorem respects_bind_at [IsTrans Shell R] {x : Eval α} {f : α → Eval β} {shell : Shell}
    (hx : R shell (x shell).2)
    (hf : ∀ a shell', x shell = (.ok a, shell') → R shell' (f a shell').2) :
    R shell ((x >>= f) shell).2 := by
  rw [bind_run]
  cases h : x shell with
  | mk result shell' =>
      rw [h] at hx
      cases result with
      | ok a => exact IsTrans.trans _ _ _ hx (hf a shell' h)
      | error fault => exact hx

/-- What holds behind the first part of a sequence, and is kept by the rest, holds at the end. -/
theorem bind_holds {P : Shell → Prop} {x : Eval α} {f : α → Eval β} {shell : Shell}
    (hx : P (x shell).2) (hf : ∀ a, Respects (Keeping P) (f a)) : P ((x >>= f) shell).2 := by
  rw [bind_run]
  cases hrun : x shell with
  | mk result shell' =>
      rw [hrun] at hx
      cases result with
      | ok a => exact hf a shell' hx
      | error fault => exact hx

namespace Respects

/-- The two shells of a run are related. -/
theorem of_run {action : Eval α} {shell shell' : Shell} {result : Except Fault α}
    (h : Respects R action) (hrun : action shell = (result, shell')) : R shell shell' := by
  have hleaves := h shell
  rwa [hrun] at hleaves

theorem mono {R' : Shell → Shell → Prop} {action : Eval α} (h : Respects R action)
    (hR : ∀ shell shell', R shell shell' → R' shell shell') : Respects R' action :=
  fun shell => hR shell _ (h shell)

theorem partialChange {f : Store → Except Fault α × Store}
    (h : ∀ shell, R shell { shell with store := (f shell.store).2 }) :
    Respects R (Eval.partialChange f) := by
  intro shell
  rw [partialChange_run]
  exact h shell

theorem ite {p : Prop} [Decidable p] {x y : Eval α} (hx : Respects R x) (hy : Respects R y) :
    Respects R (if p then x else y) := by
  split
  · exact hx
  · exact hy

variable [IsPreorder Shell R]

theorem pure (a : α) : Respects R (Pure.pure a : Eval α) := fun shell => refl shell

theorem throw (fault : Fault) : Respects R (MonadExcept.throw fault : Eval α) :=
  fun shell => refl shell

theorem refuse (e : Error) : Respects R (Eval.refuse e : Eval α) := throw (.error e)

theorem ofExcept (result : Except Fault α) : Respects R (MonadExcept.ofExcept result : Eval α) := by
  intro shell
  rw [ofExcept_run]
  exact refl shell

theorem get : Respects R (MonadState.get : Eval Shell) := fun shell => refl shell

theorem store : Respects R Eval.store := fun shell => refl shell

theorem limits : Respects R Eval.limits := fun shell => refl shell

theorem bind {x : Eval α} {f : α → Eval β} (hx : Respects R x) (hf : ∀ a, Respects R (f a)) :
    Respects R (x >>= f) :=
  fun shell => respects_bind_at (hx shell) fun a shell' _ => hf a shell'

theorem refuseShowing (n : Int) (e : Error) : Respects R (Eval.refuseShowing n e : Eval α) :=
  bind (ofExcept _) fun _ => refuse e

theorem discard {x : Eval α} (hx : Respects R x) : Respects R (Functor.discard x) :=
  bind hx fun _ => pure _

/-- Two ways to begin, with the same behind them. -/
theorem either {p : Prop} [Decidable p] {x y : Eval α} {rest : α → Eval β} (hx : Respects R x)
    (hy : Respects R y) (hrest : ∀ a, Respects R (rest a)) :
    Respects R (if p then x >>= rest else y >>= rest) :=
  ite (bind hx hrest) (bind hy hrest)

/-- A part that is left out when a condition does not hold, and what is done behind it. -/
theorem optional {p : Prop} [Decidable p] {x : Eval Unit} {rest : Unit → Eval α}
    (hx : Respects R x) (hrest : ∀ done, Respects R (rest done)) :
    Respects R (if p then x >>= rest else rest ()) :=
  ite (bind hx hrest) (hrest ())

theorem query {f : Store → Except Error α} : Respects R (Eval.query f) := by
  intro shell
  rw [query_run]
  cases f shell.store <;> exact refl shell

theorem change {f : Store → Except Error (α × Store)}
    (h : ∀ shell a store, f shell.store = .ok (a, store) → R shell { shell with store := store }) :
    Respects R (Eval.change f) := by
  intro shell
  rw [change_run]
  cases hf : f shell.store with
  | ok result => exact h shell result.1 result.2 hf
  | error e => exact refl shell

theorem mapM_of_mem {f : α → Eval β} : ∀ {l : List α}, (∀ a ∈ l, Respects R (f a)) →
    Respects R (l.mapM f)
  | [], _ => by
      rw [List.mapM_nil]
      exact pure []
  | a :: rest, h => by
      rw [List.mapM_cons]
      exact bind (h a List.mem_cons_self) fun _ =>
        bind (mapM_of_mem fun b hb => h b (List.mem_cons_of_mem a hb)) fun _ => pure _

theorem mapM {f : α → Eval β} (h : ∀ a, Respects R (f a)) (l : List α) :
    Respects R (l.mapM f) :=
  mapM_of_mem fun a _ => h a

end Respects

end ShellExpansion.Eval
