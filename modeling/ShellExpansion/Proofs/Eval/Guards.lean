import ShellExpansion.Eval.Parameter
import ShellExpansion.Proofs.Eval.Running
import ShellExpansion.Proofs.Store.Bounds

/-! # Guards

The bounds of a shell and its option about unset parameters are guards: they only end evaluations.
Two evaluations, one of them under looser guards, are compared by their successful runs: a success
of the strict one is one of the loose one, with the same result and the same shell, unless the loose
one ends with a fault of a given sort (`Eval.Lifts`).  This goes through sequences, and holds of
everything that looks at variables.  Such a fault is that a text is too long, if the guards are
looser in everything but that bound (`Guards.WithinUpTo`). -/

namespace ShellExpansion

/-- What may end an evaluation that would give a result otherwise. -/
structure Guards where
  nounset : Bool
  limits : Limits
deriving DecidableEq, Repr

/-- The first guards end everything that the second ones end. The depth of calls does not matter to
evaluations. -/
structure Guards.Within (strict loose : Guards) : Prop where
  nounset : loose.nounset = true → strict.nounset = true
  referenceDepth : strict.limits.referenceDepth ≤ loose.limits.referenceDepth
  arithmeticDepth : strict.limits.arithmeticDepth ≤ loose.limits.arithmeticDepth
  stringLength : strict.limits.stringLength ≤ loose.limits.stringLength

/-- The first guards end everything that the second ones end, but for texts that are too long for
these alone: the faults that they end with are among the lost ones. -/
structure Guards.WithinUpTo (lost : Fault → Prop) (strict loose : Guards) : Prop where
  nounset : loose.nounset = true → strict.nounset = true
  referenceDepth : strict.limits.referenceDepth ≤ loose.limits.referenceDepth
  arithmeticDepth : strict.limits.arithmeticDepth ≤ loose.limits.arithmeticDepth
  tooLong : ∀ size : Nat, loose.limits.stringLength < size → size ≤ strict.limits.stringLength →
    lost (.error (.limit (.stringLength size loose.limits.stringLength)))

theorem Guards.Within.withinUpTo {strict loose : Guards} (h : strict.Within loose)
    (lost : Fault → Prop) : WithinUpTo lost strict loose where
  nounset := h.nounset
  referenceDepth := h.referenceDepth
  arithmeticDepth := h.arithmeticDepth
  tooLong size hlong hfits := by
    have hlength := h.stringLength
    omega

namespace Shell

/-- The guards of a shell. -/
def guards (shell : Shell) : Guards := ⟨shell.nounset, shell.store.limits⟩

/-- The shell with other guards. -/
def under (shell : Shell) (guards : Guards) : Shell :=
  { shell with store := shell.store.under guards.limits, nounset := guards.nounset }

theorem store_under (shell : Shell) (guards : Guards) :
    (shell.under guards).store = shell.store.under guards.limits := rfl

end Shell

namespace Eval

variable {α β : Type} {strict loose : Guards} {lost : Fault → Prop}

/-- The evaluation ends with one of the faults. -/
def Loses (lost : Fault → Prop) (action : Eval α) (shell : Shell) : Prop :=
  ∃ fault, (action shell).1 = .error fault ∧ lost fault

/-- What the first evaluation gives under the strict guards, the other one gives under the loose
ones, and it leaves the same shell, unless it loses the result. -/
def Lifts (strict loose : Guards) (lost : Fault → Prop) (first other : Eval α) : Prop :=
  ∀ (shell : Shell) (a : α) (shell' : Shell), first (shell.under strict) = (.ok a, shell') →
    ∃ bare : Shell, shell' = bare.under strict ∧
      (other (shell.under loose) = (.ok a, bare.under loose) ∨ Loses lost other (shell.under loose))

theorem Loses.bind {x : Eval α} {shell : Shell} (h : Loses lost x shell) (rest : α → Eval β) :
    Loses lost (x >>= rest) shell := by
  obtain ⟨fault, hfault, hlost⟩ := h
  refine ⟨fault, ?_, hlost⟩
  rw [bind_run]
  cases hrun : x shell with
  | mk result shell' =>
      rw [hrun] at hfault
      cases hfault
      rfl

namespace Lifts

/-! ### Parts of evaluations -/

theorem pure (a : α) : Lifts strict loose lost (Pure.pure a) (Pure.pure a) := by
  intro shell a' shell' h
  cases h
  exact ⟨shell, rfl, .inl rfl⟩

/-- What does not succeed lifts to anything. -/
theorem throw (fault : Fault) (other : Eval α) :
    Lifts strict loose lost (MonadExcept.throw fault) other := by
  intro shell a shell' h
  cases h

/-- A result may be lost to one of the faults. -/
theorem pure_throw (a : α) {fault : Fault} (h : lost fault) :
    Lifts strict loose lost (Pure.pure a) (MonadExcept.throw fault) := by
  intro shell a' shell' hrun
  cases hrun
  exact ⟨shell, rfl, .inr ⟨fault, rfl, h⟩⟩

theorem refuse (e : Error) (other : Eval α) : Lifts strict loose lost (Eval.refuse e) other :=
  throw (.error e) other

theorem refuseShowing (n : Int) (e : Error) (other : Eval α) :
    Lifts strict loose lost (Eval.refuseShowing n e) other := by
  intro shell a shell' h
  rw [refuseShowing_run] at h
  cases (Prod.mk.inj h).1

theorem ofExcept (result : Except Fault α) :
    Lifts strict loose lost (MonadExcept.ofExcept result) (MonadExcept.ofExcept result) := by
  cases result with
  | ok a => exact pure a
  | error fault => exact throw fault _

theorem bind {first other : Eval α} {rest rest' : α → Eval β}
    (hfirst : Lifts strict loose lost first other)
    (hrest : ∀ a, Lifts strict loose lost (rest a) (rest' a)) :
    Lifts strict loose lost (first >>= rest) (other >>= rest') := by
  intro shell b shell' h
  rw [bind_run] at h
  cases hrun : first (shell.under strict) with
  | mk result middle =>
      rw [hrun] at h
      cases result with
      | error fault => cases h
      | ok a =>
          obtain ⟨bare, rfl, hother⟩ := hfirst shell a middle hrun
          obtain ⟨bare', rfl, hrest'⟩ := hrest a bare b shell' h
          refine ⟨bare', rfl, ?_⟩
          obtain hother | hlost := hother
          · rw [Loses, bind_run_of_ok hother]
            exact hrest'
          · exact .inr (hlost.bind rest')

theorem discard {first other : Eval α} (h : Lifts strict loose lost first other) :
    Lifts strict loose lost (Functor.discard first) (Functor.discard other) :=
  bind h fun _ => pure _

theorem ite {p : Prop} [Decidable p] {x y x' y' : Eval α} (hx : Lifts strict loose lost x x')
    (hy : Lifts strict loose lost y y') :
    Lifts strict loose lost (if p then x else y) (if p then x' else y') := by
  split
  · exact hx
  · exact hy

/-- A condition that ends the strict evaluation if it holds, and the loose one only if it holds for
the strict one, too. -/
theorem guard {p q : Prop} [Decidable p] [Decidable q] (hpq : q → p) {x x' y y' : Eval α}
    (hx : ∀ other, Lifts strict loose lost x other) (hy : Lifts strict loose lost y y') :
    Lifts strict loose lost (if p then x else y) (if q then x' else y') := by
  by_cases hp : p
  · rw [if_pos hp]
    exact hx _
  · rw [if_neg hp, if_neg (mt hpq hp)]
    exact hy

/-- Two ways to begin, with the same behind them. -/
theorem either {p : Prop} [Decidable p] {x y x' y' : Eval α} {rest rest' : α → Eval β}
    (hx : Lifts strict loose lost x x') (hy : Lifts strict loose lost y y')
    (hrest : ∀ a, Lifts strict loose lost (rest a) (rest' a)) :
    Lifts strict loose lost (if p then x >>= rest else y >>= rest)
      (if p then x' >>= rest' else y' >>= rest') :=
  ite (bind hx hrest) (bind hy hrest)

/-- A part that is left out when a condition does not hold, and what is done behind it. -/
theorem optional {p : Prop} [Decidable p] {x x' : Eval Unit} {rest rest' : Unit → Eval α}
    (hx : Lifts strict loose lost x x')
    (hrest : ∀ done, Lifts strict loose lost (rest done) (rest' done)) :
    Lifts strict loose lost (if p then x >>= rest else rest ())
      (if p then x' >>= rest' else rest' ()) :=
  ite (bind hx hrest) (hrest ())

theorem get_bind {rest rest' : Shell → Eval β}
    (h : ∀ shell : Shell,
      Lifts strict loose lost (rest (shell.under strict)) (rest' (shell.under loose))) :
    Lifts strict loose lost (MonadState.get >>= rest) (MonadState.get >>= rest') :=
  fun shell => h shell shell

theorem store_bind {rest rest' : Store → Eval β}
    (h : ∀ s : Store,
      Lifts strict loose lost (rest (s.under strict.limits)) (rest' (s.under loose.limits))) :
    Lifts strict loose lost (Eval.store >>= rest) (Eval.store >>= rest') :=
  fun shell => h shell.store shell

theorem limits_bind {rest rest' : Limits → Eval β}
    (h : Lifts strict loose lost (rest strict.limits) (rest' loose.limits)) :
    Lifts strict loose lost (Eval.limits >>= rest) (Eval.limits >>= rest') :=
  fun shell => h shell

theorem setStore (s : Store) :
    Lifts strict loose lost (Eval.setStore (s.under strict.limits))
      (Eval.setStore (s.under loose.limits)) := by
  intro shell done shell' h
  cases h
  exact ⟨{ shell with store := s }, rfl, .inl rfl⟩

theorem query {f g : Store → Except Error α}
    (h : ∀ s a, f (Store.under s strict.limits) = .ok a → g (s.under loose.limits) = .ok a) :
    Lifts strict loose lost (Eval.query f) (Eval.query g) := by
  intro shell a shell' hrun
  rw [query_run, Shell.store_under] at hrun
  rw [query_run, Shell.store_under]
  cases hf : f (shell.store.under strict.limits) with
  | error e =>
      rw [hf] at hrun
      cases hrun
  | ok found =>
      rw [hf] at hrun
      cases hrun
      refine ⟨shell, rfl, .inl ?_⟩
      rw [h shell.store a hf]

theorem change {f g : Store → Except Error (α × Store)}
    (h : ∀ s a s', f (Store.under s strict.limits) = .ok (a, s') →
      ∃ bare : Store, s' = bare.under strict.limits ∧
        g (s.under loose.limits) = .ok (a, bare.under loose.limits)) :
    Lifts strict loose lost (Eval.change f) (Eval.change g) := by
  intro shell a shell' hrun
  obtain ⟨s', hf, rfl⟩ := change_eq_ok hrun
  obtain ⟨bare, rfl, hg⟩ := h shell.store a s' hf
  refine ⟨{ shell with store := bare }, rfl, .inl ?_⟩
  rw [change_run, Shell.store_under, hg]
  rfl

theorem oneDeeper {first other : Eval α} (h : Lifts strict loose lost first other) :
    Lifts strict loose lost (Eval.oneDeeper first) (Eval.oneDeeper other) := by
  intro shell a shell' hrun
  let inside : Shell := { shell with arithDepth := shell.arithDepth + 1 }
  have hdeeper (action : Eval α) (guards : Guards) :
      Eval.oneDeeper action (shell.under guards) =
        let outcome := action (inside.under guards)
        (outcome.1, { outcome.2 with arithDepth := outcome.2.arithDepth - 1 }) := rfl
  rw [hdeeper] at hrun
  rw [Loses, hdeeper]
  cases hfirst : first (inside.under strict) with
  | mk result middle =>
      rw [hfirst] at hrun
      cases hrun
      obtain ⟨bare, rfl, hother⟩ := h inside a middle hfirst
      refine ⟨{ bare with arithDepth := bare.arithDepth - 1 }, rfl, ?_⟩
      obtain hother | hlost := hother
      · rw [hother]
        exact .inl rfl
      · exact .inr hlost

theorem mapM {f g : α → Eval β} (h : ∀ a, Lifts strict loose lost (f a) (g a)) :
    ∀ l : List α, Lifts strict loose lost (l.mapM f) (l.mapM g)
  | [] => by
      rw [List.mapM_nil, List.mapM_nil]
      exact pure []
  | a :: rest => by
      rw [List.mapM_cons, List.mapM_cons]
      exact bind (h a) fun _ => bind (mapM h rest) fun _ => pure _

end Lifts

/-! ### Looking at variables -/

section reading

variable (h : Guards.WithinUpTo lost strict loose)

theorem lifts_indexOf (key : Key) : Lifts strict loose lost (indexOf key) (indexOf key) :=
  .ofExcept key.toIndex

theorem lifts_textOf (key : Key) : Lifts strict loose lost (textOf key) (textOf key) :=
  .ofExcept key.toText

include h

theorem lifts_valueNamed (name : String) :
    Lifts strict loose lost (valueNamed name) (valueNamed name) :=
  .bind (.query fun _ _ => Store.binding?_loosen h.referenceDepth) fun _ => .pure _

theorem lifts_isAssociative (name : String) :
    Lifts strict loose lost (isAssociative name) (isAssociative name) := by
  refine .bind (lifts_valueNamed h name) fun value => ?_
  cases value <;> exact .pure _

theorem lifts_getElement? (name : String) (key : Key) :
    Lifts strict loose lost (getElement? name key) (getElement? name key) := by
  refine .bind (lifts_valueNamed h name) fun value => ?_
  cases value with
  | indexed elements => exact .bind (lifts_indexOf key) fun _ => .pure _
  | associative elements => exact .bind (lifts_textOf key) fun _ => .pure _
  | scalar text => exact .bind (lifts_textOf key) fun _ => .pure _
  | _ => exact .pure _

theorem lifts_allValues (name : String) :
    Lifts strict loose lost (allValues name) (allValues name) := by
  refine .bind (lifts_valueNamed h name) fun value => ?_
  cases value <;> exact .pure _

theorem lifts_allKeys (name : String) : Lifts strict loose lost (allKeys name) (allKeys name) := by
  refine .bind (lifts_valueNamed h name) fun value => ?_
  cases value with
  | indexed elements => exact .bind (.ofExcept _) fun _ => .pure _
  | _ => exact .pure _

theorem lifts_slice (name : String) (start : Int) (count : Option Int) :
    Lifts strict loose lost (slice name start count) (slice name start count) := by
  unfold slice
  cases count with
  | none => exact .bind (lifts_valueNamed h name) fun _ => .pure _
  | some n =>
      exact .optional (.refuseShowing _ _ _) fun _ =>
        .bind (lifts_valueNamed h name) fun _ => .pure _

theorem lifts_get? (name : String) :
    Lifts strict loose lost (query (·.get? name)) (query (·.get? name)) :=
  .query fun _ _ => Store.get?_loosen h.referenceDepth

theorem lifts_prepare (name : String) (scope : Scope) :
    Lifts strict loose lost (change (·.prepare name scope)) (change (·.prepare name scope)) :=
  .change fun _ _ _ => Store.prepare_loosen h.referenceDepth

theorem lifts_assign (name text : String) (scope : Scope) (append : Bool) :
    Lifts strict loose lost (change (·.assign name text scope append))
      (change (·.assign name text scope append)) :=
  .change fun _ _ _ => Store.assign_loosen h.referenceDepth

/-! ### Words of values -/

theorem lifts_separator : Lifts strict loose lost separator separator := by
  refine .bind (lifts_get? h "IFS") fun text => ?_
  cases text <;> exact .pure _

theorem lifts_limited (text : String) : Lifts strict loose lost (limited text) (limited text) := by
  refine .limits_bind ?_
  dsimp only
  split
  · exact .refuse _ _
  · next hfits =>
    split
    · next hlong => exact .pure_throw text (h.tooLong _ hlong (by omega))
    · exact .pure text

theorem lifts_words (values : List String) (joined : Bool) :
    Lifts strict loose lost (words values joined) (words values joined) :=
  .ite (.bind (lifts_separator h) fun _ => .bind (lifts_limited h _) fun _ => .pure _)
    (.mapM (lifts_limited h) values)

theorem lifts_currentWords (reading : Reading) :
    Lifts strict loose lost (currentWords reading) (currentWords reading) := by
  cases reading with
  | one value => exact .bind (lifts_limited h _) fun _ => .pure _
  | all values joined => exact lifts_words h values joined

theorem lifts_checkSet (parameter : ReadParameter) :
    Lifts strict loose lost (checkSet parameter) (checkSet parameter) := by
  unfold checkSet
  split
  · exact .get_bind fun shell => .guard h.nounset (.refuse _) (.pure _)
  · exact .pure _

omit h in
theorem lifts_numbered (name : String) :
    Lifts strict loose lost (numbered name) (numbered name) := by
  refine .ite (.get_bind fun shell => .pure _) ?_
  cases Text.readNumeral 10 name with
  | some n => exact .store_bind fun s => .pure _
  | none => exact .throw _ _

omit h in
theorem lifts_sliceAll (offset : Int) (length : Option Int) :
    Lifts strict loose lost (Evaluators.sliceAll offset length)
      (Evaluators.sliceAll offset length) := by
  unfold Evaluators.sliceAll
  cases length with
  | none => exact .get_bind fun _ => .store_bind fun _ => .ite (.pure _) (.pure _)
  | some n =>
      exact .optional (.refuse _ _) fun _ => .get_bind fun _ => .store_bind fun _ =>
        .ite (.pure _) (.pure _)

theorem lifts_flagsOf? (written : String) :
    Lifts strict loose lost (Evaluators.flagsOf? written) (Evaluators.flagsOf? written) :=
  .ite (.bind (.query fun _ _ => Store.binding?_loosen h.referenceDepth) fun _ => .pure _)
    (.pure _)

theorem lifts_applyTransform (transform : Transform) (written value : String) :
    Lifts strict loose lost (Evaluators.applyTransform transform written value)
      (Evaluators.applyTransform transform written value) := by
  cases transform with
  | attributes => exact .bind (lifts_flagsOf? h written) fun _ => .pure _
  | assignment =>
      refine .bind (lifts_flagsOf? h written) fun flags => ?_
      cases flags <;> exact .pure _
  | _ => exact .pure _

end reading

end Eval

end ShellExpansion
