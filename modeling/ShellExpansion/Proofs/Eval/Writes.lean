import ShellExpansion.Proofs.Eval.Evaluators
import ShellExpansion.Proofs.Store.Writes

/-! # Evaluations only write

Whatever is expanded or evaluated, and whether it succeeds or fails, the shell afterwards differs
from the one before by a sequence of writes to its store (`Eval.OnlyWrites`).  What an evaluation
writes by itself goes to the nearest bindings of names, and this on every nesting level
(`evaluators_onlyWrite`). -/

namespace ShellExpansion

/-- The second shell is the first one after writes to its store. -/
structure Shell.Writes (scope : Scope) (shell shell' : Shell) : Prop where
  store : Store.Writes scope shell.store shell'.store
  nounset : shell'.nounset = shell.nounset
  scriptName : shell'.scriptName = shell.scriptName
  arithDepth : shell'.arithDepth = shell.arithDepth

namespace Shell.Writes

variable {scope : Scope} {shell shell' shell'' : Shell}

theorem of_store {store : Store} (h : Store.Writes scope shell.store store) :
    Writes scope shell { shell with store := store } :=
  ⟨h, rfl, rfl, rfl⟩

theorem trans (h : Writes scope shell shell') (h' : Writes scope shell' shell'') :
    Writes scope shell shell'' :=
  ⟨h.store.trans h'.store, h'.nounset.trans h.nounset, h'.scriptName.trans h.scriptName,
    h'.arithDepth.trans h.arithDepth⟩

instance : IsPreorder Shell (Writes scope) where
  refl shell := of_store (refl shell.store)
  trans _ _ _ := trans

theorem of_nearest (h : Writes .nearest shell shell') : Writes scope shell shell' :=
  ⟨h.store.of_nearest, h.nounset, h.scriptName, h.arithDepth⟩

end Shell.Writes

/-- The binding at a place can be written, in an evaluation that writes to the scope. -/
structure Shell.Ready (scope : Scope) (place : Store.Place) (b : Binding) (shell : Shell) :
    Prop where
  scope : place.scope = .nearest ∨ place.scope = scope
  at? : shell.store.at? place = some b
  readonly : b.attributes.readonly = false

namespace Shell.Ready

variable {scope : Scope} {place : Store.Place} {b : Binding} {shell shell' : Shell}

theorem of_prepare {name : String} {store : Store}
    (h : shell.store.prepare name scope = .ok (place, store)) :
    ∃ b, Ready scope place b { shell with store := store } := by
  obtain ⟨b, hat, hreadonly⟩ := Store.exists_at?_of_prepare h
  exact ⟨b, Store.scope_of_place (Store.prepare_spec h).1, hat, hreadonly⟩

/-- What is ready is still ready after writes to the nearest bindings of names. -/
theorem after (h : Ready scope place b shell) (hwrites : Shell.Writes .nearest shell shell') :
    ∃ b', Ready scope place b' shell' ∧ b.value.Becomes b'.value := by
  obtain ⟨b', hat, hattributes, hvalue⟩ := hwrites.store.exists_at? h.at?
  exact ⟨b', ⟨h.scope, hat, by rw [hattributes, h.readonly]⟩, hvalue⟩

theorem put (h : Ready scope place b shell) {value : Value} (generation : Nat)
    (hvalue : b.value.Becomes value) (htarget : b.value.KeepsTarget value) :
    Shell.Writes scope shell
      { shell with store := shell.store.put place ⟨value, b.attributes, generation⟩ } :=
  .of_store (.of_write (.update generation h.at? h.readonly hvalue fun _ => htarget) h.scope)

theorem of_put (h : Ready scope place b shell) (value : Value) (generation : Nat) :
    Ready scope place ⟨value, b.attributes, generation⟩
      { shell with store := shell.store.put place ⟨value, b.attributes, generation⟩ } :=
  ⟨h.scope, Store.at?_put .., h.readonly⟩

end Shell.Ready

namespace Eval

variable {α : Type} {scope : Scope}

/-- The evaluation does nothing to the shell but writes to its store. -/
abbrev OnlyWrites (scope : Scope) (action : Eval α) : Prop := Respects (Shell.Writes scope) action

namespace OnlyWrites

theorem of_nearest {action : Eval α} (h : OnlyWrites .nearest action) : OnlyWrites scope action :=
  h.mono fun _ _ => Shell.Writes.of_nearest

theorem change {f : Store → Except Error (α × Store)}
    (h : ∀ s a s', f s = .ok (a, s') → s.Writes scope s') : OnlyWrites scope (Eval.change f) :=
  Respects.change fun shell a _ hf => .of_store (h shell.store a _ hf)

theorem oneDeeper {action : Eval α} (h : OnlyWrites scope action) :
    OnlyWrites scope (Eval.oneDeeper action) := by
  intro shell
  have hdeeper := h { shell with arithDepth := shell.arithDepth + 1 }
  refine ⟨hdeeper.store, hdeeper.nounset, hdeeper.scriptName, ?_⟩
  show (action { shell with arithDepth := shell.arithDepth + 1 }).2.arithDepth - 1 = _
  rw [hdeeper.arithDepth]
  exact Nat.add_sub_cancel shell.arithDepth 1

end OnlyWrites

/-! ### Places that are ready -/

section ready

variable {β : Type} {place : Store.Place} {b : Binding} {shell : Shell}

/-- What is done behind the preparation of a place begins with the place being ready. -/
theorem onlyWrites_prepare_bind {name : String} {rest : Store.Place → Eval β}
    (h : ∀ shell place b, shell.Ready scope place b →
      Shell.Writes scope shell (rest place shell).2) :
    OnlyWrites scope (Eval.change (·.prepare name scope) >>= rest) := by
  intro shell
  refine respects_bind_at (OnlyWrites.change (fun s place s' => Store.prepare_writes) shell)
    fun place shell' hprepare => ?_
  obtain ⟨store, hstore, rfl⟩ := change_eq_ok hprepare
  obtain ⟨b, hready⟩ := Shell.Ready.of_prepare hstore
  exact h _ place b hready

/-- What is done behind writes to the nearest bindings of names finds the place still ready. -/
theorem writes_bind_of_ready {action : Eval α} {rest : α → Eval β}
    (hready : shell.Ready scope place b) (haction : OnlyWrites .nearest action)
    (h : ∀ a shell' b', Shell.Ready scope place b' shell' → b.value.Becomes b'.value →
      Shell.Writes scope shell' (rest a shell').2) :
    Shell.Writes scope shell ((action >>= rest) shell).2 := by
  refine respects_bind_at (haction shell).of_nearest fun a shell' heq => ?_
  obtain ⟨b', hready', hvalue⟩ := hready.after (haction.of_run heq)
  exact h a shell' b' hready' hvalue

end ready

end Eval

/-! ### Elements -/

/-- The evaluators do nothing but write to the nearest bindings of names. -/
abbrev Evaluators.OnlyWrite (deeper : Evaluators) : Prop := deeper.Respect (Shell.Writes .nearest)

namespace Evaluators

open Eval

section ready

variable {scope : Scope} {place : Store.Place} {b : Binding} {shell : Shell}

theorem putElement_writes (hready : shell.Ready scope place b) (begun : Binding)
    {update : Value → Value} (hupdate : b.value.Becomes (update b.value))
    (htarget : b.value.KeepsTarget (update b.value)) :
    Shell.Writes scope shell (putElement place begun update shell).2 := by
  unfold putElement
  rw [store_bind_run, Store.get_of_at? hready.at?]
  split
  · rw [store_bind_run, Store.putValue, Store.get_of_at? hready.at?]
    exact hready.put b.generation hupdate htarget
  · exact refl shell

theorem putArray_writes (hready : shell.Ready scope place b) {value : Value}
    (hvalue : b.value.Becomes value) (harray : value.isReference = false) :
    Shell.Writes scope shell (putArray place value shell).2 := by
  unfold putArray
  rw [store_bind_run, store_bind_run, Store.get_of_at? hready.at?]
  exact hready.put (b.generation + 1) hvalue (.of_becomes hvalue harray)

end ready

namespace OnlyWrite

variable {deeper : Evaluators} (h : deeper.OnlyWrite)

include h

theorem setElement (name : String) (key : Key) (value : String) (append : Bool) (scope : Scope) :
    OnlyWrites scope (deeper.setElement name key value append scope) := by
  refine onlyWrites_prepare_bind fun shell place b hready => ?_
  rw [store_bind_run, Store.get_of_at? hready.at?]
  cases hvalue : b.value with
  | reference target => exact Respects.refuse _ shell
  | associative elements =>
      refine writes_bind_of_ready hready (respects_textOf key) fun selected _ b' hready' _ => ?_
      refine writes_bind_of_ready hready' (h.stored _ _ _) fun text shell' b' hready' _ => ?_
      exact respects_bind_at (putElement_writes hready' b (.insertKey ..) (.insertKey _ _ _))
        fun _ _ _ => refl _
  | _ =>
      refine writes_bind_of_ready hready (respects_indexOf key)
        fun n shell₁ b₁ hready₁ hvalue₁ => ?_
      cases n with
      | negSucc n => exact Respects.refuseShowing _ _ shell₁
      | ofNat n =>
          -- The array is written before the element's text is evaluated, and the evaluation may
          -- write to the same binding: what holds of it is carried on from `b` to `b₁` to `b₃`.
          have hkind : b.value.kind? = none ∨ b.value.kind? = some .indexed := by
            rw [hvalue]
            simp [Value.kind?]
          dsimp only
          rw [store_bind_run, Store.putValue, Store.get_of_at? hready₁.at?]
          have harray := Value.Becomes.indexed (hvalue₁.kind? hkind) (sliceable b.value)
          rw [hvalue] at harray
          refine respects_bind_at (hready₁.put _ harray (.of_becomes harray rfl))
            fun _ shell₂ heq => ?_
          cases heq
          refine writes_bind_of_ready (hready₁.of_put _ _) (h.stored _ _ _)
            fun text shell₃ b₃ hready₃ _ => ?_
          exact respects_bind_at
            (putElement_writes hready₃ b (.insertIndex ..) (.insertIndex _ _ _)) fun _ _ _ => refl _

theorem assignLiteral (name : String) (literal : ArrayLiteral) (scope : Scope) (append : Bool) :
    OnlyWrites scope (deeper.assignLiteral name literal scope append) := by
  refine onlyWrites_prepare_bind fun shell place b hready => ?_
  rw [store_bind_run, Store.get_of_at? hready.at?]
  cases hvalue : b.value with
  | reference target => exact Respects.refuse _ shell
  | associative old =>
      -- The pairs are evaluated before the array is put, so the binding it is put over is `b₂`.
      refine writes_bind_of_ready hready .query fun pairs shell₁ b₁ hready₁ hvalue₁ => ?_
      refine writes_bind_of_ready hready₁ (h.insertPairs _ _ _)
        fun elements shell₂ b₂ hready₂ hvalue₂ => ?_
      have hold := hvalue₁.trans hvalue₂
      rw [hvalue] at hold
      exact respects_bind_at (putArray_writes hready₂ (hold.of_associative elements) rfl)
        fun _ _ _ => refl _
  | _ =>
      have hkind : b.value.kind? = none ∨ b.value.kind? = some .indexed := by
        rw [hvalue]
        simp [Value.kind?]
      refine writes_bind_of_ready hready (h.insertItems _ _ _ _ _)
        fun elements shell₁ b₁ hready₁ hvalue₁ => ?_
      exact respects_bind_at
        (putArray_writes hready₁ (.indexed (hvalue₁.kind? hkind) elements) rfl) fun _ _ _ => refl _

theorem appendLiteral (name : String) (values : List String) (overrides : Table String) :
    OnlyWrites .nearest (deeper.appendLiteral name values overrides) :=
  h.assignLiteral _ _ _ _

theorem assign (target value : String) (scope : Scope) (append : Bool) :
    OnlyWrites scope (deeper.assign target value scope append) := by
  have hassign (text : String) (append : Bool) :
      OnlyWrites scope (Eval.change (·.assign target text scope append)) :=
    .change fun _ _ _ => Store.assign_writes
  have hprepare : OnlyWrites scope (Eval.change (·.prepare target scope)) :=
    .change fun _ _ _ => Store.prepare_writes
  unfold Evaluators.assign
  cases splitSubscript target with
  | mk name subscript =>
      cases subscript with
      | some subscript =>
          exact .bind (OnlyWrites.of_nearest (h.elementKey name subscript)) fun key =>
            h.setElement name key value append scope
      | none =>
          refine .ite (h.assignLiteral _ _ _ _)
            (.bind hprepare fun place => .bind .store fun s => ?_)
          refine .ite (hassign value false) (.ite ?_ (hassign value append))
          exact .bind (OnlyWrites.of_nearest (h.stored true value _)) fun text => hassign text false

/-- So do all evaluations that are made of them. -/
theorem respectAll : deeper.RespectAll (Shell.Writes .nearest) where
  toRespect := h
  writeCell {source t c shell shell'} n _ := by
    have hwrite : OnlyWrites .nearest (deeper.writeCell n c) := by
      match c with
      | .variable name => exact .discard (OnlyWrites.change fun _ _ _ => Store.assign_writes)
      | .element array key => exact .discard (h.setElement array key (toString n) false .nearest)
    exact hwrite shell'
  assign target value := h.assign target value .nearest false

end OnlyWrite

end Evaluators

/-- **Evaluations only write**, on every nesting level. -/
theorem evaluators_onlyWrite : ∀ levels, (evaluators levels).OnlyWrite
  | 0 => ⟨fun _ _ => .throw _, fun _ _ => .throw _, Eval.OnlyWrites.oneDeeper⟩
  | levels + 1 =>
      have hall := (evaluators_onlyWrite levels).respectAll
      ⟨hall.expandWord, hall.expr, Eval.OnlyWrites.oneDeeper⟩

end ShellExpansion
