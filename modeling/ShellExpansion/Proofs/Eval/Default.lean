import ShellExpansion.Proofs.Eval.Indirect
import ShellExpansion.Proofs.Eval.Writes
import ShellExpansion.Proofs.Store.Lasting

/-! # Defaults that are assigned

The operators `=` and `:=` expand a default for a variable that is missing, assign it to the
variable and give it as the result.  What is assigned is what is given
(`Evaluators.expandParameter_assigned`), although the expansion of the default may write to the
variable itself.  The one exception is a default that looks like an array literal: it is given as
text, but assigned as an array (`Evaluators.expandParameter_assigned_literal`). -/

namespace ShellExpansion

open Eval

variable {name text word : String} {shell shell' : Shell}

namespace Evaluators

variable {deeper : Evaluators} {found : Option Binding}

/-- What is assigned to a variable without the integer attribute is the text that it reads as. -/
theorem assign_eq_ok {place : Store.Place} (hname : isIdentifier name = true)
    (hliteral : ArrayLiteral.isLiteral text = false)
    (hresolve : shell.store.resolve name = .ok (name, found))
    (hplain : ∀ b ∈ found, b.value.isReference = false ∧ b.attributes.integer = false)
    (h : deeper.assign name text .nearest false shell = (.ok place, shell')) :
    shell'.store.get? name = .ok (some text) := by
  unfold assign at h
  rw [splitSubscript_of_isIdentifier hname] at h
  dsimp only at h
  rw [if_neg (by rw [hliteral]; decide)] at h
  obtain ⟨place', between, hprepare, h⟩ := bind_eq_ok h
  obtain ⟨prepared, hprepared, rfl⟩ := change_eq_ok hprepare
  obtain ⟨rfl, hget, hresolve'⟩ := Store.prepare_of_resolve hresolve hprepared
  obtain ⟨hvalue, hinteger⟩ : (found.getD .unset).value.isReference = false ∧
      (found.getD .unset).attributes.integer = false :=
    Store.getD_unset_of_forall hplain ⟨rfl, rfl⟩
  rw [store_bind_run] at h
  dsimp only at h
  rw [hget, if_neg (by rw [hvalue]; decide), if_neg (by rw [hinteger]; decide)] at h
  obtain ⟨store, hassign, rfl⟩ := change_eq_ok h
  exact Store.get?_of_assign hresolve' (by rintro b ⟨⟩; exact hvalue) hassign

/-- A default that is assigned is what the word gives, and is short enough for a result. -/
theorem applyMissing_assign_eq_ok {value : Option String} {checkEmpty : Bool}
    (hname : isIdentifier name = true)
    (hmissing : value = none ∨ checkEmpty = true ∧ value = some "")
    (h : deeper.applyMissing .assign checkEmpty word ⟨name, .one value⟩ shell =
      (.ok [text], shell')) :
    ∃ between place, deeper.word .text word shell = (.ok text, between) ∧
      deeper.assign name text .nearest false between = (.ok place, shell') ∧
      (text.length : Int) ≤ shell'.store.limits.stringLength := by
  have hassigns : ((Reading.one value).isUnset ||
      (checkEmpty && (Reading.one value).isNull)) = true := by
    rcases hmissing with rfl | ⟨rfl, rfl⟩ <;> rfl
  unfold applyMissing at h
  dsimp only at h
  rw [if_pos hassigns, splitSubscript_of_isIdentifier hname, if_pos hname] at h
  obtain ⟨default, between, hword, h⟩ := bind_eq_ok h
  obtain ⟨done, last, hassign, h⟩ := bind_eq_ok h
  obtain ⟨place, hassign⟩ := discard_eq_ok hassign
  rw [bind_run, limited_run] at h
  split_ifs at h with hlong
  · cases h
  · cases h
    exact ⟨between, place, hword, hassign, Int.not_lt.mp hlong⟩

/-- **An assigned default is what the expansion gives.**  Let a name lead to itself, where it is
bound to nothing or to a variable without the integer attribute that is no reference, and let it
be missing: it reads as nothing, or as the empty text where this counts as missing too.  If the
expansion with a default that is assigned succeeds, and the text that it gives does not look like an
array literal, then the name reads as this text afterwards, and its expansion gives it again. -/
theorem expandParameter_assigned {levels : Nat} {checkEmpty : Bool}
    (hname : isIdentifier name = true) (hresolve : shell.store.resolve name = .ok (name, found))
    (hplain : ∀ b ∈ found, b.value.isReference = false ∧ b.attributes.integer = false)
    (hmissing : found.bind (·.value.scalar?) = none ∨
      checkEmpty = true ∧ found.bind (·.value.scalar?) = some "")
    (h : (evaluators levels).expandParameter
      ⟨name, none, false, some (.missing .assign checkEmpty word)⟩ shell = (.ok [text], shell'))
    (hliteral : ArrayLiteral.isLiteral text = false) :
    shell'.store.get? name = .ok (some text) ∧
      (evaluators levels).expandParameter (Parameter.ofName name) shell' =
        (.ok [text], shell') := by
  have hread := Store.get?_of_resolve hresolve
  unfold expandParameter at h
  dsimp only at h
  rw [bind_run_of_ok (reading_variable _ hname hread _)] at h
  obtain ⟨between, place, hword, hassign, hlength⟩ := applyMissing_assign_eq_ok hname hmissing h
  -- The word is expanded first, and may itself write to the variable, but leaves it as plain.
  have hwrites : shell.Writes .nearest between := by
    have hrespects := (evaluators_onlyWrite levels).word .text word shell
    rwa [hword] at hrespects
  obtain ⟨found', hresolve', hrewritten⟩ :=
    hwrites.store.resolve_rewritten hresolve fun b hb => (hplain b hb).1
  have hplain' : ∀ b ∈ found', b.value.isReference = false ∧ b.attributes.integer = false := by
    intro b hb
    rw [(hrewritten b hb).attributes, (hrewritten b hb).value.isReference]
    exact Store.getD_unset_of_forall hplain ⟨rfl, rfl⟩
  have hget := assign_eq_ok hname hliteral hresolve' hplain' hassign
  exact ⟨hget, expandParameter_of_reading rfl (reading_variable _ hname hget none) (fun _ => rfl)
    hlength⟩

/-- The default assigns to the variable before the variable is assigned to, in a call and where
unset parameters are errors. -/
theorem expandParameter_assigned_twice :
    let bindings (text : String) : Table Binding :=
      Table.empty.insert "n" ⟨.scalar text, ⟨false, false, true⟩, 0⟩
    let shell (text : String) : Shell :=
      ⟨⟨[⟨"f", [], bindings text⟩], ⟨"global", [], Table.empty⟩, .standard⟩, true, "script", 0⟩
    let word := "\"(\"$\x7bn:=x\x7d"
    isIdentifier "n" = true ∧
      (shell "").store.resolve "n" = .ok ("n", some ⟨.scalar "", ⟨false, false, true⟩, 0⟩) ∧
      (evaluators 2).expandParameter ⟨"n", none, false, some (.missing .assign true word)⟩
        (shell "") = (.ok ["(x"], shell "(x") ∧
      ArrayLiteral.isLiteral "(x" = false ∧
      (evaluators 2).expandParameter (Parameter.ofName "n") (shell "(x") =
        (.ok ["(x"], shell "(x") := by
  intro bindings shell word
  have hname : isIdentifier "n" = true := by decide
  have hresolve : (shell "").store.resolve "n" =
      .ok ("n", some ⟨.scalar "", ⟨false, false, true⟩, 0⟩) := by decide
  have hrun : (evaluators 2).expandParameter
      ⟨"n", none, false, some (.missing .assign true word)⟩ (shell "") =
        (.ok ["(x"], shell "(x") := by
    show (_ : Except Fault (List String) × Shell) = _
    decide +kernel
  have hliteral : ArrayLiteral.isLiteral "(x" = false := by decide
  exact ⟨hname, hresolve, hrun, hliteral, (expandParameter_assigned hname hresolve
    (by rintro b ⟨⟩; exact ⟨rfl, rfl⟩) (.inr ⟨rfl, rfl⟩) hrun hliteral).2⟩

/-- **A default that looks like a literal** is given as text, and assigned as an array. -/
theorem expandParameter_assigned_literal :
    let shell (bindings : Table Binding) : Shell :=
      ⟨⟨[], ⟨"global", [], bindings⟩, .standard⟩, false, "script", 0⟩
    ∃ shell', (evaluators 2).expandParameter
        ⟨"n", none, false, some (.missing .assign true "(a b)")⟩ (shell Table.empty) =
          (.ok ["(a b)"], shell') ∧
      shell'.store.get? "n" = .ok (some "a") ∧
      (evaluators 2).expandParameter (Parameter.ofName "n") shell' = (.ok ["a"], shell') := by
  intro shell
  let elements := (IndexedArray.empty.insert 0 "a").insert 1 "b"
  refine ⟨shell (Table.empty.insert "n" ⟨.indexed elements, .none, 1⟩), ?_, by decide, ?_⟩
  all_goals
    show (_ : Except Fault (List String) × Shell) = _
    decide +kernel

end Evaluators

end ShellExpansion
