import ShellExpansion.Proofs.Eval.Bounded
import ShellExpansion.Proofs.Session.Guards
import ShellExpansion.Proofs.Session.Listing

/-! # Expansions of bounded length

The expansion of a lone parameter gives no word that is longer than a result may be.  Where it would
give one under another bound, it fails, and names the length and the bound (`run_expand_fits`).  One
operation forgets the bound: what is cut out of a single value is given at any length
(`expand_substring_tooLong`). -/

namespace ShellExpansion.Action

open Eval

/-- The evaluation ended with a text that was too long for the bound. -/
def IsTooLong (limit : Int) (fault : Fault) : Prop :=
  ∃ size : Nat, limit < size ∧ fault = .error (.limit (.stringLength size limit))

/-- **The expansion of a lone parameter stays within the bound**: its words fit, and where words
that are given under another bound do not, it fails because a text is too long.  A count of
characters or elements would have to be beyond all numbers that machines count to, and what is cut
out of a single value is left out here. -/
theorem run_expand_fits {text : String} {parameter : Parameter} {shell : Shell}
    (htext : Evaluators.loneParameter? text = some (.ok parameter))
    (hlimit : 20 ≤ shell.store.limits.stringLength)
    (hcut : ∀ offset length, parameter.operation = some (.substring offset length) →
      ∀ found between, (evaluators shell.store.limits.nesting).reading parameter shell =
        (.ok found, between) → ∀ value, found.reading ≠ .one value) :
    let limit := shell.store.limits.stringLength
    let Fits (words : List String) : Prop :=
      AllFit limit words ∨ parameter.operation = some .length ∧ IsHugeCount words
    (∀ words shell', (Action.expand text).run shell = (.ok (.texts words), shell') → Fits words) ∧
      ∀ other words shell',
        (Action.expand text).run (shell.under
          ⟨shell.nounset, { shell.store.limits with stringLength := other }⟩) =
            (.ok (.texts words), shell') → ¬Fits words →
        ∃ fault, ((Action.expand text).run shell).1 = .error fault ∧ IsTooLong limit fault := by
  intro limit Fits
  have hfits (words : List String) (shell' : Shell)
      (hrun : (Action.expand text).run shell = (.ok (.texts words), shell')) : Fits words := by
    rw [run_expand, Evaluators.expand, htext] at hrun
    obtain ⟨words', between, hexpand, hreply⟩ := bind_eq_ok hrun
    cases hreply
    exact Evaluators.expandParameter_fits (evaluators_onlyWrite _) hlimit rfl hcut rfl hexpand
  refine ⟨hfits, fun other words shell' hrun hlong => ?_⟩
  have hguards : Guards.WithinUpTo (IsTooLong limit)
      ⟨shell.nounset, { shell.store.limits with stringLength := other }⟩ shell.guards :=
    ⟨id, Int.le_refl _, Int.le_refl _, fun size hsize _ => ⟨size, hsize, rfl⟩⟩
  obtain ⟨bare, -, hsame | hlost⟩ := run_lifts rfl hguards shell _ shell' hrun
  · exact absurd (hfits words _ hsame) hlong
  · exact hlost

/-- A single element of an array, cut out of the list of elements, is longer than a result may
be. -/
theorem run_expand_fits_elements :
    let text := "$\x7ba[@]:0\x7d"
    let bindings := Table.empty.insert "a"
      ⟨.indexed (IndexedArray.singleton "abcdefghijklmnopqrstu"), .none, 0⟩
    let limits : Limits := ⟨0, 1, 0, 20⟩
    let shell : Shell := ⟨⟨[], ⟨"global", [], bindings⟩, limits⟩, false, "script", 0⟩
    let parameter : Parameter := ⟨"a", some "@", false, some (.substring "0" none)⟩
    let found : ReadParameter := ⟨"a[@]", .all ["abcdefghijklmnopqrstu"] false⟩
    Evaluators.loneParameter? text = some (.ok parameter) ∧
      20 ≤ shell.store.limits.stringLength ∧
      (evaluators shell.store.limits.nesting).reading parameter shell = (.ok found, shell) ∧
      ∃ fault, ((Action.expand text).run shell).1 = .error fault ∧ IsTooLong 20 fault := by
  intro text bindings limits shell parameter found
  have htext : Evaluators.loneParameter? text = some (.ok parameter) := by decide +kernel
  have hlimit : 20 ≤ shell.store.limits.stringLength := by decide
  let read (shell : Shell) : Except Fault ReadParameter × Shell :=
    (evaluators shell.store.limits.nesting).reading parameter shell
  have hreading : read shell = (.ok found, shell) := by decide +kernel
  have hfits := run_expand_fits htext hlimit (by
    intro offset length _ found' between hrun value
    obtain ⟨hfound, rfl⟩ := Prod.mk.inj (hreading.symm.trans hrun)
    obtain rfl := Except.ok.inj hfound
    exact nofun)
  let loose := shell.under ⟨shell.nounset, { limits with stringLength := 21 }⟩
  have hrun : (Action.expand text).run loose =
      (.ok (.texts ["abcdefghijklmnopqrstu"]), loose) := by
    have hloose : read loose = (.ok found, loose) := by decide +kernel
    have hzero : (evaluators loose.store.limits.nesting).evaluate "0" = pure 0 :=
      Evaluators.evaluate_toString (by decide : 0 < 2 ^ 63) _
    refine run_expand_of_loneParameter? htext ?_
    rw [Evaluators.expandParameter_substring rfl hloose rfl, Evaluators.applySubstring, hzero]
    show @Eq (Except Fault (List String) × Shell) _ _
    decide +kernel
  refine ⟨htext, hlimit, hreading, hfits.2 21 _ loose hrun ?_⟩
  rintro (hfit | ⟨hlength, -⟩)
  · exact absurd (hfit _ (List.mem_singleton_self _)) (by decide)
  · cases hlength

/-- A part that is cut out of a single value is given whole, however long it is. -/
theorem expand_substring_tooLong :
    let text := "$\x7bx:0\x7d"
    let bindings := Table.empty.insert "x" ⟨.scalar "abcdefghijklmnopqrstu", .none, 0⟩
    let limits : Limits := ⟨0, 1, 0, 20⟩
    let shell : Shell := ⟨⟨[], ⟨"global", [], bindings⟩, limits⟩, false, "script", 0⟩
    Evaluators.loneParameter? text =
        some (.ok ⟨"x", none, false, some (.substring "0" none)⟩) ∧
      (Action.expand text).run shell = (.ok (.texts ["abcdefghijklmnopqrstu"]), shell) ∧
      shell.store.limits.stringLength < "abcdefghijklmnopqrstu".length := by
  intro text bindings limits shell
  have htext : Evaluators.loneParameter? text =
      some (.ok ⟨"x", none, false, some (.substring (toString 0) none)⟩) := by decide +kernel
  let read : Except Fault ReadParameter × Shell :=
    (evaluators shell.store.limits.nesting).reading
      ⟨"x", none, false, some (.substring (toString 0) none)⟩ shell
  have hreading : read = (.ok ⟨"x", .one (some "abcdefghijklmnopqrstu")⟩, shell) := by
    decide +kernel
  have hzero : 0 < 2 ^ 63 := by decide
  exact ⟨htext, run_expand_of_loneParameter? htext
    (Evaluators.expandParameter_behind rfl hzero hreading), by decide⟩

end ShellExpansion.Action
