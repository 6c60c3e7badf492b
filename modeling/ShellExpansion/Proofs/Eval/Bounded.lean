import Mathlib.Data.Nat.Digits.Defs
import ShellExpansion.Proofs.Eval.Entries
import ShellExpansion.Proofs.Eval.Writes
import ShellExpansion.Proofs.Store.Lasting

/-! # Words of bounded length

Evaluations never change the bound on the length of a result, so that a word that was compared with
it fits at the end of the expansion (`Eval.Gives`, `expandParameter_fits`).  Two results are given
without being compared: the number of characters or values, which fits unless it is beyond all
numbers that a machine counts to, and a part that is cut out of a single value. -/

namespace ShellExpansion

namespace Eval

variable {α β : Type} {limit : Int} {start : Shell → Prop} {p : α → Prop}

/-- What the evaluation gives in certain shells satisfies the predicate. -/
def Gives (start : Shell → Prop) (p : α → Prop) (action : Eval α) : Prop :=
  ∀ ⦃shell a shell'⦄, start shell → action shell = (.ok a, shell') → p a

/-- Results may have so many characters. -/
def Admits (limit : Int) (shell : Shell) : Prop := shell.store.limits.stringLength = limit

/-- The bound still holds behind an evaluation that only writes. -/
theorem Admits.of_run {x : Eval α} {shell between : Shell} {a : α} (h : Admits limit shell)
    (hwrites : OnlyWrites .nearest x) (hrun : x shell = (.ok a, between)) :
    Admits limit between := by
  rw [Admits, (hwrites.of_run hrun).store.sameFrames.limits]
  exact h

namespace Gives

theorem pure {a : α} (h : p a) : Gives start p (Pure.pure a) := by
  intro shell a' shell' _ hrun
  cases hrun
  exact h

theorem throw (fault : Fault) : Gives start p (MonadExcept.throw fault) := by
  intro shell a shell' _ hrun
  cases hrun

theorem refuse (e : Error) : Gives start p (Eval.refuse e) := throw (.error e)

theorem bind_at {shell : Shell} {x : Eval β} {rest : β → Eval α}
    (h : ∀ b between, x shell = (.ok b, between) → Gives (· = between) p (rest b)) :
    Gives (· = shell) p (x >>= rest) := by
  rintro _ a shell' rfl hrun
  obtain ⟨b, between, hfirst, hsecond⟩ := bind_eq_ok hrun
  exact h b between hfirst rfl hsecond

theorem bind {q : β → Prop} {x : Eval β} {rest : β → Eval α} (hwrites : OnlyWrites .nearest x)
    (hx : Gives (Admits limit) q x) (hrest : ∀ b, q b → Gives (Admits limit) p (rest b)) :
    Gives (Admits limit) p (x >>= rest) := by
  intro shell a shell' hlimit hrun
  obtain ⟨b, between, hfirst, hsecond⟩ := bind_eq_ok hrun
  exact hrest b (hx hlimit hfirst) (hlimit.of_run hwrites hfirst) hsecond

theorem behind {x : Eval β} {rest : β → Eval α} (hwrites : OnlyWrites .nearest x)
    (hrest : ∀ b, Gives (Admits limit) p (rest b)) : Gives (Admits limit) p (x >>= rest) :=
  have hany : Gives (Admits limit) (fun _ => True) x := fun _ _ _ _ _ => trivial
  bind hwrites hany fun b _ => hrest b

theorem ite {c : Prop} [Decidable c] {x y : Eval α} (hx : Gives start p x)
    (hy : Gives start p y) : Gives start p (if c then x else y) := by
  split
  · exact hx
  · exact hy

/-- What is known for all shells with a bound is known for one of them. -/
theorem mono {q : α → Prop} {shell : Shell} {action : Eval α} (h : Gives (Admits limit) p action)
    (hlimit : Admits limit shell) (hpq : ∀ a, p a → q a) : Gives (· = shell) q action := by
  rintro _ a shell' rfl hrun
  exact hpq a (h hlimit hrun)

end Gives

/-! ### Words that are compared with the bound -/

/-- All words have at most so many characters. -/
def AllFit (limit : Int) (words : List String) : Prop := ∀ word ∈ words, (word.length : Int) ≤ limit

/-- The words are a number that no machine counts to. -/
def IsHugeCount (words : List String) : Prop := ∃ n : Nat, 10 ^ 20 ≤ n ∧ words = [toString n]

theorem allFit_singleton {text : String} (h : (text.length : Int) ≤ limit) : AllFit limit [text] :=
  List.forall_mem_singleton.mpr h

theorem limited_fits (text : String) :
    Gives (Admits limit) (fun text => (text.length : Int) ≤ limit) (limited text) := by
  intro shell a shell' hlimit hrun
  unfold limited at hrun
  rw [limits_bind_run, show _ = limit from hlimit] at hrun
  split at hrun
  · cases hrun
  · next hfits =>
    cases hrun
    exact Int.not_lt.mp hfits

/-- A single word that is compared with the bound. -/
theorem limited_word_fits {x : Eval String} (hwrites : OnlyWrites .nearest x) :
    Gives (Admits limit) (AllFit limit) (do return [← limited (← x)]) :=
  .behind hwrites fun text =>
    .bind (respects_limited text) (limited_fits text) fun _ h => .pure (allFit_singleton h)

theorem mapM_limited_fits : ∀ values : List String,
    Gives (Admits limit) (AllFit limit) (values.mapM limited)
  | [] => by
      rw [List.mapM_nil]
      exact .pure fun _ hword => absurd hword List.not_mem_nil
  | value :: rest => by
      rw [List.mapM_cons]
      exact .bind (respects_limited value) (limited_fits value) fun word hword =>
        .bind (.mapM respects_limited rest) (mapM_limited_fits rest) fun words hwords =>
          .pure (List.forall_mem_cons.mpr ⟨hword, hwords⟩)

theorem words_fit (values : List String) (joined : Bool) :
    Gives (Admits limit) (AllFit limit) (words values joined) := by
  refine .ite ?_ (mapM_limited_fits values)
  exact .behind respects_separator fun separator =>
    .bind (respects_limited _) (limited_fits _) fun _ h => .pure (allFit_singleton h)

theorem currentWords_fit (reading : Reading) :
    Gives (Admits limit) (AllFit limit) (currentWords reading) := by
  cases reading with
  | one value =>
      exact .bind (respects_limited _) (limited_fits _) fun _ h => .pure (allFit_singleton h)
  | all values joined => exact words_fit values joined

end Eval

namespace Evaluators

open Eval

variable {deeper : Evaluators} (h : deeper.OnlyWrite) {limit : Int}

/-! ### Operations -/

include h

theorem applyMissing_fits (hlimit : 0 ≤ limit) (action : MissingAction) (checkEmpty : Bool)
    (word : String) (parameter : ReadParameter) :
    Gives (Admits limit) (AllFit limit) (deeper.applyMissing action checkEmpty word parameter) := by
  have hword : Gives (Admits limit) (AllFit limit)
      (do return [← limited (← deeper.word .text word)]) := limited_word_fits (h.word .text word)
  have hcurrent : Gives (Admits limit) (AllFit limit) (currentWords parameter.reading) :=
    currentWords_fit parameter.reading
  cases action with
  | substitute => exact .ite hword hcurrent
  | assign =>
      refine .ite ?_ hcurrent
      cases parameter.reading with
      | one value =>
          refine .ite ?_ (.refuse _)
          exact .behind (h.word .text word) fun value =>
            .behind (.discard (h.assign parameter.written value .nearest false)) fun _ =>
              .bind (respects_limited value) (limited_fits value) fun _ h =>
                .pure (allFit_singleton h)
      | all values joined => exact .refuse _
  | require =>
      exact .ite (.behind (h.word .text word) fun _ => .refuse _) hcurrent
  | alternative => exact .ite (.pure (allFit_singleton hlimit)) hword

/-- Values that are cut out of several are compared with the bound. -/
theorem applySubstring_fits (parameter : Parameter) (offset : String) (length : Option String)
    {found : ReadParameter} (hfound : ∀ value, found.reading ≠ .one value) :
    Gives (Admits limit) (AllFit limit) (deeper.applySubstring parameter offset length found) := by
  obtain ⟨written, reading⟩ := found
  cases reading with
  | one value => exact absurd rfl (hfound value)
  | all values joined =>
      have hselect (start : Int) (count : Option Int) : Gives (Admits limit) (AllFit limit)
          (if (parameter.name = "@" ∨ parameter.name = "*") ∧ !parameter.indirect then do
            words (← sliceAll start count) joined
          else do words (← slice (splitSubscript written).1 start count) joined) :=
        .ite (.behind (respects_sliceAll start count) fun values => words_fit values joined)
          (.behind (respects_slice _ start count) fun values => words_fit values joined)
      refine .behind (h.evaluate offset) fun start => ?_
      cases length with
      | none => exact .behind (.pure none) (hselect start)
      | some text =>
          exact .behind (h.evaluate text) fun n => .behind (.pure (some n)) (hselect start)

omit h in
theorem length_toString_le {n : Nat} (hn : n < 10 ^ 20) (hlimit : 20 ≤ limit) :
    ((toString n).length : Int) ≤ limit := by
  have hlength : (toString n).length ≤ 20 := Nat.repr_length n 20 (by decide) hn
  omega

omit h in
theorem count_fits (hlimit : 20 ≤ limit) (n : Nat) :
    AllFit limit [toString n] ∨ IsHugeCount [toString n] := by
  obtain hlt | hle := Nat.lt_or_ge n (10 ^ 20)
  · exact .inl (allFit_singleton (length_toString_le hlt hlimit))
  · exact .inr ⟨n, hle, rfl⟩

/-- **The words of an expansion have at most as many characters as a result may have**, apart from
the number of characters or elements, and from what is cut out of a single value. -/
theorem expandParameter_fits {parameter : Parameter} {shell : Shell} (hlimit : 20 ≤ limit)
    (hshell : Admits limit shell)
    (hcut : ∀ offset length, parameter.operation = some (.substring offset length) →
      ∀ found between, deeper.reading parameter shell = (.ok found, between) →
        ∀ value, found.reading ≠ .one value) :
    Gives (· = shell)
      (fun words => AllFit limit words ∨ parameter.operation = some .length ∧ IsHugeCount words)
      (deeper.expandParameter parameter) := by
  unfold Evaluators.expandParameter
  split
  · exact (Gives.behind .store fun _ => words_fit _ _).mono hshell fun _ => .inl
  · exact (Gives.behind (respects_allKeys _) fun _ => words_fit _ _).mono hshell fun _ => .inl
  · refine .bind_at fun found between hfound => ?_
    have hbetween := hshell.of_run (h.respectAll.reading parameter) hfound
    have hchecked {rest : Eval (List String)} (hrest : Gives (Admits limit) (AllFit limit) rest) :
        Gives (Admits limit) (AllFit limit) (do checkSet found; rest) :=
      .behind (respects_checkSet found) fun _ => hrest
    split
    · exact (applyMissing_fits h (by omega) _ _ _ found).mono hbetween fun _ => .inl
    · split
      · next hlength _ => exact .pure ((count_fits hlimit _).imp_right (.intro hlength))
      · next hlength _ =>
        exact .bind_at fun _ _ _ => .pure ((count_fits hlimit _).imp_right (.intro hlength))
      · next hsubstring =>
        have hseveral := hcut _ _ hsubstring found between hfound
        exact (hchecked (applySubstring_fits h parameter _ _ hseveral)).mono hbetween
          fun _ => .inl
      · exact (Gives.behind (.mapM (h.respectAll.applyToText _ found.written) _)
          fun _ => words_fit _ _).mono hbetween fun _ => .inl
      · exact (hchecked (.ite (.pure (allFit_singleton (by simp; omega)))
          (limited_word_fits (h.respectAll.applyToText _ found.written _)))).mono hbetween
            fun _ => .inl

end Evaluators

/-! ### A part of a single value -/

namespace Evaluators

open Eval

theorem expandParameter_substring {deeper : Evaluators} {parameter : Parameter} {offset : String}
    {length : Option String} {found : ReadParameter} {shell between : Shell}
    (hoperation : parameter.operation = some (.substring offset length))
    (hreading : deeper.reading parameter shell = (.ok found, between))
    (hset : checkSet found = pure ()) :
    deeper.expandParameter parameter shell =
      deeper.applySubstring parameter offset length found between := by
  obtain ⟨name, subscript, indirect, operation⟩ := parameter
  obtain rfl : operation = _ := hoperation
  show (do
    let found ← deeper.reading _
    checkSet found
    deeper.applySubstring _ offset length found) shell = _
  rw [bind_run_of_ok hreading, hset, pure_bind]

/-- **What stands behind so many characters of a single value is given whole**, whatever the bound
is. -/
theorem expandParameter_behind {parameter : Parameter} {value written : String} {n : Nat}
    {shell : Shell} (hoperation : parameter.operation = some (.substring (toString n) none))
    (hn : n < 2 ^ 63) {levels : Nat}
    (hreading : (evaluators (levels + 1)).reading parameter shell =
      (.ok ⟨written, .one (some value)⟩, shell)) :
    (evaluators (levels + 1)).expandParameter parameter shell =
      (.ok [String.ofList (value.toList.drop n)], shell) := by
  rw [expandParameter_substring hoperation hreading rfl, applySubstring, evaluate_toString hn]
  rfl

end Evaluators

end ShellExpansion
