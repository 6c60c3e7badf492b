import Mathlib.Data.List.Basic
import ShellExpansion.Eval.Selection
import ShellExpansion.Proofs.Eval.Running

/-! # Which bodies of a case statement run

The pattern words that a selection tests, with the patterns they are expanded to, decide which
bodies run (`Follows`): behind each body the text that ends its clause says whether the next one
runs unseen, the patterns of the later clauses are tested, or nothing runs any more.  A selection is
one of these, and the shell it leaves is the one that its tests leave, expanded in their order
(`selectBodies_follows`).  Pattern words that are not among the tests have no effect. -/

namespace ShellExpansion

/-- A pattern word that is tested, and the pattern that it is expanded to. -/
structure Test where
  word : String
  pattern : String
deriving DecidableEq, Repr

namespace Test

/-- The words are tested, and no pattern matches the text. -/
def Refuse (text : String) (words : List String) (tests : List Test) : Prop :=
  tests.map Test.word = words ∧ ∀ test ∈ tests, Glob.isMatch test.pattern text = false

/-- The word is one of the words, those before it being tested without a match. -/
def Reach (text : String) (words : List String) (tests : List Test) (word : String) : Prop :=
  ∃ before behind, words = before ++ word :: behind ∧ Refuse text before tests

variable {text word pattern : String} {words words' : List String} {tests tests' : List Test}

theorem Refuse.nil : Refuse text [] [] := ⟨rfl, fun _ hmem => absurd hmem List.not_mem_nil⟩

theorem Refuse.cons (h : Glob.isMatch pattern text = false) (hrest : Refuse text words tests) :
    Refuse text (word :: words) (⟨word, pattern⟩ :: tests) :=
  ⟨congrArg (List.cons word) hrest.1, List.forall_mem_cons.mpr ⟨h, hrest.2⟩⟩

theorem Refuse.append (h : Refuse text words tests) (h' : Refuse text words' tests') :
    Refuse text (words ++ words') (tests ++ tests') :=
  ⟨by rw [List.map_append, h.1, h'.1], List.forall_mem_append.mpr ⟨h.2, h'.2⟩⟩

theorem Reach.head : Reach text (word :: words) [] word := ⟨[], words, rfl, .nil⟩

theorem Reach.cons {first : String} (h : Glob.isMatch pattern text = false)
    (hrest : Reach text words tests word) :
    Reach text (first :: words) (⟨first, pattern⟩ :: tests) word := by
  obtain ⟨before, behind, rfl, hbefore⟩ := hrest
  exact ⟨first :: before, behind, rfl, hbefore.cons h⟩

end Test

namespace CaseClause

/-- The patterns of the clauses, in their order. -/
def allPatterns (clauses : List CaseClause) : List String := clauses.flatMap patterns

end CaseClause

/-- How a selection ends. -/
inductive Ending
  /-- No further body runs. -/
  | finished
  /-- Enough bodies were chosen. -/
  | taken
  /-- The pattern word cannot be expanded. -/
  | failing (word : String)
deriving DecidableEq, Repr

open Test (Refuse Reach)
open CaseClause (allPatterns)

/-- The bodies that run behind one that ends with the terminator, and the tests that choose them;
the clauses are those that are left, and the first of them has the given index.  A selection
starts as behind a body that ends with `;;&`. -/
inductive Follows (text : String) :
    String → ℕ → List CaseClause → List Test → List ℕ → Ending → Prop
  | stop {terminator : String} (hfall : terminator ≠ ";&") (hresume : terminator ≠ ";;&") (index : ℕ)
      (clauses : List CaseClause) : Follows text terminator index clauses [] [] .finished
  | fallOut {terminator : String} (hfall : terminator = ";&") (index : ℕ) :
      Follows text terminator index [] [] [] .finished
  /-- The next body runs, none of its patterns being tested. -/
  | fallInto {terminator : String} (hfall : terminator = ";&") {index : ℕ} {clause : CaseClause}
      {clauses : List CaseClause} {later : List Test} {indices : List ℕ} {ending : Ending}
      (hlater : Follows text clause.terminator.text (index + 1) clauses later indices ending) :
      Follows text terminator index (clause :: clauses) later (index :: indices) ending
  | unmatched {terminator : String} (hresume : terminator = ";;&") {index : ℕ}
      {clauses : List CaseClause} {tests : List Test}
      (hrefuse : Refuse text (allPatterns clauses) tests) :
      Follows text terminator index clauses tests [] .finished
  /-- The first clause with a pattern that matches is chosen; its later patterns are not tested. -/
  | matched {terminator : String} (hresume : terminator = ";;&") {index : ℕ} {clause : CaseClause}
      {skipped clauses : List CaseClause} {word pattern : String} {refused tests later : List Test}
      {indices : List ℕ} {ending : Ending} (hskipped : Refuse text (allPatterns skipped) refused)
      (hreach : Reach text clause.patterns tests word)
      (hmatch : Glob.isMatch pattern text = true)
      (hlater : Follows text clause.terminator.text (index + skipped.length + 1) clauses later
        indices ending) :
      Follows text terminator index (skipped ++ clause :: clauses)
        (refused ++ (tests ++ ⟨word, pattern⟩ :: later)) ((index + skipped.length) :: indices)
        ending
  | failing {terminator : String} (hresume : terminator = ";;&") {index : ℕ} {clause : CaseClause}
      {skipped clauses : List CaseClause} {word : String} {refused tests : List Test}
      (hskipped : Refuse text (allPatterns skipped) refused)
      (hreach : Reach text clause.patterns tests word) :
      Follows text terminator index (skipped ++ clause :: clauses) (refused ++ tests) []
        (.failing word)
  | taken (terminator : String) (index : ℕ) (clauses : List CaseClause) :
      Follows text terminator index clauses [] [] .taken

namespace Follows

variable {text terminator : String} {index : ℕ} {clause : CaseClause}
  {clauses : List CaseClause} {tests refused : List Test} {indices : List ℕ} {ending : Ending}

/-- A clause without a match is skipped. -/
theorem skip (hclause : Refuse text clause.patterns refused)
    (h : Follows text ";;&" (index + 1) clauses tests indices ending)
    (hending : ending = .taken → indices ≠ []) :
    Follows text ";;&" index (clause :: clauses) (refused ++ tests) indices ending := by
  cases h with
  | stop _ hresume => exact absurd rfl hresume
  | fallOut hfall => exact absurd hfall (by decide)
  | fallInto hfall => exact absurd hfall (by decide)
  | unmatched _ hrefuse => exact .unmatched rfl (hclause.append hrefuse)
  | @matched _ _ _ next skipped clauses word pattern before tests later indices _ hskipped hreach
      hmatch hlater =>
      have hall : Refuse text (allPatterns (clause :: skipped)) (refused ++ before) :=
        hclause.append hskipped
      have hindex : index + 1 + skipped.length = index + (clause :: skipped).length := by
        rw [List.length_cons]
        omega
      rw [hindex] at hlater ⊢
      rw [← List.append_assoc, ← List.cons_append]
      exact .matched rfl hall hreach hmatch hlater
  | @failing _ _ _ next skipped clauses word before tests hskipped hreach =>
      have hall : Refuse text (allPatterns (clause :: skipped)) (refused ++ before) :=
        hclause.append hskipped
      rw [← List.append_assoc, ← List.cons_append]
      exact .failing rfl hall hreach
  | taken => exact absurd rfl (hending rfl)

/-- The first clause that is left is chosen. -/
theorem choose {word pattern : String} {later : List Test}
    (hreach : Reach text clause.patterns tests word) (hmatch : Glob.isMatch pattern text = true)
    (hlater : Follows text clause.terminator.text (index + 1) clauses later indices ending) :
    Follows text ";;&" index (clause :: clauses) (tests ++ ⟨word, pattern⟩ :: later)
      (index :: indices) ending := by
  have hskipped : Refuse text (allPatterns []) [] := .nil
  exact .matched rfl hskipped hreach hmatch hlater

/-- A pattern of the first clause that is left cannot be expanded. -/
theorem failHere {word : String} (hreach : Reach text clause.patterns tests word) :
    Follows text ";;&" index (clause :: clauses) tests [] (.failing word) := by
  have hskipped : Refuse text (allPatterns []) [] := .nil
  exact .failing rfl hskipped hreach

/-- The indices are those of the clauses that are left. -/
theorem index_mem (h : Follows text terminator index clauses tests indices ending) :
    ∀ i ∈ indices, index ≤ i ∧ i < index + clauses.length := by
  induction h with
  | stop | fallOut | unmatched | failing | taken => exact fun _ hmem => absurd hmem List.not_mem_nil
  | fallInto _ _ ih =>
      intro i hi
      rw [List.length_cons]
      rcases List.mem_cons.mp hi with rfl | hi
      · omega
      · have := ih i hi
        omega
  | matched _ _ _ _ _ ih =>
      intro i hi
      rw [List.length_append, List.length_cons]
      rcases List.mem_cons.mp hi with rfl | hi
      · omega
      · have := ih i hi
        omega

theorem pairwise_lt (h : Follows text terminator index clauses tests indices ending) :
    indices.Pairwise (· < ·) := by
  induction h with
  | stop | fallOut | unmatched | failing | taken => exact .nil
  | fallInto _ hlater ih =>
      exact .cons (fun i hi => Nat.lt_of_succ_le (hlater.index_mem i hi).1) ih
  | matched _ _ _ _ hlater ih =>
      exact .cons (fun i hi => Nat.lt_of_succ_le (hlater.index_mem i hi).1) ih

end Follows

namespace Evaluators

variable {deeper : Evaluators} {text : String} {shell between after : Shell}
  {tests tests' : List Test} {word pattern : String} {words : List String}

/-- The pattern words are expanded one after the other, and their patterns are the ones given. -/
inductive Expands (deeper : Evaluators) : Shell → List Test → Shell → Prop
  | nil (shell : Shell) : Expands deeper shell [] shell
  | cons {shell between after : Shell} {word pattern : String} {tests : List Test}
      (hword : deeper.expandWord .pattern word shell = (.ok pattern, between))
      (hrest : Expands deeper between tests after) :
      Expands deeper shell (⟨word, pattern⟩ :: tests) after

theorem Expands.append (h : deeper.Expands shell tests between)
    (h' : deeper.Expands between tests' after) : deeper.Expands shell (tests ++ tests') after := by
  induction h with
  | nil => exact h'
  | cons hword _ ih => exact .cons hword (ih h')

theorem matchesAny_cons_run (word : String) (words : List String) (shell : Shell) :
    deeper.matchesAny text (word :: words) shell =
      match deeper.expandWord .pattern word shell with
      | (.ok pattern, after) =>
        if Glob.isMatch pattern text then (.ok true, after)
        else deeper.matchesAny text words after
      | (.error fault, after) => (.error fault, after) := by
  rw [matchesAny, matchesWord, Eval.bind_run, Eval.bind_run]
  cases deeper.expandWord .pattern word shell with
  | mk result after =>
      cases result with
      | error fault => rfl
      | ok pattern =>
          show (if Glob.isMatch pattern text = true then (pure true : Eval Bool)
              else deeper.matchesAny text words) after =
            if Glob.isMatch pattern text = true then (.ok true, after)
            else deeper.matchesAny text words after
          split <;> rfl

/-- What a clause's patterns give: all of them are refused, or one behind refused ones matches or
cannot be expanded. -/
inductive Tries (deeper : Evaluators) (text : String) :
    List String → Shell → Except Fault Bool × Shell → Prop
  | refused {words : List String} {shell after : Shell} {tests : List Test}
      (hrefuse : Refuse text words tests) (htests : deeper.Expands shell tests after) :
      Tries deeper text words shell (.ok false, after)
  | matched {words : List String} {word pattern : String} {shell between after : Shell}
      {tests : List Test} (hreach : Reach text words tests word)
      (htests : deeper.Expands shell tests between)
      (hword : deeper.expandWord .pattern word between = (.ok pattern, after))
      (hmatch : Glob.isMatch pattern text = true) : Tries deeper text words shell (.ok true, after)
  | failed {words : List String} {word : String} {shell between after : Shell}
      {tests : List Test} {fault : Fault} (hreach : Reach text words tests word)
      (htests : deeper.Expands shell tests between)
      (hword : deeper.expandWord .pattern word between = (.error fault, after)) :
      Tries deeper text words shell (.error fault, after)

theorem Tries.cons {run : Except Fault Bool × Shell}
    (hword : deeper.expandWord .pattern word shell = (.ok pattern, between))
    (hmatch : Glob.isMatch pattern text = false) (hrest : deeper.Tries text words between run) :
    deeper.Tries text (word :: words) shell run := by
  cases hrest with
  | refused hrefuse htests => exact .refused (hrefuse.cons hmatch) (.cons hword htests)
  | matched hreach htests hlast hlastMatch =>
      exact .matched (hreach.cons hmatch) (.cons hword htests) hlast hlastMatch
  | failed hreach htests hlast => exact .failed (hreach.cons hmatch) (.cons hword htests) hlast

theorem tries_matchesAny (words : List String) (shell : Shell) :
    deeper.Tries text words shell (deeper.matchesAny text words shell) := by
  induction words generalizing shell with
  | nil => exact .refused .nil (.nil shell)
  | cons word words ih =>
      rw [matchesAny_cons_run]
      cases hword : deeper.expandWord .pattern word shell with
      | mk result between =>
          cases result with
          | error fault => exact .failed .head (.nil shell) hword
          | ok pattern =>
              cases hmatch : Glob.isMatch pattern text with
              | true =>
                  simp only [hmatch, if_true]
                  exact .matched .head (.nil shell) hword hmatch
              | false =>
                  simp only [hmatch, Bool.false_eq_true, if_false]
                  exact .cons hword hmatch (ih between)

/-! ### The selection -/

/-- What a selection that ends this way gives: the indices, fewer than `count` unless these were
enough, and the shell that the tests leave; or the fault of the word that cannot be expanded. -/
def EndsAs (deeper : Evaluators) (count : Option ℕ) (indices : List ℕ) (between : Shell) :
    Ending → Except Fault (List ℕ) × Shell → Prop
  | .finished, run => run = (.ok indices, between) ∧ ∀ n ∈ count, 0 < n → indices.length < n
  | .taken, run => run = (.ok indices, between) ∧ count = some indices.length ∧ indices ≠ []
  | .failing word, run =>
    (∀ n ∈ count, 0 < n → indices.length < n) ∧
      ∃ fault after, deeper.expandWord .pattern word between = (.error fault, after) ∧
        run = (.error fault, after)

/-- The run goes on behind a body that ends with the terminator, `chosen` having been chosen
before. -/
def Selects (deeper : Evaluators) (text terminator : String) (index : ℕ)
    (clauses : List CaseClause) (count : Option ℕ) (chosen : List ℕ) (shell : Shell)
    (run : Except Fault (List ℕ) × Shell) : Prop :=
  ∃ tests indices ending between, Follows text terminator index clauses tests indices ending ∧
    deeper.Expands shell tests between ∧ deeper.EndsAs count (chosen ++ indices) between ending run

variable {count : Option ℕ} {index : ℕ} {indices : List ℕ} {ending : Ending} {clause : CaseClause}
  {clauses : List CaseClause} {terminator : String}

theorem lt_of_lt_pred (hcount : count ≠ some 1)
    (h : ∀ n ∈ count.map (· - 1), 0 < n → indices.length < n) :
    ∀ n ∈ count, 0 < n → (index :: indices).length < n := by
  rintro n rfl hpos
  have hone : n ≠ 1 := fun hn => hcount (congrArg some hn)
  have hlast := h (n - 1) rfl (by omega)
  rw [List.length_cons]
  omega

/-- One more index is given, and one more is counted. -/
theorem EndsAs.cons {rest : Eval (List ℕ)} (hcount : count ≠ some 1)
    (h : deeper.EndsAs (count.map (· - 1)) indices between ending (rest shell)) :
    deeper.EndsAs count (index :: indices) between ending
      ((do return index :: (← rest)) shell) := by
  cases ending with
  | finished =>
      obtain ⟨hrun, hfew⟩ := h
      exact ⟨Eval.bind_run_of_ok hrun, lt_of_lt_pred hcount hfew⟩
  | taken =>
      obtain ⟨hrun, hlength, hne⟩ := h
      refine ⟨Eval.bind_run_of_ok hrun, ?_, List.cons_ne_nil index indices⟩
      obtain ⟨n, rfl, hn⟩ := Option.map_eq_some_iff.mp hlength
      have hpos := List.length_pos_iff.mpr hne
      rw [List.length_cons]
      exact congrArg some (by omega)
  | failing word =>
      obtain ⟨hfew, fault, after, hword, hrun⟩ := h
      exact ⟨lt_of_lt_pred hcount hfew, fault, after, hword, Eval.bind_run_of_error hrun⟩

/-- The selection behind a body that ends with the terminator. -/
def selectBehind (deeper : Evaluators) (text : String) (index : ℕ) (count : Option ℕ)
    (clauses : List CaseClause) (terminator : String) : Eval (List ℕ) :=
  if terminator = ";&" then deeper.selectFrom text index true count clauses
  else if terminator = ";;&" then deeper.selectFrom text index false count clauses
  else pure []

/-- The selection from a body on that runs. -/
def selectBody (deeper : Evaluators) (text : String) (index : ℕ) (count : Option ℕ)
    (clauses : List CaseClause) (terminator : String) : Eval (List ℕ) :=
  if count = some 1 then return [index]
  else return index ::
    (← deeper.selectBehind text (index + 1) (count.map (· - 1)) clauses terminator)

theorem selectFrom_falling (shell : Shell) :
    deeper.selectFrom text index true count (clause :: clauses) shell =
      deeper.selectBody text index count clauses clause.terminator.text shell := by
  rw [selectFrom, if_pos rfl, pure_bind, selectBody, selectBehind]
  dsimp only
  rw [if_pos rfl]
  split_ifs <;> rfl

theorem selectFrom_testing (shell : Shell) :
    deeper.selectFrom text index false count (clause :: clauses) shell =
      match deeper.matchesAny text clause.patterns shell with
      | (.ok true, after) =>
        deeper.selectBody text index count clauses clause.terminator.text after
      | (.ok false, after) => deeper.selectFrom text (index + 1) false count clauses after
      | (.error fault, after) => (.error fault, after) := by
  show (deeper.matchesAny text clause.patterns >>= fun chosen => _) shell = _
  rw [Eval.bind_run]
  cases deeper.matchesAny text clause.patterns shell with
  | mk result after =>
      cases result with
      | error fault => rfl
      | ok chosen =>
          cases chosen with
          | false => rfl
          | true =>
              show _ = deeper.selectBody text index count clauses clause.terminator.text after
              rw [selectBody, selectBehind]
              split_ifs <;> rfl

theorem selects_selectBehind
    (hrest : ∀ (falling : Bool) (count : Option ℕ) (shell : Shell),
      deeper.Selects text (if falling then ";&" else ";;&") index clauses count [] shell
        (deeper.selectFrom text index falling count clauses shell))
    (terminator : String) (count : Option ℕ) (shell : Shell) :
    deeper.Selects text terminator index clauses count [] shell
      (deeper.selectBehind text index count clauses terminator shell) := by
  unfold selectBehind
  split_ifs with hfall hresume
  · exact hfall ▸ hrest true count shell
  · exact hresume ▸ hrest false count shell
  · exact ⟨[], [], .finished, shell, .stop hfall hresume index clauses, .nil shell, rfl,
      fun _ _ hpos => hpos⟩

theorem selects_selectBody
    (hrest : ∀ (falling : Bool) (count : Option ℕ) (shell : Shell),
      deeper.Selects text (if falling then ";&" else ";;&") (index + 1) clauses count [] shell
        (deeper.selectFrom text (index + 1) falling count clauses shell))
    (terminator : String) (count : Option ℕ) (shell : Shell) :
    deeper.Selects text terminator (index + 1) clauses count [index] shell
      (deeper.selectBody text index count clauses terminator shell) := by
  rw [selectBody]
  split
  · next hcount =>
      exact ⟨[], [], .taken, shell, .taken terminator (index + 1) clauses, .nil shell, rfl, hcount,
        List.cons_ne_nil index []⟩
  · next hcount =>
      obtain ⟨tests, indices, ending, between, hfollows, htests, hgives⟩ :=
        selects_selectBehind hrest terminator (count.map (· - 1)) shell
      exact ⟨tests, indices, ending, between, hfollows, htests, hgives.cons hcount⟩

/-- What a selection chooses follows from its tests, clause by clause. -/
theorem selects_selectFrom (clauses : List CaseClause) (index : ℕ) (falling : Bool)
    (count : Option ℕ) (shell : Shell) :
    deeper.Selects text (if falling then ";&" else ";;&") index clauses count [] shell
      (deeper.selectFrom text index falling count clauses shell) := by
  induction clauses generalizing index falling count shell with
  | nil =>
      have hrun : deeper.EndsAs count [] shell .finished
          (deeper.selectFrom text index falling count [] shell) := ⟨rfl, fun _ _ hpos => hpos⟩
      cases falling with
      | true => exact ⟨[], [], .finished, shell, .fallOut rfl index, .nil shell, hrun⟩
      | false => exact ⟨[], [], .finished, shell, .unmatched rfl .nil, .nil shell, hrun⟩
  | cons clause clauses ih =>
      have hbody := selects_selectBody (ih (index + 1)) clause.terminator.text count
      cases falling with
      | true =>
          rw [selectFrom_falling]
          obtain ⟨tests, indices, ending, between, hfollows, htests, hgives⟩ := hbody shell
          exact ⟨tests, index :: indices, ending, between, .fallInto rfl hfollows, htests, hgives⟩
      | false =>
          rw [selectFrom_testing]
          have htries : deeper.Tries text clause.patterns shell _ :=
            tries_matchesAny clause.patterns shell
          generalize deeper.matchesAny text clause.patterns shell = run at htries
          cases htries with
          | @refused _ after refused hrefuse hrefused =>
              obtain ⟨tests, indices, ending, between, hfollows, htests, hgives⟩ :=
                ih (index + 1) false count after
              refine ⟨refused ++ tests, indices, ending, between, hfollows.skip hrefuse ?_,
                hrefused.append htests, hgives⟩
              rintro rfl
              exact hgives.2.2
          | @matched word pattern _ _ after tests hreach htests hword hmatch =>
              obtain ⟨later, indices, ending, between, hfollows, hlater, hgives⟩ := hbody after
              exact ⟨tests ++ ⟨word, pattern⟩ :: later, index :: indices, ending, between,
                hfollows.choose hreach hmatch, htests.append (.cons hword hlater), hgives⟩
          | @failed word _ between after tests fault hreach htests hword =>
              exact ⟨tests, [], .failing word, between, .failHere hreach, htests,
                fun _ _ hpos => hpos, fault, after, hword, rfl⟩

/-- **The bodies that a case statement runs follow from the terminators and the tests.**  The word
is expanded once.  If it can be, the indices go up, each of them following from the one before as
its terminator says, and the shell that is left is the one that the tests leave; a pattern word that
cannot be expanded ends the selection with its fault. -/
theorem selectBodies_follows (deeper : Evaluators) (word : String) (clauses : List CaseClause)
    (count : Option ℕ) (shell : Shell) :
    match deeper.expandWord .text word shell with
    | (.error fault, after) =>
      deeper.selectBodies word clauses count shell = (.error fault, after)
    | (.ok text, begun) => ∃ tests indices ending between,
      Follows text ";;&" 0 clauses tests indices ending ∧
      indices.Pairwise (· < ·) ∧ (∀ index ∈ indices, index < clauses.length) ∧
      deeper.Expands begun tests between ∧
      deeper.EndsAs count indices between ending (deeper.selectBodies word clauses count shell) := by
  have hrun := Eval.bind_run (deeper.expandWord .text word)
    (fun text => deeper.selectFrom text 0 false count clauses) shell
  cases hword : deeper.expandWord .text word shell with
  | mk result begun =>
      rw [hword] at hrun
      cases result with
      | error fault => exact hrun
      | ok text =>
          have hselects : deeper.Selects text ";;&" 0 clauses count [] begun _ :=
            selects_selectFrom clauses 0 false count begun
          obtain ⟨tests, indices, ending, between, hfollows, htests, hgives⟩ := hselects
          refine ⟨tests, indices, ending, between, hfollows, hfollows.pairwise_lt, ?_, htests, ?_⟩
          · intro index hindex
            have hbound := (hfollows.index_mem index hindex).2
            rwa [Nat.zero_add] at hbound
          · rw [selectBodies, hrun]
            exact hgives

end Evaluators

end ShellExpansion
