import ShellExpansion.Proofs.Eval.Indirect
import ShellExpansion.Proofs.Parameter.Key

/-! # Values that are joined to one word

An expansion of several values has two forms: with `@` each value is a word, and with `*` they are
joined to one word (`ListExpansion.form`).  Both forms do the same to the shell, one step after the
other, and differ only in what they make of the values at their end.  So the two are run side by
side (`Eval.Agree`), and their words are compared where both runs end
(`Evaluators.expandParameter_joined`). -/

namespace ShellExpansion

open Eval

/-- The text that joins several values: the first character of `IFS`, or nothing where it is empty,
and a space where it is unset.  Where `IFS` cannot be read at all, nothing can be joined. -/
def Shell.joiner (shell : Shell) : String :=
  match shell.store.get? "IFS" with
  | .ok (some text) => String.ofList (text.toList.take 1)
  | _ => " "

/-- The reading counts as missing; empty values do where they are checked for. -/
def Reading.isMissing (checkEmpty : Bool) (reading : Reading) : Bool :=
  reading.isUnset || (checkEmpty && reading.isNull)

/-- The word of the operator takes the place of what was read. -/
def MissingAction.usesWord (missing : Bool) : MissingAction → Bool
  | .alternative => !missing
  | _ => missing

/-- An expansion of several values: of the positional parameters or the elements of an array with an
operation on them, of the keys of an array, or of the names of variables. -/
inductive ListExpansion
  | positional (operation : Option Operation) (h : ∀ o ∈ operation, o.isOnValue = true)
  | elements (name : String) (operation : Option Operation) (hname : IsPlainName name)
    (h : ∀ o ∈ operation, o.isOnValue = true)
  | keys (name : String)
  | names (start : String)

namespace ListExpansion

/-- The sign of all values, each of them a word or all of them joined. -/
def sign (joined : Bool) : String := if joined then "*" else "@"

/-- The expansion in one of its two forms: with a word for each value, or with all of them joined.
An indirect expansion has no such forms; it is the one of the parameter that it names. -/
def form (joined : Bool) : ListExpansion → Parameter
  | positional operation _ => ⟨sign joined, none, false, operation⟩
  | elements name operation _ _ => ⟨name, some (sign joined), false, operation⟩
  | keys name => ⟨name, some (sign joined), false, some (.keys joined)⟩
  | names start => ⟨start, none, false, some (.names joined)⟩

end ListExpansion

namespace Eval

variable {α : Type} {shell shell' : Shell}

/-! ### Two evaluations side by side -/

/-- Where both evaluations succeed, they leave the same shell, in which their results are
related. -/
def Agree (shell : Shell) (R : Shell → α → α → Prop) (first other : Eval α) : Prop :=
  ∀ ⦃a after b after'⦄, first shell = (.ok a, after) → other shell = (.ok b, after') →
    after' = after ∧ R after a b

namespace Agree

variable {β : Type} {R : Shell → α → α → Prop} {first other : Eval α}

theorem pure {a b : α} (h : R shell a b) : Agree shell R (Pure.pure a) (Pure.pure b) := by
  intro a' after b' after' hfirst hother
  cases hfirst
  cases hother
  exact ⟨rfl, h⟩

theorem refuse (e : Error) (other : Eval α) : Agree shell R (Eval.refuse e) other := by
  intro a after b after' hfirst
  cases hfirst

/-- What both begin with is run once. -/
theorem bind (x : Eval β) {rest rest' : β → Eval α}
    (h : ∀ b between, x shell = (.ok b, between) → Agree between R (rest b) (rest' b)) :
    Agree shell R (x >>= rest) (x >>= rest') := by
  intro a after b after' hfirst hother
  obtain ⟨c, between, hx, hfirst⟩ := bind_eq_ok hfirst
  obtain ⟨c', between', hx', hother⟩ := bind_eq_ok hother
  rw [hx] at hx'
  cases hx'
  exact h c between hx hfirst hother

theorem ite {c : Prop} [Decidable c] {rest rest' : Eval α} (hthen : c → Agree shell R first other)
    (helse : ¬c → Agree shell R rest rest') :
    Agree shell R (if c then first else rest) (if c then other else rest') := by
  by_cases hc : c
  · rw [if_pos hc, if_pos hc]
    exact hthen hc
  · rw [if_neg hc, if_neg hc]
    exact helse hc

end Agree

/-! ### Words -/

/-- The words are the values joined to one, and are the values themselves under a condition. -/
structure Joins (alone : Prop) (shell : Shell) (values words : List String) : Prop where
  joined : words = [shell.joiner.intercalate values]
  same : alone → words = values

variable {alone : Prop}

/-- A single value is joined to nothing. -/
theorem Joins.singleton (shell : Shell) (word : String) : Joins alone shell [word] [word] :=
  ⟨by rw [String.intercalate_singleton], fun _ => rfl⟩

theorem agree_limited (text : String) : Agree shell (Joins alone) (do return [← limited text])
    (do return [← limited text]) :=
  .bind (limited text) fun word between _ => .pure (.singleton between word)

theorem limited_eq_ok {text word : String} (h : limited text shell = (.ok word, shell')) :
    word = text ∧ shell' = shell := by
  rw [limited_run] at h
  split_ifs at h
  · cases h
  · cases h
    exact ⟨rfl, rfl⟩

theorem mapM_limited_eq_ok {values words : List String}
    (h : values.mapM limited shell = (.ok words, shell')) : words = values ∧ shell' = shell := by
  induction values generalizing words with
  | nil =>
      rw [List.mapM_nil] at h
      cases h
      exact ⟨rfl, rfl⟩
  | cons value values ih =>
      rw [List.mapM_cons] at h
      obtain ⟨word, between, hword, hbehind⟩ := bind_eq_ok h
      obtain ⟨rest, between', hrest, hend⟩ := bind_eq_ok hbehind
      cases hend
      obtain ⟨rfl, rfl⟩ := limited_eq_ok hword
      obtain ⟨rfl, rfl⟩ := ih hrest
      exact ⟨rfl, rfl⟩

theorem separator_eq_ok {text : String} (h : separator shell = (.ok text, shell')) :
    text = shell.joiner ∧ shell' = shell := by
  obtain ⟨found, between, hquery, h⟩ := bind_eq_ok h
  rw [query_run] at hquery
  unfold Shell.joiner
  cases hfound : shell.store.get? "IFS" with
  | error e =>
      rw [hfound] at hquery
      cases hquery
  | ok value =>
      rw [hfound] at hquery
      cases hquery
      cases found <;> cases h <;> exact ⟨rfl, rfl⟩

/-- The same values as words of their own, and joined. -/
theorem agree_words (halone : ¬alone) (values : List String) :
    Agree shell (Joins alone) (words values false) (words values true) := by
  intro words after joined after' heach hjoined
  obtain ⟨rfl, rfl⟩ := mapM_limited_eq_ok heach
  obtain ⟨text, between, hseparator, hjoined⟩ := bind_eq_ok hjoined
  obtain ⟨rfl, rfl⟩ := separator_eq_ok hseparator
  obtain ⟨word, between', hword, hjoined⟩ := bind_eq_ok hjoined
  obtain ⟨rfl, rfl⟩ := limited_eq_ok hword
  cases hjoined
  exact ⟨rfl, rfl, fun h => absurd h halone⟩

end Eval

namespace Evaluators

variable {deeper : Evaluators} {shell shell' : Shell} {alone : Prop}

/-! ### Operations -/

/-- The word of an operator for missing values is given alike in both forms, where it is used. -/
theorem agree_applyMissing (action : MissingAction) (checkEmpty : Bool) (word : String)
    (values : List String) (each joined : String)
    (halone : alone → action.usesWord ((Reading.all values false).isMissing checkEmpty) = true) :
    Agree shell (Joins alone)
      (deeper.applyMissing action checkEmpty word ⟨each, .all values false⟩)
      (deeper.applyMissing action checkEmpty word ⟨joined, .all values true⟩) := by
  have hword : Agree shell (Joins alone) (do return [← limited (← deeper.word .text word)])
      (do return [← limited (← deeper.word .text word)]) :=
    .bind (deeper.word .text word) fun text between _ => agree_limited text
  have hcurrent (h : ¬alone) : Agree shell (Joins alone) (currentWords (.all values false))
      (currentWords (.all values true)) := agree_words h values
  cases action with
  | substitute => exact .ite (fun _ => hword) fun h => hcurrent (h ∘ halone)
  | assign => exact .ite (fun _ => .refuse _ _) fun h => hcurrent (h ∘ halone)
  | require =>
      exact .ite (fun _ => .bind (deeper.word .text word) fun text between _ => .refuse _ _)
        fun h => hcurrent (h ∘ halone)
  | alternative => exact .ite (fun _ => .pure (.singleton shell "")) fun _ => hword

/-- The texts name the same variable, or no variable at all. -/
def SameVariable (first other : String) : Prop :=
  (splitSubscript first).1 = (splitSubscript other).1 ∨
    isIdentifier (splitSubscript first).1 = false ∧ isIdentifier (splitSubscript other).1 = false

theorem flagsOf?_of_not_isIdentifier {written : String}
    (h : isIdentifier (splitSubscript written).1 = false) : flagsOf? written = pure none := by
  unfold flagsOf?
  dsimp only
  rw [h]
  rfl

theorem applyTransform_congr {first other : String} (h : SameVariable first other)
    (transform : Transform) (value : String) :
    applyTransform transform first value = applyTransform transform other value := by
  rcases h with hsame | ⟨hfirst, hother⟩
  · unfold applyTransform flagsOf?
    rw [hsame]
  · unfold applyTransform
    rw [flagsOf?_of_not_isIdentifier hfirst, flagsOf?_of_not_isIdentifier hother]
    simp only [pure_bind]

/-- What is done to a value depends on the variable that the expansion is of, not on its form. -/
theorem applyToText_congr {first other : String} (h : SameVariable first other)
    (operation : Option Operation) (value : String) :
    deeper.applyToText operation first value = deeper.applyToText operation other value := by
  unfold applyToText
  split
  case h_4 transform => exact applyTransform_congr h transform value
  all_goals rfl

/-- What a slice of several values selects. -/
def sliceOf (parameter : Parameter) (start : Int) (count : Option Int) : Eval (List String) :=
  if (parameter.name = "@" ∨ parameter.name = "*") ∧ !parameter.indirect then sliceAll start count
  else slice (splitSubscript parameter.written).1 start count

theorem sliceOf_bind (parameter : Parameter) (start : Int) (count : Option Int) (joined : Bool) :
    (sliceOf parameter start count >>= fun selected => words selected joined) = (do
      if (parameter.name = "@" ∨ parameter.name = "*") ∧ !parameter.indirect then
        words (← sliceAll start count) joined
      else words (← slice (splitSubscript parameter.written).1 start count) joined) := by
  unfold sliceOf
  split_ifs <;> rfl

/-- The offset and the length of a slice are evaluated alike in both forms. -/
theorem agree_applySubstring {each star : Parameter} (h : sliceOf each = sliceOf star)
    (halone : ¬alone) (offset : String) (length : Option String) (values : List String) :
    Agree shell (Joins alone)
      (deeper.applySubstring each offset length ⟨each.written, .all values false⟩)
      (deeper.applySubstring star offset length ⟨star.written, .all values true⟩) := by
  refine .bind (deeper.evaluate offset) fun start between _ => ?_
  have hcut (count : Option Int) (between : Shell) : Agree between (Joins alone)
      (sliceOf each start count >>= fun selected => words selected false)
      (sliceOf star start count >>= fun selected => words selected true) := by
    rw [h]
    exact .bind _ fun selected _ _ => agree_words halone selected
  simp only [sliceOf_bind] at hcut
  cases length with
  | none => exact .bind (pure none) fun count between _ => hcut count between
  | some text =>
      exact .bind (deeper.evaluate text) fun n _ _ =>
        .bind (pure (some n)) fun count between _ => hcut count between

/-! ### Expansions -/

/-- The expansion gives one word in both forms: the number of values, or the word of an operator
that is used in their place. -/
def givesOne (deeper : Evaluators) (parameter : Parameter) (shell : Shell) : Bool :=
  match parameter.operation with
  | some .length => true
  | some (.missing action checkEmpty _) =>
    match (deeper.reading parameter shell).1 with
    | .ok found => action.usesWord (found.reading.isMissing checkEmpty)
    | .error _ => false
  | _ => false

/-- An operation on the same values in both forms. -/
theorem agree_expandParameter (form : Bool → Parameter) {operation : Option Operation}
    {list : Eval (List String)} (hoperation : ∀ joined, (form joined).operation = operation)
    (hvalue : ∀ o ∈ operation, o.isOnValue = true)
    (hreading : ∀ joined, deeper.reading (form joined) =
      do return ⟨(form joined).written, .all (← list) joined⟩)
    (hvariable : SameVariable (form false).written (form true).written)
    (hslice : sliceOf (form false) = sliceOf (form true)) :
    Agree shell (Joins (deeper.givesOne (form false) shell = true))
      (deeper.expandParameter (form false)) (deeper.expandParameter (form true)) := by
  have hmapped (o : Option Operation) (halone : deeper.givesOne (form false) shell = false)
      (values : List String) (between : Shell) :
      Agree between (Joins (deeper.givesOne (form false) shell = true))
        (do words (← values.mapM (deeper.applyToText o (form false).written)) false)
        (do words (← values.mapM (deeper.applyToText o (form true).written)) true) := by
    have htexts : deeper.applyToText o (form false).written =
        deeper.applyToText o (form true).written := funext (applyToText_congr hvariable o)
    rw [htexts]
    exact .bind _ fun texts _ _ => agree_words (Bool.eq_false_iff.mp halone) texts
  unfold expandParameter
  rw [hoperation, hoperation, hreading, hreading]
  simp only [bind_assoc, pure_bind]
  cases operation with
  | none =>
      have halone : deeper.givesOne (form false) shell = false := by rw [givesOne, hoperation]
      exact .bind list fun values between _ => hmapped none halone values between
  | some o =>
      cases o with
      | names joined => exact absurd (hvalue _ rfl) Bool.false_ne_true
      | keys joined => exact absurd (hvalue _ rfl) Bool.false_ne_true
      | length => exact .bind list fun values between _ => .pure (.singleton between _)
      | missing action checkEmpty word =>
          refine .bind list fun values between hlist =>
            agree_applyMissing action checkEmpty word values _ _ fun halone => ?_
          rw [givesOne, hoperation, hreading] at halone
          dsimp only at halone
          rwa [bind_run_of_ok hlist] at halone
      | substring offset length =>
          have halone : deeper.givesOne (form false) shell = false := by rw [givesOne, hoperation]
          exact .bind list fun values between _ =>
            agree_applySubstring hslice (Bool.eq_false_iff.mp halone) offset length values
      | _ =>
          have halone : deeper.givesOne (form false) shell = false := by rw [givesOne, hoperation]
          exact .bind list fun values between _ => hmapped _ halone values between

/-- The positional parameters of the call that runs. -/
def positionals : Eval (List String) := return (← store).positional

theorem directReading_positional (deeper : Evaluators) (joined : Bool) :
    deeper.directReading (ListExpansion.sign joined) none =
      do return .all (← positionals) joined := by
  unfold directReading
  cases joined
  · rw [if_pos (.inl rfl)]
    rfl
  · rw [if_pos (.inr rfl)]
    rfl

theorem directReading_elements {name : String} (deeper : Evaluators) (joined : Bool)
    (hname : isIdentifier name = true) :
    deeper.directReading name (some (ListExpansion.sign joined)) =
      do return .all (← allValues name) joined := by
  rw [directReading_identifier deeper hname]
  cases joined <;> rfl

/-- What is read without indirection is read by the name and the subscript. -/
theorem reading_of_directReading {name : String} {subscript : Option String}
    {list : Eval (List String)} {joined : Bool} (operation : Option Operation)
    (h : deeper.directReading name subscript = do return .all (← list) joined) :
    deeper.reading ⟨name, subscript, false, operation⟩ =
      do return ⟨withSubscript name subscript, .all (← list) joined⟩ := by
  show (deeper.directReading name subscript >>= fun reading => pure _) = _
  rw [h, bind_assoc]
  rfl

theorem agree_forms (part : ListExpansion) :
    Agree shell (Joins (deeper.givesOne (part.form false) shell = true))
      (deeper.expandParameter (part.form false)) (deeper.expandParameter (part.form true)) := by
  cases part with
  | positional operation h =>
      have hreading (joined : Bool) := reading_of_directReading operation
        (directReading_positional deeper joined)
      have hnone : SameVariable "@" "*" := .inr ⟨by decide, by decide⟩
      have hslice : sliceOf ⟨"@", none, false, operation⟩ = sliceOf ⟨"*", none, false, operation⟩ :=
        rfl
      exact agree_expandParameter
        (fun joined => ⟨ListExpansion.sign joined, none, false, operation⟩)
        (fun _ => rfl) h hreading hnone hslice
  | elements name operation hname h =>
      have hreading (joined : Bool) := reading_of_directReading operation
        (directReading_elements deeper joined hname.identifier)
      have hwritten (joined : Bool) :
          (splitSubscript (withSubscript name (some (ListExpansion.sign joined)))).1 = name := by
        rw [splitSubscript_withSubscript hname]
      have hslice (joined : Bool) :
          sliceOf ⟨name, some (ListExpansion.sign joined), false, operation⟩ = slice name := by
        funext start count
        rw [sliceOf, if_neg fun h => (ne_special_of_isIdentifier hname.identifier).1 h.1]
        exact congrArg (slice · start count) (hwritten joined)
      exact agree_expandParameter
        (fun joined => ⟨name, some (ListExpansion.sign joined), false, operation⟩)
        (fun _ => rfl) h hreading (.inl ((hwritten false).trans (hwritten true).symm))
        ((hslice false).trans (hslice true).symm)
  | keys name =>
      exact .bind (allKeys name) fun keys _ _ => agree_words Bool.false_ne_true keys
  | names start =>
      exact .bind store fun s _ _ => agree_words Bool.false_ne_true _

/-- **What is joined are the words of the other form.**  If an expansion of several values succeeds
with `@` and with `*` on the same shell, then both leave the same shell, and with `*` there is one
word: the words of the form with `@`, joined by the first character of `IFS` in the shell that is
left.  A number of values, and the word of an operator that is used, are given alike by both. -/
theorem expandParameter_joined (part : ListExpansion) {after after' : Shell}
    {values words : List String}
    (heach : deeper.expandParameter (part.form false) shell = (.ok values, after))
    (hjoined : deeper.expandParameter (part.form true) shell = (.ok words, after')) :
    after' = after ∧ words = [after.joiner.intercalate values] ∧
      (deeper.givesOne (part.form false) shell = true → words = values) := by
  obtain ⟨hshell, hwords⟩ := agree_forms part heach hjoined
  exact ⟨hshell, hwords.joined, hwords.same⟩

/-- The replacement sets `IFS` when the first element is looked at. -/
theorem expandParameter_joined_setting :
    let elements := (IndexedArray.singleton "x").insert 3 "yx"
    let bindings (text : String) : Table Binding :=
      (Table.empty.insert "a" ⟨.indexed elements, .none, 0⟩).insert "IFS" ⟨.scalar text, .none, 0⟩
    let shell (text : String) : Shell :=
      ⟨⟨[⟨"f", [], Table.empty⟩], ⟨"global", [], bindings text⟩, .standard⟩, true, "script", 0⟩
    let operation : Operation := .replace .all "x" "<$\x7bIFS:=-+\x7d>"
    (evaluators 2).expandParameter ⟨"a", some "@", false, some operation⟩ (shell "") =
        (.ok ["<-+>", "y<-+>"], shell "-+") ∧
      (evaluators 2).expandParameter ⟨"a", some "*", false, some operation⟩ (shell "") =
        (.ok ["<-+>-y<-+>"], shell "-+") ∧
      ["<-+>-y<-+>"] = [(shell "-+").joiner.intercalate ["<-+>", "y<-+>"]] := by
  intro elements bindings shell operation
  have hname : IsPlainName "a" := ⟨by decide, by decide⟩
  have heach : (evaluators 2).expandParameter ⟨"a", some "@", false, some operation⟩ (shell "") =
      (.ok ["<-+>", "y<-+>"], shell "-+") := by
    show (_ : Except Fault (List String) × Shell) = _
    decide +kernel
  have hjoined : (evaluators 2).expandParameter ⟨"a", some "*", false, some operation⟩ (shell "") =
      (.ok ["<-+>-y<-+>"], shell "-+") := by
    show (_ : Except Fault (List String) × Shell) = _
    decide +kernel
  refine ⟨heach, hjoined, ?_⟩
  exact (expandParameter_joined (.elements "a" (some operation) hname (by rintro o ⟨⟩; rfl))
    heach hjoined).2.1

end Evaluators

end ShellExpansion
