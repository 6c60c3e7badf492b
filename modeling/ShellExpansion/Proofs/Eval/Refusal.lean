import ShellExpansion.Eval.Word
import ShellExpansion.Proofs.Arith.RoundTrip
import ShellExpansion.Proofs.Eval.Reading
import ShellExpansion.Proofs.Store.Pointing

/-! # Writes to arrays that are refused

What an element or a literal leaves of the shell when it is not written.  Values of variables with
the integer attribute and subscripts are evaluated, and what these evaluations write stays written.
Beyond that a literal leaves nothing behind: it is worked out before the array is touched, so that
the shell is the one that its evaluations leave, up to the one that fails
(`Evaluators.assignLiteral_refused`).  An element leaves more, since its place is made ready first
(`Evaluators.setElement_refused`): a name that was unbound stays bound when the index is negative,
and a variable with the integer attribute that is no array has become one when its value is
evaluated (`Evaluators.setElement_leaves_binding`). -/

namespace ShellExpansion

open Eval

/-- The element at a key; a variable that is no array counts as one with its value at index zero. -/
def Value.element? (value : Value) (key : Key) : Option String :=
  match value with
  | .associative elements =>
    match key.toText with
    | .ok text => elements.get? text
    | .error _ => none
  | value =>
    match key.toIndex with
    | .ok (.ofNat n) => (sliceable value).get? n
    | _ => none

theorem Value.element?_of_index {value : Value} {key : Key} {n : Nat}
    (hkind : value.kind? = none ∨ value.kind? = some .indexed)
    (hindex : key.toIndex = .ok (.ofNat n)) : value.element? key = (sliceable value).get? n := by
  cases value with
  | associative elements => simp [kind?] at hkind
  | _ => simp only [element?, hindex]

theorem Value.element?_of_text {elements : Table String} {key : Key} {text : String}
    (hselected : key.toText = .ok text) :
    (Value.associative elements).element? key = elements.get? text := by
  rw [element?, hselected]

/-- The shell in which the value of an element is evaluated: a variable that was no array is one. -/
def Shell.opened (shell : Shell) (place : Store.Place) (b : Binding) : Shell :=
  match b.value.kind? with
  | none => { shell with store := shell.store.putValue place (.indexed (sliceable b.value)) }
  | some _ => shell

/-- A key that is no number is refused without an error text. -/
theorem Key.toIndex_ne_error (key : Key) (e : Error) : key.toIndex ≠ .error (.error e) := by
  unfold toIndex
  split
  · split <;> exact nofun
  · exact nofun

/-- So is a key that is too long to be written. -/
theorem Key.toText_ne_error (key : Key) (e : Error) : key.toText ≠ .error (.error e) := by
  unfold toText checkWritable
  split
  · exact nofun
  · split <;> exact nofun

namespace Evaluators

variable {deeper : Evaluators} {name value : String} {key : Key} {append : Bool} {scope : Scope}
  {place : Store.Place} {b : Binding} {fault : Fault} {shell shell' : Shell}

/-! ### Values of variables with the integer attribute -/

/-- The integer that a text stands for where the integer attribute asks for one; a blank text stands
for zero. -/
def integerOf (deeper : Evaluators) (value : String) : Eval Int :=
  if Text.allBlank value then pure 0 else deeper.evaluate value

/-- With the integer attribute the sum of two integers is stored: of the value, and of what it is
appended to. -/
theorem stored_integer (deeper : Evaluators) (value : String) (old : Option String) :
    deeper.stored true value old = (do
      let n ← deeper.integerOf value
      let m ← deeper.valueOf "" old
      return toString (n + m)) := by
  unfold stored integerOf
  rw [if_pos rfl]
  split_ifs
  all_goals
    cases old with
    | none => simp only [valueOf, pure_bind, Int.add_zero]
    | some text => rfl

/-- Without the integer attribute there is nothing to evaluate. -/
theorem stored_plain (deeper : Evaluators) (value : String) (old : Option String) :
    deeper.stored false value old = pure (old.getD "" ++ value) := rfl

/-- The evaluation of a value fails; or that of the text that the value is appended to does, behind
the value. -/
def AdditionFails (deeper : Evaluators) (value : String) (old : Option String) (fault : Fault)
    (shell shell' : Shell) : Prop :=
  deeper.integerOf value shell = (.error fault, shell') ∨
    ∃ n between text, deeper.integerOf value shell = (.ok n, between) ∧ old = some text ∧
      deeper.valueOf "" (some text) between = (.error fault, shell')

theorem stored_eq_error {integer : Bool} {old : Option String}
    (h : deeper.stored integer value old shell = (.error fault, shell')) :
    integer = true ∧ deeper.AdditionFails value old fault shell shell' := by
  cases integer with
  | false =>
      rw [stored_plain] at h
      cases h
  | true =>
      refine ⟨rfl, ?_⟩
      rw [stored_integer] at h
      obtain hvalue | ⟨n, between, hvalue, h⟩ := bind_eq_error h
      · exact .inl hvalue
      · obtain hold | ⟨m, last, -, h⟩ := bind_eq_error h
        · cases old with
          | none => cases hold
          | some text => exact .inr ⟨n, between, text, hvalue, rfl, hold⟩
        · cases h

/-! ### Elements -/

theorem opened_of_array {kind : Attribute} (hkind : b.value.kind? = some kind) (shell : Shell)
    (place : Store.Place) : shell.opened place b = shell := by
  unfold Shell.opened
  rw [hkind]

/-- An indexed array is written as it is before the value of an element is evaluated. -/
theorem opened_eq (hat : shell.store.at? place = some b)
    (hkind : b.value.kind? = none ∨ b.value.kind? = some .indexed) :
    { shell with store := shell.store.putValue place (.indexed (sliceable b.value)) } =
      shell.opened place b := by
  rcases hkind with hkind | hkind
  · unfold Shell.opened
    rw [hkind]
  · rw [opened_of_array hkind, Store.putValue, Store.get_of_at? hat]
    obtain ⟨value, attributes, generation⟩ := b
    cases value with
    | indexed elements => exact congrArg ({ shell with store := · }) (Store.put_of_at? hat)
    | _ => cases hkind

/-- Nothing is refused any more once the text of an element is worked out. -/
theorem putElement_ne_error {begun : Binding} {update : Value → Value} :
    (do putElement place begun update; return place : Eval Store.Place) shell ≠
      (.error fault, shell') := by
  rw [bind_run, putElement, store_bind_run]
  split_ifs <;> exact nofun

/-- What is refused when an element of an indexed array is written: the index, or the value where
the variable has the integer attribute. -/
theorem setIndexed_eq_error {e : Error} (hat : shell.store.at? place = some b)
    (hkind : b.value.kind? = none ∨ b.value.kind? = some .indexed)
    (h : (do
      match ← indexOf key with
      | .negSucc n => refuseShowing (.negSucc n) (.negativeIndex place.name (.negSucc n))
      | .ofNat n =>
        setStore ((← store).putValue place (.indexed (sliceable b.value)))
        let text ← deeper.stored b.attributes.integer value
          (if append then (sliceable b.value).get? n else none)
        putElement place b (·.insertIndex n text)
        return place : Eval Store.Place) shell = (.error (.error e), shell')) :
    (∃ n, key.toIndex = .ok (.negSucc n)) ∧ shell' = shell ∨
      b.attributes.integer = true ∧
        deeper.AdditionFails value (if append then b.value.element? key else none) (.error e)
          (shell.opened place b) shell' := by
  rw [bind_run, indexOf_run] at h
  cases hindex : key.toIndex with
  | error fault =>
      rw [hindex] at h
      cases h
      exact absurd hindex (key.toIndex_ne_error e)
  | ok index =>
      rw [hindex] at h
      cases index with
      | negSucc n =>
          obtain ⟨-, rfl⟩ := refuseShowing_eq_error h
          exact .inl ⟨⟨n, rfl⟩, rfl⟩
      | ofNat n =>
          dsimp only at h
          rw [store_bind_run] at h
          obtain hset | ⟨done, last, hset, h⟩ := bind_eq_error h
          · cases hset
          cases hset
          obtain hstored | ⟨text, between, -, h⟩ := bind_eq_error h
          · rw [Value.element?_of_index hkind hindex, ← opened_eq hat hkind]
            exact .inr (stored_eq_error hstored)
          · exact absurd h putElement_ne_error

/-- What is refused behind the preparation of a place: a reference, a negative index, or a value
where the variable has the integer attribute. -/
theorem setElement_eq_error {e : Error}
    (h : deeper.setElement name key value append scope shell = (.error (.error e), shell')) :
    shell' = shell ∨ ∃ place prepared b, shell.store.prepare name scope = .ok (place, prepared) ∧
      prepared.at? place = some b ∧
      ((b.value.isReference = true ∨ ∃ n, key.toIndex = .ok (.negSucc n)) ∧
          shell' = { shell with store := prepared } ∨
        b.attributes.integer = true ∧
          deeper.AdditionFails value (if append then b.value.element? key else none) (.error e)
            (({ shell with store := prepared } : Shell).opened place b) shell') := by
  obtain hprepare | ⟨place, between, hprepare, h⟩ := bind_eq_error h
  · obtain ⟨-, -, -, rfl⟩ := change_eq_error hprepare
    exact .inl rfl
  obtain ⟨prepared, hprepared, rfl⟩ := change_eq_ok hprepare
  obtain ⟨b, hat, -⟩ := Store.exists_at?_of_prepare hprepared
  refine .inr ⟨place, prepared, b, hprepared, hat, ?_⟩
  rw [store_bind_run, Store.get_of_at? hat] at h
  cases hvalue : b.value with
  | reference target =>
      rw [hvalue] at h
      cases h
      exact .inl ⟨.inl rfl, rfl⟩
  | associative elements =>
      rw [hvalue] at h
      have hkind : b.value.kind? = some .associative := by
        rw [hvalue]
        rfl
      rw [opened_of_array hkind]
      obtain hkey | ⟨selected, between, hkey, h⟩ := bind_eq_error h
      · rw [textOf_run] at hkey
        exact absurd (Prod.mk.inj hkey).1 (key.toText_ne_error e)
      rw [textOf_run] at hkey
      obtain ⟨hselected, rfl⟩ := Prod.mk.inj hkey
      obtain hstored | ⟨text, between, -, h⟩ := bind_eq_error h
      · rw [Value.element?_of_text hselected]
        exact .inr (stored_eq_error hstored)
      · exact absurd h putElement_ne_error
  | _ =>
      have hkind : b.value.kind? = none ∨ b.value.kind? = some .indexed := by
        rw [hvalue]
        simp [Value.kind?]
      have hrefused := setIndexed_eq_error hat hkind (by rw [hvalue] at h ⊢; exact h)
      rw [← hvalue]
      exact hrefused.imp (And.imp .inr id) id

/-- **What an element leaves behind when it is refused**: nothing, or what the evaluation leaves
that failed, of its value for a variable with the integer attribute and, behind it, of the text that
the value is appended to.  Only two writes are made before: an unbound name is bound although the
index is negative, and a variable without an array is made one (`Shell.opened`) before the integer
attribute has its value evaluated. -/
theorem setElement_refused {e : Error}
    (h : deeper.setElement name key value append scope shell = (.error (.error e), shell')) :
    shell' = shell ∨ ∃ place, shell.store.place name scope = .ok place ∧
      ((shell.store.at? place = none ∧ (∃ n, key.toIndex = .ok (.negSucc n)) ∧
          shell' = { shell with store := shell.store.put place .unset }) ∨
        ∃ b, shell.store.at? place = some b ∧ b.attributes.integer = true ∧
          deeper.AdditionFails value (if append then b.value.element? key else none) (.error e)
            (shell.opened place b) shell') := by
  obtain hsame | ⟨place, prepared, b, hprepared, hat, hrefused⟩ := setElement_eq_error h
  · exact .inl hsame
  obtain ⟨hplace, ⟨-, -, -, rfl⟩ | ⟨hnone, -, rfl⟩⟩ := Store.prepare_spec hprepared
  · rcases hrefused with ⟨-, hsame⟩ | hrefused
    · exact .inl hsame
    · exact .inr ⟨place, hplace, .inr ⟨b, hat, hrefused⟩⟩
  · -- What was just bound is no reference and has no attributes.
    rw [Store.at?_put] at hat
    cases hat
    rcases hrefused with ⟨hreference | hnegative, hput⟩ | ⟨hinteger, -⟩
    · cases hreference
    · exact .inr ⟨place, hplace, .inl ⟨hnone, hnegative, hput⟩⟩
    · cases hinteger

/-- An assignment with a division by zero behind it. -/
theorem parse_division : Arith.parse "b = 2 , 1 / 0" =
    .ok (.binary .comma (.assign none (.variable "b") (.number 2))
      (.binary .div (.number 1) (.number 0))) := by
  let division : Arith.Expr := .binary .div (.number 1) (.number 0)
  let whole : Arith.Expr := .binary .comma (.assign none (.variable "b") (.number 2)) division
  have hname : Arith.IsName "b" := ⟨'b', [], by decide, by decide, fun d hd => by cases hd⟩
  have hlayered : whole.Layered := by
    simp only [whole, division, Arith.Expr.Layered, Arith.Target.Layered, Arith.BinaryOp.Takes,
      Arith.Expr.layer]
    decide
  have hone : (0 : Int) ≤ 1 := by decide
  have htwo : (0 : Int) ≤ 2 := by decide
  have hprint : whole.print = "b = 2 , 1 / 0" := by decide +kernel
  rw [← hprint]
  exact Arith.parseNested_print _ whole hlayered ⟨⟨hname, htwo⟩, hone, le_refl _⟩ (by decide)
    (Nat.lt_succ_self _)

/-- The value of an element writes to a variable and is a division by zero then: the variable keeps
what it was given, and the array is as it was. -/
theorem setElement_refused_division :
    let shell (bindings : Table Binding) : Shell :=
      ⟨⟨[], ⟨"global", [], bindings⟩, .standard⟩, false, "script", 0⟩
    let bindings : Table Binding := Table.empty.insert "a"
      ⟨.indexed (IndexedArray.singleton "1"), ⟨true, false, false⟩, 0⟩
    let before := shell bindings
    let after := shell (bindings.insert "b" ⟨.scalar "2", .none, 0⟩)
    let fault : Fault := .error (.arithmetic "b = 2 , 1 / 0" .divisionByZero)
    (evaluators 2).setElement "a" (.index 1) "b = 2 , 1 / 0" false .nearest before =
        (.error fault, after) ∧
      (evaluators 2).integerOf "b = 2 , 1 / 0" before = (.error fault, after) := by
  intro shell bindings before after fault
  have hrun : (evaluators 2).setElement "a" (.index 1) "b = 2 , 1 / 0" false .nearest before =
      (.error fault, after) := by
    simp only [setElement, stored, evaluate, parse_division]
    show (_ : Except Fault Store.Place × Shell) = _
    decide +kernel
  refine ⟨hrun, ?_⟩
  have hat : before.store.at? ⟨.nearest, "a"⟩ =
      some ⟨.indexed (IndexedArray.singleton "1"), ⟨true, false, false⟩, 0⟩ := by decide
  obtain hsame | ⟨place, hplace, hleft⟩ := setElement_refused hrun
  · exact absurd hsame (by decide)
  obtain rfl : (⟨.nearest, "a"⟩ : Store.Place) = place := Except.ok.inj hplace
  obtain ⟨hnone, -⟩ | ⟨b, hat', -, hvalue | ⟨-, -, text, -, hold, -⟩⟩ := hleft
  · rw [hat] at hnone
    cases hnone
  · rw [hat] at hat'
    cases hat'
    exact hvalue
  · cases hold

/-- **A refused element leaves a binding**: an unbound name with a negative index is bound, and a
variable with the integer attribute has become an array. -/
theorem setElement_leaves_binding :
    let shell (bindings : Table Binding) : Shell :=
      ⟨⟨[], ⟨"global", [], bindings⟩, .standard⟩, false, "script", 0⟩
    let number (value : Value) : Table Binding :=
      Table.empty.insert "n" ⟨value, ⟨true, false, false⟩, 0⟩
    let array := number (.indexed (IndexedArray.singleton "5"))
    (evaluators 2).setElement "a" (.index (-1)) "v" false .nearest (shell Table.empty) =
        (.error (.error (.negativeIndex "a" (-1))), shell (Table.empty.insert "a" .unset)) ∧
      (evaluators 2).setElement "n" (.index 1) "b = 2 , 1 / 0" false .nearest
          (shell (number (.scalar "5"))) =
        (.error (.error (.arithmetic "b = 2 , 1 / 0" .divisionByZero)),
          shell (array.insert "b" ⟨.scalar "2", .none, 0⟩)) := by
  intro shell number array
  constructor
  · show (_ : Except Fault Store.Place × Shell) = _
    decide +kernel
  · simp only [setElement, stored, evaluate, parse_division]
    show (_ : Except Fault Store.Place × Shell) = _
    decide +kernel

/-! ### Evaluations one after the other -/

/-- The evaluation ends a literal: it fails, or it is of a subscript and gives a negative index. -/
def Ends (name : String) (fault : Fault) (x : Eval Int) (shell shell' : Shell) : Prop :=
  x shell = (.error fault, shell') ∨
    ∃ n, x shell = (.ok (.negSucc n), shell') ∧ fault = .error (.negativeIndex name (.negSucc n))

/-- The evaluations succeed, one after the other, up to one that ends the literal. -/
def EndsAmong (name : String) (fault : Fault) (evaluations : List (Eval Int))
    (shell shell' : Shell) : Prop :=
  ∃ before last results between, before ++ [last] <+: evaluations ∧
    (before.mapM id : Eval (List Int)) shell = (.ok results, between) ∧
    Ends name fault last between shell'

namespace EndsAmong

variable {x : Eval Int} {rest : List (Eval Int)} {between : Shell}

theorem head (h : Ends name fault x shell shell') : EndsAmong name fault (x :: rest) shell shell' :=
  ⟨[], x, [], shell, ⟨rest, rfl⟩, rfl, h⟩

theorem cons {n : Int} (hx : x shell = (.ok n, between))
    (h : EndsAmong name fault rest between shell') :
    EndsAmong name fault (x :: rest) shell shell' := by
  obtain ⟨before, last, results, reached, hfront, hrun, hends⟩ := h
  refine ⟨x :: before, last, n :: results, reached, ?_, ?_, hends⟩
  · exact (List.prefix_cons_inj x).mpr hfront
  · rw [List.mapM_cons, id_eq, bind_run_of_ok hx, bind_run_of_ok hrun]
    rfl

end EndsAmong

/-- Evaluations that leave a shell alone leave it alone one after the other. -/
theorem mapM_unchanged {evaluations : List (Eval Int)} {results : List Int}
    (hunchanged : ∀ x ∈ evaluations, (x shell).2 = shell)
    (h : (evaluations.mapM id : Eval (List Int)) shell = (.ok results, shell')) :
    shell' = shell := by
  induction evaluations generalizing results with
  | nil =>
      cases h
      rfl
  | cons x rest ih =>
      rw [List.mapM_cons] at h
      obtain ⟨n, between, hx, hmore⟩ := bind_eq_ok h
      have hbetween : between = shell :=
        (congrArg Prod.snd hx).symm.trans (hunchanged x List.mem_cons_self)
      rw [hbetween] at hmore
      obtain ⟨more, last, hrest, hmore⟩ := bind_eq_ok hmore
      cases hmore
      exact ih (fun y hy => hunchanged y (List.mem_cons_of_mem x hy)) hrest

/-! ### Literals -/

/-- What is evaluated for a value: the value itself for a variable with the integer attribute. -/
def valueEvaluations (deeper : Evaluators) (integer : Bool) (value : String) : List (Eval Int) :=
  if integer then [deeper.integerOf value] else []

/-- What is evaluated for an item of an indexed array: its subscript, and then its value. -/
def itemEvaluations (deeper : Evaluators) (name : String) (integer : Bool) (item : ArrayItem) :
    List (Eval Int) :=
  item.key.toList.map (deeper.index name) ++ deeper.valueEvaluations integer item.value

/-- What is evaluated for a literal, item by item. -/
def literalEvaluations (deeper : Evaluators) (name : String) (b : Binding)
    (literal : ArrayLiteral) : List (Eval Int) :=
  match b.value with
  | .associative _ =>
    match associativePairs name literal with
    | .ok pairs => pairs.flatMap fun pair => deeper.valueEvaluations b.attributes.integer pair.2
    | .error _ => []
  | _ => literal.items.flatMap (deeper.itemEvaluations name b.attributes.integer)

/-- Why a literal is refused before anything of it is evaluated. -/
def literalRefusal? (name : String) (b : Binding) (literal : ArrayLiteral) : Option Error :=
  if b.attributes.readonly then some (.readonlyVariable name)
  else match b.value with
    | .reference _ => some (.attributes name .referenceIsNoArray)
    | .associative _ =>
      match associativePairs name literal with
      | .ok _ => none
      | .error e => some e
    | _ => none

section literals

variable {integer : Bool} {rest : List (Eval Int)}

theorem endsAmong_of_stored
    (h : deeper.stored integer value none shell = (.error fault, shell')) :
    EndsAmong name fault (deeper.valueEvaluations integer value ++ rest) shell shell' := by
  obtain ⟨rfl, hvalue | ⟨-, -, text, -, hold, -⟩⟩ := stored_eq_error h
  · exact .head (.inl hvalue)
  · cases hold

theorem endsAmong_behind_stored {text : String} {between : Shell}
    (h : deeper.stored integer value none shell = (.ok text, between))
    (hrest : EndsAmong name fault rest between shell') :
    EndsAmong name fault (deeper.valueEvaluations integer value ++ rest) shell shell' := by
  cases integer with
  | false =>
      rw [stored_plain] at h
      cases h
      exact hrest
  | true =>
      rw [stored_integer] at h
      obtain ⟨n, last, hvalue, h⟩ := bind_eq_ok h
      cases h
      exact .cons hvalue hrest

theorem insertPairs_ends {pairs : List (String × String)} {elements : Table String}
    (h : deeper.insertPairs integer pairs elements shell = (.error fault, shell')) :
    EndsAmong name fault (pairs.flatMap fun pair => deeper.valueEvaluations integer pair.2)
      shell shell' := by
  induction pairs generalizing elements shell with
  | nil => cases h
  | cons pair pairs ih =>
      rw [List.flatMap_cons]
      obtain hstored | ⟨text, between, hstored, h⟩ := bind_eq_error h
      · exact endsAmong_of_stored hstored
      · exact endsAmong_behind_stored hstored (ih h)

theorem insertItems_ends {items : List ArrayItem} {running : Nat} {elements : IndexedArray}
    (h : deeper.insertItems name integer items running elements shell = (.error fault, shell')) :
    EndsAmong name fault (items.flatMap (deeper.itemEvaluations name integer)) shell shell' := by
  induction items generalizing running elements shell with
  | nil => cases h
  | cons item items ih =>
      -- Behind the subscript come the value and the other items.
      have hvalue {at' : Nat} {shell : Shell} (h : (do
          let text ← deeper.stored integer item.value none
          deeper.insertItems name integer items (at' + 1) (elements.insert at' text)) shell =
            (.error fault, shell')) :
          EndsAmong name fault (deeper.valueEvaluations integer item.value ++
            items.flatMap (deeper.itemEvaluations name integer)) shell shell' := by
        obtain hstored | ⟨text, between, hstored, h⟩ := bind_eq_error h
        · exact endsAmong_of_stored hstored
        · exact endsAmong_behind_stored hstored (ih h)
      rw [List.flatMap_cons, itemEvaluations, List.append_assoc]
      unfold insertItems at h
      cases hkey : item.key with
      | none =>
          rw [hkey] at h
          exact hvalue h
      | some subscript =>
          rw [hkey] at h
          obtain hindex | ⟨index, between, hindex, h⟩ := bind_eq_error h
          · exact .head (.inl hindex)
          · cases index with
            | ofNat n => exact .cons hindex (hvalue h)
            | negSucc n =>
                cases h
                exact .head (.inr ⟨n, hindex, rfl⟩)

theorem assignLiteral_ends {literal : ArrayLiteral}
    (hplace : shell.store.place name scope = .ok place) (hat : shell.store.at? place = some b)
    (h : deeper.assignLiteral name literal scope append shell = (.error fault, shell')) :
    (∃ e, literalRefusal? place.name b literal = some e ∧ fault = .error e ∧ shell' = shell) ∨
      EndsAmong place.name fault (deeper.literalEvaluations place.name b literal) shell shell' := by
  unfold literalRefusal? literalEvaluations
  unfold assignLiteral at h
  rw [bind_run, change_run, Store.prepare_bound hplace hat] at h
  by_cases hreadonly : b.attributes.readonly = true
  · rw [if_pos hreadonly] at h ⊢
    cases h
    exact .inl ⟨_, rfl, rfl, rfl⟩
  rw [if_neg hreadonly] at h ⊢
  dsimp only at h
  rw [store_bind_run, Store.get_of_at? hat] at h
  cases hvalue : b.value with
  | reference target =>
      rw [hvalue] at h
      cases h
      exact .inl ⟨_, rfl, rfl, rfl⟩
  | associative old =>
      rw [hvalue] at h
      dsimp only at h
      rw [bind_run, query_run] at h
      cases hpairs : associativePairs place.name literal with
      | error e =>
          rw [hpairs] at h
          cases h
          exact .inl ⟨e, rfl, rfl, rfl⟩
      | ok pairs =>
          rw [hpairs] at h
          obtain hinsert | ⟨elements, between, -, h⟩ := bind_eq_error h
          · exact .inr (insertPairs_ends hinsert)
          · cases h
  | _ =>
      rw [hvalue] at h
      obtain hinsert | ⟨elements, between, -, h⟩ := bind_eq_error h
      · exact .inr (insertItems_ends hinsert)
      · cases h

/-- **A literal that is refused writes nothing.**  Let a write to the name, in the scope, go to a
place that is bound; for the nearest scope this is so if the name leads to a variable.  If a literal
is refused, with or without appending, then nothing of it was evaluated and the shell is as it was,
or the shell is the one that its evaluations leave one after the other, the last of which failed or
gave a negative index; and the shell is as it was if these evaluations write nothing. -/
theorem assignLiteral_refused {literal : ArrayLiteral}
    (hplace : shell.store.place name scope = .ok place) (hat : shell.store.at? place = some b)
    (h : deeper.assignLiteral name literal scope append shell = (.error fault, shell')) :
    (∃ e, literalRefusal? place.name b literal = some e ∧ fault = .error e ∧ shell' = shell) ∨
      ∃ before last results between,
        before ++ [last] <+: deeper.literalEvaluations place.name b literal ∧
        (before.mapM id : Eval (List Int)) shell = (.ok results, between) ∧
        (last between = (.error fault, shell') ∨
          ∃ n, last between = (.ok (.negSucc n), shell') ∧
            fault = .error (.negativeIndex place.name (.negSucc n))) ∧
        ((∀ x ∈ before ++ [last], (x shell).2 = shell) → shell' = shell) := by
  refine (assignLiteral_ends hplace hat h).imp id ?_
  rintro ⟨before, last, results, between, hfront, hrun, hends⟩
  refine ⟨before, last, results, between, hfront, hrun, hends, fun hunchanged => ?_⟩
  obtain rfl : between = shell :=
    mapM_unchanged (fun x hx => hunchanged x (List.mem_append_left _ hx)) hrun
  have hlast := hunchanged last (List.mem_append_right _ (List.mem_singleton_self last))
  rcases hends with hfails | ⟨n, hnegative, -⟩
  · rw [hfails] at hlast
    exact hlast
  · rw [hnegative] at hlast
    exact hlast

/-- Items are appended to an array through a reference, up to one with a negative index: the array
is as it was. -/
theorem assignLiteral_refused_negative :
    let b : Binding := ⟨.indexed (IndexedArray.singleton "v"), .none, 1⟩
    let before : Shell := ⟨⟨[⟨"f", [], Table.empty.insert "r" ⟨.reference "a", .none, 0⟩⟩],
      ⟨"global", [], Table.empty.insert "a" b⟩, .standard⟩, false, "script", 0⟩
    let literal : ArrayLiteral := ⟨[⟨none, "x"⟩, ⟨some "-1", "y"⟩]⟩
    before.store.place "r" .current = .ok ⟨.nearest, "a"⟩ ∧
      before.store.at? ⟨.nearest, "a"⟩ = some b ∧
      ∃ after, (evaluators 2).assignLiteral "r" literal .current true before =
        (.error (.error (.negativeIndex "a" (-1))), after) ∧ after = before := by
  intro b before literal
  have hplace : before.store.place "r" .current = .ok ⟨.nearest, "a"⟩ := by decide
  have hat : before.store.at? ⟨.nearest, "a"⟩ = some b := by decide
  have htext : Arith.integerText (-1) = "-1" := by decide +kernel
  have hparse : Arith.parse "-1" = .ok (.ofInt (-1)) := by
    rw [← htext]
    exact Arith.parse_integerText (-1)
  have hindex : (evaluators 2).index "a" "-1" before = (.ok (-1), before) := by
    simp only [index, evaluate, hparse]
    show (_ : Except Fault Int × Shell) = _
    decide +kernel
  have hrun : (evaluators 2).assignLiteral "r" literal .current true before =
      (.error (.error (.negativeIndex "a" (-1))), before) := by
    simp only [assignLiteral, literal, insertItems, index, evaluate, hparse]
    show (_ : Except Fault Store.Place × Shell) = _
    decide +kernel
  refine ⟨hplace, hat, before, hrun, ?_⟩
  obtain ⟨e, -, -, hsame⟩ | ⟨front, last, -, -, hfront, -, -, hsame⟩ :=
    assignLiteral_refused hplace hat hrun
  · exact hsame
  · refine hsame fun x hx => ?_
    obtain rfl : x = (evaluators 2).index "a" "-1" :=
      List.mem_singleton.mp (hfront.subset hx)
    rw [hindex]

end literals

end Evaluators

end ShellExpansion
