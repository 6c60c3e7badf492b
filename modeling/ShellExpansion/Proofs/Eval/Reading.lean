import ShellExpansion.Eval.Parameter
import ShellExpansion.Proofs.Eval.Respects
import ShellExpansion.Proofs.Parameter.Elements
import ShellExpansion.Proofs.Store.Resolution

/-! # Evaluations that only read

Looking at variables, and making words of what was found, leaves the shell as it is, and so respects
every preorder.  What is found depends only on the value that the name leads to. -/

namespace ShellExpansion.Eval

variable {R : Shell → Shell → Prop} [IsPreorder Shell R]

/-! ### Variables -/

theorem indexOf_run (key : Key) (shell : Shell) : indexOf key shell = (key.toIndex, shell) :=
  ofExcept_run key.toIndex shell

theorem indexOf_run_of_ok {key : Key} {index : Int} {shell : Shell}
    (hkey : key.toIndex = .ok index) : indexOf key shell = (.ok index, shell) := by
  rw [indexOf_run, hkey]

theorem textOf_run (key : Key) (shell : Shell) : textOf key shell = (key.toText, shell) :=
  ofExcept_run key.toText shell

theorem textOf_run_of_ok {key : Key} {text : String} {shell : Shell}
    (hkey : key.toText = .ok text) : textOf key shell = (.ok text, shell) := by
  rw [textOf_run, hkey]

section valued

variable {shell : Shell} {name : String} {value : Value}
  (hvalue : valueNamed name shell = (.ok value, shell))

include hvalue

/-- The elements of an associative array are read by their texts. -/
theorem getElement?_of_associative {elements : Table String}
    (helements : value = .associative elements) {key : Key} {text : String}
    (hkey : key.toText = .ok text) :
    getElement? name key shell = (.ok (elements.get? text), shell) := by
  rw [getElement?, bind_run_of_ok hvalue, helements]
  dsimp only
  rw [bind_run_of_ok (textOf_run_of_ok hkey)]
  rfl

/-- The elements of an indexed array are read by their indices. -/
theorem getElement?_of_indexed {elements : IndexedArray} (helements : value = .indexed elements)
    {key : Key} {index : Int} (hkey : key.toIndex = .ok index) :
    getElement? name key shell = (.ok (elements.getFromEnd? index), shell) := by
  rw [getElement?, bind_run_of_ok hvalue, helements]
  dsimp only
  rw [bind_run_of_ok (indexOf_run_of_ok hkey)]
  rfl

theorem allKeys_of_associative {elements : Table String}
    (helements : value = .associative elements) :
    allKeys name shell = (.ok elements.keys, shell) := by
  rw [allKeys, bind_run_of_ok hvalue, helements]
  rfl

theorem allValues_of_associative {elements : Table String}
    (helements : value = .associative elements) :
    allValues name shell = (.ok elements.values, shell) := by
  rw [allValues, bind_run_of_ok hvalue, helements]
  rfl

/-- The values of what is no associative array. -/
theorem allValues_of_value (hkind : value.kind? ≠ some .associative) :
    allValues name shell = (.ok (sliceable value).values, shell) := by
  rw [allValues, bind_run_of_ok hvalue]
  cases value with
  | associative elements => exact absurd rfl hkind
  | _ => rfl

/-- The keys of what is no associative array are the texts of its indices. -/
theorem allKeys_of_value (hkind : value.kind? ≠ some .associative)
    (hwritable : ∀ index ∈ (sliceable value).indices, Text.isWritable index = true) :
    allKeys name shell = (.ok ((sliceable value).indices.map toString), shell) := by
  rw [allKeys, bind_run_of_ok hvalue]
  cases value with
  | associative elements => exact absurd rfl hkind
  | indexed elements =>
      have hcheck : checkWritable (elements.indices.map Int.ofNat) = .ok () :=
        if_pos (List.all_eq_true.mpr (List.forall_mem_map.mpr hwritable))
      dsimp only
      rw [hcheck]
      rfl
  | scalar text =>
      have hzero : toString 0 = "0" := by decide
      show (Except.ok ["0"], shell) = (Except.ok [toString 0], shell)
      rw [hzero]
  | _ => rfl

/-- The keys of an indexed array are not shown when one of its indices is too long. -/
theorem allKeys_of_unwritable {elements : IndexedArray} (helements : value = .indexed elements)
    {index : Nat} (hindex : index ∈ elements.indices) (hlong : Text.isWritable index = false) :
    allKeys name shell = (.error .numberTooLong, shell) := by
  have hcheck : checkWritable (elements.indices.map Int.ofNat) = .error .numberTooLong := by
    refine if_neg fun hall => ?_
    have hwritable := List.all_eq_true.mp hall _ (List.mem_map_of_mem hindex)
    rw [Int.ofNat_eq_natCast, hlong] at hwritable
    cases hwritable
  rw [allKeys, bind_run_of_ok hvalue, helements]
  dsimp only
  rw [hcheck]
  rfl

end valued

/-- An unbound name counts as a variable without a value. -/
theorem valueNamed_of_resolve {shell : Shell} {name final : String} {found : Option Binding}
    (hresolve : shell.store.resolve name = .ok (final, found)) :
    valueNamed name shell = (.ok (found.getD .unset).value, shell) := by
  rw [valueNamed, bind_run_of_ok (query_run_of_ok (Store.binding?_of_resolve hresolve))]
  cases found <;> rfl

section bound

variable {shell : Shell} {name : String} {b : Binding}
  (hbinding : shell.store.binding? name = .ok (some b))

include hbinding

theorem valueNamed_of_binding? : valueNamed name shell = (.ok b.value, shell) := by
  rw [valueNamed, bind_run_of_ok (query_run_of_ok hbinding)]
  rfl

theorem isAssociative_of_binding? {elements : Table String}
    (hvalue : b.value = .associative elements) :
    isAssociative name shell = (.ok true, shell) := by
  rw [isAssociative, bind_run_of_ok (valueNamed_of_binding? hbinding), hvalue]
  rfl

theorem getElement?_associative {elements : Table String} (hvalue : b.value = .associative elements)
    {key : Key} {text : String} (hkey : key.toText = .ok text) :
    getElement? name key shell = (.ok (elements.get? text), shell) :=
  getElement?_of_associative (valueNamed_of_binding? hbinding) hvalue hkey

theorem getElement?_indexed {elements : IndexedArray} (hvalue : b.value = .indexed elements)
    {key : Key} {index : Int} (hkey : key.toIndex = .ok index) :
    getElement? name key shell = (.ok (elements.getFromEnd? index), shell) :=
  getElement?_of_indexed (valueNamed_of_binding? hbinding) hvalue hkey

end bound

theorem respects_indexOf (key : Key) : Respects R (indexOf key) := .ofExcept key.toIndex

theorem respects_textOf (key : Key) : Respects R (textOf key) := .ofExcept key.toText

theorem respects_valueNamed (name : String) : Respects R (valueNamed name) :=
  .bind .query fun _ => .pure _

theorem respects_isAssociative (name : String) : Respects R (isAssociative name) := by
  refine .bind (respects_valueNamed name) fun value => ?_
  cases value <;> exact .pure _

theorem respects_getElement? (name : String) (key : Key) : Respects R (getElement? name key) := by
  refine .bind (respects_valueNamed name) fun value => ?_
  cases value with
  | indexed elements => exact .bind (respects_indexOf key) fun _ => .pure _
  | associative elements => exact .bind (respects_textOf key) fun _ => .pure _
  | scalar text => exact .bind (respects_textOf key) fun _ => .pure _
  | _ => exact .pure _

theorem respects_allValues (name : String) : Respects R (allValues name) := by
  refine .bind (respects_valueNamed name) fun value => ?_
  cases value <;> exact .pure _

theorem respects_allKeys (name : String) : Respects R (allKeys name) := by
  refine .bind (respects_valueNamed name) fun value => ?_
  cases value with
  | indexed elements => exact .bind (.ofExcept _) fun _ => .pure _
  | _ => exact .pure _

theorem respects_countElements (name : String) : Respects R (countElements name) :=
  .bind (respects_allValues name) fun _ => .pure _

theorem respects_slice (name : String) (start : Int) (count : Option Int) :
    Respects R (slice name start count) := by
  unfold slice
  cases count with
  | none => exact .bind (respects_valueNamed name) fun _ => .pure _
  | some n =>
      exact .optional (.refuseShowing _ _) fun _ =>
        .bind (respects_valueNamed name) fun _ => .pure _

/-! ### Parameters -/

theorem respects_separator : Respects R separator := by
  refine .bind .query fun text => ?_
  cases text <;> exact .pure _

theorem limited_run (text : String) (shell : Shell) : limited text shell =
    if shell.store.limits.stringLength < text.length then
      (.error (.error (.limit (.stringLength text.length shell.store.limits.stringLength))), shell)
    else (.ok text, shell) := by
  show (if _ then _ else _ : Eval String) shell = _
  split <;> rfl

theorem limited_run_of_le {text : String} {shell : Shell}
    (h : (text.length : Int) ≤ shell.store.limits.stringLength) :
    limited text shell = (.ok text, shell) := by
  rw [limited_run, if_neg (Int.not_lt.mpr h)]

theorem respects_limited (text : String) : Respects R (limited text) :=
  .bind .limits fun _ => .ite (.refuse _) (.pure text)

theorem respects_words (values : List String) (joined : Bool) :
    Respects R (words values joined) :=
  .ite (.bind respects_separator fun _ => .bind (respects_limited _) fun _ => .pure _)
    (.mapM respects_limited values)

theorem respects_currentWords (reading : Reading) : Respects R (currentWords reading) := by
  cases reading with
  | one value => exact .bind (respects_limited _) fun _ => .pure _
  | all values joined => exact respects_words values joined

theorem respects_checkSet (parameter : ReadParameter) : Respects R (checkSet parameter) := by
  unfold checkSet
  split
  · exact .bind .get fun shell => .ite (.refuse _) (.pure _)
  · exact .pure _

theorem respects_numbered (name : String) : Respects R (numbered name) := by
  refine .ite (.bind .get fun shell => .pure _) ?_
  cases Text.readNumeral 10 name with
  | some n => exact .bind .store fun s => .pure _
  | none => exact .throw _

theorem respects_sliceAll (offset : Int) (length : Option Int) :
    Respects R (Evaluators.sliceAll offset length) := by
  unfold Evaluators.sliceAll
  cases length with
  | none => exact .bind .get fun shell => .bind .store fun s => .ite (.pure _) (.pure _)
  | some n =>
      exact .optional (.refuse _) fun _ =>
        .bind .get fun shell => .bind .store fun s => .ite (.pure _) (.pure _)

theorem respects_flagsOf? (written : String) : Respects R (Evaluators.flagsOf? written) :=
  .ite (.bind .query fun _ => .pure _) (.pure _)

theorem respects_applyTransform (transform : Transform) (written value : String) :
    Respects R (Evaluators.applyTransform transform written value) := by
  cases transform with
  | attributes => exact .bind (respects_flagsOf? written) fun _ => .pure _
  | assignment =>
      refine .bind (respects_flagsOf? written) fun flags => ?_
      cases flags <;> exact .pure _
  | _ => exact .pure _

/-- What the name of a variable is read as depends on the subscript behind it. -/
theorem directReading_identifier {name : String} (deeper : Evaluators)
    (hname : isIdentifier name = true) (subscript : Option String) :
    deeper.directReading name subscript = match subscript with
      | none => do return .one (← query (·.get? name))
      | some "@" => do return .all (← allValues name) false
      | some "*" => do return .all (← allValues name) true
      | some text => do return .one (← getElement? name (← deeper.elementKey name text)) := by
  obtain ⟨hspecial, hdigits, hcount⟩ := ne_special_of_isIdentifier hname
  have hdigits' : ¬Text.isDigits name = true := Bool.eq_false_iff.mp hdigits
  have hname' : ¬(!isIdentifier name) = true := by rw [hname]; decide
  unfold Evaluators.directReading
  exact (if_neg hspecial).trans
    ((if_neg hdigits').trans ((if_neg hcount).trans (if_neg hname')))

/-- **A value that is found is the one word** of an expansion without an operation, unless it is too
long; where unset parameters are errors it must be there. -/
theorem expandParameter_of_reading {deeper : Evaluators} {parameter : Parameter} {written : String}
    {found : Option String} {shell shell' : Shell} (hoperation : parameter.operation = none)
    (hreading : deeper.reading parameter shell = (.ok ⟨written, .one found⟩, shell'))
    (hset : shell'.nounset = true → found.isSome = true)
    (hlength : ((found.getD "").length : Int) ≤ shell'.store.limits.stringLength) :
    deeper.expandParameter parameter shell = (.ok [found.getD ""], shell') := by
  have hcheck : checkSet ⟨written, .one found⟩ shell' = (.ok (), shell') := by
    cases found with
    | some value => rfl
    | none =>
        have hnounset : shell'.nounset = false := by
          cases hnounset : shell'.nounset with
          | false => rfl
          | true => cases hset hnounset
        show (if shell'.nounset then refuse _ else pure () : Eval Unit) shell' = _
        rw [hnounset]
        rfl
  unfold Evaluators.expandParameter
  rw [hoperation]
  dsimp only
  rw [bind_run_of_ok hreading]
  dsimp only
  rw [bind_run_of_ok hcheck, show Evaluators.needsValue none = false from rfl, Bool.and_false,
    if_neg Bool.false_ne_true]
  exact bind_run_of_ok (limited_run_of_le hlength)

end ShellExpansion.Eval
