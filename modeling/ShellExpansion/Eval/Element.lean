import ShellExpansion.ArrayLiteral
import ShellExpansion.Eval.Value

/-! # Elements of arrays

Reading, writing and removing elements of the array that a name designates, and views of the
whole array. A scalar counts as an array with its value at index zero. The subscript of an
associative array is a text, that of any other array an arithmetic expression; a negative index
counts from the end. Writing an element turns a scalar into an indexed array, and the integer
attribute makes every value that is written a number. Elements of associative arrays and scalars
are looked up by text, so an index must not be too long to be written there. -/

namespace ShellExpansion

/-- What selects an element. -/
inductive Key
  | text (key : String)
  | index (n : Int)
deriving DecidableEq, Repr

namespace Key

/-- The key as text; a number must not be too long to be written. -/
def toText : Key → Except Fault String
  | text key => .ok key
  | index n => (checkWritable [n]).map fun _ => toString n

/-- The number that a key is, if it is one. -/
def numbers : Key → List Int
  | text _ => []
  | index n => [n]

/-- The key as an index; a text must be a decimal number. -/
def toIndex : Key → Except Fault Int
  | text key =>
    match Text.readNumeral 10 key with
    | some n => .ok n
    | none => .error .notANumber
  | index n => .ok n

end Key

namespace Eval

/-- The key as an index. -/
def indexOf (key : Key) : Eval Int := ofExcept key.toIndex

/-- The key as text. -/
def textOf (key : Key) : Eval String := ofExcept key.toText

/-- The value that a name designates; an unbound name has none. -/
def valueNamed (name : String) : Eval Value := do
  return ((← query (·.binding? name)).map Binding.value).getD .unset

/-- The name designates an associative array. -/
def isAssociative (name : String) : Eval Bool := do
  match ← valueNamed name with
  | .associative _ => return true
  | _ => return false

/-! ### Reading -/

/-- The element at a key. -/
def getElement? (name : String) (key : Key) : Eval (Option String) := do
  match ← valueNamed name with
  | .indexed elements => return elements.getFromEnd? (← indexOf key)
  | .associative elements => return elements.get? (← textOf key)
  | .scalar text =>
    let selected ← textOf key
    return if selected = "0" ∨ selected = "-1" then some text else none
  | _ => return none

/-- All values of an array, in the order of their keys. -/
def allValues (name : String) : Eval (List String) := do
  match ← valueNamed name with
  | .indexed elements => return elements.values
  | .associative elements => return elements.values
  | .scalar text => return [text]
  | _ => return []

/-- All keys of an array, in order; indices are shown as texts. -/
def allKeys (name : String) : Eval (List String) := do
  match ← valueNamed name with
  | .indexed elements =>
    ofExcept (checkWritable (elements.indices.map Int.ofNat))
    return elements.indices.map toString
  | .associative elements => return elements.keys
  | .scalar _ => return ["0"]
  | _ => return []

/-- The number of elements of an array. -/
def countElements (name : String) : Eval Nat := return (← allValues name).length

/-- The elements of an indexed array as a slice sees them; a scalar is one element. -/
def sliceable : Value → IndexedArray
  | .indexed elements => elements
  | .scalar text => IndexedArray.singleton text
  | _ => IndexedArray.empty

/-- The values from a start on, at most `count` of them. The start is an index, or a position in
an associative array; a negative one counts from the end, and one before the first element gives
nothing. -/
def slice (name : String) (start : Int) (count : Option Int) : Eval (List String) := do
  if let some n := count then
    if n < 0 then refuseShowing n (.substitution (.negativeLength n))
  let selected := match ← valueNamed name with
    | .associative elements =>
      let first := if start < 0 then start + elements.values.length else start
      if first < 0 then [] else elements.values.drop first.toNat
    | value =>
      let elements := sliceable value
      let first := elements.fromEnd start
      if first < 0 then [] else elements.valuesFrom first
  return match count with
    | some n => selected.take n.toNat
    | none => selected

/-! ### Removing -/

/-- Removes an element, the others keeping their keys; says whether it was there. -/
def unsetElement (name : String) (key : Key) : Eval Bool := do
  let (final, found) ← query (·.resolve name)
  match found with
  | none => return false
  | some b =>
    if b.attributes.readonly then refuse (.readonlyVariable final)
    else match b.value with
      | .associative elements =>
        let text ← textOf key
        change fun s => .ok ((),
          s.putValue ⟨.nearest, final⟩ (.associative (elements.erase text)))
        return (elements.get? text).isSome
      | .indexed elements =>
        let index ← indexOf key
        match elements.fromEnd index with
        | .ofNat n =>
          change fun s => .ok ((), s.putValue ⟨.nearest, final⟩ (.indexed (elements.erase n)))
          return (elements.get? n).isSome
        | .negSucc _ => refuseShowing index (.negativeIndex final index)
      | .scalar _ =>
        let index ← indexOf key
        if index = 0 ∨ index = -1 then change (·.erase final false) else return false
      | _ => return false

end Eval

namespace Evaluators

open Eval

/-! ### Subscripts -/

/-- The value of the subscript of an indexed array. -/
def index (deeper : Evaluators) (name subscript : String) : Eval Int :=
  if Text.allBlank subscript then refuse (.substitution (.blankSubscript name subscript))
  else deeper.evaluate subscript

/-- The key that a subscript means for the array that a name designates. -/
def elementKey (deeper : Evaluators) (name subscript : String) : Eval Key := do
  if ← isAssociative name then return .text (← deeper.word .text subscript)
  else return .index (← deeper.index name subscript)

/-! ### Writing -/

/-- The text that is stored for a value: the value behind what it is appended to, or their sum
for a variable with the integer attribute. -/
def stored (deeper : Evaluators) (integer : Bool) (value : String) (old : Option String) :
    Eval String := do
  if integer then
    let n ← if Text.allBlank value then pure 0 else deeper.evaluate value
    match old with
    | none => return toString n
    | some text => return toString (n + (← deeper.valueOf "" (some text)))
  else return old.getD "" ++ value

/-- Puts the value that was worked out for an element of the array at a place into the array; a
new array that was assigned in the meantime does not get it. -/
def putElement (place : Store.Place) (begun : Binding) (update : Value → Value) : Eval Unit := do
  let b := (← store).get place
  if b.generation = begun.generation then setStore ((← store).putValue place (update b.value))

/-- Writes an element, or appends to it. -/
def setElement (deeper : Evaluators) (name : String) (key : Key) (value : String)
    (append : Bool) (scope : Scope) : Eval Store.Place := do
  let place ← change (·.prepare name scope)
  let b := (← store).get place
  let keep (old : Option String) : Option String := if append then old else none
  match b.value with
  | .reference _ => refuse (.attributes place.name .referenceIsNoArray)
  | .associative elements =>
    let selected ← textOf key
    let text ← deeper.stored b.attributes.integer value (keep (elements.get? selected))
    putElement place b (·.insertKey selected text)
    return place
  | current =>
    match ← indexOf key with
    | .negSucc n => refuseShowing (.negSucc n) (.negativeIndex place.name (.negSucc n))
    | .ofNat n =>
      let elements := sliceable current
      setStore ((← store).putValue place (.indexed elements))
      let text ← deeper.stored b.attributes.integer value (keep (elements.get? n))
      putElement place b (·.insertIndex n text)
      return place

/-! ### Literals -/

/-- The keys and values of a literal for an associative array. Without any key, the items are
keys and values in turn, a last value that is missing being empty. -/
def associativePairs (name : String) (literal : ArrayLiteral) :
    Except Error (List (String × String)) :=
  if literal.hasKeys then
    literal.items.mapM fun item =>
      match item.key with
      | some key => .ok (key, item.value)
      | none => .error (.substitution (.missingKey name item.value))
  else .ok (inPairs (literal.items.map (·.value)))
where
  /-- The texts two by two. -/
  inPairs : List String → List (String × String)
    | [] => []
    | [key] => [(key, "")]
    | key :: value :: rest => (key, value) :: inPairs rest

/-- The table with the pairs written to it, one after the other. -/
def insertPairs (deeper : Evaluators) (integer : Bool) :
    List (String × String) → Table String → Eval (Table String)
  | [], elements => return elements
  | (key, value) :: rest, elements => do
    let text ← deeper.stored integer value none
    insertPairs deeper integer rest (elements.insert key text)

/-- The array with the items written to it, one after the other; an item without a key goes to
the running index, which continues behind each item. -/
def insertItems (deeper : Evaluators) (name : String) (integer : Bool) :
    List ArrayItem → Nat → IndexedArray → Eval IndexedArray
  | [], _, elements => return elements
  | item :: rest, running, elements => do
    let at' ← match item.key with
      | none => pure running
      | some subscript =>
        match ← deeper.index name subscript with
        | .ofNat n => pure n
        | .negSucc n => refuse (.negativeIndex name (.negSucc n))
    let text ← deeper.stored integer item.value none
    insertItems deeper name integer rest (at' + 1) (elements.insert at' text)

/-- Assigns an array as a whole at a place. -/
def putArray (place : Store.Place) (value : Value) : Eval Unit := do
  let b := (← store).get place
  setStore ((← store).put place { b with value := value, generation := b.generation + 1 })

/-- Assigns a literal to the array that a name designates, in place of its elements or in
addition to them. -/
def assignLiteral (deeper : Evaluators) (name : String) (literal : ArrayLiteral)
    (scope : Scope) (append : Bool) : Eval Store.Place := do
  let place ← change (·.prepare name scope)
  let b := (← store).get place
  match b.value with
  | .reference _ => refuse (.attributes place.name .referenceIsNoArray)
  | .associative old =>
    let pairs ← query fun _ => associativePairs place.name literal
    let elements ← deeper.insertPairs b.attributes.integer pairs
      (if append then old else Table.empty)
    putArray place (.associative elements)
    return place
  | current =>
    let old := if append then sliceable current else IndexedArray.empty
    let elements ← deeper.insertItems place.name b.attributes.integer literal.items old.bound old
    putArray place (.indexed elements)
    return place

/-- Appends values to an array behind its largest index, then writes values at keys, which may
replace some of those just appended. -/
def appendLiteral (deeper : Evaluators) (name : String) (values : List String)
    (overrides : Table String) : Eval Store.Place :=
  let items := values.map (ArrayItem.mk none)
    ++ overrides.entries.map fun entry => ⟨some entry.1, entry.2⟩
  deeper.assignLiteral name ⟨items⟩ .nearest true

/-! ### Assignments -/

/-- An assignment as it is written in a script: to `name`, to `name[subscript]`, or of a literal
in parentheses. -/
def assign (deeper : Evaluators) (target value : String) (scope : Scope) (append : Bool) :
    Eval Store.Place := do
  match splitSubscript target with
  | (name, some subscript) =>
    let key ← deeper.elementKey name subscript
    deeper.setElement name key value append scope
  | (_, none) =>
    if ArrayLiteral.isLiteral value then
      deeper.assignLiteral target (ArrayLiteral.ofText value) scope append
    else
      let place ← change (·.prepare target scope)
      let b := (← store).get place
      if b.value.isReference then change (·.assign target value scope false)
      else if b.attributes.integer then
        let old := if append then b.value.scalar? else none
        let text ← deeper.stored true value old
        change (·.assign target text scope false)
      else change (·.assign target value scope append)

end Evaluators

end ShellExpansion
