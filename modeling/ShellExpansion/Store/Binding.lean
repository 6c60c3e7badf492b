import ShellExpansion.Error
import ShellExpansion.IndexedArray
import ShellExpansion.Table

/-! # Bindings

A binding is what a name stands for in one frame: a value and the attributes that the user can
set. The kind of the value (indexed array, associative array, reference) counts as an attribute
too, but is read off the value. -/

namespace ShellExpansion

/-- The attributes of a variable. -/
inductive Attribute
  | indexed | associative | integer | reference | readonly | exported
deriving DecidableEq, Repr

namespace Attribute

/-- All attributes, in the order in which they are listed. -/
def all : List Attribute := [indexed, associative, integer, reference, readonly, exported]

/-- The letter of an attribute. -/
def letter : Attribute → Char
  | indexed => 'a'
  | associative => 'A'
  | integer => 'i'
  | reference => 'n'
  | readonly => 'r'
  | exported => 'x'

/-- The attribute of a letter. -/
def ofLetter? (c : Char) : Option Attribute := all.find? (·.letter = c)

end Attribute

/-- The value of a variable. -/
inductive Value
  /-- Declared, but without a value. -/
  | unset
  | scalar (text : String)
  | indexed (elements : IndexedArray)
  | associative (elements : Table String)
  /-- Another name for a variable; an empty target stands for none yet. -/
  | reference (target : String)
deriving DecidableEq, Repr

namespace Value

/-- The attribute that the kind of the value amounts to; a scalar has none. -/
def kind? : Value → Option Attribute
  | unset => none
  | scalar _ => none
  | indexed _ => some .indexed
  | associative _ => some .associative
  | reference _ => some .reference

/-- The value is a reference. -/
def isReference : Value → Bool
  | reference _ => true
  | _ => false

/-- What the value reads as without a subscript: an array reads as its element zero. -/
def scalar? : Value → Option String
  | unset => none
  | scalar text => some text
  | indexed elements => elements.get? 0
  | associative elements => elements.get? "0"
  | reference _ => none

/-- The associative array with a text written to a key; other values stay as they are. -/
def insertKey (value : Value) (key text : String) : Value :=
  match value with
  | associative elements => associative (elements.insert key text)
  | value => value

/-- The indexed array with a text written at an index; other values stay as they are. -/
def insertIndex (value : Value) (index : Nat) (text : String) : Value :=
  match value with
  | indexed elements => indexed (elements.insert index text)
  | value => value

end Value

/-- The attributes that are not the kind of a value. -/
structure Attributes where
  integer : Bool
  readonly : Bool
  exported : Bool
deriving DecidableEq, Repr

namespace Attributes

/-- No attribute is set. -/
def none : Attributes := ⟨false, false, false⟩

/-- Sets an attribute to a state; the kinds of values are left alone. -/
def set (attributes : Attributes) (state : Bool) : Attribute → Attributes
  | .integer => { attributes with integer := state }
  | .readonly => { attributes with readonly := state }
  | .exported => { attributes with exported := state }
  | _ => attributes

end Attributes

/-- A value with its attributes. -/
structure Binding where
  value : Value
  attributes : Attributes
  /-- How often the array was assigned as a whole. A write to an element that was begun before does
  not reach the new array. -/
  generation : Nat
deriving DecidableEq, Repr

namespace Binding

/-- A binding without a value. -/
def unset : Binding := ⟨.unset, .none, 0⟩

/-- The binding with another value. -/
def withValue (b : Binding) (value : Value) : Binding := { b with value := value }

/-- The attribute is set, or the value is of its kind. -/
def has (b : Binding) : Attribute → Bool
  | .integer => b.attributes.integer
  | .readonly => b.attributes.readonly
  | .exported => b.attributes.exported
  | kind => b.value.kind? == some kind

/-- The letters of all attributes of the binding. -/
def flags (b : Binding) : String :=
  String.ofList ((Attribute.all.filter b.has).map Attribute.letter)

end Binding

end ShellExpansion
