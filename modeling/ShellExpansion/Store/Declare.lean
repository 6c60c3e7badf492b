import ShellExpansion.Store.Reference

/-! # Declarations

`declare` creates a variable in a frame or changes the attributes of one that is there, and
`setReference` makes a name a reference. Both give the store also when they are refused: a
variable that was created for the declaration stays. -/

namespace ShellExpansion.Store

/-- What a declaration asks for. -/
structure Declaration where
  /-- The kind of value that the variable is converted to. -/
  kind : Option Attribute
  add : List Attribute
  remove : List Attribute
  scope : Scope
  /-- A new variable starts as a copy of the one that it hides. -/
  inherit : Bool
deriving DecidableEq, Repr

/-- The value converted to a kind. -/
def converted (name : String) (value : Value) (kind : Attribute) : Except Fault Value :=
  let refuse (conflict : AttributeConflict) : Except Fault Value :=
    .error (.error (.attributes name conflict))
  match kind, value with
  | .indexed, .unset => .ok (.indexed IndexedArray.empty)
  | .indexed, .scalar text => .ok (.indexed (IndexedArray.singleton text))
  | .indexed, .indexed elements => .ok (.indexed elements)
  | .indexed, .associative _ => refuse .associativeToIndexed
  | .indexed, .reference _ => refuse .referenceIsNoArray
  | .associative, .unset => .ok (.associative Table.empty)
  | .associative, .scalar text => .ok (.associative (Table.empty.insert "0" text))
  | .associative, .associative elements => .ok (.associative elements)
  | .associative, .indexed _ => refuse .indexedToAssociative
  | .associative, .reference _ => refuse .referenceIsNoArray
  | .reference, .unset => .ok (.reference "")
  | .reference, .scalar text =>
    if text ≠ "" ∧ !isIdentifier text then
      .error (.error (.invalidIdentifier text (some "declare")))
    else if text = name then .error (.error (.referenceCycle name))
    else .ok (.reference text)
  | .reference, .reference target => .ok (.reference target)
  | .reference, _ => refuse .referenceIsNoArray
  | _, _ => .error .notAKind

/-- The attributes after a declaration: those to add are set, then those to remove are unset. -/
def redeclared (attributes : Attributes) (request : Declaration) : Attributes :=
  request.remove.foldl (fun attributes a => attributes.set false a)
    (request.add.foldl (fun attributes a => attributes.set true a) attributes)

/-- Changes the binding at a place as a declaration asks for. -/
def redeclare (s : Store) (place : Place) (request : Declaration) : Except Fault Store :=
  let b := s.get place
  let refuse : Except Fault Store := .error (.error (.readonlyVariable place.name))
  let finish (value : Value) : Except Fault Store :=
    .ok (s.put place { b with value := value, attributes := redeclared b.attributes request })
  if request.remove.contains .readonly && b.attributes.readonly then refuse
  else match request.kind with
    | none => finish b.value
    | some kind =>
      if b.value.kind? = some kind then finish b.value
      else if b.attributes.readonly then refuse
      else match converted place.name b.value kind with
        | .ok value => finish value
        | .error fault => .error fault

/-- The binding that a declaration creates. -/
def created (s : Store) (name : String) (inherit : Bool) : Binding :=
  match inherit, s.lookup name with
  | true, some b => { b with attributes := { b.attributes with readonly := false } }
  | _, _ => .unset

/-- The place that a declaration of a bound name changes: one that does not ask for a reference
goes through references. -/
def declaredPlace (s : Store) (name : String) (b : Binding) (request : Declaration) :
    Except Error Place :=
  if b.value.isReference && request.kind != some .reference &&
      (request.kind.isSome || !request.add.isEmpty || !request.remove.isEmpty) then
    (s.resolve name).map fun (target, found) =>
      if found.isSome then ⟨.nearest, target⟩ else ⟨request.scope, name⟩
  else .ok ⟨request.scope, name⟩

/-- Declares a variable: the place of its binding or what went wrong, and the store. -/
def declare (s : Store) (name : String) (request : Declaration) : Except Fault Place × Store :=
  if !isIdentifier name then (.error (.error (.invalidIdentifier name (some "declare"))), s)
  else
    let at' (s : Store) (place : Place) : Except Fault Place × Store :=
      match s.redeclare place request with
      | .ok s => (.ok place, s)
      | .error fault => (.error fault, s)
    match s.find? request.scope name with
    | none =>
      at' (s.bind request.scope name (s.created name request.inherit)) ⟨request.scope, name⟩
    | some b =>
      match s.declaredPlace name b request with
      | .ok place => at' s place
      | .error e => (.error (.error e), s)

/-- Makes a name a reference to a target, also one that refers elsewhere already. -/
def setReference (s : Store) (name target : String) (scope : Scope) :
    Except Fault Place × Store :=
  match s.declare name ⟨some .reference, [], [], scope, false⟩ with
  | (.error fault, s) => (.error fault, s)
  | (.ok place, s) =>
    if (s.get place).attributes.readonly then (.error (.error (.readonlyVariable name)), s)
    else if !isIdentifier target then
      (.error (.error (.invalidIdentifier target (some "declare"))), s)
    else if target = name then (.error (.error (.referenceCycle name)), s)
    else (.ok place, s.putValue place (.reference target))

/-- Ends a reference: its target becomes the text that the variable holds. -/
def dropReference (s : Store) (name : String) : Store :=
  match s.lookup name with
  | none => s
  | some b =>
    match b.value with
    | .reference target =>
      s.bind .nearest name (b.withValue (if target = "" then .unset else .scalar target))
    | _ => s

end ShellExpansion.Store
