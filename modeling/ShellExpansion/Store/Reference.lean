import ShellExpansion.Identifier
import ShellExpansion.Store.Basic

/-! # References

A reference is followed to the variable it designates: `resolve` gives the last name of the chain
and its binding. A chain that comes back to one of its names is a cycle, and a chain longer than
the bound is refused. Reading, writing and removing a variable go through references. -/

namespace ShellExpansion.Store

/-- Follows references from `name`, the names in `visited` being behind it; `first` is the name
the chain began with, and at most `steps` more names are looked up. -/
def resolveFrom (s : Store) (first : String) :
    Nat → List String → String → Except Error (String × Option Binding)
  | 0, _, _ => .error (.limit (.referenceDepth first))
  | steps + 1, visited, name =>
    match s.lookup name with
    | none => .ok (name, none)
    | some b =>
      match b.value with
      | .reference target =>
        if target = "" then .ok (name, some b)
        else if target ∈ name :: visited then .error (.referenceCycle first)
        else resolveFrom s first steps (name :: visited) target
      | _ => .ok (name, some b)

/-- The name that references from `name` lead to, and its binding. A reference without a target
leads nowhere else. -/
def resolve (s : Store) (name : String) : Except Error (String × Option Binding) :=
  s.resolveFrom name s.limits.referenceDepth.toNat [] name

/-- The binding that a name designates. -/
def binding? (s : Store) (name : String) : Except Error (Option Binding) :=
  (s.resolve name).map Prod.snd

/-- The value that a name reads as without a subscript. -/
def get? (s : Store) (name : String) : Except Error (Option String) :=
  (s.binding? name).map fun found => found.bind (·.value.scalar?)

/-! ### Writing -/

/-- Where a write goes. -/
structure Place where
  scope : Scope
  name : String
deriving DecidableEq, Repr

/-- The binding at a place. -/
def at? (s : Store) (place : Place) : Option Binding := s.find? place.scope place.name

/-- The binding at a place; one without a value where there is none. -/
def get (s : Store) (place : Place) : Binding := (s.at? place).getD .unset

/-- Binds the name of a place. -/
def put (s : Store) (place : Place) (b : Binding) : Store := s.bind place.scope place.name b

/-- Puts a value at a place; the attributes there stay. -/
def putValue (s : Store) (place : Place) (value : Value) : Store :=
  s.put place ((s.get place).withValue value)

/-- The place that a write to a name goes to: the name that references lead to, in the scope. A
scope given for a reference does not count when its target is bound. -/
def place (s : Store) (name : String) (scope : Scope) : Except Error Place :=
  (s.resolve name).map fun (target, found) =>
    ⟨if found.isSome ∧ target ≠ name then .nearest else scope, target⟩

/-- Makes a place ready to be written: it must not be read-only, and is bound if it was not. -/
def prepare (s : Store) (name : String) (scope : Scope) : Except Error (Place × Store) :=
  match s.place name scope with
  | .error e => .error e
  | .ok place =>
    match s.at? place with
    | some b =>
      if b.attributes.readonly then .error (.readonlyVariable place.name) else .ok (place, s)
    | none =>
      if isIdentifier place.name then .ok (place, s.put place .unset)
      else .error (.invalidIdentifier place.name none)

/-- The value after a text is assigned to a variable, or appended to what it reads as. An array
keeps its kind and takes the text as its element zero; a reference takes it as its target. -/
def assigned (value : Value) (text : String) (append : Bool) : Except Error Value :=
  let joined := (if append then value.scalar?.getD "" else "") ++ text
  match value with
  | .reference _ =>
    if isIdentifier text then .ok (.reference text)
    else .error (.invalidIdentifier text (some "declare"))
  | .indexed elements => .ok (.indexed (elements.insert 0 joined))
  | .associative elements => .ok (.associative (elements.insert "0" joined))
  | _ => .ok (.scalar joined)

/-- Assigns a text to the variable that a name designates. -/
def assign (s : Store) (name text : String) (scope : Scope) (append : Bool) :
    Except Error (Place × Store) :=
  match s.prepare name scope with
  | .error e => .error e
  | .ok (place, prepared) =>
    match assigned (prepared.get place).value text append with
    | .error e => .error e
    | .ok value => .ok (place, prepared.putValue place value)

/-! ### Removing -/

/-- The bound names from `name` along references, at most `steps` of them. -/
def chain (s : Store) : Nat → String → List (String × Binding)
  | 0, _ => []
  | steps + 1, name =>
    match s.lookup name with
    | none => []
    | some b =>
      match b.value with
      | .reference target => (name, b) :: if target = "" then [] else chain s steps target
      | _ => [(name, b)]

/-- Removes the innermost binding of a name and, unless `keepTarget`, of all names that it refers
to. Nothing is removed if one of them is read-only. Says whether the name was bound. -/
def erase (s : Store) (name : String) (keepTarget : Bool) : Except Error (Bool × Store) :=
  match s.lookup name with
  | none => .ok (false, s)
  | some b =>
    if b.attributes.readonly then .error (.readonlyVariable name)
    else if b.value.isReference && !keepTarget then
      match s.resolve name with
      | .error e => .error e
      | .ok _ =>
        let links := s.chain s.limits.referenceDepth.toNat name
        match links.find? (·.2.attributes.readonly) with
        | some (link, _) => .error (.readonlyVariable link)
        | none => .ok (true, links.foldl (fun s link => s.unbind link.1) s)
    else .ok (true, s.unbind name)

/-! ### Exported variables -/

/-- The exported variables with the values they read as, in ascending order of their names. -/
def exported (s : Store) : Except Error (List (String × String)) := do
  let found ← s.names.mapM fun name =>
    match s.lookup name with
    | some b =>
      if b.attributes.exported then (s.get? name).map fun value => value.map (name, ·)
      else .ok none
    | none => .ok none
  return found.filterMap id

end ShellExpansion.Store
