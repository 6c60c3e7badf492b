import ShellExpansion.Store.Binding

/-! # The store

The variables of a shell stand in frames: one outermost frame that lasts, and one for each
function call under way. A name is looked up from the innermost frame outward, so that a binding
hides those of the same name farther out. Every frame has positional parameters of its own.
Writes name the frame they go to by a `Scope`. -/

namespace ShellExpansion

/-- Bounds on the work of a shell. -/
structure Limits where
  /-- How many function calls may be nested. -/
  callDepth : Int
  /-- How many names a chain of references may have. -/
  referenceDepth : Int
  /-- How deep the values of variables are evaluated as expressions in turn. -/
  arithmeticDepth : Int
  /-- How long the result of an expansion may be. -/
  stringLength : Int
deriving DecidableEq, Repr

namespace Limits

/-- The bounds that hold unless others are asked for. -/
def standard : Limits := ⟨1000, 100, 128, 10485760⟩

end Limits

/-- The variables and positional parameters of one function call. -/
structure Frame where
  name : String
  positional : List String
  bindings : Table Binding
deriving DecidableEq, Repr

namespace Frame

/-- A frame without variables. -/
def new (name : String) (positional : List String) : Frame := ⟨name, positional, Table.empty⟩

/-- The frame with a name bound. -/
def bind (frame : Frame) (name : String) (b : Binding) : Frame :=
  { frame with bindings := frame.bindings.insert name b }

/-- The frame without a name. -/
def unbind (frame : Frame) (name : String) : Frame :=
  { frame with bindings := frame.bindings.erase name }

end Frame

/-- The frame in which a name is meant. -/
inductive Scope
  /-- The innermost frame that binds the name, or the outermost frame if none does. -/
  | nearest
  /-- The innermost frame. -/
  | current
  /-- The outermost frame. -/
  | outermost
deriving DecidableEq, Repr

/-- The frames of a shell. -/
structure Store where
  /-- The frames of the function calls under way, the innermost first. -/
  inner : List Frame
  outermost : Frame
  limits : Limits
deriving DecidableEq, Repr

namespace Store

/-- The name of the frame that belongs to no call. -/
def outermostName : String := "global"

/-- A store without variables. -/
def new (limits : Limits) : Store := ⟨[], Frame.new outermostName [], limits⟩

/-- All frames, the innermost first. -/
def frames (s : Store) : List Frame := s.inner ++ [s.outermost]

/-- The number of function calls under way. -/
def depth (s : Store) : Nat := s.inner.length

/-- The innermost frame. -/
def current (s : Store) : Frame := s.inner.head?.getD s.outermost

/-- The store with its innermost frame changed. -/
def modifyCurrent (s : Store) (f : Frame → Frame) : Store :=
  match s.inner with
  | [] => { s with outermost := f s.outermost }
  | frame :: rest => { s with inner := f frame :: rest }

/-! ### Calls -/

/-- Enters a function call. -/
def push (s : Store) (name : String) (positional : List String) : Except Error Store :=
  if s.limits.callDepth ≤ s.depth then
    .error (.limit (.callDepth name s.limits.callDepth))
  else .ok { s with inner := Frame.new name positional :: s.inner }

/-- Leaves the innermost function call: its frame, and the store without it. -/
def pop? (s : Store) : Option (Frame × Store) :=
  match s.inner with
  | [] => none
  | frame :: rest => some (frame, { s with inner := rest })

/-! ### Positional parameters -/

/-- The positional parameters of the innermost frame. -/
def positional (s : Store) : List String := s.current.positional

/-- The positional parameter of a number, which counts from one. -/
def getPositional? (s : Store) : Int → Option String
  | .ofNat (n + 1) => s.positional[n]?
  | _ => none

/-- Replaces the positional parameters of the innermost frame. -/
def setPositional (s : Store) (args : List String) : Store :=
  s.modifyCurrent fun frame => { frame with positional := args }

/-! ### Variables -/

/-- The innermost binding of a name. -/
def lookup (s : Store) (name : String) : Option Binding :=
  s.frames.findSome? fun frame => frame.bindings.get? name

/-- The binding of a name in a scope. -/
def find? (s : Store) (scope : Scope) (name : String) : Option Binding :=
  match scope with
  | .nearest => s.lookup name
  | .current => s.current.bindings.get? name
  | .outermost => s.outermost.bindings.get? name

/-- Changes the first frame that binds a name; `none` when there is no such frame. -/
def modifyHolder? (name : String) (f : Frame → Frame) : List Frame → Option (List Frame)
  | [] => none
  | frame :: rest =>
    if (frame.bindings.get? name).isSome then some (f frame :: rest)
    else (modifyHolder? name f rest).map (frame :: ·)

/-- Binds a name in a scope. -/
def bind (s : Store) (scope : Scope) (name : String) (b : Binding) : Store :=
  match scope with
  | .nearest =>
    match modifyHolder? name (·.bind name b) s.inner with
    | some inner => { s with inner := inner }
    | none => { s with outermost := s.outermost.bind name b }
  | .current => s.modifyCurrent (·.bind name b)
  | .outermost => { s with outermost := s.outermost.bind name b }

/-- Removes the innermost binding of a name. -/
def unbind (s : Store) (name : String) : Store :=
  match modifyHolder? name (·.unbind name) s.inner with
  | some inner => { s with inner := inner }
  | none => { s with outermost := s.outermost.unbind name }

/-- The texts with one more, in ascending order and each of them once. -/
def insertSorted (text : String) : List String → List String
  | [] => [text]
  | first :: rest =>
    if text < first then text :: first :: rest
    else if text = first then first :: rest
    else first :: insertSorted text rest

/-- All names that a frame binds, in ascending order. -/
def boundNames (s : Store) : List String :=
  (s.frames.flatMap (·.bindings.keys)).foldr insertSorted []

/-- All names that a frame binds to a value, in ascending order. -/
def names (s : Store) : List String :=
  (s.frames.flatMap fun frame =>
    (frame.bindings.entries.filter (·.2.value ≠ .unset)).map Prod.fst).foldr insertSorted []

end Store

end ShellExpansion
