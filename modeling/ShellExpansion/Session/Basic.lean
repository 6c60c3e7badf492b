import ShellExpansion.Session.Action

/-! # Sessions

A session is a list of steps that run one after the other against one shell, each of them
answered. A step is an action, a function call around steps of its own, or a subshell, whose steps
change a copy of the shell only. A failed step changes nothing about the steps behind it, unless
its call or subshell is to be left at the first failure. -/

namespace ShellExpansion

/-- What a shell starts with. -/
structure Config where
  /-- Variables of the environment; names that are no identifiers are left out. -/
  environment : List (String × String)
  nounset : Bool
  positional : List String
  scriptName : String
  limits : Limits
deriving DecidableEq, Repr

/-- The shell that a configuration describes: the variables of its environment are exported. -/
def Shell.new (config : Config) : Shell :=
  let named := config.environment.filter fun entry => isIdentifier entry.1
  let bindings := Table.ofList (named.map fun entry =>
    (entry.1, (⟨.scalar entry.2, ⟨false, false, true⟩, 0⟩ : Binding)))
  { store := ⟨[], ⟨Store.outermostName, config.positional, bindings⟩, config.limits⟩
    nounset := config.nounset
    scriptName := config.scriptName
    arithDepth := 0 }

/-- A step of a session. -/
inductive Step
  | act (action : Action)
  /-- Steps inside a function call; with `stop`, the first of them that fails ends the call. -/
  | call (name : String) (args : List String) (stop : Bool) (steps : List Step)
  /-- Steps on a copy of the shell; with `stop`, the first of them that fails ends them. -/
  | subshell (stop : Bool) (steps : List Step)
deriving Repr

/-- The answer to a step. -/
inductive Answer
  | ok (reply : Reply)
  | failed (fault : Fault)
  /-- A call or subshell came to its end: the answers inside, the number of calls under way
  afterwards, and the last state of a subshell. -/
  | finished (answers : List Answer) (depth : Nat) (fork : Option Shell)
  /-- A call or subshell was left by a fault. -/
  | interrupted (fault : Fault) (answers : List Answer) (depth : Nat)

namespace Answer

/-- The fault of an action. Faults inside calls and subshells are not counted. -/
def fault? : Answer → Option Fault
  | failed fault => some fault
  | _ => none

end Answer

/-- The answer to a call or subshell from what its steps gave. -/
def Answer.ofSteps (answers : List Answer) (fault : Option Fault) (depth : Nat)
    (fork : Option Shell) : Answer :=
  match fault with
  | some fault => .interrupted fault answers depth
  | none => .finished answers depth fork

/-- Runs an action. -/
def Action.step (action : Action) (shell : Shell) : Answer × Shell :=
  match action.run shell with
  | (.ok reply, shell) => (.ok reply, shell)
  | (.error fault, shell) => (.failed fault, shell)

mutual

/-- Runs a step: its answer, and the shell afterwards. -/
def Step.run : Step → Shell → Answer × Shell
  | .act action, shell => action.step shell
  | .call name args stop steps, shell =>
    match shell.store.push name args with
    | .error e => (.interrupted (.error e) [] shell.store.depth, shell)
    | .ok store =>
      let (answers, fault, shell) := runSteps stop steps { shell with store := store }
      match shell.store.pop? with
      | some (_, store) =>
        (Answer.ofSteps answers fault store.depth none, { shell with store := store })
      | none => (.interrupted .outermostFrame answers shell.store.depth, shell)
  | .subshell stop steps, shell =>
    let (answers, fault, fork) := runSteps stop steps { shell with arithDepth := 0 }
    (Answer.ofSteps answers fault shell.store.depth (some fork), shell)

/-- Runs steps one after the other, up to the first that fails if `stop`: the answers, the fault
that ended the steps, and the shell afterwards. -/
def runSteps (stop : Bool) : List Step → Shell → List Answer × Option Fault × Shell
  | [], shell => ([], none, shell)
  | step :: rest, shell =>
    let (answer, shell) := step.run shell
    match stop, answer.fault? with
    | true, some fault => ([answer], some fault, shell)
    | _, _ =>
      let (answers, fault, shell) := runSteps stop rest shell
      (answer :: answers, fault, shell)

end

/-- A session: what the shell starts with, and the steps. -/
structure Session where
  config : Config
  steps : List Step
deriving Repr

/-- Runs a session: the answers to its steps, and the shell at its end. -/
def Session.run (session : Session) : List Answer × Shell :=
  let (answers, _, shell) := runSteps false session.steps (Shell.new session.config)
  (answers, shell)

end ShellExpansion
