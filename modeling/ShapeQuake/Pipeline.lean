import ShapeQuake.Library.Runs
import Mathlib.Data.List.ReduceOption
import Mathlib.Logic.Function.Basic

/-! Pipelines: `extract_pipe` of `pipe.c`, where one process, the manager, cuts `argv`
at its bars and forks a child for each piece. The steps of all these processes may
interleave. A child is followed up to `handle_redirection`; what it does from there
on is its own affair, until it ends. -/
namespace ShapeQuake.Pipeline
open Library.Runs

/-- A token: the bytes of a C string. -/
abbrev Token := List UInt8

/-- `"|"`. -/
def bar : Token := [0x7c]

/-- `STDIN_FILENO`. -/
def stdin : Nat := 0

/-- `STDOUT_FILENO`. -/
def stdout : Nat := 1

/-- `STDERR_FILENO`. -/
def stderr : Nat := 2

/-- What a descriptor leads to: an end of a pipe made here, counted from zero, or a
file that was open before. -/
inductive File where
  | readEnd (pipe : Nat)
  | writeEnd (pipe : Nat)
  | other (file : Nat)
  deriving DecidableEq, Repr

/-- The descriptors that a process has open. -/
abbrev Descriptors := Nat → Option File

/-- A call that a child makes before it gets to `handle_redirection`. -/
inductive Call where
  | dup2 (oldFd newFd : Nat)
  | close (fd : Nat)
  deriving DecidableEq, Repr

/-- What the kernel does about it. -/
def Call.run (fds : Descriptors) : Call → Descriptors
  | .dup2 oldFd newFd =>
    match fds oldFd with
    | some file => Function.update fds newFd (some file)
    | none => fds
  | .close fd => Function.update fds fd none

/-- A child: its `current_argv`, and the calls it has still to make. -/
structure Child where
  argv : List Token
  fds : Descriptors
  calls : List Call
  exited : Bool
  reaped : Bool

/-- Where the manager is. -/
inductive Place where
  /-- at the top of the loop -/
  | scan
  /-- before `pipe` -/
  | piping
  /-- before `fork` -/
  | forking
  /-- behind `fork` -/
  | forked
  /-- behind the closing of `prev_fd`, with a piece to follow -/
  | closing
  /-- in the last loop -/
  | waiting (j : Nat)
  | exited (code : Nat)
  deriving DecidableEq, Repr

/-- The variables of `extract_pipe`. A `prev_fd` of `-1` is `none`. -/
structure Manager where
  argv : List (Option Token)
  i : Nat
  cmdStart : Nat
  prevFd : Option Nat
  childCount : Nat
  pFds : Nat × Nat
  hasNext : Bool
  savedToken : Option Token
  fds : Descriptors
  place : Place

/-- All processes, the pipes made and the waits that returned so far. -/
structure State where
  manager : Manager
  children : List Child
  pipes : Nat
  waits : Nat

/-- `argv` in memory. -/
def terminated (argv : List Token) : List (Option Token) := argv.map some ++ [none]

/-- The files that the caller has open. -/
def inherited (files : Nat → Option Nat) : Descriptors := fun fd => (files fd).map .other

/-- The call of `extract_pipe`. -/
def start (argv : List Token) (files : Nat → Option Nat) : State :=
  { manager :=
      { argv := terminated argv, i := 0, cmdStart := 0, prevFd := none, childCount := 0
        pFds := (0, 0), hasNext := false, savedToken := none
        fds := inherited files, place := .scan }
    children := [], pipes := 0, waits := 0 }

/-- `current_argv`, up to the null it was cut at. -/
def Manager.currentArgv (manager : Manager) : List Token :=
  ((manager.argv.drop manager.cmdStart).takeWhile Option.isSome).reduceOption

/-- What a child does about `prev_fd`. -/
def Manager.inputCalls (manager : Manager) : List Call :=
  match manager.prevFd with
  | some fd => [.dup2 fd stdin, .close fd]
  | none => []

/-- What it does about a new pipe. -/
def Manager.outputCalls (manager : Manager) : List Call :=
  if manager.hasNext then
    [.close manager.pFds.1, .dup2 manager.pFds.2 stdout, .close manager.pFds.2]
  else []

/-- What a child does before `handle_redirection`. -/
def Manager.childCalls (manager : Manager) : List Call := manager.inputCalls ++ manager.outputCalls

/-- `if (prev_fd != -1) close(prev_fd)`. -/
def closePrev (manager : Manager) : Descriptors :=
  match manager.prevFd with
  | some fd => Function.update manager.fds fd none
  | none => manager.fds

/-- What can happen next: a step of the manager alone, the return of one of its
calls, the next call of a child, or the end of one. -/
inductive Event where
  | run
  | piped (answer : Option (Nat × Nat))
  | forked (successful : Bool)
  | waited (child : Option Nat)
  | called (child : Nat)
  | ended (child : Nat)
  deriving DecidableEq, Repr

/-- `pipe` and `fork` succeed. -/
def Succeeds : Event → Prop
  | .piped none | .forked false => False
  | _ => True

/-- A step of the manager between two calls. -/
def runManager (manager : Manager) : Option Manager :=
  match manager.place with
  | .scan =>
    let token := manager.argv.getD manager.i none
    if token = none ∨ token = some bar then
      let hasNext := decide (token = some bar)
      some { manager with
        hasNext
        savedToken := token
        argv := manager.argv.set manager.i none
        place := if hasNext then .piping else .forking }
    else some { manager with i := manager.i + 1 }
  | .forked =>
    some { manager with
      childCount := manager.childCount + 1
      fds := closePrev manager
      place := if manager.hasNext then .closing else .waiting 0 }
  | .closing =>
    some { manager with
      fds := Function.update manager.fds manager.pFds.2 none
      prevFd := some manager.pFds.1
      argv := manager.argv.set manager.i manager.savedToken
      cmdStart := manager.i + 1
      i := manager.i + 1
      place := .scan }
  | .waiting j => if j < manager.childCount then none else some { manager with place := .exited 0 }
  | _ => none

/-- `pipe`, which answers with free descriptors, or fails. -/
def pipeReturns (state : State) (answer : Option (Nat × Nat)) : Option State :=
  let manager := state.manager
  if manager.place = .piping then
    match answer with
    | none => some { state with manager := { manager with place := .exited 1 } }
    | some (readFd, writeFd) =>
      if manager.fds readFd = none ∧ manager.fds writeFd = none ∧ readFd ≠ writeFd then
        some { state with
          manager := { manager with
            pFds := (readFd, writeFd)
            fds := Function.update (Function.update manager.fds readFd (some (.readEnd state.pipes)))
              writeFd (some (.writeEnd state.pipes))
            place := .forking }
          pipes := state.pipes + 1 }
      else none
  else none

/-- `fork`. A failure goes on as the manager does. -/
def forkReturns (state : State) (successful : Bool) : Option State :=
  let manager := state.manager
  if manager.place = .forking then
    let child : Child := ⟨manager.currentArgv, manager.fds, manager.childCalls, false, false⟩
    some { state with
      manager := { manager with place := .forked }
      children := if successful then state.children ++ [child] else state.children }
  else none

/-- `wait`, which takes a child that ended, or fails where no child is left. -/
def waitReturns (state : State) (answer : Option Nat) : Option State :=
  let manager := state.manager
  match manager.place with
  | .waiting j =>
    if j < manager.childCount then
      let waited := { state with
        manager := { manager with place := .waiting (j + 1) }, waits := state.waits + 1 }
      match answer with
      | none => if state.children.all Child.reaped then some waited else none
      | some k =>
        match state.children[k]? with
        | some child =>
          if child.exited = true ∧ child.reaped = false then
            some { waited with children := state.children.set k { child with reaped := true } }
          else none
        | none => none
    else none
  | _ => none

/-- The next call of a child. -/
def childCalled (state : State) (k : Nat) : Option State :=
  match state.children[k]? with
  | some child =>
    match child.calls with
    | call :: calls =>
      some { state with children := state.children.set k { child with fds := call.run child.fds, calls } }
    | [] => none
  | none => none

/-- The end of a child that was handed over. -/
def childEnded (state : State) (k : Nat) : Option State :=
  match state.children[k]? with
  | some child =>
    if child.calls = [] ∧ child.exited = false then
      some { state with children := state.children.set k { child with exited := true } }
    else none
  | none => none

/-- One step of one of the processes. -/
def step (state : State) : Event → Option State
  | .run => (runManager state.manager).map fun manager => { state with manager }
  | .piped answer => pipeReturns state answer
  | .forked successful => forkReturns state successful
  | .waited answer => waitReturns state answer
  | .called k => childCalled state k
  | .ended k => childEnded state k

end ShapeQuake.Pipeline
