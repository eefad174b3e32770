import ShapeQuake.Pipeline

/-! Redirections in the shell's `redirect.c`: `handle_redirection` walks through `argv`
in place, opens the files that are asked for and removes each operator with its file
name. A read of `argv` behind its first null has no result. -/
namespace ShapeQuake.Redirect
open Pipeline (Token stdin stdout)

/-- The byte `'>'`. -/
def greater : UInt8 := 0x3e

/-- The byte `'<'`. -/
def less : UInt8 := 0x3c

/-- The flags of an `open`: `O_RDONLY`, or `O_WRONLY | O_CREAT` with `O_TRUNC` or with
`O_APPEND`. -/
inductive Flags where
  | input
  | truncate
  | append
  deriving DecidableEq, Repr

/-- The descriptor that a file opened with these flags is moved to. -/
def Flags.target : Flags → Nat
  | .input => stdin
  | .truncate | .append => stdout

/-- What is asked for: the element read as an operator, the file and how to open it. -/
structure Request where
  operator : Token
  filename : Token
  flags : Flags
  deriving DecidableEq, Repr

/-- A call of `open` and its answer. -/
structure Opening where
  request : Request
  fd : Option Nat
  deriving DecidableEq, Repr

/-- What a descriptor leads to: a file that was open before, or the one that the call
of `open` with this number opened. -/
inductive File where
  | before (file : Pipeline.File)
  | opened (call : Nat)
  deriving DecidableEq, Repr

/-- The descriptors of the process. -/
abbrev Descriptors := Nat → Option File

/-- The variables of `handle_redirection` and the calls of `open` so far. -/
structure Scan where
  argv : List (Option Token)
  i : Nat
  fds : Descriptors
  openings : List Opening

/-- `argv[i]`. -/
def cell (argv : List (Option Token)) (i : Nat) : Option (Option Token) :=
  if (argv.take i).all Option.isSome then argv[i]? else none

/-- `open` and, where it succeeds, `dup2` and `close`. -/
def redirect (answers : Nat → Option Nat) (scan : Scan) (request : Request) : Scan :=
  let call := scan.openings.length
  let fds :=
    match answers call with
    | none => scan.fds
    | some fd =>
      let opened := Function.update scan.fds fd (some (.opened call))
      Function.update (Function.update opened request.flags.target (opened fd)) fd none
  { scan with fds, openings := scan.openings ++ [⟨request, answers call⟩] }

/-- What is done about one element, and `processed`. -/
def treat (answers : Nat → Option Nat) (scan : Scan) (t : Token) : Option (Scan × Bool) :=
  if t.getD 0 0 = greater then do
    match ← cell scan.argv (scan.i + 1) with
    | some filename =>
      let flags := if t.getD 1 0 = greater then .append else .truncate
      return (redirect answers scan ⟨t, filename, flags⟩, true)
    | none => return (scan, false)
  else if t.getD 0 0 = less ∧ t.getD 1 0 = 0 then do
    match ← cell scan.argv (scan.i + 1) with
    | some filename => return (redirect answers scan ⟨t, filename, .input⟩, true)
    | none => return (scan, false)
  else return (scan, false)

/-- At most this many turns of the shift. It stores below the cells it reads. -/
def shift : Nat → List (Option Token) → Nat → Option (List (Option Token))
  | 0, _, _ => none
  | turns + 1, argv, j => do
    match ← cell argv (j + 2) with
    | some token => shift turns (argv.set j (some token)) (j + 1)
    | none => return argv.set j none

/-- At most this many turns of the walk. -/
def walk (answers : Nat → Option Nat) : Nat → Scan → Option Scan
  | 0, _ => none
  | turns + 1, scan => do
    match ← cell scan.argv scan.i with
    | none => return scan
    | some t =>
      let (scan, processed) ← treat answers scan t
      if processed then
        let argv ← shift scan.argv.length scan.argv scan.i
        walk answers turns { scan with argv }
      else walk answers turns { scan with i := scan.i + 1 }

/-- `handle_redirection`, where `open` answers by the number of the call. A turn moves
on by a cell or takes two away, so there are turns enough. -/
def handleRedirection (answers : Nat → Option Nat) (argv : List (Option Token))
    (fds : Descriptors) : Option Scan :=
  walk answers argv.length ⟨argv, 0, fds, []⟩

/-- The elements of `argv`, up to its null. -/
def elements (argv : List (Option Token)) : List Token := (argv.takeWhile Option.isSome).reduceOption

end ShapeQuake.Redirect
