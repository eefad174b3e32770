import ShapeQuake.Allocator
import ShapeQuake.ShellCore

/-! Here-documents in the shell's `redirect.c`: lines are read from the standard
input into an arena until the delimiter, and the arena's blocks are then copied
into one buffer. A pointer that is null where it is followed, and a store past the
end of the buffer, have no result; nor has a wait for a lock nobody releases. -/
namespace ShapeQuake.Heredoc
open Library.Bytes Allocator
open ShellCore (commandLineBufSize)

/-- The byte `'\n'`. -/
def newline : UInt8 := 0x0a

/-- The byte `'\r'`. -/
def carriageReturn : UInt8 := 0x0d

/-- `sq_heredoc_t`. -/
structure SqHeredoc where
  arena : Option Arena
  delimiter : Option (List UInt8)
  totalSize : Nat

/-- `sq_heredoc_init`, with memory for the context, the arena, its first block and
the copy of the delimiter, or without. -/
def sqHeredocInit (delimiter : List UInt8) (room arenaRoom : Bool) (arenaBlock : Option Nat)
    (copied : Bool) : Option SqHeredoc :=
  if room then
    some
      { arena := arenaInit commandLineBufSize arenaRoom arenaBlock
        delimiter := if copied then some (untilNull delimiter) else none
        totalSize := 0 }
  else none

/-- Bytes up to the first newline, newline included. -/
def throughNewline : List UInt8 → List UInt8
  | [] => []
  | byte :: rest => if byte = newline then [byte] else byte :: throughNewline rest

/-- `fgets`: what is read and what is left, or nothing at the end of the input. -/
def fgets (size : Nat) (stdin : List UInt8) : Option (List UInt8 × List UInt8) :=
  if stdin = [] then none
  else
    let line := throughNewline (stdin.take (size - 1))
    some (line, stdin.drop line.length)

/-- The check for the delimiter: the line starts with it, and a newline, a carriage
return or the line's end comes next. -/
def isDelimiter (delimiter line : List UInt8) : Bool :=
  delimiter.isPrefixOf (untilNull line) &&
    [newline, carriageReturn, 0].contains ((untilNull line).getD delimiter.length 0)

/-- At most this many turns of the reading loop. `malloc` answers by the number of
the turn; sizes are those of memory that is there, so their sums do not wrap. -/
def readLoop (delimiter : List UInt8) (malloc : Nat → Option Nat) :
    Nat → Nat → Arena → Nat → List UInt8 → Option (Arena × Nat × List UInt8)
  | 0, _, arena, totalSize, stdin => some (arena, totalSize, stdin)
  | turns + 1, turn, arena, totalSize, stdin =>
    match fgets commandLineBufSize stdin with
    | none => some (arena, totalSize, stdin)
    | some (line, rest) =>
      if isDelimiter delimiter line then some (arena, totalSize, rest)
      else
        let text := untilNull line
        match arenaAlloc arena text.length (malloc turn) with
        | none => none
        | some (arena, none) => readLoop delimiter malloc turns (turn + 1) arena totalSize rest
        | some (arena, some saved) =>
          readLoop delimiter malloc turns (turn + 1) (arena.write saved text)
            (totalSize + text.length) rest

/-- The flattening loop, into a buffer of this size: the buffer and `current_pos`. -/
def flattenLoop (size : Nat) (flat : Store) (currentPos : Nat) :
    List ArenaBlock → Option (Store × Nat)
  | [] => some (flat, currentPos)
  | b :: next =>
    if b.offset > 0 then
      if currentPos + b.offset ≤ size then
        flattenLoop size (writeBytes flat currentPos (readBytes b.data 0 b.offset))
          (currentPos + b.offset) next
      else none
    else flattenLoop size flat currentPos next

/-- What `sq_heredoc_read_all` leaves: the buffer returned, with the end of what
was copied into it, the context and the rest of the input. -/
structure ReadAll where
  flat : Option (Store × Nat)
  hd : SqHeredoc
  stdin : List UInt8

/-- `sq_heredoc_read_all`, with memory for the buffer or without, and what that
memory holds at first. Each turn reads a byte at least, so there are enough. -/
def sqHeredocReadAll (hd : SqHeredoc) (stdin : List UInt8) (malloc : Nat → Option Nat)
    (room : Bool) (junk : Store) : Option ReadAll :=
  match hd.arena, hd.delimiter with
  | some arena, some delimiter => do
    let (arena, totalSize, rest) ←
      readLoop delimiter malloc stdin.length 0 arena hd.totalSize stdin
    let hd := { hd with arena := some arena, totalSize }
    if room = false then return ⟨none, hd, rest⟩
    else
      let (flat, currentPos) ← flattenLoop (totalSize + 1) junk 0 arena.blocks.chain
      return ⟨some (writeBytes flat totalSize [0], currentPos), hd, rest⟩
  | _, _ => none

end ShapeQuake.Heredoc
