import ShapeQuake.ArenaMemory
import ShapeQuake.ServerContexts

/-! The command log of `storage.c`: `sq_db_save_backlog` appends to the table, and
`sq_load_backlog` builds records from its rows in the arena of the context. The
writer stores five columns; the reader asks for six and puts three of them into
the record. What is printed on the way is left out. -/
namespace ShapeQuake.Storage
open Library.Bytes Allocator AllocatorInvariants ArenaMemory ServerContexts

/-! ## The program -/

/-- A value in a table. -/
inductive Value where
  | null
  | integer (n : Int)
  | text (bytes : List UInt8)
  deriving DecidableEq, Repr

/-- What the code uses of SQLite, over databases of this type: statements that are
prepared, bound and stepped to their end, with no result where they cannot be
prepared and whether the last step was `SQLITE_DONE`, and the reading of columns. -/
structure Sqlite (Db : Type) where
  insert : Db → String → List String → List Value → Option (Db × Bool)
  select : Db → String → List String → Option (List (List Value))
  columnInt64 : Value → Int
  columnText : Value → Option (List UInt8)

/-- The table of the log. -/
def commandLogs : String := "command_logs"

/-- The columns that are inserted. -/
def insertedColumns : List String := ["timestamp", "project", "working_dir", "command", "output"]

/-- The columns that are selected. -/
def selectedColumns : List String := ["id", "timestamp", "project", "working_dir", "command", "output"]

/-- `sq_db_record_t`, with the strings that its pointers lead to. -/
structure SqDbRecord where
  id : UInt32
  timestamp : UInt32
  command : Option (List UInt8)
  workingDir : Option (List UInt8)
  projectName : Option (List UInt8)
  deriving DecidableEq, Repr

/-- `sizeof(sq_db_record_t)`. -/
def sizeofSqDbRecord : Nat := 32

/-- `offsetof` its fields. -/
def offsetofId : Nat := 0
def offsetofTimestamp : Nat := 4
def offsetofCommand : Nat := 8
def offsetofWorkingDir : Nat := 16
def offsetofProjectName : Nat := 24

/-- The string bound for a pointer: `s ? s : ""`. -/
def textOf (s : Option (List UInt8)) : List UInt8 := untilNull (s.getD [])

section
variable {Db : Type} (sqlite : Sqlite Db)

/-- `sq_db_save_backlog`, with the database behind the handle of the context. Where the
statement cannot be prepared it does not come back from printing that. -/
def sqDbSaveBacklog (db : Db) (ctxServer : Option SqServerContext) (record : Option SqDbRecord)
    (cmd output : Option (List UInt8)) : Option (Db × Int) :=
  match ctxServer, record, cmd with
  | some ctx, some record, some cmd =>
    if ctx.ctxDb.hDb.isNone then some (db, -1)
    else
      match sqlite.insert db commandLogs insertedColumns
          [.integer record.timestamp.toNat, .text (textOf record.projectName),
            .text (textOf record.workingDir), .text (untilNull cmd), .text (textOf output)] with
      | none => (dbgmsg (asStatus .db .fatal .dbInsert)).map fun _ => (db, -1)
      | some (db, done) => some (db, if done then 0 else -1)
  | _, _, _ => some (db, -1)

/-- A pointer to a field of what another points to. -/
def field (rec : Pointer) (offset : Nat) : Pointer := { rec with offset := rec.offset + offset }

/-- The copying of one text column, or the literal `""` for a null, with the address
stored in a field of the record. -/
def copyText (arena : Arena) (literal : Nat) (into : Pointer) (column : Option (List UInt8))
    (malloc : Option Nat) : Option Arena :=
  match column with
  | some text => do
    let len := (untilNull text).length + 1
    let (arena, buf) ← arenaAlloc arena len malloc
    match buf with
    | some buf => return (arena.write buf (untilNull text ++ [0])).write into (toBytes 8 buf.address)
    | none => return arena
  | none => some (arena.write into (toBytes 8 literal))

/-- One turn of the loop of `sq_load_backlog`: the record, unless there was no memory
for it. `malloc` answers by the number of the request. -/
def loadRow (literal : Nat) (arena : Arena) (row : List Value) (malloc : Nat → Option Nat) :
    Option (Arena × Option Pointer) := do
  let timestamp := sqlite.columnInt64 (row.getD 1 .null)
  let projectName := sqlite.columnText (row.getD 2 .null)
  let workingDir := sqlite.columnText (row.getD 3 .null)
  let (arena, rec) ← arenaAlloc arena sizeofSqDbRecord (malloc 0)
  match rec with
  | none => return (arena, none)
  | some rec =>
    let arena := arena.write (field rec offsetofTimestamp) (toBytes 4 (timestamp % 2 ^ 32).toNat)
    let arena ← copyText arena literal (field rec offsetofProjectName) projectName (malloc 1)
    let arena ← copyText arena literal (field rec offsetofWorkingDir) workingDir (malloc 2)
    return (arena, some rec)

/-- The loop of `sq_load_backlog`, and the records it built. -/
def loadRows (literal : Nat) : Arena → List (List Value) → (Nat → Nat → Option Nat) →
    Option (Arena × List Pointer)
  | arena, [], _ => some (arena, [])
  | arena, row :: rows, malloc => do
    let (arena, rec) ← loadRow sqlite literal arena row (malloc 0)
    match rec with
    | none => return (arena, [])
    | some rec =>
      let (arena, others) ← loadRows literal arena rows fun turn => malloc (turn + 1)
      return (arena, rec :: others)

/-- `sq_load_backlog`, where the literal `""` is at this address. It follows a null
pointer if there is a row and no cache. -/
def sqLoadBacklog (literal : Nat) (db : Db) (ctxServer : Option SqServerContext)
    (malloc : Nat → Nat → Option Nat) : Option (Option SqServerContext × List Pointer) :=
  match ctxServer with
  | none => some (none, [])
  | some ctx =>
    if ctx.ctxDb.hDb.isNone then some (some ctx, [])
    else
      match sqlite.select db commandLogs selectedColumns with
      | none => some (some ctx, [])
      | some [] => some (some ctx, [])
      | some rows => do
        let cache ← ctx.ctxDb.arenaRecordCache
        let (cache, loaded) ← loadRows sqlite literal cache rows malloc
        return (some { ctx with ctxDb := { ctx.ctxDb with arenaRecordCache := some cache } }, loaded)

end

/-- The word in a field of the record that a pointer leads to. -/
def wordAt (arena : Arena) (rec : Pointer) (offset width : Nat) : Nat :=
  match arena.blocks.chain.find? (·.address = rec.block) with
  | some block => ofBytes (readBytes block.data (rec.offset + offset) width)
  | none => 0

/-- The C string at an address of the arena, or the literal. -/
def stringAt (arena : Arena) (literal address : Nat) : Option (List UInt8) :=
  match arena.blocks.chain.find? fun block =>
      block.address + sizeofArenaBlock ≤ address ∧
        address < block.address + sizeofArenaBlock + block.capacity with
  | some block =>
    let offset := address - (block.address + sizeofArenaBlock)
    some (untilNull (readBytes block.data offset (block.capacity - offset)))
  | none => if address = literal ∧ address ≠ 0 then some [] else none

/-- What a record in the cache reads as. -/
def recordAt (arena : Arena) (literal : Nat) (rec : Pointer) : SqDbRecord where
  id := UInt32.ofNat (wordAt arena rec offsetofId 4)
  timestamp := UInt32.ofNat (wordAt arena rec offsetofTimestamp 4)
  command := stringAt arena literal (wordAt arena rec offsetofCommand 8)
  workingDir := stringAt arena literal (wordAt arena rec offsetofWorkingDir 8)
  projectName := stringAt arena literal (wordAt arena rec offsetofProjectName 8)

end ShapeQuake.Storage
