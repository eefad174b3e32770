import ShapeQuake.Storage

/-! What comes back of the command log. The records built from the rows have the
right timestamps and their two strings; `sq_load_backlog` never stores the number
of a row nor its command, so those two fields stay zero. -/
namespace ShapeQuake.StorageProofs
open Library.Bytes Allocator AllocatorInvariants ArenaMemory ServerContexts Storage

/-! ## The table -/

/-- A row: its number and what was inserted into it. -/
structure Row where
  id : Nat
  columns : List (String × Value)

def Row.column (row : Row) (name : String) : Value :=
  if name = "id" then .integer row.id else (row.columns.lookup name).getD .null

/-- What SQLite is documented to do with the table of the log: an insertion that is
done adds a row, with a number above all others; a selection gives the rows in the
order of their numbers; and columns read as the values that were bound. -/
structure Keeps (sqlite : Sqlite Db) (rows : Db → List Row) : Prop where
  inserted : sqlite.insert db commandLogs columns values = some (next, true) →
    ∃ id, 0 < id ∧ (∀ row ∈ rows db, row.id < id) ∧ rows next = rows db ++ [⟨id, columns.zip values⟩]
  selected : ∀ db columns,
    sqlite.select db commandLogs columns = some ((rows db).map fun row => columns.map row.column)
  integer : ∀ n, -2 ^ 63 ≤ n → n < 2 ^ 63 → sqlite.columnInt64 (.integer n) = n
  text : ∀ bytes, sqlite.columnText (.text bytes) = some bytes

/-- The arguments of one `sq_db_save_backlog`. -/
structure Save where
  record : SqDbRecord
  cmd : List UInt8
  output : Option (List UInt8)

/-- The values that a call binds. -/
def Save.values (save : Save) : List Value :=
  [.integer save.record.timestamp.toNat, .text (textOf save.record.projectName),
    .text (textOf save.record.workingDir), .text (untilNull save.cmd), .text (textOf save.output)]

/-- Calls of `sq_db_save_backlog` one after the other, all of them successful. -/
def saveAll (sqlite : Sqlite Db) (ctx : SqServerContext) (db : Db) : List Save → Option Db
  | [] => some db
  | save :: saves =>
    match sqDbSaveBacklog sqlite db (some ctx) (some save.record) (some save.cmd) save.output with
    | some (db, 0) => saveAll sqlite ctx db saves
    | _ => none

/-- The row of a call. -/
def savedRow (id : Nat) (save : Save) : Row := ⟨id, insertedColumns.zip save.values⟩

/-- Each successful call adds its row. -/
theorem saveAll_rows (keeps : Keeps sqlite rows) (saved : saveAll sqlite ctx db saves = some after) :
    ∃ ids, ids.length = saves.length ∧ rows after = rows db ++ List.zipWith savedRow ids saves := by
  induction saves generalizing db with
  | nil =>
    cases saved
    exact ⟨[], rfl, by simp⟩
  | cons save saves ih =>
    rw [saveAll] at saved
    split at saved
    · rename_i next called
      simp only [sqDbSaveBacklog] at called
      split at called
      · cases called
      · split at called
        · cases called
        · rename_i inserted
          split at called
          · rename_i done
            cases called
            rw [done] at inserted
            obtain ⟨id, _, _, added⟩ := keeps.inserted inserted
            obtain ⟨ids, count, all⟩ := ih saved
            refine ⟨id :: ids, by rw [List.length_cons, count, List.length_cons], ?_⟩
            rw [all, added, List.append_assoc]
            rfl
          · cases called
    · cases saved

/-! ## The cache -/

/-- Memory for a text column, if it has one. -/
def TextServed (arena : Arena) (column : Option (List UInt8)) (malloc : Option Nat) : Prop :=
  ∀ text ∈ column, Served arena ((untilNull text).length + 1) malloc

/-- The bytes of the timestamp of a row. -/
def stampOf (sqlite : Sqlite Db) (row : List Value) : List UInt8 :=
  toBytes 4 (sqlite.columnInt64 (row.getD 1 .null) % 2 ^ 32).toNat

/-- Memory for what one row asks for. -/
def RowServed (sqlite : Sqlite Db) (literal : Nat) (arena : Arena) (row : List Value)
    (malloc : Nat → Option Nat) : Prop :=
  Served arena sizeofSqDbRecord (malloc 0) ∧
    ∀ after rec, arenaAlloc arena sizeofSqDbRecord (malloc 0) = some (after, some rec) →
      let stamped := after.write (field rec offsetofTimestamp) (stampOf sqlite row)
      TextServed stamped (sqlite.columnText (row.getD 2 .null)) (malloc 1) ∧
        ∀ named, copyText stamped literal (field rec offsetofProjectName)
            (sqlite.columnText (row.getD 2 .null)) (malloc 1) = some named →
          TextServed named (sqlite.columnText (row.getD 3 .null)) (malloc 2)

/-- Memory for all rows. -/
def RowsServed (sqlite : Sqlite Db) (literal : Nat) :
    Arena → List (List Value) → (Nat → Nat → Option Nat) → Prop
  | _, [], _ => True
  | arena, row :: rows, malloc => RowServed sqlite literal arena row (malloc 0) ∧
    ∀ after rec, loadRow sqlite literal arena row (malloc 0) = some (after, some rec) →
      RowsServed sqlite literal after rows fun turn => malloc (turn + 1)

/-- The string of a text column lies in memory where a field of the record says. -/
def TextHeld (arena : Arena) (into : Pointer) (column : Option (List UInt8)) : Prop :=
  ∃ text buf, column = some text ∧ Holds arena into (toBytes 8 buf.address) ∧
    Holds arena buf (untilNull text ++ [0])

/-- What the loop stores of a row, and what it leaves zero. -/
structure Loaded (sqlite : Sqlite Db) (arena : Arena) (rec : Pointer) (row : List Value) : Prop where
  id : Holds arena (field rec offsetofId) (toBytes 4 0)
  timestamp : Holds arena (field rec offsetofTimestamp) (stampOf sqlite row)
  command : Holds arena (field rec offsetofCommand) (toBytes 8 0)
  workingDir : TextHeld arena (field rec offsetofWorkingDir) (sqlite.columnText (row.getD 3 .null))
  projectName : TextHeld arena (field rec offsetofProjectName) (sqlite.columnText (row.getD 2 .null))

private theorem textHeld_mono (held : TextHeld arena into column)
    (keeps : ∀ older bytes, Holds arena older bytes → Holds next older bytes) :
    TextHeld next into column := by
  obtain ⟨text, buf, same, address, content⟩ := held
  exact ⟨text, buf, same, keeps _ _ address, keeps _ _ content⟩

theorem loaded_mono (loaded : Loaded sqlite arena rec row)
    (keeps : ∀ older bytes, Holds arena older bytes → Holds next older bytes) :
    Loaded sqlite next rec row :=
  ⟨keeps _ _ loaded.id, keeps _ _ loaded.timestamp, keeps _ _ loaded.command,
    textHeld_mono loaded.workingDir keeps, textHeld_mono loaded.projectName keeps⟩

/-- The copying of a text column stores the string behind everything that is held,
and changes nothing but the field for its address. -/
theorem copyText_holds (literal : Nat) (ready : Ready arena) (room : Room arena into 8)
    (served : TextServed arena (some text) malloc) :
    ∃ next buf, copyText arena literal into (some text) malloc = some next ∧ Ready next ∧
      Holds next into (toBytes 8 buf.address) ∧ Holds next buf (untilNull text ++ [0]) ∧
      ∀ older bytes, Holds arena older bytes →
        (older.block = buf.block → older.offset + bytes.length ≤ buf.offset) ∧
        (Clear older bytes.length into 8 → Holds next older bytes) := by
  obtain ⟨grantable, after, buf, ran⟩ := served text rfl
  obtain ⟨readyAfter, fresh, kept⟩ := alloc_holds ready grantable ran
  have size : (untilNull text ++ [0]).length = (untilNull text).length + 1 := by simp
  have wide : (toBytes 8 buf.address).length = 8 := toBytes_length 8 buf.address
  obtain ⟨junk, eight, there⟩ := holds_of_room room
  obtain ⟨thereAfter, above⟩ := kept into junk there
  -- the string goes behind what is held, the address into a field that is
  have roomBuf : Room after buf (untilNull text ++ [0]).length := by
    have whole := room_of_holds fresh
    rwa [List.length_replicate, ← size] at whole
  obtain ⟨readyText, content, keptText⟩ := write_holds readyAfter roomBuf
  have apart (older : Pointer) (count : Nat)
      (below : older.block = buf.block → older.offset + count ≤ buf.offset) :
      Clear older count buf (untilNull text ++ [0]).length := fun same => .inl (below same)
  have roomInto : Room (after.write buf (untilNull text ++ [0])) into (toBytes 8 buf.address).length := by
    rw [wide, ← eight]
    exact room_of_holds (keptText into junk thereAfter (apart _ _ above))
  obtain ⟨readyAddress, address, keptAddress⟩ := write_holds readyText roomInto
  refine ⟨_, buf, by simp [copyText, ran], readyAddress, address, ?_, ?_⟩
  · refine keptAddress buf _ content fun same => .inr ?_
    rw [wide, ← eight]
    exact above same.symm
  · intro older bytes held
    obtain ⟨later, below⟩ := kept older bytes held
    refine ⟨below, fun clear => keptAddress older bytes (keptText older bytes later (apart _ _ below)) ?_⟩
    rwa [wide]

/-- Fields of one record are apart. -/
private theorem fields_clear (rec : Pointer) {first second count size : Nat}
    (apart : first + count ≤ second ∨ second + size ≤ first) :
    Clear (field rec first) count (field rec second) size := fun _ => by
  simp only [field]
  omega

/-- What lies before a record is apart from its fields. -/
private theorem field_clear {older rec : Pointer}
    (before : older.block = rec.block → older.offset + count ≤ rec.offset) (offset size : Nat) :
    Clear older count (field rec offset) size := fun same =>
  .inl (Nat.le_trans (before same) (Nat.le_add_right _ _))

/-- The zeroed record takes its timestamp: the other fields stay zero, and what lies
before the record stays. -/
private theorem stamp_holds (ready : Ready arena)
    (zeroed : Holds arena rec (List.replicate sizeofSqDbRecord 0)) (four : stamp.length = 4) :
    Ready (arena.write (field rec offsetofTimestamp) stamp) ∧
      Holds (arena.write (field rec offsetofTimestamp) stamp) (field rec offsetofTimestamp) stamp ∧
      (∀ offset width, offset + width ≤ sizeofSqDbRecord →
        offset + width ≤ offsetofTimestamp ∨ offsetofTimestamp + 4 ≤ offset →
        Holds (arena.write (field rec offsetofTimestamp) stamp) (field rec offset)
          (List.replicate width 0)) ∧
      ∀ older bytes, Holds arena older bytes →
        (older.block = rec.block → older.offset + bytes.length ≤ rec.offset) →
        Holds (arena.write (field rec offsetofTimestamp) stamp) older bytes := by
  have room := room_of_holds (holds_zeros zeroed (show offsetofTimestamp + 4 ≤ sizeofSqDbRecord by decide))
  rw [List.length_replicate, ← four] at room
  obtain ⟨readyStamp, stamped, kept⟩ := write_holds ready room
  rw [four] at kept
  refine ⟨readyStamp, stamped, fun offset width inside other => ?_, fun older bytes held before => ?_⟩
  · apply kept _ _ (holds_zeros zeroed inside)
    rw [List.length_replicate]
    exact fields_clear rec other
  · exact kept older bytes held (field_clear before _ _)

/-- One turn builds a record with the text columns of its row. -/
theorem loadRow_holds (ready : Ready arena) (name : sqlite.columnText (row.getD 2 .null) = some project)
    (dir : sqlite.columnText (row.getD 3 .null) = some workingDir)
    (served : RowServed sqlite literal arena row malloc) :
    ∃ next rec, loadRow sqlite literal arena row malloc = some (next, some rec) ∧ Ready next ∧
      Loaded sqlite next rec row ∧ ∀ older bytes, Holds arena older bytes → Holds next older bytes := by
  obtain ⟨⟨grantable, after, rec, ran⟩, texts⟩ := served
  obtain ⟨readyAfter, fresh, kept⟩ := alloc_holds ready grantable ran
  obtain ⟨nameServed, dirServed⟩ := texts after rec ran
  rw [name] at nameServed dirServed
  rw [dir] at dirServed
  have four : (stampOf sqlite row).length = 4 := toBytes_length 4 _
  obtain ⟨readyStamp, stamped, zeros, keptStamp⟩ := stamp_holds readyAfter fresh four
  have zeroName := zeros offsetofProjectName 8 (by decide) (by decide)
  have roomName := room_of_holds zeroName
  rw [List.length_replicate] at roomName
  obtain ⟨named, nameBuf, ranName, readyName, nameAt, nameText, keptName⟩ :=
    copyText_holds literal readyStamp roomName nameServed
  obtain ⟨aboveDir, zeroDir⟩ := keptName _ _ (zeros offsetofWorkingDir 8 (by decide) (by decide))
  have roomDir := room_of_holds (zeroDir (fields_clear rec (by decide)))
  rw [List.length_replicate] at roomDir aboveDir
  obtain ⟨next, dirBuf, ranDir, readyDir, dirAt, dirText, keptDir⟩ :=
    copyText_holds literal readyName roomDir (dirServed named ranName)
  -- what the copying of both texts leaves
  have later (older : Pointer) (bytes : List UInt8)
      (held : Holds (after.write (field rec offsetofTimestamp) (stampOf sqlite row)) older bytes)
      (clearName : Clear older bytes.length (field rec offsetofProjectName) 8)
      (clearDir : Clear older bytes.length (field rec offsetofWorkingDir) 8) : Holds next older bytes :=
    (keptDir older bytes ((keptName older bytes held).2 clearName)).2 clearDir
  rw [stampOf] at ranName
  refine ⟨next, rec, ?_, readyDir, ⟨?_, ?_, ?_, ?_, ?_⟩, fun older bytes held => ?_⟩
  · simp only [loadRow, ran, name, dir, Option.bind_eq_bind, Option.bind_some, ranName]
    rw [ranDir]
    rfl
  · exact later _ _ (zeros offsetofId 4 (by decide) (by decide)) (fields_clear rec (by decide))
      (fields_clear rec (by decide))
  · apply later _ _ stamped
    · rw [four]
      exact fields_clear rec (by decide)
    · rw [four]
      exact fields_clear rec (by decide)
  · exact later _ _ (zeros offsetofCommand 8 (by decide) (by decide)) (fields_clear rec (by decide))
      (fields_clear rec (by decide))
  · exact ⟨workingDir, dirBuf, dir, dirAt, dirText⟩
  · refine ⟨project, nameBuf, name, ?_, ?_⟩
    · apply (keptDir _ _ nameAt).2
      rw [toBytes_length]
      exact fields_clear rec (by decide)
    · -- the string was put behind the zeros of the field that is filled next
      exact (keptDir _ _ nameText).2 fun same => .inr (aboveDir same.symm)
  · obtain ⟨still, before⟩ := kept older bytes held
    exact later older bytes (keptStamp older bytes still before) (field_clear before _ _)
      (field_clear before _ _)

/-- A row whose text columns are not null. -/
def HasTexts (sqlite : Sqlite Db) (row : List Value) : Prop :=
  ∃ project workingDir, sqlite.columnText (row.getD 2 .null) = some project ∧
    sqlite.columnText (row.getD 3 .null) = some workingDir

/-- The loop builds one record a row, in their order. -/
theorem loadRows_holds (ready : Ready arena) (texts : ∀ row ∈ rows, HasTexts sqlite row)
    (served : RowsServed sqlite literal arena rows malloc) :
    ∃ next loaded, loadRows sqlite literal arena rows malloc = some (next, loaded) ∧ Ready next ∧
      List.Forall₂ (Loaded sqlite next) loaded rows ∧
      ∀ older bytes, Holds arena older bytes → Holds next older bytes := by
  induction rows generalizing arena malloc with
  | nil => exact ⟨arena, [], rfl, ready, .nil, fun _ _ held => held⟩
  | cons row rows ih =>
    obtain ⟨⟨project, workingDir, name, dir⟩, others⟩ := List.forall_mem_cons.mp texts
    obtain ⟨first, rec, ran, readyFirst, loaded, kept⟩ := loadRow_holds ready name dir served.1
    obtain ⟨next, more, ranMore, readyNext, loadedMore, keptMore⟩ :=
      ih readyFirst others (served.2 first rec ran)
    refine ⟨next, rec :: more, ?_, readyNext, .cons (loaded_mono loaded keptMore) loadedMore, ?_⟩
    · simp only [loadRows, ran, ranMore, Option.bind_eq_bind, Option.bind_some]
      rfl
    · exact fun older bytes held => keptMore older bytes (kept older bytes held)

/-! ## Reading the cache -/

private theorem find_address (ready : Ready arena) (member : block ∈ arena.blocks.chain)
    (address : block.address = place) :
    arena.blocks.chain.find? (·.address = place) = some block := by
  cases found : arena.blocks.chain.find? (·.address = place) with
  | none => simpa [address] using List.find?_eq_none.mp found block member
  | some other =>
    have start := List.find?_some found
    rw [decide_eq_true_eq] at start
    exact congrArg some (same_block ready.formed (List.mem_of_find?_eq_some found) member
      (start.trans address.symm))

/-- A field reads as the word that is held there. -/
theorem wordAt_of_holds (ready : Ready arena) (held : Holds arena (field rec offset) bytes) :
    wordAt arena rec offset bytes.length = ofBytes bytes := by
  obtain ⟨block, member, address, _, same⟩ := held
  rw [wordAt, find_address ready member (show block.address = rec.block from address)]
  exact congrArg ofBytes same

/-- An address of the arena reads as the C string that is held there. -/
theorem stringAt_of_holds (ready : Ready arena) (solid : 0 ∉ text) (held : Holds arena buf (text ++ [0])) :
    stringAt arena literal buf.address = some text := by
  obtain ⟨block, member, address, below, same⟩ := held
  have handed := (ready.formed.placed block member).handed
  rw [List.length_append, List.length_singleton] at below same
  have inside : block.address + sizeofArenaBlock ≤ buf.address ∧
      buf.address < block.address + sizeofArenaBlock + block.capacity := by
    rw [Pointer.address, address]
    omega
  have found : arena.blocks.chain.find? (fun block => block.address + sizeofArenaBlock ≤ buf.address ∧
      buf.address < block.address + sizeofArenaBlock + block.capacity) = some block := by
    cases search : arena.blocks.chain.find? (fun block => block.address + sizeofArenaBlock ≤ buf.address ∧
        buf.address < block.address + sizeofArenaBlock + block.capacity) with
    | none => simpa [inside] using List.find?_eq_none.mp search block member
    | some other =>
      have alsoInside := List.find?_some search
      rw [decide_eq_true_eq] at alsoInside
      by_contra different
      have apart := blocks_apart ready.formed (List.mem_of_find?_eq_some search) member fun start =>
        different (congrArg some (same_block ready.formed (List.mem_of_find?_eq_some search) member start))
      rcases apart with before | behind
      · simp only [ArenaBlock.span] at before
        omega
      · simp only [ArenaBlock.span] at behind
        omega
  have offset : buf.address - (block.address + sizeofArenaBlock) = buf.offset := by
    rw [Pointer.address, address]
    omega
  have whole : block.capacity - buf.offset =
      text.length + 1 + (block.capacity - buf.offset - (text.length + 1)) := by
    omega
  rw [stringAt, found]
  simp only [offset]
  rw [whole, readBytes_append, same, untilNull_terminated solid]

private theorem stringAt_null (arena : Arena) (literal : Nat) : stringAt arena literal 0 = none := by
  have nowhere : arena.blocks.chain.find? (fun block => block.address + sizeofArenaBlock ≤ 0 ∧
      0 < block.address + sizeofArenaBlock + block.capacity) = none := by
    refine List.find?_eq_none.mpr fun block _ => ?_
    simp [sizeofArenaBlock]
  rw [stringAt, nowhere]
  exact if_neg fun both => both.2 rfl

private theorem textHeld_reads (literal : Nat) (ready : Ready arena)
    (held : TextHeld arena (field rec offset) (some text)) :
    stringAt arena literal (wordAt arena rec offset 8) = some (untilNull text) := by
  obtain ⟨_, buf, same, address, content⟩ := held
  cases same
  have word := wordAt_of_holds ready address
  have bounds := (address_bounds ready (room_of_holds content)).2
  rw [toBytes_length, ofBytes_toBytes (by
    rw [List.length_append, List.length_singleton] at bounds
    omega)] at word
  rw [word]
  exact stringAt_of_holds ready (untilNull_solid text) content

/-- What was saved of a call, with the number of its row. -/
def savedRecord (id : Nat) (save : Save) : SqDbRecord :=
  ⟨UInt32.ofNat id, save.record.timestamp, some (untilNull save.cmd),
    some (textOf save.record.workingDir), some (textOf save.record.projectName)⟩

/-- What comes back: no number and no command. -/
def inPart (save : Save) : SqDbRecord :=
  ⟨0, save.record.timestamp, none, some (textOf save.record.workingDir),
    some (textOf save.record.projectName)⟩

/-- The columns of the row of a call, as they are selected. -/
private theorem selected_savedRow (id : Nat) (save : Save) :
    selectedColumns.map (savedRow id save).column = .integer id :: save.values := by
  simp [selectedColumns, savedRow, Row.column, insertedColumns, Save.values, List.lookup_cons]

private theorem stampOf_saved (keeps : Keeps sqlite table) (id : Nat) (save : Save) :
    ofBytes (stampOf sqlite (.integer id :: save.values)) = save.record.timestamp.toNat := by
  have small := save.record.timestamp.toNat_lt
  have bound : sqlite.columnInt64 (.integer save.record.timestamp.toNat) = save.record.timestamp.toNat :=
    keeps.integer _ (by omega) (by omega)
  have same : (sqlite.columnInt64 ((Value.integer id :: save.values).getD 1 .null) % 2 ^ 32).toNat =
      save.record.timestamp.toNat := by
    simp only [Save.values, List.getD_cons_succ, List.getD_cons_zero]
    rw [bound]
    omega
  rw [stampOf, same]
  exact ofBytes_toBytes small

/-- A record of the cache reads as what was saved, in part. -/
theorem loaded_reads {id : Nat} {save : Save} (literal : Nat) (keeps : Keeps sqlite table)
    (ready : Ready arena) (loaded : Loaded sqlite arena rec (.integer id :: save.values)) :
    recordAt arena literal rec = inPart save := by
  have number := wordAt_of_holds ready loaded.id
  have command := wordAt_of_holds ready loaded.command
  rw [toBytes_length, ofBytes_toBytes (by decide)] at number command
  have wide : (stampOf sqlite (.integer id :: save.values)).length = 4 := toBytes_length 4 _
  have time := wordAt_of_holds ready loaded.timestamp
  rw [wide, stampOf_saved keeps] at time
  have dir := loaded.workingDir
  have name := loaded.projectName
  simp only [Save.values, List.getD_cons_succ, List.getD_cons_zero, keeps.text] at dir name
  have again (s : Option (List UInt8)) : untilNull (textOf s) = textOf s :=
    untilNull_of_solid (untilNull_solid _)
  have dirReads := textHeld_reads literal ready dir
  have nameReads := textHeld_reads literal ready name
  rw [again] at dirReads nameReads
  simp [recordAt, inPart, number, command, time, dirReads, nameReads, stringAt_null]

/-! ## Saving and loading -/

/-- The cache of a context: as `sq_server_create` makes it, and as earlier loads of
rows without null texts leave it. -/
inductive CacheReached (sqlite : Sqlite Db) (literal : Nat) : Arena → Prop
  | created (initial : Initial sizeBlockDefault address)
      (made : arenaInit sizeBlockDefault true (some address) = some fresh)
      (marked : arenaSetContainsDbConnection (some fresh) true = some (some arena, status)) :
      CacheReached sqlite literal arena
  | loaded (before : CacheReached sqlite literal arena) (texts : ∀ row ∈ rows, HasTexts sqlite row)
      (served : RowsServed sqlite literal arena rows malloc)
      (ran : loadRows sqlite literal arena rows malloc = some (next, records)) :
      CacheReached sqlite literal next

theorem cache_ready (reached : CacheReached sqlite literal arena) : Ready arena := by
  induction reached with
  | created initial made marked =>
    have formed := wellFormed_init initial made
    obtain rfl := Option.some.inj made
    cases marked
    exact ⟨formed, rfl, List.forall_mem_singleton.mpr fun _ _ _ => rfl⟩
  | loaded before texts served ran ih =>
    obtain ⟨_, _, same, ready, _⟩ := loadRows_holds ih texts served
    cases ran.symm.trans same
    exact ready

/-- The cache holds one record a row, in the order of the rows, with what was saved. -/
def Restored (arena : Arena) (literal : Nat) (loaded : List Pointer) (rows : List Row)
    (saves : List Save) : Prop :=
  loaded.map (recordAt arena literal) = List.zipWith savedRecord (rows.map Row.id) saves

/-- What a selection gives of saved rows. -/
theorem selected_rows (ids : List Nat) (saves : List Save) :
    (List.zipWith savedRow ids saves).map (fun row => selectedColumns.map row.column) =
      List.zipWith (fun id save => .integer id :: save.values) ids saves := by
  simp only [List.map_zipWith, selected_savedRow]

theorem rows_have_texts (keeps : Keeps sqlite table) (ids : List Nat) (saves : List Save) :
    ∀ row ∈ List.zipWith (fun (id : Nat) (save : Save) => Value.integer id :: save.values) ids saves,
      HasTexts sqlite row := by
  induction ids generalizing saves with
  | nil => nofun
  | cons id ids ih =>
    cases saves with
    | nil => nofun
    | cons save saves =>
      exact List.forall_mem_cons.mpr ⟨⟨_, _, keeps.text _, keeps.text _⟩, ih saves⟩

/-- All records of the cache read as what was saved, in part. -/
theorem all_read (literal : Nat) (keeps : Keeps sqlite table) (ready : Ready arena)
    {saves : List Save} (count : ids.length = saves.length)
    (loaded : List.Forall₂ (Loaded sqlite arena) records
      (List.zipWith (fun (id : Nat) (save : Save) => Value.integer id :: save.values) ids saves)) :
    records.map (recordAt arena literal) = saves.map inPart := by
  induction saves generalizing ids records with
  | nil =>
    obtain rfl := List.length_eq_zero_iff.mp count
    cases loaded
    rfl
  | cons save saves ih =>
    obtain ⟨id, others, rfl⟩ := List.exists_cons_of_length_eq_add_one count
    obtain ⟨rec, more, here, later, rfl⟩ := List.forall₂_cons_right_iff.mp loaded
    rw [List.map_cons, List.map_cons, loaded_reads literal keeps ready here,
      ih (Nat.succ.inj count) later]

/-- A call that saved something had an open database. -/
private theorem open_of_saved (saved : saveAll sqlite ctx db (save :: saves) = some after) :
    ctx.ctxDb.hDb.isNone = false := by
  cases closed : ctx.ctxDb.hDb.isNone with
  | false => rfl
  | true => simp [saveAll, sqDbSaveBacklog, closed] at saved

/-- The rows that calls saved are loaded, one record each, with their timestamps, their
directories and their projects, but no record has the number of its row or its
command: what was saved is restored only where nothing was. -/
theorem restored_iff_nothing_saved (keeps : Keeps sqlite rows) (empty : rows db = [])
    (saved : saveAll sqlite ctx db saves = some after)
    (cache : ctx.ctxDb.arenaRecordCache = some arena) (reached : CacheReached sqlite literal arena)
    (served : ∀ selected, sqlite.select after commandLogs selectedColumns = some selected →
      RowsServed sqlite literal arena selected malloc) :
    ∃ next loaded,
      sqLoadBacklog sqlite literal after (some ctx) malloc =
        some (some { ctx with ctxDb := { ctx.ctxDb with arenaRecordCache := some next } }, loaded) ∧
      loaded.map (recordAt next literal) = saves.map inPart ∧
      (Restored next literal loaded (rows after) saves ↔ saves = []) := by
  obtain ⟨ids, count, all⟩ := saveAll_rows keeps saved
  rw [empty, List.nil_append] at all
  have selected := keeps.selected after selectedColumns
  rw [all, selected_rows] at selected
  cases saves with
  | nil =>
    obtain rfl := List.length_eq_zero_iff.mp count
    refine ⟨arena, [], ?_, rfl, by simp [Restored]⟩
    rw [← cache, sqLoadBacklog, selected]
    exact ite_self _
  | cons save saves =>
    obtain ⟨id, others, rfl⟩ := List.exists_cons_of_length_eq_add_one count
    have ready := cache_ready reached
    obtain ⟨next, loaded, ran, readyNext, records, _⟩ :=
      loadRows_holds ready (rows_have_texts keeps _ _) (served _ selected)
    have reads := all_read literal keeps readyNext count records
    refine ⟨next, loaded, ?_, reads, ⟨fun restored => ?_, nofun⟩⟩
    · rw [sqLoadBacklog, selected, cache, open_of_saved saved]
      rw [List.zipWith_cons_cons] at ran
      simp only [List.zipWith_cons_cons, Bool.false_eq_true, if_false, Option.bind_eq_bind,
        Option.bind_some, ran]
      rfl
    · -- the first record already has no command
      rw [Restored, reads, all] at restored
      have first := (List.cons.inj restored).1
      cases congrArg SqDbRecord.command first

/-! ## One record -/

/-- The rows of a table, from what was inserted into it. -/
def listRows (db : List (List (String × Value))) : List Row :=
  db.mapIdx fun i inserted => ⟨i + 1, inserted⟩

/-- A database of one table, as a list of what was inserted. -/
def listSqlite : Sqlite (List (List (String × Value))) where
  insert db _ columns values := some (db ++ [columns.zip values], true)
  select db _ columns := some ((listRows db).map fun row => columns.map row.column)
  columnInt64
    | .integer n => n
    | _ => 0
  columnText
    | .text bytes => some bytes
    | _ => none

theorem listSqlite_keeps : Keeps listSqlite listRows := by
  refine ⟨?_, fun _ _ => rfl, fun _ _ _ => rfl, fun _ => rfl⟩
  intro db columns values next inserted
  cases inserted
  refine ⟨db.length + 1, Nat.succ_pos _, ?_, by simp [listRows]⟩
  intro row member
  obtain ⟨i, held, rfl⟩ := List.mem_mapIdx.mp member
  exact Nat.succ_lt_succ held

/-- The cache of a new context. -/
def freshCache : Arena :=
  ⟨false, ⟨[], ⟨4096, 0, false, none, 0, 1024, zeros⟩, []⟩, 1024, false, true, false⟩

/-- A new context, with an open database. -/
def freshContext : SqServerContext := { zeroContext with ctxDb := ⟨some 1, true, some freshCache, true⟩ }

private theorem freshCache_reached : CacheReached listSqlite 8 freshCache :=
  .created (show Initial sizeBlockDefault 4096 by decide) rfl rfl

/-- `ls`, in `/` and in a project `p`, at one second past the epoch. -/
def oneSave : Save := ⟨⟨0, 1, none, some [47], some [112]⟩, [108, 115], none⟩

/-- A saved `ls` is loaded in part. -/
theorem one_loaded_in_part :
    ∃ next loaded,
      sqLoadBacklog listSqlite 8 [insertedColumns.zip oneSave.values] (some freshContext)
          (fun _ _ => none) =
        some (some { freshContext with
          ctxDb := { freshContext.ctxDb with arenaRecordCache := some next } }, loaded) ∧
      loaded.map (recordAt next 8) = [oneSave].map inPart ∧
      (Restored next 8 loaded (listRows [insertedColumns.zip oneSave.values]) [oneSave] ↔
        [oneSave] = []) := by
  have saved : saveAll listSqlite freshContext [] [oneSave] =
      some [insertedColumns.zip oneSave.values] := rfl
  refine restored_iff_nothing_saved listSqlite_keeps rfl saved rfl freshCache_reached ?_
  rintro _ ⟨⟩
  refine ⟨⟨⟨by decide, _, _, rfl⟩, ?_⟩, fun _ _ _ => trivial⟩
  rintro _ _ ⟨⟩
  refine ⟨?_, ?_⟩
  · rintro _ ⟨⟩
    exact ⟨by decide, _, _, rfl⟩
  · rintro _ ⟨⟩ _ ⟨⟩
    exact ⟨by decide, _, _, rfl⟩

/-- It comes back without the number of its row and without the command. -/
theorem command_not_restored :
    Keeps listSqlite listRows ∧ ∃ after next loaded,
      saveAll listSqlite freshContext [] [oneSave] = some after ∧
      sqLoadBacklog listSqlite 8 after (some freshContext) (fun _ _ => none) =
        some (some { freshContext with
          ctxDb := { freshContext.ctxDb with arenaRecordCache := some next } }, loaded) ∧
      loaded.map (fun rec => ((recordAt next 8 rec).id, (recordAt next 8 rec).command)) = [(0, none)] ∧
      ¬ Restored next 8 loaded (listRows after) [oneSave] := by
  refine ⟨listSqlite_keeps, _, _, _, rfl, rfl, rfl, fun restored => ?_⟩
  have commands := congrArg (List.map SqDbRecord.command) restored
  exact absurd commands (by decide)

end ShapeQuake.StorageProofs
