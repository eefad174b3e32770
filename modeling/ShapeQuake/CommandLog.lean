import ShapeQuake.DatabaseClosing
import ShapeQuake.StorageProofs

/-! The command log over any number of runs of the server. The table outlives the context:
each run opens it anew with an empty cache, and may save and load in any order. Every load
builds one record for each call that saved anything since the table was made, and the
records of earlier loads stay as they are beside it. -/
namespace ShapeQuake.CommandLog
open Library.Runs Library.Bytes Allocator AllocatorInvariants ArenaMemory Storage StorageProofs
open ServerContexts (SqServerContext SqDbContext zeroContext)
open DatabaseClosing (Answers sqDbInit)

/-! ## The program -/

/-- The records that a load built, and how many calls had saved something by then. -/
structure Load where
  records : List Pointer
  count : Nat

/-- The database and the context of the server that runs, what was saved so far, and the
loads of that server. -/
structure State (Db : Type) where
  db : Db
  ctx : SqServerContext
  saved : List Save
  loads : List Load

/-- A server starts and opens the database, or it saves, or loads. -/
inductive Event where
  | starts (answers : Answers)
  | saves (save : Save)
  | loads (malloc : Nat → Nat → Option Nat)

/-- Before the first start. -/
def start {Db : Type} (db : Db) : State Db := ⟨db, zeroContext, [], []⟩

variable {Db : Type}

/-- A start is one whose `sq_db_init` succeeds, on a context that was cleared; a save is one
whose statement can be prepared, behind another there is no next call. -/
def step (sqlite : Sqlite Db) (literal : Nat) (state : State Db) : Event → Option (State Db)
  | .starts answers =>
    match sqDbInit (some zeroContext.ctxDb) answers with
    | some (true, some ctxDb, _) => some { state with ctx := { zeroContext with ctxDb }, loads := [] }
    | _ => none
  | .saves save =>
    (sqDbSaveBacklog sqlite state.db (some state.ctx) (some save.record) (some save.cmd) save.output).map
      fun (db, status) => { state with db, saved := if status = 0 then state.saved ++ [save] else state.saved }
  | .loads malloc =>
    match sqLoadBacklog sqlite literal state.db (some state.ctx) malloc with
    | some (some ctx, records) => some { state with ctx, loads := state.loads ++ [⟨records, state.saved.length⟩] }
    | _ => none

/-- The calls get what they ask for: a start a handle and a block for its cache, a load
memory for every row. Whether a save succeeds is open. -/
def Granted (sqlite : Sqlite Db) (literal : Nat) (state : State Db) : Event → Prop
  | .starts answers => answers.handle.isSome ∧ answers.cacheRoom = true ∧
    ∃ address, answers.cacheBlock = some address ∧ Initial sizeBlockDefault address
  | .saves _ => True
  | .loads malloc => ∀ cache selected, state.ctx.ctxDb.arenaRecordCache = some cache →
    sqlite.select state.db commandLogs selectedColumns = some selected →
    RowsServed sqlite literal cache selected malloc

/-- An insertion that is not done adds nothing. -/
def RollsBack (sqlite : Sqlite Db) (rows : Db → List Row) : Prop :=
  ∀ db columns values next, sqlite.insert db commandLogs columns values = some (next, false) →
    rows next = rows db

/-! ## What holds between any two calls -/

/-- The rows are those of the calls that saved something, in their order, and every record
that a load built is one of the first of them, still as it was loaded. -/
structure Sound (sqlite : Sqlite Db) (rows : Db → List Row) (cache : Arena) (ids : List Nat) (state : State Db) :
    Prop where
  handle : state.ctx.ctxDb.hDb.isSome
  cached : state.ctx.ctxDb.arenaRecordCache = some cache
  ready : Ready cache
  count : ids.length = state.saved.length
  table : rows state.db = List.zipWith savedRow ids state.saved
  loaded : ∀ load ∈ state.loads, load.count ≤ state.saved.length ∧
    List.Forall₂ (Loaded sqlite cache) load.records
      (List.zipWith (fun (id : Nat) (save : Save) => Value.integer id :: save.values) (ids.take load.count)
        (state.saved.take load.count))

section
variable {sqlite : Sqlite Db} {rows : Db → List Row} {state next : State Db}

/-- A start that succeeds has a fresh cache. -/
private theorem starts_cases (granted : Granted sqlite literal state (.starts answers))
    (taken : step sqlite literal state (.starts answers) = some next) :
    ∃ ctxDb cache, next = { state with ctx := { zeroContext with ctxDb }, loads := [] } ∧
      ctxDb.hDb.isSome ∧ ctxDb.arenaRecordCache = some cache ∧ Ready cache := by
  obtain ⟨handle, room, address, block, initial⟩ := granted
  simp only [step] at taken
  split at taken
  · rename_i ctxDb effects made
    cases taken
    simp only [sqDbInit] at made
    split at made
    · cases made
    · obtain ⟨arena, fresh⟩ : ∃ arena, arenaInit sizeBlockDefault true (some address) = some arena := ⟨_, rfl⟩
      have formed := wellFormed_init initial fresh
      rw [room, block, fresh] at made
      cases fresh
      simp only [arenaSetContainsDbConnection, Bool.false_eq_true, if_false, Option.bind_eq_bind,
        Option.bind_some] at made
      split at made
      · cases made
      · cases made
        refine ⟨_, _, rfl, handle, rfl, formed, rfl, ?_⟩
        exact List.forall_mem_singleton.mpr fun _ _ _ => rfl
  · cases taken

/-- A save adds its row, or nothing. -/
private theorem saves_cases (keeps : Keeps sqlite rows) (rollsBack : RollsBack sqlite rows)
    (sound : Sound sqlite rows cache ids state)
    (taken : step sqlite literal state (.saves save) = some next) :
    (∃ id db, next = { state with db, saved := state.saved ++ [save] } ∧
      rows db = rows state.db ++ [savedRow id save]) ∨
    ∃ db, next = { state with db } ∧ rows db = rows state.db := by
  have open_ : ¬ state.ctx.ctxDb.hDb.isNone := by
    rw [Option.isNone_iff_eq_none]
    exact Option.isSome_iff_ne_none.mp sound.handle
  simp only [step, sqDbSaveBacklog, if_neg open_] at taken
  cases inserted : sqlite.insert state.db commandLogs insertedColumns
      [.integer save.record.timestamp.toNat, .text (textOf save.record.projectName),
        .text (textOf save.record.workingDir), .text (untilNull save.cmd), .text (textOf save.output)] with
  | none =>
    rw [inserted] at taken
    simp only [dbgmsg_eq_none_iff.mpr, or_true, Option.map_none, reduceCtorEq] at taken
  | some answer =>
    obtain ⟨db, done⟩ := answer
    rw [inserted] at taken
    cases done with
    | false =>
      cases taken
      exact .inr ⟨db, rfl, rollsBack _ _ _ _ inserted⟩
    | true =>
      cases taken
      obtain ⟨id, _, _, added⟩ := keeps.inserted inserted
      exact .inl ⟨id, db, rfl, added⟩

/-- The values of the rows of these calls. -/
def valuesOf (ids : List Nat) (saves : List Save) : List (List Value) :=
  List.zipWith (fun (id : Nat) (save : Save) => Value.integer id :: save.values) ids saves

/-- A load builds a record for each row, beside what is in the cache. -/
private theorem loads_cases (keeps : Keeps sqlite rows) (sound : Sound sqlite rows cache ids state)
    (granted : Granted sqlite literal state (.loads malloc))
    (taken : step sqlite literal state (.loads malloc) = some next) :
    ∃ ctx after records, next = { state with ctx, loads := state.loads ++ [⟨records, state.saved.length⟩] } ∧
      ctx.ctxDb.hDb = state.ctx.ctxDb.hDb ∧ ctx.ctxDb.arenaRecordCache = some after ∧ Ready after ∧
      List.Forall₂ (Loaded sqlite after) records (valuesOf ids state.saved) ∧
      ∀ older bytes, Holds cache older bytes → Holds after older bytes := by
  have open_ : ¬ state.ctx.ctxDb.hDb.isNone := by
    rw [Option.isNone_iff_eq_none]
    exact Option.isSome_iff_ne_none.mp sound.handle
  have selected := keeps.selected state.db selectedColumns
  rw [sound.table, selected_rows] at selected
  have served := granted cache _ sound.cached selected
  simp only [step, sqLoadBacklog, if_neg open_, selected, sound.cached] at taken
  cases values : List.zipWith (fun (id : Nat) (save : Save) => Value.integer id :: save.values) ids state.saved with
  | nil =>
    rw [values] at taken
    cases taken
    refine ⟨state.ctx, cache, [], rfl, rfl, sound.cached, sound.ready, ?_, fun _ _ held => held⟩
    rw [valuesOf, values]
    exact .nil
  | cons row others =>
    obtain ⟨after, records, ran, ready, loaded, kept⟩ :=
      loadRows_holds sound.ready (rows_have_texts keeps ids state.saved) served
    rw [values] at taken ran
    simp only [ran, Option.bind_eq_bind, Option.bind_some] at taken
    cases taken
    exact ⟨_, after, records, rfl, rfl, rfl, ready, loaded, kept⟩

/-- What one call preserves. -/
theorem sound_step (keeps : Keeps sqlite rows) (rollsBack : RollsBack sqlite rows)
    (sound : Sound sqlite rows cache ids state) (granted : Granted sqlite literal state event)
    (taken : step sqlite literal state event = some next) :
    ∃ cache ids, Sound sqlite rows cache ids next := by
  cases event with
  | starts answers =>
    obtain ⟨ctxDb, fresh, rfl, handle, cached, ready⟩ := starts_cases granted taken
    exact ⟨fresh, ids, handle, cached, ready, sound.count, sound.table, fun _ member => by cases member⟩
  | saves save =>
    rcases saves_cases keeps rollsBack sound taken with ⟨id, db, rfl, added⟩ | ⟨db, rfl, same⟩
    · refine ⟨cache, ids ++ [id], sound.handle, sound.cached, sound.ready, ?_, ?_, ?_⟩
      · rw [List.length_append, List.length_append, sound.count]
        rfl
      · rw [added, sound.table, List.zipWith_append sound.count]
        rfl
      · intro load member
        obtain ⟨bound, records⟩ := sound.loaded load member
        refine ⟨by simp only [List.length_append]; omega, ?_⟩
        rwa [List.take_append_of_le_length (sound.count ▸ bound), List.take_append_of_le_length bound]
    · exact ⟨cache, ids, sound.handle, sound.cached, sound.ready, sound.count, same.trans sound.table,
        sound.loaded⟩
  | loads malloc =>
    obtain ⟨ctx, after, records, rfl, handle, cached, ready, loaded, kept⟩ :=
      loads_cases keeps sound granted taken
    refine ⟨after, ids, handle ▸ sound.handle, cached, ready, sound.count, sound.table, ?_⟩
    intro load member
    rcases List.mem_append.mp member with old | new
    · obtain ⟨bound, held⟩ := sound.loaded load old
      exact ⟨bound, held.imp fun _ _ one => loaded_mono one kept⟩
    · obtain rfl := List.mem_singleton.mp new
      refine ⟨le_rfl, ?_⟩
      rw [List.take_of_length_le le_rfl, List.take_of_length_le sound.count.le]
      exact loaded

end

/-! ## Runs -/

/-- Over every sequence of starts, saves and loads on a database whose table was empty, as
long as each start gets a handle and memory for its cache, each save can prepare its
statement and each load has memory: the table has one row for each call that saved
something, in their order and over all runs, and every record that a load of the last run
built reads as what the call of its row saved of it, also behind later calls. -/
theorem log_read_back {sqlite : Sqlite Db} {rows : Db → List Row} {state : State Db} (keeps : Keeps sqlite rows)
    (rollsBack : RollsBack sqlite rows) (empty : rows db = [])
    (granted : EachStep (step sqlite literal) (Granted sqlite literal) (start db) (.starts answers :: events))
    (ran : exec (step sqlite literal) (start db) (.starts answers :: events) = some state) :
    ∃ cache ids, state.ctx.ctxDb.arenaRecordCache = some cache ∧ ids.length = state.saved.length ∧
      rows state.db = List.zipWith savedRow ids state.saved ∧
      ∀ load ∈ state.loads, load.records.map (recordAt cache literal) = (state.saved.take load.count).map inPart := by
  obtain ⟨opened, taken, later⟩ := exec_cons.mp ran
  obtain ⟨here, rest⟩ := granted opened taken
  have sound : ∃ cache ids, Sound sqlite rows cache ids opened := by
    obtain ⟨ctxDb, fresh, rfl, handle, cached, ready⟩ := starts_cases here taken
    exact ⟨fresh, [], handle, cached, ready, rfl, empty, fun _ member => by cases member⟩
  have kept (before : State Db) (event : Event) (next : State Db)
      (sound : ∃ cache ids, Sound sqlite rows cache ids before) (fine : Granted sqlite literal before event)
      (taken : step sqlite literal before event = some next) : ∃ cache ids, Sound sqlite rows cache ids next := by
    obtain ⟨_, _, sound⟩ := sound
    exact sound_step keeps rollsBack sound fine taken
  have all := throughout_of_each_step kept sound rest
  obtain ⟨cache, ids, sound⟩ := throughout_final all later
  refine ⟨cache, ids, sound.cached, sound.count, sound.table, ?_⟩
  intro load member
  obtain ⟨bound, loaded⟩ := sound.loaded load member
  refine all_read literal keeps sound.ready ?_ loaded
  rw [List.length_take, List.length_take, sound.count]

/-- A start that gets all it asks for. -/
def roomy : Answers := ⟨true, some 1, true, some 4096, true⟩

/-- A save in one run of the server and a load in the next. -/
def acrossRuns : List Event := [.saves oneSave, .starts roomy, .loads fun _ _ => none]

private theorem acrossRuns_granted :
    EachStep (step listSqlite 8) (Granted listSqlite 8) (start []) (.starts roomy :: acrossRuns) := by
  have starts : Granted listSqlite 8 (start []) (.starts roomy) := ⟨rfl, rfl, 4096, rfl, by decide⟩
  rintro _ ⟨⟩
  refine ⟨starts, ?_⟩
  rintro _ ⟨⟩
  refine ⟨trivial, ?_⟩
  rintro _ ⟨⟩
  refine ⟨starts, ?_⟩
  rintro _ ⟨⟩
  refine ⟨?_, trivial⟩
  rintro _ _ ⟨⟩ ⟨⟩
  refine ⟨⟨⟨by decide, _, _, rfl⟩, ?_⟩, fun _ _ _ => trivial⟩
  rintro _ _ ⟨⟩
  refine ⟨?_, ?_⟩
  · rintro _ ⟨⟩
    exact ⟨by decide, _, _, rfl⟩
  · rintro _ ⟨⟩ _ ⟨⟩
    exact ⟨by decide, _, _, rfl⟩

/-- What was saved in the first run is loaded in the second, in part. -/
theorem loaded_in_next_run :
    ∃ state cache load, exec (step listSqlite 8) (start []) (.starts roomy :: acrossRuns) = some state ∧
      state.ctx.ctxDb.arenaRecordCache = some cache ∧ state.loads = [load] ∧
      load.records.map (recordAt cache 8) = [inPart oneSave] := by
  have reached : ∃ state, exec (step listSqlite 8) (start []) (.starts roomy :: acrossRuns) = some state ∧
      state.saved = [oneSave] ∧ state.loads.map Load.count = [1] := ⟨_, rfl, rfl, rfl⟩
  obtain ⟨state, ran, saved, counts⟩ := reached
  have rollsBack : RollsBack listSqlite listRows := by
    intro db columns values next inserted
    cases inserted
  obtain ⟨cache, _, cached, _, _, loaded⟩ := log_read_back listSqlite_keeps rollsBack rfl acrossRuns_granted ran
  obtain ⟨load, loads, one⟩ := List.map_eq_singleton_iff.mp counts
  refine ⟨state, cache, load, ran, cached, loads, ?_⟩
  rw [loaded load (loads ▸ List.mem_singleton_self load), saved, one]
  rfl

end ShapeQuake.CommandLog
