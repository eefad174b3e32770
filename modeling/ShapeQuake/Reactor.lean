import Mathlib.Logic.Function.Basic
import ShapeQuake.Allocator

/-! The worker threads of `reactor.c`: `enqueue` copies a task into the next slot
of a worker's arena and posts the worker's semaphore; a turn of the worker's
loop walks the arena's blocks, runs the tasks it finds and resets the arena. The
addresses of callbacks stand for the callbacks. -/
namespace ShapeQuake.Reactor
open Library.Bytes Allocator

/-! ## Tasks -/

/-- `common_task_t`. Integers and enumerations are 32-bit words, pointers 64-bit
words, null is zero. -/
structure CommonTask where
  id : BitVec 32
  evfrom : BitVec 32
  evtype : BitVec 32
  tktype : BitVec 32
  fdev : BitVec 32
  context : BitVec 64
  lastActivePulse : BitVec 64
  execute : BitVec 64
  onLoad : BitVec 64
  onExit : BitVec 64
  arg : BitVec 64
  deriving DecidableEq, Repr

/-- `task_t`. -/
structure Task where
  task_ : CommonTask
  operationCtx : BitVec 64
  myHandler : BitVec 64
  deriving DecidableEq, Repr

/-- The widths of the fields of a `task_t`, the padding after `fdev` among them. -/
def taskLayout : List Nat := [4, 4, 4, 4, 4, 4, 8, 8, 8, 8, 8, 8, 8, 8]

/-- `sizeof(task_t)`. -/
def sizeofTask : Nat := taskLayout.sum

/-- `align(sizeof(task_t))`, by which the worker advances. -/
def slotSize : Nat := align sizeofTask

@[simp] theorem slotSize_eq : slotSize = 96 := by decide

theorem slotSize_pos : 0 < slotSize := slotSize_eq ▸ Nat.succ_pos 95

def Task.fields (task : Task) : List Nat :=
  [task.task_.id.toNat, task.task_.evfrom.toNat, task.task_.evtype.toNat,
    task.task_.tktype.toNat, task.task_.fdev.toNat, 0, task.task_.context.toNat,
    task.task_.lastActivePulse.toNat, task.task_.execute.toNat, task.task_.onLoad.toNat,
    task.task_.onExit.toNat, task.task_.arg.toNat, task.operationCtx.toNat,
    task.myHandler.toNat]

def Task.ofFields (fields : List Nat) : Task :=
  { task_ :=
      { id := .ofNat 32 (fields.getD 0 0)
        evfrom := .ofNat 32 (fields.getD 1 0)
        evtype := .ofNat 32 (fields.getD 2 0)
        tktype := .ofNat 32 (fields.getD 3 0)
        fdev := .ofNat 32 (fields.getD 4 0)
        context := .ofNat 64 (fields.getD 6 0)
        lastActivePulse := .ofNat 64 (fields.getD 7 0)
        execute := .ofNat 64 (fields.getD 8 0)
        onLoad := .ofNat 64 (fields.getD 9 0)
        onExit := .ofNat 64 (fields.getD 10 0)
        arg := .ofNat 64 (fields.getD 11 0) }
    operationCtx := .ofNat 64 (fields.getD 12 0)
    myHandler := .ofNat 64 (fields.getD 13 0) }

/-- The bytes of a `task_t`. -/
def taskBytes (task : Task) : List UInt8 := encodeFields taskLayout task.fields

/-- The `task_t` that a block's data holds at an offset. -/
def taskAt (data : Store) (offset : Nat) : Task :=
  .ofFields (decodeFields data offset taskLayout)

/-- A callback that was called, and the task it was called for. -/
structure Call where
  callback : BitVec 64
  self : Task
  deriving DecidableEq, Repr

/-- A call through a pointer that may be null. -/
def callIfSet (callback : BitVec 64) (self : Task) : List Call :=
  if callback ≠ 0 then [⟨callback, self⟩] else []

/-- What running a task calls: `on_load`, `execute` and `on_exit`, if set. -/
def callsOf (task : Task) : List Call :=
  callIfSet task.task_.onLoad task ++ callIfSet task.task_.execute task ++
    callIfSet task.task_.onExit task

/-! ## Workers -/

/-- `worker_t`, with its address and the value of its semaphore. -/
structure Worker where
  address : BitVec 64
  localQueues : Option Arena
  sem : Nat
  isSleeping : Bool
  shutdown : Bool

/-- `pool_t`, with its address. The array of workers is what reading it at an
index finds. -/
structure Pool where
  address : BitVec 64
  workers : Option (Int → Option Worker)

/-- The inner loop of `start_working`: the tasks of one block from an offset on. -/
def runQueue (block : ArenaBlock) (readOffset : Nat) : List Call :=
  if readOffset < block.offset then
    callsOf (taskAt block.data readOffset) ++ runQueue block (readOffset + slotSize)
  else []
termination_by block.offset - readOffset
decreasing_by
  have := slotSize_pos
  omega

/-- The outer loop of `start_working`: the blocks from one on, except those that
are marked as wiped. -/
def runBlocks : List ArenaBlock → List Call
  | [] => []
  | block :: next =>
    if block.isWiped then runBlocks next else runQueue block 0 ++ runBlocks next

/-- How a turn of the loop in `start_working` ends: `sem_wait` does not return,
the loop is left, a null pointer is read, `arena_reset` does not return, or the
worker is back at the top of the loop. -/
inductive Turn where
  | waits
  | leaves (worker : Worker)
  | faults
  | hangs (calls : List Call)
  | serves (worker : Worker) (calls : List Call)

/-- One turn of the loop in `start_working`, from a `sem_wait` on. That
`is_done_queues` is never set follows from `head` being set. -/
def turn (worker : Worker) : Turn :=
  if worker.sem = 0 then .waits
  else
    let worker := { worker with sem := worker.sem - 1, isSleeping := false }
    if worker.shutdown then .leaves { worker with isSleeping := true }
    else
      match worker.localQueues with
      | none => .faults
      | some arena =>
        let calls := runBlocks arena.blocks.chain
        match arenaReset (some arena) with
        | none => .hangs calls
        | some arena => .serves { worker with localQueues := arena, isSleeping := true } calls

/-- What `init_worker` stores in a zeroed worker. -/
def initWorker (address : BitVec 64) (room : Bool) (malloc : Option Nat) : Worker :=
  { address, localQueues := arenaInit sizeArenaDefault room malloc, sem := 0
    isSleeping := false, shutdown := false }

/-! ## Enqueueing -/

/-- A value between the first and the last of an enumeration, both included. -/
def inEnumeration (first last value : BitVec 32) : Bool := !(value < first || value > last)

/-- `is_evfrom`: from `EVENT_FROM_BEGIN` to `EVENT_FROM_END`. -/
def isEvfrom (evfrom : BitVec 32) : Bool := inEnumeration 0 6 evfrom

/-- `is_evtype`: from `EVENT_TYPE_BEGIN` to `EVENT_TYPE_END`. -/
def isEvtype (evtype : BitVec 32) : Bool := inEnumeration 0 3 evtype

/-- `is_tktype`: from `TASK_TYPE_BEGIN` to `TASK_TYPE_END`. -/
def isTktype (tktype : BitVec 32) : Bool := inEnumeration 0 2 tktype

/-- The arguments of `enqueue` that describe the task. -/
structure Request where
  requireNotify : Bool
  commonTaskId : BitVec 32
  tktype : BitVec 32
  evfrom : BitVec 32
  evtype : BitVec 32
  execute : BitVec 64
  onLoad : BitVec 64
  onExit : BitVec 64
  arg : BitVec 64
  deriving DecidableEq, Repr

/-- The checks `enqueue` makes of these arguments. -/
def Request.valid (request : Request) : Bool :=
  !request.commonTaskId.slt 0 && isEvfrom request.evfrom && isEvtype request.evtype &&
    isTktype request.tktype

/-- `target_task`. -/
def Request.task (request : Request) (pool worker : BitVec 64) : Task :=
  { task_ :=
      { id := request.commonTaskId, evfrom := request.evfrom, evtype := request.evtype
        tktype := request.tktype, fdev := 0, context := 0, lastActivePulse := 0
        execute := request.execute, onLoad := request.onLoad, onExit := request.onExit
        arg := request.arg }
    operationCtx := pool
    myHandler := worker }

/-- `debug_meta_t`, as it is printed. -/
structure DebugMeta where
  status : Status
  troubleSource : String
  msg : String
  deriving DecidableEq, Repr

/-- `sem_post`. -/
def semPost (worker : Worker) : Worker := { worker with sem := worker.sem + 1 }

/-- The worker at an index of the pool's array. -/
def Pool.workerAt (pool : Pool) (workerId : Int) : Option Worker := pool.workers.bind (· workerId)

/-- The pool when the worker at the index has changed. -/
def Pool.setWorker (pool : Pool) (workers : Int → Option Worker) (workerId : Int)
    (worker : Worker) : Pool :=
  { pool with workers := some (Function.update workers workerId (some worker)) }

/-- `enqueue`: the pool and what is printed. -/
def enqueue (pool : Option Pool) (workerId : Int) (request : Request) (malloc : Option Nat) :
    Option (Option Pool × List DebugMeta) :=
  match pool with
  | none => some (none, [])
  | some pool =>
    match pool.workers with
    | none => some (some pool, [])
    | some workers =>
      let refused := some (some pool,
        [(⟨asStatus .reactor .failure .param, "Arguments wrong", ""⟩ : DebugMeta)])
      match workers workerId with
      | none => refused
      | some worker =>
        match worker.localQueues with
        | none => refused
        | some localQueues =>
          if request.valid = false then refused
          else
            match arenaAlloc localQueues sizeofTask malloc with
            | none => none
            | some (arena, none) =>
              some (some (pool.setWorker workers workerId { worker with localQueues := some arena }),
                [⟨asStatus .reactor .failure .alloc, "arena_alloc()", "Allocate new local queue."⟩])
            | some (arena, some curQueue) =>
              let targetTask := request.task pool.address worker.address
              let worker :=
                { worker with localQueues := some (arena.write curQueue (taskBytes targetTask)) }
              some (some (pool.setWorker workers workerId
                (if request.requireNotify then semPost worker else worker)), [])

/-! ## Spec lemmas -/

@[simp] theorem sizeofTask_eq : sizeofTask = 88 := rfl

theorem fields_fit (task : Task) : FieldsFit taskLayout task.fields := by
  have word : ∀ word : BitVec 32, word.toNat < 256 ^ 4 := fun word => word.isLt
  have pointer : ∀ pointer : BitVec 64, pointer.toNat < 256 ^ 8 := fun pointer => pointer.isLt
  simp only [FieldsFit, taskLayout, Task.fields, List.forall₂_cons, word, pointer,
    List.Forall₂.nil, true_and, and_true]
  decide

@[simp] theorem taskBytes_length (task : Task) : (taskBytes task).length = sizeofTask :=
  encodeFields_length (fields_fit task)

@[simp] theorem ofFields_fields (task : Task) : Task.ofFields task.fields = task := by
  simp [Task.ofFields, Task.fields]

/-- A task is read as it was stored. -/
theorem taskAt_stored (stored : readBytes data offset sizeofTask = taskBytes task) :
    taskAt data offset = task := by
  rw [taskAt, decodeFields_stored (fields_fit task) stored, ofFields_fields]

/-- A task just stored is read back. -/
theorem taskAt_written (data : Store) (offset : Nat) (task : Task) :
    taskAt (writeBytes data offset (taskBytes task)) offset = task := by
  have stored := readBytes_written data offset (taskBytes task)
  rw [taskBytes_length] at stored
  exact taskAt_stored stored

/-- Storing a task leaves those in other slots as they are. -/
theorem taskAt_apart (apart : slot + sizeofTask ≤ offset ∨ offset + sizeofTask ≤ slot)
    (task : Task) : taskAt (writeBytes data offset (taskBytes task)) slot = taskAt data slot := by
  rw [taskAt, taskAt, decodeFields_congr]
  exact readBytes_writeBytes_apart (by rwa [taskBytes_length])

/-- The tasks a block has handed out slots for. -/
def tasksIn (block : ArenaBlock) : List Task :=
  (List.range (block.offset / slotSize)).map fun slot => taskAt block.data (slot * slotSize)

/-- A worker as `enqueue` leaves it: its arena and, on request, its semaphore. -/
def Worker.queued (worker : Worker) (queues : Arena) (requireNotify : Bool) : Worker :=
  { worker with
    localQueues := some queues
    sem := if requireNotify then worker.sem + 1 else worker.sem }

/-- A posted worker that is not to shut down runs its tasks and empties its arena. -/
theorem turn_serves (posted : worker.sem ≠ 0) (running : worker.shutdown = false)
    (queues : worker.localQueues = some arena) (unlocked : arena.mutex = false) :
    turn worker = .serves
      { worker with
        sem := worker.sem - 1
        isSleeping := true
        localQueues := some arena.emptied }
      (runBlocks arena.blocks.chain) := by
  simp [turn, posted, running, queues, arenaReset_unlocked unlocked]

theorem queued_eq (worker : Worker) (queues : Arena) (requireNotify : Bool) :
    (if requireNotify then semPost { worker with localQueues := some queues }
      else { worker with localQueues := some queues }) = worker.queued queues requireNotify := by
  cases requireNotify <;> rfl

theorem setWorker_workerAt (pool : Pool) (workers : Int → Option Worker) (workerId : Int)
    (worker : Worker) : (pool.setWorker workers workerId worker).workerAt workerId = some worker := by
  simp [Pool.setWorker, Pool.workerAt]

theorem setWorker_other {pool : Pool} {workers : Int → Option Worker} {workerId other : Int}
    (array : pool.workers = some workers) (different : other ≠ workerId) (worker : Worker) :
    (pool.setWorker workers workerId worker).workerAt other = pool.workerAt other := by
  simp [Pool.setWorker, Pool.workerAt, array, different]

/-- A valid request for which the arena has room is stored in the slot it got. -/
theorem enqueue_granted {workerId : Int} (held : pool.workerAt workerId = some worker)
    (queues : worker.localQueues = some arena) (valid : request.valid = true)
    (allocated : arenaAlloc arena sizeofTask malloc = some (next, some slot)) :
    ∃ after, enqueue (some pool) workerId request malloc = some (some after, []) ∧
      after.address = pool.address ∧
      after.workerAt workerId = some (worker.queued
        (next.write slot (taskBytes (request.task pool.address worker.address)))
        request.requireNotify) := by
  obtain ⟨workers, array, here⟩ := Option.bind_eq_some_iff.mp held
  refine ⟨pool.setWorker workers workerId (worker.queued
    (next.write slot (taskBytes (request.task pool.address worker.address)))
    request.requireNotify), ?_, rfl, setWorker_workerAt pool workers workerId _⟩
  simp only [enqueue, array, here, queues, valid, Bool.true_eq_false, ↓reduceIte, allocated,
    queued_eq]

/-- An enqueue that prints nothing was valid and got a slot. -/
theorem enqueue_cases {workerId : Int} (held : pool.workerAt workerId = some worker)
    (queues : worker.localQueues = some arena)
    (ran : enqueue (some pool) workerId request malloc = some (some after, [])) :
    request.valid = true ∧ ∃ next slot, arenaAlloc arena sizeofTask malloc = some (next, some slot) ∧
      after.address = pool.address ∧
      after.workerAt workerId = some (worker.queued
        (next.write slot (taskBytes (request.task pool.address worker.address)))
        request.requireNotify) := by
  obtain ⟨workers, array, here⟩ := Option.bind_eq_some_iff.mp held
  simp only [enqueue, array, here, queues] at ran
  split at ran
  · simp at ran
  · rename_i valid
    refine ⟨by simpa using valid, ?_⟩
    split at ran
    · cases ran
    · simp at ran
    · rename_i next slot allocated
      simp only [queued_eq, Option.some.injEq, Prod.mk.injEq, and_true] at ran
      subst ran
      exact ⟨next, slot, allocated, rfl, setWorker_workerAt pool workers workerId _⟩

end ShapeQuake.Reactor
