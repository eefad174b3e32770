import ShapeQuake.ArenaExhaustion
import ShapeQuake.ReactorPasses

/-! Which calls of `enqueue` keep to the worker they name. The id is an index into the
pool's array from the first line behind the null checks, and the only checks that follow
are of what was read there. -/
namespace ShapeQuake.EnqueueBounds
open Library.Runs Allocator AllocatorInvariants ArenaExhaustion Reactor ReactorSlots ReactorPasses

/-! ## Calls -/

/-- An index of an array of `worker_count` workers, as `init_worker` checks it. -/
def InArray (workerCount workerId : Int) : Prop := ¬ (0 > workerId ∨ workerId ≥ workerCount)

instance : Decidable (InArray workerCount workerId) := inferInstanceAs (Decidable (¬ _))

/-- How a call ends: it reads outside the array of workers, it waits for the lock of an
arena for ever, or it returns. -/
inductive Ending where
  | strays
  | waits
  | returns (pool : Option Pool)

/-- `enqueue` on a pool whose array has `worker_count` entries. Once pool and array are
there, `workers[worker_id]` is what it reads first. -/
def enqueueEnding (workerCount : Int) (pool : Option Pool) (workerId : Int) (request : Request)
    (malloc : Option Nat) : Ending :=
  if (pool.bind Pool.workers).isSome ∧ ¬ InArray workerCount workerId then .strays
  else
    match enqueue pool workerId request malloc with
    | none => .waits
    | some (after, _) => .returns after

/-- The tasks of a worker's arena, in the order in which they were enqueued. -/
def tasksOf (arena : Arena) : List Task := arena.blocks.chain.flatMap tasksIn

/-- The queue of the worker at an index of the array has one task more, its last, and its
semaphore has been posted if that was asked for; the rest of the pool is as before. -/
def Appended (workerCount : Int) (pool : Option Pool) (workerId : Int) (request : Request)
    (after : Option Pool) : Prop :=
  InArray workerCount workerId ∧ ∃ held workers worker arena next,
    pool = some held ∧ held.workers = some workers ∧ workers workerId = some worker ∧
      worker.localQueues = some arena ∧
      tasksOf next = tasksOf arena ++ [request.task held.address worker.address] ∧
      after = some (held.setWorker workers workerId (worker.queued next request.requireNotify))

/-- The call reads no entry outside the array, and if it returns it has appended the task
or changed nothing. -/
def KeepsBounds (workerCount : Int) (pool : Option Pool) (workerId : Int) (request : Request)
    (malloc : Option Nat) : Prop :=
  match enqueueEnding workerCount pool workerId request malloc with
  | .strays => False
  | .waits => True
  | .returns after => after = pool ∨ Appended workerCount pool workerId request after

/-- The call is about to append the task, the worker's arena needs a block for it, and
there is no memory for one. -/
def OutOfMemory (worker : Option Worker) (request : Request) (malloc : Option Nat) : Prop :=
  malloc = none ∧ request.valid = true ∧ ∃ arena, worker.bind Worker.localQueues = some arena ∧
    arena.mutex = false ∧ NeedsBlock arena sizeofTask

/-- There is no array, or the id is one of its indexes and memory does not run out. -/
def Orderly (workerCount : Int) (pool : Option Pool) (workerId : Int) (request : Request)
    (malloc : Option Nat) : Prop :=
  pool.bind Pool.workers = none ∨
    InArray workerCount workerId ∧ ¬ OutOfMemory (pool.bind (·.workerAt workerId)) request malloc

/-! ## Pools -/

/-- A task is enqueued, with the answer of `malloc` if it is asked; the worker at an index
takes a turn of its loop, or is told to shut down as `destroy_workers` does first. -/
inductive Event where
  | enqueue (workerId : Int) (request : Request) (malloc : Option Nat)
  | turn (workerId : Int)
  | shutDown (workerId : Int)
  deriving Repr

/-- The worker as a turn leaves it, if it ends. -/
def leftBy : Turn → Option Worker
  | .serves worker _ => some worker
  | .leaves worker => some worker
  | _ => none

/-- One event at an index of the array. A call that waits for ever has no successor. -/
def step (workerCount : Int) (pool : Pool) : Event → Option Pool
  | .enqueue workerId request malloc =>
    if InArray workerCount workerId ∧ MallocKeeps (pool.workerAt workerId) malloc then
      (enqueue (some pool) workerId request malloc).bind Prod.fst
    else none
  | .turn workerId =>
    if InArray workerCount workerId then
      pool.workers.bind fun workers =>
        ((workers workerId).bind fun worker => leftBy (turn worker)).map fun worker =>
          pool.setWorker workers workerId worker
    else none
  | .shutDown workerId =>
    if InArray workerCount workerId then
      pool.workers.bind fun workers =>
        (workers workerId).map fun worker =>
          pool.setWorker workers workerId (semPost { worker with shutdown := true })
    else none

/-- Each worker of the array is as `init_worker` leaves it. It may be missing, and so may
its arena. -/
def Started (workerCount : Int) (pool : Pool) : Prop :=
  ∀ workerId worker, InArray workerCount workerId → pool.workerAt workerId = some worker →
    ∃ room malloc, (∀ memory ∈ malloc, Initial sizeArenaDefault memory) ∧
      worker = initWorker worker.address room malloc

/-- A pool that these events have led to. -/
def Reached (workerCount : Int) (pool : Pool) : Prop :=
  ∃ first events, Started workerCount first ∧ exec (step workerCount) first events = some pool

/-- An arena is a queue of tasks, unless its lock was kept. -/
def QueueKept (arena : Arena) : Prop :=
  arena.mutex = false → arena.blockSize = sizeArenaDefault ∧
    ∃ tasks wiped, Queue arena.blocks tasks wiped

/-- The worker's arena, if there is one, is a queue of tasks. -/
def Workable (worker : Worker) : Prop := ∀ arena, worker.localQueues = some arena → QueueKept arena

/-- Every worker of the array has a queue of tasks. -/
def AllWorkable (workerCount : Int) (pool : Pool) : Prop :=
  ∀ workerId worker, InArray workerCount workerId → pool.workerAt workerId = some worker →
    Workable worker

/-! ## What a call does -/

/-- The pool's worker at an index, once it is stored there again. -/
def Restored (pool : Pool) (workerId : Int) (worker : Worker) (after : Pool) : Prop :=
  ∃ workers, pool.workers = some workers ∧ after = pool.setWorker workers workerId worker

/-- What a call that returns has done: nothing, it has found no memory and left the arena
locked, or it has stored the task in the slot it got. -/
inductive Outcome (pool : Pool) (workerId : Int) (request : Request) (malloc : Option Nat) :
    Option Pool → Prop
  | unchanged : Outcome pool workerId request malloc (some pool)
  | exhausted (worker : Worker) (arena next : Arena) (after : Pool)
      (held : pool.workerAt workerId = some worker) (queues : worker.localQueues = some arena)
      (valid : request.valid = true) (refused : arenaAlloc arena sizeofTask malloc = some (next, none))
      (restored : Restored pool workerId { worker with localQueues := some next } after) :
      Outcome pool workerId request malloc (some after)
  | stored (worker : Worker) (arena next : Arena) (slot : Pointer) (after : Pool)
      (held : pool.workerAt workerId = some worker) (queues : worker.localQueues = some arena)
      (allocated : arenaAlloc arena sizeofTask malloc = some (next, some slot))
      (restored : Restored pool workerId (worker.queued
        (next.write slot (taskBytes (request.task pool.address worker.address)))
        request.requireNotify) after) :
      Outcome pool workerId request malloc (some after)

theorem enqueue_outcome {workerId : Int}
    (ran : enqueue (some pool) workerId request malloc = some (after, printed)) :
    Outcome pool workerId request malloc after := by
  simp only [enqueue] at ran
  split at ran
  case h_1 =>
    cases ran
    exact .unchanged
  case h_2 workers array =>
    split at ran
    case h_1 =>
      cases ran
      exact .unchanged
    case h_2 worker here =>
      have held : pool.workerAt workerId = some worker := by simp [Pool.workerAt, array, here]
      split at ran
      case h_1 =>
        cases ran
        exact .unchanged
      case h_2 arena queues =>
        split at ran
        case isTrue =>
          cases ran
          exact .unchanged
        case isFalse valid =>
          split at ran
          case h_1 => cases ran
          case h_2 next refused =>
            cases ran
            exact .exhausted worker arena next _ held queues (by simpa using valid) refused
              ⟨workers, array, rfl⟩
          case h_3 next slot allocated =>
            cases ran
            rw [queued_eq]
            exact .stored worker arena next slot _ held queues allocated ⟨workers, array, rfl⟩

/-- An allocation that finds no memory leaves the tasks, and keeps the lock. -/
theorem alloc_exhausted (kept : QueueKept arena)
    (refused : arenaAlloc arena sizeofTask malloc = some (next, none)) :
    next.mutex = true ∧ arena.mutex = false ∧ tasksOf next = tasksOf arena ∧ malloc = none ∧
      NeedsBlock arena sizeofTask := by
  obtain ⟨unlocked, blocks, room, loop, outcome⟩ := arenaAllocateRaw_cases refused
  obtain ⟨unit, tasks, wiped, queue⟩ := kept unlocked
  rcases outcome with ⟨rfl, _, rfl⟩ | ⟨_, pointer, _⟩
  · have found : RoomFound (align sizeofTask) arena.blockSize malloc arena.blocks (blocks, false) :=
      loop ▸ findRoom_cases queue.formed.idle
    obtain ⟨none_, full, rest⟩ := findRoom_refused loop
    refine ⟨rfl, unlocked, ?_, none_, full, rest⟩
    cases found with
    | exhausted _ same => exact congrArg (List.flatMap tasksIn) same
  · cases pointer

/-- A slot stored in makes the task the last of the queue. -/
theorem alloc_stored (kept : QueueKept arena)
    (keeps : ∀ address ∈ malloc, MallocAnswers arena.blocks.chain
      (totalSize (max (align sizeofTask) arena.blockSize)) address)
    (allocated : arenaAlloc arena sizeofTask malloc = some (next, some slot)) (task : Task) :
    QueueKept (next.write slot (taskBytes task)) ∧
      tasksOf (next.write slot (taskBytes task)) = tasksOf arena ++ [task] := by
  obtain ⟨unit, tasks, wiped, queue⟩ := kept (arenaAllocateRaw_cases allocated).1
  obtain ⟨stored, _, size⟩ := queue_enqueued queue unit keeps allocated task
  refine ⟨fun _ => ⟨size, _, _, stored⟩, ?_⟩
  rw [tasksOf, stored.held, tasksOf, queue.held]

/-! ## Pools that are reached -/

/-- One worker of the pool has changed. -/
theorem restored_workable {workerId : Int} (all : AllWorkable workerCount pool)
    (workable : Workable worker) (restored : Restored pool workerId worker after) :
    AllWorkable workerCount after := by
  obtain ⟨workers, array, rfl⟩ := restored
  intro other found inArray held
  by_cases same : other = workerId
  · subst same
    rw [setWorker_workerAt] at held
    exact Option.some.inj held ▸ workable
  · rw [setWorker_other array same] at held
    exact all other found inArray held

private theorem workable_of_queues {worker : Worker} (queues : worker.localQueues = some arena)
    (kept : QueueKept arena) : Workable worker :=
  fun _ other => Option.some.inj (queues.symm.trans other) ▸ kept

theorem enqueue_workable {workerId : Int} (all : AllWorkable workerCount pool)
    (inArray : InArray workerCount workerId) (keeps : MallocKeeps (pool.workerAt workerId) malloc)
    (ran : enqueue (some pool) workerId request malloc = some (some after, printed)) :
    AllWorkable workerCount after := by
  cases enqueue_outcome ran with
  | unchanged => exact all
  | exhausted worker arena next _ held queues _ refused restored =>
    have kept := all workerId worker inArray held arena queues
    apply restored_workable all _ restored
    apply workable_of_queues rfl
    intro unlocked
    exact absurd unlocked (by simp [(alloc_exhausted kept refused).1])
  | stored worker arena next slot _ held queues allocated restored =>
    have kept := all workerId worker inArray held arena queues
    simp only [MallocKeeps, held, Option.bind_some, queues] at keeps
    apply restored_workable all _ restored
    apply workable_of_queues rfl
    exact (alloc_stored kept keeps allocated _).1

private theorem queueKept_reset (kept : QueueKept arena)
    (reset : arenaReset (some arena) = some (some next)) : QueueKept next := by
  obtain ⟨unlocked, same⟩ := arenaReset_cases reset
  obtain rfl := Option.some.inj same
  obtain ⟨unit, tasks, wiped, queue⟩ := kept unlocked
  exact fun _ => ⟨unit, _, _, queue_reset queue⟩

/-- A turn empties the queue or leaves it as it is. -/
theorem turn_workable (workable : Workable worker) (left : leftBy (turn worker) = some next) :
    Workable next := by
  simp only [turn] at left
  split at left
  case isTrue => cases left
  case isFalse =>
    split at left
    case isTrue =>
      cases left
      exact workable
    case isFalse =>
      split at left
      case h_1 => cases left
      case h_2 arena queues =>
        split at left
        case h_1 => cases left
        case h_2 after reset =>
          cases left
          rintro other rfl
          exact queueKept_reset (workable arena queues) reset

theorem step_workable (all : AllWorkable workerCount pool)
    (taken : step workerCount pool event = some next) : AllWorkable workerCount next := by
  cases event with
  | enqueue workerId request malloc =>
    simp only [step] at taken
    split at taken
    case isFalse => cases taken
    case isTrue premises =>
      obtain ⟨⟨after, printed⟩, ran, rfl⟩ := Option.bind_eq_some_iff.mp taken
      exact enqueue_workable all premises.1 premises.2 ran
  | turn workerId =>
    simp only [step] at taken
    split at taken
    case isFalse => cases taken
    case isTrue inArray =>
      obtain ⟨workers, array, turned⟩ := Option.bind_eq_some_iff.mp taken
      obtain ⟨worker, ended, rfl⟩ := Option.map_eq_some_iff.mp turned
      obtain ⟨old, here, left⟩ := Option.bind_eq_some_iff.mp ended
      have workable := all workerId old inArray (by simp [Pool.workerAt, array, here])
      exact restored_workable all (turn_workable workable left) ⟨workers, array, rfl⟩
  | shutDown workerId =>
    simp only [step] at taken
    split at taken
    case isFalse => cases taken
    case isTrue inArray =>
      obtain ⟨workers, array, told⟩ := Option.bind_eq_some_iff.mp taken
      obtain ⟨old, here, rfl⟩ := Option.map_eq_some_iff.mp told
      have workable : Workable (semPost { old with shutdown := true }) :=
        all workerId old inArray (by simp [Pool.workerAt, array, here])
      exact restored_workable all workable ⟨workers, array, rfl⟩

private theorem started_workable (started : Started workerCount pool) :
    AllWorkable workerCount pool := by
  intro workerId worker inArray held arena queues
  obtain ⟨room, malloc, initial, same⟩ := started workerId worker inArray held
  rw [same] at queues
  cases room with
  | false => cases queues
  | true =>
    cases malloc with
    | none => cases queues
    | some memory =>
      obtain rfl := Option.some.inj ((arenaInit_fresh memory).symm.trans queues)
      exact fun _ => ⟨rfl, _, _, queue_fresh (initial memory rfl)⟩

theorem reached_workable (reached : Reached workerCount pool) : AllWorkable workerCount pool := by
  obtain ⟨first, events, started, ran⟩ := reached
  exact exec_invariant (fun _ _ _ => step_workable) (started_workable started) ran

/-! ## The calls that keep to their worker -/

private theorem restored_worker {workerId : Int} (restored : Restored pool workerId worker after) :
    after.workerAt workerId = some worker := by
  obtain ⟨workers, _, rfl⟩ := restored
  exact setWorker_workerAt pool workers workerId worker

/-- A call that has run out of memory has changed the arena and appended nothing. -/
theorem not_kept_of_exhausted {workerId : Int} (kept : QueueKept arena)
    (held : pool.workerAt workerId = some worker) (queues : worker.localQueues = some arena)
    (refused : arenaAlloc arena sizeofTask malloc = some (next, none))
    (restored : Restored pool workerId { worker with localQueues := some next } after) :
    ¬ (some after = some pool ∨ Appended workerCount (some pool) workerId request (some after)) := by
  obtain ⟨locked, unlocked, tasks, _⟩ := alloc_exhausted kept refused
  have now := restored_worker restored
  rintro (same | ⟨_, pool, workers, other, before, grown, found, array, here, queue, appended, same⟩)
  · obtain rfl := Option.some.inj same
    have old : worker.localQueues = some next :=
      congrArg Worker.localQueues (Option.some.inj (held.symm.trans now))
    obtain rfl := Option.some.inj (queues.symm.trans old)
    exact Bool.noConfusion (locked.symm.trans unlocked)
  · obtain rfl := Option.some.inj found
    obtain rfl := Option.some.inj same
    rw [setWorker_workerAt] at now
    have last : some grown = some next := congrArg Worker.localQueues (Option.some.inj now)
    obtain rfl := Option.some.inj last
    have there : pool.workerAt workerId = some other :=
      Option.bind_eq_some_iff.mpr ⟨workers, array, here⟩
    obtain rfl := Option.some.inj (held.symm.trans there)
    obtain rfl := Option.some.inj (queues.symm.trans queue)
    rw [tasks] at appended
    simpa using congrArg List.length appended

/-- Where memory runs out the call returns, past the point where it could undo anything. -/
theorem enqueue_exhausted {workerId : Int} (exhausts : OutOfMemory (pool.workerAt workerId) request malloc) :
    ∃ worker arena next after printed, pool.workerAt workerId = some worker ∧
      worker.localQueues = some arena ∧ arenaAlloc arena sizeofTask malloc = some (next, none) ∧
      Restored pool workerId { worker with localQueues := some next } after ∧
      enqueue (some pool) workerId request malloc = some (some after, printed) := by
  obtain ⟨rfl, valid, arena, found, unlocked, full, rest⟩ := exhausts
  obtain ⟨worker, held, queues⟩ := Option.bind_eq_some_iff.mp found
  obtain ⟨workers, array, here⟩ := Option.bind_eq_some_iff.mp held
  obtain ⟨last, loop, _⟩ :=
    findRoom_exhausted (align sizeofTask) arena.blockSize arena.blocks.before full rest
  have refused : arenaAlloc arena sizeofTask none =
      some ({ arena with mutex := true, blocks := last }, none) := by
    simp only [arenaAlloc, arenaAllocateRaw, unlocked, Bool.false_eq_true, if_false, loop]
  refine ⟨worker, arena, _, _,
    [⟨asStatus .reactor .failure .alloc, "arena_alloc()", "Allocate new local queue."⟩],
    held, queues, refused, ⟨workers, array, rfl⟩, ?_⟩
  simp only [enqueue, array, here, queues, valid, Bool.true_eq_false, ↓reduceIte, refused]

/-- What a call that keeps to the array has done when it returns. -/
theorem kept_iff {workerId : Int} (all : AllWorkable workerCount pool)
    (inArray : InArray workerCount workerId) (keeps : MallocKeeps (pool.workerAt workerId) malloc)
    (ran : enqueue (some pool) workerId request malloc = some (after, printed)) :
    after = some pool ∨ Appended workerCount (some pool) workerId request after ↔
      ¬ OutOfMemory (pool.workerAt workerId) request malloc := by
  constructor
  · intro kept exhausts
    obtain ⟨worker, arena, next, left, _, held, queues, refused, restored, same⟩ :=
      enqueue_exhausted exhausts
    obtain ⟨rfl, _⟩ := Prod.mk.inj (Option.some.inj (same.symm.trans ran))
    exact not_kept_of_exhausted (all workerId worker inArray held arena queues) held queues refused
      restored kept
  · intro provided
    cases enqueue_outcome ran with
    | unchanged => exact .inl rfl
    | exhausted worker arena next _ held queues valid refused _ =>
      obtain ⟨_, unlocked, _, none_, needs⟩ :=
        alloc_exhausted (all workerId worker inArray held arena queues) refused
      exact absurd ⟨none_, valid, arena, by simp [held, queues], unlocked, needs⟩ provided
    | stored worker arena next slot _ held queues allocated restored =>
      obtain ⟨workers, array, rfl⟩ := restored
      have here : workers workerId = some worker := by simpa [Pool.workerAt, array] using held
      simp only [MallocKeeps, held, Option.bind_some, queues] at keeps
      have kept := all workerId worker inArray held arena queues
      exact .inr ⟨inArray, pool, workers, worker, arena, _, rfl, array, here, queues,
        (alloc_stored kept keeps allocated _).2, rfl⟩

/-- A call of `enqueue` keeps to the pool's array and appends its task or nothing exactly
if there is no array, or the id is one of its indexes and memory does not run out on it. -/
theorem keepsBounds_iff_orderly {workerId : Int} (reached : ∀ held ∈ pool, Reached workerCount held)
    (keeps : InArray workerCount workerId → MallocKeeps (pool.bind (·.workerAt workerId)) malloc) :
    KeepsBounds workerCount pool workerId request malloc ↔
      Orderly workerCount pool workerId request malloc := by
  match pool with
  | none => exact ⟨fun _ => .inl rfl, fun _ => .inl rfl⟩
  | some pool =>
    cases array : pool.workers with
    | none =>
      have same : enqueue (some pool) workerId request malloc = some (some pool, []) := by
        simp [enqueue, array]
      simp [KeepsBounds, enqueueEnding, Orderly, array, same]
    | some workers =>
      by_cases inArray : InArray workerCount workerId
      · have all := reached_workable (reached pool rfl)
        simp only [KeepsBounds, enqueueEnding, Orderly, Option.bind_some, inArray, not_true_eq_false,
          and_false, if_false, true_and, array, reduceCtorEq, false_or]
        cases ran : enqueue (some pool) workerId request malloc with
        | none =>
          refine ⟨fun _ exhausts => ?_, fun _ => trivial⟩
          obtain ⟨_, _, _, _, _, _, _, _, _, same⟩ := enqueue_exhausted exhausts
          cases ran.symm.trans same
        | some result => exact kept_iff all inArray (keeps inArray) ran
      · simp [KeepsBounds, enqueueEnding, Orderly, array, inArray]

/-- A pool of two workers, of which the second could not be made. -/
private def halfMade : Pool :=
  ⟨1, some (Function.update (fun _ => none) 0 (some (initWorker 2 true (some 4096))))⟩

private theorem halfMade_reached : Reached 2 halfMade := by
  refine ⟨halfMade, [], fun workerId worker _ held => ?_, rfl⟩
  by_cases first : workerId = 0
  · subst first
    obtain rfl : worker = initWorker 2 true (some 4096) := Option.some.inj held.symm
    refine ⟨true, some 4096, fun memory answered => ?_, rfl⟩
    obtain rfl := Option.some.inj answered
    decide
  · simp [halfMade, Pool.workerAt, first] at held

private def aTask : Request := ⟨true, 0, 1, 5, 1, 7, 0, 0, 0⟩

/-- A call at each of its two entries. -/
theorem both_entries_kept :
    KeepsBounds 2 (some halfMade) 0 aTask (some 8192) ∧ KeepsBounds 2 (some halfMade) 1 aTask none := by
  have reached : ∀ held ∈ some halfMade, Reached 2 held :=
    fun _ same => Option.some.inj same ▸ halfMade_reached
  constructor
  · exact (keepsBounds_iff_orderly reached fun _ => by decide).mpr
      (.inr ⟨by decide, fun exhausts => nomatch exhausts.1⟩)
  · refine (keepsBounds_iff_orderly reached fun _ => by decide).mpr (.inr ⟨by decide, ?_⟩)
    rintro ⟨_, _, arena, found, _⟩
    cases found

/-- With a negative id, the entry before the array is read. -/
theorem negative_id_strays :
    ¬ ∀ workerCount pool workerId request malloc, (∀ held ∈ pool, Reached workerCount held) →
      (InArray workerCount workerId → MallocKeeps (pool.bind (·.workerAt workerId)) malloc) →
      KeepsBounds workerCount pool workerId request malloc := by
  intro always
  exact always 2 (some halfMade) (-1) aTask none
    (fun _ same => Option.some.inj same ▸ halfMade_reached) (fun inArray => absurd inArray (by decide))

end ShapeQuake.EnqueueBounds
