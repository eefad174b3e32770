import ShapeQuake.Heap
import ShapeQuake.Library.Runs
import ShapeQuake.Reactor
import ShapeQuake.SharedData

/-! The pools of `reactor.c` as a whole: the three constructors, which take a
pool, its arrays, its workers and its jobs from one tracker, and the destructors,
each of which looks at the mode and at what the others left behind. What the
system answers is an argument, and a call returns `none` here when it does not
come back. What is printed is left out. -/
namespace ShapeQuake.Pools
open Library.Runs Heap Allocator SharedData

/-- `MAX_POOLS`. -/
def maxPools : Int := 96

/-- `MAX_JOBS`. -/
def maxJobs : Int := 16

/-- `THREAD_PROCESS_SHARED_NO`. -/
def threadProcessSharedNo : Int := 0

/-- `THREAD_PROCESS_SHARED`. -/
def threadProcessShared : Int := 1

/-- `SHARED_DATA_COUNT_NONE`. -/
def sharedDataCountNone : Int := -1

/-- `sizeof(pool_t)`. -/
def sizeofPool : Nat := 96

/-- `sizeof(worker_t)`. -/
def sizeofWorker : Nat := 104

/-- `sizeof(job_t)`. -/
def sizeofJob : Nat := 64

/-- The size of a pointer. -/
def sizeofPointer : Nat := 8

/-! ## The tracker of the pools -/

/-- `s_tracker`, and the memory it keeps track of. -/
structure Tracking where
  tracker : HeapTracker
  memory : Memory

/-- `heap_alloc` of `s_tracker`. -/
def Tracking.alloc (tracking : Tracking) (size : Nat) (malloc : Option Nat) :
    Option (Tracking × Option Nat) :=
  (heapAlloc (some tracking.tracker) tracking.memory size malloc).bind
    fun (tracker, memory, ptr) => tracker.map fun tracker => (⟨tracker, memory⟩, ptr)

/-- `heap_free` of `s_tracker`. -/
def Tracking.free (tracking : Tracking) (ptr : Option Nat) : Option Tracking :=
  (heapFree (some tracking.tracker) tracking.memory ptr).bind
    fun (tracker, memory, _) => tracker.map fun tracker => ⟨tracker, memory⟩

/-- The checks that the functions of a pool make of `tracking_health`. -/
def Tracking.unhealthy (tracking : Tracking) : Bool :=
  Heap.unhealthy (trackingHealth (some tracking.tracker))

/-! ## Pools -/

/-- `pool_mode_t`. -/
inductive PoolMode where
  | begin_
  | pureThreadPool
  | reactorEpoll
  | end_
  deriving DecidableEq, Repr

/-- `worker_t`, with the thread that was made for it. -/
structure Worker extends Reactor.Worker where
  id : Int
  tid : Option Nat

/-- What `fork` answers to the parent. -/
abbrev Pid := { pid : Nat // 0 < pid }

/-- `job_t`, with its address. -/
structure Job where
  address : Nat
  id : Int
  pid : Int
  deriving DecidableEq, Repr

/-- An array of pointers on the heap. -/
structure PointerArray (Entry : Type) where
  address : Nat
  entries : List (Option Entry)

/-- The fields of `pool_t` about its workers or its jobs: the array and the count. -/
structure Slots (Entry : Type) where
  array : Option (PointerArray Entry)
  count : Int

/-- The workers or jobs that there are. -/
def Slots.present (slots : Slots Entry) : List Entry :=
  slots.array.elim [] fun array => array.entries.reduceOption

/-- The worker or job at an index. -/
def Slots.at_ (slots : Slots Entry) (index : Nat) : Option Entry :=
  slots.array.bind fun array => (array.entries[index]?).join

/-- `pool_t`, with its address. -/
structure Pool where
  address : Nat
  poolingMode : PoolMode
  epollfd : Int
  workers : Slots Worker
  jobs : Slots Job
  ackSem : Nat
  shared : Kind → Shared

/-- The value of a zeroed pool whose mode follows from `epollfd`. -/
def newPool (address : Nat) (epollfd : Int) : Pool :=
  { address
    poolingMode := if epollfd ≠ -1 then .reactorEpoll else .pureThreadPool
    epollfd
    workers := ⟨none, 0⟩
    jobs := ⟨none, 0⟩
    ackSem := 0
    shared := fun _ => ⟨none, 0⟩ }

/-! ## Constructors -/

/-- What the system answers while a worker is made: `malloc` for the `worker_t`,
`arena_init`, and `pthread_create`. -/
structure WorkerOutcome where
  malloc : Option Nat
  arenaRoom : Bool
  arenaBlock : Option Nat
  pthreadCreate : Option Nat
  deriving DecidableEq, Repr

/-- What the system answers while a job is made. -/
structure JobOutcome where
  malloc : Option Nat
  fork : Option Pid
  deriving DecidableEq, Repr

/-- What the system answers while a pool is made. -/
structure Outcomes where
  pool : Option Nat
  jobs : Option Nat
  workers : Option Nat
  job : Nat → JobOutcome
  worker : Nat → WorkerOutcome

/-- The check of a count of workers or jobs. -/
def countAccepted (count most : Int) : Bool := !(1 > count ∨ count > most)

/-- The check of `pshared`, which `init_worker` repeats. -/
def psharedAccepted (pshared : Int) : Bool :=
  !(threadProcessSharedNo > pshared ∨ pshared > threadProcessShared)

/-- What `init_worker` and `init_job` have in common. Neither says whether it
made anything. -/
def initEntry (tracking : Tracking) (slots : Slots Entry) (idx : Int) (accepted : Bool) (size : Nat)
    (malloc : Option Nat) (make : Nat → Option Entry) : Option (Tracking × Slots Entry) :=
  if tracking.unhealthy then some (tracking, slots)
  else
    match slots.array with
    | none => some (tracking, slots)
    | some array =>
      if 0 > idx ∨ idx ≥ slots.count ∨ accepted = false then some (tracking, slots)
      else
        (tracking.alloc size malloc).bind fun (tracking, address) =>
          match address with
          | none => some (tracking, slots)
          | some address => (make address).map fun entry =>
            (tracking, { slots with
              array := some { array with entries := array.entries.set idx.toNat (some entry) } })

/-- What `init_worker` stores. A thread that could not be made has no `tid`. -/
def makeWorker (id : Int) (outcome : WorkerOutcome) (address : Nat) : Worker :=
  { Reactor.initWorker (.ofNat 64 address) outcome.arenaRoom outcome.arenaBlock with
    id, tid := outcome.pthreadCreate }

/-- `init_worker`. -/
def initWorker (tracking : Tracking) (workers : Slots Worker) (idxWorker id pshared : Int)
    (outcome : WorkerOutcome) : Option (Tracking × Slots Worker) :=
  initEntry tracking workers idxWorker (!(id < 0) && psharedAccepted pshared) sizeofWorker
    outcome.malloc fun address => some (makeWorker id outcome address)

/-- `process_spawn`, which ends the process when it cannot fork. -/
def processSpawn (job : Job) (fork : Option Pid) : Option Job :=
  fork.map fun pid => { job with pid := pid.val }

/-- `init_job`. -/
def initJob (tracking : Tracking) (jobs : Slots Job) (idxJob id : Int) (outcome : JobOutcome) :
    Option (Tracking × Slots Job) :=
  initEntry tracking jobs idxJob (!(id < 0)) sizeofJob outcome.malloc fun address =>
    processSpawn { address, id, pid := -1 } outcome.fork

/-- The array for so many pointers, zeroed, where there are to be any. -/
def Tracking.allocArray (tracking : Tracking) (count : Nat) (malloc : Option Nat) :
    Option (Tracking × Option (PointerArray Entry)) :=
  if count = 0 then some (tracking, none)
  else
    (tracking.alloc (sizeofPointer * count) malloc).map fun (tracking, address) =>
      (tracking, address.map fun address => ⟨address, List.replicate count none⟩)

/-- The loop of a constructor over its workers. -/
def initWorkers (tracking : Tracking) (workers : Slots Worker) (pshared : Int)
    (outcome : Nat → WorkerOutcome) (count : Nat) : Option (Tracking × Slots Worker) :=
  exec (fun (tracking, workers) (i : Nat) =>
    initWorker tracking workers i (i + 1) pshared (outcome i)) (tracking, workers) (List.range count)

/-- The loop of a constructor over its jobs. -/
def initJobs (tracking : Tracking) (jobs : Slots Job) (outcome : Nat → JobOutcome) (count : Nat) :
    Option (Tracking × Slots Job) :=
  exec (fun (tracking, jobs) (i : Nat) =>
    initJob tracking jobs i (i + 1) (outcome i)) (tracking, jobs) (List.range count)

/-- What the constructors have in common once their arguments are accepted. A
count of zero is that of a constructor without such entries. -/
def initMode (tracking : Tracking) (jobCount workerCount : Nat) (epollfd pshared : Int)
    (outcomes : Outcomes) : Option (Tracking × Option Pool) :=
  if tracking.unhealthy then some (tracking, none)
  else
    (tracking.alloc sizeofPool outcomes.pool).bind fun (tracking, address) =>
      match address with
      | none => some (tracking, none)
      | some address =>
        (tracking.allocArray jobCount outcomes.jobs).bind fun (tracking, jobs) =>
          if jobCount ≠ 0 ∧ jobs.isNone then
            (tracking.free (some address)).map fun tracking => (tracking, none)
          else
            (tracking.allocArray workerCount outcomes.workers).bind fun (tracking, workers) =>
              if workerCount ≠ 0 ∧ workers.isNone then
                (tracking.free (jobs.map PointerArray.address)).bind fun tracking =>
                  (tracking.free (some address)).map fun tracking => (tracking, none)
              else
                (initJobs tracking ⟨jobs, jobCount⟩ outcomes.job jobCount).bind
                  fun (tracking, jobs) =>
                    (initWorkers tracking ⟨workers, workerCount⟩ pshared outcomes.worker
                      workerCount).map fun (tracking, workers) =>
                        (tracking, some { newPool address epollfd with jobs, workers })

/-- `init_mode_threading`. -/
def initModeThreading (tracking : Tracking) (workerCount epollfd pshared : Int)
    (outcomes : Outcomes) : Option (Tracking × Option Pool) :=
  if countAccepted workerCount maxPools && psharedAccepted pshared then
    initMode tracking 0 workerCount.toNat epollfd pshared outcomes
  else some (tracking, none)

/-- `init_mode_processing`. -/
def initModeProcessing (tracking : Tracking) (jobCount epollfd : Int) (outcomes : Outcomes) :
    Option (Tracking × Option Pool) :=
  if countAccepted jobCount maxJobs then
    initMode tracking jobCount.toNat 0 epollfd threadProcessSharedNo outcomes
  else some (tracking, none)

/-- `init_mode_threaded_processing`. -/
def initModeThreadedProcessing (tracking : Tracking) (workerCount jobCount epollfd pshared : Int)
    (outcomes : Outcomes) : Option (Tracking × Option Pool) :=
  if countAccepted workerCount maxPools && countAccepted jobCount maxJobs &&
      psharedAccepted pshared then
    initMode tracking jobCount.toNat workerCount.toNat epollfd pshared outcomes
  else some (tracking, none)

/-- A call of a constructor. -/
inductive Init where
  | threading (workerCount epollfd pshared : Int)
  | processing (jobCount epollfd : Int)
  | threadedProcessing (workerCount jobCount epollfd pshared : Int)
  deriving DecidableEq, Repr

/-- How many jobs are asked for, if any. -/
def Init.jobCount : Init → Nat
  | .threading _ _ _ => 0
  | .processing jobCount _ | .threadedProcessing _ jobCount _ _ => jobCount.toNat

/-- How many workers are asked for, if any. -/
def Init.workerCount : Init → Nat
  | .processing _ _ => 0
  | .threading workerCount _ _ | .threadedProcessing workerCount _ _ _ => workerCount.toNat

/-- The descriptor that is handed over, or -1. -/
def Init.epollfd : Init → Int
  | .threading _ epollfd _ | .processing _ epollfd | .threadedProcessing _ _ epollfd _ => epollfd

/-- What is handed on to the workers. -/
def Init.pshared : Init → Int
  | .processing _ _ => threadProcessSharedNo
  | .threading _ _ pshared | .threadedProcessing _ _ _ pshared => pshared

/-- The checks that the constructor makes of its arguments. -/
def Init.accepted : Init → Bool
  | .threading workerCount _ pshared => countAccepted workerCount maxPools && psharedAccepted pshared
  | .processing jobCount _ => countAccepted jobCount maxJobs
  | .threadedProcessing workerCount jobCount _ pshared =>
    countAccepted workerCount maxPools && countAccepted jobCount maxJobs && psharedAccepted pshared

/-- The constructor that was called. -/
def initPool (tracking : Tracking) (outcomes : Outcomes) : Init → Option (Tracking × Option Pool)
  | .threading workerCount epollfd pshared =>
    initModeThreading tracking workerCount epollfd pshared outcomes
  | .processing jobCount epollfd => initModeProcessing tracking jobCount epollfd outcomes
  | .threadedProcessing workerCount jobCount epollfd pshared =>
    initModeThreadedProcessing tracking workerCount jobCount epollfd pshared outcomes

theorem initPool_accepted {init : Init} (accepted : init.accepted = true) :
    initPool tracking outcomes init =
      initMode tracking init.jobCount init.workerCount init.epollfd init.pshared outcomes := by
  cases init <;> exact if_pos accepted

theorem initPool_refused {init : Init} (refused : init.accepted = false) :
    initPool tracking outcomes init = some (tracking, none) := by
  cases init <;> exact if_neg (Bool.not_eq_true _ ▸ refused)

theorem pshared_of_accepted {init : Init} (accepted : init.accepted = true) :
    psharedAccepted init.pshared = true := by
  cases init with
  | threading workerCount epollfd pshared => exact (Bool.and_eq_true_iff.mp accepted).2
  | processing jobCount epollfd => rfl
  | threadedProcessing workerCount jobCount epollfd pshared =>
    exact (Bool.and_eq_true_iff.mp accepted).2

/-! ## Destructors -/

/-- What destroying a pool does outside the heap. -/
inductive Effect where
  | closed (fd : Int)
  | killed (pid : Int)
  | waited (pid : Int)
  | joined (tid : Nat)
  | zone (effect : Vma.Effect)
  deriving DecidableEq, Repr

/-- What a loop up to the count reads of the array, null pointers apart. -/
def Slots.reached (slots : Slots Entry) : Option (List Entry) :=
  if slots.count ≤ 0 then some []
  else slots.array.map fun array => (array.entries.take slots.count.toNat).reduceOption

/-- What is left of the fields about workers or jobs when they are destroyed. -/
def destroyedSlots : Slots Entry := ⟨none, sharedDataCountNone⟩

/-- The last loop of `destroy_job`. A child that was killed can be waited for. -/
def freeJobs (tracking : Tracking) (jobs : List Job) : Option Tracking :=
  exec (fun tracking job => tracking.free (some job.address)) tracking jobs

/-- `destroy_job`. -/
def destroyJob (tracking : Tracking) (pool : Pool) : Option (Tracking × Pool × List Effect) :=
  if pool.poolingMode = .pureThreadPool then some (tracking, pool, [])
  else if tracking.unhealthy then some (tracking, pool, [])
  else
    pool.jobs.reached.bind fun jobs =>
      let spawned := jobs.filter (·.pid > 0)
      (freeJobs tracking jobs).bind fun tracking =>
        (tracking.free (pool.jobs.array.map PointerArray.address)).map fun tracking =>
          (tracking, { pool with jobs := destroyedSlots },
            spawned.map (.killed ·.pid) ++ spawned.map (.waited ·.pid))

/-- `shutdown` is set and `sem` is posted. -/
def stopWorker (worker : Worker) : Worker := { worker with shutdown := true, sem := worker.sem + 1 }

/-- A thread that was told to stop and woken posts `ack_sem` and ends. -/
def acknowledges (worker : Worker) : Bool := worker.tid.isSome && worker.shutdown && worker.sem > 0

/-- One round of the last loop of `destroy_workers`: the queue is read, destroyed,
and the `worker_t` freed. -/
def freeWorker (tracking : Tracking) (worker : Worker) : Option Tracking :=
  -- without a queue `is_reset` is read through a null pointer
  worker.localQueues.bind fun queues =>
    (arenaDestroy (some queues) true).bind fun _ => tracking.free (some worker.address.toNat)

/-- `destroy_workers`. -/
def destroyWorkers (tracking : Tracking) (pool : Pool) : Option (Tracking × Pool × List Effect) :=
  if tracking.unhealthy then some (tracking, pool, [])
  else
    pool.workers.reached.bind fun workers =>
      let stopped := workers.map stopWorker
      let ackSem := pool.ackSem + stopped.countP acknowledges
      -- one `sem_wait` for each of them
      if ackSem < stopped.length then none
      else
        (exec freeWorker tracking stopped).bind fun tracking =>
          (tracking.free (pool.workers.array.map PointerArray.address)).map fun tracking =>
            (tracking,
              { pool with workers := destroyedSlots, ackSem := ackSem - stopped.length },
              (stopped.filterMap (·.tid)).map .joined)

/-- `vma_destroy` of a pointer that may be null. -/
def destroyZone (zone : Option SharedZone) : List Effect :=
  zone.elim [] fun held => (Vma.vmaDestroy held.zone.baseAddr held.zone).map .zone

/-- The fields about a zone that is destroyed. -/
def destroyedShared : Shared := ⟨none, sharedDataCountNone⟩

/-- `destroy_shared_task_data`. -/
def destroySharedTaskData (pool : Pool) : Pool × List Effect :=
  let shared := pool.shared .task
  if shared.zone.isNone then (pool, [])
  else if shared.count > sharedIdProtectedZone then (pool, [])
  else if pool.workers.array.isNone ∧ pool.workers.count = sharedDataCountNone then
    ({ pool with shared := Function.update pool.shared .task destroyedShared },
      destroyZone shared.zone)
  else (pool, [])

/-- `destroy_shared_job_data`. -/
def destroySharedJobData (pool : Pool) : Pool × List Effect :=
  let shared := pool.shared .job
  if pool.poolingMode = .pureThreadPool then (pool, [])
  else if shared.count > sharedIdProtectedZone then (pool, [])
  else if pool.jobs.array.isNone ∧ pool.jobs.count = sharedDataCountNone then
    ({ pool with shared := Function.update pool.shared .job destroyedShared },
      destroyZone shared.zone)
  else (pool, [])

/-- `destroy_pool`. -/
def destroyPool (tracking : Tracking) (pool : Pool) : Option (Tracking × List Effect) :=
  let close : List Effect :=
    if pool.poolingMode = .reactorEpoll ∧ pool.epollfd ≠ -1 then [.closed pool.epollfd] else []
  (destroyJob tracking pool).bind fun (tracking, pool, ofJobs) =>
    (destroyWorkers tracking pool).bind fun (tracking, pool, ofWorkers) =>
      let (pool, ofJobData) := destroySharedJobData pool
      let (pool, ofTaskData) := destroySharedTaskData pool
      (tracking.free (some pool.address)).map fun tracking =>
        (tracking, close ++ ofJobs ++ ofWorkers ++ ofJobData ++ ofTaskData)

end ShapeQuake.Pools
