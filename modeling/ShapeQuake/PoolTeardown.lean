import ShapeQuake.PoolConstruction

/-! What `destroy_pool` gives back. The destructors it calls are guarded by the
mode of the pool, which follows from its descriptor and not from what it holds,
by null pointers and counts that the destructors before left, and, for the shared
zones, by a counter of their uses. -/
namespace ShapeQuake.PoolTeardown
open Library.Runs Heap HeapTrackerProofs Pools PoolConstruction SharedData

variable {tracking after : Tracking} {handed : List Nat} {pool : Pool}

/-! ## Freeing one block after the other -/

/-- Frees of these pointers. -/
def freeAll (tracking : Tracking) (users : List Nat) : Option Tracking :=
  exec (fun tracking user => tracking.free (some user)) tracking users

theorem free_keeps (keeps : Keeps tracking handed) (freed : tracking.free ptr = some after) :
    ∃ rest, Keeps after rest := by
  simp only [Tracking.free, Option.bind_eq_some_iff, Option.map_eq_some_iff] at freed
  obtain ⟨⟨tracker, memory, status⟩, ran, tracker, rfl, rfl⟩ := freed
  have taken : ∃ rest, step ⟨tracking.tracker, tracking.memory, handed⟩ (.free ptr) =
      some ⟨tracker, memory, rest⟩ := by
    simp [step, Possible, ran]
  obtain ⟨rest, taken⟩ := taken
  exact ⟨rest, keeps_step keeps taken⟩

theorem freeAll_keeps (keeps : Keeps tracking handed) (freed : freeAll tracking users = some after) :
    ∃ rest, Keeps after rest := by
  induction users generalizing tracking handed with
  | nil => exact ⟨handed, Option.some.inj freed ▸ keeps⟩
  | cons user others ih =>
    obtain ⟨middle, here, later⟩ := exec_cons.mp freed
    obtain ⟨rest, kept⟩ := free_keeps keeps here
    exact ih kept later

/-- When all of the pointers have entries, all of their blocks are given back. -/
theorem freeAll_listed (keeps : Keeps tracking handed) (unlocked : tracking.tracker.mutex = false)
    (held : handed.Perm (users ++ rest)) (listed : ∀ user ∈ users, some user ∈ tracking.tracker.ptr) :
    ∃ after left, freeAll tracking users = some after ∧ after.tracker.mutex = false ∧
      Keeps after left ∧ left.Perm rest := by
  induction users generalizing tracking handed with
  | nil => exact ⟨tracking, handed, rfl, unlocked, keeps, held⟩
  | cons user others ih =>
    have distinct : (user :: (others ++ rest)).Nodup := held.nodup_iff.mp keeps.tracked.distinct
    obtain ⟨middle, here, free, kept, entries, _⟩ := free_listed keeps unlocked
      (held.mem_iff.mpr List.mem_cons_self) (listed user List.mem_cons_self)
    have left : (handed.erase user).Perm (others ++ rest) := by
      simpa using held.erase user
    have entered : ∀ other ∈ others, some other ∈ middle.tracker.ptr := by
      intro other member
      rw [entries, mem_without, List.mem_singleton]
      refine ⟨listed other (List.mem_cons_of_mem _ member), ?_⟩
      rintro rfl
      exact (List.nodup_cons.mp distinct).1 (List.mem_append_left _ member)
    obtain ⟨after, final, later, result⟩ := ih kept free left entered
    exact ⟨after, final, exec_cons.mpr ⟨middle, here, later⟩, result⟩

/-- The lock is free afterwards only if it was before and nothing lost its entry. -/
theorem freeAll_unlocked (keeps : Keeps tracking handed) (held : handed.Perm (users ++ rest))
    (freed : freeAll tracking users = some after) (unlocked : after.tracker.mutex = false) :
    tracking.tracker.mutex = false ∧ ∀ user ∈ users, some user ∈ tracking.tracker.ptr := by
  induction users generalizing tracking handed with
  | nil => exact ⟨Option.some.inj freed ▸ unlocked, nofun⟩
  | cons user others ih =>
    have distinct : (user :: (others ++ rest)).Nodup := held.nodup_iff.mp keeps.tracked.distinct
    obtain ⟨middle, here, later⟩ := exec_cons.mp freed
    cases locked : tracking.tracker.mutex with
    | true =>
      rw [free_locked locked] at here
      cases here
    | false =>
      refine ⟨rfl, ?_⟩
      by_cases entry : some user ∈ tracking.tracker.ptr
      · obtain ⟨other, same, _, kept, entries, _⟩ :=
          free_listed keeps locked (held.mem_iff.mpr List.mem_cons_self) entry
        obtain rfl := Option.some.inj (here.symm.trans same)
        have left : (handed.erase user).Perm (others ++ rest) := by
          simpa using held.erase user
        have listed := (ih kept left later).2
        intro next member
        rcases List.mem_cons.mp member with rfl | member
        · exact entry
        · have entered := listed next member
          rw [entries, mem_without] at entered
          exact entered.1
      · -- the lock that an abort leaves held is never given back
        rw [free_unlisted locked entry] at here
        obtain rfl := Option.some.inj here
        cases others with
        | nil =>
          obtain rfl := Option.some.inj later
          cases unlocked
        | cons next others =>
          obtain ⟨_, stuck, _⟩ := exec_cons.mp later
          rw [free_locked rfl] at stuck
          cases stuck

/-- Frees return exactly if the lock is free and all but the last have entries. -/
theorem freeAll_returns_iff (last : Nat) (keeps : Keeps tracking handed)
    (held : handed.Perm (users ++ rest)) :
    (∃ after, freeAll tracking (users ++ [last]) = some after) ↔
      tracking.tracker.mutex = false ∧ ∀ user ∈ users, some user ∈ tracking.tracker.ptr := by
  constructor
  · rintro ⟨after, freed⟩
    obtain ⟨middle, first, final⟩ := exec_append.mp freed
    obtain ⟨_, here, _⟩ := exec_cons.mp final
    refine freeAll_unlocked keeps held first ?_
    cases locked : middle.tracker.mutex with
    | false => rfl
    | true =>
      rw [free_locked locked] at here
      cases here
  · rintro ⟨unlocked, listed⟩
    obtain ⟨middle, left, first, free, kept, _⟩ := freeAll_listed keeps unlocked held listed
    have last_ : ∃ after, middle.free (some last) = some after := by
      by_cases entry : some last ∈ middle.tracker.ptr
      · obtain ⟨after, freed, _⟩ := free_listed kept free (kept.tracked.owned last entry) entry
        exact ⟨after, freed⟩
      · exact ⟨_, free_unlisted free entry⟩
    obtain ⟨after, final⟩ := last_
    exact ⟨after, exec_append.mpr ⟨middle, first, exec_cons.mpr ⟨after, final, rfl⟩⟩⟩

/-! ## What `destroy_pool` does -/

/-- Where workers or jobs and their array are on the heap. -/
def owned (addressOf : Entry → Nat) (slots : Slots Entry) : List Nat :=
  slots.present.map addressOf ++ (slots.array.map PointerArray.address).toList

/-- The blocks of the jobs. -/
def jobBlocks (pool : Pool) : List Nat := owned Job.address pool.jobs

/-- The blocks of the workers. -/
def workerBlocks (pool : Pool) : List Nat := owned (fun worker => worker.address.toNat) pool.workers

/-- The blocks of the jobs, unless `destroy_job` passes them over. -/
def freedJobs (pool : Pool) : List Nat :=
  if pool.poolingMode = .pureThreadPool then [] else jobBlocks pool

/-- `destroy_workers` gets past this worker: its thread acknowledges, and its
queue is there and can be locked. -/
def Stoppable (worker : Worker) : Prop :=
  worker.tid.isSome = true ∧ ∃ queues, worker.localQueues = some queues ∧ queues.mutex = false

/-- Workers and jobs are as many as the counts say, and nobody has left yet. -/
structure WellFormed (pool : Pool) : Prop where
  jobs : Formed pool.jobs
  workers : Formed pool.workers
  quiet : pool.ackSem = 0

private theorem exec_map {State Event Other : Type} (step : State → Event → Option State)
    (change : Other → Event) (state : State) (events : List Other) :
    exec step state (events.map change) = exec (fun state event => step state (change event)) state
      events := by
  induction events generalizing state with
  | nil => rfl
  | cons event rest ih => simp only [List.map_cons, exec, ih]

/-- The last free of a destructor, of an array that may not be there. -/
private theorem freeAll_array (tracking : Tracking) (users : List Nat) (array : Option Nat) :
    freeAll tracking (users ++ array.toList) =
      (freeAll tracking users).bind fun tracking => tracking.free array := by
  have split_ : ∀ final, freeAll tracking (users ++ array.toList) = some final ↔
      ((freeAll tracking users).bind fun tracking => tracking.free array) = some final := by
    intro final
    rw [freeAll, exec_append, Option.bind_eq_some_iff]
    refine exists_congr fun middle => and_congr_right fun _ => ?_
    cases array with
    | none => rfl
    | some address => simp [exec]
  exact Option.ext split_

/-- What is left of a pool whose jobs `destroy_job` does not pass over. -/
def withoutJobs (pool : Pool) : Pool :=
  if pool.poolingMode = .pureThreadPool then pool else { pool with jobs := destroyedSlots }

private theorem freeJobs_eq (tracking : Tracking) (jobs : List Job) :
    freeJobs tracking jobs = freeAll tracking (jobs.map Job.address) :=
  (exec_map (fun tracking user => Tracking.free tracking (some user)) Job.address tracking jobs).symm

theorem destroyJob_eq (keeps : Keeps tracking handed) (formed : Formed pool.jobs) :
    destroyJob tracking pool = (freeAll tracking (freedJobs pool)).map fun tracking =>
      (tracking, withoutJobs pool,
        if pool.poolingMode = .pureThreadPool then []
        else (pool.jobs.present.filter (·.pid > 0)).map (.killed ·.pid) ++
          (pool.jobs.present.filter (·.pid > 0)).map (.waited ·.pid)) := by
  unfold destroyJob freedJobs withoutJobs
  by_cases pure_ : pool.poolingMode = .pureThreadPool
  · simp [pure_, freeAll]
  · simp only [pure_, ↓reduceIte, keeps_healthy keeps, Bool.false_eq_true, formed_reached formed,
      Option.bind_some, jobBlocks, owned, freeAll_array, freeJobs_eq, Option.map_bind]
    rfl

/-- The queue is there and can be locked. -/
def HasQueue (worker : Worker) : Prop :=
  ∃ queues, worker.localQueues = some queues ∧ queues.mutex = false

theorem freeWorker_eq (queue : HasQueue worker) (tracking : Tracking) :
    freeWorker tracking worker = tracking.free (some worker.address.toNat) := by
  obtain ⟨queues, here, unlocked⟩ := queue
  simp [freeWorker, here, Allocator.arenaDestroy, unlocked]

theorem freeWorker_queue (freed : freeWorker tracking worker = some after) : HasQueue worker := by
  simp only [freeWorker, Option.bind_eq_some_iff] at freed
  obtain ⟨queues, here, _, destroyed, _⟩ := freed
  refine ⟨queues, here, ?_⟩
  cases locked : queues.mutex with
  | false => rfl
  | true => simp [Allocator.arenaDestroy, locked] at destroyed

/-- The last loop of `destroy_workers` returns only if all queues are there. -/
theorem freeWorkers_iff (workers : List Worker) :
    exec freeWorker tracking workers = some after ↔
      (∀ worker ∈ workers, HasQueue worker) ∧
        freeAll tracking (workers.map (·.address.toNat)) = some after := by
  induction workers generalizing tracking with
  | nil => simp [freeAll]
  | cons worker rest ih =>
    rw [exec_cons, List.map_cons, freeAll, exec_cons]
    constructor
    · rintro ⟨middle, here, later⟩
      have queue := freeWorker_queue here
      obtain ⟨queues, freed⟩ := ih.mp later
      refine ⟨fun other member => ?_, middle, (freeWorker_eq queue tracking).symm.trans here, freed⟩
      rcases List.mem_cons.mp member with rfl | member
      · exact queue
      · exact queues other member
    · rintro ⟨queues, middle, here, later⟩
      exact ⟨middle, (freeWorker_eq (queues worker List.mem_cons_self) tracking).trans here,
        ih.mpr ⟨fun other member => queues other (List.mem_cons_of_mem _ member), later⟩⟩

private theorem stopped_address (workers : List Worker) :
    (workers.map stopWorker).map (·.address.toNat) = workers.map (·.address.toNat) := by
  rw [List.map_map]
  rfl

private theorem stopped_tid (workers : List Worker) :
    (workers.map stopWorker).filterMap (·.tid) = workers.filterMap (·.tid) := by
  rw [List.filterMap_map]
  rfl

/-- Enough acknowledgements come exactly if every worker has a thread. -/
theorem acknowledged_iff (workers : List Worker) :
    ¬ 0 + (workers.map stopWorker).countP acknowledges < (workers.map stopWorker).length ↔
      ∀ worker ∈ workers, worker.tid.isSome = true := by
  have most := List.countP_le_length (p := acknowledges) (l := workers.map stopWorker)
  have all := List.countP_eq_length (p := acknowledges) (l := workers.map stopWorker)
  have told : (∀ worker ∈ workers.map stopWorker, acknowledges worker = true) ↔
      ∀ worker ∈ workers, worker.tid.isSome = true := by
    simp [acknowledges, stopWorker]
  rw [← told, ← all]
  omega

/-- What `destroy_workers` leaves of a pool. -/
def withoutWorkers (pool : Pool) : Pool :=
  { pool with
    workers := destroyedSlots
    ackSem := (pool.workers.present.map stopWorker).countP acknowledges -
      (pool.workers.present.map stopWorker).length }

/-- `destroy_workers` returns exactly if it gets past every worker and its frees
return. -/
theorem destroyWorkers_iff (keeps : Keeps tracking handed) (formed : Formed pool.workers)
    (quiet : pool.ackSem = 0) :
    destroyWorkers tracking pool = some (after, left, effects) ↔
      (∀ worker ∈ pool.workers.present, Stoppable worker) ∧
        freeAll tracking (workerBlocks pool) = some after ∧
        left = withoutWorkers pool ∧
        effects = (pool.workers.present.filterMap (·.tid)).map .joined := by
  unfold destroyWorkers
  simp only [keeps_healthy keeps, Bool.false_eq_true, ↓reduceIte, formed_reached formed,
    Option.bind_some, quiet]
  by_cases threads : ∀ worker ∈ pool.workers.present, worker.tid.isSome = true
  · rw [if_neg ((acknowledged_iff _).mpr threads), Option.bind_eq_some_iff, workerBlocks, owned,
      freeAll_array, Option.bind_eq_some_iff]
    simp only [freeWorkers_iff, stopped_address, stopped_tid, Option.map_eq_some_iff,
      Prod.mk.injEq, Nat.zero_add]
    constructor
    · rintro ⟨middle, ⟨queues, freed⟩, final, last, rfl, rfl, rfl⟩
      exact ⟨fun worker member =>
          ⟨threads worker member, queues (stopWorker worker) (List.mem_map_of_mem member)⟩,
        ⟨middle, freed, last⟩, rfl, rfl⟩
    · rintro ⟨stoppable, ⟨middle, freed, last⟩, rfl, rfl⟩
      refine ⟨middle, ⟨fun worker member => ?_, freed⟩, after, last, rfl, rfl, rfl⟩
      obtain ⟨original, present, rfl⟩ := List.mem_map.mp member
      exact (stoppable original present).2
  · rw [if_pos (Classical.not_not.mp fun enough => threads ((acknowledged_iff _).mp enough))]
    refine iff_of_false nofun ?_
    rintro ⟨stoppable, _⟩
    exact threads fun worker member => (stoppable worker member).1

/-- The zone of the jobs goes with them when its counter does not stand above zero. -/
theorem destroySharedJobData_eq (pool : Pool)
    (gone : pool.poolingMode ≠ .pureThreadPool → pool.jobs = destroyedSlots) :
    ∃ shared, destroySharedJobData pool = ({ pool with shared },
        if pool.poolingMode = .pureThreadPool ∨ (pool.shared .job).count > sharedIdProtectedZone then []
        else destroyZone (pool.shared .job).zone) ∧ shared .task = pool.shared .task := by
  unfold destroySharedJobData
  by_cases pure_ : pool.poolingMode = .pureThreadPool
  · exact ⟨pool.shared, by rw [if_pos pure_, if_pos (Or.inl pure_)], rfl⟩
  · by_cases used : (pool.shared .job).count > sharedIdProtectedZone
    · exact ⟨pool.shared, by simp [pure_, used], rfl⟩
    · have slots := gone pure_
      refine ⟨Function.update pool.shared .job destroyedShared, ?_,
        Function.update_of_ne (by decide) _ _⟩
      simp [pure_, used, slots, destroyedSlots]

/-- The zone of the tasks goes when the workers are gone and its counter does
not stand above zero. -/
theorem destroySharedTaskData_eq (pool : Pool) (gone : pool.workers = destroyedSlots) :
    ∃ shared, destroySharedTaskData pool = ({ pool with shared },
      if (pool.shared .task).count > sharedIdProtectedZone then []
      else destroyZone (pool.shared .task).zone) := by
  unfold destroySharedTaskData
  cases zone : (pool.shared .task).zone with
  | none => exact ⟨pool.shared, by simp [zone, destroyZone]⟩
  | some held =>
    by_cases used : (pool.shared .task).count > sharedIdProtectedZone
    · exact ⟨pool.shared, by simp [zone, used]⟩
    · refine ⟨Function.update pool.shared .task destroyedShared, ?_⟩
      simp [zone, used, gone, destroyedSlots]

/-- What `destroy_pool` frees, the pool apart. -/
def freedFirst (pool : Pool) : List Nat := freedJobs pool ++ workerBlocks pool

theorem freeAll_append : freeAll tracking (first ++ second) = some after ↔
    ∃ middle, freeAll tracking first = some middle ∧ freeAll middle second = some after :=
  exec_append

/-- What becomes of the zones of a pool. -/
def zoneEffects (pool : Pool) : List Effect :=
  (if pool.poolingMode = .pureThreadPool ∨ (pool.shared .job).count > sharedIdProtectedZone then []
    else destroyZone (pool.shared .job).zone) ++
  if (pool.shared .task).count > sharedIdProtectedZone then []
  else destroyZone (pool.shared .task).zone

/-- The zones when jobs and workers are destroyed. -/
private theorem zones_destroyed
    (gone : pool.poolingMode ≠ .pureThreadPool → pool.jobs = destroyedSlots) :
    (destroySharedTaskData (destroySharedJobData (withoutWorkers pool)).1).1.address =
        pool.address ∧
      (destroySharedJobData (withoutWorkers pool)).2 ++
        (destroySharedTaskData (destroySharedJobData (withoutWorkers pool)).1).2 =
          zoneEffects pool := by
  obtain ⟨shared, job, kept⟩ := destroySharedJobData_eq (withoutWorkers pool) gone
  rw [job]
  obtain ⟨_, task⟩ := destroySharedTaskData_eq { withoutWorkers pool with shared } rfl
  rw [task]
  simp only [kept]
  exact ⟨rfl, rfl⟩

/-- The part of `destroy_pool` behind `destroy_job`. -/
private theorem destroyRest_iff (before : List Effect) (keeps : Keeps tracking handed)
    (formed : Formed pool.workers) (quiet : pool.ackSem = 0)
    (gone : pool.poolingMode ≠ .pureThreadPool → pool.jobs = destroyedSlots) :
    ((destroyWorkers tracking pool).bind fun (tracking, pool, ofWorkers) =>
      (tracking.free (some (destroySharedTaskData (destroySharedJobData pool).1).1.address)).map
        fun tracking => (tracking, before ++ ofWorkers ++ (destroySharedJobData pool).2 ++
          (destroySharedTaskData (destroySharedJobData pool).1).2)) = some (after, effects) ↔
      (∀ worker ∈ pool.workers.present, Stoppable worker) ∧
        freeAll tracking (workerBlocks pool ++ [pool.address]) = some after ∧
        effects = before ++ ((pool.workers.present.filterMap (·.tid)).map .joined ++
          zoneEffects pool) := by
  obtain ⟨address, zones⟩ := zones_destroyed gone
  rw [Option.bind_eq_some_iff, freeAll_append]
  constructor
  · rintro ⟨⟨middle, left, joins⟩, ran, rest⟩
    obtain ⟨stoppable, freed, rfl, rfl⟩ := (destroyWorkers_iff keeps formed quiet).mp ran
    obtain ⟨final, last, results⟩ := Option.map_eq_some_iff.mp rest
    obtain ⟨rfl, rfl⟩ := Prod.mk.inj results
    rw [address] at last
    exact ⟨stoppable, ⟨middle, freed, exec_cons.mpr ⟨final, last, rfl⟩⟩, by
      rw [List.append_assoc, List.append_assoc, zones]⟩
  · rintro ⟨stoppable, ⟨middle, freed, last⟩, rfl⟩
    obtain ⟨final, here, same⟩ := exec_cons.mp last
    obtain rfl := Option.some.inj same
    refine ⟨_, (destroyWorkers_iff keeps formed quiet).mpr ⟨stoppable, freed, rfl, rfl⟩, ?_⟩
    simp only
    rw [address, here, Option.map_some, List.append_assoc, List.append_assoc, zones]

/-- What `destroy_pool` does outside the heap when it returns. -/
def farewell (pool : Pool) : List Effect :=
  (if pool.poolingMode = .reactorEpoll ∧ pool.epollfd ≠ -1 then [.closed pool.epollfd] else []) ++
    (if pool.poolingMode = .pureThreadPool then []
      else (pool.jobs.present.filter (·.pid > 0)).map (.killed ·.pid) ++
        (pool.jobs.present.filter (·.pid > 0)).map (.waited ·.pid)) ++
    ((pool.workers.present.filterMap (·.tid)).map .joined ++ zoneEffects pool)

/-- `destroy_pool` returns exactly if it gets past every worker and its frees
return, and then it has done just this. -/
theorem destroyPool_iff (keeps : Keeps tracking handed) (formed : WellFormed pool) :
    destroyPool tracking pool = some (after, effects) ↔
      (∀ worker ∈ pool.workers.present, Stoppable worker) ∧
        freeAll tracking (freedFirst pool ++ [pool.address]) = some after ∧
        effects = farewell pool := by
  have left : (withoutJobs pool).workers = pool.workers ∧ (withoutJobs pool).ackSem = 0 ∧
      (withoutJobs pool).address = pool.address ∧
      zoneEffects (withoutJobs pool) = zoneEffects pool ∧
      ((withoutJobs pool).poolingMode ≠ .pureThreadPool →
        (withoutJobs pool).jobs = destroyedSlots) := by
    unfold withoutJobs
    split
    · exact ⟨rfl, formed.quiet, rfl, rfl, fun other => absurd ‹_› other⟩
    · exact ⟨rfl, formed.quiet, rfl, rfl, fun _ => rfl⟩
  obtain ⟨workers, quiet, address, zones, gone⟩ := left
  have formedWorkers : Formed (withoutJobs pool).workers := workers ▸ formed.workers
  rw [destroyPool, destroyJob_eq keeps formed.jobs, Option.bind_map, Option.bind_eq_some_iff,
    freedFirst, List.append_assoc, freeAll_append]
  simp only [Function.comp_apply]
  constructor
  · rintro ⟨middle, freed, rest⟩
    obtain ⟨_, kept⟩ := freeAll_keeps keeps freed
    obtain ⟨stoppable, last, rfl⟩ := (destroyRest_iff _ kept formedWorkers quiet gone).mp rest
    rw [workerBlocks, workers, address] at last
    rw [workers] at stoppable
    exact ⟨stoppable, ⟨middle, freed, last⟩, by rw [workers, zones]; rfl⟩
  · rintro ⟨stoppable, ⟨middle, freed, last⟩, rfl⟩
    obtain ⟨_, kept⟩ := freeAll_keeps keeps freed
    refine ⟨middle, freed, (destroyRest_iff _ kept formedWorkers quiet gone).mpr ⟨?_, ?_, ?_⟩⟩
    · rwa [workers]
    · rwa [workerBlocks, workers, address]
    · rw [workers, zones]
      rfl

/-! ## The only pool of a program -/

/-- A pool from its constructor and the blocks it owns. -/
theorem assembled_owns (assembled : Assembled jobCount workerCount epollfd outcomes tracking handed
    after pool) :
    ∃ added, Extended tracking handed after added ∧
      added.Perm (freedFirst pool ++ [pool.address] ++
        if pool.poolingMode = .pureThreadPool then jobBlocks pool else []) := by
  obtain ⟨_, _, _, _, _, _, first, addedJobs, addedWorkers, parts, _, _, extended, _, jobs, workers⟩ :=
    assembled
  have toJobs := extended_trans extended jobs.extended
  have all := extended_trans toJobs (List.append_assoc addedJobs first handed ▸ workers.extended)
  refine ⟨_, all, ?_⟩
  rw [parts, ← jobs.address, ← workers.address]
  have jobsHere := jobs.pointers.count_eq
  have workersHere := workers.pointers.count_eq
  refine List.perm_iff_count.mpr fun user => ?_
  unfold freedFirst freedJobs
  split <;>
    simp only [workerBlocks, jobBlocks, owned, List.count_append, List.count_nil, jobsHere,
      workersHere] <;>
    omega

theorem assembled_formed (assembled : Assembled jobCount workerCount epollfd outcomes tracking handed
    after pool) : WellFormed pool := by
  obtain ⟨_, fresh, _, _, _, _, _, _, _, _, _, _, _, _, jobs, workers⟩ := assembled
  exact ⟨jobs.formed, workers.formed, by rw [fresh]; rfl⟩

/-- The mode follows from the descriptor. -/
private theorem assembled_mode (assembled : Assembled jobCount workerCount epollfd outcomes tracking
    handed after pool) : pool.poolingMode = .pureThreadPool ↔ epollfd = -1 := by
  rw [assembled.fresh]
  by_cases none_ : epollfd = -1 <;> simp [newPool, none_]

/-- The array of jobs is there exactly if jobs were asked for. -/
private theorem assembled_jobs (assembled : Assembled jobCount workerCount epollfd outcomes tracking
    handed after pool) : jobBlocks pool = [] ↔ jobCount = 0 := by
  obtain ⟨_, _, _, _, array, _, _, _, _, _, shape, _, _, _, jobs, _⟩ := assembled
  have same := jobs.address
  rcases shape with ⟨rfl, rfl⟩ | ⟨some_, address, rfl⟩
  · have null : pool.jobs.array = none := Option.map_eq_none_iff.mp same
    simp [jobBlocks, owned, Slots.present, null]
  · refine iff_of_false ?_ some_
    rw [jobBlocks, owned, same]
    simp

/-- What the threads of workers are made for, which does not change. -/
def threadsOf (array : PointerArray Worker) : Nat × List (Option (BitVec 64 × Int × Option Nat)) :=
  (array.address, array.entries.map (Option.map fun worker => (worker.address, worker.id, worker.tid)))

/-- A pool that has been used: tasks went through its queues, and its shared data
was set up. -/
structure Used (pool later : Pool) : Prop where
  kept : later = { pool with workers := later.workers, shared := later.shared }
  count : later.workers.count = pool.workers.count
  threads : later.workers.array.map threadsOf = pool.workers.array.map threadsOf

theorem used_workers (used : Used pool later) :
    workerBlocks later = workerBlocks pool ∧
      (Formed pool.workers → Formed later.workers) := by
  obtain ⟨_, count, threads⟩ := used
  unfold workerBlocks owned Slots.present Formed
  rw [count]
  cases before : pool.workers.array with
  | none =>
    rw [before, Option.map_none, Option.map_eq_none_iff] at threads
    rw [threads]
    exact ⟨rfl, id⟩
  | some array =>
    rw [before, Option.map_some] at threads
    obtain ⟨other, same, equal⟩ := Option.map_eq_some_iff.mp threads
    obtain ⟨address, entries⟩ := Prod.mk.inj equal
    have length := congrArg List.length entries
    have addresses := congrArg (fun entries => entries.reduceOption.map (·.1.toNat)) entries
    simp only [List.reduceOption_map, List.map_map, List.length_map] at addresses length
    rw [same]
    refine ⟨?_, ?_⟩
    · simp only [Option.elim_some, Option.map_some, address]
      exact congrArg (· ++ [array.address]) addresses
    · rintro (⟨none_, _⟩ | ⟨_, some_, counted⟩)
      · cases none_
      · obtain rfl := Option.some.inj some_
        exact Or.inr ⟨other, rfl, by rw [counted, length]⟩

/-- `destroy_pool` returns; every process was killed and waited for, every worker
joined, and the tracker is as it was before the pool. -/
def TornDown (before tracking : Tracking) (pool : Pool) : Prop :=
  ∃ after effects, destroyPool tracking pool = some (after, effects) ∧
    (∀ job ∈ pool.jobs.present, 0 < job.pid →
      [Effect.killed job.pid, .waited job.pid].Sublist effects) ∧
    (∀ worker ∈ pool.workers.present, ∃ tid, worker.tid = some tid ∧ .joined tid ∈ effects) ∧
    Untouched before after

/-- Without blocks that are handed out there are no live ones. -/
private theorem untouched_zero_iff (keeps : Keeps after left) (unlocked : after.tracker.mutex = false) :
    Untouched ⟨zeroTracker, ⟨words, []⟩⟩ after ↔ left = [] := by
  have blocks : after.memory.blocks = left.map (blockOf after.memory) := keeps.tracked.blocks
  have count : after.tracker.active = left.length := keeps.tracked.count
  have total : after.tracker.allocated =
      (left.map fun user => after.memory.sizeWord (user - 16)).sum := keeps.tracked.total
  constructor
  · rintro ⟨none_, _⟩
    exact List.map_eq_nil_iff.mp (blocks.symm.trans none_)
  · rintro rfl
    have length : after.tracker.ptr.length = maxHeaps := keeps.tracked.entries
    have table : after.tracker.ptr = List.replicate maxHeaps none := by
      refine List.eq_replicate_iff.mpr ⟨length, fun entry member => ?_⟩
      cases entry with
      | none => rfl
      | some user => cases keeps.tracked.owned user member
    refine ⟨blocks, ?_⟩
    obtain ⟨⟨mutex, active, allocated, entries⟩, memory⟩ := after
    simp only at unlocked count total table
    subst unlocked count total table
    rfl

/-- Processes are killed before they are waited for. -/
private theorem farewell_kills (mode : pool.poolingMode ≠ .pureThreadPool)
    (member : job ∈ pool.jobs.present) (spawned : 0 < job.pid) :
    [Effect.killed job.pid, .waited job.pid].Sublist (farewell pool) := by
  have among : job ∈ pool.jobs.present.filter (·.pid > 0) :=
    List.mem_filter.mpr ⟨member, decide_eq_true spawned⟩
  have killed : .killed job.pid ∈ (pool.jobs.present.filter (·.pid > 0)).map (Effect.killed ·.pid) :=
    List.mem_map.mpr ⟨job, among, rfl⟩
  have waited : .waited job.pid ∈ (pool.jobs.present.filter (·.pid > 0)).map (Effect.waited ·.pid) :=
    List.mem_map.mpr ⟨job, among, rfl⟩
  have both := (List.singleton_sublist.mpr killed).append (List.singleton_sublist.mpr waited)
  unfold farewell
  rw [if_neg mode]
  exact (both.trans (List.sublist_append_right _ _)).trans (List.sublist_append_left _ _)

private theorem farewell_joins (member : worker ∈ pool.workers.present) (thread : worker.tid = some tid) :
    Effect.joined tid ∈ farewell pool := by
  have among : tid ∈ pool.workers.present.filterMap (·.tid) :=
    List.mem_filterMap.mpr ⟨worker, member, thread⟩
  exact List.mem_append_right _ (List.mem_append_left _ (List.mem_map_of_mem among))

/-- A pool all of whose blocks have entries is torn down exactly if it gets past
its workers and no jobs are passed over. -/
private theorem torn_down_iff (keeps : Keeps tracking handed)
    (unlocked : tracking.tracker.mutex = false) (formed : WellFormed pool)
    (held : handed.Perm (freedFirst pool ++ [pool.address] ++
      if pool.poolingMode = .pureThreadPool then jobBlocks pool else []))
    (listed : ∀ user ∈ handed, some user ∈ tracking.tracker.ptr) :
    TornDown ⟨zeroTracker, ⟨words, []⟩⟩ tracking pool ↔
      (pool.poolingMode = .pureThreadPool → jobBlocks pool = []) ∧
        ∀ worker ∈ pool.workers.present, Stoppable worker := by
  obtain ⟨after, left, freed, free, kept, rest⟩ := freeAll_listed keeps unlocked held
    fun user member => listed user (held.mem_iff.mpr (List.mem_append_left _ member))
  have clean : Untouched ⟨zeroTracker, ⟨words, []⟩⟩ after ↔
      (pool.poolingMode = .pureThreadPool → jobBlocks pool = []) := by
    rw [untouched_zero_iff kept free]
    by_cases mode : pool.poolingMode = .pureThreadPool
    · rw [if_pos mode] at rest
      simp only [mode, forall_const]
      exact ⟨fun none_ => (none_ ▸ rest).nil_eq.symm, fun none_ => (none_ ▸ rest).eq_nil⟩
    · rw [if_neg mode] at rest
      exact iff_of_true rest.eq_nil fun pure_ => absurd pure_ mode
  constructor
  · rintro ⟨final, effects, ran, _, _, untouched⟩
    obtain ⟨stoppable, same, _⟩ := (destroyPool_iff keeps formed).mp ran
    obtain rfl := Option.some.inj (same.symm.trans freed)
    exact ⟨clean.mp untouched, stoppable⟩
  · rintro ⟨noJobs, stoppable⟩
    refine ⟨after, farewell pool, (destroyPool_iff keeps formed).mpr ⟨stoppable, freed, rfl⟩,
      fun job member spawned => ?_, fun worker member => ?_, clean.mpr noJobs⟩
    · by_cases mode : pool.poolingMode = .pureThreadPool
      · have none_ := List.map_eq_nil_iff.mp (List.append_eq_nil_iff.mp (noJobs mode)).1
        simp [none_] at member
      · exact farewell_kills mode member spawned
    · obtain ⟨tid, thread⟩ := Option.isSome_iff_exists.mp (stoppable worker member).1
      exact ⟨tid, thread, farewell_joins member thread⟩

/-- The only pool of a program is torn down without a trace exactly if it has no
jobs or a descriptor, and each of its workers has a thread and a queue whose
lock is free. -/
theorem destroyed_whole_iff
    (obtained : initPool ⟨zeroTracker, ⟨words, []⟩⟩ outcomes init = some (tracking, some pool))
    (placed : Placed ⟨words, []⟩ (askedAll init outcomes)) (used : Used pool later) :
    TornDown ⟨zeroTracker, ⟨words, []⟩⟩ tracking later ↔
      (init.jobCount = 0 ∨ init.epollfd ≠ -1) ∧
        ∀ worker ∈ later.workers.present, Stoppable worker := by
  have accepted : init.accepted = true := by
    cases accepted : init.accepted with
    | true => rfl
    | false => cases (initPool_refused accepted).symm.trans obtained
  have none_ : Keeps ⟨zeroTracker, ⟨words, []⟩⟩ [] :=
    keeps_reached (show exec step (start words) [] = some (start words) from rfl)
  rw [initPool_accepted accepted] at obtained
  have assembled := initMode_assembled none_ rfl (pshared_of_accepted accepted) placed obtained
  obtain ⟨added, extended, owns⟩ := assembled_owns assembled
  obtain ⟨workers, formedWorkers⟩ := used_workers used
  have formed := assembled_formed assembled
  have mode : later.poolingMode = pool.poolingMode := by rw [used.kept]
  have jobs : later.jobs = pool.jobs := by rw [used.kept]
  have address : later.address = pool.address := by rw [used.kept]
  have quiet : later.ackSem = pool.ackSem := by rw [used.kept]
  have formedLater : WellFormed later :=
    ⟨jobs ▸ formed.jobs, formedWorkers formed.workers, quiet.trans formed.quiet⟩
  have keeps : Keeps tracking added := List.append_nil added ▸ extended.keeps
  have held : added.Perm (freedFirst later ++ [later.address] ++
      if later.poolingMode = .pureThreadPool then jobBlocks later else []) := by
    rwa [freedFirst, freedJobs, jobBlocks, workers, mode, jobs, address]
  rw [torn_down_iff keeps extended.unlocked formedLater held (extended_mem extended)]
  refine and_congr_left fun _ => ?_
  rw [mode, assembled_mode assembled, jobBlocks, jobs, ← jobBlocks, assembled_jobs assembled]
  tauto

/-- Answers for a pool of two workers and a job. -/
def crew : Outcomes :=
  { pool := some 4096
    jobs := some 8192
    workers := some 12288
    job := fun _ => ⟨some 16384, some ⟨9, by decide⟩⟩
    worker := fun i => ⟨some (20480 + 4096 * i), true, some (65536 + 4096 * i), some (7 + i)⟩ }

private theorem crew_placed :
    Placed ⟨fun _ => 0, []⟩ (askedAll (.threadedProcessing 2 1 5 0) crew) := by
  have asked : askedAll (.threadedProcessing 2 1 5 0) crew =
      [⟨96, some 4096⟩, ⟨8, some 8192⟩, ⟨16, some 12288⟩, ⟨64, some 16384⟩, ⟨104, some 20480⟩,
        ⟨104, some 24576⟩] := rfl
  rw [asked]
  exact ⟨by decide, by decide⟩

/-- A pool of two workers and a job, with a descriptor, is torn down. -/
theorem crew_torn_down :
    ∃ tracking pool, initPool ⟨zeroTracker, ⟨fun _ => 0, []⟩⟩ crew (.threadedProcessing 2 1 5 0) =
        some (tracking, some pool) ∧
      TornDown ⟨zeroTracker, ⟨fun _ => 0, []⟩⟩ tracking pool := by
  obtain ⟨tracking, pool, obtained, workers⟩ : ∃ tracking pool,
      initPool ⟨zeroTracker, ⟨fun _ => 0, []⟩⟩ crew (.threadedProcessing 2 1 5 0) =
        some (tracking, some pool) ∧ ∀ worker ∈ pool.workers.present, Stoppable worker := by
    refine ⟨_, _, rfl, fun worker member => ?_⟩
    rcases List.mem_cons.mp member with rfl | later
    · exact ⟨rfl, _, rfl, rfl⟩
    · obtain rfl := List.mem_singleton.mp later
      exact ⟨rfl, _, rfl, rfl⟩
  exact ⟨tracking, pool, obtained,
    (destroyed_whole_iff obtained crew_placed ⟨rfl, rfl, rfl⟩).mpr ⟨Or.inr (by decide), workers⟩⟩

/-- Answers for a pool of one job. -/
def oneJob : Outcomes :=
  { pool := some 4096
    jobs := some 8192
    workers := none
    job := fun _ => ⟨some 12288, some ⟨9, by decide⟩⟩
    worker := fun _ => ⟨none, false, none, none⟩ }

/-- Without a descriptor the process of a job is not even killed. -/
theorem job_without_descriptor_survives :
    ¬ ∀ words outcomes init tracking pool,
      initPool ⟨zeroTracker, ⟨words, []⟩⟩ outcomes init = some (tracking, some pool) →
        Placed ⟨words, []⟩ (askedAll init outcomes) →
          TornDown ⟨zeroTracker, ⟨words, []⟩⟩ tracking pool := by
  intro always
  obtain ⟨tracking, pool, obtained, jobs, gone⟩ : ∃ tracking pool,
      initPool ⟨zeroTracker, ⟨fun _ => 0, []⟩⟩ oneJob (.processing 1 (-1)) =
        some (tracking, some pool) ∧ pool.jobs.present = [⟨12304, 1, 9⟩] ∧
        ∃ after, destroyPool tracking pool = some (after, []) :=
    ⟨_, _, rfl, rfl, _, rfl⟩
  have placed : Placed ⟨fun _ => 0, []⟩ (askedAll (.processing 1 (-1)) oneJob) := by
    rw [show askedAll (.processing 1 (-1)) oneJob =
      [⟨96, some 4096⟩, ⟨8, some 8192⟩, ⟨64, some 12288⟩] from rfl]
    exact ⟨by decide, by decide⟩
  obtain ⟨after, effects, ran, killed, _⟩ := always _ _ _ tracking pool obtained placed
  obtain ⟨_, nothing⟩ := gone
  obtain ⟨rfl, rfl⟩ := Prod.mk.inj (Option.some.inj (nothing.symm.trans ran))
  have kept := killed ⟨12304, 1, 9⟩ (by simp [jobs]) (by decide)
  cases kept

end ShapeQuake.PoolTeardown
