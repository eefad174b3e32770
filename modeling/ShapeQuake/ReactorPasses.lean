import ShapeQuake.Library.Runs
import ShapeQuake.ReactorSlots

/-! What a worker calls in the turns that follow a batch of tasks. Its arena is
a queue of slots, block after block; the walk reads the slots of the blocks that
are not marked as wiped. A reset marks every block and nothing takes the mark
back, so from the second round on the walk skips as many tasks as fit in the
blocks that are there already. -/
namespace ShapeQuake.ReactorPasses
open Library.Bytes Library.Runs Allocator AllocatorInvariants Reactor ReactorSlots

/-! ## The queue of a worker -/

/-- The blocks of a worker's arena between two calls: the blocks before `current`
are filled with slots, those behind it are empty, together they hold these
tasks, and as many blocks from `head` on are marked as wiped. -/
structure Queue (blocks : Blocks) (tasks : List Task) (wiped : Nat) : Prop where
  formed : WellFormed blocks sizeArenaDefault
  slotted : ∀ block ∈ blocks.chain, Slotted block
  filled : ∀ block ∈ blocks.before, block.offset = slotsPerBlock * slotSize
  held : blocks.chain.flatMap tasksIn = tasks
  marked : ∃ fresh, blocks.chain.map ArenaBlock.isWiped =
    List.replicate wiped true ++ List.replicate fresh false

private theorem filled_of_full (slotted : Slotted block) (full : Full (align sizeofTask) block) :
    block.offset = slotsPerBlock * slotSize := by
  obtain ⟨slots, offset⟩ := slotted.whole
  have handed := slotted.handed
  have capacity := slotted.capacity
  have size : align sizeofTask = 96 := slotSize_eq
  simp only [Full, size, capacity, sizeArenaDefault] at full handed
  rw [wrap64_of_lt (by omega)] at full
  rw [slotSize_eq] at offset
  rw [slotsPerBlock_eq, slotSize_eq]
  omega

/-- A new arena is an empty queue with no block marked. -/
theorem queue_fresh (initial : Initial sizeArenaDefault memory) :
    Queue (freshArena memory).blocks [] 0 :=
  ⟨wellFormed_fresh initial, slotted_fresh memory, by simp [freshArena],
    by simp [freshArena, tasksIn], 1, rfl⟩

/-- Where the loop of an allocation ends with room, the queue is the same. -/
theorem queue_found (queue : Queue blocks tasks wiped) (formed : WellFormed next sizeArenaDefault)
    (found : RoomFound (align sizeofTask) sizeArenaDefault malloc blocks (next, true)) :
    Queue next tasks wiped := by
  have slotted := slotted_found queue.slotted found
  cases found with
  | here _ passed same before _ _ full _ =>
    refine ⟨formed, slotted, ?_, same ▸ queue.held, same ▸ queue.marked⟩
    intro block member
    have whole : Slotted block := slotted block (by simp [Blocks.chain, member])
    rw [before, List.mem_append] at member
    rcases member with old | skipped
    · exact queue.filled block old
    · exact filled_of_full whole (full block skipped)
  | added address id prev _ full =>
    refine ⟨formed, slotted, ?_, ?_, ?_⟩
    · intro block member
      rcases List.mem_append.mp member with old | rest
      · exact queue.filled block old
      · exact filled_of_full (queue.slotted block member) (full block rest)
    · rw [chain_mk, List.flatMap_append, queue.held]
      simp [tasksIn]
    · obtain ⟨fresh, flags⟩ := queue.marked
      refine ⟨fresh + 1, ?_⟩
      rw [chain_mk, List.map_append, flags, List.replicate_succ']
      simp

/-- A task stored in the slot just handed out is the last of the queue. -/
theorem queue_stored {arena : Arena} (queue : Queue blocks tasks wiped)
    (fits : blocks.current.offset + slotSize ≤ blocks.current.capacity)
    (bumped : arena.blocks =
      { blocks with
        current := { blocks.current with offset := blocks.current.offset + slotSize } })
    (task : Task) :
    Queue (arena.write ⟨blocks.current.address, blocks.current.offset⟩ (taskBytes task)).blocks
      (tasks ++ [task]) wiped := by
  have current := queue.slotted _ (current_mem_chain blocks)
  have placed := queue.formed.placed _ (current_mem_chain blocks)
  have formed : WellFormed arena.blocks sizeArenaDefault := bumped ▸
    wellFormed_bump queue.formed (Nat.dvd_add placed.handedWhole (align_dvd sizeofTask)) fits
  have written : (arena.write ⟨blocks.current.address, blocks.current.offset⟩ (taskBytes task)).blocks =
      { blocks with
        current := { blocks.current with
          offset := blocks.current.offset + slotSize
          data := writeBytes blocks.current.data blocks.current.offset (taskBytes task) } } := by
    have := write_current (addresses_nodup formed) blocks.current.offset (taskBytes task)
    simpa only [bumped] using this
  have stored := wellFormed_write formed ⟨blocks.current.address, blocks.current.offset⟩
    (taskBytes task)
  rw [written] at stored ⊢
  refine ⟨stored, slotted_current queue.slotted
    ⟨current.capacity, Nat.dvd_add current.whole (Nat.dvd_refl _), current.capacity ▸ fits⟩,
    queue.filled, ?_, ?_⟩
  · have empty : blocks.after.flatMap tasksIn = [] :=
      List.flatMap_eq_nil_iff.mpr fun block member =>
        tasksIn_of_empty (queue.formed.idle block member)
    have held := queue.held
    simp only [Blocks.chain, List.flatMap_append, List.flatMap_cons, empty,
      List.append_nil] at held ⊢
    rw [tasksIn_stored current.whole, ← List.append_assoc, held]
  · simpa [Blocks.chain] using queue.marked

private theorem flags_split {chain : List ArenaBlock}
    (flags : chain.map ArenaBlock.isWiped = List.replicate wiped true ++ List.replicate fresh false) :
    ∃ first second, chain = first ++ second ∧ first.length = wiped ∧
      (∀ block ∈ first, block.isWiped = true) ∧ ∀ block ∈ second, block.isWiped = false := by
  obtain ⟨first, second, rfl, marks, clear⟩ := List.map_eq_append_iff.mp flags
  refine ⟨first, second, rfl, ?_, ?_, ?_⟩
  · simpa using congrArg List.length marks
  · intro block member
    exact List.eq_of_mem_replicate (marks ▸ List.mem_map_of_mem member)
  · intro block member
    exact List.eq_of_mem_replicate (clear ▸ List.mem_map_of_mem member)

/-- The number of blocks that are marked is the number the queue speaks of. -/
theorem queue_countP (queue : Queue blocks tasks wiped) :
    blocks.chain.countP (·.isWiped) = wiped := by
  obtain ⟨fresh, flags⟩ := queue.marked
  obtain ⟨first, second, chain, length, marks, clear⟩ := flags_split flags
  rw [chain, List.countP_append, List.countP_eq_length.mpr marks, length,
    List.countP_eq_zero.mpr fun block member => by simp [clear block member], Nat.add_zero]

private theorem tasks_length_le {list : List ArenaBlock} (slotted : ∀ block ∈ list, Slotted block) :
    (list.flatMap tasksIn).length ≤ slotsPerBlock * list.length := by
  induction list with
  | nil => simp
  | cons block rest ih =>
    have here := tasksIn_length_le (slotted block (by simp))
    have others := ih fun block member => slotted block (List.mem_cons_of_mem _ member)
    rw [List.flatMap_cons, List.length_append, List.length_cons, Nat.mul_succ]
    omega

private theorem tasks_length_eq {list : List ArenaBlock}
    (filled : ∀ block ∈ list, block.offset = slotsPerBlock * slotSize) :
    (list.flatMap tasksIn).length = slotsPerBlock * list.length := by
  induction list with
  | nil => simp
  | cons block rest ih =>
    have others := ih fun block member => filled block (List.mem_cons_of_mem _ member)
    rw [List.flatMap_cons, List.length_append, List.length_cons, Nat.mul_succ, others,
      tasksIn_length, filled block (by simp), Nat.mul_div_cancel _ slotSize_pos, Nat.add_comm]

/-- The walk runs the tasks that do not fit in the marked blocks. -/
theorem queue_runs (queue : Queue blocks tasks wiped) :
    runBlocks blocks.chain = (tasks.drop (slotsPerBlock * wiped)).flatMap callsOf := by
  obtain ⟨fresh, flags⟩ := queue.marked
  obtain ⟨first, second, chain, rfl, marks, clear⟩ := flags_split flags
  have run : blocks.chain.filter (!·.isWiped) = second := by
    rw [chain, List.filter_append, List.filter_eq_nil_iff.mpr fun block member => by
      simp [marks block member], List.nil_append, List.filter_eq_self.mpr fun block member => by
      simp [clear block member]]
  have held : tasks = first.flatMap tasksIn ++ second.flatMap tasksIn := by
    rw [← queue.held, chain, List.flatMap_append]
  have slotted : ∀ block ∈ first, Slotted block :=
    fun block member => queue.slotted block (by simp [chain, member])
  rw [runBlocks_tasks fun block member => (queue.slotted block member).whole, run]
  congr 1
  have skipped : (∀ block ∈ first, block.offset = slotsPerBlock * slotSize) ∨
      ∀ block ∈ second, block.offset = 0 := by
    rcases List.append_eq_append_iff.mp chain with ⟨rest, rfl, split_⟩ | ⟨rest, split_, rfl⟩
    · cases rest with
      | nil => exact .inl fun block member => queue.filled block (by simpa using member)
      | cons current rest =>
        obtain ⟨_, after⟩ := List.cons.inj split_
        exact .inr fun block member => queue.formed.idle block (by simp [after, member])
    · exact .inl fun block member => queue.filled block (by simp [split_, member])
  rcases skipped with filled | empty
  · rw [held, List.drop_left' (tasks_length_eq filled)]
  · have none_ : second.flatMap tasksIn = [] :=
      List.flatMap_eq_nil_iff.mpr fun block member => tasksIn_of_empty (empty block member)
    rw [held, none_, List.append_nil, List.drop_eq_nil_of_le (tasks_length_le slotted)]

/-- After a reset the queue is empty and every block is marked. -/
theorem queue_reset (queue : Queue blocks tasks wiped) :
    Queue (blocks.map (internalBlockShred true)).rewind [] blocks.chain.length := by
  refine ⟨wellFormed_reset queue.formed, slotted_reset queue.slotted, by simp, ?_, 0, ?_⟩
  · apply List.flatMap_eq_nil_iff.mpr
    intro block member
    rw [rewind_chain, chain_map] at member
    obtain ⟨old, _, rfl⟩ := List.mem_map.mp member
    exact tasksIn_of_empty rfl
  · have marks : ArenaBlock.isWiped ∘ internalBlockShred true = fun _ => true := rfl
    rw [rewind_chain, chain_map, List.map_map, marks, List.map_const']
    simp

/-- A slot that an allocation returns is the next one of the queue. -/
theorem queue_enqueued (queue : Queue arena.blocks tasks wiped)
    (unit : arena.blockSize = sizeArenaDefault)
    (answers : ∀ address ∈ malloc, MallocAnswers arena.blocks.chain
      (totalSize (max (align sizeofTask) arena.blockSize)) address)
    (allocated : arenaAlloc arena sizeofTask malloc = some (next, some slot)) (task : Task) :
    Queue (next.write slot (taskBytes task)).blocks (tasks ++ [task]) wiped ∧
      next.mutex = false ∧ next.blockSize = sizeArenaDefault := by
  have unlocked := (arenaAllocateRaw_cases allocated).1
  rw [unit] at answers
  obtain ⟨blocks, found, formed, granted⟩ :=
    alloc_granted (unit ▸ queue.formed) (unit ▸ grantable_task queue.slotted answers) allocated
  rw [unit] at found formed
  obtain ⟨fits, _⟩ := granted
  exact ⟨queue_stored (queue_found queue formed found) fits rfl task, unlocked, unit⟩

/-! ## Rounds -/

/-- A task is enqueued, with the answer of `malloc` if it is asked, or the worker
takes a turn of its loop. -/
inductive Event where
  | enqueue (request : Request) (malloc : Option Nat)
  | turn
  deriving DecidableEq, Repr

/-- The pool, and what the worker has called so far. -/
structure State where
  pool : Pool
  calls : List Call

/-- `malloc` answers a request for a new block of the worker's arena by its contract. -/
def MallocKeeps (worker : Option Worker) (malloc : Option Nat) : Prop :=
  match worker.bind Worker.localQueues with
  | none => True
  | some arena => ∀ address ∈ malloc,
      MallocAnswers arena.blocks.chain (totalSize (max (align sizeofTask) arena.blockSize)) address

instance : Decidable (MallocKeeps worker malloc) := by
  unfold MallocKeeps
  split <;> infer_instance

/-- One event at the worker with this index. An enqueue that is refused, for its
arguments or for want of memory, says so and is not considered here. -/
def step (index : Int) (state : State) : Event → Option State
  | .enqueue request malloc =>
    if MallocKeeps (state.pool.workerAt index) malloc then
      match enqueue (some state.pool) index request malloc with
      | some (some pool, []) => some { state with pool }
      | _ => none
    else none
  | .turn =>
    match state.pool.workers with
    | none => none
    | some workers =>
      match (workers index).map turn with
      | some (.serves worker calls) =>
        some ⟨state.pool.setWorker workers index worker, state.calls ++ calls⟩
      | _ => none

/-- Tasks enqueued while the worker is blocked, of which one notifies it. -/
structure Round where
  requests : List (Request × Option Nat)
  notified : ∃ entry ∈ requests, entry.1.requireNotify = true

def Round.enqueues (round : Round) : List Event :=
  round.requests.map fun (request, malloc) => .enqueue request malloc

/-- As many turns as the semaphore has been posted. -/
def Round.turns (round : Round) : List Event :=
  List.replicate (round.requests.countP (·.1.requireNotify)) .turn

def Round.events (round : Round) : List Event := round.enqueues ++ round.turns

/-- The tasks of a round, for a pool and a worker at these addresses. -/
def Round.tasks (round : Round) (pool worker : BitVec 64) : List Task :=
  round.requests.map fun (request, _) => request.task pool worker

/-- The number of blocks marked as wiped in the arena of the worker at an index. -/
def wipedBlocks (pool : Pool) (index : Int) : Nat :=
  ((pool.workerAt index).bind Worker.localQueues).elim 0 (·.blocks.chain.countP (·.isWiped))

/-- No callback of the request is set. -/
def CallsNothing (request : Request) : Prop :=
  request.onLoad = 0 ∧ request.execute = 0 ∧ request.onExit = 0

/-- The worker at the index, waiting with this many posts, with its queue. -/
structure Serving (index : Int) (pool worker : BitVec 64) (state : State) (tasks : List Task)
    (wiped sem : Nat) : Prop where
  address : state.pool.address = pool
  queue : ∃ self arena, state.pool.workerAt index = some self ∧ self.localQueues = some arena ∧
    self.address = worker ∧ self.sem = sem ∧ self.shutdown = false ∧ arena.mutex = false ∧
    arena.blockSize = sizeArenaDefault ∧ Queue arena.blocks tasks wiped

theorem serving_enqueue (serving : Serving index pool worker state tasks wiped sem)
    (taken : step index state (.enqueue request malloc) = some next) :
    Serving index pool worker next (tasks ++ [request.task pool worker]) wiped
      (if request.requireNotify then sem + 1 else sem) ∧ next.calls = state.calls := by
  obtain ⟨rfl, self, arena, held, queues, rfl, rfl, running, unlocked, unit, queue⟩ := serving
  simp only [step] at taken
  split at taken
  case isFalse => cases taken
  case isTrue keeps =>
    simp only [MallocKeeps, held, Option.bind_some, queues] at keeps
    split at taken
    case h_2 => cases taken
    case h_1 after outcome =>
      obtain rfl := Option.some.inj taken
      obtain ⟨_, granted, slot, allocated, address, changed⟩ := enqueue_cases held queues outcome
      obtain ⟨stored, free, size⟩ := queue_enqueued queue unit keeps allocated
        (request.task state.pool.address self.address)
      exact ⟨⟨address, _, _, changed, rfl, rfl, rfl, running, free, size, stored⟩, rfl⟩

theorem serving_turn (serving : Serving index pool worker state tasks wiped (sem + 1)) :
    ∃ next blocks, step index state .turn = some next ∧ 0 < blocks ∧
      Serving index pool worker next [] blocks sem ∧
      next.calls = state.calls ++ (tasks.drop (slotsPerBlock * wiped)).flatMap callsOf := by
  obtain ⟨rfl, self, arena, held, queues, rfl, posted, running, unlocked, unit, queue⟩ := serving
  obtain ⟨workers, array, here⟩ := Option.bind_eq_some_iff.mp held
  have served := turn_serves (by omega) running queues unlocked
  rw [queue_runs queue] at served
  refine ⟨⟨state.pool.setWorker workers index
      { self with
        sem := self.sem - 1
        isSleeping := true
        localQueues := some arena.emptied },
      state.calls ++ (tasks.drop (slotsPerBlock * wiped)).flatMap callsOf⟩,
    arena.blocks.chain.length, ?_, List.length_pos_of_mem (current_mem_chain _),
    ⟨rfl, _, _, setWorker_workerAt _ _ _ _, rfl, rfl, ?_, running, unlocked, unit,
      queue_reset queue⟩, rfl⟩
  · simp only [step, array, here, Option.map_some, served]
  · simp only [posted, Nat.add_sub_cancel]

/-- While the queue is empty there is room for a task without a new block. -/
theorem serving_first (serving : Serving index pool worker state [] wiped sem)
    (valid : request.valid = true) :
    ∃ next, step index state (.enqueue request none) = some next := by
  obtain ⟨rfl, self, arena, held, queues, rfl, rfl, running, unlocked, unit, queue⟩ := serving
  have current := queue.slotted _ (current_mem_chain arena.blocks)
  have empty : arena.blocks.current.offset = 0 := by
    have none_ := List.flatMap_eq_nil_iff.mp queue.held _ (current_mem_chain _)
    have count := congrArg List.length none_
    rw [tasksIn_length] at count
    exact Nat.eq_zero_of_dvd_of_div_eq_zero current.whole count
  have fits : wrap64 (arena.blocks.current.offset + align sizeofTask) ≤
      arena.blocks.current.capacity := by
    rw [empty, current.capacity]
    decide
  obtain ⟨next, slot, allocated⟩ :
      ∃ next slot, arenaAlloc arena sizeofTask none = some (next, some slot) := by
    simp only [arenaAlloc, arenaAllocateRaw, unlocked, Bool.false_eq_true, ↓reduceIte,
      findRoom_here fits]
    exact ⟨_, _, rfl⟩
  obtain ⟨after, granted, _⟩ := enqueue_granted held queues valid allocated
  exact ⟨{ state with pool := after }, by simp [step, MallocKeeps, held, queues, granted]⟩

/-! ## Runs -/

theorem serving_enqueues {requests : List (Request × Option Nat)}
    (serving : Serving index pool worker state tasks wiped sem)
    (ran : exec (step index) state (requests.map fun (request, malloc) => .enqueue request malloc) =
      some next) :
    Serving index pool worker next
        (tasks ++ requests.map fun (request, _) => request.task pool worker) wiped
        (sem + requests.countP (·.1.requireNotify)) ∧
      next.calls = state.calls := by
  induction requests generalizing state tasks sem with
  | nil =>
    obtain rfl := Option.some.inj ran
    simpa using serving
  | cons entry rest ih =>
    obtain ⟨middle, taken, later⟩ := exec_cons.mp ran
    obtain ⟨served, same⟩ := serving_enqueue serving taken
    obtain ⟨final, calls⟩ := ih served later
    refine ⟨?_, calls.trans same⟩
    rw [List.map_cons, List.countP_cons]
    cases notify : entry.1.requireNotify with
    | true => simpa [notify, Nat.add_assoc, Nat.add_comm] using final
    | false => simpa [notify] using final

/-- Turns with nothing in the queue call nothing. -/
private theorem serving_idle (serving : Serving index pool worker state [] wiped posts) :
    ∃ after blocks, exec (step index) state (List.replicate posts .turn) = some after ∧
      (0 < wiped → 0 < blocks) ∧ Serving index pool worker after [] blocks 0 ∧
      after.calls = state.calls := by
  induction posts generalizing state wiped with
  | zero => exact ⟨state, wiped, rfl, fun marked => marked, serving, rfl⟩
  | succ posts ih =>
    obtain ⟨next, blocks, taken, marked, idle, calls⟩ := serving_turn serving
    obtain ⟨after, final, ran, kept, drained, same⟩ := ih idle
    exact ⟨after, final, exec_cons.mpr ⟨next, taken, ran⟩, fun _ => kept marked, drained,
      by simp [same, calls]⟩

/-- The turns after a round drain the semaphore and call, in order, what the
tasks that are not skipped have set. -/
theorem round_calls (serving : Serving index pool worker state [] wiped 0) (round : Round)
    (enqueued : exec (step index) state round.enqueues = some queued) :
    ∃ after blocks, exec (step index) queued round.turns = some after ∧ 0 < blocks ∧
      Serving index pool worker after [] blocks 0 ∧
      after.calls = state.calls ++
        ((round.tasks pool worker).drop (slotsPerBlock * wiped)).flatMap callsOf := by
  obtain ⟨filled, same⟩ := serving_enqueues serving enqueued
  obtain ⟨posts, count⟩ : ∃ posts, round.requests.countP (·.1.requireNotify) = posts + 1 :=
    Nat.exists_eq_succ_of_ne_zero (Nat.ne_of_gt (List.countP_pos_iff.mpr round.notified))
  rw [Nat.zero_add, count, List.nil_append] at filled
  obtain ⟨next, blocks, taken, marked, idle, calls⟩ := serving_turn filled
  obtain ⟨after, final, ran, kept, drained, quiet⟩ := serving_idle idle
  refine ⟨after, final, ?_, kept marked, drained, ?_⟩
  · rw [Round.turns, count]
    exact exec_cons.mpr ⟨next, taken, ran⟩
  · rw [quiet, calls, same, Round.tasks]

theorem rounds_serving (serving : Serving index pool worker state [] wiped 0) (rounds : List Round)
    (reached : exec (step index) state (rounds.flatMap Round.events) = some next) :
    ∃ blocks, Serving index pool worker next [] blocks 0 := by
  induction rounds generalizing state wiped with
  | nil =>
    obtain rfl := Option.some.inj reached
    exact ⟨wiped, serving⟩
  | cons round rest ih =>
    rw [List.flatMap_cons, Round.events, List.append_assoc] at reached
    obtain ⟨queued, enqueued, later⟩ := exec_append.mp reached
    obtain ⟨after, turned, last⟩ := exec_append.mp later
    obtain ⟨served, blocks, ran, _, drained, _⟩ := round_calls serving round enqueued
    obtain rfl := Option.some.inj (ran.symm.trans turned)
    exact ih drained last

/-- The pool has a worker at the index as `init_worker` leaves it. -/
def Started (pool : Pool) (index : Int) (worker : BitVec 64) : Prop :=
  ∃ memory, Initial sizeArenaDefault memory ∧
    pool.workerAt index = some (initWorker worker true (some memory))

theorem serving_started (started : Started pool index worker) :
    Serving index pool.address worker ⟨pool, []⟩ [] 0 0 := by
  obtain ⟨memory, initial, held⟩ := started
  exact ⟨rfl, _, _, held, arenaInit_fresh memory, rfl, rfl, rfl, rfl, rfl, queue_fresh initial⟩

theorem wipedBlocks_serving (serving : Serving index pool worker state tasks wiped sem) :
    wipedBlocks state.pool index = wiped := by
  obtain ⟨_, self, arena, held, queues, _, _, _, _, _, queue⟩ := serving
  simp only [wipedBlocks, held, Option.bind_some, queues, Option.elim_some]
  exact queue_countP queue

theorem callsOf_eq_nil {request : Request} :
    callsOf (request.task pool worker) = [] ↔ CallsNothing request := by
  have unset : ∀ callback self, callIfSet callback self = [] ↔ callback = 0 := by
    intro callback self
    by_cases set : callback = 0 <;> simp [callIfSet, set]
  simp only [callsOf, List.append_eq_nil_iff, unset, and_assoc]
  exact Iff.rfl

/-- Skipping the first tasks of a list shows in the calls unless they call nothing. -/
private theorem skipped_iff (requests : List (Request × Option Nat)) (skipped : Nat) :
    ((requests.map fun (request, _) => request.task pool worker).drop skipped).flatMap callsOf =
        (requests.map fun (request, _) => request.task pool worker).flatMap callsOf ↔
      ∀ entry ∈ requests.take skipped, CallsNothing entry.1 := by
  generalize tasks : (requests.map fun (request, _) => request.task pool worker) = all
  have split_ : all.flatMap callsOf =
      (all.take skipped).flatMap callsOf ++ (all.drop skipped).flatMap callsOf := by
    rw [← List.flatMap_append, List.take_append_drop]
  rw [split_, List.self_eq_append_left, List.flatMap_eq_nil_iff, ← tasks, ← List.map_take,
    List.forall_mem_map]
  exact forall₂_congr fun _ _ => callsOf_eq_nil

/-- However many rounds a worker has gone through, the turns after the next one
drain its semaphore, and they make the calls of all tasks of the round, in order
and once each, exactly if the tasks that would fit in the blocks marked as wiped
have no callback set. -/
theorem round_called_iff_skipped_call_nothing (started : Started pool index worker)
    (earlier : List Round) (round : Round)
    (reached : exec (step index) ⟨pool, []⟩ (earlier.flatMap Round.events) = some before)
    (enqueued : exec (step index) before round.enqueues = some queued) :
    ∃ after, exec (step index) queued round.turns = some after ∧
      (after.pool.workerAt index).map Worker.sem = some 0 ∧
      (after.calls = before.calls ++ (round.tasks pool.address worker).flatMap callsOf ↔
        ∀ entry ∈ round.requests.take (slotsPerBlock * wipedBlocks before.pool index),
          CallsNothing entry.1) := by
  obtain ⟨wiped, serving⟩ := rounds_serving (serving_started started) earlier reached
  obtain ⟨after, blocks, ran, _, drained, calls⟩ := round_calls serving round enqueued
  obtain ⟨_, self, _, held, _, _, sem, _⟩ := drained
  refine ⟨after, ran, by simp [held, sem], ?_⟩
  rw [calls, wipedBlocks_serving serving, List.append_right_inj]
  exact skipped_iff round.requests (slotsPerBlock * wiped)

/-- A pool with one worker, and a round of one task with `execute` set. -/
private def oneWorker : Pool :=
  ⟨1, some (Function.update (fun _ => none) 0 (some (initWorker 2 true (some 4096))))⟩

private def oneTask : Round :=
  ⟨[(⟨true, 0, 1, 5, 1, 7, 0, 0, 0⟩, none)], by decide⟩

private theorem oneWorker_started : Started oneWorker 0 2 := ⟨4096, by decide, rfl⟩

private theorem oneTask_enqueued (serving : Serving index pool worker state [] wiped 0) :
    ∃ queued, exec (step index) state oneTask.enqueues = some queued := by
  have first : ∃ next, step index state (.enqueue ⟨true, 0, 1, 5, 1, 7, 0, 0, 0⟩ none) = some next :=
    serving_first serving (by decide)
  obtain ⟨next, taken⟩ := first
  exact ⟨next, exec_cons.mpr ⟨next, taken, rfl⟩⟩

/-- Ten tasks with no callback, and two behind them with `execute` set, for the first of
which `malloc` makes a second block. -/
private def twelveTasks : Round :=
  ⟨List.replicate 10 (⟨false, 0, 1, 5, 1, 0, 0, 0, 0⟩, none) ++
    [(⟨true, 0, 1, 5, 1, 7, 0, 0, 0⟩, some 16384), (⟨false, 0, 1, 5, 1, 8, 0, 0, 0⟩, none)], by decide⟩

/-- In a later round the tasks of the first block are skipped and those of the block behind
it called. -/
theorem later_round_called :
    ∃ before queued after, exec (step 0) ⟨oneWorker, []⟩ oneTask.events = some before ∧
      exec (step 0) before twelveTasks.enqueues = some queued ∧
      exec (step 0) queued twelveTasks.turns = some after ∧
      before.calls.map Call.callback = [7] ∧ after.calls.map Call.callback = [7, 7, 8] := by
  have first : ∃ before, exec (step 0) ⟨oneWorker, []⟩ oneTask.events = some before ∧
      before.calls.map Call.callback = [7] ∧ wipedBlocks before.pool 0 = 1 := by
    have ran : (exec (step 0) ⟨oneWorker, []⟩ oneTask.events).map
        (fun state => (state.calls.map Call.callback, wipedBlocks state.pool 0)) = some ([7], 1) := by
      decide +kernel
    obtain ⟨before, reached, same⟩ := Option.map_eq_some_iff.mp ran
    exact ⟨before, reached, Prod.mk.inj same⟩
  have second : ((exec (step 0) ⟨oneWorker, []⟩ oneTask.events).bind
      (exec (step 0) · twelveTasks.enqueues)).isSome = true := by
    decide +kernel
  obtain ⟨before, reached, called, wiped⟩ := first
  rw [reached, Option.bind_some] at second
  obtain ⟨queued, enqueued⟩ := Option.isSome_iff_exists.mp second
  obtain ⟨after, ran, _, all⟩ :=
    round_called_iff_skipped_call_nothing oneWorker_started [oneTask] twelveTasks
      (by rw [List.flatMap_singleton, reached]) enqueued
  have nothing : ∀ entry ∈ twelveTasks.requests.take (slotsPerBlock * wipedBlocks before.pool 0),
      CallsNothing entry.1 := by
    rw [wiped]
    unfold CallsNothing
    decide
  refine ⟨before, queued, after, reached, enqueued, ran, called, ?_⟩
  rw [all.mpr nothing, List.map_append, called]
  decide

/-- In the second round nothing is called: the task lies in the block that the
reset after the first round has marked. -/
theorem second_round_skipped :
    ¬ ∀ pool index worker (earlier : List Round) (round : Round) before queued,
      Started pool index worker →
      exec (step index) ⟨pool, []⟩ (earlier.flatMap Round.events) = some before →
      exec (step index) before round.enqueues = some queued →
      ∃ after, exec (step index) queued round.turns = some after ∧
        after.calls = before.calls ++ (round.tasks pool.address worker).flatMap callsOf := by
  intro always
  have start := serving_started oneWorker_started
  obtain ⟨queued, enqueued⟩ := oneTask_enqueued start
  obtain ⟨before, wiped, ran, marked, serving, _⟩ := round_calls start oneTask enqueued
  obtain ⟨again, enqueuedAgain⟩ := oneTask_enqueued serving
  obtain ⟨after, turned, called⟩ := always oneWorker 0 2 [oneTask] oneTask before again
    oneWorker_started
    (by
      rw [List.flatMap_singleton]
      exact exec_append.mpr ⟨queued, enqueued, ran⟩)
    enqueuedAgain
  obtain ⟨same, _, ranAgain, _, _, calls⟩ := round_calls serving oneTask enqueuedAgain
  obtain rfl := Option.some.inj (ranAgain.symm.trans turned)
  -- the one task is among the ten or more that fit in the marked blocks
  have skipped : (oneTask.tasks oneWorker.address 2).length ≤ slotsPerBlock * wiped :=
    Nat.le_trans (by decide) (Nat.mul_le_mul_left slotsPerBlock marked)
  rw [called, List.drop_eq_nil_of_le skipped, List.flatMap_nil, List.append_right_inj] at calls
  exact absurd calls (by decide)

end ShapeQuake.ReactorPasses
