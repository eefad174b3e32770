import ShapeQuake.ReactorRaces

/-! The steps of the interleaved model, taken without anybody in between, are the
calls of the sequential one: a pass of the worker is a turn of its loop, and the
steps of one caller are an `enqueue`. -/
namespace ShapeQuake.ReactorRefinement
open Library.Bytes Library.Runs Allocator Reactor ReactorRaces

/-- The worker gets from one state to the other by steps of its own. -/
def Works (state next : State) : Prop :=
  ∃ steps, exec step state (List.replicate steps .work) = some next

theorem works_one (taken : workStep state = some next) : Works state next :=
  ⟨1, exec_cons.mpr ⟨next, taken, rfl⟩⟩

theorem Works.trans {first second third : State} (early : Works first second)
    (late : Works second third) : Works first third := by
  obtain ⟨before, ran⟩ := early
  obtain ⟨after, finished⟩ := late
  refine ⟨before + after, ?_⟩
  rw [List.replicate_add]
  exact exec_append.mpr ⟨second, ran, finished⟩

section
variable (state : State)

/-- The state with the worker at a place, after these calls and with these callers. -/
def atPlace (place : Place) (callers : List Caller) (calls : List Call) : State :=
  { state with place, callers, calls }

variable {state}

/-- The steps within a block are the inner loop. -/
theorem works_runQueue (here : state.arena.blocks.chain[index]? = some block) (readOffset : Nat) :
    ∀ callers calls, ∃ after, Works (atPlace state (.reading index readOffset) callers calls)
      (atPlace state (.leaving index) after (calls ++ runQueue block readOffset)) := by
  induction readOffset using runQueue.induct block with
  | case1 readOffset more ih =>
    intro callers calls
    let marked := callers.map
      (markRan state.resets ⟨block.address, readOffset⟩ (taskAt block.data readOffset))
    obtain ⟨after, rest⟩ := ih marked (calls ++ callsOf (taskAt block.data readOffset))
    have reads : Works (atPlace state (.reading index readOffset) callers calls)
        (atPlace state (.running index readOffset) callers calls) :=
      works_one (by simp [workStep, atPlace, here, more])
    have runs : Works (atPlace state (.running index readOffset) callers calls)
        (atPlace state (.reading index (readOffset + slotSize)) marked
          (calls ++ callsOf (taskAt block.data readOffset))) :=
      works_one (by simp only [workStep, atPlace, here, Option.map_some, marked])
    unfold runQueue
    rw [if_pos more, ← List.append_assoc]
    exact ⟨after, (reads.trans runs).trans rest⟩
  | case2 readOffset ended =>
    intro callers calls
    unfold runQueue
    rw [if_neg ended, List.append_nil]
    exact ⟨callers, works_one (by simp [workStep, atPlace, here, ended])⟩

/-- The steps at a block run it unless it is marked as wiped. -/
private theorem works_block (here : state.arena.blocks.chain[index]? = some block) :
    ∀ callers calls, ∃ after, Works (atPlace state (.atBlock index) callers calls)
      (atPlace state (.leaving index) after
        (calls ++ if block.isWiped then [] else runQueue block 0)) := by
  intro callers calls
  cases marked : block.isWiped with
  | true =>
    refine ⟨callers, works_one ?_⟩
    simp [workStep, atPlace, here, marked]
  | false =>
    obtain ⟨after, ran⟩ := works_runQueue here 0 callers calls
    have enters : Works (atPlace state (.atBlock index) callers calls)
        (atPlace state (.reading index 0) callers calls) :=
      works_one (by simp [workStep, atPlace, here, marked])
    exact ⟨after, by simpa using enters.trans ran⟩

/-- The steps from a block on are the outer loop. -/
theorem works_runBlocks {rest : List ArenaBlock} :
    ∀ {index block}, state.arena.blocks.chain.drop index = block :: rest → ∀ callers calls,
      ∃ after, Works (atPlace state (.atBlock index) callers calls)
        (atPlace state .resetting after (calls ++ runBlocks (block :: rest))) := by
  induction rest with
  | nil =>
    intro index block suffix callers calls
    have here : state.arena.blocks.chain[index]? = some block := by
      rw [← List.head?_drop, suffix, List.head?_cons]
    have last : ¬ index + 1 < state.arena.blocks.chain.length := by
      have length := congrArg List.length suffix
      simp only [List.length_drop, List.length_singleton] at length
      omega
    obtain ⟨after, ran⟩ := works_block here callers calls
    refine ⟨after, ran.trans (works_one ?_)⟩
    simp only [workStep, atPlace, last, ↓reduceIte, runBlocks]
    cases block.isWiped <;> simp
  | cons next rest ih =>
    intro index block suffix callers calls
    have here : state.arena.blocks.chain[index]? = some block := by
      rw [← List.head?_drop, suffix, List.head?_cons]
    have more : index + 1 < state.arena.blocks.chain.length := by
      have length := congrArg List.length suffix
      simp only [List.length_drop, List.length_cons] at length
      omega
    have tail : state.arena.blocks.chain.drop (index + 1) = next :: rest := by
      rw [← List.tail_drop, suffix, List.tail_cons]
    obtain ⟨middle, ran⟩ := works_block here callers calls
    obtain ⟨after, later⟩ :=
      ih tail middle (calls ++ if block.isWiped then [] else runQueue block 0)
    have moves : Works
        (atPlace state (.leaving index) middle
          (calls ++ if block.isWiped then [] else runQueue block 0))
        (atPlace state (.atBlock (index + 1)) middle
          (calls ++ if block.isWiped then [] else runQueue block 0)) :=
      works_one (by simp only [workStep, atPlace, more, ↓reduceIte])
    refine ⟨after, (ran.trans moves).trans ?_⟩
    have calls_ : calls ++ runBlocks (block :: next :: rest) =
        (calls ++ if block.isWiped then [] else runQueue block 0) ++ runBlocks (next :: rest) := by
      cases marked : block.isWiped <;> simp [runBlocks, marked]
    rwa [calls_]

/-- A pass nobody interferes with makes the calls of a turn of the worker's loop
and leaves its arena and its semaphore as the turn does. -/
theorem pass_alone_is_turn (waiting : state.place = .waiting)
    (served : turn ⟨state.worker, some state.arena, state.sem, sleeping, false⟩ =
      .serves next calls) :
    ∃ arena callers, next.localQueues = some arena ∧
      Works state { state with
        arena, sem := next.sem, resets := state.resets + 1, callers
        calls := state.calls ++ calls } := by
  have posted : state.sem ≠ 0 := by
    intro drained
    simp [turn, drained] at served
  have unlocked : state.arena.mutex = false := by
    cases locked : state.arena.mutex with
    | false => rfl
    | true => simp [turn, posted, arenaReset, locked] at served
  rw [turn_serves posted rfl rfl unlocked] at served
  obtain ⟨rfl, rfl⟩ := Turn.serves.inj served
  obtain ⟨block, rest, chain⟩ :=
    List.exists_cons_of_ne_nil (List.ne_nil_of_mem (current_mem_chain state.arena.blocks))
  -- the walk starts after the worker has taken the post
  let awake : State := { state with sem := state.sem - 1 }
  have suffix : awake.arena.blocks.chain.drop 0 = block :: rest := chain
  obtain ⟨callers, walked⟩ := works_runBlocks suffix state.callers state.calls
  have wakes : Works state (atPlace awake (.atBlock 0) state.callers state.calls) :=
    works_one (by simp [workStep, waiting, posted, atPlace, awake])
  refine ⟨state.arena.emptied, callers, rfl, (wakes.trans walked).trans (works_one ?_)⟩
  simp [workStep, atPlace, awake, arenaReset_unlocked unlocked, waiting, chain]

/-- The steps of one `enqueue`, the last one if it is to notify. -/
def enqueueSteps (request : Request) (malloc : Option Nat) (number : Nat) : List Event :=
  [.allocate request malloc, .copy number] ++ if request.requireNotify then [.post number] else []

/-- The steps of a caller whom nobody interrupts store the task and post the
semaphore as `enqueue` does. -/
theorem steps_alone_are_enqueue (valid : request.valid = true)
    (answers : ∀ address ∈ malloc, AllocatorInvariants.MallocAnswers state.arena.blocks.chain
      (totalSize (max (align sizeofTask) state.arena.blockSize)) address)
    (allocated : arenaAlloc state.arena sizeofTask malloc = some (arena, some slot)) :
    ∃ callers,
      exec step state (enqueueSteps request malloc state.callers.length) = some { state with
        arena := arena.write slot (taskBytes (request.task state.pool state.worker))
        sem := if request.requireNotify then state.sem + 1 else state.sem
        callers } := by
  let task := request.task state.pool state.worker
  let caller : Caller :=
    { slot, task, requireNotify := request.requireNotify, phase := .allocated
      resets := state.resets, duringPass := state.place ≠ .waiting, ran := false }
  let copied : Caller :=
    { caller with phase := if request.requireNotify then .copied else .complete }
  have first : step state (.allocate request malloc) =
      some { state with arena, callers := state.callers ++ [caller] } := by
    simp only [step]
    rw [if_pos answers]
    simp only [allocateStep, valid, Bool.true_eq_false, ↓reduceIte, allocated, caller, task]
  have second : step { state with arena, callers := state.callers ++ [caller] }
      (.copy state.callers.length) = some { state with
        arena := arena.write slot (taskBytes task), callers := state.callers ++ [copied] } := by
    simp [step, copyStep, caller, copied]
  cases notify : request.requireNotify with
  | false =>
    refine ⟨state.callers ++ [copied], ?_⟩
    simp only [enqueueSteps, notify, Bool.false_eq_true, ↓reduceIte, List.append_nil, exec, first,
      second, Option.bind_some, task]
  | true =>
    refine ⟨state.callers ++ [{ copied with phase := .complete }], ?_⟩
    have third : step { state with
          arena := arena.write slot (taskBytes task), callers := state.callers ++ [copied] }
        (.post state.callers.length) = some { state with
          arena := arena.write slot (taskBytes task), sem := state.sem + 1
          callers := state.callers ++ [{ copied with phase := .complete }] } := by
      simp [step, postStep, copied, notify]
    simp only [enqueueSteps, notify, ↓reduceIte, List.cons_append, List.nil_append, exec, first,
      second, third, Option.bind_some, task]

end

end ShapeQuake.ReactorRefinement
