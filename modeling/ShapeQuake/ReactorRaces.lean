import ShapeQuake.AllocatorInvariants
import ShapeQuake.Library.Runs
import ShapeQuake.Reactor

/-! `enqueue` and the worker's pass cut at the points where threads can meet: an
allocation and a reset are each made under the arena's mutex, but the copy of the
task, the post and every step of the walk are not. Any number of callers may be
under way; each event is one step of one of them or of the worker. A task is run in one
step: its three pointers are read and called together, so no copy lands between them. -/
namespace ShapeQuake.ReactorRaces
open Library.Runs Allocator AllocatorInvariants Reactor

/-- How far an `enqueue` has come: its slot is allocated, the task is copied into
it, or it has nothing left to do. -/
inductive Phase where
  | allocated | copied | complete
  deriving DecidableEq, Repr

/-- An `enqueue` that got a slot. What follows the phase is not the program's: in
which round of resets it got the slot, whether a pass was on then, and whether
the worker has run its task. -/
structure Caller where
  slot : Pointer
  task : Task
  requireNotify : Bool
  phase : Phase
  resets : Nat
  duringPass : Bool
  ran : Bool
  deriving DecidableEq, Repr

/-- Where the worker is: blocked in `sem_wait`, at the top of the loop over the
blocks, about to read the offset of a block or to run the task at an offset,
about to follow `next`, or about to reset. Blocks are counted from `head`. -/
inductive Place where
  | waiting
  | atBlock (index : Nat)
  | reading (index readOffset : Nat)
  | running (index readOffset : Nat)
  | leaving (index : Nat)
  | resetting
  deriving DecidableEq, Repr

/-- The worker with its arena, the callers, and the calls made so far. -/
structure State where
  pool : BitVec 64
  worker : BitVec 64
  arena : Arena
  sem : Nat
  place : Place
  resets : Nat
  callers : List Caller
  calls : List Call

/-- An `enqueue` allocates its slot, the caller of this number copies its task
or posts the semaphore, or the worker takes a step. -/
inductive Event where
  | allocate (request : Request) (malloc : Option Nat)
  | copy (caller : Nat)
  | post (caller : Nat)
  | work
  deriving DecidableEq, Repr

/-- The checks and the `arena_alloc` of `enqueue`. -/
def allocateStep (state : State) (request : Request) (malloc : Option Nat) : Option State :=
  if request.valid = false then some state
  else
    match arenaAlloc state.arena sizeofTask malloc with
    | none => none
    | some (arena, none) => some { state with arena }
    | some (arena, some slot) =>
      some { state with
        arena
        callers := state.callers ++
          [{ slot, task := request.task state.pool state.worker
             requireNotify := request.requireNotify, phase := .allocated
             resets := state.resets, duringPass := state.place ≠ .waiting, ran := false }] }

/-- The `memcpy` of `enqueue`. -/
def copyStep (state : State) (number : Nat) : Option State :=
  match state.callers[number]? with
  | none => none
  | some caller =>
    if caller.phase = .allocated then
      some { state with
        arena := state.arena.write caller.slot (taskBytes caller.task)
        callers := state.callers.set number
          { caller with phase := if caller.requireNotify then .copied else .complete } }
    else none

/-- The `sem_post` of `enqueue`. -/
def postStep (state : State) (number : Nat) : Option State :=
  match state.callers[number]? with
  | none => none
  | some caller =>
    if caller.phase = .copied then
      some { state with
        sem := state.sem + 1
        callers := state.callers.set number { caller with phase := .complete } }
    else none

/-- The caller's task was run, if this is its slot and the task found there its own. -/
def markRan (resets : Nat) (slot : Pointer) (task : Task) (caller : Caller) : Caller :=
  if caller.resets = resets ∧ caller.slot = slot ∧ caller.task = task then
    { caller with ran := true }
  else caller

/-- One step of the pass in `start_working`. -/
def workStep (state : State) : Option State :=
  match state.place with
  | .waiting =>
    if state.sem = 0 then none
    else some { state with sem := state.sem - 1, place := .atBlock 0 }
  | .atBlock index =>
    state.arena.blocks.chain[index]?.map fun block =>
      { state with place := if block.isWiped then .leaving index else .reading index 0 }
  | .reading index readOffset =>
    state.arena.blocks.chain[index]?.map fun block =>
      { state with
        place := if readOffset < block.offset then .running index readOffset else .leaving index }
  | .running index readOffset =>
    state.arena.blocks.chain[index]?.map fun block =>
      let task := taskAt block.data readOffset
      { state with
        place := .reading index (readOffset + slotSize)
        callers := state.callers.map (markRan state.resets ⟨block.address, readOffset⟩ task)
        calls := state.calls ++ callsOf task }
  | .leaving index =>
    some { state with
      place := if index + 1 < state.arena.blocks.chain.length then .atBlock (index + 1)
        else .resetting }
  | .resetting =>
    (arenaReset (some state.arena)).bind fun arena => arena.map fun arena =>
      { state with arena, place := .waiting, resets := state.resets + 1 }

/-- One step of a caller or of the worker, where `malloc` keeps to its contract. -/
def step (state : State) : Event → Option State
  | .allocate request malloc =>
    if ∀ address ∈ malloc, MallocAnswers state.arena.blocks.chain
        (totalSize (max (align sizeofTask) state.arena.blockSize)) address then
      allocateStep state request malloc
    else none
  | .copy caller => copyStep state caller
  | .post caller => postStep state caller
  | .work => workStep state

/-- A worker's arena as `init_worker` makes it, and the worker waiting. -/
def start (pool worker : BitVec 64) (arena : Arena) : State :=
  ⟨pool, worker, arena, 0, .waiting, 0, [], []⟩

/-! ## The promise -/

/-- The caller got its slot in the pass that is on. -/
def InPass (state : State) (caller : Caller) : Prop :=
  caller.duringPass = true ∧ caller.resets = state.resets

/-- The task is still in the queue, for a later pass. -/
def KeptFor (arena : Arena) (caller : Caller) : Prop :=
  ∃ block ∈ arena.blocks.chain, block.address = caller.slot.block ∧
    caller.slot.offset < block.offset ∧ taskAt block.data caller.slot.offset = caller.task

/-- The worker is about to run what is in this caller's slot. -/
def RunsSlotOf (state : State) (caller : Caller) : Prop :=
  ∃ index readOffset block, state.place = .running index readOffset ∧
    state.arena.blocks.chain[index]? = some block ∧ caller.resets = state.resets ∧
    caller.slot = ⟨block.address, readOffset⟩

/-- What the reactor promises of a step: a reset finds every task that was
enqueued during the pass run or keeps it, and no task is run before it is copied. -/
def NothingLost (state : State) (event : Event) : Prop :=
  event = .work →
    (state.place = .resetting → ∀ next, step state event = some next →
      ∀ caller ∈ state.callers, InPass state caller → caller.phase = .complete →
        caller.ran = true ∨ KeptFor next.arena caller) ∧
    ∀ caller ∈ state.callers, RunsSlotOf state caller → caller.phase ≠ .allocated

/-! ## The condition -/

/-- The walk has still to come to this offset of the block of this number. -/
def Place.before (index offset : Nat) : Place → Prop
  | .waiting | .resetting => False
  | .atBlock at_ => at_ ≤ index
  | .reading at_ readOffset | .running at_ readOffset =>
    at_ < index ∨ at_ = index ∧ readOffset ≤ offset
  | .leaving at_ => at_ < index

instance : Decidable (Place.before index offset place) := by
  cases place <;> unfold Place.before <;> infer_instance

/-- The caller's slot lies ahead of the walk, in a block that is not marked as wiped. -/
def Ahead (state : State) (caller : Caller) : Prop :=
  ∃ index block, state.arena.blocks.chain[index]? = some block ∧
    block.address = caller.slot.block ∧ block.isWiped = false ∧
    state.place.before index caller.slot.offset

/-- The last step of an `enqueue` that began in the pass comes when its task has
been run or while its slot is ahead of the walk. -/
def CompletesInTime (state : State) (caller : Caller) : Prop :=
  InPass state caller → caller.ran = true ∨ Ahead state caller

/-- A task copied into a slot that a reset has taken back replaces none that was
enqueued in the pass and has not been run. -/
def ReplacesNone (state : State) (caller : Caller) : Prop :=
  caller.resets ≠ state.resets → ∀ other ∈ state.callers, InPass state other →
    other.phase ≠ .allocated → other.ran = false → other.slot ≠ caller.slot

/-- The block whose offset the worker reads next. -/
def Place.reads : Place → Option Nat
  | .reading index _ => some index
  | _ => none

/-- No caller that got a slot of this block since the last reset is between its
`arena_alloc` and its copy. -/
def Settled (state : State) (block : ArenaBlock) : Prop :=
  ∀ caller ∈ state.callers, caller.resets = state.resets → caller.slot.block = block.address →
    caller.phase ≠ .allocated

/-- The condition on a step, in the state before it. -/
def Timely (state : State) : Event → Prop
  | .allocate _ _ => True
  | .copy number => ∀ caller, state.callers[number]? = some caller →
      ReplacesNone state caller ∧ (caller.requireNotify = false → CompletesInTime state caller)
  | .post number => ∀ caller, state.callers[number]? = some caller → CompletesInTime state caller
  | .work => ∀ index ∈ state.place.reads, ∀ block ∈ state.arena.blocks.chain[index]?, Settled state block

/-! ## Deciding the condition -/

instance : Decidable (InPass state caller) := inferInstanceAs (Decidable (_ ∧ _))

instance : Decidable (Ahead state caller) :=
  decidable_of_iff
    (∃ index ∈ List.range state.arena.blocks.chain.length,
      ∃ block ∈ state.arena.blocks.chain[index]?, block.address = caller.slot.block ∧
        block.isWiped = false ∧ state.place.before index caller.slot.offset)
    ⟨fun ⟨index, _, block, here, ahead⟩ => ⟨index, block, here, ahead⟩,
      fun ⟨index, block, here, ahead⟩ =>
        ⟨index, List.mem_range.mpr (List.getElem?_eq_some_iff.mp here).1, block, here, ahead⟩⟩

instance : Decidable (CompletesInTime state caller) := inferInstanceAs (Decidable (_ → _))

instance : Decidable (ReplacesNone state caller) := by
  unfold ReplacesNone
  infer_instance

instance : Decidable (Timely state event) := by
  cases event with
  | allocate => exact isTrue trivial
  | copy number =>
    exact decidable_of_iff (∀ caller ∈ state.callers[number]?, ReplacesNone state caller ∧
      (caller.requireNotify = false → CompletesInTime state caller)) Iff.rfl
  | post number =>
    exact decidable_of_iff (∀ caller ∈ state.callers[number]?, CompletesInTime state caller) Iff.rfl
  | work =>
    exact inferInstanceAs (Decidable (∀ index ∈ state.place.reads,
      ∀ block ∈ state.arena.blocks.chain[index]?, ∀ caller ∈ state.callers, _))

end ShapeQuake.ReactorRaces
