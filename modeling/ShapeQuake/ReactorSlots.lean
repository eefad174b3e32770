import ShapeQuake.AllocatorInvariants
import ShapeQuake.Reactor

/-! A worker's arena as a queue of slots: tasks are all it allocates, so every
block has the default capacity and is handed out slot by slot, and the walk of
`start_working` reads the slots that were handed out, in order. -/
namespace ShapeQuake.ReactorSlots
open Library.Bytes Allocator AllocatorInvariants Reactor

/-- The tasks that fit in one block of a worker's arena. -/
def slotsPerBlock : Nat := sizeArenaDefault / slotSize

@[simp] theorem slotsPerBlock_eq : slotsPerBlock = 10 := by simp [slotsPerBlock, sizeArenaDefault]

/-! ## Slots -/

/-- A block whose offset lies at the end of a slot. -/
structure Slotted (block : ArenaBlock) : Prop where
  capacity : block.capacity = sizeArenaDefault
  whole : slotSize ∣ block.offset
  handed : block.offset ≤ sizeArenaDefault

theorem tasksIn_length (block : ArenaBlock) : (tasksIn block).length = block.offset / slotSize := by
  simp [tasksIn]

theorem tasksIn_of_empty (empty : block.offset = 0) : tasksIn block = [] := by
  simp [tasksIn, empty]

theorem tasksIn_length_le (slotted : Slotted block) : (tasksIn block).length ≤ slotsPerBlock := by
  rw [tasksIn_length]
  exact Nat.div_le_div_right slotted.handed

/-- The inner loop, from a slot on, runs the tasks of the remaining slots in order. -/
private theorem runQueue_from (slots : Nat) :
    ∀ first, block.offset = (first + slots) * slotSize →
      runQueue block (first * slotSize) =
        ((List.range' first slots).map fun slot => taskAt block.data (slot * slotSize)).flatMap
          callsOf := by
  induction slots with
  | zero =>
    intro first offset
    unfold runQueue
    simp [offset]
  | succ slots ih =>
    intro first offset
    unfold runQueue
    have next : first * slotSize + slotSize = (first + 1) * slotSize := by
      rw [Nat.add_mul, Nat.one_mul]
    rw [if_pos (by rw [offset, slotSize_eq]; omega), next, ih (first + 1) (by rw [offset]; congr 1; omega),
      List.range'_succ, List.map_cons, List.flatMap_cons]

theorem runQueue_tasks (whole : slotSize ∣ block.offset) :
    runQueue block 0 = (tasksIn block).flatMap callsOf := by
  have offset : block.offset = (0 + block.offset / slotSize) * slotSize := by
    rw [Nat.zero_add, Nat.div_mul_cancel whole]
  have all := runQueue_from (block.offset / slotSize) 0 offset
  rwa [Nat.zero_mul, ← List.range_eq_range'] at all

/-- The walk runs the tasks of the blocks that are not marked, in chain order. -/
theorem runBlocks_tasks (whole : ∀ block ∈ chain, slotSize ∣ block.offset) :
    runBlocks chain = ((chain.filter (!·.isWiped)).flatMap tasksIn).flatMap callsOf := by
  induction chain with
  | nil => rfl
  | cons block next ih =>
    have rest := ih fun block member => whole block (List.mem_cons_of_mem _ member)
    cases marked : block.isWiped with
    | true => simp [runBlocks, marked, rest]
    | false =>
      simp [runBlocks, marked, rest, runQueue_tasks (whole block (by simp))]

/-- Storing a task in the slot after the last adds it to the block's tasks. -/
theorem tasksIn_stored (whole : slotSize ∣ block.offset) (task : Task) :
    tasksIn { block with
        offset := block.offset + slotSize
        data := writeBytes block.data block.offset (taskBytes task) } =
      tasksIn block ++ [task] := by
  obtain ⟨slots, offset⟩ := whole
  have count : (block.offset + slotSize) / slotSize = slots + 1 := by
    rw [offset, slotSize_eq]
    omega
  have before : block.offset / slotSize = slots := by
    rw [offset, slotSize_eq]
    omega
  simp only [tasksIn, count, before, List.range_succ, List.map_append, List.map_cons, List.map_nil]
  congr 1
  · refine List.map_congr_left fun slot member => taskAt_apart (.inl ?_) task
    have := List.mem_range.mp member
    rw [offset, slotSize_eq, sizeofTask_eq]
    omega
  · rw [Nat.mul_comm slots, ← offset, taskAt_written]

/-! ## A new arena -/

/-- A worker's arena as `arena_init` makes it. -/
def freshArena (memory : Nat) : Arena :=
  { mutex := false
    blocks := ⟨[], ⟨memory, 0, false, none, 0, sizeArenaDefault, zeros⟩, []⟩
    blockSize := sizeArenaDefault
    containsFd := false
    containsDbHandle := false
    isReset := false }

theorem arenaInit_fresh (memory : Nat) :
    arenaInit sizeArenaDefault true (some memory) = some (freshArena memory) := rfl

theorem wellFormed_fresh (initial : Initial sizeArenaDefault memory) :
    WellFormed (freshArena memory).blocks sizeArenaDefault :=
  wellFormed_init initial (arenaInit_fresh memory)

theorem slotted_fresh (memory : Nat) : ∀ block ∈ (freshArena memory).blocks.chain, Slotted block := by
  intro block member
  obtain rfl := List.mem_singleton.mp member
  exact ⟨rfl, Nat.dvd_zero _, Nat.zero_le _⟩

/-! ## Allocating a slot -/

/-- No sum wraps when a task is allocated. -/
theorem grantable_task {blocks : Blocks} (slotted : ∀ block ∈ blocks.chain, Slotted block)
    (answers : ∀ address ∈ malloc, MallocAnswers blocks.chain
      (totalSize (max (align sizeofTask) sizeArenaDefault)) address) :
    Grantable blocks sizeArenaDefault sizeofTask malloc := by
  have handed := (slotted _ (current_mem_chain blocks)).handed
  have size : align sizeofTask = 96 := slotSize_eq
  refine ⟨by decide, by decide, ?_, answers⟩
  rw [size]
  simp only [sizeArenaDefault] at handed
  omega

theorem slotted_found {blocks : Blocks} (slotted : ∀ block ∈ blocks.chain, Slotted block)
    (found : RoomFound (align sizeofTask) sizeArenaDefault malloc blocks (next, room)) :
    ∀ block ∈ next.chain, Slotted block := by
  cases found with
  | here _ _ same => exact fun block member => slotted block (same ▸ member)
  | exhausted _ same => exact fun block member => slotted block (same ▸ member)
  | added address id prev =>
    intro block member
    rcases List.mem_append.mp member with old | new
    · exact slotted block old
    · obtain rfl := List.mem_singleton.mp new
      exact ⟨show align (max (align sizeofTask) sizeArenaDefault) = sizeArenaDefault by decide,
        Nat.dvd_zero _, Nat.zero_le _⟩

/-- Another block in place of `current`. -/
theorem slotted_current {blocks : Blocks} (slotted : ∀ block ∈ blocks.chain, Slotted block)
    (current : Slotted replaced) :
    ∀ block ∈ { blocks with current := replaced }.chain, Slotted block := by
  intro block member
  simp only [chain_mk, List.mem_append, List.mem_cons] at member
  rcases member with old | rfl | old
  · exact slotted block (by simp [Blocks.chain, old])
  · exact current
  · exact slotted block (mem_chain_of_after old)

theorem slotted_write {arena : Arena} (slotted : ∀ block ∈ arena.blocks.chain, Slotted block)
    (pointer : Pointer) (bytes : List UInt8) :
    ∀ block ∈ (arena.write pointer bytes).blocks.chain, Slotted block := by
  intro block member
  rw [Arena.write, chain_map] at member
  obtain ⟨old, held, rfl⟩ := List.mem_map.mp member
  have whole := slotted old held
  split
  · exact ⟨whole.capacity, whole.whole, whole.handed⟩
  · exact whole

theorem slotted_reset {blocks : Blocks} (slotted : ∀ block ∈ blocks.chain, Slotted block) :
    ∀ block ∈ (blocks.map (internalBlockShred true)).rewind.chain, Slotted block := by
  intro block member
  rw [rewind_chain, chain_map] at member
  obtain ⟨old, held, rfl⟩ := List.mem_map.mp member
  exact ⟨(slotted old held).capacity, Nat.dvd_zero _, Nat.zero_le _⟩

end ShapeQuake.ReactorSlots
