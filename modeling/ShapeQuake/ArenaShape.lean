import ShapeQuake.LinkedBlocks
import ShapeQuake.Library.Links

/-! What an arena in memory looks like between calls. Shredding one block, shredding all
without moving `current` and resetting change offsets and `current` in different ways; the
links, the room in the blocks and the empty blocks behind `current` outlive them all. -/
namespace ShapeQuake.ArenaShape
open Library.Bytes Library.Links Library.Runs Allocator AllocatorInvariants LinkedBlocks

/-- A block has handed out whole multiples of sixteen bytes, no more than it has, and has at
least the unit of the arena. -/
structure Sound (unit : Nat) (block : ArenaBlock) : Prop where
  handedWhole : 16 ∣ block.offset
  handed : block.offset ≤ block.capacity
  whole : 16 ∣ block.capacity
  large : unit ≤ block.capacity

/-- The blocks in memory are linked one behind the other from `head` on, forward and back,
each once, with `current` among them and the blocks behind it empty. -/
structure InOrder (state : LinkedArena) (before : List Cell) (current : Cell) (after : List Cell) : Prop where
  walk : Walk (cellAt state.memory) Cell.next (some state.head) (before ++ current :: after)
  acyclic : ((before ++ current :: after).map fun cell => cell.block.address).Nodup
  complete : state.memory = before ++ current :: after
  current : cellAt state.memory state.current = some current
  headPrev : ∃ head, cellAt state.memory state.head = some head ∧ head.block.prev = none
  nextPrev : ∀ cell ∈ state.memory, ∀ next ∈ cell.next, ∃ following,
    cellAt state.memory next = some following ∧ following.block.prev = some cell.block.address
  sound : ∀ cell ∈ state.memory, Sound state.blockSize cell.block
  idle : ∀ cell ∈ after, cell.block.offset = 0

/-- Whatever is requested, and whatever `malloc` answers, the loop of `arena_allocate_raw`
ends within so many turns. -/
def EndsWithin (state : LinkedArena) (steps : Nat) : Prop :=
  ∀ size malloc, ∃ outcome, ∀ turns, steps ≤ turns →
    roomLoop (align size) state.blockSize malloc turns state.memory state.current = some outcome

/-! ## The list of blocks -/

/-- Where the blocks are and where `prev` leads. -/
def backLinks (chain : List ArenaBlock) : List (Nat × Option Nat) :=
  chain.map fun block => (block.address, block.prev)

/-- The second block is linked back to the first. -/
def Back (block next : Nat × Option Nat) : Prop := next.2 = some block.1

/-- The first block is linked back to none, every other to the one before it. -/
structure Doubly (links : List (Nat × Option Nat)) : Prop where
  first : ∀ head ∈ links.head?, head.2 = none
  others : links.IsChain Back

/-- The list of an arena's blocks in order, but for the addresses. -/
structure Ordered (blocks : Blocks) (unit : Nat) : Prop where
  doubly : Doubly (backLinks blocks.chain)
  sound : ∀ block ∈ blocks.chain, Sound unit block
  idle : ∀ block ∈ blocks.after, block.offset = 0
  unitWhole : 16 ∣ unit
  unitFits : unit < 2 ^ 64

/-- A change leaves the header of a block, but that it may empty the block. -/
structure LeavesHeader (change : ArenaBlock → ArenaBlock) (block : ArenaBlock) : Prop where
  address : (change block).address = block.address
  prev : (change block).prev = block.prev
  capacity : (change block).capacity = block.capacity
  offset : (change block).offset = block.offset ∨ (change block).offset = 0

private theorem sound_changed {change : ArenaBlock → ArenaBlock} (leaves : LeavesHeader change block)
    (sound : Sound unit block) : Sound unit (change block) := by
  have whole := leaves.capacity ▸ sound.whole
  have large := leaves.capacity ▸ sound.large
  rcases leaves.offset with same | empty
  · exact ⟨same ▸ sound.handedWhole, by rw [same, leaves.capacity]; exact sound.handed, whole, large⟩
  · exact ⟨empty ▸ Nat.dvd_zero 16, empty ▸ Nat.zero_le _, whole, large⟩

theorem ordered_map (ordered : Ordered blocks unit) {change : ArenaBlock → ArenaBlock}
    (leaves : ∀ block, LeavesHeader change block) : Ordered (blocks.map change) unit := by
  have links : backLinks (blocks.map change).chain = backLinks blocks.chain := by
    rw [chain_map, backLinks, List.map_map]
    exact List.map_congr_left fun block _ => Prod.ext (leaves block).address (leaves block).prev
  refine ⟨links ▸ ordered.doubly, ?_, ?_, ordered.unitWhole, ordered.unitFits⟩
  · intro changed member
    rw [chain_map] at member
    obtain ⟨block, held, rfl⟩ := List.mem_map.mp member
    exact sound_changed (leaves block) (ordered.sound block held)
  · intro changed member
    obtain ⟨block, held, rfl⟩ := List.mem_map.mp member
    rcases (leaves block).offset with same | empty
    · exact same.trans (ordered.idle block held)
    · exact empty

/-- `current` may go back to `head` once all blocks are empty. -/
theorem ordered_rewind (ordered : Ordered blocks unit) (empty : ∀ block ∈ blocks.chain, block.offset = 0) :
    Ordered blocks.rewind unit := by
  have same := rewind_chain blocks
  exact ⟨same.symm ▸ ordered.doubly, same.symm ▸ ordered.sound,
    fun block member => empty block (same ▸ mem_chain_of_after member), ordered.unitWhole,
    ordered.unitFits⟩

/-! ## Allocating -/

/-- The loop of an allocation links a block back to the last one, or none. -/
theorem findRoom_links (aligned unit : Nat) (malloc : Option Nat) (before : List ArenaBlock)
    (current : ArenaBlock) (after : List ArenaBlock) :
    backLinks (findRoom aligned unit malloc before current after).1.chain =
        backLinks (before ++ current :: after) ∨
      ∃ address, ∃ last ∈ (backLinks (before ++ current :: after)).getLast?,
        backLinks (findRoom aligned unit malloc before current after).1.chain =
          backLinks (before ++ current :: after) ++ [(address, some last.1)] := by
  induction after generalizing before current with
  | nil =>
    rw [findRoom]
    split
    · cases malloc with
      | none => exact .inl rfl
      | some address =>
        refine .inr ⟨address, (current.address, current.prev), ?_, ?_⟩
        · simp [backLinks]
        · simp [backLinks, arenaNewBlock]
    · exact .inl rfl
  | cons next rest ih =>
    rw [findRoom]
    split
    · have same : backLinks ((before ++ [current]) ++ { next with offset := 0 } :: rest) =
          backLinks (before ++ current :: next :: rest) := by simp [backLinks]
      have moved := ih (before ++ [current]) { next with offset := 0 }
      rwa [same] at moved
    · exact .inl rfl

private theorem doubly_linked (doubly : Doubly links) (last : link ∈ links.getLast?) :
    Doubly (links ++ [(address, some link.1)]) := by
  constructor
  · intro head first
    rw [List.head?_append_of_ne_nil _ (List.ne_nil_of_mem (List.mem_of_getLast? last))] at first
    exact doubly.first head first
  · refine List.isChain_append.mpr ⟨doubly.others, .singleton _, ?_⟩
    intro block ends next begins
    obtain rfl := Option.some.inj (last.symm.trans ends)
    obtain rfl := Option.some.inj begins
    rfl

theorem ordered_found (ordered : Ordered blocks unit)
    (loop : findRoom (align size) unit malloc blocks.before blocks.current blocks.after = (found, room)) :
    Ordered found unit ∧
      (room = true → wrap64 (found.current.offset + align size) ≤ found.current.capacity) := by
  have doubly : Doubly (backLinks found.chain) := by
    have linked_ := findRoom_links (align size) unit malloc blocks.before blocks.current blocks.after
    rw [loop] at linked_
    rcases linked_ with same | ⟨address, last, ends, more⟩
    · exact same ▸ ordered.doubly
    · exact more ▸ doubly_linked ordered.doubly ends
  have where_ : RoomFound (align size) unit malloc blocks (found, room) :=
    loop ▸ findRoom_cases ordered.idle
  cases where_ with
  | here _ _ same _ later _ _ fits =>
    exact ⟨⟨doubly, fun block member => ordered.sound block (same ▸ member),
      fun block member => ordered.idle block (later.subset member), ordered.unitWhole,
      ordered.unitFits⟩, fun _ => fits⟩
  | exhausted _ same atEnd _ =>
    exact ⟨⟨doubly, fun block member => ordered.sound block (same ▸ member), by simp [atEnd],
      ordered.unitWhole, ordered.unitFits⟩, nofun⟩
  | added address id prev _ _ =>
    have capacity := align_nextSize ordered.unitWhole ordered.unitFits size
    refine ⟨⟨doubly, ?_, by simp, ordered.unitWhole, ordered.unitFits⟩, fun _ => ?_⟩
    · intro block member
      simp only [chain_mk, List.mem_append, List.mem_singleton] at member
      rcases member with old | rfl
      · exact ordered.sound block old
      · exact ⟨Nat.dvd_zero 16, Nat.zero_le _, align_dvd _, capacity.symm ▸ Nat.le_max_right _ _⟩
    · simp only [Nat.zero_add]
      rw [capacity, wrap64_of_lt (align_lt size)]
      exact Nat.le_max_left _ _

/-- Handing out more of `current`, within its capacity. -/
theorem ordered_bump (ordered : Ordered blocks unit) (whole : 16 ∣ offset)
    (fits : offset ≤ blocks.current.capacity) :
    Ordered { blocks with current := { blocks.current with offset } } unit := by
  have current := ordered.sound _ (current_mem_chain blocks)
  have links : backLinks (Blocks.chain { blocks with current := { blocks.current with offset } }) =
      backLinks blocks.chain := by simp [Blocks.chain, backLinks]
  refine ⟨links ▸ ordered.doubly, ?_, ordered.idle, ordered.unitWhole, ordered.unitFits⟩
  intro block member
  simp only [chain_mk, List.mem_append, List.mem_cons] at member
  rcases member with old | rfl | old
  · exact ordered.sound block (by simp [Blocks.chain, old])
  · exact ⟨whole, fits, current.whole, current.large⟩
  · exact ordered.sound block (mem_chain_of_after old)

theorem ordered_alloc (ordered : Ordered arena.blocks arena.blockSize)
    (ran : arenaAlloc arena size malloc = some (next, pointer)) : Ordered next.blocks next.blockSize := by
  obtain ⟨_, found, room, loop, outcome⟩ := arenaAllocateRaw_cases ran
  obtain ⟨orderedFound, fits⟩ := ordered_found ordered loop
  rcases outcome with ⟨_, _, rfl⟩ | ⟨granted, _, rfl⟩
  · exact orderedFound
  · have handed := (orderedFound.sound _ (current_mem_chain found)).handedWhole
    exact ordered_bump orderedFound (wrap64_dvd handed (align_dvd size)) (fits granted)

/-! ## The other calls -/

private theorem shred_leaves (request : Bool) (block : ArenaBlock) :
    LeavesHeader (internalBlockShred request) block := by
  cases request
  · exact ⟨rfl, rfl, rfl, .inl rfl⟩
  · exact ⟨rfl, rfl, rfl, .inr rfl⟩

private theorem shredAmong_leaves (targets : List Nat) (request : Bool) (block : ArenaBlock) :
    LeavesHeader (shredAmong targets request) block := by
  by_cases target : block.address ∈ targets
  · have leaves := shred_leaves request block
    have same : shredAmong targets request block = internalBlockShred request block := if_pos target
    exact ⟨same ▸ leaves.address, same ▸ leaves.prev, same ▸ leaves.capacity, same ▸ leaves.offset⟩
  · constructor <;> simp [shredAmong, target]

private theorem write_leaves (pointer : Pointer) (bytes : List UInt8) (block : ArenaBlock) :
    LeavesHeader (fun block =>
      if block.address = pointer.block then
        { block with data := writeBytes block.data pointer.offset bytes }
      else block) block := by
  by_cases there : block.address = pointer.block <;> constructor <;> simp [there]

theorem ordered_write {arena : Arena} (ordered : Ordered arena.blocks unit) (pointer : Pointer)
    (bytes : List UInt8) : Ordered (arena.write pointer bytes).blocks unit :=
  ordered_map ordered (write_leaves pointer bytes)

theorem ordered_emptied (ordered : Ordered blocks unit) :
    Ordered (blocks.map (internalBlockShred true)).rewind unit := by
  refine ordered_rewind (ordered_map ordered (shred_leaves true)) ?_
  intro shredded member
  rw [chain_map] at member
  obtain ⟨block, _, rfl⟩ := List.mem_map.mp member
  rfl

/-- What one call leaves in order. -/
theorem ordered_step (once : Once arena.blocks.chain) (ordered : Ordered arena.blocks arena.blockSize)
    (taken : ArenaCalls.step arena call = some next) : Ordered next.blocks next.blockSize := by
  cases ArenaCalls.step_taken taken with
  | allocated _ ran | refused _ ran => exact ordered_alloc ordered ran
  | copied _ ran => exact ordered_write (ordered_alloc ordered ran) _ _
  | @shredded request id _ =>
    show Ordered (internalArenaShred arena.blocks id request).1 arena.blockSize
    rw [internalArenaShred_eq once]
    exact ordered_map ordered (shredAmong_leaves _ request)
  | emptied _ => exact ordered_emptied ordered
  | nothing | fd | dbConnection _ | resources _ => exact ordered
  | stored => exact ordered_write ordered _ _

theorem ordered_init (made : arenaInit blockSize room malloc = some arena) :
    Ordered arena.blocks arena.blockSize := by
  unfold arenaInit at made
  split at made
  case isTrue =>
    obtain ⟨head, new, rfl⟩ := Option.map_eq_some_iff.mp made
    obtain ⟨address, _, rfl⟩ := Option.map_eq_some_iff.mp new
    have whole := align_dvd (if blockSize < 1 then sizeBlockDefault else blockSize)
    have fits := align_lt (if blockSize < 1 then sizeBlockDefault else blockSize)
    refine ⟨⟨?_, .singleton _⟩, ?_, by simp, whole, fits⟩
    · intro head first
      obtain rfl := Option.some.inj first
      rfl
    · intro block member
      obtain rfl := List.mem_singleton.mp member
      exact ⟨Nat.dvd_zero 16, Nat.zero_le _, align_dvd _, Nat.le_of_eq (align_of_dvd whole fits).symm⟩
  case isFalse => cases made

/-! ## In memory -/

/-- From each block of a list on, the links of memory lead through the rest of it. -/
theorem walk_cells (once : Once (before ++ rest)) :
    Walk (cellAt (cells (before ++ rest))) Cell.next (pointerTo rest none) (cells rest) := by
  induction rest generalizing before with
  | nil => exact .null
  | cons block rest ih =>
    have joined : before ++ block :: rest = (before ++ [block]) ++ rest := by simp
    refine .node (cellAt_cells once) ?_
    rw [joined] at once ⊢
    exact ih once

private theorem cellAt_named (memory : List Cell) (address : Nat) (cell : Cell)
    (found : cellAt memory address = some cell) : cell.block.address = address := by
  have here : isAt address cell = true := List.find?_some found
  exact of_decide_eq_true here

private theorem mem_chain (member : cell ∈ cells chain) : cell.block ∈ chain := by
  have block : cell.block ∈ (cells chain).map Cell.block := List.mem_map_of_mem member
  rwa [cells, cellsTo_blocks] at block

/-- A list of blocks in order is in order in memory. -/
theorem inOrder_linked {arena : Arena} (once : Once arena.blocks.chain)
    (ordered : Ordered arena.blocks arena.blockSize) :
    InOrder (linked arena) (cellsTo arena.blocks.before (some arena.blocks.current.address))
      ⟨arena.blocks.current, pointerTo arena.blocks.after none⟩ (cells arena.blocks.after) := by
  have complete : (linked arena).memory =
      cellsTo arena.blocks.before (some arena.blocks.current.address) ++
        ⟨arena.blocks.current, pointerTo arena.blocks.after none⟩ :: cells arena.blocks.after :=
    cellsTo_append arena.blocks.before (arena.blocks.current :: arena.blocks.after) none
  have whole : Once ([] ++ arena.blocks.chain) := once
  have walk : Walk (cellAt (linked arena).memory) Cell.next (some (linked arena).head)
      (linked arena).memory := by
    have walk := walk_cells whole
    rwa [pointerTo_chain] at walk
  have blocks : (linked arena).memory.map Cell.block = arena.blocks.chain := memory_blocks arena
  have back : (linked arena).memory.IsChain fun cell following =>
      following.block.prev = some cell.block.address := by
    have chain := ordered.doubly.others
    rwa [backLinks, ← blocks, List.map_map, List.isChain_map] at chain
  refine ⟨?_, ?_, complete, cellAt_cells once, ?_, fun cell member next link => ?_,
    fun cell member => ordered.sound _ (mem_chain member),
    fun cell member => ordered.idle _ (mem_chain member)⟩
  · rw [← complete]
    exact walk
  · rw [← complete]
    exact walk_addresses_nodup (cellAt_named _) walk
  · obtain ⟨head, first, found⟩ := walk_head walk
    refine ⟨head, found, ordered.doubly.first (head.block.address, head.block.prev) ?_⟩
    rw [backLinks, ← blocks, List.map_map, List.head?_map, first]
    rfl
  · exact walk_neighbours walk back member link

/-- As many turns as there are blocks behind `current` take the loop to the last one. -/
theorem endsWithin_linked {arena : Arena} (once : Once arena.blocks.chain) :
    EndsWithin (linked arena) (arena.blocks.after.length + 1) := by
  intro size malloc
  obtain ⟨new, loop, _⟩ : ∃ new, roomLoop (align size) arena.blockSize malloc
      (arena.blocks.after.length + 1) (cells arena.blocks.chain) arena.blocks.current.address = _ ∧ _ :=
    roomLoop_cells once (Nat.lt_succ_self _)
  exact ⟨_, fun turns enough => roomLoop_more loop enough⟩

/-! ## Every run -/

/-- Between calls the blocks of the list are in order, and in memory as the list says. -/
def Kept (state : LinkedArena) : Prop :=
  ∃ arena, state = linked arena ∧ Once arena.blocks.chain ∧ Ordered arena.blocks arena.blockSize

theorem kept_init (made : init blockSize malloc = some state) : Kept state := by
  rw [init_linked] at made
  obtain ⟨arena, fresh, rfl⟩ := Option.map_eq_some_iff.mp made
  refine ⟨arena, rfl, ?_, ordered_init fresh⟩
  obtain ⟨head, _, rfl⟩ := Option.map_eq_some_iff.mp fresh
  exact List.nodup_singleton _

theorem kept_step (kept : Kept state) (taken : step state call = some next) : Kept next := by
  obtain ⟨arena, rfl, once, ordered⟩ := kept
  rw [step_linked once] at taken
  obtain ⟨after, ran, rfl⟩ := Option.map_eq_some_iff.mp taken
  exact ⟨after, rfl, once_step once ran, ordered_step once ordered ran⟩

/-- Whatever has been done with an arena, its blocks are in order, and the loop of the next
allocation ends after as many turns as there are blocks behind `current` and one more. -/
theorem reached_in_order (made : init blockSize malloc = some first)
    (ran : exec step first calls = some state) :
    ∃ before current after, InOrder state before current after ∧
      EndsWithin state (after.length + 1) := by
  have kept : Kept state :=
    exec_invariant (fun _ _ _ kept taken => kept_step kept taken) (kept_init made) ran
  obtain ⟨arena, rfl, once, ordered⟩ := kept
  have ends : EndsWithin (linked arena) ((cells arena.blocks.after).length + 1) := by
    rw [cells_length]
    exact endsWithin_linked once
  exact ⟨_, _, _, inOrder_linked once ordered, ends⟩

/-- Three blocks, the second shredded on its own, all shredded where they are, and a reset
before the last request. -/
theorem three_blocks_in_order :
    ∃ first state before current after, init 16 (some 4096) = some first ∧
      exec step first [.alloc 16 (some 8192), .alloc 40 (some 8192), .alloc 16 (some 16384),
        .shred 1 true, .shred arenaIdEntire true, .reset, .alloc 32 none] = some state ∧
      InOrder state before current after ∧ EndsWithin state (after.length + 1) ∧
      state.current = 8192 ∧ state.memory.length = 3 := by
  obtain ⟨first, made⟩ : ∃ first, init 16 (some 4096) = some first := ⟨_, rfl⟩
  obtain ⟨state, ran, current, length⟩ : ∃ state,
      exec step first [.alloc 16 (some 8192), .alloc 40 (some 8192), .alloc 16 (some 16384),
        .shred 1 true, .shred arenaIdEntire true, .reset, .alloc 32 none] = some state ∧
        state.current = 8192 ∧ state.memory.length = 3 := by
    obtain rfl := Option.some.inj made
    exact ⟨_, rfl, rfl, rfl⟩
  obtain ⟨before, cell, after, order, ends⟩ := reached_in_order made ran
  exact ⟨first, state, before, cell, after, made, ran, order, ends, current, length⟩

end ShapeQuake.ArenaShape
