import ShapeQuake.Allocator

/-! What holds of an arena between calls: its blocks lie apart in memory, each
hands out whole multiples of sixteen bytes, and the blocks behind `current` are
empty. Every operation whose sums do not wrap keeps this. -/
namespace ShapeQuake.AllocatorInvariants
open Library.Bytes Library.Spans Allocator

/-- A block lies aligned in memory and has handed out no more than it has. -/
structure WellPlaced (block : ArenaBlock) : Prop where
  aligned : 16 ∣ block.address
  inMemory : block.address + (sizeofArenaBlock + block.capacity) ≤ 2 ^ 64
  whole : 16 ∣ block.capacity
  handedWhole : 16 ∣ block.offset
  handed : block.offset ≤ block.capacity

/-- The blocks of an arena between calls. That those behind `current` are empty
is what makes moving on to one of them harmless. -/
structure WellFormed (blocks : Blocks) (blockSize : Nat) : Prop where
  placed : ∀ block ∈ blocks.chain, WellPlaced block
  apart : (blocks.chain.map ArenaBlock.span).Pairwise Apart
  idle : ∀ block ∈ blocks.after, block.offset = 0
  unitWhole : 16 ∣ blockSize
  unitFits : blockSize < 2 ^ 64

/-- An address that `malloc` may answer with: aligned, and the memory from there
on is free of the blocks there are. -/
def MallocAnswers (chain : List ArenaBlock) (size address : Nat) : Prop :=
  16 ∣ address ∧ address + size ≤ 2 ^ 64 ∧ ∀ block ∈ chain, Apart ⟨address, size⟩ block.span

instance : Decidable (MallocAnswers chain size address) :=
  inferInstanceAs (Decidable (_ ∧ _))

/-- The rounding, the header addition and the offset sum of a request do not
wrap, and `malloc` keeps to its contract. -/
def Grantable (blocks : Blocks) (blockSize size : Nat) (malloc : Option Nat) : Prop :=
  size + 15 < 2 ^ 64 ∧ sizeofArenaBlock + align (max (align size) blockSize) < 2 ^ 64 ∧
    blocks.current.offset + align size < 2 ^ 64 ∧
    ∀ address ∈ malloc,
      MallocAnswers blocks.chain (totalSize (max (align size) blockSize)) address

instance : Decidable (Grantable blocks blockSize size malloc) :=
  inferInstanceAs (Decidable (_ ∧ _))

/-! ## Sizes and blocks -/

theorem align_dvd (size : Nat) : 16 ∣ align size := roundUp16_dvd size

theorem align_le (small : size + 15 < 2 ^ 64) : size ≤ align size := roundUp16_le small

theorem align_lt (size : Nat) : align size < 2 ^ 64 :=
  Nat.lt_of_le_of_lt Nat.and_le_right (Nat.sub_lt (Nat.two_pow_pos 64) (Nat.succ_pos 15))

theorem align_of_dvd (whole : 16 ∣ size) (fits : size < 2 ^ 64) : align size = size :=
  roundUp16_of_dvd whole (by omega)

theorem totalSize_of_fits (fits : sizeofArenaBlock + align size < 2 ^ 64) :
    totalSize size = sizeofArenaBlock + align size := by
  rw [totalSize, align_sizeofArenaBlock]
  exact wrap64_of_lt fits

/-- A new block's capacity is the larger of the request and the arena's unit. -/
theorem align_nextSize (unitWhole : 16 ∣ blockSize) (unitFits : blockSize < 2 ^ 64) (size : Nat) :
    align (max (align size) blockSize) = max (align size) blockSize := by
  have request := align_dvd size
  have small := align_lt size
  exact align_of_dvd (by omega) (by omega)

theorem newBlock_capacity (formed : WellFormed blocks blockSize) (size : Nat) :
    align (max (align size) blockSize) = max (align size) blockSize :=
  align_nextSize formed.unitWhole formed.unitFits size

theorem span_size_pos (block : ArenaBlock) : 0 < block.span.size :=
  Nat.add_pos_left (by decide) block.capacity

private theorem chain_apart (formed : WellFormed blocks blockSize) (first : block ∈ blocks.chain)
    (second : other ∈ blocks.chain) (different : block ≠ other) : Apart block.span other.span := by
  have : Std.Symm fun first second : ArenaBlock => Apart first.span second.span :=
    ⟨fun _ _ => apart_symm⟩
  exact (List.pairwise_map.mp formed.apart).forall first second different

/-- Two blocks at one address are the same block. -/
theorem same_block (formed : WellFormed blocks blockSize) (first : block ∈ blocks.chain)
    (second : other ∈ blocks.chain) (same : block.address = other.address) : block = other := by
  by_contra different
  exact start_ne_of_apart (chain_apart formed first second different) (span_size_pos block)
    (span_size_pos other) same

/-- Blocks at different addresses share none. -/
theorem blocks_apart (formed : WellFormed blocks blockSize) (first : block ∈ blocks.chain)
    (second : other ∈ blocks.chain) (different : block.address ≠ other.address) :
    Apart block.span other.span :=
  chain_apart formed first second fun same => different (congrArg ArenaBlock.address same)

/-- Each address occurs once in the chain. -/
theorem addresses_nodup (formed : WellFormed blocks blockSize) :
    (blocks.chain.map ArenaBlock.address).Nodup := by
  apply List.pairwise_map.mpr
  apply (List.pairwise_map.mp formed.apart).imp
  intro first second apart
  exact start_ne_of_apart apart (span_size_pos first) (span_size_pos second)

/-! ## Allocating -/

/-- The block size an arena works with. -/
def workingBlockSize (blockSize : Nat) : Nat :=
  align (if blockSize < 1 then sizeBlockDefault else blockSize)

/-- The sums of `arena_init` do not wrap and `malloc` keeps to its contract. -/
def Initial (blockSize address : Nat) : Prop :=
  blockSize + 15 < 2 ^ 64 ∧ sizeofArenaBlock + workingBlockSize blockSize < 2 ^ 64 ∧
    MallocAnswers [] (totalSize (workingBlockSize blockSize)) address

instance : Decidable (Initial blockSize address) := inferInstanceAs (Decidable (_ ∧ _))

theorem wellFormed_init (initial : Initial blockSize address)
    (made : arenaInit blockSize true (some address) = some arena) :
    WellFormed arena.blocks arena.blockSize := by
  obtain ⟨_, header, aligned, inMemory, _⟩ := initial
  obtain rfl := Option.some.inj made
  have whole : 16 ∣ workingBlockSize blockSize := align_dvd _
  have capacity : align (workingBlockSize blockSize) = workingBlockSize blockSize :=
    align_of_dvd whole (by omega)
  rw [totalSize_of_fits (by rwa [capacity])] at inMemory
  refine ⟨?_, by simp, by simp, whole, align_lt _⟩
  intro block member
  obtain rfl := List.mem_singleton.mp member
  exact ⟨aligned, inMemory, align_dvd _, Nat.dvd_zero 16, Nat.zero_le _⟩

/-- Wherever the loop of an allocation ends, the blocks are as they must be, and
where it ends with room the request fits without a wrapped sum. -/
theorem wellFormed_found (formed : WellFormed blocks blockSize)
    (grantable : Grantable blocks blockSize size malloc)
    (found : RoomFound (align size) blockSize malloc blocks (next, room)) :
    WellFormed next blockSize ∧
      (room = true → next.current.offset + align size ≤ next.current.capacity) := by
  obtain ⟨_, header, sum, answers⟩ := grantable
  cases found with
  | here _ _ same _ later place _ fits =>
    have noWrap : next.current.offset + align size < 2 ^ 64 := by
      rcases place with rfl | member
      · exact sum
      · rw [formed.idle _ member, Nat.zero_add]
        exact align_lt size
    rw [wrap64_of_lt noWrap] at fits
    exact ⟨⟨fun block member => formed.placed block (same ▸ member), same ▸ formed.apart,
      fun block member => formed.idle block (later.subset member), formed.unitWhole,
      formed.unitFits⟩, fun _ => fits⟩
  | added address id prev answered _ =>
    obtain ⟨aligned, inMemory, free⟩ := answers address answered
    rw [totalSize_of_fits header] at inMemory free
    refine ⟨⟨?_, ?_, by simp, formed.unitWhole, formed.unitFits⟩, fun _ => ?_⟩
    · intro block member
      simp only [chain_mk, List.mem_append, List.mem_singleton] at member
      rcases member with old | rfl
      · exact formed.placed block old
      · exact ⟨aligned, inMemory, align_dvd _, Nat.dvd_zero 16, Nat.zero_le _⟩
    · rw [chain_mk, List.map_append, List.pairwise_append]
      refine ⟨formed.apart, List.pairwise_singleton _ _, ?_⟩
      intro span member other last
      obtain ⟨block, held, rfl⟩ := List.mem_map.mp member
      rw [List.map_singleton, List.mem_singleton] at last
      exact last ▸ apart_symm (free block held)
    · simp only [Nat.zero_add]
      rw [newBlock_capacity formed]
      exact Nat.le_max_left _ _
  | exhausted _ same atEnd refused =>
    exact ⟨⟨fun block member => formed.placed block (same ▸ member), same ▸ formed.apart,
      by simp [atEnd], formed.unitWhole, formed.unitFits⟩, nofun⟩

/-- Handing out more of `current`, within its capacity. -/
theorem wellFormed_bump (formed : WellFormed blocks blockSize)
    (whole : 16 ∣ offset) (fits : offset ≤ blocks.current.capacity) :
    WellFormed { blocks with current := { blocks.current with offset } } blockSize := by
  have current := formed.placed _ (current_mem_chain blocks)
  refine ⟨?_, ?_, formed.idle, formed.unitWhole, formed.unitFits⟩
  · intro block member
    simp only [chain_mk, List.mem_append, List.mem_cons] at member
    rcases member with old | rfl | old
    · exact formed.placed block (by simp [Blocks.chain, old])
    · exact ⟨current.aligned, current.inMemory, current.whole, whole, fits⟩
    · exact formed.placed block (mem_chain_of_after old)
  · simpa [Blocks.chain, ArenaBlock.span] using formed.apart

/-- How an allocation ends at the blocks it found: it hands out the end of `current`,
or has no room and keeps the lock. -/
inductive Granted (arena : Arena) (size : Nat) (found : Blocks) : Arena → Option Pointer → Prop
  | handed (fits : found.current.offset + align size ≤ found.current.capacity)
      (formed : WellFormed { found with
        current := { found.current with offset := found.current.offset + align size } }
        arena.blockSize) :
      Granted arena size found
        { arena with
          blocks := { found with
            current := { found.current with offset := found.current.offset + align size } }
          isReset := false }
        (some ⟨found.current.address, found.current.offset⟩)
  | refused : Granted arena size found { arena with mutex := true, blocks := found } none

/-- An allocation in an arena that is in order. -/
theorem alloc_granted (formed : WellFormed arena.blocks arena.blockSize)
    (grantable : Grantable arena.blocks arena.blockSize size malloc)
    (ran : arenaAlloc arena size malloc = some (next, pointer)) :
    ∃ found, RoomFound (align size) arena.blockSize malloc arena.blocks (found, pointer.isSome) ∧
      WellFormed found arena.blockSize ∧ Granted arena size found next pointer := by
  obtain ⟨_, found, room, loop, outcome⟩ := arenaAllocateRaw_cases ran
  have where_ : RoomFound (align size) arena.blockSize malloc arena.blocks (found, room) :=
    loop ▸ findRoom_cases formed.idle
  obtain ⟨formedFound, fits⟩ := wellFormed_found formed grantable where_
  rcases outcome with ⟨rfl, rfl, rfl⟩ | ⟨rfl, rfl, rfl⟩
  · exact ⟨found, where_, formedFound, .refused⟩
  · have current := formedFound.placed _ (current_mem_chain found)
    have inMemory := current.inMemory
    have noWrap : wrap64 (found.current.offset + align size) = found.current.offset + align size :=
      wrap64_of_lt (by have := fits rfl; simp only [sizeofArenaBlock] at inMemory; omega)
    rw [noWrap]
    have bumped := wellFormed_bump formedFound (Nat.dvd_add current.handedWhole (align_dvd size)) (fits rfl)
    exact ⟨found, where_, formedFound, .handed (fits rfl) bumped⟩

/-! ## Shredding and writing -/

/-- A change to each block that leaves it where it is and at most empties it. -/
theorem wellFormed_map (formed : WellFormed blocks blockSize) {change : ArenaBlock → ArenaBlock}
    (place : ∀ block, (change block).span = block.span)
    (handed : ∀ block, (change block).offset = block.offset ∨ (change block).offset = 0) :
    WellFormed (blocks.map change) blockSize := by
  refine ⟨?_, ?_, ?_, formed.unitWhole, formed.unitFits⟩
  · intro changed member
    rw [chain_map] at member
    obtain ⟨block, held, rfl⟩ := List.mem_map.mp member
    have sound := formed.placed block held
    have address : (change block).address = block.address := congrArg Span.start (place block)
    have capacity : (change block).capacity = block.capacity :=
      Nat.add_left_cancel (congrArg Span.size (place block))
    refine ⟨address ▸ sound.aligned, by rw [address, capacity]; exact sound.inMemory,
      capacity ▸ sound.whole, ?_, ?_⟩
    · rcases handed block with same | empty
      · exact same ▸ sound.handedWhole
      · exact empty ▸ Nat.dvd_zero 16
    · rcases handed block with same | empty
      · rw [same, capacity]
        exact sound.handed
      · exact empty ▸ Nat.zero_le _
  · have spans : (blocks.map change).chain.map ArenaBlock.span =
        blocks.chain.map ArenaBlock.span := by
      simp [Function.comp_def, place]
    exact spans ▸ formed.apart
  · intro changed member
    obtain ⟨block, held, rfl⟩ := List.mem_map.mp member
    rcases handed block with same | empty
    · exact same.trans (formed.idle block held)
    · exact empty

/-- `current` may go back to `head` once all blocks are empty. -/
theorem wellFormed_rewind (formed : WellFormed blocks blockSize)
    (empty : ∀ block ∈ blocks.chain, block.offset = 0) : WellFormed blocks.rewind blockSize :=
  ⟨fun block member => formed.placed block (rewind_chain blocks ▸ member),
    (rewind_chain blocks).symm ▸ formed.apart,
    fun block member => empty block (rewind_chain blocks ▸ mem_chain_of_after member),
    formed.unitWhole, formed.unitFits⟩

/-- The addresses of the blocks that a shred of this id is about. -/
def shredTargets (blocks : Blocks) (id : Int) : List Nat :=
  if id = arenaIdEntire then blocks.chain.map ArenaBlock.address
  else if id = arenaIdCurrent then [blocks.current.address]
  else (getArena blocks.chain (id % 2 ^ 16).toNat).toList.map ArenaBlock.address

/-- The shred of one block if it is among the targets. -/
def shredAmong (targets : List Nat) (request : Bool) (block : ArenaBlock) : ArenaBlock :=
  if block.address ∈ targets then internalBlockShred request block else block

theorem shredAmong_span (targets : List Nat) (request : Bool) (block : ArenaBlock) :
    (shredAmong targets request block).span = block.span := by
  unfold shredAmong
  split <;> rfl

theorem shredAmong_offset (targets : List Nat) (request : Bool) (block : ArenaBlock) :
    (shredAmong targets request block).offset =
      if request = true ∧ block.address ∈ targets then 0 else block.offset := by
  unfold shredAmong internalBlockShred
  by_cases target : block.address ∈ targets <;> cases request <;> simp [target]

theorem map_congr {blocks : Blocks} {first second : ArenaBlock → ArenaBlock}
    (same : ∀ block ∈ blocks.chain, first block = second block) :
    blocks.map first = blocks.map second := by
  simp only [Blocks.map, Blocks.mk.injEq]
  refine ⟨List.map_congr_left fun block member => ?_, same _ (current_mem_chain blocks),
    List.map_congr_left fun block member => same block (mem_chain_of_after member)⟩
  exact same block (by simp [Blocks.chain, member])

theorem map_unchanged {blocks : Blocks} {change : ArenaBlock → ArenaBlock}
    (same : ∀ block ∈ blocks.chain, change block = block) : blocks.map change = blocks :=
  (map_congr same).trans (by simp [Blocks.map])

/-- A change of no block but the one at the address of `current` is one of `current`. -/
theorem map_current {blocks : Blocks} (once : (blocks.chain.map ArenaBlock.address).Nodup)
    {change : ArenaBlock → ArenaBlock}
    (others : ∀ block, block.address ≠ blocks.current.address → change block = block) :
    blocks.map change = { blocks with current := change blocks.current } := by
  simp only [Blocks.chain, List.map_append, List.map_cons] at once
  have absent := (List.nodup_middle.mp once).notMem
  rw [List.mem_append, not_or] at absent
  simp only [Blocks.map, Blocks.mk.injEq, true_and]
  refine ⟨(List.map_congr_left fun block member => ?_).trans (List.map_id _),
    (List.map_congr_left fun block member => ?_).trans (List.map_id _)⟩
  · exact others block fun same => absent.1 (same ▸ List.mem_map_of_mem member)
  · exact others block fun same => absent.2 (same ▸ List.mem_map_of_mem member)

/-- Whatever id it is given, a shred changes the blocks it is about and no others. -/
theorem internalArenaShred_eq (once : (blocks.chain.map ArenaBlock.address).Nodup) (id : Int)
    (request : Bool) :
    (internalArenaShred blocks id request).1 =
      blocks.map (shredAmong (shredTargets blocks id) request) := by
  unfold internalArenaShred shredTargets
  split
  · apply map_congr
    intro block member
    simp only [shredAmong]
    rw [if_pos (List.mem_map_of_mem member)]
  · split
    · rw [map_current once fun block other => by simp [shredAmong, other]]
      simp [shredAmong]
    · split
      · rename_i target search
        simp only [search, Option.toList_some, List.map_cons, List.map_nil]
        exact map_congr fun block _ => by simp [shredAmong]
      · rename_i search
        simp only [search, Option.toList_none, List.map_nil]
        exact (map_unchanged fun block _ => by simp [shredAmong]).symm

theorem wellFormed_shred (formed : WellFormed blocks blockSize) (id : Int) (request : Bool) :
    WellFormed (internalArenaShred blocks id request).1 blockSize := by
  rw [internalArenaShred_eq (addresses_nodup formed)]
  apply wellFormed_map formed (shredAmong_span _ _)
  intro block
  rw [shredAmong_offset]
  split
  · exact .inr rfl
  · exact .inl rfl

theorem wellFormed_reset (formed : WellFormed blocks blockSize) :
    WellFormed (blocks.map (internalBlockShred true)).rewind blockSize := by
  refine wellFormed_rewind (wellFormed_map formed (internalBlockShred_span true)
    fun _ => .inr rfl) ?_
  intro shredded member
  rw [chain_map] at member
  obtain ⟨block, _, rfl⟩ := List.mem_map.mp member
  rfl

/-- Storing bytes moves no block and hands nothing out. -/
theorem wellFormed_write {arena : Arena} (formed : WellFormed arena.blocks blockSize)
    (pointer : Pointer) (bytes : List UInt8) :
    WellFormed (arena.write pointer bytes).blocks blockSize := by
  refine wellFormed_map formed (fun block => ?_) (fun block => .inl ?_)
  · split <;> rfl
  · split <;> rfl

/-- Storing bytes through a pointer into `current` changes no other block. -/
theorem write_current {arena : Arena} (once : (arena.blocks.chain.map ArenaBlock.address).Nodup)
    (offset : Nat) (bytes : List UInt8) :
    (arena.write ⟨arena.blocks.current.address, offset⟩ bytes).blocks =
      { arena.blocks with
        current := { arena.blocks.current with
          data := writeBytes arena.blocks.current.data offset bytes } } := by
  apply (map_current once fun block other => if_neg other).trans
  simp

end ShapeQuake.AllocatorInvariants
