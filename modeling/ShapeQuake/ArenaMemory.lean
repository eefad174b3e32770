import ShapeQuake.ArenaContents

/-! Bytes stored in what an arena has handed out stay there: an allocation hands out
other memory, zeroed, and a store changes no bytes but its own. -/
namespace ShapeQuake.ArenaMemory
open Library.Bytes Library.Spans Allocator AllocatorInvariants ArenaContents

/-- An arena between two calls, with nothing but zeros behind what it handed out. -/
structure Ready (arena : Arena) : Prop where
  formed : WellFormed arena.blocks arena.blockSize
  unlocked : arena.mutex = false
  clean : ∀ block ∈ arena.blocks.chain, Clean block

/-- The request gets its memory: no sum wraps, and `malloc` keeps to its contract
and answers if it is asked. -/
def Served (arena : Arena) (size : Nat) (malloc : Option Nat) : Prop :=
  Grantable arena.blocks arena.blockSize size malloc ∧
    ∃ next pointer, arenaAlloc arena size malloc = some (next, some pointer)

/-- So many bytes from there on have been handed out. -/
def Room (arena : Arena) (pointer : Pointer) (count : Nat) : Prop :=
  ∃ block ∈ arena.blocks.chain, block.address = pointer.block ∧ pointer.offset + count ≤ block.offset

/-- These bytes are there, in what has been handed out. -/
def Holds (arena : Arena) (pointer : Pointer) (bytes : List UInt8) : Prop :=
  ∃ block ∈ arena.blocks.chain, block.address = pointer.block ∧
    pointer.offset + bytes.length ≤ block.offset ∧
    readBytes block.data pointer.offset bytes.length = bytes

/-- Two pieces of memory share no byte. -/
def Clear (first : Pointer) (count : Nat) (second : Pointer) (size : Nat) : Prop :=
  first.block = second.block →
    first.offset + count ≤ second.offset ∨ second.offset + size ≤ first.offset

theorem room_of_holds (held : Holds arena pointer bytes) : Room arena pointer bytes.length := by
  obtain ⟨block, member, address, below, _⟩ := held
  exact ⟨block, member, address, below⟩

theorem holds_of_room (room : Room arena pointer count) :
    ∃ bytes, bytes.length = count ∧ Holds arena pointer bytes := by
  obtain ⟨block, member, address, below⟩ := room
  refine ⟨readBytes block.data pointer.offset count, readBytes_length _ _ _, block, member, address, ?_, ?_⟩
  · rwa [readBytes_length]
  · rw [readBytes_length]

/-- A part of what is held is held. -/
theorem holds_part (held : Holds arena pointer (first ++ bytes ++ last)) :
    Holds arena { pointer with offset := pointer.offset + first.length } bytes := by
  obtain ⟨block, member, address, below, same⟩ := held
  simp only [List.length_append] at below same
  refine ⟨block, member, address, by simp only; omega, ?_⟩
  rw [readBytes_append, readBytes_append] at same
  have front := (List.append_inj same (by simp)).1
  exact (List.append_inj front (by simp)).2

/-- Every part of zeroed memory is zeroed. -/
theorem holds_zeros (zeroed : Holds arena pointer (List.replicate size 0)) (inside : offset + width ≤ size) :
    Holds arena { pointer with offset := pointer.offset + offset } (List.replicate width 0) := by
  have parts : List.replicate size (0 : UInt8) = List.replicate offset 0 ++ List.replicate width 0 ++
      List.replicate (size - (offset + width)) 0 := by
    rw [← List.replicate_add, ← List.replicate_add]
    congr 1
    omega
  rw [parts] at zeroed
  have held := holds_part zeroed
  rwa [List.length_replicate] at held

/-- Where a request found its memory. -/
theorem alloc_found (ready : Ready arena) (grantable : Grantable arena.blocks arena.blockSize size malloc)
    (ran : arenaAlloc arena size malloc = some (next, some pointer)) :
    ∃ found : Blocks, WellFormed found arena.blockSize ∧
      (∀ block ∈ arena.blocks.chain, block ∈ found.chain) ∧ (∀ block ∈ found.chain, Clean block) ∧
      found.current.offset + align size ≤ found.current.capacity ∧
      pointer = ⟨found.current.address, found.current.offset⟩ ∧
      next = { arena with
        blocks := { found with
          current := { found.current with offset := found.current.offset + align size } }
        isReset := false } := by
  obtain ⟨found, where_, formed, granted⟩ := alloc_granted ready.formed grantable ran
  obtain ⟨fits, _⟩ := granted
  refine ⟨found, formed, ?_, ?_, fits, rfl, rfl⟩
  · intro block member
    cases where_ with
    | here _ _ chain _ _ _ _ _ => exact chain ▸ member
    | added _ _ _ _ _ => exact List.mem_append_left _ member
  · intro block member
    cases where_ with
    | here _ _ chain _ _ _ _ _ => exact ready.clean block (chain ▸ member)
    | added _ _ _ _ _ =>
      rcases List.mem_append.mp member with old | new
      · exact ready.clean block old
      · obtain rfl := List.mem_singleton.mp new
        exact fun _ _ _ => rfl

/-- An allocation leaves what is held, and gives zeroed memory behind all of it. -/
theorem alloc_holds (ready : Ready arena) (grantable : Grantable arena.blocks arena.blockSize size malloc)
    (ran : arenaAlloc arena size malloc = some (next, some pointer)) :
    Ready next ∧ Holds next pointer (List.replicate size 0) ∧
      ∀ older bytes, Holds arena older bytes → Holds next older bytes ∧
        (older.block = pointer.block → older.offset + bytes.length ≤ pointer.offset) := by
  obtain ⟨found, formed, kept, clean, fits, rfl, rfl⟩ := alloc_found ready grantable ran
  have current := formed.placed _ (current_mem_chain found)
  have enough := align_le grantable.1
  have whole := Nat.dvd_add current.handedWhole (align_dvd size)
  refine ⟨⟨wellFormed_bump formed whole fits, ready.unlocked, ?_⟩, ?_, ?_⟩
  · intro block member
    simp only [chain_mk, List.mem_append, List.mem_cons] at member
    rcases member with old | rfl | old
    · exact clean block (by simp [Blocks.chain, old])
    · exact fun i behind inside => clean _ (current_mem_chain found) i
        (Nat.le_trans (Nat.le_add_right _ _) behind) inside
    · exact clean block (mem_chain_of_after old)
  · refine ⟨_, current_mem_chain _, rfl, ?_, ?_⟩
    · rw [List.length_replicate]
      exact Nat.add_le_add_left enough _
    · refine readBytes_eq fun i held => ?_
      rw [List.length_replicate] at held
      have zero := clean _ (current_mem_chain found) (found.current.offset + i) (Nat.le_add_right _ _)
        (by omega)
      simpa [held] using zero
  · rintro older bytes ⟨block, member, address, below, same⟩
    have old := kept block member
    by_cases here : block.address = found.current.address
    · obtain rfl : block = found.current := same_block formed old (current_mem_chain found) here
      exact ⟨⟨_, current_mem_chain _, address, Nat.le_trans below (Nat.le_add_right _ _), same⟩,
        fun _ => below⟩
    · refine ⟨⟨block, ?_, address, below, same⟩, fun other => absurd (address.trans other) here⟩
      simp only [Blocks.chain, List.mem_append, List.mem_cons] at old ⊢
      rcases old with before | rfl | after
      · exact .inl before
      · exact absurd rfl here
      · exact .inr (.inr after)

/-- A store into what was handed out puts its bytes there and leaves all others. -/
theorem write_holds (ready : Ready arena) (room : Room arena pointer bytes.length) :
    Ready (arena.write pointer bytes) ∧ Holds (arena.write pointer bytes) pointer bytes ∧
      ∀ older kept, Holds arena older kept → Clear older kept.length pointer bytes.length →
        Holds (arena.write pointer bytes) older kept := by
  obtain ⟨target, here, start, inside⟩ := room
  have chain : (arena.write pointer bytes).blocks.chain =
      arena.blocks.chain.map (storedIn pointer.block pointer.offset bytes) := chain_map _ _
  have stored (block : ArenaBlock) (member : block ∈ arena.blocks.chain) :
      storedIn pointer.block pointer.offset bytes block ∈ (arena.write pointer bytes).blocks.chain := by
    rw [chain]
    exact List.mem_map_of_mem member
  have there : storedIn pointer.block pointer.offset bytes target =
      { target with data := writeBytes target.data pointer.offset bytes } := if_pos start
  refine ⟨⟨wellFormed_write ready.formed pointer bytes, ready.unlocked, ?_⟩, ?_, ?_⟩
  · intro block member
    rw [chain] at member
    obtain ⟨old, held, rfl⟩ := List.mem_map.mp member
    by_cases same : old.address = pointer.block
    · obtain rfl : old = target := same_block ready.formed held here (same.trans start.symm)
      rw [there]
      intro i behind within
      simp only at behind within ⊢
      rw [writeBytes_outside (.inr (Nat.le_trans inside behind))]
      exact ready.clean old held i behind within
    · rw [storedIn, if_neg same]
      exact ready.clean old held
  · refine ⟨_, stored target here, ?_⟩
    rw [there]
    exact ⟨start, inside, readBytes_written _ _ _⟩
  · rintro older kept ⟨block, member, address, below, same⟩ clear
    refine ⟨_, stored block member, ?_⟩
    by_cases sameBlock : block.address = pointer.block
    · obtain rfl : block = target := same_block ready.formed member here (sameBlock.trans start.symm)
      rw [there]
      refine ⟨address, below, ?_⟩
      rw [readBytes_writeBytes_apart (clear (address.symm.trans sameBlock))]
      exact same
    · rw [storedIn, if_neg sameBlock]
      exact ⟨address, below, same⟩

/-- The address of what is handed out is one the memory has, and no null. -/
theorem address_bounds (ready : Ready arena) (room : Room arena pointer count) :
    0 < pointer.address ∧ pointer.address + count < 2 ^ 64 + 1 := by
  obtain ⟨block, member, address, below⟩ := room
  have placed := ready.formed.placed block member
  have inMemory := placed.inMemory
  have handed := placed.handed
  simp only [Pointer.address, sizeofArenaBlock] at *
  omega

end ShapeQuake.ArenaMemory
