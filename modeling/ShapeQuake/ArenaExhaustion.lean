import ShapeQuake.Allocator

/-! An arena that runs out of memory. The loop of `arena_allocate_raw` has moved
`current` to the last block, and emptied the blocks it moved to, by the time
`arena_new_block` fails; the exit behind that restores nothing and keeps the
mutex, so the failed call is the last one that takes the lock. -/
namespace ShapeQuake.ArenaExhaustion
open Allocator Library.Bytes

/-- A block as the loop leaves it that moves `current` to it. -/
def emptied (block : ArenaBlock) : ArenaBlock := { block with offset := 0 }

/-- The request fits neither behind what `current` has handed out nor in a block
behind it, each of which the loop empties first: a new block is asked for. -/
def NeedsBlock (arena : Arena) (size : Nat) : Prop :=
  Full (align size) arena.blocks.current ∧
    ∀ block ∈ arena.blocks.after, Full (align size) (emptied block)

/-- Without memory for a block the call returns null, gives the arena back as it
was, and the mutex is free for the next operation. -/
def FailsCleanly (arena : Arena) (size : Nat) : Prop :=
  arenaAlloc arena size none = some (arena, none) ∧ arena.mutex = false

/-- No operation that takes the lock of the arena returns. -/
def Blocked (arena : Arena) : Prop :=
  (∀ size malloc, arenaAlloc arena size malloc = none) ∧
    (∀ bytes malloc, arenaStrdup arena (some bytes) malloc = none) ∧
    arenaReset (some arena) = none ∧ (∀ id request, arenaShred (some arena) id request = none) ∧
    ∀ force, arenaDestroy (some arena) force = none

/-- What the call does instead: null, with `current` at the end of the chain, the
blocks it was moved over emptied, and the arena blocked. -/
def FailsHalfway (arena : Arena) (size : Nat) : Prop :=
  ∃ blocks, arenaAlloc arena size none = some ({ arena with mutex := true, blocks }, none) ∧
    blocks.after = [] ∧
    blocks.chain = arena.blocks.before ++ arena.blocks.current :: arena.blocks.after.map emptied ∧
    Blocked { arena with mutex := true, blocks }

/-- The loop runs to the end of the chain, emptying every block it moves to. -/
theorem findRoom_exhausted (alignedSize blockSize : Nat) (before : List ArenaBlock)
    (full : Full alignedSize current) (rest : ∀ block ∈ after, Full alignedSize (emptied block)) :
    ∃ last, findRoom alignedSize blockSize none before current after = (last, false) ∧
      last.after = [] ∧ last.chain = before ++ current :: after.map emptied := by
  have beyond : wrap64 (current.offset + alignedSize) > current.capacity := full
  induction after generalizing before current with
  | nil =>
    refine ⟨⟨before, current, []⟩, ?_, rfl, rfl⟩
    rw [findRoom, if_pos beyond]
    rfl
  | cons next others ih =>
    obtain ⟨fullNext, fullOthers⟩ := List.forall_mem_cons.mp rest
    obtain ⟨last, ran, atEnd, chain⟩ := ih (before ++ [current]) fullNext fullOthers fullNext
    refine ⟨last, ?_, atEnd, by simpa using chain⟩
    rw [findRoom, if_pos beyond]
    exact ran

/-- The loop ends without room only for want of memory, with every block full. -/
theorem findRoom_refused
    (ran : findRoom alignedSize blockSize malloc before current after = (last, false)) :
    malloc = none ∧ Full alignedSize current ∧ ∀ block ∈ after, Full alignedSize (emptied block) := by
  induction after generalizing before current with
  | nil =>
    simp only [findRoom] at ran
    split at ran
    · rename_i beyond
      cases malloc with
      | none => exact ⟨rfl, beyond, List.forall_mem_nil _⟩
      | some address => cases ran
    · cases ran
  | cons next rest ih =>
    simp only [findRoom] at ran
    split at ran
    · rename_i beyond
      obtain ⟨refused, full, others⟩ := ih ran
      exact ⟨refused, beyond, List.forall_mem_cons.mpr ⟨full, others⟩⟩
    · cases ran

private theorem blocked_of_locked (locked : arena.mutex = true) : Blocked arena := by
  refine ⟨fun size malloc => ?_, fun bytes malloc => ?_, ?_, fun id request => ?_, fun force => ?_⟩
  · simp [arenaAlloc, arenaAllocateRaw, locked]
  · simp [arenaStrdup, arenaAlloc, arenaAllocateRaw, locked]
  · simp [arenaReset, locked]
  · simp [arenaShred, locked]
  · simp [arenaDestroy, locked]

/-- A request that needs a block when there is no memory for one never leaves the
arena as it was: on a free mutex it stops halfway and keeps it. -/
theorem exhausted_never_clean (needs : NeedsBlock arena size) :
    ¬ FailsCleanly arena size ∧ (arena.mutex = false → FailsHalfway arena size) := by
  obtain ⟨blocks, ran, atEnd, chain⟩ :=
    findRoom_exhausted (align size) arena.blockSize arena.blocks.before needs.1 needs.2
  have fails (unlocked : arena.mutex = false) :
      arenaAlloc arena size none = some ({ arena with mutex := true, blocks }, none) := by
    simp only [arenaAlloc, arenaAllocateRaw, unlocked, Bool.false_eq_true, if_false, ran]
  constructor
  · rintro ⟨same, unlocked⟩
    rw [fails unlocked] at same
    have kept : ({ arena with mutex := true, blocks } : Arena) = arena :=
      congrArg Prod.fst (Option.some.inj same)
    have locked : arena.mutex = true := by rw [← kept]
    exact Bool.noConfusion (unlocked.symm.trans locked)
  · exact fun unlocked => ⟨blocks, fails unlocked, atEnd, chain, blocked_of_locked rfl⟩

/-- Two blocks of 16 bytes after a reset, asked for 32. -/
theorem two_blocks_too_small :
    ¬ FailsCleanly ⟨false, ⟨[], ⟨4096, 0, true, none, 0, 16, zeros⟩,
        [⟨8192, 1, true, some 4096, 0, 16, zeros⟩]⟩, 16, false, false, true⟩ 32 ∧
      (false = false → FailsHalfway ⟨false, ⟨[], ⟨4096, 0, true, none, 0, 16, zeros⟩,
        [⟨8192, 1, true, some 4096, 0, 16, zeros⟩]⟩, 16, false, false, true⟩ 32) :=
  exhausted_never_clean ⟨show 16 < wrap64 (0 + align 32) by decide,
    List.forall_mem_singleton.mpr (show 16 < wrap64 (0 + align 32) by decide)⟩

/-- The arena that `arena_init` makes for blocks of 16 bytes, asked for 17 when
there is no memory: the reset the worker makes next waits for ever. -/
theorem exhausted_arena_stays_locked :
    ∃ arena, arenaInit 16 true (some 4096) = some arena ∧ NeedsBlock arena 17 ∧
      ¬ FailsCleanly arena 17 ∧
      ∃ after, arenaAlloc arena 17 none = some (after, none) ∧ arenaReset (some after) = none := by
  refine ⟨_, rfl, ⟨show 16 < wrap64 (0 + align 17) by decide, nofun⟩, fun clean => ?_, _, rfl, rfl⟩
  have released := congrArg (Option.map fun ran => ran.1.mutex) clean.1
  exact absurd released (by decide)

end ShapeQuake.ArenaExhaustion
