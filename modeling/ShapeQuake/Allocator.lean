import ShapeQuake.Library.Bytes
import ShapeQuake.Library.Spans
import ShapeQuake.Status

/-! The arena of `allocator.c`: a chain of zeroed blocks, each handing out its
data from the front. Whether and where `malloc` finds room is an argument of
every call that may ask it. A call returns `none` here when it waits for a lock
nobody releases. -/
namespace ShapeQuake.Allocator
open Library.Bytes Library.Spans

/-- `align`. -/
def align (size : Nat) : Nat := roundUp16 size

/-- `SIZE_BLOCK_DEFAULT`. -/
def sizeBlockDefault : Nat := 1024

/-- `SIZE_ARENA_DEFAULT`. -/
def sizeArenaDefault : Nat := 1024

/-- `ARENA_ID_CURRENT`. -/
def arenaIdCurrent : Int := -1

/-- `ARENA_ID_ENTIRE`. -/
def arenaIdEntire : Int := -2

/-- `arena_block_t` and the address it is at. Its `next` is the element after it
in the list that holds it. -/
structure ArenaBlock where
  address : Nat
  id : Nat
  isWiped : Bool
  prev : Option Nat
  offset : Nat
  capacity : Nat
  data : Store

/-- `sizeof(arena_block_t)`, which is also where `data` starts. -/
def sizeofArenaBlock : Nat := 64

/-- The addresses of a block, header included. -/
def ArenaBlock.span (block : ArenaBlock) : Span :=
  ⟨block.address, sizeofArenaBlock + block.capacity⟩

/-- The blocks of an arena in the order of `next`, `head` first, with the place
of `current` among them. -/
structure Blocks where
  before : List ArenaBlock
  current : ArenaBlock
  after : List ArenaBlock

/-- All blocks from `head` on. -/
def Blocks.chain (blocks : Blocks) : List ArenaBlock :=
  blocks.before ++ blocks.current :: blocks.after

/-- The same change to every block; `current` stays where it is. -/
def Blocks.map (change : ArenaBlock → ArenaBlock) (blocks : Blocks) : Blocks :=
  ⟨blocks.before.map change, change blocks.current, blocks.after.map change⟩

/-- `current = head`. -/
def Blocks.rewind (blocks : Blocks) : Blocks :=
  match blocks.before with
  | [] => blocks
  | head :: rest => ⟨[], head, rest ++ blocks.current :: blocks.after⟩

/-- `arena_t`. The mutex is its state: held or not. -/
structure Arena where
  mutex : Bool
  blocks : Blocks
  blockSize : Nat
  containsFd : Bool
  containsDbHandle : Bool
  isReset : Bool

/-- A pointer into a block's `data`. -/
structure Pointer where
  block : Nat
  offset : Nat
  deriving DecidableEq, Repr

def Pointer.address (pointer : Pointer) : Nat := pointer.block + sizeofArenaBlock + pointer.offset

/-- `get_arena`. -/
def getArena (chain : List ArenaBlock) (id : Nat) : Option ArenaBlock :=
  chain.find? (·.id = id)

/-- What `arena_new_block` asks `malloc` for. -/
def totalSize (size : Nat) : Nat := wrap64 (align sizeofArenaBlock + align size)

/-- `arena_new_block`, with the answer of `malloc`. -/
def arenaNewBlock (size : Nat) (malloc : Option Nat) : Option ArenaBlock :=
  malloc.map fun address =>
    { address, id := 0, isWiped := false, prev := none, offset := 0, capacity := align size
      data := zeros }

/-- `internal_block_shred`. -/
def internalBlockShred (requestResetOffset : Bool) (block : ArenaBlock) : ArenaBlock :=
  { block with
    data := clearBytes block.data 0 block.capacity
    isWiped := true
    offset := if requestResetOffset then 0 else block.offset }

/-- `internal_arena_shred`. -/
def internalArenaShred (blocks : Blocks) (id : Int) (requestResetOffset : Bool) :
    Blocks × Status :=
  if id = arenaIdEntire then
    (blocks.map (internalBlockShred requestResetOffset), asStatus .arena .success .clear)
  else if id = arenaIdCurrent then
    ({ blocks with current := internalBlockShred requestResetOffset blocks.current },
      asStatus .arena .success .clear)
  else
    match getArena blocks.chain (id % 2 ^ 16).toNat with
    | some target =>
      (blocks.map fun block =>
          if block.address = target.address then internalBlockShred requestResetOffset block
          else block,
        asStatus .arena .success .clear)
    | none => (blocks, asStatus .arena .abort .alloc)

/-- `arena_init`. Whether there is memory for the `arena_t` is the second argument. -/
def arenaInit (blockSize : Nat) (room : Bool) (malloc : Option Nat) : Option Arena :=
  if room then
    let bs := if blockSize < 1 then sizeBlockDefault else blockSize
    (arenaNewBlock (align bs) malloc).map fun head =>
      { mutex := false, blocks := ⟨[], head, []⟩, blockSize := align bs
        containsFd := false, containsDbHandle := false, isReset := false }
  else none

/-- The loop of `arena_allocate_raw`: the blocks when it ends, and whether the
request now fits in `current`. -/
def findRoom (alignedSize blockSize : Nat) (malloc : Option Nat) (before : List ArenaBlock)
    (current : ArenaBlock) : List ArenaBlock → Blocks × Bool
  | [] =>
    if wrap64 (current.offset + alignedSize) > current.capacity then
      let nextSize := if alignedSize > blockSize then alignedSize else blockSize
      match arenaNewBlock nextSize malloc with
      | none => (⟨before, current, []⟩, false)
      | some newBlock =>
        (⟨before ++ [current],
          { newBlock with id := (current.id + 1) % 2 ^ 16, prev := some current.address }, []⟩,
          true)
    else (⟨before, current, []⟩, true)
  | next :: rest =>
    if wrap64 (current.offset + alignedSize) > current.capacity then
      findRoom alignedSize blockSize malloc (before ++ [current]) { next with offset := 0 } rest
    else (⟨before, current, next :: rest⟩, true)

/-- `arena_allocate_raw`. -/
def arenaAllocateRaw (arena : Arena) (size : Nat) (malloc : Option Nat) :
    Option (Arena × Option Pointer) :=
  if arena.mutex then none
  else
    let alignedSize := align size
    match findRoom alignedSize arena.blockSize malloc arena.blocks.before arena.blocks.current
        arena.blocks.after with
    -- this exit leaves the mutex locked, and `current` where the loop took it
    | (blocks, false) => some ({ arena with mutex := true, blocks }, none)
    | (blocks, true) =>
      let current := blocks.current
      some ({ arena with
          blocks := { blocks with
            current := { current with offset := wrap64 (current.offset + alignedSize) } }
          isReset := false },
        some ⟨current.address, current.offset⟩)

/-- `arena_alloc`. -/
def arenaAlloc (arena : Arena) (size : Nat) (malloc : Option Nat) :
    Option (Arena × Option Pointer) :=
  arenaAllocateRaw arena size malloc

/-- Stores the bytes where the pointer points. -/
def Arena.write (arena : Arena) (pointer : Pointer) (bytes : List UInt8) : Arena :=
  { arena with
    blocks := arena.blocks.map fun block =>
      if block.address = pointer.block then
        { block with data := writeBytes block.data pointer.offset bytes }
      else block }

/-- `arena_strdup`, of the C string at the start of the bytes. -/
def arenaStrdup (arena : Arena) (src : Option (List UInt8)) (malloc : Option Nat) :
    Option (Arena × Option Pointer) :=
  match src with
  | none => some (arena, none)
  | some bytes =>
    let text := bytes.takeWhile (· ≠ 0)
    (arenaAlloc arena (text.length + 1) malloc).map fun (arena, dest) =>
      match dest with
      | none => (arena, none)
      | some dest => (arena.write dest (text ++ [0]), some dest)

/-- `arena_reset`. -/
def arenaReset (arena : Option Arena) : Option (Option Arena) :=
  match arena with
  | none => some none
  | some arena =>
    if arena.mutex then none
    else
      some (some { arena with
        blocks := (internalArenaShred arena.blocks arenaIdEntire true).1.rewind
        isReset := true })

/-- `arena_shred`. -/
def arenaShred (arena : Option Arena) (id : Int) (requestResetOffset : Bool) :
    Option (Option Arena × Status) :=
  match arena with
  | none => some (none, asStatus .arena .fatal .param)
  | some arena =>
    if arena.mutex then none
    else
      let (blocks, status) := internalArenaShred arena.blocks id requestResetOffset
      some (some { arena with blocks }, status)

/-- `arena_set_contains_fd`, which takes no lock. -/
def arenaSetContainsFd (arena : Option Arena) (isContain : Bool) : Option Arena × Status :=
  match arena with
  | none => (none, asStatus .value .fatal .param)
  | some arena => (some { arena with containsFd := isContain }, asStatus .arena .success .set)

/-- `arena_set_contains_db_connection`. -/
def arenaSetContainsDbConnection (arena : Option Arena) (isContain : Bool) :
    Option (Option Arena × Status) :=
  match arena with
  | none => some (none, asStatus .arena .fatal .param)
  | some arena =>
    if arena.mutex then none
    else some (some { arena with containsDbHandle := isContain }, asStatus .arena .success .set)

/-- `arena_set_contains_resources`. -/
def arenaSetContainsResources (arena : Option Arena) (isContain : Bool) :
    Option (Option Arena × Status) :=
  match arena with
  | none => some (none, asStatus .arena .fatal .param)
  | some arena =>
    if arena.mutex then none
    else
      some (some { arena with containsDbHandle := isContain, containsFd := isContain },
        asStatus .arena .success .set)

/-- `arena_destroy`, after which there is no arena. -/
def arenaDestroy (arena : Option Arena) (forceDestroy : Bool) : Option (Option Arena × Status) :=
  match arena with
  | none => some (none, asStatus .arena .fatal .param)
  | some arena =>
    if arena.mutex then none
    else if forceDestroy = false ∧ (arena.containsDbHandle ∨ arena.containsFd) then
      some (some arena, asStatus .arena .failure .resourceHeld)
    else some (none, asStatus .arena .success .destroy)

/-! ## Spec lemmas -/

@[simp] theorem align_sizeofArenaBlock : align sizeofArenaBlock = 64 := by decide

@[simp] theorem chain_mk : (Blocks.mk before current after).chain = before ++ current :: after := rfl

@[simp] theorem chain_map (change : ArenaBlock → ArenaBlock) (blocks : Blocks) :
    (blocks.map change).chain = blocks.chain.map change := by
  simp [Blocks.map, Blocks.chain]

theorem current_mem_chain (blocks : Blocks) : blocks.current ∈ blocks.chain := by
  simp [Blocks.chain]

theorem mem_chain_of_after {blocks : Blocks} (later : block ∈ blocks.after) :
    block ∈ blocks.chain := by
  simp [Blocks.chain, later]

@[simp] theorem rewind_chain (blocks : Blocks) : blocks.rewind.chain = blocks.chain := by
  rcases blocks with ⟨_ | ⟨head, rest⟩, current, after⟩ <;> rfl

/-- After a rewind nothing precedes `current`. -/
@[simp] theorem rewind_before (blocks : Blocks) : blocks.rewind.before = [] := by
  rcases blocks with ⟨_ | ⟨head, rest⟩, current, after⟩ <;> rfl

@[simp] theorem internalBlockShred_span (request : Bool) (block : ArenaBlock) :
    (internalBlockShred request block).span = block.span := rfl

/-- The request does not fit behind what a block has handed out. -/
def Full (alignedSize : Nat) (block : ArenaBlock) : Prop :=
  block.capacity < wrap64 (block.offset + alignedSize)

/-- How the loop of an allocation can end when the blocks behind `current` are
empty: at a block of the chain with room, at a new block behind all others, or
without memory for one. It passes full blocks only, and the chain only grows. -/
inductive RoomFound (alignedSize blockSize : Nat) (malloc : Option Nat) (blocks : Blocks) :
    Blocks × Bool → Prop
  | here (found : Blocks) (passed : List ArenaBlock) (same : found.chain = blocks.chain)
      (before : found.before = blocks.before ++ passed) (later : found.after <:+ blocks.after)
      (place : found = blocks ∨ found.current ∈ blocks.after)
      (full : ∀ block ∈ passed, Full alignedSize block)
      (fits : wrap64 (found.current.offset + alignedSize) ≤ found.current.capacity) :
      RoomFound alignedSize blockSize malloc blocks (found, true)
  | added (address id : Nat) (prev : Option Nat) (answered : malloc = some address)
      (full : ∀ block ∈ blocks.current :: blocks.after, Full alignedSize block) :
      RoomFound alignedSize blockSize malloc blocks
        (⟨blocks.chain,
          ⟨address, id, false, prev, 0, align (max alignedSize blockSize), zeros⟩, []⟩, true)
  | exhausted (last : Blocks) (same : last.chain = blocks.chain) (atEnd : last.after = [])
      (refused : malloc = none) :
      RoomFound alignedSize blockSize malloc blocks (last, false)

private theorem nextSize_eq (alignedSize blockSize : Nat) :
    (if alignedSize > blockSize then alignedSize else blockSize) = max alignedSize blockSize := by
  split <;> omega

theorem findRoom_cases (idle : ∀ block ∈ after, block.offset = 0) :
    RoomFound alignedSize blockSize malloc ⟨before, current, after⟩
      (findRoom alignedSize blockSize malloc before current after) := by
  induction after generalizing before current with
  | nil =>
    unfold findRoom
    split
    case isTrue full =>
      cases malloc with
      | none => exact .exhausted _ rfl rfl rfl
      | some address =>
        simpa only [arenaNewBlock, Option.map_some, nextSize_eq] using
          .added address ((current.id + 1) % 2 ^ 16)
            (some current.address) rfl (List.forall_mem_singleton.mpr full)
    case isFalse fits =>
      exact .here _ [] rfl (by simp) (List.suffix_refl _) (.inl rfl) (by simp) (Nat.not_lt.mp fits)
  | cons next rest ih =>
    unfold findRoom
    split
    case isTrue full =>
      -- the block moved to is empty already, so the chain is the same
      have empty : { next with offset := 0 } = next := by
        rw [← idle next (by simp)]
      rw [empty]
      have chain : ((before ++ [current]) ++ next :: rest) = before ++ current :: next :: rest := by
        simp
      have moved : RoomFound alignedSize blockSize malloc ⟨before ++ [current], next, rest⟩
          (findRoom alignedSize blockSize malloc (before ++ [current]) next rest) :=
        ih fun block later => idle block (by simp [later])
      generalize findRoom alignedSize blockSize malloc (before ++ [current]) next rest = outcome
        at moved
      cases moved with
      | here found passed same earlier later place fullPassed fits =>
        refine .here found (current :: passed) (same.trans chain) (by simp [earlier])
          (later.trans (List.suffix_cons _ _)) (.inr ?_) ?_ fits
        · rcases place with rfl | member
          · simp
          · simp [member]
        · exact List.forall_mem_cons.mpr ⟨full, fullPassed⟩
      | added address id prev answered fullRest =>
        rw [chain_mk, chain]
        exact .added address id prev answered (List.forall_mem_cons.mpr ⟨full, fullRest⟩)
      | exhausted last same atEnd refused => exact .exhausted last (same.trans chain) atEnd refused
    case isFalse fits =>
      exact .here _ [] rfl (by simp) (List.suffix_refl _) (.inl rfl) (by simp) (Nat.not_lt.mp fits)

/-- The loop does nothing where the request fits. -/
theorem findRoom_here (fits : wrap64 (current.offset + alignedSize) ≤ current.capacity) :
    findRoom alignedSize blockSize malloc before current after = (⟨before, current, after⟩, true) := by
  cases after <;> exact if_neg (Nat.not_lt.mpr fits)

/-- An arena starts unlocked and without resources. -/
theorem arenaInit_flags (made : arenaInit blockSize room malloc = some arena) :
    arena.mutex = false ∧ arena.containsFd = false ∧ arena.containsDbHandle = false := by
  unfold arenaInit at made
  split at made
  · obtain ⟨_, _, rfl⟩ := Option.map_eq_some_iff.mp made
    exact ⟨rfl, rfl, rfl⟩
  · cases made

/-- What an allocation does once the loop has ended. -/
theorem arenaAllocateRaw_cases
    (ran : arenaAllocateRaw arena size malloc = some (next, pointer)) :
    arena.mutex = false ∧
    ∃ blocks room, findRoom (align size) arena.blockSize malloc arena.blocks.before
        arena.blocks.current arena.blocks.after = (blocks, room) ∧
      (room = false ∧ pointer = none ∧ next = { arena with mutex := true, blocks } ∨
        room = true ∧ pointer = some ⟨blocks.current.address, blocks.current.offset⟩ ∧
          next = { arena with
            blocks := { blocks with
              current := { blocks.current with
                offset := wrap64 (blocks.current.offset + align size) } }
            isReset := false }) := by
  simp only [arenaAllocateRaw] at ran
  split at ran
  · cases ran
  · rename_i free
    refine ⟨by simpa using free, ?_⟩
    split at ran
    · rename_i blocks outcome
      simp only [Option.some.injEq, Prod.mk.injEq] at ran
      exact ⟨blocks, false, outcome, .inl ⟨rfl, ran.2.symm, ran.1.symm⟩⟩
    · rename_i blocks outcome
      simp only [Option.some.injEq, Prod.mk.injEq] at ran
      exact ⟨blocks, true, outcome, .inr ⟨rfl, ran.2.symm, ran.1.symm⟩⟩

/-- An arena after a reset. -/
def Arena.emptied (arena : Arena) : Arena :=
  { arena with
    blocks := (arena.blocks.map (internalBlockShred true)).rewind
    isReset := true }

theorem arenaReset_unlocked (unlocked : arena.mutex = false) :
    arenaReset (some arena) = some (some arena.emptied) := by
  simp [arenaReset, internalArenaShred, Arena.emptied, unlocked]

theorem arenaReset_cases (ran : arenaReset (some arena) = some next) :
    arena.mutex = false ∧ next = some arena.emptied := by
  cases locked : arena.mutex with
  | true => simp [arenaReset, locked] at ran
  | false =>
    rw [arenaReset_unlocked locked] at ran
    exact ⟨rfl, (Option.some.inj ran).symm⟩

theorem arenaShred_cases {id : Int}
    (ran : arenaShred (some arena) id request = some (next, status)) :
    arena.mutex = false ∧
      next = some { arena with blocks := (internalArenaShred arena.blocks id request).1 } ∧
      status = (internalArenaShred arena.blocks id request).2 := by
  simp only [arenaShred] at ran
  split at ran
  · cases ran
  · rename_i free
    simp only [Option.some.injEq, Prod.mk.injEq] at ran
    exact ⟨by simpa using free, ran.1.symm, ran.2.symm⟩

end ShapeQuake.Allocator
