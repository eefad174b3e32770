import ShapeQuake.ArenaCalls

/-! The blocks of an arena as they lie in memory, each with the pointer to the next one.
The loops of `allocator.c` go from block to block by that pointer, and nothing says that
they meet every block, or end; a list of blocks in the order of `next` says both. Here the
calls are written on the pointers, and shown to do what they do to the list. -/
namespace ShapeQuake.LinkedBlocks
open Library.Bytes Allocator
open ArenaCalls (Call places places_append places_cons places_nil)

/-! ## The program -/

/-- A block in memory, with `next`. -/
structure Cell where
  block : ArenaBlock
  next : Option Nat

/-- `arena_t` with the pointers it holds, its blocks in memory, and a record of the address
and capacity of every block that `arena_new_block` has ever returned for it. -/
structure LinkedArena where
  mutex : Bool
  head : Nat
  current : Nat
  blockSize : Nat
  containsFd : Bool
  containsDbHandle : Bool
  isReset : Bool
  memory : List Cell
  made : List (Nat × Nat)

def isAt (address : Nat) (cell : Cell) : Bool := cell.block.address = address

/-- What a pointer leads to, if it is there to be read. -/
def cellAt (memory : List Cell) (address : Nat) : Option Cell := memory.find? (isAt address)

/-- A store into the block at an address. -/
def change (memory : List Cell) (address : Nat) (store : Cell → Cell) : List Cell :=
  memory.map fun cell => if isAt address cell then store cell else cell

/-- A store that leaves the links. -/
def changeBlock (memory : List Cell) (address : Nat) (store : ArenaBlock → ArenaBlock) : List Cell :=
  change memory address fun cell => { cell with block := store cell.block }

/-- `arena_init`, where there is memory for the `arena_t`. -/
def init (blockSize : Nat) (malloc : Option Nat) : Option LinkedArena :=
  let bs := if blockSize < 1 then sizeBlockDefault else blockSize
  (arenaNewBlock (align bs) malloc).map fun head =>
    { mutex := false, head := head.address, current := head.address, blockSize := align bs
      containsFd := false, containsDbHandle := false, isReset := false
      memory := [⟨head, none⟩], made := [(head.address, head.capacity)] }

/-- The loop of `arena_allocate_raw`, for so many turns: the memory when it ends, `current`,
whether the request fits, and the block made for it. Here as below a loop that runs out of
turns, or reads what is not there, has no result. -/
def roomLoop (alignedSize blockSize : Nat) (malloc : Option Nat) :
    Nat → List Cell → Nat → Option (List Cell × Nat × Bool × Option ArenaBlock)
  | 0, _, _ => none
  | turns + 1, memory, current =>
    match cellAt memory current with
    | none => none
    | some cell =>
      if wrap64 (cell.block.offset + alignedSize) > cell.block.capacity then
        match cell.next with
        | some next =>
          roomLoop alignedSize blockSize malloc turns
            (changeBlock memory next fun block => { block with offset := 0 }) next
        | none =>
          let nextSize := if alignedSize > blockSize then alignedSize else blockSize
          match arenaNewBlock nextSize malloc with
          | none => some (memory, current, false, none)
          | some newBlock =>
            let made := { newBlock with id := (cell.block.id + 1) % 2 ^ 16, prev := some current }
            some (change memory current (fun cell => { cell with next := some made.address }) ++
              [⟨made, none⟩], made.address, true, some made)
      else some (memory, current, true, none)

/-- `arena_allocate_raw`. -/
def allocateRaw (arena : LinkedArena) (size : Nat) (malloc : Option Nat) :
    Option (LinkedArena × Option Pointer) :=
  if arena.mutex then none
  else
    let alignedSize := align size
    match roomLoop alignedSize arena.blockSize malloc arena.memory.length arena.memory arena.current with
    | none => none
    | some (memory, current, false, new) =>
      some ({ arena with mutex := true, memory, current, made := arena.made ++ places new.toList }, none)
    | some (memory, current, true, new) =>
      (cellAt memory current).map fun cell =>
        ({ arena with
            memory := changeBlock memory current fun block =>
              { block with offset := wrap64 (block.offset + alignedSize) }
            current
            isReset := false
            made := arena.made ++ places new.toList },
          some ⟨current, cell.block.offset⟩)

/-- Stores the bytes where the pointer points. -/
def LinkedArena.write (arena : LinkedArena) (pointer : Pointer) (bytes : List UInt8) : LinkedArena :=
  { arena with
    memory := changeBlock arena.memory pointer.block fun block =>
      { block with data := writeBytes block.data pointer.offset bytes } }

/-- `arena_strdup`. -/
def strdup (arena : LinkedArena) (src : Option (List UInt8)) (malloc : Option Nat) :
    Option (LinkedArena × Option Pointer) :=
  match src with
  | none => some (arena, none)
  | some bytes =>
    let text := bytes.takeWhile (· ≠ 0)
    (allocateRaw arena (text.length + 1) malloc).map fun (arena, dest) =>
      match dest with
      | none => (arena, none)
      | some dest => (arena.write dest (text ++ [0]), some dest)

/-- The loop of `internal_arena_shred`. -/
def shredLoop (requestResetOffset : Bool) : Nat → List Cell → Option Nat → Option (List Cell)
  | _, memory, none => some memory
  | 0, _, some _ => none
  | turns + 1, memory, some it =>
    let memory := changeBlock memory it (internalBlockShred requestResetOffset)
    match cellAt memory it with
    | none => none
    | some cell => shredLoop requestResetOffset turns memory cell.next

/-- The loop of `get_arena`. -/
def idLoop (id : Nat) : Nat → List Cell → Option Nat → Option (Option Nat)
  | _, _, none => some none
  | 0, _, some _ => none
  | turns + 1, memory, some it =>
    match cellAt memory it with
    | none => none
    | some cell => if cell.block.id = id then some (some it) else idLoop id turns memory cell.next

/-- `internal_arena_shred`. -/
def internalShred (arena : LinkedArena) (id : Int) (requestResetOffset : Bool) :
    Option (LinkedArena × Status) :=
  if id = arenaIdEntire then
    (shredLoop requestResetOffset arena.memory.length arena.memory (some arena.head)).map fun memory =>
      ({ arena with memory }, asStatus .arena .success .clear)
  else if id = arenaIdCurrent then
    some ({ arena with
        memory := changeBlock arena.memory arena.current (internalBlockShred requestResetOffset) },
      asStatus .arena .success .clear)
  else
    (idLoop (id % 2 ^ 16).toNat arena.memory.length arena.memory (some arena.head)).map fun
      | some target =>
        ({ arena with
            memory := changeBlock arena.memory target (internalBlockShred requestResetOffset) },
          asStatus .arena .success .clear)
      | none => (arena, asStatus .arena .abort .alloc)

/-- `arena_shred`. -/
def shred (arena : LinkedArena) (id : Int) (requestResetOffset : Bool) :
    Option (LinkedArena × Status) :=
  if arena.mutex then none else internalShred arena id requestResetOffset

/-- `arena_reset`. -/
def reset (arena : LinkedArena) : Option LinkedArena :=
  if arena.mutex then none
  else
    (internalShred arena arenaIdEntire true).map fun (arena, _) =>
      { arena with current := arena.head, isReset := true }

/-- `malloc` does not answer with the address of a block there is. -/
def Fresh (arena : LinkedArena) (malloc : Option Nat) : Prop :=
  ∀ address ∈ malloc, ∀ cell ∈ arena.memory, cell.block.address ≠ address

instance : Decidable (Fresh arena malloc) := inferInstanceAs (Decidable (∀ address ∈ malloc, _))

/-- One call, or one store of a client, as in `ArenaCalls`. -/
def step (arena : LinkedArena) : Call → Option LinkedArena
  | .alloc size malloc =>
    if Fresh arena malloc then (allocateRaw arena size malloc).map Prod.fst else none
  | .strdup src malloc =>
    if Fresh arena malloc then (strdup arena src malloc).map Prod.fst else none
  | .shred id request => (shred arena id request).map Prod.fst
  | .reset => reset arena
  | .setContainsFd isContain => some { arena with containsFd := isContain }
  | .setContainsDbConnection isContain =>
    if arena.mutex then none else some { arena with containsDbHandle := isContain }
  | .setContainsResources isContain =>
    if arena.mutex then none
    else some { arena with containsDbHandle := isContain, containsFd := isContain }
  | .store pointer bytes => some (arena.write pointer bytes)

/-! ## The list of blocks -/

/-- The pointer to the first of some blocks, or to what is behind them. -/
def pointerTo (rest : List ArenaBlock) (behind : Option Nat) : Option Nat :=
  match rest with
  | [] => behind
  | block :: _ => some block.address

/-- Blocks linked in this order, the last one to what is behind them. -/
def cellsTo : List ArenaBlock → Option Nat → List Cell
  | [], _ => []
  | block :: rest, behind => ⟨block, pointerTo rest behind⟩ :: cellsTo rest behind

/-- The blocks of a chain. -/
def cells (chain : List ArenaBlock) : List Cell := cellsTo chain none

/-- The address of the first block. -/
def headAddress (blocks : Blocks) : Nat :=
  match blocks.before with
  | [] => blocks.current.address
  | head :: _ => head.address

/-- An arena in memory. -/
def linked (arena : Arena) : LinkedArena :=
  { mutex := arena.mutex
    head := headAddress arena.blocks
    current := arena.blocks.current.address
    blockSize := arena.blockSize
    containsFd := arena.containsFd
    containsDbHandle := arena.containsDbHandle
    isReset := arena.isReset
    memory := cells arena.blocks.chain
    made := places arena.blocks.chain }

@[simp] theorem linked_mutex (arena : Arena) : (linked arena).mutex = arena.mutex := rfl

@[simp] theorem linked_head (arena : Arena) : (linked arena).head = headAddress arena.blocks := rfl

@[simp] theorem linked_containsFd (arena : Arena) : (linked arena).containsFd = arena.containsFd := rfl

@[simp] theorem linked_containsDbHandle (arena : Arena) :
    (linked arena).containsDbHandle = arena.containsDbHandle := rfl

@[simp] theorem linked_memory (arena : Arena) : (linked arena).memory = cells arena.blocks.chain := rfl

@[simp] theorem linked_made (arena : Arena) : (linked arena).made = places arena.blocks.chain := rfl

/-- A store leaves a block where it is, and its capacity. -/
def InPlace (store : ArenaBlock → ArenaBlock) : Prop :=
  ∀ block, (store block).address = block.address ∧ (store block).capacity = block.capacity

/-- No address comes twice. -/
def Once (chain : List ArenaBlock) : Prop := (chain.map ArenaBlock.address).Nodup

@[simp] theorem cellsTo_length (chain : List ArenaBlock) (behind : Option Nat) :
    (cellsTo chain behind).length = chain.length := by
  induction chain with
  | nil => rfl
  | cons block rest ih => simp [cellsTo, ih]

@[simp] theorem cells_length (chain : List ArenaBlock) : (cells chain).length = chain.length :=
  cellsTo_length chain none

@[simp] theorem cellsTo_blocks (chain : List ArenaBlock) (behind : Option Nat) :
    (cellsTo chain behind).map Cell.block = chain := by
  induction chain with
  | nil => rfl
  | cons block rest ih => simp [cellsTo, ih]

@[simp] theorem changeBlock_length (memory : List Cell) (address : Nat) (store : ArenaBlock → ArenaBlock) :
    (changeBlock memory address store).length = memory.length := List.length_map _

theorem places_map (place : InPlace store) (chain : List ArenaBlock) :
    places (chain.map store) = places chain := by
  simp only [places, List.map_map, Function.comp_def]
  exact List.map_congr_left fun block _ => by rw [(place block).1, (place block).2]

theorem shred_inPlace (request : Bool) : InPlace (internalBlockShred request) := fun _ => ⟨rfl, rfl⟩

theorem pointerTo_cons (block : ArenaBlock) (rest : List ArenaBlock) (behind : Option Nat) :
    pointerTo (block :: rest) behind = some block.address := rfl

theorem pointerTo_append (first second : List ArenaBlock) (behind : Option Nat) :
    pointerTo (first ++ second) behind = pointerTo first (pointerTo second behind) := by
  cases first <;> rfl

theorem cellsTo_append (first second : List ArenaBlock) (behind : Option Nat) :
    cellsTo (first ++ second) behind = cellsTo first (pointerTo second behind) ++ cellsTo second behind := by
  induction first with
  | nil => rfl
  | cons block rest ih => rw [List.cons_append, cellsTo, cellsTo, ih, pointerTo_append, List.cons_append]

private theorem cellAt_absent (absent : address ∉ chain.map ArenaBlock.address) (behind : Option Nat) :
    cellAt (cellsTo chain behind) address = none := by
  apply List.find?_eq_none.mpr
  intro cell member here
  apply absent
  have block : cell.block ∈ (cellsTo chain behind).map Cell.block := List.mem_map_of_mem member
  rw [cellsTo_blocks] at block
  exact List.mem_map.mpr ⟨cell.block, block, of_decide_eq_true here⟩

private theorem absent_before (once : Once (before ++ current :: after)) :
    current.address ∉ before.map ArenaBlock.address ∧
      current.address ∉ after.map ArenaBlock.address := by
  rw [Once, List.map_append, List.map_cons] at once
  have absent := (List.nodup_middle.mp once).notMem
  rwa [List.mem_append, not_or] at absent

/-- A pointer to a block of a chain leads to it. -/
theorem cellAt_cells (once : Once (before ++ current :: after)) :
    cellAt (cells (before ++ current :: after)) current.address =
      some ⟨current, pointerTo after none⟩ := by
  have here : isAt current.address ⟨current, pointerTo after none⟩ = true := decide_eq_true rfl
  rw [cells, cellsTo_append, cellAt, List.find?_append]
  have none_ := cellAt_absent (absent_before once).1 (pointerTo (current :: after) none)
  rw [cellAt] at none_
  rw [none_, cellsTo, List.find?_cons_of_pos here]
  rfl

theorem changeBlock_cells {store : ArenaBlock → ArenaBlock} (place : InPlace store)
    (chain : List ArenaBlock) (address : Nat) :
    changeBlock (cells chain) address store =
      cells (chain.map fun block => if block.address = address then store block else block) := by
  induction chain with
  | nil => rfl
  | cons block rest ih =>
    have next : pointerTo (rest.map fun block => if block.address = address then store block else block)
        none = pointerTo rest none := by
      cases rest with
      | nil => rfl
      | cons next _ =>
        simp only [List.map_cons, pointerTo]
        split
        · rw [(place next).1]
        · rfl
    simp only [cells, changeBlock, change] at ih ⊢
    rw [List.map_cons, cellsTo, cellsTo, List.map_cons, ih, next]
    congr 1
    by_cases here : block.address = address <;> simp [isAt, here]

private theorem map_middle (once : Once (before ++ current :: after)) (store : ArenaBlock → ArenaBlock) :
    ((before ++ current :: after).map fun block =>
      if block.address = current.address then store block else block) =
      before ++ store current :: after := by
  obtain ⟨earlier, later⟩ := absent_before once
  have same (list : List ArenaBlock) (absent : current.address ∉ list.map ArenaBlock.address) :
      (list.map fun block => if block.address = current.address then store block else block) = list := by
    refine (List.map_congr_left fun block member => if_neg fun same => absent ?_).trans (List.map_id _)
    exact same ▸ List.mem_map_of_mem member
  rw [List.map_append, List.map_cons, same before earlier, same after later, if_pos rfl]

/-- A store into one block of a chain. -/
theorem changeBlock_middle (once : Once (before ++ current :: after)) {store : ArenaBlock → ArenaBlock}
    (place : InPlace store) :
    changeBlock (cells (before ++ current :: after)) current.address store =
      cells (before ++ store current :: after) := by
  rw [changeBlock_cells place, map_middle once]

private theorem change_absent (absent : address ∉ chain.map ArenaBlock.address) (behind : Option Nat)
    (store : Cell → Cell) : change (cellsTo chain behind) address store = cellsTo chain behind := by
  refine (List.map_congr_left fun cell member => if_neg fun here => absent ?_).trans (List.map_id _)
  have block : cell.block ∈ (cellsTo chain behind).map Cell.block := List.mem_map_of_mem member
  rw [cellsTo_blocks] at block
  exact List.mem_map.mpr ⟨cell.block, block, of_decide_eq_true here⟩

/-- A new block is linked behind the last one. -/
private theorem cells_linked (once : Once (before ++ [current])) (made : ArenaBlock) :
    change (cells (before ++ [current])) current.address
        (fun cell => { cell with next := some made.address }) ++ [⟨made, none⟩] =
      cells (before ++ [current] ++ [made]) := by
  have earlier := change_absent (absent_before once).1 (some current.address) fun cell =>
    { cell with next := some made.address }
  have whole : cells (before ++ [current]) =
      cellsTo before (some current.address) ++ [⟨current, none⟩] := cellsTo_append before [current] none
  have longer : cells (before ++ [current] ++ [made]) =
      cellsTo before (some current.address) ++ [⟨current, some made.address⟩] ++ [⟨made, none⟩] := by
    rw [cells, cellsTo_append, cellsTo_append]
    rfl
  rw [change] at earlier ⊢
  rw [whole, List.map_append, earlier, longer]
  simp [isAt]

/-! ## The calls -/

theorem init_linked (blockSize : Nat) (malloc : Option Nat) :
    init blockSize malloc = (arenaInit blockSize true malloc).map linked := by
  cases malloc <;> rfl

/-- On the pointers the loop of an allocation goes where it goes in the list, and the list
grows by the block that was made. -/
theorem roomLoop_cells (once : Once (before ++ current :: after)) (enough : after.length < turns) :
    ∃ new, roomLoop aligned blockSize malloc turns (cells (before ++ current :: after)) current.address =
        some (cells (findRoom aligned blockSize malloc before current after).1.chain,
          (findRoom aligned blockSize malloc before current after).1.current.address,
          (findRoom aligned blockSize malloc before current after).2, new) ∧
      places (findRoom aligned blockSize malloc before current after).1.chain =
        places (before ++ current :: after) ++ places new.toList := by
  induction after generalizing before current turns with
  | nil =>
    obtain ⟨turns, rfl⟩ := Nat.exists_eq_succ_of_ne_zero (Nat.ne_of_gt enough)
    simp only [roomLoop, cellAt_cells once, findRoom, pointerTo]
    split
    · cases malloc with
      | none => exact ⟨none, rfl, (List.append_nil _).symm⟩
      | some address =>
        let made : ArenaBlock :=
          { address, id := (current.id + 1) % 2 ^ 16, isWiped := false, prev := some current.address
            offset := 0, capacity := align (if aligned > blockSize then aligned else blockSize)
            data := zeros }
        have joined := cells_linked once made
        refine ⟨some made, ?_, places_append _ _⟩
        simp only [arenaNewBlock, Option.map_some, made] at joined ⊢
        rw [joined]
        rfl
    · exact ⟨none, rfl, (List.append_nil _).symm⟩
  | cons next rest ih =>
    obtain ⟨turns, rfl⟩ := Nat.exists_eq_succ_of_ne_zero (Nat.ne_zero_of_lt enough)
    simp only [roomLoop, cellAt_cells once, findRoom, pointerTo]
    split
    · have behind : before ++ current :: next :: rest = (before ++ [current]) ++ next :: rest := by simp
      rw [behind] at once ⊢
      have emptied : changeBlock (cells ((before ++ [current]) ++ next :: rest)) next.address
          (fun block => { block with offset := 0 }) =
          cells ((before ++ [current]) ++ { next with offset := 0 } :: rest) :=
        changeBlock_middle once fun _ => ⟨rfl, rfl⟩
      rw [emptied]
      have onceNext : Once ((before ++ [current]) ++ { next with offset := 0 } :: rest) := by
        simpa [Once] using once
      obtain ⟨new, loop, more⟩ := ih onceNext (Nat.lt_of_succ_lt_succ enough)
      refine ⟨new, loop, ?_⟩
      rw [more]
      simp
    · exact ⟨none, rfl, (List.append_nil _).symm⟩

/-- With more turns a loop that has ended ends as it did. -/
theorem roomLoop_more (ran : roomLoop aligned blockSize malloc turns memory current = some outcome)
    (more : turns ≤ others) :
    roomLoop aligned blockSize malloc others memory current = some outcome := by
  induction turns generalizing others memory current with
  | zero => cases ran
  | succ turns ih =>
    obtain ⟨others, rfl⟩ := Nat.exists_eq_succ_of_ne_zero (Nat.ne_zero_of_lt more)
    rw [roomLoop] at ran ⊢
    cases found : cellAt memory current with
    | none => simp [found] at ran
    | some cell =>
      simp only [found] at ran ⊢
      split at ran
      case isTrue full =>
        rw [if_pos full]
        cases link : cell.next with
        | none =>
          simp only [link] at ran ⊢
          exact ran
        | some next =>
          simp only [link] at ran ⊢
          exact ih ran (Nat.le_of_succ_le_succ more)
      case isFalse fits =>
        rw [if_neg fits]
        exact ran

/-- The loop of an allocation leaves the first block where it is. -/
private theorem findRoom_head (aligned blockSize : Nat) (malloc : Option Nat) (before : List ArenaBlock)
    (current : ArenaBlock) (after : List ArenaBlock) :
    headAddress (findRoom aligned blockSize malloc before current after).1 =
      headAddress ⟨before, current, after⟩ := by
  induction after generalizing before current with
  | nil =>
    rw [findRoom]
    split
    · cases malloc with
      | none => rfl
      | some address => cases before <;> rfl
    · rfl
  | cons next rest ih =>
    rw [findRoom]
    split
    · rw [ih]
      cases before <;> rfl
    · rfl

/-- A store into the current block. -/
theorem linked_current {arena : Arena} (once : Once arena.blocks.chain) {store : ArenaBlock → ArenaBlock}
    (place : InPlace store) :
    { linked arena with
        memory := changeBlock (cells arena.blocks.chain) arena.blocks.current.address store } =
      linked { arena with
        blocks := { arena.blocks with current := store arena.blocks.current } } := by
  have stored : changeBlock (cells arena.blocks.chain) arena.blocks.current.address store =
      cells (arena.blocks.before ++ store arena.blocks.current :: arena.blocks.after) :=
    changeBlock_middle once place
  have head : headAddress { arena.blocks with current := store arena.blocks.current } =
      headAddress arena.blocks := by
    rcases arena.blocks with ⟨_ | ⟨head, rest⟩, current, after⟩
    · exact (place current).1
    · rfl
  have record : places (arena.blocks.before ++ store arena.blocks.current :: arena.blocks.after) =
      places arena.blocks.chain := by
    simp [Blocks.chain, (place arena.blocks.current).1, (place arena.blocks.current).2]
  simp only [linked, stored, head, chain_mk, record, (place arena.blocks.current).1]

/-- A chain that grows by a block at a free address has no address twice. -/
private theorem once_grown (once : Once before)
    (grown : ArenaCalls.Grown malloc (ArenaCalls.names before) (ArenaCalls.names after))
    (fresh : ∀ address ∈ malloc, ∀ block ∈ before, block.address ≠ address) : Once after := by
  have addresses (chain : List ArenaBlock) :
      (ArenaCalls.names chain).map Prod.fst = chain.map ArenaBlock.address := by
    simp [ArenaCalls.names]
  rw [Once, ← addresses]
  rcases grown with same | ⟨address, last, answered, _, more⟩
  · rw [same, addresses]
    exact once
  · rw [more, List.map_append, addresses, List.map_singleton, List.nodup_append]
    refine ⟨once, List.nodup_singleton _, fun other member new single => ?_⟩
    obtain ⟨block, held, rfl⟩ := List.mem_map.mp member
    rw [List.mem_singleton.mp single]
    exact fresh address answered block held

/-- On the pointers an allocation does what it does to the list. -/
theorem allocateRaw_linked {arena : Arena} (once : Once arena.blocks.chain)
    (fresh : ArenaCalls.Fresh arena malloc) (size : Nat) :
    allocateRaw (linked arena) size malloc =
      (arenaAllocateRaw arena size malloc).map fun (next, pointer) => (linked next, pointer) := by
  have enough : arena.blocks.after.length < (cells arena.blocks.chain).length := by
    rw [cells_length, Blocks.chain, List.length_append, List.length_cons]
    omega
  obtain ⟨new, loop, more⟩ : ∃ new, roomLoop (align size) arena.blockSize malloc
      (cells arena.blocks.chain).length (cells arena.blocks.chain) arena.blocks.current.address = _ ∧ _ :=
    roomLoop_cells once enough
  have grown := ArenaCalls.findRoom_grown (align size) arena.blockSize malloc arena.blocks.before
    arena.blocks.current arena.blocks.after
  have onceFound := once_grown once grown fresh
  have heads := findRoom_head (align size) arena.blockSize malloc arena.blocks.before
    arena.blocks.current arena.blocks.after
  have record : places arena.blocks.chain ++ places new.toList = _ := more.symm
  simp only [allocateRaw, arenaAllocateRaw, linked, loop]
  split
  · rfl
  · generalize findRoom (align size) arena.blockSize malloc arena.blocks.before arena.blocks.current
      arena.blocks.after = outcome at onceFound heads record
    obtain ⟨found, fits⟩ := outcome
    cases fits with
    | false => simp [heads, record]
    | true =>
      let granted : Arena := { arena with blocks := found, isReset := false }
      have there : cellAt (cells found.chain) found.current.address = _ := cellAt_cells onceFound
      have place : InPlace fun block => { block with offset := wrap64 (block.offset + align size) } :=
        fun _ => ⟨rfl, rfl⟩
      have onceGranted : Once granted.blocks.chain := onceFound
      have bumped := linked_current onceGranted place
      simp only [linked, granted] at bumped
      simp only [there, Option.map_some, ← heads, record, bumped]

theorem headAddress_map {store : ArenaBlock → ArenaBlock} (place : InPlace store) (blocks : Blocks) :
    headAddress (blocks.map store) = headAddress blocks := by
  rcases blocks with ⟨_ | ⟨head, rest⟩, current, after⟩
  · exact (place current).1
  · exact (place head).1

theorem pointerTo_chain (blocks : Blocks) : pointerTo blocks.chain none = some (headAddress blocks) := by
  rcases blocks with ⟨_ | ⟨head, rest⟩, current, after⟩ <;> rfl

/-- A store into the block at an address. -/
theorem linked_changed {store : ArenaBlock → ArenaBlock} (place : InPlace store) (arena : Arena)
    (address : Nat) :
    { linked arena with memory := changeBlock (linked arena).memory address store } =
      linked { arena with
        blocks := arena.blocks.map fun block => if block.address = address then store block else block } := by
  have kept : InPlace fun block => if block.address = address then store block else block := by
    intro block
    dsimp only
    split
    · exact place block
    · exact ⟨rfl, rfl⟩
  simp only [linked, headAddress_map kept, chain_map, changeBlock_cells place, places_map kept]
  simp only [Blocks.map, (kept arena.blocks.current).1]

theorem write_linked (arena : Arena) (pointer : Pointer) (bytes : List UInt8) :
    (linked arena).write pointer bytes = linked (arena.write pointer bytes) := by
  have place : InPlace fun block => { block with data := writeBytes block.data pointer.offset bytes } :=
    fun _ => ⟨rfl, rfl⟩
  exact linked_changed place arena pointer.block

private theorem once_shredded (once : Once (before ++ block :: rest)) (request : Bool) :
    Once (before ++ internalBlockShred request block :: rest) := by
  simpa [Once, internalBlockShred] using once

/-- The walk of a shred meets every block once. -/
theorem shredLoop_cells (once : Once (before ++ rest)) (enough : rest.length ≤ turns) (request : Bool) :
    shredLoop request turns (cells (before ++ rest)) (pointerTo rest none) =
      some (cells (before ++ rest.map (internalBlockShred request))) := by
  induction rest generalizing before turns with
  | nil => cases turns <;> rfl
  | cons block rest ih =>
    obtain ⟨turns, rfl⟩ := Nat.exists_eq_succ_of_ne_zero (Nat.ne_zero_of_lt enough)
    have onceNext := once_shredded once request
    have shredded : changeBlock (cells (before ++ block :: rest)) block.address
        (internalBlockShred request) = cells (before ++ internalBlockShred request block :: rest) :=
      changeBlock_middle once fun _ => ⟨rfl, rfl⟩
    have there := cellAt_cells onceNext
    have joined : before ++ internalBlockShred request block :: rest =
        (before ++ [internalBlockShred request block]) ++ rest := by simp
    have address : (internalBlockShred request block).address = block.address := rfl
    rw [address] at there
    simp only [shredLoop, pointerTo_cons, shredded, there]
    rw [joined] at onceNext ⊢
    rw [ih onceNext (Nat.le_of_succ_le_succ enough)]
    simp

/-- The search for an id meets the blocks in order. -/
theorem idLoop_cells (once : Once (before ++ rest)) (enough : rest.length ≤ turns) (id : Nat) :
    idLoop id turns (cells (before ++ rest)) (pointerTo rest none) =
      some ((getArena rest id).map ArenaBlock.address) := by
  induction rest generalizing before turns with
  | nil => cases turns <;> rfl
  | cons block rest ih =>
    obtain ⟨turns, rfl⟩ := Nat.exists_eq_succ_of_ne_zero (Nat.ne_zero_of_lt enough)
    have there := cellAt_cells once
    simp only [idLoop, pointerTo_cons, there]
    by_cases found : block.id = id
    · simp [getArena, found]
    · have joined : before ++ block :: rest = (before ++ [block]) ++ rest := by simp
      rw [joined] at once ⊢
      rw [if_neg found, ih once (Nat.le_of_succ_le_succ enough)]
      simp [getArena, found]

/-- On the pointers a shred does what it does to the list. -/
theorem internalShred_linked {arena : Arena} (once : Once arena.blocks.chain) (id : Int) (request : Bool) :
    internalShred (linked arena) id request =
      some (linked { arena with blocks := (internalArenaShred arena.blocks id request).1 },
        (internalArenaShred arena.blocks id request).2) := by
  have place := shred_inPlace request
  have whole : Once ([] ++ arena.blocks.chain) := once
  by_cases entire : id = arenaIdEntire
  · have all : shredLoop request arena.blocks.chain.length (cells arena.blocks.chain)
        (pointerTo arena.blocks.chain none) =
          some (cells (arena.blocks.chain.map (internalBlockShred request))) :=
      shredLoop_cells whole (Nat.le_refl _) request
    rw [pointerTo_chain] at all
    simp only [internalShred, internalArenaShred, if_pos entire, linked, cells_length, all,
      Option.map_some, headAddress_map place, chain_map, places_map place]
    rfl
  · by_cases current : id = arenaIdCurrent
    · simp only [internalShred, internalArenaShred, if_neg entire, if_pos current]
      rw [← linked_current once place]
      rfl
    · have search : idLoop (id % 2 ^ 16).toNat arena.blocks.chain.length (cells arena.blocks.chain)
          (pointerTo arena.blocks.chain none) =
            some ((getArena arena.blocks.chain (id % 2 ^ 16).toNat).map ArenaBlock.address) :=
        idLoop_cells whole (Nat.le_refl _) _
      rw [pointerTo_chain] at search
      simp only [internalShred, internalArenaShred, if_neg entire, if_neg current, linked_memory,
        linked_head, cells_length, search]
      cases getArena arena.blocks.chain (id % 2 ^ 16).toNat with
      | none => rfl
      | some target =>
        have changed := linked_changed place arena target.address
        simp only [Option.map_some]
        rw [← changed]
        rfl

theorem strdup_linked {arena : Arena} (once : Once arena.blocks.chain)
    (fresh : ArenaCalls.Fresh arena malloc) (src : Option (List UInt8)) :
    strdup (linked arena) src malloc =
      (arenaStrdup arena src malloc).map fun (next, pointer) => (linked next, pointer) := by
  cases src with
  | none => rfl
  | some bytes =>
    simp only [strdup, arenaStrdup, arenaAlloc, allocateRaw_linked once fresh, Option.map_map]
    congr 1
    funext answer
    obtain ⟨granted, dest⟩ := answer
    cases dest with
    | none => rfl
    | some dest => simp [write_linked]

theorem shred_linked {arena : Arena} (once : Once arena.blocks.chain) (id : Int) (request : Bool) :
    (shred (linked arena) id request).map Prod.fst =
      ((arenaShred (some arena) id request).bind Prod.fst).map linked := by
  simp only [shred, arenaShred]
  rw [linked_mutex]
  split
  · rfl
  · rw [internalShred_linked once]
    rfl

theorem headAddress_rewind (blocks : Blocks) :
    blocks.rewind.current.address = headAddress blocks ∧
      headAddress blocks.rewind = headAddress blocks := by
  rcases blocks with ⟨_ | ⟨head, rest⟩, current, after⟩ <;> exact ⟨rfl, rfl⟩

theorem reset_linked {arena : Arena} (once : Once arena.blocks.chain) :
    reset (linked arena) = (arenaReset (some arena)).join.map linked := by
  simp only [reset, arenaReset]
  rw [linked_mutex]
  split
  · rfl
  · rw [internalShred_linked once]
    have heads := headAddress_rewind (internalArenaShred arena.blocks arenaIdEntire true).1
    simp only [Option.map_some, Option.join_some, linked, rewind_chain, heads.1, heads.2]

theorem memory_blocks (arena : Arena) : (linked arena).memory.map Cell.block = arena.blocks.chain :=
  cellsTo_blocks arena.blocks.chain none

theorem fresh_linked (arena : Arena) (malloc : Option Nat) :
    Fresh (linked arena) malloc ↔ ArenaCalls.Fresh arena malloc := by
  rw [ArenaCalls.Fresh, ← memory_blocks]
  simp [Fresh]

/-- On the pointers a call does what it does to the list. -/
theorem step_linked {arena : Arena} (once : Once arena.blocks.chain) (call : Call) :
    step (linked arena) call = (ArenaCalls.step arena call).map linked := by
  cases call with
  | alloc size malloc =>
    simp only [step, ArenaCalls.step, fresh_linked]
    split
    case isTrue fresh =>
      rw [allocateRaw_linked once fresh, Option.map_map, Option.map_map]
      rfl
    case isFalse => rfl
  | strdup src malloc =>
    simp only [step, ArenaCalls.step, fresh_linked]
    split
    case isTrue fresh =>
      rw [strdup_linked once fresh, Option.map_map, Option.map_map]
      rfl
    case isFalse => rfl
  | shred id request => exact shred_linked once id request
  | reset => exact reset_linked once
  | setContainsFd isContain => rfl
  | setContainsDbConnection isContain =>
    simp only [step, ArenaCalls.step, arenaSetContainsDbConnection]
    rw [linked_mutex]
    split <;> rfl
  | setContainsResources isContain =>
    simp only [step, ArenaCalls.step, arenaSetContainsResources]
    rw [linked_mutex]
    split <;> rfl
  | store pointer bytes => exact congrArg some (write_linked arena pointer bytes)

/-- No call links a block twice. -/
theorem once_step {arena : Arena} (once : Once arena.blocks.chain)
    (taken : ArenaCalls.step arena call = some next) : Once next.blocks.chain := by
  obtain ⟨malloc, fresh, extends_⟩ := ArenaCalls.step_extends taken
  exact once_grown once extends_.grown fresh

end ShapeQuake.LinkedBlocks
