import ShapeQuake.LinkedBlocks

/-! What `arena_destroy` frees, against the record of every block that `arena_new_block` has
returned for the arena. The loop follows `next` from block to block in memory, and a block
that has been freed is no longer there to be read. -/
namespace ShapeQuake.ArenaDestruction
open Library.Runs Allocator AllocatorInvariants LinkedBlocks
open ArenaCalls (Answered Call places)

/-! ## The program -/

/-- `free`, with the block as it was when it was freed. -/
def free (memory : List Cell) (address : Nat) : Option (ArenaBlock × List Cell) :=
  (cellAt memory address).map fun cell => (cell.block, memory.eraseP (isAt address))

theorem free_length (freed : free memory address = some (block, left)) :
    left.length < memory.length := by
  obtain ⟨cell, there, same⟩ := Option.map_eq_some_iff.mp freed
  obtain ⟨_, rfl⟩ := Prod.mk.inj same
  have member : cell ∈ memory := List.mem_of_find?_eq_some there
  have here := List.find?_some there
  have shorter := List.length_eraseP_of_mem member here
  have positive := List.length_pos_of_mem member
  omega

/-- The loop of `arena_destroy` from a block on: what is left in memory, and the blocks it
has freed. It has no result when it reads a block that is not there. -/
def destroyFrom (memory : List Cell) (block : Option Nat) : Option (List Cell × List ArenaBlock) :=
  match block with
  | none => some (memory, [])
  | some address =>
    match cellAt memory address with
    | none => none
    | some cell =>
      let next := cell.next
      -- the block goes, with the pointer in it
      match _freed : free (changeBlock memory address (internalBlockShred true)) address with
      | none => none
      | some (block, left) =>
        (destroyFrom left next).map fun (last, others) => (last, block :: others)
termination_by memory.length
decreasing_by
  have shorter := free_length _freed
  rwa [changeBlock_length] at shorter

/-- How `arena_destroy` ends: the arena if there still is one, the blocks in memory, those
that were freed, and what is returned. -/
structure Ending where
  arena : Option LinkedArena
  memory : List Cell
  freed : List ArenaBlock
  status : Status

/-- `arena_destroy`. -/
def destroy (arena : LinkedArena) (forceDestroy : Bool) : Option Ending :=
  if arena.mutex then none
  else if forceDestroy = false ∧ (arena.containsDbHandle ∨ arena.containsFd) then
    some ⟨some arena, arena.memory, [], asStatus .arena .failure .resourceHeld⟩
  else
    (destroyFrom arena.memory (some arena.head)).map fun (left, freed) =>
      ⟨none, left, freed, asStatus .arena .success .destroy⟩

/-! ## What comes before it -/

/-- `arena_init`, where there is memory, no sum wraps and `malloc` keeps to its contract. -/
def init (blockSize address : Nat) : Option LinkedArena :=
  if Initial blockSize address then LinkedBlocks.init blockSize (some address) else none

/-- The size that a call allocates, and the answer of `malloc` if it is asked. -/
def requested : Call → Option (Nat × Option Nat)
  | .alloc size malloc => some (size, malloc)
  | .strdup (some bytes) malloc => some ((bytes.takeWhile (· ≠ 0)).length + 1, malloc)
  | _ => none

/-- The rounding, the header addition and the offset sum of a request do not wrap, and
`malloc` keeps to its contract. -/
def InContract (arena : LinkedArena) (size : Nat) (malloc : Option Nat) : Prop :=
  size + 15 < 2 ^ 64 ∧ sizeofArenaBlock + align (max (align size) arena.blockSize) < 2 ^ 64 ∧
    (∀ cell ∈ cellAt arena.memory arena.current, cell.block.offset + align size < 2 ^ 64) ∧
    ∀ address ∈ malloc, MallocAnswers (arena.memory.map Cell.block)
      (totalSize (max (align size) arena.blockSize)) address

instance : Decidable (InContract arena size malloc) := inferInstanceAs (Decidable (_ ∧ _))

/-- There is memory for the call, and its sizes are in order. -/
def Possible (arena : LinkedArena) (call : Call) : Prop :=
  Answered call ∧ ∀ request ∈ requested call, InContract arena request.1 request.2

instance : Decidable (Possible arena call) := inferInstanceAs (Decidable (_ ∧ _))

/-- One call before the arena is destroyed, or one store of a client. -/
def step (arena : LinkedArena) (call : Call) : Option LinkedArena :=
  if Possible arena call then LinkedBlocks.step arena call else none

/-! ## Freeing a chain -/

private theorem destroyFrom_cell (there : cellAt memory address = some cell)
    (freed : free (changeBlock memory address (internalBlockShred true)) address = some (block, left)) :
    destroyFrom memory (some address) =
      (destroyFrom left cell.next).map fun (last, others) => (last, block :: others) := by
  rw [destroyFrom]
  simp only [there]
  split
  case h_1 none_ => cases none_.symm.trans freed
  case h_2 other rest same =>
    obtain ⟨rfl, rfl⟩ := Prod.mk.inj (Option.some.inj (same.symm.trans freed))
    rfl

/-- The first block of a chain is wiped and freed, and the others are not touched. -/
private theorem free_first (once : Once (block :: rest)) :
    free (changeBlock (cells (block :: rest)) block.address (internalBlockShred true)) block.address =
      some (internalBlockShred true block, cells rest) := by
  have whole : Once ([] ++ block :: rest) := once
  have wiped : changeBlock (cells (block :: rest)) block.address (internalBlockShred true) =
      cells (internalBlockShred true block :: rest) := changeBlock_middle whole (shred_inPlace true)
  have here : isAt block.address ⟨internalBlockShred true block, pointerTo rest none⟩ = true :=
    decide_eq_true rfl
  rw [wiped, free, cells, cellsTo, cellAt, List.find?_cons_of_pos here, List.eraseP_cons_of_pos here]
  rfl

/-- The loop frees the blocks of a chain one after the other, each wiped, and leaves none. -/
theorem destroyFrom_chain (once : Once chain) :
    destroyFrom (cells chain) (pointerTo chain none) = some ([], chain.map (internalBlockShred true)) := by
  induction chain with
  | nil =>
    rw [pointerTo, destroyFrom]
    rfl
  | cons block rest ih =>
    have whole : Once ([] ++ block :: rest) := once
    have there : cellAt (cells (block :: rest)) block.address = some ⟨block, pointerTo rest none⟩ :=
      cellAt_cells whole
    rw [pointerTo, destroyFrom_cell there (free_first once), ih (List.nodup_cons.mp once).2]
    rfl

private theorem destroyFrom_linked {arena : Arena} (once : Once arena.blocks.chain) :
    destroyFrom (linked arena).memory (some (linked arena).head) =
      some ([], arena.blocks.chain.map (internalBlockShred true)) := by
  rw [linked_memory, linked_head, ← pointerTo_chain, destroyFrom_chain once]

/-- On the pointers `arena_destroy` does what it does to the list. -/
theorem destroy_linked {arena : Arena} (once : Once arena.blocks.chain) (force : Bool) :
    (destroy (linked arena) force).map (fun ending => (ending.arena, ending.status)) =
      (arenaDestroy (some arena) force).map fun (next, status) => (next.map linked, status) := by
  simp only [destroy, arenaDestroy, destroyFrom_linked once]
  rw [linked_mutex, linked_containsDbHandle, linked_containsFd]
  split
  · rfl
  · split <;> rfl

/-! ## Every run -/

/-- Between calls the lock is free, and the blocks are linked one behind the other, each once:
all that were ever made. -/
def Kept (state : LinkedArena) : Prop :=
  ∃ arena, state = linked arena ∧ Once arena.blocks.chain ∧ arena.mutex = false

theorem kept_init (made : init blockSize address = some state) : Kept state := by
  unfold init at made
  split at made
  case isTrue initial =>
    rw [init_linked] at made
    obtain ⟨arena, fresh, rfl⟩ := Option.map_eq_some_iff.mp made
    have formed := wellFormed_init initial fresh
    exact ⟨arena, rfl, addresses_nodup formed, (arenaInit_flags fresh).1⟩
  case isFalse => cases made

theorem kept_step (kept : Kept state) (taken : step state call = some next) : Kept next := by
  obtain ⟨arena, rfl, once, unlocked⟩ := kept
  unfold step at taken
  split at taken
  case isTrue possible =>
    rw [step_linked once] at taken
    obtain ⟨after, ran, rfl⟩ := Option.map_eq_some_iff.mp taken
    exact ⟨after, rfl, once_step once ran, ArenaCalls.unlocked_step unlocked possible.1 ran⟩
  case isFalse => cases taken

theorem kept_reached (made : init blockSize address = some first)
    (ran : exec step first calls = some state) : Kept state :=
  exec_invariant (fun _ _ _ kept taken => kept_step kept taken) (kept_init made) ran

/-- Each byte of a block's data is zero. -/
def Zeroed (block : ArenaBlock) : Prop := ∀ offset < block.capacity, block.data offset = 0

private theorem shred_zeroed (block : ArenaBlock) : Zeroed (internalBlockShred true block) := by
  intro offset inside
  exact if_pos ⟨Nat.zero_le offset, by rwa [Nat.zero_add]⟩

/-- The resources of an arena keep it, unless they are overruled. -/
def Refused (arena : LinkedArena) (force : Bool) : Prop :=
  force = false ∧ (arena.containsFd = true ∨ arena.containsDbHandle = true)

/-- Whatever has been done with an arena, `arena_destroy` refuses and leaves the blocks as
they are and the lock free, or it frees every block that was ever made for the arena once,
with its whole data zeroed, and no block is left. -/
theorem destroy_releases_all (made : init blockSize address = some first)
    (ran : exec step first calls = some state) (force : Bool) :
    ∃ ending, destroy state force = some ending ∧
      (Refused state force → state.mutex = false ∧
        ending = ⟨some state, state.memory, [], asStatus .arena .failure .resourceHeld⟩) ∧
      (¬ Refused state force → ending.arena = none ∧ ending.memory = [] ∧
        places ending.freed = state.made ∧ (state.made.map Prod.fst).Nodup ∧
        ∀ block ∈ ending.freed, Zeroed block) := by
  obtain ⟨arena, rfl, once, unlocked⟩ := kept_reached made ran
  have free_ : (linked arena).mutex = false := unlocked
  by_cases refused : Refused (linked arena) force
  · have held : force = false ∧ ((linked arena).containsDbHandle ∨ (linked arena).containsFd) :=
      ⟨refused.1, refused.2.symm⟩
    refine ⟨_, by rw [destroy, free_, if_neg (by simp), if_pos held], ?_, ?_⟩
    · exact fun _ => ⟨free_, rfl⟩
    · exact fun granted => absurd refused granted
  · have granted : ¬ (force = false ∧ ((linked arena).containsDbHandle ∨ (linked arena).containsFd)) :=
      fun held => refused ⟨held.1, held.2.symm⟩
    refine ⟨⟨none, [], arena.blocks.chain.map (internalBlockShred true),
      asStatus .arena .success .destroy⟩, ?_, fun held => absurd held refused, fun _ => ?_⟩
    · rw [destroy, free_, if_neg (by simp), if_neg granted, destroyFrom_linked once]
      rfl
    · refine ⟨rfl, rfl, places_map (shred_inPlace true) _, ?_, ?_⟩
      · rw [linked_made, places, List.map_map]
        exact once
      · intro block member
        obtain ⟨old, _, rfl⟩ := List.mem_map.mp member
        exact shred_zeroed old

/-- An arena of two blocks that holds a descriptor, destroyed all the same. -/
theorem two_blocks_freed :
    ∃ first state ending, init 16 4096 = some first ∧
      exec step first [.alloc 16 (some 8192), .alloc 40 (some 8192), .reset,
        .setContainsFd true] = some state ∧
      destroy state true = some ending ∧
      state.made = [(4096, 16), (8192, 48)] ∧ places ending.freed = state.made ∧
      ∀ block ∈ ending.freed, Zeroed block := by
  obtain ⟨first, made⟩ : ∃ first, init 16 4096 = some first := ⟨_, rfl⟩
  obtain ⟨state, ran, record⟩ : ∃ state,
      exec step first [.alloc 16 (some 8192), .alloc 40 (some 8192), .reset,
        .setContainsFd true] = some state ∧
        state.made = [(4096, 16), (8192, 48)] := by
    obtain rfl := Option.some.inj made
    exact ⟨_, rfl, rfl⟩
  obtain ⟨ending, ended, _, released⟩ := destroy_releases_all made ran true
  obtain ⟨_, _, freed, _, zeroed⟩ := released fun refused => nomatch refused.1
  exact ⟨first, state, ending, made, ran, ended, record, freed, zeroed⟩

end ShapeQuake.ArenaDestruction
