import ShapeQuake.AllocatorInvariants
import ShapeQuake.ArenaExhaustion
import ShapeQuake.Library.Runs

/-! What can happen to an arena between `arena_init` and `arena_destroy`, with requests of
any size. Where sums wrap, blocks no longer hold what they say and little is left of an
arena that is in order; what is left is here. -/
namespace ShapeQuake.ArenaCalls
open Library.Bytes Library.Runs Allocator AllocatorInvariants

/-- What happens to an arena: a call, with the answer `malloc` gives if it is asked, or a
client's store. -/
inductive Call where
  | alloc (size : Nat) (malloc : Option Nat)
  | strdup (src : Option (List UInt8)) (malloc : Option Nat)
  | shred (id : Int) (requestResetOffset : Bool)
  | reset
  | setContainsFd (isContain : Bool)
  | setContainsDbConnection (isContain : Bool)
  | setContainsResources (isContain : Bool)
  | store (pointer : Pointer) (bytes : List UInt8)
  deriving Repr

/-- `malloc` does not answer with the address of a block there is, whatever is asked. -/
def Fresh (arena : Arena) (malloc : Option Nat) : Prop :=
  ∀ address ∈ malloc, ∀ block ∈ arena.blocks.chain, block.address ≠ address

instance : Decidable (Fresh arena malloc) := inferInstanceAs (Decidable (∀ address ∈ malloc, _))

/-- One call, of any size, or one store. It has no successor when it waits for the lock
for ever. -/
def step (arena : Arena) : Call → Option Arena
  | .alloc size malloc =>
    if Fresh arena malloc then (arenaAlloc arena size malloc).map Prod.fst else none
  | .strdup src malloc =>
    if Fresh arena malloc then (arenaStrdup arena src malloc).map Prod.fst else none
  | .shred id request => (arenaShred (some arena) id request).bind Prod.fst
  | .reset => (arenaReset (some arena)).join
  | .setContainsFd isContain => (arenaSetContainsFd (some arena) isContain).1
  | .setContainsDbConnection isContain => (arenaSetContainsDbConnection (some arena) isContain).bind Prod.fst
  | .setContainsResources isContain => (arenaSetContainsResources (some arena) isContain).bind Prod.fst
  | .store pointer bytes => some (arena.write pointer bytes)

/-- What a call that returns has done. -/
inductive Taken (arena : Arena) : Call → Arena → Prop where
  | allocated (fresh : Fresh arena malloc) (ran : arenaAlloc arena size malloc = some (next, pointer)) :
      Taken arena (.alloc size malloc) next
  | nothing : Taken arena (.strdup none malloc) arena
  | refused (fresh : Fresh arena malloc)
      (ran : arenaAlloc arena ((bytes.takeWhile (· ≠ 0)).length + 1) malloc = some (next, none)) :
      Taken arena (.strdup (some bytes) malloc) next
  | copied (fresh : Fresh arena malloc)
      (ran : arenaAlloc arena ((bytes.takeWhile (· ≠ 0)).length + 1) malloc = some (next, some dest)) :
      Taken arena (.strdup (some bytes) malloc) (next.write dest (bytes.takeWhile (· ≠ 0) ++ [0]))
  | shredded {id : Int} (unlocked : arena.mutex = false) :
      Taken arena (.shred id request)
        { arena with blocks := (internalArenaShred arena.blocks id request).1 }
  | emptied (unlocked : arena.mutex = false) : Taken arena .reset arena.emptied
  | fd : Taken arena (.setContainsFd isContain) { arena with containsFd := isContain }
  | dbConnection (unlocked : arena.mutex = false) :
      Taken arena (.setContainsDbConnection isContain) { arena with containsDbHandle := isContain }
  | resources (unlocked : arena.mutex = false) :
      Taken arena (.setContainsResources isContain)
        { arena with containsDbHandle := isContain, containsFd := isContain }
  | stored : Taken arena (.store pointer bytes) (arena.write pointer bytes)

private theorem strdup_taken (fresh : Fresh arena malloc)
    (ran : arenaStrdup arena src malloc = some (next, pointer)) : Taken arena (.strdup src malloc) next := by
  cases src with
  | none =>
    obtain ⟨rfl, _⟩ := Prod.mk.inj (Option.some.inj ran)
    exact .nothing
  | some bytes =>
    obtain ⟨⟨granted, dest⟩, allocated, same⟩ := Option.map_eq_some_iff.mp ran
    cases dest with
    | none =>
      obtain ⟨rfl, _⟩ := Prod.mk.inj same
      exact .refused fresh allocated
    | some dest =>
      obtain ⟨rfl, _⟩ := Prod.mk.inj same
      exact .copied fresh allocated

theorem step_taken (taken : step arena call = some next) : Taken arena call next := by
  cases call with
  | alloc size malloc =>
    simp only [step] at taken
    split at taken
    case isTrue fresh =>
      obtain ⟨⟨after, pointer⟩, ran, rfl⟩ := Option.map_eq_some_iff.mp taken
      exact .allocated fresh ran
    case isFalse => cases taken
  | strdup src malloc =>
    simp only [step] at taken
    split at taken
    case isTrue fresh =>
      obtain ⟨⟨after, pointer⟩, ran, rfl⟩ := Option.map_eq_some_iff.mp taken
      exact strdup_taken fresh ran
    case isFalse => cases taken
  | shred id request =>
    obtain ⟨⟨after, status⟩, ran, same⟩ := Option.bind_eq_some_iff.mp taken
    obtain ⟨unlocked, rfl, _⟩ := arenaShred_cases ran
    cases same
    exact .shredded unlocked
  | reset =>
    obtain ⟨unlocked, same⟩ := arenaReset_cases (Option.join_eq_some_iff.mp taken)
    cases same
    exact .emptied unlocked
  | setContainsFd isContain =>
    cases taken
    exact .fd
  | setContainsDbConnection isContain =>
    simp only [step, arenaSetContainsDbConnection] at taken
    split at taken
    case isTrue => cases taken
    case isFalse free =>
      cases taken
      exact .dbConnection (Bool.eq_false_of_not_eq_true free)
  | setContainsResources isContain =>
    simp only [step, arenaSetContainsResources] at taken
    split at taken
    case isTrue => cases taken
    case isFalse free =>
      cases taken
      exact .resources (Bool.eq_false_of_not_eq_true free)
  | store pointer bytes =>
    cases taken
    exact .stored

/-! ## What a call leaves -/

/-- Where the blocks are and which ids they have. -/
def names (chain : List ArenaBlock) : List (Nat × Nat) := chain.map fun block => (block.address, block.id)

/-- Where the blocks are and how large they are. -/
def places (chain : List ArenaBlock) : List (Nat × Nat) :=
  chain.map fun block => (block.address, block.capacity)

@[simp] theorem places_append (first second : List ArenaBlock) :
    places (first ++ second) = places first ++ places second := List.map_append

@[simp] theorem places_cons (block : ArenaBlock) (rest : List ArenaBlock) :
    places (block :: rest) = (block.address, block.capacity) :: places rest := rfl

@[simp] theorem places_nil : places [] = [] := rfl

/-- At most one name is new: at the answer of `malloc`, with the next id. -/
def Grown (malloc : Option Nat) (before after : List (Nat × Nat)) : Prop :=
  after = before ∨ ∃ address last, malloc = some address ∧ before.getLast? = some last ∧
    after = before ++ [(address, (last.2 + 1) % 2 ^ 16)]

/-- Every block has handed out whole multiples of sixteen bytes. -/
def Whole (chain : List ArenaBlock) : Prop := ∀ block ∈ chain, 16 ∣ block.offset

/-- What a call leaves: the unit of the arena, the names but for at most one more, and
that offsets are whole. -/
structure Extends (malloc : Option Nat) (arena next : Arena) : Prop where
  unit : next.blockSize = arena.blockSize
  grown : Grown malloc (names arena.blocks.chain) (names next.blocks.chain)
  whole : Whole arena.blocks.chain → Whole next.blocks.chain

/-- A change of a block that leaves its name, and empties it if it moves its offset. -/
def Keeps (change : ArenaBlock → ArenaBlock) (block : ArenaBlock) : Prop :=
  (change block).address = block.address ∧ (change block).id = block.id ∧
    ((change block).offset = block.offset ∨ (change block).offset = 0)

private theorem keeps_names {change : ArenaBlock → ArenaBlock} (keeps : ∀ block ∈ chain, Keeps change block) :
    names (chain.map change) = names chain := by
  simp only [names, List.map_map]
  apply List.map_congr_left
  intro block member
  obtain ⟨address, id, _⟩ := keeps block member
  simp [address, id]

private theorem keeps_whole {change : ArenaBlock → ArenaBlock} (keeps : ∀ block ∈ chain, Keeps change block)
    (whole : Whole chain) : Whole (chain.map change) := by
  intro changed member
  obtain ⟨block, held, rfl⟩ := List.mem_map.mp member
  rcases (keeps block held).2.2 with same | empty
  · exact same ▸ whole block held
  · exact empty ▸ Nat.dvd_zero 16

/-- A call that changes the blocks at their places. -/
private theorem changed_extends {arena next : Arena} {change : ArenaBlock → ArenaBlock}
    (chain : next.blocks.chain = arena.blocks.chain.map change) (keeps : ∀ block, Keeps change block)
    (unit : next.blockSize = arena.blockSize) : Extends malloc arena next := by
  refine ⟨unit, .inl ?_, fun whole => ?_⟩
  · rw [chain, keeps_names fun block _ => keeps block]
  · rw [chain]
    exact keeps_whole (fun block _ => keeps block) whole

/-- A call that leaves the blocks. -/
private theorem same_extends {arena next : Arena} (unit : next.blockSize = arena.blockSize)
    (blocks : next.blocks = arena.blocks) : Extends malloc arena next :=
  ⟨unit, .inl (by rw [blocks]), fun whole => by rwa [blocks]⟩

theorem findRoom_grown (alignedSize blockSize : Nat) (malloc : Option Nat)
    (before : List ArenaBlock) (current : ArenaBlock) (after : List ArenaBlock) :
    Grown malloc (names (before ++ current :: after))
      (names (findRoom alignedSize blockSize malloc before current after).1.chain) := by
  induction after generalizing before current with
  | nil =>
    rw [findRoom]
    split
    · cases malloc with
      | none => exact .inl rfl
      | some address =>
        refine .inr ⟨address, (current.address, current.id), rfl, ?_, ?_⟩
        · simp [names]
        · simp [names, arenaNewBlock]
    · exact .inl rfl
  | cons next rest ih =>
    rw [findRoom]
    split
    · have moved := ih (before ++ [current]) { next with offset := 0 }
      have same : names ((before ++ [current]) ++ { next with offset := 0 } :: rest) =
          names (before ++ current :: next :: rest) := by
        simp [names]
      rwa [same] at moved
    · exact .inl rfl

private theorem findRoom_whole (alignedSize blockSize : Nat) (malloc : Option Nat)
    (whole : Whole (before ++ current :: after)) :
    Whole (findRoom alignedSize blockSize malloc before current after).1.chain := by
  induction after generalizing before current with
  | nil =>
    rw [findRoom]
    split
    · cases malloc with
      | none => exact whole
      | some address =>
        intro block member
        rcases List.mem_append.mp member with old | new
        · exact whole block old
        · obtain rfl := List.mem_singleton.mp new
          exact Nat.dvd_zero 16
    · exact whole
  | cons next rest ih =>
    rw [findRoom]
    split
    · apply ih
      intro block member
      simp only [List.append_assoc, List.singleton_append, List.mem_append, List.mem_cons] at member
      rcases member with old | rfl | rfl | old
      · exact whole block (List.mem_append_left _ old)
      · exact whole block (by simp)
      · exact Nat.dvd_zero 16
      · exact whole block (by simp [old])
    · exact whole

private theorem alloc_extends (ran : arenaAlloc arena size malloc = some (next, pointer)) :
    Extends malloc arena next := by
  obtain ⟨_, found, room, loop, outcome⟩ := arenaAllocateRaw_cases ran
  have grown := findRoom_grown (align size) arena.blockSize malloc arena.blocks.before arena.blocks.current
    arena.blocks.after
  have whole : Whole arena.blocks.chain → Whole found.chain := by
    intro whole
    have moved := findRoom_whole (align size) arena.blockSize malloc whole
    rwa [loop] at moved
  rw [loop] at grown
  rcases outcome with ⟨_, _, rfl⟩ | ⟨_, _, rfl⟩
  · exact ⟨rfl, grown, whole⟩
  · refine ⟨rfl, ?_, fun before => ?_⟩
    · simpa [Blocks.chain, names] using grown
    · have held := whole before
      intro block member
      simp only [chain_mk, List.mem_append, List.mem_cons] at member
      rcases member with old | rfl | old
      · exact held block (by simp [Blocks.chain, old])
      · exact wrap64_dvd (held _ (current_mem_chain found)) (align_dvd size)
      · exact held block (mem_chain_of_after old)

private theorem write_keeps (pointer : Pointer) (bytes : List UInt8) (block : ArenaBlock) :
    Keeps (fun block =>
      if block.address = pointer.block then
        { block with data := writeBytes block.data pointer.offset bytes }
      else block) block := by
  by_cases there : block.address = pointer.block
  · simp [Keeps, there]
  · simp [Keeps, there]

private theorem write_extends (extended : Extends malloc arena next) (pointer : Pointer)
    (bytes : List UInt8) : Extends malloc arena (next.write pointer bytes) := by
  have keeps := fun block => write_keeps pointer bytes block
  refine ⟨extended.unit, ?_, fun whole => ?_⟩
  · rw [Arena.write, chain_map, keeps_names fun block _ => keeps block]
    exact extended.grown
  · rw [Arena.write, chain_map]
    exact keeps_whole (fun block _ => keeps block) (extended.whole whole)

private theorem shred_keeps (request : Bool) (block : ArenaBlock) :
    Keeps (internalBlockShred request) block := by
  cases request
  · exact ⟨rfl, rfl, .inl rfl⟩
  · exact ⟨rfl, rfl, .inr rfl⟩

private theorem shred_extends (arena : Arena) (id : Int) (request : Bool) :
    Extends malloc arena { arena with blocks := (internalArenaShred arena.blocks id request).1 } := by
  unfold internalArenaShred
  split
  · exact changed_extends (chain_map _ _) (shred_keeps request) rfl
  · split
    · have keeps := shred_keeps request arena.blocks.current
      refine ⟨rfl, .inl ?_, fun whole block member => ?_⟩
      · simp [Blocks.chain, names, keeps.1, keeps.2.1]
      · simp only [chain_mk, List.mem_append, List.mem_cons] at member
        rcases member with old | rfl | old
        · exact whole block (by simp [Blocks.chain, old])
        · rcases keeps.2.2 with same | empty
          · exact same ▸ whole _ (current_mem_chain _)
          · exact empty ▸ Nat.dvd_zero 16
        · exact whole block (mem_chain_of_after old)
    · split
      · rename_i target _
        refine changed_extends (chain_map _ _) (fun block => ?_) rfl
        by_cases same : block.address = target.address
        · have keeps := shred_keeps request block
          simpa only [Keeps, same, if_true] using keeps
        · simp [Keeps, same]
      · exact same_extends rfl rfl

/-- What one call leaves. -/
theorem step_extends (taken : step arena call = some next) :
    ∃ malloc, Fresh arena malloc ∧ Extends malloc arena next := by
  cases step_taken taken with
  | allocated fresh ran => exact ⟨_, fresh, alloc_extends ran⟩
  | nothing => exact ⟨none, nofun, same_extends rfl rfl⟩
  | refused fresh ran => exact ⟨_, fresh, alloc_extends ran⟩
  | copied fresh ran => exact ⟨_, fresh, write_extends (alloc_extends ran) _ _⟩
  | shredded _ => exact ⟨none, nofun, shred_extends arena _ _⟩
  | emptied _ =>
    refine ⟨none, nofun, changed_extends ?_ (shred_keeps true) rfl⟩
    rw [Arena.emptied, rewind_chain, chain_map]
  | fd | dbConnection _ | resources _ => exact ⟨none, nofun, same_extends rfl rfl⟩
  | stored => exact ⟨none, nofun, write_extends (same_extends rfl rfl) _ _⟩

/-! ## Calls that find memory -/

/-- With memory for a block an unlocked arena grants every request. -/
theorem alloc_answered (unlocked : arena.mutex = false) (answered : malloc.isSome) (size : Nat) :
    ∃ next pointer, arenaAlloc arena size malloc = some (next, some pointer) := by
  simp only [arenaAlloc, arenaAllocateRaw, unlocked, Bool.false_eq_true, if_false]
  split
  case h_1 blocks loop =>
    obtain ⟨refused, _⟩ := ArenaExhaustion.findRoom_refused loop
    simp [refused] at answered
  case h_2 => exact ⟨_, _, rfl⟩

/-- The call finds memory if it asks for it. -/
def Answered : Call → Prop
  | .alloc _ malloc => malloc.isSome
  | .strdup _ malloc => malloc.isSome
  | _ => True

instance : DecidablePred Answered
  | .alloc _ malloc => inferInstanceAs (Decidable (malloc.isSome = true))
  | .strdup _ malloc => inferInstanceAs (Decidable (malloc.isSome = true))
  | .shred _ _ | .reset | .setContainsFd _ | .setContainsDbConnection _ | .setContainsResources _
  | .store _ _ => isTrue trivial

/-- An allocation that finds memory gives the lock back. -/
theorem alloc_unlocked (answered : malloc.isSome)
    (ran : arenaAlloc arena size malloc = some (next, pointer)) : next.mutex = false := by
  obtain ⟨unlocked, _⟩ := arenaAllocateRaw_cases ran
  obtain ⟨after, _, granted⟩ := alloc_answered unlocked answered size
  obtain ⟨rfl, rfl⟩ := Prod.mk.inj (Option.some.inj (ran.symm.trans granted))
  obtain ⟨_, _, _, _, ⟨_, refused, _⟩ | ⟨_, _, rfl⟩⟩ := arenaAllocateRaw_cases ran
  · cases refused
  · exact unlocked

theorem unlocked_step (unlocked : arena.mutex = false) (answered : Answered call)
    (taken : step arena call = some next) : next.mutex = false := by
  cases step_taken taken with
  | allocated _ ran | refused _ ran => exact alloc_unlocked answered ran
  | copied _ ran =>
    -- the copy stores into a block and leaves the lock
    have free := alloc_unlocked answered ran
    exact free
  | nothing | fd | stored => exact unlocked
  | shredded free | emptied free | dbConnection free | resources free => exact free

theorem unlocked_reached (unlocked : first.mutex = false) (answered : ∀ call ∈ calls, Answered call)
    (ran : exec step first calls = some arena) : arena.mutex = false := by
  let free : Arena → Prop := fun state => state.mutex = false
  have kept : free arena :=
    exec_invariant_of_allowed (fun _ _ _ held here taken => unlocked_step held here taken) unlocked
      ran answered
  exact kept

end ShapeQuake.ArenaCalls
