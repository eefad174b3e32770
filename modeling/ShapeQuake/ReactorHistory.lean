import Mathlib.Data.List.Sort
import ShapeQuake.ReactorRacesProofs

/-! What a worker runs, whatever its callers do between its steps. Tasks can be lost, but none
is run twice: the walk meets the slots of a round in the order in which they were
handed out, a slot is never met again before a reset has wiped it, and each caller
copies its task once. The invariant ties what was run to the slots handed out and
what a block holds to the copies made since the last reset. -/
namespace ShapeQuake.ReactorHistory
open Library.Bytes Library.Runs Allocator AllocatorInvariants Reactor ReactorSlots ReactorRaces
open ReactorRacesProofs

/-! ## What is watched -/

/-- What was found in a slot when it was run, in which round of resets, and which
caller copied it there, if any did since the last reset. -/
structure Ran where
  slot : Pointer
  resets : Nat
  task : Task
  owner : Option Nat
  deriving DecidableEq, Repr

def Ran.key (ran : Ran) : Pointer × Nat := (ran.slot, ran.resets)

/-- The state, the copies made since the last reset with their callers, the last one
first, and what has been run so far. -/
structure Watched where
  state : State
  copies : List (Pointer × Nat)
  history : List Ran

/-- The copies after a step. -/
def copiesAfter (watched : Watched) : Event → List (Pointer × Nat)
  | .copy number =>
    (watched.state.callers[number]?).elim watched.copies fun caller =>
      (caller.slot, number) :: watched.copies
  | .work => if watched.state.place = .resetting then [] else watched.copies
  | .allocate _ _ | .post _ => watched.copies

/-- What the worker runs at its place. -/
def ranAt (watched : Watched) : Place → List Ran
  | .running index readOffset =>
    (watched.state.arena.blocks.chain[index]?).elim [] fun block =>
      [⟨⟨block.address, readOffset⟩, watched.state.resets, taskAt block.data readOffset,
        watched.copies.lookup ⟨block.address, readOffset⟩⟩]
  | .waiting | .atBlock _ | .reading _ _ | .leaving _ | .resetting => []

/-- What a step runs. -/
def ranBy (watched : Watched) : Event → List Ran
  | .work => ranAt watched watched.state.place
  | .allocate _ _ | .copy _ | .post _ => []

/-- A step that is watched. -/
def watch (watched : Watched) (event : Event) : Option Watched :=
  (step watched.state event).map fun state =>
    ⟨state, copiesAfter watched event, watched.history ++ ranBy watched event⟩

/-- Nothing has happened yet. -/
def unwatched (state : State) : Watched := ⟨state, [], []⟩

/-- The calls of the task that the caller of this number enqueued. -/
def callsOfCaller (callers : List Caller) (number : Nat) : List Call :=
  (callers[number]?).elim [] fun caller => callsOf caller.task

/-- What a slot holds that nobody has written to. -/
def emptyTask : Task := ⟨⟨0, 0, 0, 0, 0, 0, 0, 0, 0, 0, 0⟩, 0, 0⟩

/-- The task that a copy put into its slot. -/
def copiedTask (tasks : List Task) (owner : Option Nat) : Task :=
  (owner.bind fun number => tasks[number]?).getD emptyTask

@[simp] theorem callsOf_emptyTask : callsOf emptyTask = [] := by decide

theorem taskAt_empty (zeroed : ∀ i < sizeofTask, data (offset + i) = 0) :
    taskAt data offset = emptyTask := by
  have bytes : taskBytes emptyTask = List.replicate sizeofTask 0 := by decide
  apply taskAt_stored
  rw [bytes]
  have same : ∀ i < (List.replicate sizeofTask (0 : UInt8)).length,
      data (offset + i) = (List.replicate sizeofTask 0).getD i 0 := by
    intro i inside
    rw [List.length_replicate] at inside
    rw [zeroed i inside, List.getD_replicate _ inside]
  have found := readBytes_eq same
  rwa [List.length_replicate] at found

/-! ## The order of slots -/

/-- The slot is in the block of this number. -/
def At (chain : List ArenaBlock) (index : Nat) (slot : Pointer) : Prop :=
  ∃ block, chain[index]? = some block ∧ block.address = slot.block

/-- A slot comes before another: in an earlier round of resets, or in the same one and
earlier on the way of the walk. -/
def Earlier (chain : List ArenaBlock) (first second : Pointer × Nat) : Prop :=
  first.2 < second.2 ∨ first.2 = second.2 ∧ ∃ index later, At chain index first.1 ∧
    At chain later second.1 ∧ (index < later ∨ index = later ∧ first.1.offset < second.1.offset)

/-- Every block is still at its number. -/
def Stays (before after : List ArenaBlock) : Prop :=
  ∀ (index : Nat) block, before[index]? = some block →
    ∃ later, after[index]? = some later ∧ later.address = block.address

theorem stays_of_kept (kept : Kept before after) : Stays before after := by
  intro index block here
  obtain ⟨later, there, address, _⟩ := kept index block here
  exact ⟨later, there, address⟩

theorem At.stays (at_ : At before index slot) (stays : Stays before after) : At after index slot := by
  obtain ⟨block, here, address⟩ := at_
  obtain ⟨later, there, same⟩ := stays index block here
  exact ⟨later, there, same.trans address⟩

theorem Earlier.stays (earlier : Earlier before first second) (stays : Stays before after) :
    Earlier after first second := by
  rcases earlier with round | ⟨round, index, later, here, there, less⟩
  · exact .inl round
  · exact .inr ⟨round, index, later, here.stays stays, there.stays stays, less⟩

/-- A slot is in one block only. -/
theorem at_unique (once : (chain.map ArenaBlock.address).Nodup) (first : At chain index slot)
    (second : At chain later slot) : index = later := by
  obtain ⟨block, here, address⟩ := first
  obtain ⟨other, there, same⟩ := second
  have addresses : (chain.map ArenaBlock.address)[index]? = (chain.map ArenaBlock.address)[later]? := by
    rw [List.getElem?_map, List.getElem?_map, here, there, Option.map_some, Option.map_some, address, same]
  have bound : index < (chain.map ArenaBlock.address).length := by
    rw [List.length_map]
    exact (List.getElem?_eq_some_iff.mp here).1
  exact (List.getElem?_inj bound once).mp addresses

/-- The order of slots goes one way. -/
theorem earlier_asymm (once : (chain.map ArenaBlock.address).Nodup) (forth : Earlier chain first second) :
    ¬ Earlier chain second first := by
  intro back
  rcases forth with round | ⟨round, index, later, here, there, less⟩
  · rcases back with other | ⟨other, _⟩
    · omega
    · omega
  · rcases back with other | ⟨_, index', later', here', there', less'⟩
    · omega
    · obtain rfl := at_unique once here there'
      obtain rfl := at_unique once there here'
      omega

/-- A list that goes one way and lies within another that goes the same way is part of
it, in order. -/
theorem sublist_of_ordered {order : α → α → Prop} {first second : List α}
    (oneWay : ∀ a b, order a b → ¬ order b a) (subset : first ⊆ second) (ordered : first.Pairwise order)
    (all : second.Pairwise order) : first.Sublist second := by
  have : Std.Antisymm order := ⟨fun a b forth back => absurd back (oneWay a b forth)⟩
  have : Std.Irrefl order := ⟨fun a same => oneWay a a same same⟩
  exact List.sublist_of_subperm_of_pairwise (List.subperm_of_subset ordered.nodup subset) ordered all

/-! ## The walk -/

/-- The walk has gone past this offset of the block of this number. -/
def after (index offset : Nat) : Place → Prop
  | .waiting => False
  | .atBlock at_ => index < at_
  | .reading at_ readOffset | .running at_ readOffset => index < at_ ∨ index = at_ ∧ offset < readOffset
  | .leaving at_ => index ≤ at_
  | .resetting => True

/-- The walk has gone past a slot. -/
def Passed (chain : List ArenaBlock) (place : Place) (slot : Pointer) : Prop :=
  ∃ index, At chain index slot ∧ after index slot.offset place

/-- What holds of the slots handed out, whatever was run. -/
structure Handed (state : State) : Prop where
  formed : WellFormed state.arena.blocks sizeArenaDefault
  unit : state.arena.blockSize = sizeArenaDefault
  slotted : ∀ block ∈ state.arena.blocks.chain, Slotted block
  slots : Slots state.arena.blocks.chain state.resets (state.callers.map key)
  homes : ∀ caller ∈ state.callers, ∃ index, At state.arena.blocks.chain index caller.slot
  covered : ∀ block ∈ state.arena.blocks.chain, ∀ offset, slotSize ∣ offset → offset < block.offset →
    (⟨block.address, offset⟩, state.resets) ∈ state.callers.map key
  ordered : (state.callers.map key).Pairwise (Earlier state.arena.blocks.chain)
  walking : ∀ index readOffset, state.place = .reading index readOffset ∨
    state.place = .running index readOffset → slotSize ∣ readOffset
  running : ∀ index readOffset, state.place = .running index readOffset →
    ∃ block, state.arena.blocks.chain[index]? = some block ∧ readOffset < block.offset

/-- What was run is behind the walk, in order, and was handed out. -/
structure InOrder (state : State) (history : List Ran) : Prop where
  past : ∀ ran ∈ history, ran.resets ≤ state.resets
  passed : ∀ ran ∈ history, ran.resets = state.resets →
    Passed state.arena.blocks.chain state.place ran.slot
  ordered : (history.map Ran.key).Pairwise (Earlier state.arena.blocks.chain)
  handed : ∀ ran ∈ history, ran.key ∈ state.callers.map key

/-- The caller of this number has copied its task into the slot. -/
def Copied (callers : List Caller) (slot : Pointer) (number : Nat) : Prop :=
  ∃ caller, callers[number]? = some caller ∧ caller.slot = slot ∧ caller.phase ≠ .allocated

/-- The blocks hold what was copied since the last reset, and what was run was found so. -/
structure Owned (watched : Watched) : Prop where
  holds : ∀ block ∈ watched.state.arena.blocks.chain, ∀ offset, slotSize ∣ offset →
    offset + slotSize ≤ sizeArenaDefault → taskAt block.data offset =
      copiedTask (watched.state.callers.map Caller.task) (watched.copies.lookup ⟨block.address, offset⟩)
  copied : ∀ slot number, (slot, number) ∈ watched.copies → Copied watched.state.callers slot number
  owners : ∀ ran ∈ watched.history, ∀ number ∈ ran.owner,
    Copied watched.state.callers ran.slot number ∧
      (ran.resets ≠ watched.state.resets → ∀ slot, (slot, number) ∉ watched.copies)
  once : (watched.history.filterMap Ran.owner).Nodup
  found : ∀ ran ∈ watched.history,
    ran.task = copiedTask (watched.state.callers.map Caller.task) ran.owner
  calls : watched.state.calls = watched.history.flatMap fun ran => callsOf ran.task

/-- The invariant of a watched run. -/
structure Sound (watched : Watched) : Prop where
  handed : Handed watched.state
  inOrder : InOrder watched.state watched.history
  owned : Owned watched

/-! ## Allocating -/

/-- What an allocation of a task leaves of the blocks: they stay, a new one is empty, and
all that a block has handed out more is the slot, with nothing handed out behind it. -/
structure Extended (before : List ArenaBlock) (after : Arena) (slot : Option Pointer) : Prop where
  allocated : Allocated before after slot
  fresh : ∀ block ∈ after.blocks.chain,
    (∃ old ∈ before, old.address = block.address) ∨ block.data = zeros
  offsets : ∀ block ∈ after.blocks.chain, ∀ offset, slotSize ∣ offset → offset < block.offset →
    (∃ old ∈ before, old.address = block.address ∧ offset < old.offset) ∨
      slot = some ⟨block.address, offset⟩
  last : ∀ slot_ ∈ slot, ∃ index, At after.blocks.chain index slot_ ∧
    ∀ (later : Nat) block, after.blocks.chain[later]? = some block → index < later → block.offset = 0

private theorem found_blocks {blocks next : Blocks}
    (found : RoomFound alignedSize blockSize malloc blocks (next, room)) :
    ∀ block ∈ next.chain, block ∈ blocks.chain ∨ block.offset = 0 ∧ block.data = zeros := by
  intro block member
  cases found with
  | here _ _ same => exact .inl (same ▸ member)
  | exhausted _ same => exact .inl (same ▸ member)
  | added address id prev =>
    rcases List.mem_append.mp member with old | new
    · exact .inl old
    · obtain rfl := List.mem_singleton.mp new
      exact .inr ⟨rfl, rfl⟩

/-- Of two multiples, the one below the other's successor is below it or the same. -/
private theorem slot_cases (first : slotSize ∣ offset) (second : slotSize ∣ other)
    (below : offset < other + slotSize) : offset < other ∨ offset = other := by
  obtain ⟨count, rfl⟩ := first
  obtain ⟨more, rfl⟩ := second
  rw [slotSize_eq] at *
  omega

theorem alloc_extended (formed : WellFormed arena.blocks sizeArenaDefault)
    (unit : arena.blockSize = sizeArenaDefault) (slotted : ∀ block ∈ arena.blocks.chain, Slotted block)
    (answers : ∀ address ∈ malloc, MallocAnswers arena.blocks.chain
      (totalSize (max (align sizeofTask) arena.blockSize)) address)
    (ran : arenaAlloc arena sizeofTask malloc = some (next, slot)) :
    Extended arena.blocks.chain next slot := by
  have allocated := alloc_allocated formed unit slotted answers ran
  rw [unit] at answers
  obtain ⟨blocks, found, formedFound, granted⟩ :=
    alloc_granted (unit ▸ formed) (unit ▸ grantable_task slotted answers) ran
  rw [unit] at formedFound
  have origin := found_blocks found
  cases granted with
  | refused =>
    refine ⟨allocated, fun block member => ?_, fun block member offset _ below => ?_, by simp⟩
    · rcases origin block member with old | ⟨_, zero⟩
      · exact .inl ⟨block, old, rfl⟩
      · exact .inr zero
    · rcases origin block member with old | ⟨empty, _⟩
      · exact .inl ⟨block, old, rfl, below⟩
      · omega
  | handed fits bumped =>
    have whole : slotSize ∣ blocks.current.offset := (allocated.placed _ rfl).1
    have cases_ : ∀ block ∈ { blocks with
          current := { blocks.current with offset := blocks.current.offset + align sizeofTask } }.chain,
        block ∈ blocks.chain ∨
          block = { blocks.current with offset := blocks.current.offset + align sizeofTask } := by
      intro block member
      simp only [chain_mk, List.mem_append, List.mem_cons] at member
      rcases member with old | rfl | old
      · exact .inl (by simp [Blocks.chain, old])
      · exact .inr rfl
      · exact .inl (mem_chain_of_after old)
    refine ⟨allocated, fun block member => ?_, fun block member offset aligned below => ?_, ?_⟩
    · rcases cases_ block member with held | rfl
      · rcases origin block held with old | ⟨_, zero⟩
        · exact .inl ⟨block, old, rfl⟩
        · exact .inr zero
      · rcases origin _ (current_mem_chain blocks) with old | ⟨_, zero⟩
        · exact .inl ⟨_, old, rfl⟩
        · exact .inr zero
    · rcases cases_ block member with held | rfl
      · rcases origin block held with old | ⟨empty, _⟩
        · exact .inl ⟨block, old, rfl, below⟩
        · omega
      · rcases slot_cases aligned whole below with less | rfl
        · rcases origin _ (current_mem_chain blocks) with old | ⟨empty, _⟩
          · exact .inl ⟨_, old, rfl, less⟩
          · omega
        · exact .inr rfl
    · intro slot_ same
      obtain rfl := Option.some.inj same
      have here : { blocks with
            current := { blocks.current with offset := blocks.current.offset + align sizeofTask } }.chain[
          blocks.before.length]? =
          some { blocks.current with offset := blocks.current.offset + align sizeofTask } := by
        simp only [Blocks.chain, List.getElem?_append_right (Nat.le_refl _), Nat.sub_self,
          List.getElem?_cons_zero]
      refine ⟨blocks.before.length, ⟨_, here, rfl⟩, fun later block there beyond => ?_⟩
      simp only [Blocks.chain] at there
      rw [List.getElem?_append_right (Nat.le_of_lt beyond)] at there
      obtain ⟨more, rest⟩ := Nat.exists_eq_succ_of_ne_zero (Nat.sub_ne_zero_of_lt beyond)
      rw [rest, List.getElem?_cons_succ] at there
      exact formedFound.idle block (List.mem_of_getElem? there)

private theorem handed_grown (handed : Handed state)
    (extended : Extended state.arena.blocks.chain arena none) : Handed { state with arena } := by
  have stays := stays_of_kept extended.allocated.kept
  refine ⟨extended.allocated.formed, extended.allocated.unit, extended.allocated.slotted,
    slots_kept handed.slots extended.allocated.kept, ?_, ?_, ?_, handed.walking, ?_⟩
  · intro caller member
    obtain ⟨index, at_⟩ := handed.homes caller member
    exact ⟨index, at_.stays stays⟩
  · intro block member offset aligned below
    rcases extended.offsets block member offset aligned below with ⟨old, held, same, before⟩ | new
    · exact same ▸ handed.covered old held offset aligned before
    · cases new
  · exact handed.ordered.imp fun earlier => earlier.stays stays
  · intro index readOffset place
    obtain ⟨block, here, below⟩ := handed.running index readOffset place
    obtain ⟨later, there, _, _, offset⟩ := extended.allocated.kept index block here
    exact ⟨later, there, Nat.lt_of_lt_of_le below offset⟩

/-- A new slot is behind all that were handed out. -/
private theorem handed_joined (handed : Handed state)
    (extended : Extended state.arena.blocks.chain arena (some slot)) {caller : Caller}
    (own : caller.slot = slot) (round : caller.resets = state.resets) :
    Handed { state with arena, callers := state.callers ++ [caller] } := by
  have stays := stays_of_kept extended.allocated.kept
  obtain ⟨aligned, placed, above⟩ := extended.allocated.placed slot rfl
  have slots := slots_added handed.slots extended.allocated.kept aligned placed above
  have keys : (state.callers ++ [caller]).map key =
      state.callers.map key ++ [(slot, state.resets)] := by
    rw [List.map_append, List.map_singleton, key, own, round]
  obtain ⟨index, here, behind⟩ := extended.last slot rfl
  refine ⟨extended.allocated.formed, extended.allocated.unit, extended.allocated.slotted,
    keys ▸ slots, ?_, ?_, ?_, handed.walking, ?_⟩
  · intro other member
    rcases List.mem_append.mp member with old | new
    · obtain ⟨number, at_⟩ := handed.homes other old
      exact ⟨number, at_.stays stays⟩
    · obtain rfl := List.mem_singleton.mp new
      exact ⟨index, own ▸ here⟩
  · intro block member offset aligned below
    show _ ∈ (state.callers ++ [caller]).map key
    rw [keys]
    rcases extended.offsets block member offset aligned below with ⟨old, held, same, before⟩ | new
    · exact List.mem_append_left _ (same ▸ handed.covered old held offset aligned before)
    · rw [← Option.some.inj new]
      exact List.mem_append_right _ (List.mem_singleton_self _)
  · show ((state.callers ++ [caller]).map key).Pairwise _
    rw [keys, List.pairwise_append]
    refine ⟨handed.ordered.imp fun earlier => earlier.stays stays, List.pairwise_singleton _ _, ?_⟩
    intro old member new last
    obtain rfl := List.mem_singleton.mp last
    rcases Nat.lt_or_eq_of_le (handed.slots.past old member) with earlier | same
    · exact .inl earlier
    · obtain ⟨block, held, address, handedOut⟩ := handed.slots.placed old member same
      obtain ⟨number, there⟩ := List.mem_iff_getElem?.mp held
      obtain ⟨later, found, sameAddress, _, offset⟩ := extended.allocated.kept number block there
      refine .inr ⟨same, number, index, ⟨later, found, sameAddress.trans address⟩, here, ?_⟩
      rcases Nat.lt_trichotomy number index with less | rfl | beyond
      · exact .inl less
      · -- in the block of the new slot all others are below it
        obtain ⟨own_, there_, sameBlock⟩ := here
        obtain rfl := Option.some.inj (found.symm.trans there_)
        have highest := above block held (sameAddress.symm.trans sameBlock)
        refine .inr ⟨rfl, ?_⟩
        show old.1.offset < slot.offset
        rw [slotSize_eq] at handedOut
        omega
      · have empty := behind number later found beyond
        rw [slotSize_eq] at handedOut
        omega
  · intro at_ readOffset place
    obtain ⟨block, there, below⟩ := handed.running at_ readOffset place
    obtain ⟨later, found, _, _, offset⟩ := extended.allocated.kept at_ block there
    exact ⟨later, found, Nat.lt_of_lt_of_le below offset⟩

/-- What an allocation does to the state: nothing, no more than new blocks, or a slot
for one more caller. -/
inductive Joins (state : State) : State → Prop
  | refused : Joins state state
  | grown (extended : Extended state.arena.blocks.chain arena none) : Joins state { state with arena }
  | joined (caller : Caller) (extended : Extended state.arena.blocks.chain arena (some caller.slot))
      (round : caller.resets = state.resets) :
      Joins state { state with arena, callers := state.callers ++ [caller] }

theorem allocate_joins (handed : Handed state)
    (taken : step state (.allocate request malloc) = some next) : Joins state next := by
  simp only [step] at taken
  split at taken
  case isFalse => cases taken
  case isTrue answers =>
    have extended {arena : Arena} {slot : Option Pointer}
        (ran : arenaAlloc state.arena sizeofTask malloc = some (arena, slot)) :
        Extended state.arena.blocks.chain arena slot :=
      alloc_extended handed.formed handed.unit handed.slotted answers ran
    unfold allocateStep at taken
    split at taken
    · obtain rfl := Option.some.inj taken
      exact .refused
    · split at taken
      · cases taken
      · rename_i arena ran
        obtain rfl := Option.some.inj taken
        exact .grown (extended ran)
      · rename_i arena slot ran
        obtain rfl := Option.some.inj taken
        exact .joined _ (extended ran) rfl

private theorem mem_of_lookup {copies : List (Pointer × Nat)} (found : copies.lookup slot = some number) :
    (slot, number) ∈ copies := by
  obtain ⟨first, rest, split_, _⟩ := List.lookup_eq_some_iff.mp found
  simp [split_]

/-- What is stored in the blocks is what was, and the blocks that are new hold nothing. -/
private theorem owned_grown (owned : Owned ⟨state, copies, history⟩) (handed : Handed state)
    (extended : Extended state.arena.blocks.chain arena slot) (more : List Caller) :
    Owned ⟨{ state with arena, callers := state.callers ++ more }, copies, history⟩ := by
  have keeps (slot_ : Pointer) (number : Nat) (copied : Copied state.callers slot_ number) :
      Copied (state.callers ++ more) slot_ number := by
    obtain ⟨caller, here, rest⟩ := copied
    exact ⟨caller, (List.getElem?_append_left (List.getElem?_eq_some_iff.mp here).1).trans here, rest⟩
  have same (owner : Option Nat) (of : ∀ number ∈ owner, ∃ slot_, Copied state.callers slot_ number) :
      copiedTask ((state.callers ++ more).map Caller.task) owner =
        copiedTask (state.callers.map Caller.task) owner := by
    cases owner with
    | none => rfl
    | some number =>
      obtain ⟨_, caller, here, _⟩ := of number rfl
      have inside := (List.getElem?_eq_some_iff.mp here).1
      have there : (state.callers ++ more)[number]? = some caller := by
        rw [List.getElem?_append_left inside, here]
      simp only [copiedTask, Option.bind_some, List.getElem?_map, there, here]
  refine ⟨?_, fun slot_ number member => keeps slot_ number (owned.copied slot_ number member), ?_,
    owned.once, ?_, owned.calls⟩
  · intro block member offset aligned fits
    rw [same _ fun number found => ⟨_, owned.copied _ number (mem_of_lookup found)⟩]
    by_cases new : ∃ old ∈ state.arena.blocks.chain, old.address = block.address
    · obtain ⟨old, held, address⟩ := new
      rw [extended.allocated.unwritten old held block member address.symm, ← address]
      exact owned.holds old held offset aligned fits
    · -- nobody has a slot in a block that was not there
      rcases extended.fresh block member with old | zero
      · exact absurd old new
      · have unwritten : copies.lookup ⟨block.address, offset⟩ = none := by
          rw [Option.eq_none_iff_forall_ne_some]
          intro number found
          obtain ⟨caller, here, own, _⟩ :=
            owned.copied _ number (mem_of_lookup found)
          obtain ⟨index, home, there, address⟩ := handed.homes caller (List.mem_of_getElem? here)
          exact new ⟨home, List.mem_of_getElem? there, address.trans (congrArg Pointer.block own)⟩
        rw [unwritten, zero]
        exact taskAt_empty fun _ _ => rfl
  · intro ran member number owner
    obtain ⟨copied, gone⟩ := owned.owners ran member number owner
    exact ⟨keeps _ _ copied, gone⟩
  · intro ran member
    rw [same ran.owner fun number found => ⟨_, (owned.owners ran member number found).1⟩]
    exact owned.found ran member

/-- What was run stays where it is when there are more blocks and callers. -/
private theorem inOrder_grown (inOrder : InOrder state history)
    (extended : Extended state.arena.blocks.chain arena slot) (more : List Caller) :
    InOrder { state with arena, callers := state.callers ++ more } history := by
  have stays := stays_of_kept extended.allocated.kept
  refine ⟨inOrder.past, fun ran member round => ?_, inOrder.ordered.imp fun earlier => earlier.stays stays,
    fun ran member => ?_⟩
  · obtain ⟨index, at_, passed⟩ := inOrder.passed ran member round
    exact ⟨index, at_.stays stays, passed⟩
  · rw [List.map_append]
    exact List.mem_append_left _ (inOrder.handed ran member)

theorem sound_allocate (sound : Sound ⟨state, copies, history⟩)
    (taken : step state (.allocate request malloc) = some next) : Sound ⟨next, copies, history⟩ := by
  cases allocate_joins sound.handed taken with
  | refused => exact sound
  | grown extended =>
    have inOrder := inOrder_grown sound.inOrder extended []
    have owned := owned_grown sound.owned sound.handed extended []
    rw [List.append_nil] at inOrder owned
    exact ⟨handed_grown sound.handed extended, inOrder, owned⟩
  | joined caller extended round =>
    exact ⟨handed_joined sound.handed extended rfl round, inOrder_grown sound.inOrder extended _,
      owned_grown sound.owned sound.handed extended _⟩

/-! ## Copying and posting -/

/-- A caller moves on. -/
private theorem handed_set (handed : Handed state) (here : state.callers[number]? = some caller)
    (phase : Phase) (sem : Nat) :
    Handed { state with sem, callers := state.callers.set number { caller with phase } } := by
  have keys := keys_set here phase
  refine ⟨handed.formed, handed.unit, handed.slotted, keys.symm ▸ handed.slots, ?_, ?_, ?_,
    handed.walking, handed.running⟩
  · intro other member
    rcases mem_set_cases here member with rfl | ⟨index, _, there⟩
    · exact handed.homes caller (List.mem_of_getElem? here)
    · exact handed.homes other (List.mem_of_getElem? there)
  · rw [keys]
    exact handed.covered
  · rw [keys]
    exact handed.ordered

private theorem inOrder_set (inOrder : InOrder state history) (here : state.callers[number]? = some caller)
    (phase : Phase) (sem : Nat) :
    InOrder { state with sem, callers := state.callers.set number { caller with phase } } history :=
  ⟨inOrder.past, inOrder.passed, inOrder.ordered, (keys_set here phase).symm ▸ inOrder.handed⟩

private theorem tasks_set {callers : List Caller} (here : callers[number]? = some caller) (phase : Phase) :
    (callers.set number { caller with phase }).map Caller.task = callers.map Caller.task := by
  have bound : number < (callers.map Caller.task).length := by
    rw [List.length_map]
    exact (List.getElem?_eq_some_iff.mp here).1
  have own : (callers.map Caller.task)[number] = caller.task := by
    rw [List.getElem_map, (List.getElem?_eq_some_iff.mp here).2]
  rw [List.map_set, ← own, List.set_getElem_self]

/-- Who has copied its task stays one who has. -/
private theorem copied_set {callers : List Caller} (here : callers[number]? = some caller)
    (phase : Phase) (further : phase ≠ .allocated) (copied : Copied callers slot other) :
    Copied (callers.set number { caller with phase }) slot other := by
  obtain ⟨found, there, own, began⟩ := copied
  by_cases same : number = other
  · subst same
    obtain rfl := Option.some.inj (here.symm.trans there)
    exact ⟨{ caller with phase }, List.getElem?_set_self (List.getElem?_eq_some_iff.mp here).1, own, further⟩
  · exact ⟨found, (List.getElem?_set_ne same).trans there, own, began⟩

private theorem owned_set (owned : Owned ⟨state, copies, history⟩)
    (here : state.callers[number]? = some caller) (phase : Phase) (further : phase ≠ .allocated)
    (sem : Nat) :
    Owned ⟨{ state with sem, callers := state.callers.set number { caller with phase } }, copies,
      history⟩ := by
  have tasks := tasks_set here phase
  refine ⟨tasks.symm ▸ owned.holds,
    fun slot other member => copied_set here phase further (owned.copied slot other member), ?_,
    owned.once, tasks.symm ▸ owned.found, owned.calls⟩
  intro ran member other owner
  obtain ⟨copied, gone⟩ := owned.owners ran member other owner
  exact ⟨copied_set here phase further copied, gone⟩

theorem sound_post (sound : Sound ⟨state, copies, history⟩)
    (taken : step state (.post number) = some next) : Sound ⟨next, copies, history⟩ := by
  simp only [step, postStep] at taken
  split at taken
  · cases taken
  · rename_i caller here
    split at taken
    case isFalse => cases taken
    case isTrue copied =>
      obtain rfl := Option.some.inj taken
      exact ⟨handed_set sound.handed here _ _, inOrder_set sound.inOrder here _ _,
        owned_set sound.owned here _ (Phase.noConfusion ·) _⟩

/-- A copy into the arena changes no more than what is stored. -/
private theorem handed_write (handed : Handed state) (pointer : Pointer) (bytes : List UInt8) :
    Handed { state with arena := state.arena.write pointer bytes } := by
  have kept := kept_write state.arena pointer bytes
  have stays := stays_of_kept kept
  refine ⟨wellFormed_write handed.formed _ _, handed.unit, slotted_write handed.slotted _ _,
    slots_kept handed.slots kept, fun caller member => ?_, ?_,
    handed.ordered.imp fun earlier => earlier.stays stays, handed.walking, fun index readOffset place => ?_⟩
  · obtain ⟨index, at_⟩ := handed.homes caller member
    exact ⟨index, at_.stays stays⟩
  · intro block member offset aligned below
    rw [Arena.write, chain_map] at member
    obtain ⟨old, held, rfl⟩ := List.mem_map.mp member
    have before : offset < old.offset := by
      revert below
      split <;> exact id
    have address : (if old.address = pointer.block then
        { old with data := writeBytes old.data pointer.offset bytes } else old).address = old.address := by
      split <;> rfl
    rw [address]
    exact handed.covered old held offset aligned before
  · obtain ⟨block, here, below⟩ := handed.running index readOffset place
    obtain ⟨later, there, _, _, offset⟩ := kept index block here
    exact ⟨later, there, Nat.lt_of_lt_of_le below offset⟩

theorem sound_copy (sound : Sound ⟨state, copies, history⟩)
    (taken : step state (.copy number) = some next) :
    Sound ⟨next, copiesAfter ⟨state, copies, history⟩ (.copy number), history⟩ := by
  simp only [step, copyStep] at taken
  split at taken
  · cases taken
  · rename_i caller here
    split at taken
    case isFalse => cases taken
    case isTrue began =>
      obtain rfl := Option.some.inj taken
      obtain ⟨handed, inOrder, owned⟩ := sound
      have stays := stays_of_kept (kept_write state.arena caller.slot (taskBytes caller.task))
      have further : (if caller.requireNotify then Phase.copied else .complete) ≠ .allocated := by
        split <;> exact Phase.noConfusion
      have aligned : slotSize ∣ caller.slot.offset :=
        handed.slots.aligned _ (List.mem_map_of_mem (List.mem_of_getElem? here))
      -- this caller has copied nothing before
      have unheard (slot : Pointer) : ¬ Copied state.callers slot number := by
        rintro ⟨other, there, _, copied⟩
        obtain rfl := Option.some.inj (here.symm.trans there)
        exact copied began
      have written : copiesAfter ⟨state, copies, history⟩ (.copy number) =
          (caller.slot, number) :: copies := by
        simp only [copiesAfter, here, Option.elim_some]
      have passed : InOrder
          { state with arena := state.arena.write caller.slot (taskBytes caller.task) } history :=
        ⟨inOrder.past, fun ran member round => by
          obtain ⟨index, at_, behind⟩ := inOrder.passed ran member round
          exact ⟨index, at_.stays stays, behind⟩,
          inOrder.ordered.imp fun earlier => earlier.stays stays, inOrder.handed⟩
      have own : copiedTask (state.callers.map Caller.task) (some number) = caller.task := by
        simp [copiedTask, here]
      have stored : Owned
          ⟨{ state with
              arena := state.arena.write caller.slot (taskBytes caller.task)
              callers := state.callers.set number
                { caller with phase := if caller.requireNotify then .copied else .complete } },
            (caller.slot, number) :: copies, history⟩ := by
        refine ⟨?_, ?_, ?_, owned.once, (tasks_set here _).symm ▸ owned.found, owned.calls⟩
        · intro block member offset whole fits
          rw [tasks_set here]
          by_cases same : (⟨block.address, offset⟩ : Pointer) = caller.slot
          · rw [same, List.lookup_cons_self, own]
            have found := taskAt_own caller.slot caller.task block member (by rw [← same])
            rwa [← same] at found
          · rw [List.lookup_cons, beq_false_of_ne same]
            have before (old : ArenaBlock) (held : old ∈ state.arena.blocks.chain)
                (address : old.address = (⟨block.address, offset⟩ : Pointer).block) :
                taskAt old.data (⟨block.address, offset⟩ : Pointer).offset =
                  copiedTask (state.callers.map Caller.task) (copies.lookup ⟨block.address, offset⟩) := by
              have kept := owned.holds old held offset whole fits
              rwa [address] at kept
            exact taskAt_write caller.task aligned whole same before block member rfl
        · intro slot other member
          rcases List.mem_cons.mp member with new | old
          · cases new
            exact ⟨_, List.getElem?_set_self (List.getElem?_eq_some_iff.mp here).1, rfl, further⟩
          · exact copied_set here _ further (owned.copied slot other old)
        · intro ran member other owner
          obtain ⟨copied, gone⟩ := owned.owners ran member other owner
          refine ⟨copied_set here _ further copied, fun round slot kept => ?_⟩
          rcases List.mem_cons.mp kept with new | old
          · cases new
            exact unheard _ copied
          · exact gone round slot old
      rw [written]
      exact ⟨handed_set (handed_write handed _ _) here _ _, inOrder_set passed here _ _, stored⟩

/-! ## The worker -/

/-- A step of the walk that runs nothing and turns back nowhere. -/
private theorem sound_moved (sound : Sound ⟨state, copies, history⟩) {place : Place}
    (onward : ∀ index offset, after index offset state.place → after index offset place)
    (walking : ∀ index readOffset,
      place = .reading index readOffset ∨ place = .running index readOffset → slotSize ∣ readOffset)
    (running : ∀ index readOffset, place = .running index readOffset →
      ∃ block, state.arena.blocks.chain[index]? = some block ∧ readOffset < block.offset) (sem : Nat) :
    Sound ⟨{ state with sem, place }, copies, history⟩ := by
  obtain ⟨handed, inOrder, owned⟩ := sound
  refine ⟨⟨handed.formed, handed.unit, handed.slotted, handed.slots, handed.homes, handed.covered,
    handed.ordered, walking, running⟩, ⟨inOrder.past, fun ran member round => ?_, inOrder.ordered,
    inOrder.handed⟩, ⟨owned.holds, owned.copied, owned.owners, owned.once, owned.found, owned.calls⟩⟩
  obtain ⟨index, at_, behind⟩ := inOrder.passed ran member round
  exact ⟨index, at_, onward _ _ behind⟩

/-- Running a task changes no caller's slot, task or phase. -/
private theorem markRan_same (resets : Nat) (slot : Pointer) (task : Task) (caller : Caller) :
    (markRan resets slot task caller).slot = caller.slot ∧
      (markRan resets slot task caller).task = caller.task ∧
      (markRan resets slot task caller).phase = caller.phase := by
  unfold markRan
  split <;> exact ⟨rfl, rfl, rfl⟩

private theorem handed_run (handed : Handed state) (place : state.place = .running index readOffset)
    (slot : Pointer) (task : Task) (calls : List Call) :
    Handed { state with
      place := .reading index (readOffset + slotSize)
      callers := state.callers.map (markRan state.resets slot task)
      calls } := by
  have keys : (state.callers.map (markRan state.resets slot task)).map key = state.callers.map key := by
    rw [List.map_map]
    exact List.map_congr_left fun caller _ => markRan_key _ _ _ caller
  refine ⟨handed.formed, handed.unit, handed.slotted, keys.symm ▸ handed.slots, ?_, ?_, ?_, ?_, ?_⟩
  · intro marked member
    obtain ⟨caller, held, rfl⟩ := List.mem_map.mp member
    rw [(markRan_same _ _ _ caller).1]
    exact handed.homes caller held
  · rw [keys]
    exact handed.covered
  · rw [keys]
    exact handed.ordered
  · rintro at_ offset (same | same)
    · obtain ⟨rfl, rfl⟩ := Place.reading.inj same
      exact Nat.dvd_add (handed.walking index readOffset (.inr place)) (Nat.dvd_refl _)
    · cases same
  · intro at_ offset same
    cases same

/-- What is run next comes behind all that was run. -/
private theorem inOrder_run (inOrder : InOrder state history) (handed : Handed state)
    (place : state.place = .running index readOffset)
    (here : state.arena.blocks.chain[index]? = some block) (task : Task) (owner : Option Nat)
    (calls : List Call) :
    InOrder { state with
        place := .reading index (readOffset + slotSize)
        callers := state.callers.map (markRan state.resets ⟨block.address, readOffset⟩ task)
        calls }
      (history ++ [⟨⟨block.address, readOffset⟩, state.resets, task, owner⟩]) := by
  have keys : (state.callers.map (markRan state.resets ⟨block.address, readOffset⟩ task)).map key =
      state.callers.map key := by
    rw [List.map_map]
    exact List.map_congr_left fun caller _ => markRan_key _ _ _ caller
  have own : At state.arena.blocks.chain index ⟨block.address, readOffset⟩ := ⟨block, here, rfl⟩
  refine ⟨?_, ?_, ?_, ?_⟩
  · intro ran member
    rcases List.mem_append.mp member with old | new
    · exact inOrder.past ran old
    · obtain rfl := List.mem_singleton.mp new
      exact Nat.le_refl _
  · intro ran member round
    rcases List.mem_append.mp member with old | new
    · obtain ⟨at_, there, behind⟩ := inOrder.passed ran old round
      rw [place] at behind
      refine ⟨at_, there, ?_⟩
      simp only [after, slotSize_eq] at behind ⊢
      omega
    · obtain rfl := List.mem_singleton.mp new
      refine ⟨index, own, .inr ⟨rfl, ?_⟩⟩
      exact Nat.lt_add_of_pos_right slotSize_pos
  · rw [List.map_append, List.pairwise_append]
    refine ⟨inOrder.ordered, List.pairwise_singleton _ _, ?_⟩
    intro old member new last
    obtain ⟨ran, held, rfl⟩ := List.mem_map.mp member
    obtain rfl := List.mem_singleton.mp last
    rcases Nat.lt_or_eq_of_le (inOrder.past ran held) with earlier | same
    · exact .inl earlier
    · obtain ⟨at_, there, behind⟩ := inOrder.passed ran held same
      rw [place] at behind
      exact .inr ⟨same, at_, index, there, own, behind⟩
  · intro ran member
    show _ ∈ (state.callers.map _).map key
    rw [keys]
    rcases List.mem_append.mp member with old | new
    · exact inOrder.handed ran old
    · obtain rfl := List.mem_singleton.mp new
      obtain ⟨block_, there, below⟩ := handed.running index readOffset place
      obtain rfl := Option.some.inj (here.symm.trans there)
      exact handed.covered block (List.mem_of_getElem? here) readOffset
        (handed.walking index readOffset (.inr place)) below

/-- A copy found in the slot that is run was run in no other. -/
private theorem owner_new (sound : Sound ⟨state, copies, history⟩)
    (place : state.place = .running index readOffset)
    (here : state.arena.blocks.chain[index]? = some block)
    (owner : (⟨block.address, readOffset⟩, number) ∈ copies) (member : ran ∈ history) :
    ran.owner ≠ some number := by
  intro same
  obtain ⟨⟨caller, there, slot, _⟩, gone⟩ := sound.owned.owners ran member number same
  obtain ⟨other, there_, own, _⟩ := sound.owned.copied _ number owner
  obtain rfl := Option.some.inj (there.symm.trans there_)
  by_cases round : ran.resets = state.resets
  · -- it would be the slot the walk is at, which it has not passed
    obtain ⟨at_, found, behind⟩ := sound.inOrder.passed ran member round
    have slots : ran.slot = ⟨block.address, readOffset⟩ := slot.symm.trans own
    rw [slots] at found behind
    obtain rfl := at_unique (addresses_nodup sound.handed.formed) found ⟨block, here, rfl⟩
    rw [place] at behind
    rcases behind with less | ⟨_, less⟩
    · exact Nat.lt_irrefl _ less
    · exact Nat.lt_irrefl _ less
  · exact gone round _ owner

private theorem owned_run (sound : Sound ⟨state, copies, history⟩)
    (place : state.place = .running index readOffset)
    (here : state.arena.blocks.chain[index]? = some block) :
    Owned ⟨{ state with
        place := .reading index (readOffset + slotSize)
        callers := state.callers.map
          (markRan state.resets ⟨block.address, readOffset⟩ (taskAt block.data readOffset))
        calls := state.calls ++ callsOf (taskAt block.data readOffset) },
      copies,
      history ++ [⟨⟨block.address, readOffset⟩, state.resets, taskAt block.data readOffset,
        copies.lookup ⟨block.address, readOffset⟩⟩]⟩ := by
  have owned := sound.owned
  have tasks : (state.callers.map (markRan state.resets ⟨block.address, readOffset⟩
      (taskAt block.data readOffset))).map Caller.task = state.callers.map Caller.task := by
    rw [List.map_map]
    exact List.map_congr_left fun caller _ => (markRan_same _ _ _ caller).2.1
  have keeps (slot : Pointer) (number : Nat) (copied : Copied state.callers slot number) :
      Copied (state.callers.map (markRan state.resets ⟨block.address, readOffset⟩
        (taskAt block.data readOffset))) slot number := by
    obtain ⟨caller, there, own, began⟩ := copied
    obtain ⟨slot_, _, phase⟩ := markRan_same state.resets ⟨block.address, readOffset⟩
      (taskAt block.data readOffset) caller
    exact ⟨_, by rw [List.getElem?_map, there, Option.map_some], slot_.trans own, phase ▸ began⟩
  obtain ⟨block_, there, below⟩ := sound.handed.running index readOffset place
  obtain rfl := Option.some.inj (here.symm.trans there)
  have held := List.mem_of_getElem? here
  have aligned := sound.handed.walking index readOffset (.inr place)
  have slotted := sound.handed.slotted block held
  have fits : readOffset + slotSize ≤ sizeArenaDefault := by
    obtain ⟨count, starts⟩ := aligned
    obtain ⟨more, ends⟩ := slotted.whole
    have handed := slotted.handed
    rw [slotSize_eq] at *
    omega
  refine ⟨tasks.symm ▸ owned.holds, fun slot number member => keeps slot number (owned.copied slot number member),
    ?_, ?_, ?_, ?_⟩
  · intro ran member number owner
    rcases List.mem_append.mp member with old | new
    · obtain ⟨copied, gone⟩ := owned.owners ran old number owner
      exact ⟨keeps _ _ copied, gone⟩
    · obtain rfl := List.mem_singleton.mp new
      exact ⟨keeps _ _ (owned.copied _ number (mem_of_lookup owner)), fun round => absurd rfl round⟩
  · show (List.filterMap Ran.owner (history ++ [_])).Nodup
    rw [List.filterMap_append]
    refine List.Nodup.append owned.once ?_ ?_
    · cases copies.lookup ⟨block.address, readOffset⟩ <;> simp
    · intro number old new
      obtain ⟨ran, member, owner⟩ := List.mem_filterMap.mp old
      obtain ⟨last, single, found⟩ := List.mem_filterMap.mp new
      obtain rfl := List.mem_singleton.mp single
      exact owner_new sound place here (mem_of_lookup found) member owner
  · intro ran member
    show _ = copiedTask ((state.callers.map _).map Caller.task) _
    rw [tasks]
    rcases List.mem_append.mp member with old | new
    · exact owned.found ran old
    · obtain rfl := List.mem_singleton.mp new
      exact owned.holds block held readOffset aligned fits
  · show state.calls ++ _ = _
    rw [List.flatMap_append, ← owned.calls, List.flatMap_singleton]

/-- A reset wipes what was copied, and takes all slots back. -/
private theorem sound_reset (sound : Sound ⟨state, copies, history⟩) :
    Sound ⟨{ state with arena := state.arena.emptied, place := .waiting, resets := state.resets + 1 },
      [], history⟩ := by
  obtain ⟨handed, inOrder, owned⟩ := sound
  have chain : state.arena.emptied.blocks.chain =
      state.arena.blocks.chain.map (internalBlockShred true) := by
    rw [Arena.emptied, rewind_chain, chain_map]
  have stays : Stays state.arena.blocks.chain state.arena.emptied.blocks.chain := by
    intro index block here
    exact ⟨internalBlockShred true block, by rw [chain, List.getElem?_map, here, Option.map_some], rfl⟩
  have ended : ∀ ran ∈ history, ran.resets < state.resets + 1 := fun ran member =>
    Nat.lt_succ_of_le (inOrder.past ran member)
  refine ⟨⟨wellFormed_reset handed.formed, handed.unit, slotted_reset handed.slotted,
      slots_reset handed.slots, fun caller member => ?_, fun block member offset _ below => ?_,
      handed.ordered.imp fun earlier => earlier.stays stays, by simp, by simp⟩,
    ⟨fun ran member => Nat.le_of_lt (ended ran member),
      fun ran member round => absurd round (Nat.ne_of_lt (ended ran member)),
      inOrder.ordered.imp fun earlier => earlier.stays stays, inOrder.handed⟩,
    ⟨fun block member offset _ fits => ?_, by simp, fun ran member number owner => ?_, owned.once,
      owned.found, owned.calls⟩⟩
  · obtain ⟨index, at_⟩ := handed.homes caller member
    exact ⟨index, at_.stays stays⟩
  · rw [chain] at member
    obtain ⟨old, _, rfl⟩ := List.mem_map.mp member
    exact absurd below (Nat.not_lt_zero _)
  · rw [chain] at member
    obtain ⟨old, held, rfl⟩ := List.mem_map.mp member
    refine taskAt_empty fun i inside => clearBytes_inside ⟨Nat.zero_le _, ?_⟩
    rw [Nat.zero_add, (handed.slotted old held).capacity]
    rw [slotSize_eq] at fits
    rw [sizeofTask_eq] at inside
    omega
  · exact ⟨(owned.owners ran member number owner).1, fun _ _ => List.not_mem_nil⟩

theorem sound_work (sound : Sound ⟨state, copies, history⟩) (taken : step state .work = some next) :
    Sound ⟨next, copiesAfter ⟨state, copies, history⟩ .work,
      history ++ ranBy ⟨state, copies, history⟩ .work⟩ := by
  cases place : state.place with
  | waiting =>
    simp only [step, workStep, place] at taken
    split at taken
    · cases taken
    · obtain rfl := Option.some.inj taken
      simp only [copiesAfter, ranBy, place, ranAt, List.append_nil, reduceCtorEq, ↓reduceIte]
      exact sound_moved sound (by simp [place, after]) (by simp) (by simp) _
  | atBlock index =>
    simp only [step, workStep, place] at taken
    obtain ⟨block, here, rfl⟩ := Option.map_eq_some_iff.mp taken
    simp only [copiesAfter, ranBy, place, ranAt, List.append_nil, reduceCtorEq, ↓reduceIte]
    refine sound_moved sound ?_ ?_ (by split <;> simp) _
    · intro at_ offset behind
      rw [place] at behind
      split
      · exact Nat.le_of_lt behind
      · exact .inl behind
    · rintro at_ offset (same | same)
      · split at same
        · cases same
        · cases same
          exact Nat.dvd_zero _
      · split at same <;> cases same
  | reading index readOffset =>
    simp only [step, workStep, place] at taken
    obtain ⟨block, here, rfl⟩ := Option.map_eq_some_iff.mp taken
    simp only [copiesAfter, ranBy, place, ranAt, List.append_nil, reduceCtorEq, ↓reduceIte]
    refine sound_moved sound ?_ ?_ ?_ _
    · intro at_ offset behind
      rw [place] at behind
      split
      · exact behind
      · rcases behind with less | ⟨rfl, _⟩
        · exact Nat.le_of_lt less
        · exact Nat.le_refl _
    · rintro at_ offset (same | same)
      · split at same <;> cases same
      · split at same
        · cases same
          exact sound.handed.walking index readOffset (.inl place)
        · cases same
    · intro at_ offset same
      split at same
      · rename_i below
        cases same
        exact ⟨block, here, below⟩
      · cases same
  | running index readOffset =>
    simp only [step, workStep, place] at taken
    obtain ⟨block, here, rfl⟩ := Option.map_eq_some_iff.mp taken
    simp only [copiesAfter, ranBy, place, ranAt, here, Option.elim_some, reduceCtorEq, ↓reduceIte]
    exact ⟨handed_run sound.handed place _ _ _, inOrder_run sound.inOrder sound.handed place here _ _ _,
      owned_run sound place here⟩
  | leaving index =>
    simp only [step, workStep, place, Option.some.injEq] at taken
    obtain rfl := taken
    simp only [copiesAfter, ranBy, place, ranAt, List.append_nil, reduceCtorEq, ↓reduceIte]
    refine sound_moved sound ?_ ?_ (by split <;> simp) _
    · intro at_ offset behind
      rw [place] at behind
      split
      · exact Nat.lt_succ_of_le behind
      · trivial
    · rintro at_ offset (same | same) <;> split at same <;> cases same
  | resetting =>
    simp only [step, workStep, place] at taken
    obtain ⟨after_, ran, returned⟩ := Option.bind_eq_some_iff.mp taken
    obtain ⟨_, rfl⟩ := arenaReset_cases ran
    obtain rfl := Option.some.inj returned
    simp only [copiesAfter, ranBy, place, ranAt, List.append_nil, ↓reduceIte]
    exact sound_reset sound

/-! ## Runs -/

theorem watch_state (watched : Watched) (event : Event) :
    (watch watched event).map Watched.state = step watched.state event := by
  rw [watch, Option.map_map]
  exact Option.map_id_apply

theorem sound_watch (sound : Sound watched) (taken : watch watched event = some next) : Sound next := by
  obtain ⟨state, ran, rfl⟩ := Option.map_eq_some_iff.mp taken
  cases event with
  | allocate request malloc =>
    simp only [copiesAfter, ranBy, List.append_nil]
    exact sound_allocate sound ran
  | copy number =>
    simp only [ranBy, List.append_nil]
    exact sound_copy sound ran
  | post number =>
    simp only [copiesAfter, ranBy, List.append_nil]
    exact sound_post sound ran
  | work => exact sound_work sound ran

private theorem handed_start (initial : Initial sizeArenaDefault memory) (pool worker : BitVec 64) :
    Handed (start pool worker (freshArena memory)) := by
  refine ⟨wellFormed_fresh initial, rfl, slotted_fresh memory,
    ⟨by simp [start], by simp [start], by simp [start], by simp [start]⟩, by simp [start], ?_,
    by simp [start], by simp [start], by simp [start]⟩
  intro block member offset _ below
  obtain rfl := List.mem_singleton.mp member
  exact absurd below (Nat.not_lt_zero _)

theorem sound_start (initial : Initial sizeArenaDefault memory) (pool worker : BitVec 64) :
    Sound (unwatched (start pool worker (freshArena memory))) := by
  have nothing {holds : Ran → Prop} : ∀ ran ∈ ([] : List Ran), holds ran := List.forall_mem_nil _
  refine ⟨handed_start initial pool worker, ⟨nothing, nothing, .nil, nothing⟩,
    ⟨?_, fun _ _ member => absurd member List.not_mem_nil, nothing, .nil, nothing, rfl⟩⟩
  intro block member offset _ _
  obtain rfl := List.mem_singleton.mp member
  exact taskAt_empty fun _ _ => rfl

/-- The calls that were made are those of the copies that were run. -/
private theorem calls_eq (owned : Owned watched) : watched.state.calls =
    (watched.history.filterMap Ran.owner).flatMap (callsOfCaller watched.state.callers) := by
  have each : ∀ ran ∈ watched.history, callsOf ran.task =
      (ran.owner.toList).flatMap (callsOfCaller watched.state.callers) := by
    intro ran member
    rw [owned.found ran member]
    cases owner : ran.owner with
    | none => exact callsOf_emptyTask
    | some number =>
      obtain ⟨⟨caller, here, _⟩, _⟩ := owned.owners ran member number owner
      simp [copiedTask, callsOfCaller, here]
  rw [owned.calls, List.filterMap_eq_flatMap_toList, List.flatMap_assoc]
  exact List.flatMap_congr each

/-- In every interleaving of callers and worker, lost tasks or not, the slots that are run
are slots that were handed out, in the order in which they were and none of them twice,
and the calls made are those of distinct callers' tasks, each of which had been copied. -/
theorem runs_distinct_tasks (initial : Initial sizeArenaDefault memory)
    (made : arenaInit sizeArenaDefault true (some memory) = some arena) (pool worker : BitVec 64)
    (events : List Event) (ran : exec step (start pool worker arena) events = some state) :
    ∃ copies history, exec watch (unwatched (start pool worker arena)) events = some ⟨state, copies, history⟩ ∧
      (history.map Ran.key).Sublist (state.callers.map key) ∧
      (state.callers.map key).Nodup ∧
      (history.filterMap Ran.owner).Nodup ∧
      (∀ number ∈ history.filterMap Ran.owner, ∃ slot, Copied state.callers slot number) ∧
      state.calls = (history.filterMap Ran.owner).flatMap (callsOfCaller state.callers) := by
  obtain rfl := Option.some.inj ((arenaInit_fresh memory).symm.trans made)
  have projected : (exec watch (unwatched (start pool worker (freshArena memory))) events).map
      Watched.state = some state := (exec_project watch_state _ events).trans ran
  obtain ⟨⟨_, copies, history⟩, watched, rfl⟩ := Option.map_eq_some_iff.mp projected
  have sound := exec_invariant (fun _ _ _ sound taken => sound_watch sound taken)
    (sound_start initial pool worker) watched
  have nodup := addresses_nodup sound.handed.formed
  refine ⟨copies, history, watched, ?_, sound.handed.slots.distinct, sound.owned.once, ?_,
    calls_eq sound.owned⟩
  · refine sublist_of_ordered (fun _ _ => earlier_asymm nodup) ?_ sound.inOrder.ordered
      sound.handed.ordered
    intro key_ member
    obtain ⟨one, held, rfl⟩ := List.mem_map.mp member
    exact sound.inOrder.handed one held
  · intro number member
    obtain ⟨one, held, owner⟩ := List.mem_filterMap.mp member
    exact ⟨one.slot, (sound.owned.owners one held number owner).1⟩

/-- A second task is enqueued while the first is run, and copied when the walk has passed. -/
private def passedBy : List Event :=
  [.allocate ⟨true, 0, 1, 5, 1, 7, 0, 0, 0⟩ none, .copy 0, .post 0, .work, .work, .work,
    .allocate ⟨true, 1, 1, 5, 1, 8, 0, 0, 0⟩ none, .work, .work, .work, .copy 1, .post 1]

/-- The second slot is run empty, and the second task not at all. -/
theorem only_first_task_run : ∃ state copies history,
    exec step (start 1 2 (freshArena 4096)) passedBy = some state ∧
      exec watch (unwatched (start 1 2 (freshArena 4096))) passedBy = some ⟨state, copies, history⟩ ∧
      history.map Ran.owner = [some 0, none] ∧ (history.map Ran.key).Sublist (state.callers.map key) := by
  obtain ⟨state, ran⟩ := Option.isSome_iff_exists.mp
    (show (exec step (start 1 2 (freshArena 4096)) passedBy).isSome by decide +kernel)
  obtain ⟨copies, history, watched, part, _⟩ :=
    runs_distinct_tasks (by decide) (arenaInit_fresh 4096) 1 2 passedBy ran
  have owners : (exec watch (unwatched (start 1 2 (freshArena 4096))) passedBy).map
      (fun after => after.history.map Ran.owner) = some [some 0, none] := by decide +kernel
  rw [watched] at owners
  exact ⟨state, copies, history, ran, watched, Option.some.inj owners, part⟩

end ShapeQuake.ReactorHistory
