import ShapeQuake.ReactorRaces
import ShapeQuake.ReactorSlots

/-! When every `enqueue` that begins in a pass ends while its slot is ahead of the
walk, the offset of a block is read only while no copy into it is pending, and no late
copy replaces a task, then no reset wipes a task enqueued in the pass that has not been
run, and none is run before it is copied. The invariant says that slots of one round of
resets are distinct and below the offsets of their blocks, that what is complete has been
run or lies ahead, and that the slot the walk has come to is copied. -/
namespace ShapeQuake.ReactorRacesProofs
open Library.Bytes Library.Runs Allocator AllocatorInvariants Reactor ReactorSlots ReactorRaces

/-! ## Blocks that are kept -/

/-- Every block is still at its number, as it was marked, and has handed out no less. -/
def Kept (before after : List ArenaBlock) : Prop :=
  ∀ (index : Nat) block, before[index]? = some block →
    ∃ later, after[index]? = some later ∧ later.address = block.address ∧
      later.isWiped = block.isWiped ∧ block.offset ≤ later.offset

/-- Nothing was stored in the blocks there were. -/
def Unwritten (before after : List ArenaBlock) : Prop :=
  ∀ block ∈ before, ∀ later ∈ after, later.address = block.address → later.data = block.data

private theorem kept_map {change : ArenaBlock → ArenaBlock}
    (address : ∀ block, (change block).address = block.address)
    (marked : ∀ block, (change block).isWiped = block.isWiped)
    (offset : ∀ block, block.offset ≤ (change block).offset) (chain : List ArenaBlock) :
    Kept chain (chain.map change) := by
  intro index block here
  exact ⟨change block, by simp [here], address block, marked block, offset block⟩

theorem kept_write (arena : Arena) (pointer : Pointer) (bytes : List UInt8) :
    Kept arena.blocks.chain (arena.write pointer bytes).blocks.chain := by
  rw [Arena.write, chain_map]
  refine kept_map (fun block => ?_) (fun block => ?_) (fun block => ?_) _
  · split <;> rfl
  · split <;> rfl
  · split <;> exact Nat.le_refl _

theorem kept_refl (chain : List ArenaBlock) : Kept chain chain :=
  fun _ block here => ⟨block, here, rfl, rfl, Nat.le_refl _⟩

theorem Kept.trans {first second third : List ArenaBlock} (early : Kept first second)
    (late : Kept second third) : Kept first third := by
  intro index block here
  obtain ⟨middle, there, address, marked, offset⟩ := early index block here
  obtain ⟨last, found, addressLast, markedLast, offsetLast⟩ := late index middle there
  exact ⟨last, found, addressLast.trans address, markedLast.trans marked,
    Nat.le_trans offset offsetLast⟩

theorem Kept.mem {before after : List ArenaBlock} (kept : Kept before after)
    (member : block ∈ before) : ∃ later ∈ after, later.address = block.address ∧
      block.offset ≤ later.offset := by
  obtain ⟨index, here⟩ := List.mem_iff_getElem?.mp member
  obtain ⟨later, found, address, _, offset⟩ := kept index block here
  exact ⟨later, List.mem_of_getElem? found, address, offset⟩

theorem Unwritten.trans {first second third : List ArenaBlock} (early : Unwritten first second)
    (kept : Kept first second) (late : Unwritten second third) : Unwritten first third := by
  intro block member last found address
  obtain ⟨middle, held, same, _⟩ := kept.mem member
  rw [late middle held last found (address.trans same.symm), early block member middle held same]

/-! ## Slots -/

/-- A slot and the round of resets in which it was handed out. -/
def key (caller : Caller) : Pointer × Nat := (caller.slot, caller.resets)

/-- The slots handed out: at whole multiples in their blocks, below the offset as
long as no reset has taken them back, and never two alike in one round. -/
structure Slots (chain : List ArenaBlock) (resets : Nat) (keys : List (Pointer × Nat)) : Prop where
  aligned : ∀ key ∈ keys, slotSize ∣ key.1.offset
  past : ∀ key ∈ keys, key.2 ≤ resets
  placed : ∀ key ∈ keys, key.2 = resets →
    ∃ block ∈ chain, block.address = key.1.block ∧ key.1.offset + slotSize ≤ block.offset
  distinct : keys.Nodup

theorem slots_kept (slots : Slots chain resets keys) (kept : Kept chain next) :
    Slots next resets keys := by
  refine ⟨slots.aligned, slots.past, fun key member live => ?_, slots.distinct⟩
  obtain ⟨block, held, address, below⟩ := slots.placed key member live
  obtain ⟨later, found, same, offset⟩ := kept.mem held
  exact ⟨later, found, same.trans address, Nat.le_trans below offset⟩

/-- A slot above all that its block had handed out is a new one. -/
theorem slots_added (slots : Slots chain resets keys) (kept : Kept chain next) {slot : Pointer}
    (aligned : slotSize ∣ slot.offset)
    (placed : ∃ block ∈ next, block.address = slot.block ∧ slot.offset + slotSize ≤ block.offset)
    (above : ∀ block ∈ chain, block.address = slot.block → block.offset ≤ slot.offset) :
    Slots next resets (keys ++ [(slot, resets)]) := by
  have old := slots_kept slots kept
  have new : (slot, resets) ∉ keys := by
    intro member
    obtain ⟨block, held, address, below⟩ := slots.placed _ member rfl
    have highest : block.offset ≤ slot.offset := above block held address
    have size := slotSize_pos
    simp only at below
    omega
  have either : ∀ {holds : Pointer × Nat → Prop}, (∀ key ∈ keys, holds key) → holds (slot, resets) →
      ∀ key ∈ keys ++ [(slot, resets)], holds key := by
    intro holds before last key member
    rcases List.mem_append.mp member with earlier | latest
    · exact before key earlier
    · exact List.mem_singleton.mp latest ▸ last
  exact ⟨either old.aligned aligned, either old.past (Nat.le_refl _),
    either old.placed fun _ => placed,
    List.Nodup.append slots.distinct (List.nodup_singleton _) (by simpa using new)⟩

/-- A reset takes all slots back. -/
theorem slots_reset (slots : Slots chain resets keys) : Slots next (resets + 1) keys :=
  ⟨slots.aligned, fun key member => Nat.le_succ_of_le (slots.past key member),
    fun key member live => absurd live (Nat.ne_of_lt (Nat.lt_succ_of_le (slots.past key member))),
    slots.distinct⟩

/-! ## The invariant -/

/-- The slot at this offset of the block of this number was handed out, and the task of its
caller is copied. -/
def Arrived (state : State) (index readOffset : Nat) : Prop :=
  ∃ block, state.arena.blocks.chain[index]? = some block ∧ readOffset < block.offset ∧
    ∀ caller ∈ state.callers, caller.resets = state.resets → caller.slot = ⟨block.address, readOffset⟩ →
      caller.phase ≠ .allocated

/-- What holds between the steps of a timely run. -/
structure Consistent (state : State) : Prop where
  formed : WellFormed state.arena.blocks sizeArenaDefault
  unit : state.arena.blockSize = sizeArenaDefault
  slotted : ∀ block ∈ state.arena.blocks.chain, Slotted block
  slots : Slots state.arena.blocks.chain state.resets (state.callers.map key)
  stored : ∀ caller ∈ state.callers, InPass state caller → caller.phase ≠ .allocated →
    caller.ran = false → ∀ block ∈ state.arena.blocks.chain, block.address = caller.slot.block →
      taskAt block.data caller.slot.offset = caller.task
  served : ∀ caller ∈ state.callers, InPass state caller → caller.phase = .complete →
    caller.ran = true ∨ Ahead state caller
  walking : ∀ index readOffset, state.place = .reading index readOffset ∨
    state.place = .running index readOffset → slotSize ∣ readOffset
  arrived : ∀ index readOffset, state.place = .running index readOffset → Arrived state index readOffset
  idle : state.place = .waiting → ∀ caller ∈ state.callers, ¬ InPass state caller

/-- What is ahead of the walk stays ahead while the worker does not move. -/
private theorem ahead_kept (ahead : Ahead state caller)
    (kept : Kept state.arena.blocks.chain next.arena.blocks.chain) (place : next.place = state.place)
    (slot : later.slot = caller.slot) : Ahead next later := by
  obtain ⟨index, block, here, address, fresh, before⟩ := ahead
  obtain ⟨found, there, same, marked, _⟩ := kept index block here
  exact ⟨index, found, there, by rw [same, address, slot], marked.trans fresh,
    by rwa [place, slot]⟩

/-! ## Allocating -/

/-- What an allocation of a task does to the chain. -/
structure Allocated (before : List ArenaBlock) (after : Arena) (slot : Option Pointer) : Prop where
  formed : WellFormed after.blocks sizeArenaDefault
  unit : after.blockSize = sizeArenaDefault
  slotted : ∀ block ∈ after.blocks.chain, Slotted block
  kept : Kept before after.blocks.chain
  unwritten : Unwritten before after.blocks.chain
  placed : ∀ slot_ ∈ slot, slotSize ∣ slot_.offset ∧
    (∃ block ∈ after.blocks.chain, block.address = slot_.block ∧
      slot_.offset + slotSize ≤ block.offset) ∧
    ∀ block ∈ before, block.address = slot_.block → block.offset ≤ slot_.offset

private theorem unwritten_of_subset {blocks next : Blocks} (formed : WellFormed next blockSize)
    (kept : blocks.chain ⊆ next.chain) : Unwritten blocks.chain next.chain :=
  fun _ member _ found address => congrArg _ (same_block formed found (kept member) address)

theorem found_kept {blocks next : Blocks}
    (found : RoomFound alignedSize blockSize malloc blocks (next, room)) :
    Kept blocks.chain next.chain ∧ blocks.chain ⊆ next.chain := by
  cases found with
  | here _ _ same => exact ⟨same ▸ kept_refl _, same ▸ List.Subset.refl _⟩
  | exhausted _ same => exact ⟨same ▸ kept_refl _, same ▸ List.Subset.refl _⟩
  | added address id prev =>
    refine ⟨fun index block here => ⟨block, ?_, rfl, rfl, Nat.le_refl _⟩, List.subset_append_left _ _⟩
    exact (List.getElem?_append_left (List.getElem?_eq_some_iff.mp here).1).trans here

/-- The block at an address has handed out more. -/
private def bumpAt (address more : Nat) (block : ArenaBlock) : ArenaBlock :=
  if block.address = address then { block with offset := block.offset + more } else block

/-- Handing out more of `current` keeps all blocks and stores nothing. -/
private theorem bump_kept (formed : WellFormed blocks blockSize) (more : Nat) :
    Kept blocks.chain
        { blocks with
          current := { blocks.current with offset := blocks.current.offset + more } }.chain ∧
      Unwritten blocks.chain
        { blocks with
          current := { blocks.current with offset := blocks.current.offset + more } }.chain := by
  have bumped : blocks.map (bumpAt blocks.current.address more) =
      { blocks with
        current := { blocks.current with offset := blocks.current.offset + more } } :=
    (map_current (addresses_nodup formed) fun block other => if_neg other).trans (by simp)
  have address : ∀ block, (bumpAt blocks.current.address more block).address = block.address := by
    intro block
    unfold bumpAt
    split <;> rfl
  rw [← bumped, chain_map]
  refine ⟨kept_map address (fun block => ?_) (fun block => ?_) _, ?_⟩
  · unfold bumpAt
    split <;> rfl
  · unfold bumpAt
    split
    · exact Nat.le_add_right _ _
    · exact Nat.le_refl _
  · intro block member later found same
    obtain ⟨old, held, rfl⟩ := List.mem_map.mp found
    rw [← same_block formed held member ((address old).symm.trans same)]
    unfold bumpAt
    split <;> rfl

theorem alloc_allocated (formed : WellFormed arena.blocks sizeArenaDefault)
    (unit : arena.blockSize = sizeArenaDefault) (slotted : ∀ block ∈ arena.blocks.chain, Slotted block)
    (answers : ∀ address ∈ malloc, MallocAnswers arena.blocks.chain
      (totalSize (max (align sizeofTask) arena.blockSize)) address)
    (ran : arenaAlloc arena sizeofTask malloc = some (next, slot)) :
    Allocated arena.blocks.chain next slot := by
  rw [unit] at answers
  obtain ⟨blocks, found, formedFound, granted⟩ :=
    alloc_granted (unit ▸ formed) (unit ▸ grantable_task slotted answers) ran
  rw [unit] at found formedFound
  have slottedFound := slotted_found slotted found
  obtain ⟨keptFound, subset⟩ := found_kept found
  have unwritten := unwritten_of_subset formedFound subset
  cases granted with
  | refused => exact ⟨formedFound, unit, slottedFound, keptFound, unwritten, by simp⟩
  | handed fits bumped =>
    have current := slottedFound _ (current_mem_chain blocks)
    have room : blocks.current.offset + slotSize ≤ blocks.current.capacity := fits
    refine ⟨unit ▸ bumped, unit,
      slotted_current slottedFound ⟨current.capacity, Nat.dvd_add current.whole (Nat.dvd_refl _),
        current.capacity ▸ room⟩,
      keptFound.trans (bump_kept formedFound slotSize).1,
      unwritten.trans keptFound (bump_kept formedFound slotSize).2, ?_⟩
    · intro slot_ same
      obtain rfl := Option.some.inj same
      refine ⟨current.whole, ⟨_, current_mem_chain _, rfl, Nat.le_refl _⟩, ?_⟩
      intro block member address
      obtain ⟨later, held, same, offset⟩ := keptFound.mem member
      rwa [same_block formedFound held (current_mem_chain blocks) (same.trans address)] at offset

/-- The slot that the walk has come to stays copied as long as callers only move on. -/
private theorem arrived_kept (arrived : Arrived state index readOffset)
    (kept : Kept state.arena.blocks.chain next.arena.blocks.chain) (resets : next.resets = state.resets)
    (callers : ∀ later ∈ next.callers, later.phase = .allocated → later ∈ state.callers) :
    Arrived next index readOffset := by
  obtain ⟨block, here, below, copied⟩ := arrived
  obtain ⟨found, there, address, _, offset⟩ := kept index block here
  refine ⟨found, there, Nat.lt_of_lt_of_le below offset, fun later member round slot early => ?_⟩
  exact copied later (callers later member early) (round.trans resets) (address ▸ slot) early

/-- An allocation leaves what is stored, and what is ahead, as it was. -/
private theorem consistent_grown (consistent : Consistent state)
    (allocated : Allocated state.arena.blocks.chain arena slot) : Consistent { state with arena } := by
  refine ⟨allocated.formed, allocated.unit, allocated.slotted,
    slots_kept consistent.slots allocated.kept, ?_, ?_, consistent.walking, ?_, consistent.idle⟩
  · intro caller member inPass copied unrun later found address
    obtain ⟨block, held, same, _⟩ :=
      consistent.slots.placed (key caller) (List.mem_map_of_mem member) inPass.2
    rw [allocated.unwritten block held later found (address.trans same.symm)]
    exact consistent.stored caller member inPass copied unrun block held same
  · intro caller member inPass complete
    exact (consistent.served caller member inPass complete).imp_right fun ahead =>
      ahead_kept ahead allocated.kept rfl rfl
  · intro index readOffset place
    exact arrived_kept (consistent.arrived index readOffset place) allocated.kept rfl fun _ member _ => member

/-- A caller that has its slot and no more. -/
private theorem consistent_joined (consistent : Consistent state) {caller : Caller}
    (slots : Slots state.arena.blocks.chain state.resets
      (state.callers.map key ++ [key caller]))
    (phase : caller.phase = .allocated)
    (during : caller.duringPass = true → state.place ≠ .waiting)
    (elsewhere : ∀ index readOffset, state.place = .running index readOffset →
      ∀ block, state.arena.blocks.chain[index]? = some block → caller.slot ≠ ⟨block.address, readOffset⟩) :
    Consistent { state with callers := state.callers ++ [caller] } := by
  refine ⟨consistent.formed, consistent.unit, consistent.slotted, by simpa using slots, ?_, ?_,
    consistent.walking, ?_, ?_⟩
  · intro other member inPass copied
    rcases List.mem_append.mp member with old | new
    · exact consistent.stored other old inPass copied
    · obtain rfl := List.mem_singleton.mp new
      exact absurd phase copied
  · intro other member inPass complete
    rcases List.mem_append.mp member with old | new
    · exact consistent.served other old inPass complete
    · obtain rfl := List.mem_singleton.mp new
      cases phase.symm.trans complete
  · intro index readOffset place
    obtain ⟨block, here, below, copied⟩ := consistent.arrived index readOffset place
    refine ⟨block, here, below, fun other member round slot => ?_⟩
    rcases List.mem_append.mp member with old | new
    · exact copied other old round slot
    · obtain rfl := List.mem_singleton.mp new
      exact absurd slot (elsewhere index readOffset place block here)
  · intro waiting other member inPass
    rcases List.mem_append.mp member with old | new
    · exact consistent.idle waiting other old inPass
    · obtain rfl := List.mem_singleton.mp new
      exact during inPass.1 waiting

theorem consistent_allocate (consistent : Consistent state)
    (taken : step state (.allocate request malloc) = some next) : Consistent next := by
  simp only [step] at taken
  split at taken
  case isFalse => cases taken
  case isTrue answers =>
    unfold allocateStep at taken
    split at taken
    · obtain rfl := Option.some.inj taken
      exact consistent
    · split at taken
      · cases taken
      · rename_i arena ran
        obtain rfl := Option.some.inj taken
        exact consistent_grown consistent
          (alloc_allocated consistent.formed consistent.unit consistent.slotted answers ran)
      · rename_i arena slot ran
        obtain rfl := Option.some.inj taken
        have allocated :=
          alloc_allocated consistent.formed consistent.unit consistent.slotted answers ran
        obtain ⟨aligned, placed, above⟩ := allocated.placed slot rfl
        refine consistent_joined (consistent_grown consistent allocated)
          (slots_added consistent.slots allocated.kept aligned placed above) rfl (by simp) ?_
        -- the new slot is above all that was handed out, the one the walk has come to included
        rintro index readOffset place later there rfl
        obtain ⟨block, here, below, _⟩ := consistent.arrived index readOffset place
        obtain ⟨found, same, address, _⟩ := allocated.kept index block here
        obtain rfl := Option.some.inj (same.symm.trans there)
        have highest := above block (List.mem_of_getElem? here) address.symm
        simp only at highest
        omega

/-! ## Copying and posting -/

/-- A caller moves on: it keeps its slot, and so do all others. -/
theorem keys_set {callers : List Caller} (here : callers[number]? = some caller)
    (phase : Phase) :
    (callers.set number { caller with phase }).map key = callers.map key := by
  have bound := (List.getElem?_eq_some_iff.mp here).1
  apply List.ext_getElem?
  intro index
  by_cases same : number = index
  · subst same
    rw [List.getElem?_map, List.getElem?_set_self bound, List.getElem?_map, here]
    rfl
  · rw [List.getElem?_map, List.getElem?_set_ne same, List.getElem?_map]

/-- After a caller has moved on, each caller is that one or another of the list. -/
theorem mem_set_cases {callers : List Caller} (here : callers[number]? = some caller)
    (member : other ∈ callers.set number changed) :
    other = changed ∨ ∃ index, index ≠ number ∧ callers[index]? = some other := by
  obtain ⟨index, there⟩ := List.mem_iff_getElem?.mp member
  by_cases same : number = index
  · subst same
    rw [List.getElem?_set_self (List.getElem?_eq_some_iff.mp here).1] at there
    exact .inl (Option.some.inj there).symm
  · rw [List.getElem?_set_ne same] at there
    exact .inr ⟨index, Ne.symm same, there⟩

/-- Two callers that got their slots between the same resets have different slots. -/
private theorem slots_differ {callers : List Caller} {caller other : Caller} {index number : Nat}
    (slots : Slots chain resets (callers.map key))
    (first : callers[index]? = some caller) (second : callers[number]? = some other)
    (different : index ≠ number) (round : caller.resets = other.resets) :
    caller.slot ≠ other.slot := by
  intro same
  have keys : (callers.map key)[index]? = (callers.map key)[number]? := by
    simp [first, second, key, same, round]
  have bound : index < (callers.map key).length := by
    simpa using (List.getElem?_eq_some_iff.mp first).1
  exact different ((List.getElem?_inj bound slots.distinct).mp keys)

/-- A caller that still has to copy has not moved on. -/
private theorem mem_of_early {callers : List Caller} (here : callers[number]? = some caller)
    (moved : changed.phase ≠ .allocated) (member : other ∈ callers.set number changed)
    (early : other.phase = .allocated) : other ∈ callers := by
  rcases mem_set_cases here member with rfl | ⟨index, _, there⟩
  · exact absurd early moved
  · exact List.mem_of_getElem? there

theorem consistent_post (consistent : Consistent state) (timely : Timely state (.post number))
    (taken : step state (.post number) = some next) : Consistent next := by
  simp only [step, postStep] at taken
  split at taken
  · cases taken
  · rename_i caller here
    split at taken
    case isFalse => cases taken
    case isTrue copied =>
      obtain rfl := Option.some.inj taken
      have held := List.mem_of_getElem? here
      refine ⟨consistent.formed, consistent.unit, consistent.slotted,
        (keys_set here .complete).symm ▸ consistent.slots, ?_, ?_, consistent.walking, ?_, ?_⟩
      · intro other member inPass began unrun
        rcases mem_set_cases here member with rfl | ⟨index, _, there⟩
        · exact consistent.stored caller held inPass (by simp [copied]) unrun
        · exact consistent.stored other (List.mem_of_getElem? there) inPass began unrun
      · intro other member inPass complete
        rcases mem_set_cases here member with rfl | ⟨index, _, there⟩
        · exact timely caller here inPass
        · exact consistent.served other (List.mem_of_getElem? there) inPass complete
      · intro index readOffset place
        refine arrived_kept (consistent.arrived index readOffset place) (kept_refl _) rfl ?_
        exact fun other member early => mem_of_early here Phase.noConfusion member early
      · intro waiting other member inPass
        rcases mem_set_cases here member with rfl | ⟨index, _, there⟩
        · exact consistent.idle waiting caller held inPass
        · exact consistent.idle waiting other (List.mem_of_getElem? there) inPass

/-- Storing a task changes what no other slot holds. -/
theorem taskAt_write {arena : Arena} {slot other : Pointer} (task : Task)
    (aligned : slotSize ∣ slot.offset) (alignedOther : slotSize ∣ other.offset)
    (different : other ≠ slot)
    (kept : ∀ block ∈ arena.blocks.chain, block.address = other.block →
      taskAt block.data other.offset = found) :
    ∀ block ∈ (arena.write slot (taskBytes task)).blocks.chain, block.address = other.block →
      taskAt block.data other.offset = found := by
  intro later member address
  rw [Arena.write, chain_map] at member
  obtain ⟨block, held, rfl⟩ := List.mem_map.mp member
  by_cases here : block.address = slot.block
  · simp only [here, ↓reduceIte] at address ⊢
    have offsets : other.offset ≠ slot.offset := fun same =>
      different (by cases other; cases slot; simp_all)
    obtain ⟨first, starts⟩ := aligned
    obtain ⟨second, startsOther⟩ := alignedOther
    rw [slotSize_eq] at starts startsOther
    rw [taskAt_apart (by rw [sizeofTask_eq]; omega)]
    exact kept block held (here.trans address)
  · simp only [here, ↓reduceIte] at address ⊢
    exact kept block held address

/-- The task just stored is what its slot holds. -/
theorem taskAt_own {arena : Arena} (slot : Pointer) (task : Task) :
    ∀ block ∈ (arena.write slot (taskBytes task)).blocks.chain, block.address = slot.block →
      taskAt block.data slot.offset = task := by
  intro later member address
  rw [Arena.write, chain_map] at member
  obtain ⟨block, held, rfl⟩ := List.mem_map.mp member
  by_cases here : block.address = slot.block
  · simp only [here, ↓reduceIte]
    exact taskAt_written _ _ _
  · simp only [here, ↓reduceIte] at address

theorem consistent_copy (consistent : Consistent state) (timely : Timely state (.copy number))
    (taken : step state (.copy number) = some next) : Consistent next := by
  simp only [step, copyStep] at taken
  split at taken
  · cases taken
  · rename_i caller here
    split at taken
    case isFalse => cases taken
    case isTrue began =>
      obtain rfl := Option.some.inj taken
      obtain ⟨replacesNone, inTime⟩ := timely caller here
      have held := List.mem_of_getElem? here
      have kept := kept_write state.arena caller.slot (taskBytes caller.task)
      have aligned : ∀ other ∈ state.callers, slotSize ∣ other.slot.offset :=
        fun other member => consistent.slots.aligned _ (List.mem_map_of_mem member)
      refine ⟨wellFormed_write consistent.formed _ _, consistent.unit, ?_,
        (keys_set here _).symm ▸ slots_kept consistent.slots kept, ?_, ?_, consistent.walking, ?_, ?_⟩
      · exact slotted_write consistent.slotted _ _
      · intro other member inPass copied unrun
        rcases mem_set_cases here member with rfl | ⟨index, different, there⟩
        · exact taskAt_own caller.slot caller.task
        · have old := List.mem_of_getElem? there
          refine taskAt_write caller.task (aligned caller held) (aligned other old) ?_
            (consistent.stored other old inPass copied unrun)
          by_cases round : caller.resets = state.resets
          · exact slots_differ consistent.slots there here different (inPass.2.trans round.symm)
          · exact replacesNone round other old inPass copied unrun
      · intro other member inPass complete
        rcases mem_set_cases here member with rfl | ⟨index, _, there⟩
        · cases notify : caller.requireNotify with
          | true => simp [notify] at complete
          | false =>
            exact (inTime notify inPass).imp_right fun ahead => ahead_kept ahead kept rfl rfl
        · exact (consistent.served other (List.mem_of_getElem? there) inPass complete).imp_right
            fun ahead => ahead_kept ahead kept rfl rfl
      · intro index readOffset place
        refine arrived_kept (consistent.arrived index readOffset place) kept rfl fun other member early => ?_
        exact mem_of_early here (by simp only; split <;> exact Phase.noConfusion) member early
      · intro waiting other member inPass
        rcases mem_set_cases here member with rfl | ⟨index, _, there⟩
        · exact consistent.idle waiting caller held inPass
        · exact consistent.idle waiting other (List.mem_of_getElem? there) inPass

/-! ## The worker -/

/-- A step of the walk that runs nothing keeps the invariant, as long as what was
ahead of the worker in the pass still is. -/
private theorem consistent_moved (consistent : Consistent state) {place : Place}
    (ahead : ∀ caller ∈ state.callers, InPass state caller → ∀ index block,
      state.arena.blocks.chain[index]? = some block → block.address = caller.slot.block →
        block.isWiped = false → state.place.before index caller.slot.offset →
          place.before index caller.slot.offset)
    (walking : ∀ index readOffset,
      place = .reading index readOffset ∨ place = .running index readOffset →
        slotSize ∣ readOffset)
    (arrived : ∀ index readOffset, place = .running index readOffset → Arrived state index readOffset)
    (busy : place ≠ .waiting) (sem : Nat) : Consistent { state with sem, place } := by
  refine ⟨consistent.formed, consistent.unit, consistent.slotted, consistent.slots,
    consistent.stored, ?_, walking, arrived, fun waiting => absurd waiting busy⟩
  intro caller member inPass complete
  apply (consistent.served caller member inPass complete).imp_right
  rintro ⟨index, block, here, address, fresh, before⟩
  exact ⟨index, block, here, address, fresh,
    ahead caller member inPass index block here address fresh before⟩

/-- What a caller of the pass has is below the offset of its block. -/
private theorem slot_below {index : Nat} {block : ArenaBlock} (consistent : Consistent state)
    (member : caller ∈ state.callers) (inPass : InPass state caller)
    (here : state.arena.blocks.chain[index]? = some block) (address : block.address = caller.slot.block) :
    caller.slot.offset + slotSize ≤ block.offset := by
  obtain ⟨other, held, same, below⟩ :=
    consistent.slots.placed (key caller) (List.mem_map_of_mem member) inPass.2
  rwa [same_block consistent.formed held (List.mem_of_getElem? here)
    (same.trans address.symm)] at below

theorem markRan_key (resets : Nat) (slot : Pointer) (task : Task) (caller : Caller) :
    key (markRan resets slot task caller) = key caller := by
  unfold markRan
  split <;> rfl

/-- A caller whose task has not been run was not changed. -/
private theorem markRan_unrun (unrun : (markRan resets slot task caller).ran = false) :
    markRan resets slot task caller = caller ∧
      ¬ (caller.resets = resets ∧ caller.slot = slot ∧ caller.task = task) := by
  unfold markRan at unrun ⊢
  split
  · rename_i own
    simp [own] at unrun
  · rename_i other
    exact ⟨rfl, other⟩

theorem consistent_run (consistent : Consistent state)
    (place : state.place = .running index readOffset)
    (here : state.arena.blocks.chain[index]? = some block) (calls : List Call) :
    Consistent { state with
      place := .reading index (readOffset + slotSize)
      callers := state.callers.map
        (markRan state.resets ⟨block.address, readOffset⟩ (taskAt block.data readOffset))
      calls } := by
  have whole := consistent.walking index readOffset (.inr place)
  refine ⟨consistent.formed, consistent.unit, consistent.slotted, ?_, ?_, ?_, ?_, nofun, nofun⟩
  · have keys : (state.callers.map (markRan state.resets ⟨block.address, readOffset⟩
        (taskAt block.data readOffset))).map key = state.callers.map key := by
      simp [Function.comp_def, markRan_key]
    exact keys ▸ consistent.slots
  · intro marked member inPass copied unrun
    obtain ⟨caller, held, rfl⟩ := List.mem_map.mp member
    obtain ⟨same, _⟩ := markRan_unrun unrun
    rw [same] at inPass copied unrun ⊢
    exact consistent.stored caller held inPass copied unrun
  · intro marked member inPass complete
    obtain ⟨caller, held, rfl⟩ := List.mem_map.mp member
    by_cases unrun : (markRan state.resets ⟨block.address, readOffset⟩
        (taskAt block.data readOffset) caller).ran = false
    · obtain ⟨same, other⟩ := markRan_unrun unrun
      rw [same] at inPass complete unrun ⊢
      apply Or.inr
      rcases consistent.served caller held inPass complete with ran | ahead
      · rw [ran] at unrun
        cases unrun
      · obtain ⟨at_, found, there, address, fresh, before⟩ := ahead
        refine ⟨at_, found, there, address, fresh, ?_⟩
        rw [place] at before
        rcases before with later | ⟨rfl, later⟩
        · exact .inl later
        · refine .inr ⟨rfl, ?_⟩
          obtain rfl := Option.some.inj (here.symm.trans there)
          have slotWhole := consistent.slots.aligned (key caller) (List.mem_map_of_mem held)
          -- were it this slot, the task found in it would be the caller's own
          have beyond : readOffset ≠ caller.slot.offset := by
            rintro rfl
            have own := consistent.stored caller held inPass (by simp [complete]) unrun block
              (List.mem_of_getElem? there) address
            exact other ⟨inPass.2, by rw [address], own.symm⟩
          obtain ⟨first, starts⟩ := whole
          obtain ⟨second, slotStarts⟩ := slotWhole
          simp only [key, slotSize_eq] at starts slotStarts ⊢
          omega
    · exact .inl (by simpa using unrun)
  · rintro at_ offset (same | same)
    · obtain ⟨rfl, rfl⟩ := Place.reading.inj same
      exact Nat.dvd_add whole (Nat.dvd_refl _)
    · cases same

theorem consistent_reset (consistent : Consistent state) :
    Consistent { state with
      arena := state.arena.emptied, place := .waiting, resets := state.resets + 1 } := by
  have ended : ∀ caller ∈ state.callers, caller.resets ≠ state.resets + 1 := fun caller member =>
    Nat.ne_of_lt (Nat.lt_succ_of_le (consistent.slots.past _ (List.mem_map_of_mem member)))
  exact ⟨wellFormed_reset consistent.formed, consistent.unit, slotted_reset consistent.slotted,
    slots_reset consistent.slots, fun caller member inPass => absurd inPass.2 (ended caller member),
    fun caller member inPass => absurd inPass.2 (ended caller member), by simp, by simp,
    fun _ caller member inPass => ended caller member inPass.2⟩

/-- When the walk is over, every task of the pass that is complete has been run. -/
theorem ran_of_resetting (consistent : Consistent state) (place : state.place = .resetting)
    (member : caller ∈ state.callers) (inPass : InPass state caller)
    (complete : caller.phase = .complete) : caller.ran = true := by
  rcases consistent.served caller member inPass complete with ran | ahead
  · exact ran
  · obtain ⟨_, _, _, _, _, before⟩ := ahead
    rw [place] at before
    exact before.elim

/-- At a block the worker starts with its first slot, or passes it by. -/
private theorem consistent_atBlock (consistent : Consistent state) (place : state.place = .atBlock index)
    (taken : step state .work = some next) : Consistent next := by
  simp only [step, workStep, place] at taken
  obtain ⟨block, here, rfl⟩ := Option.map_eq_some_iff.mp taken
  refine consistent_moved consistent ?_ ?_ (by split <;> simp) (by split <;> simp) _
  · intro caller _ _ at_ found there _ fresh before
    rw [place] at before
    split
    · -- a block marked as wiped holds no slot that is ahead
      rename_i wiped
      apply Nat.lt_of_le_of_ne before
      rintro rfl
      obtain rfl := Option.some.inj (here.symm.trans there)
      rw [wiped] at fresh
      cases fresh
    · rcases Nat.lt_or_eq_of_le before with later | rfl
      · exact .inl later
      · exact .inr ⟨rfl, Nat.zero_le _⟩
  · rintro at_ offset (same | same)
    · split at same
      · cases same
      · cases same
        exact Nat.dvd_zero _
    · split at same <;> cases same

/-- The block's offset is read when the copies of all its slots are made. -/
private theorem consistent_reading (consistent : Consistent state) (timely : Timely state .work)
    (place : state.place = .reading index readOffset) (taken : step state .work = some next) :
    Consistent next := by
  simp only [step, workStep, place] at taken
  obtain ⟨block, here, rfl⟩ := Option.map_eq_some_iff.mp taken
  refine consistent_moved consistent ?_ ?_ ?_ (by split <;> simp) _
  · intro caller member inPass at_ found there address _ before
    rw [place] at before
    split
    · exact before
    · rename_i ended
      rcases before with later | ⟨rfl, later⟩
      · exact later
      · have below := slot_below consistent member inPass there address
        obtain rfl := Option.some.inj (here.symm.trans there)
        rw [slotSize_eq] at below
        omega
  · rintro at_ offset (same | same)
    · split at same <;> cases same
    · split at same
      · cases same
        exact consistent.walking index readOffset (.inl place)
      · cases same
  · intro at_ offset same
    split at same
    · rename_i below
      obtain ⟨rfl, rfl⟩ := Place.running.inj same
      refine ⟨block, here, below, fun caller member round slot => ?_⟩
      exact timely index (by rw [place]; rfl) block here caller member round (congrArg Pointer.block slot)
    · cases same

theorem consistent_work (consistent : Consistent state) (timely : Timely state .work)
    (taken : step state .work = some next) : Consistent next := by
  cases place : state.place with
  | atBlock index => exact consistent_atBlock consistent place taken
  | reading index readOffset => exact consistent_reading consistent timely place taken
  | waiting =>
    simp only [step, workStep, place] at taken
    split at taken
    · cases taken
    · obtain rfl := Option.some.inj taken
      exact consistent_moved consistent
        (fun caller member inPass => absurd inPass (consistent.idle place caller member))
        (by simp) (by simp) (by simp) _
  | running index readOffset =>
    simp only [step, workStep, place] at taken
    obtain ⟨block, here, rfl⟩ := Option.map_eq_some_iff.mp taken
    exact consistent_run consistent place here _
  | leaving index =>
    simp only [step, workStep, place, Option.some.injEq] at taken
    obtain rfl := taken
    refine consistent_moved consistent ?_ ?_ (by split <;> simp) (by split <;> simp) _
    · intro caller _ _ at_ found there _ _ before
      rw [place] at before
      split
      · exact before
      · rename_i last
        have bound := (List.getElem?_eq_some_iff.mp there).1
        simp only [Place.before] at before
        omega
    · rintro at_ offset (same | same) <;> split at same <;> cases same
  | resetting =>
    simp only [step, workStep, place] at taken
    obtain ⟨after, ran, returned⟩ := Option.bind_eq_some_iff.mp taken
    obtain ⟨_, rfl⟩ := arenaReset_cases ran
    obtain rfl := Option.some.inj returned
    exact consistent_reset consistent

/-! ## Runs -/

/-- A timely step keeps the invariant and loses nothing. -/
theorem consistent_step (consistent : Consistent state) (timely : Timely state event)
    (taken : step state event = some next) : Consistent next ∧ NothingLost state event := by
  cases event with
  | allocate request malloc => exact ⟨consistent_allocate consistent taken, nofun⟩
  | copy number => exact ⟨consistent_copy consistent timely taken, nofun⟩
  | post number => exact ⟨consistent_post consistent timely taken, nofun⟩
  | work =>
    refine ⟨consistent_work consistent timely taken, fun _ => ⟨?_, ?_⟩⟩
    · intro place _ _ caller member inPass complete
      exact .inl (ran_of_resetting consistent place member inPass complete)
    · rintro caller member ⟨index, readOffset, block, place, here, round, slot⟩
      obtain ⟨found, there, _, copied⟩ := consistent.arrived index readOffset place
      obtain rfl := Option.some.inj (here.symm.trans there)
      exact copied caller member round slot

theorem consistent_start (initial : Initial sizeArenaDefault memory) (pool worker : BitVec 64) :
    Consistent (start pool worker (freshArena memory)) :=
  ⟨wellFormed_fresh initial, rfl, slotted_fresh memory,
    ⟨by simp [start], by simp [start], by simp [start], by simp [start]⟩,
    by simp [start], by simp [start], by simp [start], by simp [start], by simp [start]⟩

/-- In every run of callers and worker whose steps are all timely, every reset
finds the tasks enqueued during its pass run, and no task is run before it is
copied. -/
theorem nothing_lost_of_timely (initial : Initial sizeArenaDefault memory)
    (made : arenaInit sizeArenaDefault true (some memory) = some arena) (pool worker : BitVec 64)
    (events : List Event) (timely : EachStep step Timely (start pool worker arena) events) :
    EachStep step NothingLost (start pool worker arena) events := by
  obtain rfl := Option.some.inj ((arenaInit_fresh memory).symm.trans made)
  exact each_step_of_each_step (fun _ _ _ => consistent_step)
    (consistent_start initial pool worker) timely

/-- A first task wakes the worker, and a second one, enqueued while the walk is
at the start of their block, is run in the same pass. -/
theorem task_ahead_is_run :
    EachStep step NothingLost (start 1 2 (freshArena 4096))
      [.allocate ⟨true, 0, 1, 5, 1, 7, 0, 0, 0⟩ none, .copy 0, .post 0, .work, .work,
        .allocate ⟨false, 1, 1, 5, 1, 7, 0, 0, 0⟩ none, .copy 1,
        .work, .work, .work, .work, .work, .work, .work] :=
  nothing_lost_of_timely (by decide) (arenaInit_fresh 4096) 1 2 _ (by decide +kernel)

/-- A second task is enqueued when the walk is over and the reset not yet made. -/
private def lateTask : List Event :=
  [.allocate ⟨true, 0, 1, 5, 1, 7, 0, 0, 0⟩ none, .copy 0, .post 0,
    .work, .work, .work, .work, .work, .work,
    .allocate ⟨true, 1, 1, 5, 1, 7, 0, 0, 0⟩ none, .copy 1, .post 1]

/-- The reset wipes the second task, which has not been run. -/
theorem late_task_lost :
    ¬ ∀ memory arena pool worker events, Initial sizeArenaDefault memory →
      arenaInit sizeArenaDefault true (some memory) = some arena →
      EachStep step NothingLost (start pool worker arena) events := by
  intro always
  have promised := always 4096 (freshArena 4096) 1 2 (lateTask ++ [.work]) (by decide)
    (arenaInit_fresh 4096)
  have before : (exec step (start 1 2 (freshArena 4096)) lateTask).map
      (fun state => (state.arena.mutex, state.place, state.resets, state.callers[1]?)) =
      some (false, .resetting, 0, some
        ⟨⟨4096, 96⟩, Request.task ⟨true, 1, 1, 5, 1, 7, 0, 0, 0⟩ 1 2, true, .complete, 0, true,
          false⟩) := by decide +kernel
  obtain ⟨state, ran, facts⟩ := Option.map_eq_some_iff.mp before
  simp only [Prod.mk.injEq] at facts
  obtain ⟨unlocked, place, resets, late⟩ := facts
  have taken : step state .work = some { state with
      arena := state.arena.emptied, place := .waiting, resets := state.resets + 1 } := by
    simp [step, workStep, place, arenaReset_unlocked unlocked]
  obtain ⟨kept, _⟩ := each_step_reached promised ran taken rfl
  rcases kept place _ taken _ (List.mem_of_getElem? late) ⟨rfl, resets.symm⟩ rfl with
    wasRun | ⟨block, member, _, below, _⟩
  · cases wasRun
  · -- no block has anything left after the reset
    simp only [Arena.emptied, rewind_chain, chain_map] at member
    obtain ⟨old, _, rfl⟩ := List.mem_map.mp member
    exact Nat.not_lt_zero _ below

end ShapeQuake.ReactorRacesProofs
