import ShapeQuake.RegionProofs
import Mathlib.Data.List.TakeWhile

/-! What a block holds while clients write into their regions. Nothing is zeroed
when a region is handed out: it is zero because everything at or behind a
block's offset is, as long as nobody writes into a region after its block was
emptied. The flag `is_wiped` is only ever set, so it outlives the zeros. -/
namespace ShapeQuake.ArenaContents
open Library.Bytes Library.Spans Library.Runs Allocator AllocatorInvariants RegionProofs

/-- A call on the arena, or a client's store of bytes at a distance into a
region that was returned. -/
inductive Event where
  | alloc (size : Nat) (malloc : Option Nat)
  | shred (id : Int) (requestResetOffset : Bool)
  | reset
  | write (region : Region) (distance : Nat) (bytes : List UInt8)
  deriving Repr

/-- The bytes lie in what was handed out for the region. -/
def InRegion (region : Region) (distance : Nat) (bytes : List UInt8) : Prop :=
  distance + bytes.length ≤ region.span.size

instance : Decidable (InRegion region distance bytes) := Nat.decLe _ _

/-- One call or one store. -/
def step (state : State) : Event → Option State
  | .alloc size malloc => RegionProofs.step state (.alloc size malloc)
  | .shred id request => RegionProofs.step state (.shred id request)
  | .reset => RegionProofs.step state .reset
  | .write region distance bytes =>
    if .issued region ∈ state.history ∧ InRegion region distance bytes then
      some { state with
        arena := state.arena.write { region.pointer with offset := region.pointer.offset + distance } bytes }
    else none

/-- Clients store into regions only while these are live. -/
def WritesLive (state : State) : Event → Prop
  | .write region _ _ => Live state.history region
  | .alloc _ _ | .shred _ _ | .reset => True

/-- A region is live when its return is later than any reset of its block. -/
private theorem live_iff {history : List Entry} {region : Region} :
    .issued region ∈ history.takeWhile (· ≠ .offsetReset region.pointer.block) ↔
      Live history region := by
  constructor
  · intro found
    obtain ⟨since, rest, taken⟩ := List.append_of_mem found
    refine ⟨since, rest ++ history.dropWhile (· ≠ .offsetReset region.pointer.block), ?_, ?_⟩
    · have whole := List.takeWhile_append_dropWhile
        (p := (· ≠ Entry.offsetReset region.pointer.block)) (l := history)
      rw [taken] at whole
      simpa using whole.symm
    · intro reset
      have member : .offsetReset region.pointer.block ∈
          history.takeWhile (· ≠ .offsetReset region.pointer.block) := by
        rw [taken]
        exact List.mem_append_left _ reset
      simpa using List.mem_takeWhile_imp member
  · rintro ⟨since, before, rfl, absent⟩
    have kept : ∀ entry ∈ since, decide (entry ≠ .offsetReset region.pointer.block) = true :=
      fun entry member => decide_eq_true fun same => absent (same ▸ member)
    rw [List.takeWhile_append_of_pos kept]
    simp

instance : Decidable (Live history region) := decidable_of_iff _ live_iff

instance : Decidable (WritesLive state event) := by
  cases event
  case write region _ _ => exact inferInstanceAs (Decidable (Live state.history region))
  all_goals exact isTrue trivial

/-- All bytes of a span of the block are zero. -/
def ZeroFrom (block : ArenaBlock) (offset count : Nat) : Prop :=
  ∀ i, offset ≤ i → i < offset + count → block.data i = 0

/-- If the event is an allocation that succeeds, the region returned lies in a
block of the chain and is zero at that moment. -/
def ReturnsZeroed (state : State) : Event → Prop
  | .alloc size malloc => ∀ arena pointer,
    arenaAlloc state.arena size malloc = some (arena, some pointer) →
      ∃ block ∈ arena.blocks.chain, block.address = pointer.block ∧
        pointer.offset + align size ≤ block.capacity ∧
        ZeroFrom block pointer.offset (align size)
  | .shred _ _ | .reset | .write _ _ _ => True

/-! ## What each event does to the blocks -/

/-- A block of the chain, or a new one, of which more may have been handed out. -/
def Grown (chain : List ArenaBlock) (block : ArenaBlock) : Prop :=
  ∃ old, (old ∈ chain ∨ old.data = zeros ∧ old.isWiped = false) ∧ old.offset ≤ block.offset ∧
    block = { old with offset := block.offset }

private theorem grown_old (member : block ∈ chain) : Grown chain block :=
  ⟨block, .inl member, Nat.le_refl _, rfl⟩

/-- Where the loop of an allocation ends, the chain has at most grown. -/
theorem grown_found (found : RoomFound alignedSize blockSize malloc blocks (next, room)) :
    ∀ block ∈ next.chain, Grown blocks.chain block := by
  intro block member
  cases found with
  | here _ _ same _ _ _ _ _ => exact grown_old (same ▸ member)
  | exhausted _ same _ _ => exact grown_old (same ▸ member)
  | added address id prev answered _ =>
    rw [chain_mk] at member
    rcases List.mem_append.mp member with old | new
    · exact grown_old old
    · obtain rfl := List.mem_singleton.mp new
      exact ⟨_, .inr ⟨rfl, rfl⟩, Nat.le_refl _, rfl⟩

/-- An allocation hands out more of one block, and the region it returns lies
where nothing of that block was handed out before. -/
theorem alloc_cases {state : State} (kept : Kept state)
    (possible : RegionProofs.Possible state.arena (.alloc size malloc))
    (ran : arenaAlloc state.arena size malloc = some (arena, pointer)) :
    (∀ block ∈ arena.blocks.chain, Grown state.arena.blocks.chain block) ∧
      ∀ returned ∈ pointer, ∃ current, Grown state.arena.blocks.chain current ∧
        current.address = returned.block ∧ current.offset = returned.offset ∧
        returned.offset + align size ≤ current.capacity ∧
        { current with offset := returned.offset + align size } ∈ arena.blocks.chain := by
  obtain ⟨blocks, found, _, granted⟩ := alloc_granted kept.1 possible ran
  have grown := grown_found found
  cases granted with
  | refused => exact ⟨grown, nofun⟩
  | handed fits _ =>
    have current := grown _ (current_mem_chain blocks)
    constructor
    · intro block member
      simp only [chain_mk, List.mem_append, List.mem_cons] at member
      rcases member with old | rfl | old
      · exact grown block (by simp [Blocks.chain, old])
      · obtain ⟨old, source, later, same⟩ := current
        refine ⟨old, source, Nat.le_trans later (Nat.le_add_right _ _), ?_⟩
        rw [same]
      · exact grown block (mem_chain_of_after old)
    · rintro returned ⟨⟩
      exact ⟨_, current, rfl, rfl, fits, current_mem_chain _⟩

/-- One block after a store at a place of the block at this address. -/
def storedIn (address offset : Nat) (bytes : List UInt8) (block : ArenaBlock) : ArenaBlock :=
  if block.address = address then { block with data := writeBytes block.data offset bytes } else block

theorem kept_write {state : State} (kept : Kept state) (pointer : Pointer) (bytes : List UInt8) :
    Kept { state with arena := state.arena.write pointer bytes } := by
  refine ⟨wellFormed_write kept.1 pointer bytes, ?_⟩
  have place : ∀ block, (storedIn pointer.block pointer.offset bytes block).span = block.span := by
    intro block
    unfold storedIn
    split <;> rfl
  have handed : ∀ block ∈ state.arena.blocks.chain,
      (storedIn pointer.block pointer.offset bytes block).offset = block.offset ∨ block.address ∈ [] := by
    intro block _
    unfold storedIn
    split <;> exact .inl rfl
  exact accounted_changed kept.2 (chain_map _ _) place handed

theorem kept_event {state : State} (kept : Kept state) (taken : step state event = some next) :
    Kept next := by
  cases event with
  | alloc size malloc =>
    exact kept_step kept (show RegionProofs.step state (.alloc size malloc) = some next from taken)
  | shred id request =>
    exact kept_step kept (show RegionProofs.step state (.shred id request) = some next from taken)
  | reset => exact kept_step kept (show RegionProofs.step state .reset = some next from taken)
  | write region distance bytes =>
    simp only [step, Option.ite_none_right_eq_some, Option.some.injEq] at taken
    obtain ⟨_, rfl⟩ := taken
    exact kept_write kept _ _

/-- What an event does to the blocks: hand out more, clear some, or store bytes
in one of them. -/
def Changed (state next : State) : Event → Prop
  | .alloc _ _ => ∀ block ∈ next.arena.blocks.chain, Grown state.arena.blocks.chain block
  | .shred _ _ | .reset => ∀ block ∈ next.arena.blocks.chain, ∃ old ∈ state.arena.blocks.chain,
    ∃ targets request, block = shredAmong targets request old
  | .write region distance bytes => .issued region ∈ state.history ∧
    InRegion region distance bytes ∧
    next.arena.blocks.chain = state.arena.blocks.chain.map
      (storedIn region.pointer.block (region.pointer.offset + distance) bytes)

theorem changed_of_step {state : State} (kept : Kept state) (taken : step state event = some next) :
    Changed state next event := by
  cases event with
  | alloc size malloc =>
    simp only [step, RegionProofs.step, Option.ite_none_right_eq_some] at taken
    obtain ⟨possible, returned⟩ := taken
    obtain ⟨⟨arena, pointer⟩, ran, rfl⟩ := Option.map_eq_some_iff.mp returned
    exact (alloc_cases kept possible ran).1
  | shred id request =>
    simp only [step, RegionProofs.step, Option.ite_none_right_eq_some] at taken
    obtain ⟨⟨after, status⟩, ran, returned⟩ := Option.bind_eq_some_iff.mp taken.2
    obtain ⟨_, rfl, _⟩ := arenaShred_cases ran
    obtain rfl := Option.some.inj returned
    intro block member
    rw [internalArenaShred_eq (addresses_nodup kept.1), chain_map] at member
    obtain ⟨old, held, rfl⟩ := List.mem_map.mp member
    exact ⟨old, held, _, _, rfl⟩
  | reset =>
    simp only [step, RegionProofs.step, Option.ite_none_right_eq_some] at taken
    obtain ⟨after, ran, returned⟩ := Option.bind_eq_some_iff.mp taken.2
    obtain ⟨_, rfl⟩ := arenaReset_cases ran
    obtain rfl := Option.some.inj returned
    intro block member
    rw [Arena.emptied, rewind_chain, chain_map] at member
    obtain ⟨old, held, rfl⟩ := List.mem_map.mp member
    exact ⟨old, held, [old.address], true, by simp [shredAmong]⟩
  | write region distance bytes =>
    simp only [step, Option.ite_none_right_eq_some, Option.some.injEq] at taken
    obtain ⟨⟨issued, inside⟩, rfl⟩ := taken
    exact ⟨issued, inside, chain_map _ _⟩

/-! ## Regions are zero when they are returned -/

/-- Nothing that a block has not handed out yet holds data. -/
def Clean (block : ArenaBlock) : Prop :=
  ∀ i, block.offset ≤ i → i < block.capacity → block.data i = 0

private theorem clean_grown (clean : ∀ block ∈ chain, Clean block) (grown : Grown chain block) :
    Clean block := by
  obtain ⟨old, source, later, same⟩ := grown
  intro i behind inside
  rw [same] at inside ⊢
  rcases source with member | ⟨fresh, _⟩
  · exact clean old member i (Nat.le_trans later behind) inside
  · exact congrFun fresh i

private theorem clearBytes_inside (inside : i < count) : clearBytes data 0 count i = 0 := by
  simp [clearBytes, inside]

theorem clean_shredAmong (clean : Clean block) (targets : List Nat) (request : Bool) :
    Clean (shredAmong targets request block) := by
  unfold shredAmong
  split
  · exact fun i _ inside => clearBytes_inside inside
  · exact clean

/-- A store below the offset of a block leaves what is behind it zero. -/
private theorem clean_storedIn (clean : Clean block)
    (below : block.address = address → offset + bytes.length ≤ block.offset) :
    Clean (storedIn address offset bytes block) := by
  unfold storedIn
  split
  · rename_i here
    intro i behind inside
    have written := below here
    exact (writeBytes_outside (.inr (Nat.le_trans written behind))).trans (clean i behind inside)
  · exact clean

/-- What holds while clients respect the lives of their regions. -/
def Zeroed (state : State) : Prop :=
  Kept state ∧ ∀ block ∈ state.arena.blocks.chain, Clean block

theorem zeroed_step {state : State} (zeroed : Zeroed state) (live : WritesLive state event)
    (taken : step state event = some next) : Zeroed next := by
  obtain ⟨kept, clean⟩ := zeroed
  refine ⟨kept_event kept taken, ?_⟩
  have changed := changed_of_step kept taken
  intro block member
  cases event with
  | alloc size malloc => exact clean_grown clean (changed block member)
  | shred id request =>
    obtain ⟨old, held, targets, reset, rfl⟩ := changed block member
    exact clean_shredAmong (clean old held) targets reset
  | reset =>
    obtain ⟨old, held, targets, reset, rfl⟩ := changed block member
    exact clean_shredAmong (clean old held) targets reset
  | write region distance bytes =>
    obtain ⟨_, inside, same⟩ := changed
    rw [same] at member
    obtain ⟨old, held, rfl⟩ := List.mem_map.mp member
    apply clean_storedIn (clean old held)
    intro here
    -- what is live ends below the offset of its block
    have ends := kept.2.below region live old held here
    simp only [InRegion] at inside
    omega

theorem returns_zeroed {state : State} (zeroed : Zeroed state)
    (taken : step state event = some next) : ReturnsZeroed state event := by
  cases event with
  | alloc size malloc =>
    simp only [step, RegionProofs.step, Option.ite_none_right_eq_some] at taken
    intro arena pointer ran
    obtain ⟨_, issued⟩ := alloc_cases zeroed.1 taken.1 ran
    obtain ⟨current, grown, address, offset, fits, member⟩ := issued pointer rfl
    refine ⟨_, member, address, fits, fun i behind inside => ?_⟩
    exact clean_grown zeroed.2 grown i (offset ▸ behind) (Nat.lt_of_lt_of_le inside fits)
  | shred _ _ => trivial
  | reset => trivial
  | write _ _ _ => trivial

/-- Whatever is called on an arena that `arena_init` made, as long as clients
store into live regions only, every region is all zero when it is returned. -/
theorem regions_returned_zeroed (initial : Initial blockSize address)
    (made : arenaInit blockSize true (some address) = some arena) (events : List Event)
    (live : EachStep step WritesLive ⟨arena, []⟩ events) :
    EachStep step ReturnsZeroed ⟨arena, []⟩ events := by
  have start : Zeroed ⟨arena, []⟩ := by
    refine ⟨kept_init initial made, ?_⟩
    obtain rfl := Option.some.inj made
    intro block member
    obtain rfl := List.mem_singleton.mp member
    exact fun _ _ _ => rfl
  exact each_step_of_each_step (fun state event next zeroed live taken =>
    ⟨zeroed_step zeroed live taken, returns_zeroed zeroed taken⟩) start live

/-- Data in two regions, a reset, and the same block handed out again. -/
theorem reissued_zeroed :
    EachStep step ReturnsZeroed
      ⟨⟨false, ⟨[], ⟨4096, 0, false, none, 0, 32, zeros⟩, []⟩, 32, false, false, false⟩, []⟩
      [.alloc 20 none, .write ⟨⟨4096, 0⟩, 20⟩ 4 [7, 8, 9], .alloc 8 (some 8192),
        .write ⟨⟨4096, 0⟩, 20⟩ 0 [1], .shred 0 false, .reset, .alloc 30 none] :=
  regions_returned_zeroed (show Initial 20 4096 by decide) rfl _ (by decide)

/-! ## The flag -/

/-- A block that says it is wiped holds no data. -/
def WipedZero (state : State) : Prop :=
  ∀ block ∈ state.arena.blocks.chain, block.isWiped = true → ∀ i < block.capacity, block.data i = 0

/-- Nothing but zeros is stored into a block whose flag is set. -/
def KeepsWiped (state : State) : Event → Prop
  | .write region _ bytes => ∀ block ∈ state.arena.blocks.chain,
    block.address = region.pointer.block → block.isWiped = true → ∀ byte ∈ bytes, byte = 0
  | .alloc _ _ | .shred _ _ | .reset => True

instance : Decidable (KeepsWiped state event) := by
  cases event
  case write region _ bytes =>
    exact inferInstanceAs (Decidable (∀ block ∈ state.arena.blocks.chain,
      block.address = region.pointer.block → block.isWiped = true → ∀ byte ∈ bytes, byte = 0))
  all_goals exact isTrue trivial

private theorem wiped_grown (zero : ∀ block ∈ chain, block.isWiped = true →
      ∀ i < block.capacity, block.data i = 0) (grown : Grown chain block)
    (wiped : block.isWiped = true) : ∀ i < block.capacity, block.data i = 0 := by
  obtain ⟨old, source, later, same⟩ := grown
  rw [same] at wiped ⊢
  rcases source with member | ⟨fresh, unwiped⟩
  · exact zero old member wiped
  · exact fun i _ => congrFun fresh i

private theorem wiped_shredAmong (zero : block.isWiped = true → ∀ i < block.capacity, block.data i = 0)
    (targets : List Nat) (request : Bool) (wiped : (shredAmong targets request block).isWiped = true) :
    ∀ i < (shredAmong targets request block).capacity, (shredAmong targets request block).data i = 0 := by
  revert wiped
  unfold shredAmong
  split
  · exact fun _ i inside => clearBytes_inside inside
  · exact zero

/-- A region's bytes lie inside the block it is of. -/
theorem inside_block {state : State} (kept : Kept state) (issued : .issued region ∈ state.history)
    (inside : InRegion region distance bytes) (member : block ∈ state.arena.blocks.chain)
    (here : block.address = region.pointer.block) :
    region.pointer.offset + distance + bytes.length ≤ block.capacity := by
  obtain ⟨_, _, other, held, address, _, ends⟩ := kept.2.placed region issued
  obtain rfl := same_block kept.1 held member (address.trans here.symm)
  simp only [InRegion, Region.span, dataSpan, Pointer.address] at ends inside
  omega

/-- An event leaves every flag true to its word exactly if it stores nothing but
zeros into wiped blocks. -/
theorem wipedZero_step {state : State} (kept : Kept state) (zero : WipedZero state)
    (taken : step state event = some next) : WipedZero next ↔ KeepsWiped state event := by
  have changed := changed_of_step kept taken
  cases event with
  | alloc size malloc =>
    exact iff_of_true (fun block member => wiped_grown zero (changed block member)) trivial
  | shred id request =>
    refine iff_of_true (fun block member => ?_) trivial
    obtain ⟨old, held, targets, reset, rfl⟩ := changed block member
    exact wiped_shredAmong (zero old held) targets reset
  | reset =>
    refine iff_of_true (fun block member => ?_) trivial
    obtain ⟨old, held, targets, reset, rfl⟩ := changed block member
    exact wiped_shredAmong (zero old held) targets reset
  | write region distance bytes =>
    obtain ⟨issued, inside, same⟩ := changed
    have stored : ∀ block ∈ state.arena.blocks.chain, block.address = region.pointer.block →
        storedIn region.pointer.block (region.pointer.offset + distance) bytes block =
          { block with data := writeBytes block.data (region.pointer.offset + distance) bytes } :=
      fun block _ here => if_pos here
    constructor
    · intro after block member here wiped
      apply (writeBytes_zero_iff (zero block member wiped)
        (inside_block kept issued inside member here)).mp
      have changed := after _ (same ▸ List.mem_map_of_mem member)
      rw [stored block member here] at changed
      exact changed wiped
    · intro keeps block member wiped
      rw [same] at member
      obtain ⟨old, held, rfl⟩ := List.mem_map.mp member
      by_cases here : old.address = region.pointer.block
      · rw [stored old held here] at wiped ⊢
        exact (writeBytes_zero_iff (zero old held wiped)
          (inside_block kept issued inside held here)).mpr (keeps old held here wiped)
      · simp only [storedIn, if_neg here] at wiped ⊢
        exact zero old held wiped

/-- The flags of all blocks are true to their word throughout a run exactly if
no client ever stores a byte other than zero into a block whose flag is set. -/
theorem wiped_blocks_zero_iff (initial : Initial blockSize address)
    (made : arenaInit blockSize true (some address) = some arena) (events : List Event) :
    Throughout step WipedZero ⟨arena, []⟩ events ↔ EachStep step KeepsWiped ⟨arena, []⟩ events := by
  have start : WipedZero ⟨arena, []⟩ := by
    obtain rfl := Option.some.inj made
    intro block member
    obtain rfl := List.mem_singleton.mp member
    exact fun unwiped => nomatch unwiped
  exact throughout_iff_each_step (fun _ _ _ kept _ _ taken => kept_event kept taken)
    (fun _ _ _ kept zero taken => wipedZero_step kept zero taken) (kept_init initial made) start

/-- Data before a reset, and only zeros after it. -/
theorem flag_true_over_zeros :
    Throughout step WipedZero
      ⟨⟨false, ⟨[], ⟨4096, 0, false, none, 0, 32, zeros⟩, []⟩, 32, false, false, false⟩, []⟩
      [.alloc 8 none, .write ⟨⟨4096, 0⟩, 8⟩ 0 [1], .reset, .alloc 30 none,
        .write ⟨⟨4096, 0⟩, 30⟩ 2 [0, 0]] :=
  (wiped_blocks_zero_iff (show Initial 20 4096 by decide) rfl _).mpr (by decide +kernel)

/-- A block handed out, reset and handed out again keeps its flag when it is
written into. -/
theorem flag_outlives_zeros :
    ∃ arena, arenaInit 20 true (some 4096) = some arena ∧
      ¬ Throughout step WipedZero ⟨arena, []⟩
        [.alloc 8 none, .reset, .alloc 8 none, .write ⟨⟨4096, 0⟩, 8⟩ 0 [1]] := by
  refine ⟨_, rfl, fun throughout => ?_⟩
  have ran : (exec step
      ⟨⟨false, ⟨[], ⟨4096, 0, false, none, 0, 32, zeros⟩, []⟩, 32, false, false, false⟩, []⟩
      [.alloc 8 none, .reset, .alloc 8 none, .write ⟨⟨4096, 0⟩, 8⟩ 0 [1]]).map
        (fun state => state.arena.blocks.chain.map fun block =>
          (block.isWiped, block.capacity, block.data 0)) = some [(true, 32, 1)] := by
    decide
  obtain ⟨final, reached, seen⟩ := Option.map_eq_some_iff.mp ran
  obtain ⟨block, chain, same⟩ := List.map_eq_singleton_iff.mp seen
  simp only [Prod.mk.injEq] at same
  obtain ⟨wiped, capacity, data⟩ := same
  have zero := throughout_final throughout reached block (by simp [chain]) wiped 0 (by omega)
  exact absurd (data.symm.trans zero) (by decide)

end ShapeQuake.ArenaContents
