import ShapeQuake.AllocatorInvariants
import ShapeQuake.Library.Runs

/-! Regions handed out by an arena lie aligned inside the data of one of its
blocks, and two of them share bytes only if the offset of their block was reset
in between. Moving `current` on to a block that is there already is no such
reset, although it sets the block's offset: the block was empty before. -/
namespace ShapeQuake.RegionProofs
open Library.Bytes Library.Spans Library.Runs Allocator AllocatorInvariants

/-- A call on an arena, with the answer `malloc` gives if it is asked. -/
inductive Operation where
  | alloc (size : Nat) (malloc : Option Nat)
  | strdup (src : Option (List UInt8)) (malloc : Option Nat)
  | shred (id : Int) (requestResetOffset : Bool)
  | reset
  deriving Repr

/-- A region that was returned, and the size that was asked for. -/
structure Region where
  pointer : Pointer
  requested : Nat
  deriving DecidableEq, Repr

/-- The addresses a region has been given. -/
def Region.span (region : Region) : Span := ⟨region.pointer.address, align region.requested⟩

/-- The addresses of a block's `data`. -/
def dataSpan (block : ArenaBlock) : Span :=
  ⟨block.address + sizeofArenaBlock, block.capacity⟩

/-- What a history of calls records: a region was returned, or a call reset the
offset of the block at this address. -/
inductive Entry where
  | issued (region : Region)
  | offsetReset (block : Nat)
  deriving DecidableEq, Repr

/-- An arena and its history, latest entry first. -/
structure State where
  arena : Arena
  history : List Entry

/-- The size for which `arena_strdup` asks. -/
def strdupSize (bytes : List UInt8) : Nat := (bytes.takeWhile (· ≠ 0)).length + 1

/-- The calls considered: no sum of a request wraps, and `malloc` keeps to its contract. -/
def Possible (arena : Arena) : Operation → Prop
  | .alloc size malloc => Grantable arena.blocks arena.blockSize size malloc
  | .strdup (some bytes) malloc =>
    Grantable arena.blocks arena.blockSize (strdupSize bytes) malloc
  | .strdup none _ | .shred _ _ | .reset => True

instance : Decidable (Possible arena operation) := by
  unfold Possible
  split <;> infer_instance

/-- The history after a request: one more region if a pointer came back. -/
def record (requested : Nat) (history : List Entry) : Option Pointer → List Entry
  | none => history
  | some pointer => .issued ⟨pointer, requested⟩ :: history

/-- The blocks whose offset a shred or a reset sets to zero. -/
def resetBlocks (blocks : Blocks) : Operation → List Nat
  | .shred id true => shredTargets blocks id
  | .reset => blocks.chain.map ArenaBlock.address
  | _ => []

/-- One call. -/
def step (state : State) (operation : Operation) : Option State :=
  let resets := (resetBlocks state.arena.blocks operation).map Entry.offsetReset
  if Possible state.arena operation then
    match operation with
    | .alloc size malloc =>
      (arenaAlloc state.arena size malloc).map fun (arena, ptr) =>
        ⟨arena, record size state.history ptr⟩
    | .strdup src malloc =>
      (arenaStrdup state.arena src malloc).map fun (arena, dest) =>
        ⟨arena, record (strdupSize (src.getD [])) state.history dest⟩
    | .shred id request =>
      (arenaShred (some state.arena) id request).bind fun (arena, _) =>
        arena.map (⟨·, resets ++ state.history⟩)
    | .reset =>
      (arenaReset (some state.arena)).bind fun arena => arena.map (⟨·, resets ++ state.history⟩)
  else none

/-- A region is aligned, as large as asked for, and inside one block's data. -/
def Placed (chain : List ArenaBlock) (region : Region) : Prop :=
  16 ∣ region.pointer.address ∧ region.requested ≤ region.span.size ∧
    ∃ block ∈ chain, block.address = region.pointer.block ∧ Within region.span (dataSpan block)

/-- Of any two regions returned, the later one shares no byte with the earlier
one unless they are of one block and its offset was reset in between. -/
def KeptApart (history : List Entry) : Prop :=
  ∀ since later between earlier before,
    history = since ++ .issued later :: (between ++ .issued earlier :: before) →
    (later.pointer.block = earlier.pointer.block →
      .offsetReset earlier.pointer.block ∉ between) →
    Apart earlier.span later.span

/-- What the arena promises its clients. -/
def RegionsSound (state : State) : Prop :=
  (∀ region, .issued region ∈ state.history → Placed state.arena.blocks.chain region) ∧
    KeptApart state.history

/-! ## The invariant -/

/-- A region was returned and its block's offset was not reset since. -/
def Live (history : List Entry) (region : Region) : Prop :=
  ∃ since before, history = since ++ .issued region :: before ∧
    .offsetReset region.pointer.block ∉ since

/-- The regions of a history and the offsets of the blocks fit together: what is
live lies below the offset of its block. -/
structure Accounted (blocks : Blocks) (history : List Entry) : Prop where
  placed : ∀ region, .issued region ∈ history → Placed blocks.chain region
  apart : KeptApart history
  below : ∀ region, Live history region → ∀ block ∈ blocks.chain,
    block.address = region.pointer.block → region.pointer.offset + region.span.size ≤ block.offset

private theorem live_issued (live : Live history region) : .issued region ∈ history := by
  obtain ⟨since, before, rfl, _⟩ := live
  simp

private theorem live_of_entry (live : Live (entry :: history) region)
    (other : entry ≠ .issued region) : Live history region ∧ entry ≠ .offsetReset region.pointer.block := by
  obtain ⟨since, before, split_, kept⟩ := live
  cases since with
  | nil => exact absurd (List.cons.inj split_).1 other
  | cons first rest =>
    obtain ⟨rfl, rfl⟩ := List.cons.inj split_
    rw [List.mem_cons, not_or] at kept
    exact ⟨⟨rest, before, rfl, kept.2⟩, Ne.symm kept.1⟩

private theorem live_of_resets {resets : List Nat}
    (live : Live (resets.map Entry.offsetReset ++ history) region) :
    Live history region ∧ region.pointer.block ∉ resets := by
  induction resets with
  | nil => exact ⟨live, List.not_mem_nil⟩
  | cons block rest ih =>
    obtain ⟨older, other⟩ := live_of_entry live nofun
    obtain ⟨oldest, absent⟩ := ih older
    refine ⟨oldest, ?_⟩
    rw [List.mem_cons, not_or]
    exact ⟨fun same => other (congrArg _ same.symm), absent⟩

private theorem keptApart_resets (apart : KeptApart history) (resets : List Nat) :
    KeptApart (resets.map Entry.offsetReset ++ history) := by
  induction resets with
  | nil => exact apart
  | cons block rest ih =>
    intro since later between earlier before split_ noReset
    cases since with
    | nil => exact nomatch (List.cons.inj split_).1
    | cons first since => exact ih since later between earlier before (List.cons.inj split_).2 noReset

private theorem placed_mono (placed : Placed chain region)
    (kept : chain.map ArenaBlock.span ⊆ next.map ArenaBlock.span) : Placed next region := by
  obtain ⟨aligned, enough, block, member, address, inside⟩ := placed
  obtain ⟨other, held, same⟩ := List.mem_map.mp (kept (List.mem_map_of_mem member))
  have start : other.address = block.address := congrArg Span.start same
  have size : other.capacity = block.capacity := Nat.add_left_cancel (congrArg Span.size same)
  refine ⟨aligned, enough, other, held, start.trans address, ?_⟩
  simpa only [dataSpan, start, size] using inside

private theorem within_block (inside : Within span (dataSpan block)) : Within span block.span :=
  within_trans inside ⟨Nat.le_add_right _ _, by simp only [dataSpan, ArenaBlock.span]; omega⟩

/-- A new region lies at the old offset of `current`, above what is live there. -/
theorem accounted_issued (formed : WellFormed blocks blockSize)
    (accounted : Accounted blocks history) (small : requested + 15 < 2 ^ 64)
    (fits : blocks.current.offset + align requested ≤ blocks.current.capacity) :
    Accounted
      { blocks with
        current := { blocks.current with offset := blocks.current.offset + align requested } }
      (.issued ⟨⟨blocks.current.address, blocks.current.offset⟩, requested⟩ :: history) := by
  have current := formed.placed _ (current_mem_chain blocks)
  have request := align_dvd requested
  have handed := current.handedWhole
  have bumped := wellFormed_bump formed (Nat.dvd_add handed request) fits
  have inside : Within (Region.span ⟨⟨blocks.current.address, blocks.current.offset⟩, requested⟩)
      (dataSpan blocks.current) :=
    ⟨Nat.le_add_right _ _, by simp only [Region.span, Pointer.address, dataSpan]; omega⟩
  refine ⟨?_, ?_, ?_⟩
  · intro region issued
    rcases List.mem_cons.mp issued with same | older
    · obtain rfl := Entry.issued.inj same
      have aligned := current.aligned
      refine ⟨?_, align_le small, _, current_mem_chain _, rfl, inside⟩
      simp only [Pointer.address, sizeofArenaBlock]
      omega
    · apply placed_mono (accounted.placed region older)
      simp [Blocks.chain, ArenaBlock.span]
  · intro since later between earlier before split_ noReset
    cases since with
    | cons first since =>
      exact accounted.apart since later between earlier before (List.cons.inj split_).2 noReset
    | nil =>
      obtain ⟨same, rest⟩ := List.cons.inj split_
      obtain rfl := Entry.issued.inj same
      by_cases block : blocks.current.address = earlier.pointer.block
      · -- the same block: what is live in it ends below the offset
        have below := accounted.below earlier ⟨between, before, rest, noReset block⟩ _
          (current_mem_chain blocks) block
        apply Or.inl
        simp only [Region.span, Pointer.address] at below ⊢
        omega
      · obtain ⟨_, _, other, member, address, within_⟩ := accounted.placed earlier (by simp [rest])
        exact apart_of_within
          (blocks_apart formed member (current_mem_chain blocks) (address ▸ Ne.symm block))
          (within_block within_) (within_block inside)
  · intro region live block member address
    by_cases newest : region = ⟨⟨blocks.current.address, blocks.current.offset⟩, requested⟩
    · subst newest
      exact (same_block bumped member (current_mem_chain _) address) ▸ Nat.le_refl _
    · obtain ⟨older, _⟩ := live_of_entry live fun same => newest (Entry.issued.inj same).symm
      simp only [chain_mk, List.mem_append, List.mem_cons] at member
      rcases member with old | rfl | old
      · exact accounted.below region older block (by simp [Blocks.chain, old]) address
      · have := accounted.below region older _ (current_mem_chain blocks) address
        exact Nat.le_trans this (Nat.le_add_right _ _)
      · exact accounted.below region older block (mem_chain_of_after old) address

/-- Changes that leave the blocks in place, and empty only those recorded. -/
theorem accounted_changed (accounted : Accounted blocks history) {change : ArenaBlock → ArenaBlock}
    {resets : List Nat} (chain : next.chain = blocks.chain.map change)
    (place : ∀ block, (change block).span = block.span)
    (handed : ∀ block ∈ blocks.chain,
      (change block).offset = block.offset ∨ block.address ∈ resets) :
    Accounted next (resets.map Entry.offsetReset ++ history) := by
  refine ⟨?_, keptApart_resets accounted.apart resets, ?_⟩
  · intro region issued
    have older : .issued region ∈ history := by simpa using issued
    apply placed_mono (accounted.placed region older)
    simp [chain, Function.comp_def, place]
  · intro region live changed member address
    obtain ⟨older, kept⟩ := live_of_resets live
    obtain ⟨block, held, rfl⟩ := List.mem_map.mp (chain ▸ member)
    have start : (change block).address = block.address := congrArg Span.start (place block)
    rcases handed block held with same | reset
    · rw [same]
      exact accounted.below region older block held (start ▸ address)
    · exact absurd (address ▸ start ▸ reset) kept

/-- Wherever the loop of an allocation ends, the blocks account for the same regions. -/
theorem accounted_found (formed : WellFormed next blockSize) (accounted : Accounted blocks history)
    (found : RoomFound alignedSize blockSize malloc blocks (next, room)) :
    Accounted next history := by
  have same : next.chain = blocks.chain → Accounted next history :=
    fun same => ⟨fun region issued => same ▸ accounted.placed region issued, accounted.apart,
      fun region live block member => accounted.below region live block (same ▸ member)⟩
  cases found with
  | here _ _ chain _ _ _ _ _ => exact same chain
  | exhausted _ chain _ _ => exact same chain
  | added address id prev answered _ =>
    refine ⟨fun region issued => placed_mono (accounted.placed region issued) (by simp), accounted.apart, ?_⟩
    intro region live block member start
    obtain ⟨_, _, other, held, place, _⟩ := accounted.placed region (live_issued live)
    -- no region can lie in the new block, since its block is an old one
    have old : other = block := same_block formed (by simp [held]) member (place.trans start.symm)
    exact accounted.below region live block (old ▸ held) start

/-! ## Calls -/

/-- An allocation keeps the arena well formed and accounts for what it returns. -/
theorem alloc_accounted (formed : WellFormed arena.blocks arena.blockSize)
    (accounted : Accounted arena.blocks history)
    (grantable : Grantable arena.blocks arena.blockSize size malloc)
    (ran : arenaAlloc arena size malloc = some (next, pointer)) :
    WellFormed next.blocks next.blockSize ∧ Accounted next.blocks (record size history pointer) := by
  obtain ⟨blocks, found, formedFound, granted⟩ := alloc_granted formed grantable ran
  have accountedFound := accounted_found formedFound accounted found
  cases granted with
  | refused => exact ⟨formedFound, accountedFound⟩
  | handed fits bumped =>
    exact ⟨bumped, accounted_issued formedFound accountedFound grantable.1 fits⟩

/-- Nothing is recorded of a change that empties no block. -/
private theorem accounted_unrecorded (accounted : Accounted blocks history)
    {change : ArenaBlock → ArenaBlock} (place : ∀ block, (change block).span = block.span)
    (handed : ∀ block, (change block).offset = block.offset) :
    Accounted (blocks.map change) history :=
  show Accounted (blocks.map change) (([] : List Nat).map Entry.offsetReset ++ history) from
    accounted_changed accounted (chain_map change blocks) place fun block _ => .inl (handed block)

theorem strdup_accounted (formed : WellFormed arena.blocks arena.blockSize)
    (accounted : Accounted arena.blocks history)
    (possible : Possible arena (.strdup src malloc))
    (ran : arenaStrdup arena src malloc = some (next, dest)) :
    WellFormed next.blocks next.blockSize ∧
      Accounted next.blocks (record (strdupSize (src.getD [])) history dest) := by
  cases src with
  | none =>
    obtain ⟨rfl, rfl⟩ := Prod.mk.inj (Option.some.inj ran)
    exact ⟨formed, accounted⟩
  | some bytes =>
    simp only [arenaStrdup, Option.map_eq_some_iff] at ran
    obtain ⟨⟨after, pointer⟩, allocated, copied⟩ := ran
    have sound := alloc_accounted formed accounted possible allocated
    cases pointer with
    | none =>
      obtain ⟨rfl, rfl⟩ := Prod.mk.inj copied
      exact sound
    | some pointer =>
      obtain ⟨rfl, rfl⟩ := Prod.mk.inj copied
      refine ⟨wellFormed_write sound.1 _ _, accounted_unrecorded sound.2 (fun block => ?_)
        (fun block => ?_)⟩
      · split <;> rfl
      · split <;> rfl

/-- A shred empties at most the blocks it is recorded for. -/
theorem shred_accounted (formed : WellFormed blocks blockSize)
    (accounted : Accounted blocks history) (id : Int) (request : Bool) :
    Accounted (internalArenaShred blocks id request).1
      ((resetBlocks blocks (.shred id request)).map Entry.offsetReset ++ history) := by
  have shredded := internalArenaShred_eq (addresses_nodup formed) id request
  refine accounted_changed accounted (shredded ▸ chain_map _ _) (shredAmong_span _ _) fun block _ => ?_
  rw [shredAmong_offset]
  cases request with
  | false => exact .inl rfl
  | true =>
    by_cases target : block.address ∈ shredTargets blocks id
    · exact .inr target
    · simp [target]

theorem reset_accounted (accounted : Accounted blocks history) :
    Accounted (blocks.map (internalBlockShred true)).rewind
      ((resetBlocks blocks .reset).map Entry.offsetReset ++ history) :=
  accounted_changed accounted ((rewind_chain _).trans (chain_map _ _)) (internalBlockShred_span true)
    fun _ member => .inr (List.mem_map_of_mem member)

/-- What every call keeps. -/
def Kept (state : State) : Prop :=
  WellFormed state.arena.blocks state.arena.blockSize ∧
    Accounted state.arena.blocks state.history

theorem kept_step (kept : Kept state) (taken : step state operation = some next) : Kept next := by
  obtain ⟨formed, accounted⟩ := kept
  unfold step at taken
  split at taken
  case isFalse => cases taken
  case isTrue possible =>
    cases operation with
    | alloc size malloc =>
      obtain ⟨⟨arena, pointer⟩, ran, rfl⟩ := Option.map_eq_some_iff.mp taken
      exact alloc_accounted formed accounted possible ran
    | strdup src malloc =>
      obtain ⟨⟨arena, dest⟩, ran, rfl⟩ := Option.map_eq_some_iff.mp taken
      exact strdup_accounted formed accounted possible ran
    | shred id request =>
      obtain ⟨⟨after, status⟩, ran, returned⟩ := Option.bind_eq_some_iff.mp taken
      obtain ⟨_, rfl, _⟩ := arenaShred_cases ran
      obtain rfl := Option.some.inj returned
      exact ⟨wellFormed_shred formed id request, shred_accounted formed accounted id request⟩
    | reset =>
      obtain ⟨after, ran, returned⟩ := Option.bind_eq_some_iff.mp taken
      obtain ⟨_, rfl⟩ := arenaReset_cases ran
      obtain rfl := Option.some.inj returned
      exact ⟨wellFormed_reset formed, reset_accounted accounted⟩

theorem kept_init (initial : Initial blockSize address)
    (made : arenaInit blockSize true (some address) = some arena) : Kept ⟨arena, []⟩ := by
  refine ⟨wellFormed_init initial made, by simp, ?_, ?_⟩
  · intro since later between earlier before split_
    simp at split_
  · rintro region ⟨since, before, split_, _⟩
    simp at split_

/-- Whatever is called on an arena that `arena_init` made, every region returned
is aligned, large enough and inside the data of a block of the chain, and any
two regions are apart unless their block's offset was reset in between. -/
theorem regions_placed_and_apart (initial : Initial blockSize address)
    (made : arenaInit blockSize true (some address) = some arena) (operations : List Operation) :
    Throughout step RegionsSound ⟨arena, []⟩ operations :=
  throughout_mono (fun _ kept => ⟨kept.2.placed, kept.2.apart⟩)
    (throughout_invariant (fun _ _ _ => kept_step) (kept_init initial made) operations)

/-- A block of 32 bytes, a second one behind it, a reset, and the first two
requests again: the second block is moved to, not made. -/
theorem second_round_apart :
    Throughout step RegionsSound
      ⟨⟨false, ⟨[], ⟨4096, 0, false, none, 0, 32, zeros⟩, []⟩, 32, false, false, false⟩, []⟩
      [.alloc 20 none, .strdup (some [104, 105]) (some 8192), .reset, .alloc 20 none,
        .alloc 8 none, .shred 1 true, .shred (-1) false] :=
  regions_placed_and_apart (show Initial 20 4096 by decide) rfl _

end ShapeQuake.RegionProofs
