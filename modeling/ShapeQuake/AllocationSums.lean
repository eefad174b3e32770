import ShapeQuake.ArenaCalls
import ShapeQuake.ArenaExhaustion
import ShapeQuake.Heap
import ShapeQuake.Vma

/-! The sums of the three allocators. None of them is checked before it is made: a request
near the top of `size_t` is rounded up to zero, or put behind an offset, or a header in
front of it, and what is left of the sum passes the test of the capacity. -/
namespace ShapeQuake.AllocationSums
open Library.Bytes Library.Runs Allocator AllocatorInvariants ArenaCalls ArenaExhaustion

/-- No sum that was made wraps, and what was reserved, from an offset to another, is enough
for the request and within the capacity. -/
def Reserved (size : Nat) (sums : List Nat) (first last capacity : Nat) : Prop :=
  (∀ sum ∈ sums, sum < 2 ^ 64) ∧ first + size ≤ last ∧ last ≤ capacity

/-! ## The arena -/

instance : Decidable (Full alignedSize block) := Nat.decLt _ _

instance : Decidable (NeedsBlock arena size) := inferInstanceAs (Decidable (_ ∧ _))

/-- The sums of `arena_allocate_raw`: the rounding and the new offset, and for a new block
the rounding of its size and its header. In a block that the loop moves to the offset is
zero, so the sum is the rounded size. -/
def arenaSums (arena : Arena) (size : Nat) : List Nat :=
  let alignedSize := align size
  let nextSize := max alignedSize arena.blockSize
  [size + 15, arena.blocks.current.offset + alignedSize] ++
    if NeedsBlock arena size then [nextSize + 15, align sizeofArenaBlock + align nextSize] else []

/-- An allocation returns null or a pointer to enough memory of a block. -/
def ArenaReserves (arena : Arena) (size : Nat) (next : Arena) (pointer : Option Pointer) : Prop :=
  ∀ returned ∈ pointer, ∃ block ∈ next.blocks.chain, block.address = returned.block ∧
    Reserved size (arenaSums arena size) returned.offset block.offset block.capacity

/-- There is no memory for the block it needs, or the request is so far below 2 ^ 64. -/
def ArenaBounded (arena : Arena) (size : Nat) (malloc : Option Nat) : Prop :=
  NeedsBlock arena size ∧ malloc = none ∨
    arena.blocks.current.offset + size + 16 ≤ 2 ^ 64 ∧
      (NeedsBlock arena size → size + 80 ≤ 2 ^ 64 ∧ arena.blockSize + 80 ≤ 2 ^ 64)

/-- The unit of an arena is rounded, and so are the offsets. -/
structure Rounded (arena : Arena) : Prop where
  unitWhole : 16 ∣ arena.blockSize
  unitFits : arena.blockSize < 2 ^ 64
  offsets : Whole arena.blocks.chain

theorem rounded_init (made : arenaInit blockSize room malloc = some arena) : Rounded arena := by
  unfold arenaInit at made
  split at made
  · obtain ⟨head, new, rfl⟩ := Option.map_eq_some_iff.mp made
    obtain ⟨address, _, rfl⟩ := Option.map_eq_some_iff.mp new
    refine ⟨align_dvd _, align_lt _, ?_⟩
    intro block member
    obtain rfl := List.mem_singleton.mp member
    exact Nat.dvd_zero 16
  · cases made

theorem rounded_step (rounded : Rounded arena) (taken : step arena call = some next) : Rounded next := by
  obtain ⟨_, _, unit, _, whole⟩ := step_extends taken
  exact ⟨unit ▸ rounded.unitWhole, unit ▸ rounded.unitFits, whole rounded.offsets⟩

/-- The sums do not wrap exactly if the request is so far below 2 ^ 64. -/
private theorem arenaSums_iff (rounded : Rounded arena) (size : Nat) :
    (∀ sum ∈ arenaSums arena size, sum < 2 ^ 64) ↔
      arena.blocks.current.offset + size + 16 ≤ 2 ^ 64 ∧
        (NeedsBlock arena size → size + 80 ≤ 2 ^ 64 ∧ arena.blockSize + 80 ≤ 2 ^ 64) := by
  have current : size + 15 < 2 ^ 64 ∧ arena.blocks.current.offset + align size < 2 ^ 64 ↔ _ :=
    add_roundUp16_lt_iff (rounded.offsets _ (current_mem_chain arena.blocks))
  have header : size + 15 < 2 ^ 64 ∧ 64 + align size < 2 ^ 64 ↔ 64 + size + 16 ≤ 2 ^ 64 :=
    add_roundUp16_lt_iff (by decide)
  have unit := rounded.unitWhole
  by_cases needs : NeedsBlock arena size
  · simp only [arenaSums, needs, if_true, align_sizeofArenaBlock,
      align_nextSize unit rounded.unitFits size, List.cons_append, List.nil_append,
      List.forall_mem_cons, List.not_mem_nil, false_implies, implies_true, and_true, true_implies]
    omega
  · simp only [arenaSums, needs, if_false, List.append_nil, List.forall_mem_cons, List.not_mem_nil,
      false_implies, implies_true, and_true]
    exact current

/-- Where its first sum does not wrap, the loop ends at a block with room. -/
private theorem findRoom_fits (small : alignedSize < 2 ^ 64)
    (unit : align (max alignedSize blockSize) = max alignedSize blockSize)
    (noWrap : current.offset + alignedSize < 2 ^ 64)
    (ran : findRoom alignedSize blockSize malloc before current after = (found, true)) :
    found.current.offset + alignedSize < 2 ^ 64 ∧
      found.current.offset + alignedSize ≤ found.current.capacity := by
  induction after generalizing before current with
  | nil =>
    rw [findRoom] at ran
    split at ran
    · cases malloc with
      | none => cases ran
      | some address =>
        have larger : (if alignedSize > blockSize then alignedSize else blockSize) =
            max alignedSize blockSize := by
          split <;> omega
        simp only [arenaNewBlock, Option.map_some, larger, unit, Prod.mk.injEq, and_true] at ran
        subst ran
        simp only [Nat.zero_add]
        exact ⟨small, Nat.le_max_left _ _⟩
    · rename_i fits
      cases ran
      rw [wrap64_of_lt noWrap, gt_iff_lt, Nat.not_lt] at fits
      exact ⟨noWrap, fits⟩
  | cons next rest ih =>
    rw [findRoom] at ran
    split at ran
    · exact ih (by simpa using small) ran
    · rename_i fits
      cases ran
      rw [wrap64_of_lt noWrap, gt_iff_lt, Nat.not_lt] at fits
      exact ⟨noWrap, fits⟩

/-- An allocation that returned reserves what it should exactly if the request is bounded. -/
private theorem arena_reserves_iff (rounded : Rounded arena)
    (ran : arenaAlloc arena size malloc = some (next, pointer)) :
    ArenaReserves arena size next pointer ↔ ArenaBounded arena size malloc := by
  obtain ⟨_, found, room, loop, outcome⟩ := arenaAllocateRaw_cases ran
  rcases outcome with ⟨rfl, rfl, rfl⟩ | ⟨rfl, rfl, rfl⟩
  · obtain ⟨refused, full, rest⟩ := findRoom_refused loop
    exact iff_of_true nofun (.inl ⟨⟨full, rest⟩, refused⟩)
  · have sums := arenaSums_iff rounded size
    constructor
    · intro reserves
      obtain ⟨_, _, _, small, _⟩ := reserves _ rfl
      exact .inr (sums.mp small)
    · rintro (⟨needs, rfl⟩ | bounded)
      · obtain ⟨last, exhausted, _⟩ :=
          findRoom_exhausted (align size) arena.blockSize arena.blocks.before needs.1 needs.2
        rw [exhausted] at loop
        cases loop
      · rintro returned ⟨⟩
        have small := sums.mpr bounded
        have unit := align_nextSize rounded.unitWhole rounded.unitFits size
        have rounding : size + 15 < 2 ^ 64 := small _ (by simp [arenaSums])
        have first : arena.blocks.current.offset + align size < 2 ^ 64 := small _ (by simp [arenaSums])
        obtain ⟨noWrap, fits⟩ := findRoom_fits (align_lt size) unit first loop
        have enough := align_le rounding
        refine ⟨_, current_mem_chain _, rfl, small, ?_⟩
        simp only [wrap64_of_lt noWrap]
        exact ⟨by omega, fits⟩

/-- Every call of `arena_alloc` that returns, in this state. -/
def ArenaExact (arena : Arena) : Prop :=
  ∀ size malloc next pointer, arenaAlloc arena size malloc = some (next, pointer) →
    (ArenaReserves arena size next pointer ↔ ArenaBounded arena size malloc)

/-! ## The heap -/

/-- An allocation returns null or a pointer behind a header to enough memory. -/
def HeapReserves (size : Nat) (memory : Heap.Memory) (ptr : Option Nat) : Prop :=
  ∀ user ∈ ptr, ∃ span ∈ memory.blocks, span.start + 16 = user ∧
    Reserved size [size + 15, Heap.alignHeap size + 16] 16 (16 + memory.sizeWord span.start) span.size

/-- The request is refused, or so far below 2 ^ 64. -/
def HeapBounded (tracker : Heap.HeapTracker) (size : Nat) (malloc : Option Nat) : Prop :=
  size < 1 ∨ Heap.maxHeaps ≤ tracker.active ∨ malloc = none ∨ size + 32 ≤ 2 ^ 64

/-- Every call of `heap_alloc` that returns, in this state. -/
def HeapExact (tracker : Heap.HeapTracker) (memory : Heap.Memory) : Prop :=
  ∀ size malloc after memoryAfter ptr,
    Heap.heapAlloc (some tracker) memory size malloc = some (after, memoryAfter, ptr) →
      (HeapReserves size memoryAfter ptr ↔ HeapBounded tracker size malloc)

private theorem heap_exact (tracker : Heap.HeapTracker) (memory : Heap.Memory) :
    HeapExact tracker memory := by
  intro size malloc after memoryAfter ptr ran
  have header : size + 15 < 2 ^ 64 ∧ 16 + Heap.alignHeap size < 2 ^ 64 ↔ 16 + size + 16 ≤ 2 ^ 64 :=
    add_roundUp16_lt_iff (Nat.dvd_refl 16)
  obtain ⟨_, ⟨rfl, _, rfl, why⟩ | ⟨raw, rfl, asked, room, rfl, _, rfl⟩⟩ := Heap.heapAlloc_cases ran
  · refine iff_of_true nofun ?_
    rcases why with empty | full | refused
    · exact .inl empty
    · exact .inr (.inl full)
    · exact .inr (.inr (.inl refused))
  · constructor
    · intro reserves
      obtain ⟨_, _, _, small, _⟩ := reserves _ rfl
      simp only [List.forall_mem_cons] at small
      exact .inr (.inr (.inr (by omega)))
    · intro bounded
      have below : size + 32 ≤ 2 ^ 64 := by
        rcases bounded with empty | full | refused | below
        · omega
        · omega
        · cases refused
        · exact below
      obtain ⟨rounding, total⟩ := header.mpr (by omega)
      have enough : size ≤ Heap.alignHeap size := roundUp16_le rounding
      rintro user ⟨⟩
      refine ⟨_, List.mem_cons_self, rfl, ?_, ?_⟩
      · simp only [List.forall_mem_cons, List.not_mem_nil, false_implies, implies_true, and_true]
        omega
      · simp only [Function.update_self, wrap64_of_lt (Nat.add_comm _ 16 ▸ total)]
        omega

/-! ## The zones -/

/-- A call on a zone. -/
inductive ZoneCall where
  | alloc (size : Nat)
  | reset
  deriving Repr

/-- One call, through a pointer to the zone. -/
def zoneStep (pointer : Nat) (zone : Vma.VmaZone) : ZoneCall → Option Vma.VmaZone
  | .alloc size => some (Vma.vmaAlloc pointer zone size).1
  | .reset => some (Vma.vmaReset pointer zone).1

/-- An allocation returns null or a pointer to enough memory of the zone. -/
def ZoneReserves (pointer : Nat) (zone : Vma.VmaZone) (size : Nat) (after : Vma.VmaZone)
    (ptr : Option Nat) : Prop :=
  ∀ returned ∈ ptr, returned = pointer + zone.offset ∧
    Reserved size [size + 15, zone.offset + Vma.alignVma size] zone.offset after.offset after.capacity

/-- The request is refused, or so far below 2 ^ 64. -/
def ZoneBounded (zone : Vma.VmaZone) (size : Nat) : Prop :=
  zone.capacity < wrap64 (zone.offset + Vma.alignVma size) ∨ zone.offset + size + 16 ≤ 2 ^ 64

/-- Every call of `vma_alloc` in this state. -/
def ZoneExact (pointer : Nat) (zone : Vma.VmaZone) : Prop :=
  ∀ size after ptr effects, Vma.vmaAlloc pointer zone size = (after, ptr, effects) →
    (ZoneReserves pointer zone size after ptr ↔ ZoneBounded zone size)

private theorem zone_exact (whole : 16 ∣ zone.offset) (pointer : Nat) : ZoneExact pointer zone := by
  intro size after ptr effects ran
  have sums : size + 15 < 2 ^ 64 ∧ zone.offset + Vma.alignVma size < 2 ^ 64 ↔
      zone.offset + size + 16 ≤ 2 ^ 64 :=
    add_roundUp16_lt_iff whole
  have inner : Vma.internalVmaAlloc pointer zone size = (after, ptr) := by
    simp only [Vma.vmaAlloc, Prod.mk.injEq] at ran
    exact Prod.ext ran.1 ran.2.1
  rcases Vma.internalVmaAlloc_cases inner with ⟨rfl, rfl, full⟩ | ⟨rfl, rfl, fits⟩
  · exact iff_of_true nofun (.inl full)
  · constructor
    · intro reserves
      obtain ⟨_, small, _⟩ := reserves _ rfl
      simp only [List.forall_mem_cons] at small
      exact .inr (sums.mp ⟨small.1, small.2.1⟩)
    · rintro (full | bounded)
      · omega
      · obtain ⟨rounding, noWrap⟩ := sums.mpr bounded
        have enough : size ≤ Vma.alignVma size := roundUp16_le rounding
        rw [wrap64_of_lt noWrap] at fits
        rintro returned ⟨⟩
        refine ⟨rfl, ?_, ?_⟩
        · simp only [List.forall_mem_cons, List.not_mem_nil, false_implies, implies_true, and_true]
          exact ⟨rounding, noWrap⟩
        · simp only [wrap64_of_lt noWrap]
          omega

private theorem zone_step (whole : 16 ∣ zone.offset) (taken : zoneStep pointer zone call = some next) :
    16 ∣ next.offset := by
  cases call with
  | alloc size =>
    obtain ⟨ptr, ran⟩ : ∃ ptr, Vma.internalVmaAlloc pointer zone size = (next, ptr) :=
      ⟨_, Prod.ext (Option.some.inj taken) rfl⟩
    rcases Vma.internalVmaAlloc_cases ran with ⟨_, rfl, _⟩ | ⟨_, rfl, _⟩
    · exact whole
    · exact wrap64_dvd whole (roundUp16_dvd size)
  | reset =>
    obtain rfl := Option.some.inj taken
    exact roundUp16_dvd _

/-! ## All three -/

/-- In every state that is reached, a call that returns reserves what it should exactly if
it is refused or its request is so far below 2 ^ 64. -/
theorem reserves_iff_bounded (made : arenaInit blockSize room malloc = some arena)
    (created : (Vma.vmaCreate (some name) length answers).1 = some zone) (calls : List Call)
    (tracker : Heap.HeapTracker) (memory : Heap.Memory) (pointer : Nat) (zoneCalls : List ZoneCall) :
    Throughout step ArenaExact arena calls ∧ HeapExact tracker memory ∧
      Throughout (zoneStep pointer) (ZoneExact pointer) zone zoneCalls := by
  refine ⟨?_, heap_exact tracker memory, ?_⟩
  · apply throughout_mono fun _ (rounded : Rounded _) _ _ _ _ ran => arena_reserves_iff rounded ran
    exact throughout_invariant (fun _ _ _ rounded taken => rounded_step rounded taken)
      (rounded_init made) calls
  · obtain ⟨_, _, _, _, _, rfl⟩ := Vma.vmaCreate_cases created
    apply throughout_mono (fun zone (whole : 16 ∣ zone.offset) => zone_exact whole pointer)
    exact throughout_invariant (fun _ _ _ whole taken => zone_step whole taken)
      (roundUp16_dvd _) zoneCalls

/-- Blocks of 16 bytes, a zone of 4096, and requests from both ends of the range. -/
theorem small_and_large_requests :
    Throughout step ArenaExact
        ⟨false, ⟨[], ⟨4096, 0, false, none, 0, 16, zeros⟩, []⟩, 16, false, false, false⟩
        [.alloc 17 (some 8192), .alloc (2 ^ 64 - 1) none] ∧
      HeapExact Heap.zeroTracker ⟨fun _ => 0, []⟩ ∧
      Throughout (zoneStep 65536) (ZoneExact 65536) ⟨3, 65536, 4096, 112, true, [97]⟩
        [.alloc 100, .alloc (2 ^ 64 - 1), .reset] :=
  reserves_iff_bounded (show arenaInit 16 true (some 4096) = some _ from rfl)
    (show (Vma.vmaCreate (some [97]) 4096 ⟨some 3, true, some 65536⟩).1 = some _ from rfl) _ _ _ _ _

/-- The first sum wraps. -/
private theorem largest_wraps : ¬ Reserved size ((2 ^ 64 - 1 + 15) :: sums) first last capacity := by
  rintro ⟨small, _⟩
  have := small _ List.mem_cons_self
  omega

/-- A request of 2 ^ 64 - 1 bytes is rounded up to none: each of the three returns a
pointer, and reserves nothing. -/
theorem largest_size_reserves_nothing :
    (∃ arena next, arenaInit 16 true (some 4096) = some arena ∧
        arenaAlloc arena (2 ^ 64 - 1) none = some (next, some ⟨4096, 0⟩) ∧
        next.blocks.current.offset = 0 ∧ ¬ ArenaReserves arena (2 ^ 64 - 1) next (some ⟨4096, 0⟩)) ∧
      (∃ after memory, Heap.heapAlloc (some Heap.zeroTracker) ⟨fun _ => 0, []⟩ (2 ^ 64 - 1) (some 4096) =
          some (after, memory, some 4112) ∧ memory.blocks = [⟨4096, 16⟩] ∧
        ¬ HeapReserves (2 ^ 64 - 1) memory (some 4112)) ∧
      ∃ zone after effects, (Vma.vmaCreate (some [97]) 4096 ⟨some 3, true, some 65536⟩).1 = some zone ∧
        Vma.vmaAlloc 65536 zone (2 ^ 64 - 1) = (after, some 65648, effects) ∧ after.offset = zone.offset ∧
        ¬ ZoneReserves 65536 zone (2 ^ 64 - 1) after (some 65648) := by
  refine ⟨⟨_, _, rfl, rfl, rfl, ?_⟩, ⟨_, _, rfl, rfl, ?_⟩, _, _, _, rfl, rfl, rfl, ?_⟩
  · intro reserves
    obtain ⟨_, _, _, reserved⟩ := reserves _ rfl
    exact largest_wraps reserved
  · intro reserves
    obtain ⟨_, _, _, reserved⟩ := reserves _ rfl
    exact largest_wraps reserved
  · intro reserves
    exact largest_wraps (reserves _ rfl).2

end ShapeQuake.AllocationSums
