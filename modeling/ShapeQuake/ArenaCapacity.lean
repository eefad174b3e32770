import ShapeQuake.AllocatorInvariants
import ShapeQuake.Library.Runs

/-! What `get_amount_capacity` counts. Capacities and the result are as wide as
`size_t`, but the sum between them is an `unsigned int`. -/
namespace ShapeQuake.ArenaCapacity
open Library.Runs Allocator AllocatorInvariants

/-- `SIZE_MAX`. -/
def sizeMax : Nat := 2 ^ 64 - 1

/-- The loop of `get_amount_capacity`, from a block on. -/
def amountFrom (amount : Nat) : List ArenaBlock → Nat
  | [] => amount
  | it :: next =>
    if it.capacity < 1 then sizeMax else amountFrom ((amount + it.capacity) % 2 ^ 32) next

/-- `get_amount_capacity`, of the chain that starts at the block; the null pointer is
the empty chain. -/
def getAmountCapacity (head : List ArenaBlock) : Nat :=
  match head with
  | [] => 0
  | head => amountFrom 0 head

/-- What the blocks of a chain have together. -/
def totalCapacity (chain : List ArenaBlock) : Nat := (chain.map ArenaBlock.capacity).sum

/-- A request, with the answer `malloc` gives if it is asked. -/
structure Request where
  size : Nat
  malloc : Option Nat
  deriving Repr

/-- One `arena_alloc` whose sums do not wrap. -/
def step (arena : Arena) (request : Request) : Option Arena :=
  if Grantable arena.blocks arena.blockSize request.size request.malloc then
    (arenaAlloc arena request.size request.malloc).map Prod.fst
  else none

/-! ## The sum -/

/-- Without an empty block the loop counts modulo 2 ^ 32. -/
theorem amountFrom_eq (solid : ∀ block ∈ chain, 1 ≤ block.capacity) (small : amount < 2 ^ 32) :
    amountFrom amount chain = (amount + totalCapacity chain) % 2 ^ 32 := by
  induction chain generalizing amount with
  | nil => exact (Nat.mod_eq_of_lt small).symm
  | cons it next ih =>
    obtain ⟨here, others⟩ := List.forall_mem_cons.mp solid
    rw [amountFrom, if_neg (Nat.not_lt.mpr here), ih others (Nat.mod_lt _ (Nat.two_pow_pos 32)),
      totalCapacity, totalCapacity, List.map_cons, List.sum_cons, Nat.mod_add_mod, Nat.add_assoc]

theorem getAmountCapacity_eq (solid : ∀ block ∈ chain, 1 ≤ block.capacity) :
    getAmountCapacity chain = totalCapacity chain % 2 ^ 32 := by
  cases chain with
  | nil => rfl
  | cons head rest =>
    show amountFrom 0 (head :: rest) = _
    rw [amountFrom_eq solid (Nat.two_pow_pos 32), Nat.zero_add]

/-! ## The arena -/

/-- The blocks of an arena in order, each as large as the unit at least. -/
structure Sized (arena : Arena) : Prop where
  formed : WellFormed arena.blocks arena.blockSize
  unit : 1 ≤ arena.blockSize
  large : ∀ block ∈ arena.blocks.chain, arena.blockSize ≤ block.capacity

theorem sized_init (initial : Initial blockSize address)
    (made : arenaInit blockSize true (some address) = some arena) : Sized arena := by
  have formed := wellFormed_init initial made
  have enough : 1 ≤ workingBlockSize blockSize := by
    have rounded := align_le initial.1
    unfold workingBlockSize
    split
    · decide
    · omega
  have capacity : align (workingBlockSize blockSize) = workingBlockSize blockSize :=
    align_of_dvd (align_dvd _) (by have := initial.2.1; omega)
  obtain rfl := Option.some.inj made
  refine ⟨formed, enough, ?_⟩
  intro block member
  obtain rfl := List.mem_singleton.mp member
  exact Nat.le_of_eq capacity.symm

private theorem large_found {blocks : Blocks} (formed : WellFormed blocks blockSize)
    (large : ∀ block ∈ blocks.chain, blockSize ≤ block.capacity)
    (found : RoomFound (align size) blockSize malloc blocks (next, room)) :
    ∀ block ∈ next.chain, blockSize ≤ block.capacity := by
  intro block member
  cases found with
  | here _ _ same _ _ _ _ _ => exact large block (same ▸ member)
  | exhausted _ same _ _ => exact large block (same ▸ member)
  | added address id prev _ _ =>
    rcases List.mem_append.mp member with old | new
    · exact large block old
    · obtain rfl := List.mem_singleton.mp new
      rw [newBlock_capacity formed]
      exact Nat.le_max_right _ _

theorem sized_step (sized : Sized arena) (taken : step arena request = some next) : Sized next := by
  unfold step at taken
  split at taken
  · rename_i grantable
    obtain ⟨⟨after, pointer⟩, ran, rfl⟩ := Option.map_eq_some_iff.mp taken
    obtain ⟨found, where_, formed, granted⟩ := alloc_granted sized.formed grantable ran
    have large := large_found sized.formed sized.large where_
    cases granted with
    | refused => exact ⟨formed, sized.unit, large⟩
    | handed fits bumped =>
      refine ⟨bumped, sized.unit, fun block member => ?_⟩
      simp only [chain_mk, List.mem_append, List.mem_cons] at member
      rcases member with old | rfl | old
      · exact large block (by simp [Blocks.chain, old])
      · exact large found.current (current_mem_chain found)
      · exact large block (mem_chain_of_after old)
  · cases taken

/-- In every state reached by requests that do not wrap, on an arena of any block size,
the amount is the sum of all capacities exactly if that is less than 2 ^ 32. -/
theorem amount_exact_iff (initial : Initial blockSize address)
    (made : arenaInit blockSize true (some address) = some arena)
    (ran : exec step arena requests = some final) :
    getAmountCapacity final.blocks.chain = totalCapacity final.blocks.chain ↔
      totalCapacity final.blocks.chain < 2 ^ 32 := by
  have sized : Sized final :=
    exec_invariant (fun _ _ _ sized taken => sized_step sized taken) (sized_init initial made) ran
  have solid : ∀ block ∈ final.blocks.chain, 1 ≤ block.capacity :=
    fun block member => Nat.le_trans sized.unit (sized.large block member)
  rw [getAmountCapacity_eq solid]
  exact Nat.mod_eq_iff_lt (Nat.two_pow_pos 32).ne'

/-- A block of 1024 bytes and a larger one behind it. -/
theorem two_blocks_counted :
    getAmountCapacity [⟨4096, 0, false, none, 0, 1024, Library.Bytes.zeros⟩,
        ⟨65536, 1, false, some 4096, 2000, 2000, Library.Bytes.zeros⟩] = 3024 := by
  have ran : exec step ⟨false, ⟨[], ⟨4096, 0, false, none, 0, 1024, Library.Bytes.zeros⟩, []⟩, 1024,
      false, false, false⟩ [⟨2000, some 65536⟩] = some _ := rfl
  exact (amount_exact_iff (show Initial 1024 4096 by decide) rfl ran).mpr (by decide)

/-- An arena with one block of 2 ^ 32 bytes has none, by this count. -/
theorem large_block_not_counted :
    ¬ ∀ blockSize address arena requests final, Initial blockSize address →
      arenaInit blockSize true (some address) = some arena →
      exec step arena requests = some final →
        getAmountCapacity final.blocks.chain = totalCapacity final.blocks.chain := by
  intro always
  have counted := always (2 ^ 32) 4096 _ [] _ (by decide) rfl rfl
  exact absurd counted (by decide)

end ShapeQuake.ArenaCapacity
