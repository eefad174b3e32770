import Mathlib.Data.List.ReduceOption
import ShapeQuake.HeapTrackerProofs
import ShapeQuake.Pools

/-! What the constructors of pools leave behind. They take one block after the
other from the tracker; when the pool or an array is refused, what was taken is
given back, but when a worker or a job is refused, or has no queue or no thread,
the pool is returned without it. -/
namespace ShapeQuake.PoolConstruction
open Library.Bytes Library.Spans Library.Runs Heap HeapTrackerProofs Pools

variable {tracking after : Tracking} {handed : List Nat}

/-! ## The tracker behind pools -/

/-- These are the pointers handed out, none of them to an empty block. -/
structure Keeps (tracking : Tracking) (handed : List Nat) : Prop where
  tracked : Tracked ⟨tracking.tracker, tracking.memory, handed⟩
  sized : ∀ user ∈ handed, 0 < tracking.memory.sizeWord (user - 16)

theorem alignHeap_pos (asked : 1 ≤ size) (small : size + 15 < 2 ^ 64) : 0 < alignHeap size :=
  Nat.lt_of_lt_of_le asked (roundUp16_le small)

/-- One call keeps every block that is handed out from being empty. -/
private theorem sized_step (tracked : Tracked state)
    (sized : ∀ user ∈ state.handed, 0 < state.memory.sizeWord (user - 16))
    (taken : step state call = some next) :
    ∀ user ∈ next.handed, 0 < next.memory.sizeWord (user - 16) := by
  cases step_outcome taken with
  | refused unlocked why => exact sized
  | granted raw unlocked asked room possible =>
    intro user member
    rcases List.mem_cons.mp member with rfl | old
    · simpa using alignHeap_pos asked possible.1
    · simpa [Function.update_of_ne (granted_fresh tracked possible user old)] using sized user old
  | null => exact sized
  | aborted unlocked why => exact sized
  | @freed user unlocked before after table =>
    have held : user ∈ state.handed := tracked.owned user (by simp [table])
    intro other member
    obtain ⟨old, apart⟩ := blocks_keep_others tracked held other member
    simpa [Function.update_of_ne apart] using sized other old

theorem keeps_step (keeps : Keeps tracking handed)
    (taken : step ⟨tracking.tracker, tracking.memory, handed⟩ call = some next) :
    Keeps ⟨next.tracker, next.memory⟩ next.handed :=
  ⟨tracked_step keeps.tracked taken, sized_step keeps.tracked keeps.sized taken⟩

/-- The same of the tracker together with what its clients hold. -/
def KeptBy (state : State) : Prop := Keeps ⟨state.tracker, state.memory⟩ state.handed

/-- Every state that calls of its clients lead to is one of these. -/
theorem keeps_reached (reached : exec step (start words) calls = some state) :
    Keeps ⟨state.tracker, state.memory⟩ state.handed := by
  have run : KeptBy state := exec_invariant (fun _ _ _ keeps taken => keeps_step keeps taken)
    ⟨tracked_start words, by simp [start]⟩ reached
  exact run

/-- The counters then never disagree. -/
theorem keeps_healthy (keeps : Keeps tracking handed) : tracking.unhealthy = false := by
  rw [Tracking.unhealthy, unhealthy_trackingHealth]
  have count : tracking.tracker.active = handed.length := keeps.tracked.count
  have total : tracking.tracker.allocated =
      (handed.map fun user => tracking.memory.sizeWord (user - 16)).sum := keeps.tracked.total
  rw [count, total]
  cases handed with
  | nil => simp
  | cons user rest =>
    have positive := keeps.sized user List.mem_cons_self
    simp only [List.length_cons, List.map_cons, List.sum_cons]
    omega

/-- The tracker with one more block. -/
def granted (tracking : Tracking) (size raw : Nat) : Tracking :=
  { tracker :=
      { mutex := false
        active := tracking.tracker.active + 1
        allocated := wrap64 (tracking.tracker.allocated + alignHeap size)
        ptr := tracking.tracker.ptr.set tracking.tracker.active (some (raw + 16)) }
    memory :=
      { sizeWord := Function.update tracking.memory.sizeWord raw (alignHeap size)
        blocks := ⟨raw, alignHeap size + 16⟩ :: tracking.memory.blocks } }

theorem alloc_locked (locked : tracking.tracker.mutex = true) :
    tracking.alloc size malloc = none := by
  simp [Tracking.alloc, heapAlloc, locked]

theorem refused_cases (refused : ¬ (tracking.tracker.active < maxHeaps ∧ malloc ≠ none)) :
    maxHeaps ≤ tracking.tracker.active ∨ malloc = none := by
  rcases Classical.not_and_iff_not_or_not.mp refused with full | null
  · exact Or.inl (Nat.not_lt.mp full)
  · exact Or.inr (Classical.not_not.mp null)

theorem alloc_refused (unlocked : tracking.tracker.mutex = false) (asked : 1 ≤ size)
    (refused : ¬ (tracking.tracker.active < maxHeaps ∧ malloc ≠ none)) :
    tracking.alloc size malloc = some (tracking, none) := by
  have why := refused_cases refused
  obtain ⟨⟨mutex, active, allocated, ptr⟩, memory⟩ := tracking
  obtain rfl : mutex = false := unlocked
  have nonempty : ¬ size < 1 := by omega
  by_cases full : maxHeaps ≤ active
  · simp [Tracking.alloc, heapAlloc, internalHeapAlloc, Nat.pos_iff_ne_zero.mp asked, full]
  · obtain rfl := why.resolve_left full
    simp [Tracking.alloc, heapAlloc, internalHeapAlloc, Nat.pos_iff_ne_zero.mp asked, full]

theorem alloc_granted (unlocked : tracking.tracker.mutex = false) (asked : 1 ≤ size)
    (room : tracking.tracker.active < maxHeaps)
    (possible : Possible tracking.memory (.alloc size (some raw))) :
    tracking.alloc size (some raw) = some (granted tracking size raw, some (raw + 16)) := by
  have nonempty : ¬ size < 1 := by omega
  simp [Tracking.alloc, heapAlloc, internalHeapAlloc, Nat.pos_iff_ne_zero.mp asked,
    Nat.not_le.mpr room, unlocked, wrap64_of_lt possible.2.1, granted]

theorem keeps_granted (keeps : Keeps tracking handed) (asked : 1 ≤ size)
    (room : tracking.tracker.active < maxHeaps)
    (possible : Possible tracking.memory (.alloc size (some raw))) :
    Keeps (granted tracking size raw) ((raw + 16) :: handed) := by
  refine ⟨tracked_granted keeps.tracked room possible, fun user member => ?_⟩
  rcases List.mem_cons.mp member with rfl | old
  · simpa [granted] using alignHeap_pos asked possible.1
  · have fresh := granted_fresh keeps.tracked possible user old
    simpa [granted, Function.update_of_ne fresh] using keeps.sized user old

/-- A table without the entries of these pointers. -/
def without (users : List Nat) (table : List (Option Nat)) : List (Option Nat) :=
  table.map fun entry => if entry ∈ users.map some then none else entry

@[simp] theorem mem_without :
    some user ∈ without users table ↔ some user ∈ table ∧ user ∉ users := by
  simp only [without, List.mem_map]
  constructor
  · rintro ⟨entry, member, same⟩
    split at same
    · cases same
    · rename_i other
      exact ⟨same ▸ member, fun listed => other (same ▸ ⟨user, listed, rfl⟩)⟩
  · rintro ⟨member, other⟩
    refine ⟨some user, member, if_neg ?_⟩
    rintro ⟨listed, member, ⟨⟩⟩
    exact other member

theorem without_append (first second : List Nat) (table : List (Option Nat)) :
    without (first ++ second) table = without second (without first table) := by
  rw [without, without, without, List.map_map]
  refine List.map_congr_left fun entry _ => ?_
  simp only [Function.comp_apply, List.map_append, List.mem_append]
  by_cases listed : entry ∈ first.map some
  · simp [listed]
  · simp [listed]

/-- An entry that stands nowhere else is the only one that changes. -/
private theorem without_around {first rest : List (Option Nat)}
    (once : ((first ++ some user :: rest).filterMap id).Nodup) :
    without [user] (first ++ some user :: rest) = first ++ none :: rest := by
  have other : ∀ entry ∈ first ++ rest, entry ≠ some user := by
    rintro entry member rfl
    have found : user ∈ (first ++ rest).filterMap id := List.mem_filterMap.mpr ⟨some user, member, rfl⟩
    rw [List.filterMap_append] at found once
    exact (List.nodup_cons.mp (List.nodup_middle.mp once)).1 found
  have same : ∀ part, part ⊆ first ++ rest → without [user] part = part := by
    intro part inside
    refine (List.map_congr_left fun entry member => ?_).trans (List.map_id part)
    simp [other entry (inside member)]
  have here : without [user] (first ++ some user :: rest) =
      without [user] first ++ none :: without [user] rest := by simp [without]
  rw [here, same first (List.subset_append_left _ _), same rest (List.subset_append_right _ _)]

/-- Freeing an owned pointer that has an entry. The other entries stay. -/
theorem free_listed (keeps : Keeps tracking handed) (unlocked : tracking.tracker.mutex = false)
    (held : user ∈ handed) (listed : some user ∈ tracking.tracker.ptr) :
    ∃ after, tracking.free (some user) = some after ∧ after.tracker.mutex = false ∧
      Keeps after (handed.erase user) ∧ after.tracker.ptr = without [user] tracking.tracker.ptr ∧
      after.memory.blocks = tracking.memory.blocks.filter (·.start ≠ user - 16) := by
  obtain ⟨tracker, memory, ran⟩ :=
    (free_succeeds_iff keeps.tracked held).mpr ⟨unlocked, listed⟩
  have freed : tracking.free (some user) = some ⟨tracker, memory⟩ := by
    simp [Tracking.free, ran]
  have taken : step ⟨tracking.tracker, tracking.memory, handed⟩ (.free (some user)) =
      some ⟨tracker, memory, handed.erase user⟩ := by
    simp [step, Possible, ran]
  obtain ⟨_, moved⟩ := heapFree_freed ran
  cases moved with
  | refused failed _ => exact absurd (getCnd_asStatus ..) failed
  | cleared _ before after around =>
    have once : (tracking.tracker.ptr.filterMap id).Nodup := keeps.tracked.once
    rw [around] at once
    exact ⟨_, freed, rfl, keeps_step keeps taken, by rw [around, without_around once], rfl⟩

/-- Freeing an owned pointer without an entry leaves the lock held. -/
theorem free_unlisted (unlocked : tracking.tracker.mutex = false)
    (unlisted : some user ∉ tracking.tracker.ptr) :
    tracking.free (some user) =
      some { tracking with tracker := { tracking.tracker with mutex := true } } := by
  have search := clearEntry_none.mpr unlisted
  by_cases refused : tracking.tracker.active = 0 ∨
      tracking.tracker.allocated < tracking.memory.sizeWord (user - 16)
  · simp [Tracking.free, heapFree, unlocked, refused]
  · simp [Tracking.free, heapFree, unlocked, refused, search]

theorem free_locked (locked : tracking.tracker.mutex = true) :
    tracking.free (some user) = none := by
  simp [Tracking.free, heapFree, locked]

@[simp] theorem free_null (tracking : Tracking) : tracking.free none = some tracking := rfl

/-- The newest block is given back. -/
theorem give_back (keeps : Keeps tracking (user :: handed))
    (unlocked : tracking.tracker.mutex = false) (listed : some user ∈ tracking.tracker.ptr) :
    ∃ after, tracking.free (some user) = some after ∧ after.tracker.mutex = false ∧
      Keeps after handed ∧ after.tracker.ptr = without [user] tracking.tracker.ptr ∧
      after.memory.blocks = tracking.memory.blocks.tail := by
  obtain ⟨after, freed, free, kept, table, blocks⟩ :=
    free_listed keeps unlocked List.mem_cons_self listed
  rw [List.erase_cons_head] at kept
  refine ⟨after, freed, free, kept, table, blocks.trans ?_⟩
  have all : tracking.memory.blocks = (user :: handed).map (blockOf tracking.memory) :=
    keeps.tracked.blocks
  have apart := keeps.tracked.apart
  rw [all, List.map_cons] at apart ⊢
  have different := (List.pairwise_cons.mp apart).1
  rw [List.tail_cons, List.filter_cons_of_neg (by simp [blockOf])]
  refine List.filter_eq_self.mpr fun span member => ?_
  obtain ⟨other, old, rfl⟩ := List.mem_map.mp member
  have starts := start_ne_of_apart (different _ member) (by simp [blockOf]) (by simp [blockOf])
  exact decide_eq_true starts.symm

/-- The blocks determine the counters. -/
theorem counters_of_blocks (before : Keeps tracking handed) (later : Keeps after handed)
    (blocks : after.memory.blocks = tracking.memory.blocks) :
    after.tracker.active = tracking.tracker.active ∧
      after.tracker.allocated = tracking.tracker.allocated := by
  have count : tracking.tracker.active = handed.length := before.tracked.count
  have countAfter : after.tracker.active = handed.length := later.tracked.count
  have total := before.tracked.total
  have totalAfter := later.tracked.total
  have sizes := congrArg (fun blocks => (blocks.map Span.size).sum)
    (later.tracked.blocks.symm.trans (blocks.trans before.tracked.blocks))
  simp only [sum_block_sizes] at sizes total totalAfter
  omega

/-! ## Requests of one constructor -/

/-- A request of a constructor, with the answer of `malloc`. -/
structure Request where
  size : Nat
  malloc : Option Nat
  deriving DecidableEq, Repr

/-- The block that the request comes to own when it is granted. -/
def Request.block (request : Request) : Option Span :=
  request.malloc.map fun raw => ⟨raw, alignHeap request.size + 16⟩

/-- The answers of `malloc` are possible, also after one another. -/
structure Placed (memory : Memory) (requests : List Request) : Prop where
  possible : ∀ request ∈ requests, Possible memory (.alloc request.size request.malloc)
  apart : (requests.filterMap Request.block).Pairwise Apart

theorem placed_tail (placed : Placed memory (request :: rest)) : Placed memory rest := by
  refine ⟨fun later member => placed.possible later (List.mem_cons_of_mem _ member), ?_⟩
  exact placed.apart.sublist ((List.sublist_cons_self _ _).filterMap _)

/-- Granting the first request leaves the answers to the others possible. -/
theorem placed_granted (placed : Placed tracking.memory (⟨size, some raw⟩ :: rest)) :
    Placed (granted tracking size raw).memory rest := by
  refine ⟨fun request member => ?_, (placed_tail placed).apart⟩
  obtain ⟨small, whole, clear⟩ := placed.possible request (List.mem_cons_of_mem _ member)
  refine ⟨small, whole, fun address answered => ?_⟩
  obtain ⟨aligned, nonzero, fits, apart⟩ := clear address answered
  refine ⟨aligned, nonzero, fits, fun span held => ?_⟩
  rcases List.mem_cons.mp held with rfl | old
  · have pairs : (⟨raw, alignHeap size + 16⟩ :: rest.filterMap Request.block).Pairwise Apart :=
      placed.apart
    have own : (⟨address, alignHeap request.size + 16⟩ : Span) ∈ rest.filterMap Request.block :=
      List.mem_filterMap.mpr ⟨request, member, by simp [Request.block, Option.mem_def.mp answered]⟩
    exact apart_symm ((List.pairwise_cons.mp pairs).1 _ own)
  · exact apart span old

/-- Blocks were added to the tracker, these pointers in front of those before,
each with an entry from index `active` on and nothing else there. -/
structure Extended (before : Tracking) (handed : List Nat) (after : Tracking)
    (added : List Nat) : Prop where
  keeps : Keeps after (added ++ handed)
  unlocked : after.tracker.mutex = false
  active : after.tracker.active = before.tracker.active + added.length
  blocks : after.memory.blocks.drop added.length = before.memory.blocks
  others : ∀ i, ¬ (before.tracker.active ≤ i ∧ i < after.tracker.active) →
    after.tracker.ptr[i]? = before.tracker.ptr[i]?
  listed : ∀ user ∈ added, ∃ i, before.tracker.active ≤ i ∧ i < after.tracker.active ∧
    after.tracker.ptr[i]? = some (some user)
  only : ∀ i, before.tracker.active ≤ i → i < after.tracker.active →
    ∃ user ∈ added, after.tracker.ptr[i]? = some (some user)

theorem extended_refl (keeps : Keeps tracking handed) (unlocked : tracking.tracker.mutex = false) :
    Extended tracking handed tracking [] :=
  ⟨keeps, unlocked, rfl, rfl, fun _ _ => rfl, nofun, fun _ lower upper => absurd lower (Nat.not_le.mpr upper)⟩

theorem extended_trans (first : Extended tracking handed middle added)
    (second : Extended middle (added ++ handed) after more) :
    Extended tracking handed after (more ++ added) where
  keeps := List.append_assoc more added handed ▸ second.keeps
  unlocked := second.unlocked
  active := by
    rw [second.active, first.active, List.length_append]
    omega
  blocks := by rw [List.length_append, ← List.drop_drop, second.blocks, first.blocks]
  others := by
    intro i outside
    have active := first.active
    have activeAfter := second.active
    exact (second.others i (by omega)).trans (first.others i (by omega))
  listed := by
    intro user member
    rcases List.mem_append.mp member with new | old
    · obtain ⟨i, lower, upper, entry⟩ := second.listed user new
      exact ⟨i, by rw [first.active] at lower; omega, upper, entry⟩
    · obtain ⟨i, lower, upper, entry⟩ := first.listed user old
      exact ⟨i, lower, by rw [second.active]; omega, (second.others i (by omega)).trans entry⟩
  only := by
    intro i lower upper
    by_cases later : middle.tracker.active ≤ i
    · obtain ⟨user, member, entry⟩ := second.only i later upper
      exact ⟨user, List.mem_append_left _ member, entry⟩
    · obtain ⟨user, member, entry⟩ := first.only i lower (Nat.not_le.mp later)
      exact ⟨user, List.mem_append_right _ member, (second.others i (by omega)).trans entry⟩

theorem extended_granted (keeps : Keeps tracking handed) (asked : 1 ≤ size)
    (room : tracking.tracker.active < maxHeaps)
    (possible : Possible tracking.memory (.alloc size (some raw))) :
    Extended tracking handed (granted tracking size raw) [raw + 16] where
  keeps := keeps_granted keeps asked room possible
  unlocked := rfl
  active := rfl
  blocks := rfl
  others := by
    intro i outside
    refine List.getElem?_set_ne fun same => outside ?_
    exact ⟨Nat.le_of_eq same, same ▸ Nat.lt_succ_self _⟩
  listed := by
    intro user member
    obtain rfl := List.mem_singleton.mp member
    have bound : tracking.tracker.active < tracking.tracker.ptr.length :=
      Nat.lt_of_lt_of_eq room keeps.tracked.entries.symm
    exact ⟨tracking.tracker.active, Nat.le_refl _, Nat.lt_succ_self _,
      List.getElem?_set_self bound⟩
  only := by
    intro i lower upper
    have bound : tracking.tracker.active < tracking.tracker.ptr.length :=
      Nat.lt_of_lt_of_eq room keeps.tracked.entries.symm
    obtain rfl : i = tracking.tracker.active := Nat.le_antisymm (Nat.le_of_lt_succ upper) lower
    exact ⟨raw + 16, List.mem_singleton_self _, List.getElem?_set_self bound⟩

/-- What was added can be found in the table. -/
theorem extended_mem (extended : Extended tracking handed after added) :
    ∀ user ∈ added, some user ∈ after.tracker.ptr := by
  intro user member
  obtain ⟨i, _, _, entry⟩ := extended.listed user member
  exact List.mem_of_getElem? entry

/-- Taking the new entries out restores the table exactly if they were put where it
had none. -/
theorem without_restores_iff (keeps : Keeps tracking handed)
    (extended : Extended tracking handed after added) :
    without added after.tracker.ptr = tracking.tracker.ptr ↔
      ∀ i < added.length, tracking.tracker.ptr[tracking.tracker.active + i]? = some none := by
  have active := extended.active
  have cleared : ∀ i, tracking.tracker.active ≤ i → i < after.tracker.active →
      (without added after.tracker.ptr)[i]? = some none := by
    intro i lower upper
    obtain ⟨user, member, entry⟩ := extended.only i lower upper
    rw [without, List.getElem?_map, entry]
    simp [member]
  have kept : ∀ i, ¬ (tracking.tracker.active ≤ i ∧ i < after.tracker.active) →
      (without added after.tracker.ptr)[i]? = tracking.tracker.ptr[i]? := by
    intro i outside
    rw [without, List.getElem?_map, extended.others i outside]
    cases here : tracking.tracker.ptr[i]? with
    | none => rfl
    | some entry =>
      rw [Option.map_some, if_neg]
      intro listed
      obtain ⟨user, member, rfl⟩ := List.mem_map.mp listed
      have old : user ∈ handed := keeps.tracked.owned user (List.mem_of_getElem? here)
      exact (List.nodup_append.mp extended.keeps.tracked.distinct).2.2 user member user old rfl
  constructor
  · intro same i less
    rw [← same]
    exact cleared _ (by omega) (by omega)
  · intro free
    apply List.ext_getElem?
    intro i
    by_cases inside : tracking.tracker.active ≤ i ∧ i < after.tracker.active
    · obtain ⟨offset, rfl⟩ := Nat.exists_eq_add_of_le inside.1
      rw [cleared _ inside.1 inside.2, free offset (by omega)]
    · exact kept i inside

/-! ## The loops of the constructors -/

section
variable {Entry : Type} {size : Nat} {malloc : Nat → Option Nat} {make : Nat → Nat → Option Entry}
  {addressOf : Entry → Nat} {entries : List (Option Entry)}

/-- The loop of a constructor over its workers or over its jobs. -/
def fill (size : Nat) (malloc : Nat → Option Nat) (make : Nat → Nat → Option Entry)
    (start : Tracking × Slots Entry) (indices : List Nat) : Option (Tracking × Slots Entry) :=
  exec (fun (tracking, slots) (i : Nat) => initEntry tracking slots i true size (malloc i) (make i))
    start indices

/-- A null pointer in an array is replaced. -/
private theorem present_set {i : Nat} (empty : entries[i]? = some none) (entry : Entry) :
    (entries.set i (some entry)).reduceOption.Perm (entry :: entries.reduceOption) := by
  induction entries generalizing i with
  | nil => simp at empty
  | cons head rest ih =>
    cases i with
    | zero =>
      obtain rfl : head = none := by simpa using empty
      simp
    | succ i =>
      have below := ih (i := i) (by simpa using empty)
      cases head with
      | none => simpa using below
      | some first => simpa using (below.cons first).trans (List.Perm.swap _ _ _)

/-- What has become of the entries from an index on, so many of them: each that
was granted its block is what was made of it. -/
structure Filled (malloc : Nat → Option Nat) (make : Nat → Nat → Option Entry)
    (addressOf : Entry → Nat) (first count : Nat) (before : Tracking) (handed : List Nat)
    (entries : List (Option Entry)) (after : Tracking) (entriesAfter : List (Option Entry))
    (added : List Nat) : Prop where
  extended : Extended before handed after added
  length : entriesAfter.length = entries.length
  pointers : (entriesAfter.reduceOption.map addressOf).Perm
    (added ++ entries.reduceOption.map addressOf)
  others : ∀ i, i < first → entriesAfter[i]? = entries[i]?
  made : ∀ i, first ≤ i → i < first + count →
    entriesAfter[i]? = some none ∧ (malloc i = none ∨ maxHeaps ≤ after.tracker.active) ∨
      ∃ raw entry, malloc i = some raw ∧ make i (raw + 16) = some entry ∧
        entriesAfter[i]? = some (some entry)

private theorem in_range (inside : i < entries.length) :
    ¬ (0 > (i : Int) ∨ (i : Int) ≥ entries.length ∨ true = false) := by
  simp only [Bool.true_eq_false, or_false]
  omega

theorem initEntry_refused (keeps : Keeps tracking handed)
    (unlocked : tracking.tracker.mutex = false) (asked : 1 ≤ size) (inside : i < entries.length)
    (refused : ¬ (tracking.tracker.active < maxHeaps ∧ malloc i ≠ none)) :
    initEntry tracking ⟨some ⟨address, entries⟩, entries.length⟩ i true size (malloc i) (make i) =
      some (tracking, ⟨some ⟨address, entries⟩, entries.length⟩) := by
  simp only [initEntry, keeps_healthy keeps, Bool.false_eq_true, ↓reduceIte]
  rw [if_neg (in_range inside), alloc_refused unlocked asked refused]
  rfl

theorem initEntry_granted (keeps : Keeps tracking handed)
    (unlocked : tracking.tracker.mutex = false) (asked : 1 ≤ size) (inside : i < entries.length)
    (room : tracking.tracker.active < maxHeaps) (answer : malloc i = some raw)
    (possible : Possible tracking.memory (.alloc size (some raw))) :
    initEntry tracking ⟨some ⟨address, entries⟩, entries.length⟩ i true size (malloc i) (make i) =
      (make i (raw + 16)).map fun entry =>
        (granted tracking size raw,
          ⟨some ⟨address, entries.set i (some entry)⟩, entries.length⟩) := by
  simp only [initEntry, keeps_healthy keeps, Bool.false_eq_true, ↓reduceIte]
  rw [if_neg (in_range inside), answer, alloc_granted unlocked asked room possible]
  rfl

/-- A round that is granted its block, and the rounds after it. -/
private theorem filled_granted (extended : Extended tracking handed middle [raw + 16])
    (bound : first < entries.length) (empty : entries[first]? = some none)
    (answer : malloc first = some raw) (made : make first (raw + 16) = some entry)
    (place : addressOf entry = raw + 16)
    (filled : Filled malloc make addressOf (first + 1) count middle ([raw + 16] ++ handed)
      (entries.set first (some entry)) after entriesAfter added) :
    Filled malloc make addressOf first (count + 1) tracking handed entries after entriesAfter
      (added ++ [raw + 16]) where
  extended := extended_trans extended filled.extended
  length := filled.length.trans List.length_set
  pointers := by
    have set := (present_set empty entry).map addressOf
    rw [List.map_cons, place] at set
    rw [List.append_assoc]
    exact filled.pointers.trans (set.append_left added)
  others := by
    intro i less
    rw [filled.others i (by omega), List.getElem?_set_ne (by omega)]
  made := by
    intro i lower upper
    rcases Nat.eq_or_lt_of_le lower with rfl | more
    · refine Or.inr ⟨raw, entry, answer, made, ?_⟩
      rw [filled.others first (Nat.lt_succ_self first), List.getElem?_set_self bound]
    · exact filled.made i more (by omega)

/-- A round that is refused, and the rounds after it. -/
private theorem filled_refused (empty : entries[first]? = some none)
    (refused : ¬ (tracking.tracker.active < maxHeaps ∧ malloc first ≠ none))
    (filled : Filled malloc make addressOf (first + 1) count tracking handed entries after
      entriesAfter added) :
    Filled malloc make addressOf first (count + 1) tracking handed entries after entriesAfter added :=
  { filled with
    others := fun i less => filled.others i (by omega)
    made := by
      intro i lower upper
      rcases Nat.eq_or_lt_of_le lower with rfl | more
      · refine Or.inl ⟨(filled.others first (Nat.lt_succ_self first)).trans empty, ?_⟩
        rcases refused_cases refused with full | null
        · exact Or.inr (by rw [filled.extended.active]; omega)
        · exact Or.inl null
      · exact filled.made i more (by omega) }

/-- A loop that returns has filled every entry that was granted its block. -/
theorem fill_filled (asked : 1 ≤ size)
    (placedAt : ∀ i address entry, address < 2 ^ 64 → make i address = some entry →
      addressOf entry = address)
    (keeps : Keeps tracking handed) (unlocked : tracking.tracker.mutex = false)
    (inside : first + count ≤ entries.length)
    (empty : ∀ i, first ≤ i → i < entries.length → entries[i]? = some none)
    (placed : Placed tracking.memory
      ((List.range' first count).map (fun i => ⟨size, malloc i⟩) ++ later))
    (ran : fill size malloc make (tracking, ⟨some ⟨address, entries⟩, entries.length⟩)
      (List.range' first count) = some (after, slots)) :
    ∃ added entriesAfter, slots = ⟨some ⟨address, entriesAfter⟩, entries.length⟩ ∧
      Placed after.memory later ∧
      Filled malloc make addressOf first count tracking handed entries after entriesAfter added := by
  induction count generalizing first tracking handed entries with
  | zero =>
    obtain ⟨rfl, rfl⟩ := Prod.mk.inj (Option.some.inj ran)
    exact ⟨[], entries, rfl, placed, extended_refl keeps unlocked, rfl, .refl _, fun _ _ => rfl,
      fun i _ _ => by omega⟩
  | succ count ih =>
    rw [List.range'_succ] at ran placed
    obtain ⟨⟨middle, slotsMiddle⟩, here, rest⟩ := exec_cons.mp ran
    simp only at here
    by_cases room : tracking.tracker.active < maxHeaps ∧ malloc first ≠ none
    · obtain ⟨raw, answer⟩ := Option.ne_none_iff_exists'.mp room.2
      have placedHere := placed
      rw [List.map_cons, answer] at placedHere
      have possible := placedHere.possible _ List.mem_cons_self
      rw [initEntry_granted keeps unlocked asked (by omega) room.1 answer possible] at here
      obtain ⟨entry, made, same⟩ := Option.map_eq_some_iff.mp here
      obtain ⟨rfl, rfl⟩ := Prod.mk.inj same
      have extended := extended_granted keeps asked room.1 possible
      have length : (entries.set first (some entry)).length = entries.length := List.length_set
      rw [← length] at rest
      obtain ⟨added, entriesAfter, rfl, placedAfter, filled⟩ :=
        ih extended.keeps rfl (by rw [length]; omega)
          (fun i lower upper => by
            rw [List.getElem?_set_ne (by omega)]
            exact empty i (by omega) (by omega))
          (placed_granted placedHere) rest
      have small : raw + 16 < 2 ^ 64 := by
        have fits : raw + (alignHeap size + 16) ≤ 2 ^ 64 := (possible.2.2 raw rfl).2.2.1
        have positive := alignHeap_pos asked possible.1
        omega
      exact ⟨added ++ [raw + 16], entriesAfter, by rw [length], placedAfter,
        filled_granted extended (by omega) (empty first (Nat.le_refl _) (by omega)) answer made
          (placedAt first _ entry small made) filled⟩
    · rw [initEntry_refused keeps unlocked asked (by omega) room] at here
      obtain ⟨rfl, rfl⟩ := Prod.mk.inj (Option.some.inj here)
      obtain ⟨added, entriesAfter, rfl, placedAfter, filled⟩ :=
        ih keeps unlocked (by omega) (fun i lower upper => empty i (by omega) upper)
          (placed_tail placed) rest
      exact ⟨added, entriesAfter, rfl, placedAfter,
        filled_refused (empty first (Nat.le_refl _) (by omega)) room filled⟩

/-- A loop returns when every entry can be made. -/
theorem fill_returns (address : Nat) (entries : List (Option Entry)) (asked : 1 ≤ size)
    (keeps : Keeps tracking handed) (unlocked : tracking.tracker.mutex = false)
    (inside : first + count ≤ entries.length)
    (placed : Placed tracking.memory
      ((List.range' first count).map (fun i => ⟨size, malloc i⟩) ++ later))
    (makes : ∀ i, first ≤ i → i < first + count → ∀ address, (make i address).isSome) :
    ∃ result, fill size malloc make (tracking, ⟨some ⟨address, entries⟩, entries.length⟩)
      (List.range' first count) = some result := by
  induction count generalizing first tracking handed entries with
  | zero => exact ⟨_, rfl⟩
  | succ count ih =>
    rw [List.range'_succ] at placed ⊢
    by_cases room : tracking.tracker.active < maxHeaps ∧ malloc first ≠ none
    · obtain ⟨raw, answer⟩ := Option.ne_none_iff_exists'.mp room.2
      rw [List.map_cons, answer] at placed
      have possible := placed.possible _ List.mem_cons_self
      obtain ⟨entry, made⟩ := Option.isSome_iff_exists.mp
        (makes first (Nat.le_refl _) (by omega) (raw + 16))
      have length : (entries.set first (some entry)).length = entries.length := List.length_set
      obtain ⟨result, rest⟩ := ih _ (keeps_granted keeps asked room.1 possible) rfl
        (by rw [length]; omega) (placed_granted placed)
        (fun i lower upper => makes i (by omega) (by omega))
      rw [length] at rest
      refine ⟨result, exec_cons.mpr ⟨_, ?_, rest⟩⟩
      simp only
      rw [initEntry_granted keeps unlocked asked (by omega) room.1 answer possible, made]
      rfl
    · have bound : first < entries.length := by omega
      have others : first + 1 + count ≤ entries.length := by omega
      obtain ⟨result, rest⟩ := ih entries keeps unlocked others (placed_tail placed)
        (fun i lower upper => makes i (by omega) (by omega))
      exact ⟨result, exec_cons.mpr ⟨_, initEntry_refused keeps unlocked asked bound room, rest⟩⟩

/-- There is an array of null pointers exactly if there are to be entries. -/
def ArrayFor (count : Nat) (array : Option (PointerArray Entry)) : Prop :=
  count = 0 ∧ array = none ∨
    count ≠ 0 ∧ ∃ address, array = some ⟨address, List.replicate count none⟩

/-- The count is the length of the array, or there is no array and nothing to count. -/
def Formed (slots : Slots Entry) : Prop :=
  slots.array = none ∧ slots.count ≤ 0 ∨
    ∃ array, slots.array = some array ∧ slots.count = array.entries.length

/-- A loop up to the count then reads everything that there is. -/
theorem formed_reached (formed : Formed slots) : slots.reached = some slots.present := by
  rcases formed with ⟨none_, empty⟩ | ⟨array, some_, length⟩
  · simp [Slots.reached, Slots.present, none_, empty]
  · unfold Slots.reached Slots.present
    split
    · rename_i empty
      have nil : array.entries = [] := List.eq_nil_of_length_eq_zero (by omega)
      simp [some_, nil]
    · simp [some_, length]

/-- The workers or jobs after the loop that made them. -/
structure Populated (malloc : Nat → Option Nat) (make : Nat → Nat → Option Entry)
    (addressOf : Entry → Nat) (count : Nat) (array : Option (PointerArray Entry))
    (before : Tracking) (handed : List Nat) (after : Tracking) (slots : Slots Entry)
    (added : List Nat) : Prop where
  extended : Extended before handed after added
  counted : slots.count = count
  address : slots.array.map PointerArray.address = array.map PointerArray.address
  formed : Formed slots
  pointers : (slots.present.map addressOf).Perm added
  most : added.length ≤ count
  all : (∀ i < count, (slots.at_ i).isSome) ↔ added.length = count
  made : ∀ i < count,
    slots.at_ i = none ∧ (malloc i = none ∨ maxHeaps ≤ after.tracker.active) ∨
      ∃ raw entry, malloc i = some raw ∧ make i (raw + 16) = some entry ∧ slots.at_ i = some entry

private theorem entries_isSome (address : Nat) (entries : List (Option Entry)) :
    (∀ i < entries.length, ((Slots.mk (some ⟨address, entries⟩) count).at_ i).isSome) ↔
      ∀ entry ∈ entries, entry.isSome := by
  constructor
  · intro all entry member
    obtain ⟨i, less, rfl⟩ := List.mem_iff_getElem.mp member
    simpa [Slots.at_, List.getElem?_eq_getElem less] using all i less
  · intro all i less
    simpa [Slots.at_, List.getElem?_eq_getElem less] using all _ (List.getElem_mem less)

theorem populate (asked : 1 ≤ size)
    (placedAt : ∀ i address entry, address < 2 ^ 64 → make i address = some entry →
      addressOf entry = address)
    (keeps : Keeps tracking handed) (unlocked : tracking.tracker.mutex = false)
    (shape : ArrayFor count array)
    (placed : Placed tracking.memory ((List.range count).map (fun i => ⟨size, malloc i⟩) ++ later))
    (ran : fill size malloc make (tracking, ⟨array, count⟩) (List.range count) =
      some (after, slots)) :
    ∃ added, Placed after.memory later ∧
      Populated malloc make addressOf count array tracking handed after slots added := by
  rcases shape with ⟨rfl, rfl⟩ | ⟨_, address, rfl⟩
  · obtain ⟨rfl, rfl⟩ := Prod.mk.inj (Option.some.inj ran)
    exact ⟨[], placed, extended_refl keeps unlocked, rfl, rfl, Or.inl ⟨rfl, Int.le_refl 0⟩, .refl _,
      Nat.le_refl _,
      ⟨fun _ => rfl, fun _ i less => by omega⟩, fun i less => by omega⟩
  · rw [List.range_eq_range'] at placed ran
    have start : (count : Int) = ((List.replicate count (none : Option Entry)).length : Nat) := by
      rw [List.length_replicate]
    rw [start] at ran
    obtain ⟨added, entries, rfl, placedAfter, filled⟩ :=
      fill_filled asked placedAt keeps unlocked (by simp)
        (fun i _ less => by
          rw [List.length_replicate] at less
          rw [List.getElem?_replicate, if_pos less])
        placed ran
    have length : entries.length = count := filled.length.trans List.length_replicate
    have pointers : (entries.reduceOption.map addressOf).Perm added := by
      simpa [List.reduceOption_replicate_none] using filled.pointers
    have size_ : added.length = entries.reduceOption.length := by
      rw [← pointers.length_eq, List.length_map]
    refine ⟨added, placedAfter, filled.extended, by simp, rfl, ?_, pointers, ?_, ?_, fun i less => ?_⟩
    · exact Or.inr ⟨_, rfl, by rw [filled.length]⟩
    · rw [size_, ← length]
      exact List.reduceOption_length_le _
    · rw [size_, ← length, List.reduceOption_length_eq_iff]
      exact entries_isSome address entries
    · rcases filled.made i (Nat.zero_le _) (by omega) with ⟨null, why⟩ | ⟨raw, entry, answer, made, here⟩
      · exact Or.inl ⟨by simp [Slots.at_, null], why⟩
      · exact Or.inr ⟨raw, entry, answer, made, by simp [Slots.at_, here]⟩

/-- The loop returns when every entry can be made. -/
theorem populate_returns (asked : 1 ≤ size) (keeps : Keeps tracking handed)
    (unlocked : tracking.tracker.mutex = false) (shape : ArrayFor count array)
    (placed : Placed tracking.memory ((List.range count).map (fun i => ⟨size, malloc i⟩) ++ later))
    (makes : ∀ i < count, ∀ address, (make i address).isSome) :
    ∃ after slots, fill size malloc make (tracking, ⟨array, count⟩) (List.range count) =
      some (after, slots) := by
  rcases shape with ⟨rfl, rfl⟩ | ⟨_, address, rfl⟩
  · exact ⟨tracking, ⟨none, 0⟩, rfl⟩
  · rw [List.range_eq_range'] at placed ⊢
    obtain ⟨⟨after, slots⟩, ran⟩ := fill_returns address (List.replicate count none) asked
      keeps unlocked (by simp) placed fun i _ less => makes i (by omega)
    rw [List.length_replicate] at ran
    exact ⟨after, slots, ran⟩

/-- All entries are filled exactly if all their requests are granted. -/
theorem populated_all_iff (populated : Populated malloc make addressOf count array tracking handed
    after slots added) :
    (∀ i < count, (slots.at_ i).isSome) ↔
      tracking.tracker.active + count ≤ maxHeaps ∧ ∀ i < count, malloc i ≠ none := by
  have active := populated.extended.active
  have room : after.tracker.active ≤ maxHeaps := populated.extended.keeps.tracked.room
  constructor
  · intro all
    have length := populated.all.mp all
    refine ⟨by omega, fun i less none_ => ?_⟩
    have here := all i less
    rcases populated.made i less with ⟨null, _⟩ | ⟨raw, _, answer, _⟩
    · simp [null] at here
    · cases none_.symm.trans answer
  · rintro ⟨enough, answered⟩
    by_contra missing
    have shorter := Nat.lt_of_le_of_ne populated.most fun length => missing (populated.all.mpr length)
    refine missing fun i less => ?_
    rcases populated.made i less with ⟨_, none_ | full⟩ | ⟨_, _, _, _, here⟩
    · exact absurd none_ (answered i less)
    · omega
    · simp [here]

end

/-! ## The pool and its arrays -/

/-- The tracker has room for all of the requests, and `malloc` answers them. -/
def Granted (tracking : Tracking) (requests : List Request) : Prop :=
  tracking.tracker.active + requests.length ≤ maxHeaps ∧ ∀ request ∈ requests, request.malloc ≠ none

/-- Requests that were granted count for those after them. -/
theorem granted_append (active : after.tracker.active = tracking.tracker.active + first.length)
    (first_ : Granted tracking first) :
    Granted tracking (first ++ rest) ↔ Granted after rest := by
  simp only [Granted, active, List.length_append, List.mem_append, Nat.add_assoc]
  constructor
  · exact fun all => ⟨all.1, fun request member => all.2 request (Or.inr member)⟩
  · rintro ⟨room, answered⟩
    exact ⟨room, fun request member => member.elim (first_.2 request) (answered request)⟩

theorem granted_first (all : Granted tracking (first ++ rest)) : Granted tracking first := by
  simp only [Granted, List.length_append, List.mem_append] at all
  exact ⟨by omega, fun request member => all.2 request (Or.inl member)⟩

/-- The request for an array, where there is to be one. -/
def arrayRequest (count : Nat) (malloc : Option Nat) : List Request :=
  if count = 0 then [] else [⟨sizeofPointer * count, malloc⟩]

/-- An array is made where its request is granted, and else nothing happens. -/
theorem allocArray_cases (Entry : Type) (keeps : Keeps tracking handed)
    (unlocked : tracking.tracker.mutex = false)
    (placed : Placed tracking.memory (arrayRequest count malloc ++ later)) :
    count ≠ 0 ∧ ¬ Granted tracking (arrayRequest count malloc) ∧
        tracking.allocArray count malloc = some (tracking, (none : Option (PointerArray Entry))) ∨
      Granted tracking (arrayRequest count malloc) ∧
        ∃ after, ∃ array : Option (PointerArray Entry),
          tracking.allocArray count malloc = some (after, array) ∧ ArrayFor count array ∧
          ¬ (count ≠ 0 ∧ array.isNone) ∧ Placed after.memory later ∧
          (array.map PointerArray.address).toList.length = (arrayRequest count malloc).length ∧
          Extended tracking handed after (array.map PointerArray.address).toList := by
  unfold arrayRequest at placed ⊢
  by_cases none_ : count = 0
  · rw [if_pos none_] at placed ⊢
    refine Or.inr ⟨⟨keeps.tracked.room, nofun⟩, tracking, none, ?_, Or.inl ⟨none_, rfl⟩,
      fun some_ => some_.1 none_, placed, rfl, extended_refl keeps unlocked⟩
    rw [Tracking.allocArray, if_pos none_]
  · rw [if_neg none_] at placed ⊢
    have asked : 1 ≤ sizeofPointer * count := by simp only [sizeofPointer]; omega
    rw [Tracking.allocArray, if_neg none_]
    by_cases room : tracking.tracker.active < maxHeaps ∧ malloc ≠ none
    · obtain ⟨raw, rfl⟩ := Option.ne_none_iff_exists'.mp room.2
      have possible := placed.possible _ List.mem_cons_self
      refine Or.inr ⟨⟨room.1, by simp⟩, granted tracking (sizeofPointer * count) raw,
        some ⟨raw + 16, List.replicate count none⟩, ?_, Or.inr ⟨none_, _, rfl⟩, by simp,
        placed_granted placed, rfl, extended_granted keeps asked room.1 possible⟩
      rw [alloc_granted unlocked asked room.1 possible]
      rfl
    · refine Or.inl ⟨none_, fun granted => room ⟨granted.1, granted.2 _ List.mem_cons_self⟩, ?_⟩
      rw [alloc_refused unlocked asked room]
      rfl

/-- What a constructor asks for before it makes a worker or a job. -/
def firstRequests (jobCount workerCount : Nat) (outcomes : Outcomes) : List Request :=
  ⟨sizeofPool, outcomes.pool⟩ ::
    (arrayRequest jobCount outcomes.jobs ++ arrayRequest workerCount outcomes.workers)

/-- What a constructor asks for its jobs and workers. -/
def entryRequests (jobCount workerCount : Nat) (outcomes : Outcomes) : List Request :=
  (List.range jobCount).map (fun i => ⟨sizeofJob, (outcomes.job i).malloc⟩) ++
    (List.range workerCount).map fun i => ⟨sizeofWorker, (outcomes.worker i).malloc⟩

/-- A pool without anything but an array, if it has that, is given back. -/
private theorem give_back_pool {array : Option Nat}
    (extended : Extended tracking handed ready (array.toList ++ [address])) :
    ∃ after, ((ready.free array).bind fun tracking => (tracking.free (some address)).map
        fun tracking => (tracking, (none : Option Pool))) = some (after, none) ∧
      Keeps after handed ∧ after.tracker.mutex = false ∧
      after.tracker.ptr = without (array.toList ++ [address]) ready.tracker.ptr ∧
      after.memory.blocks = tracking.memory.blocks := by
  have blocks := extended.blocks
  have keeps := extended.keeps
  have listed := extended_mem extended
  cases array with
  | none =>
    obtain ⟨after, freed, unlocked, kept, table, rest⟩ :=
      give_back keeps extended.unlocked (listed address (by simp))
    refine ⟨after, ?_, kept, unlocked, table, ?_⟩
    · rw [free_null, Option.bind_some, freed]
      rfl
    · rw [rest, ← List.drop_one]
      exact blocks
  | some array =>
    have different : address ≠ array := by
      have distinct := keeps.tracked.distinct
      simp only [Option.toList_some, List.cons_append, List.nil_append, List.nodup_cons,
        List.mem_cons, not_or] at distinct
      exact Ne.symm distinct.1.1
    obtain ⟨middle, freedArray, unlocked, kept, table, rest⟩ :=
      give_back keeps extended.unlocked (listed array (by simp))
    have entry : some address ∈ middle.tracker.ptr := by
      rw [table, mem_without, List.mem_singleton]
      exact ⟨listed address (by simp), different⟩
    obtain ⟨after, freed, unlockedAfter, keptAfter, tableAfter, restAfter⟩ := give_back kept unlocked entry
    refine ⟨after, ?_, keptAfter, unlockedAfter, ?_, ?_⟩
    · rw [freedArray, Option.bind_some, freed]
      rfl
    · rw [tableAfter, table]
      exact (without_append _ _ _).symm
    · rw [restAfter, rest, ← List.drop_one, ← List.drop_one, List.drop_drop]
      exact blocks

/-- The requests that come to be granted before one is refused are entered where the
table has nothing, from index `active` on. -/
def Spared (tracking : Tracking) (requests : List Request) : Prop :=
  ∀ i < requests.length, Granted tracking (requests.take (i + 1)) →
    tracking.tracker.ptr[tracking.tracker.active + i]? = some none

theorem spared_iff (granted : Granted tracking first) (refused : ¬ Granted tracking (first ++ next))
    (one : next.length ≤ 1) :
    Spared tracking (first ++ (next ++ rest)) ↔
      ∀ i < first.length, tracking.tracker.ptr[tracking.tracker.active + i]? = some none := by
  constructor
  · intro spared i less
    refine spared i (by rw [List.length_append]; omega) ?_
    rw [List.take_append_of_le_length less]
    rw [← List.take_append_drop (i + 1) first] at granted
    exact granted_first granted
  · intro free i _ all
    by_cases less : i < first.length
    · exact free i less
    · have covered : (first ++ next).length ≤ i + 1 := by
        rw [List.length_append]
        omega
      rw [← List.append_assoc, List.take_append, List.take_of_length_le covered] at all
      exact absurd (granted_first all) refused

theorem arrayRequest_length_le (count : Nat) (malloc : Option Nat) :
    (arrayRequest count malloc).length ≤ 1 := by
  unfold arrayRequest
  split
  · exact Nat.zero_le 1
  · exact Nat.le_refl 1

/-- A constructor that was refused one of these has given back what it took. -/
structure GivenBack (before : Tracking) (handed : List Nat) (requests : List Request)
    (after : Tracking) : Prop where
  keeps : Keeps after handed
  unlocked : after.tracker.mutex = false
  blocks : after.memory.blocks = before.memory.blocks
  table : after.tracker.ptr = before.tracker.ptr ↔ Spared before requests

private theorem given_back {array : Option Nat} (keeps : Keeps tracking handed)
    (extended : Extended tracking handed ready (array.toList ++ [address]))
    (granted : Granted tracking first) (length : (array.toList ++ [address]).length = first.length)
    (refused : ¬ Granted tracking (first ++ next)) (one : next.length ≤ 1) (rest : List Request) :
    ∃ after, ((ready.free array).bind fun tracking => (tracking.free (some address)).map
        fun tracking => (tracking, (none : Option Pool))) = some (after, none) ∧
      GivenBack tracking handed (first ++ (next ++ rest)) after := by
  obtain ⟨after, freed, kept, unlocked, table, blocks⟩ := give_back_pool extended
  refine ⟨after, freed, kept, unlocked, blocks, ?_⟩
  rw [table, without_restores_iff keeps extended, length, spared_iff granted refused one]

/-- A constructor with this result has its pool and its arrays and comes to its loops. -/
structure Ready (jobCount workerCount : Nat) (epollfd pshared : Int) (outcomes : Outcomes)
    (before : Tracking) (handed : List Nat) (result : Option (Tracking × Option Pool))
    (ready : Tracking) (address : Nat) (jobs : Option (PointerArray Job))
    (workers : Option (PointerArray Worker)) : Prop where
  extended : Extended before handed ready ((workers.map PointerArray.address).toList ++
    ((jobs.map PointerArray.address).toList ++ [address]))
  active : ready.tracker.active =
    before.tracker.active + (firstRequests jobCount workerCount outcomes).length
  placed : Placed ready.memory (entryRequests jobCount workerCount outcomes)
  shapeJobs : ArrayFor jobCount jobs
  shapeWorkers : ArrayFor workerCount workers
  runs : result =
    (initJobs ready ⟨jobs, jobCount⟩ outcomes.job jobCount).bind fun (tracking, jobs) =>
      (initWorkers tracking ⟨workers, workerCount⟩ pshared outcomes.worker workerCount).map
        fun (tracking, workers) => (tracking, some { newPool address epollfd with jobs, workers })

/-- A constructor that is refused the pool or an array gives back what it took;
one that is not comes to its loops. -/
theorem initMode_cases (epollfd pshared : Int) (keeps : Keeps tracking handed)
    (unlocked : tracking.tracker.mutex = false)
    (placed : Placed tracking.memory
      (firstRequests jobCount workerCount outcomes ++ entryRequests jobCount workerCount outcomes)) :
    (¬ Granted tracking (firstRequests jobCount workerCount outcomes) ∧
      ∃ after, initMode tracking jobCount workerCount epollfd pshared outcomes = some (after, none) ∧
        GivenBack tracking handed (firstRequests jobCount workerCount outcomes) after) ∨
    Granted tracking (firstRequests jobCount workerCount outcomes) ∧
      ∃ ready address jobs workers, Ready jobCount workerCount epollfd pshared outcomes tracking handed
        (initMode tracking jobCount workerCount epollfd pshared outcomes) ready address jobs workers := by
  have asked : 1 ≤ sizeofPool := by decide
  simp only [initMode, keeps_healthy keeps, Bool.false_eq_true, ↓reduceIte]
  by_cases room : tracking.tracker.active < maxHeaps ∧ outcomes.pool ≠ none
  · obtain ⟨raw, answer⟩ := Option.ne_none_iff_exists'.mp room.2
    simp only [firstRequests, List.cons_append, List.append_assoc] at placed
    rw [answer] at placed
    have possible := placed.possible _ List.mem_cons_self
    have pool := extended_granted keeps asked room.1 possible
    have one : Granted tracking [⟨sizeofPool, outcomes.pool⟩] := ⟨room.1, by simp [answer]⟩
    have first : Granted tracking ([⟨sizeofPool, outcomes.pool⟩] ++
        (arrayRequest jobCount outcomes.jobs ++ arrayRequest workerCount outcomes.workers)) ↔ _ :=
      granted_append pool.active one
    rw [firstRequests, ← List.singleton_append, first]
    rw [answer] at first one ⊢
    rw [alloc_granted unlocked asked room.1 possible, Option.bind_some]
    simp only
    rcases allocArray_cases Job pool.keeps rfl (placed_granted placed) with
      ⟨some_, refused, ran⟩ |
      ⟨grantedJobs, middle, jobs, ran, shape, notRefused, placedWorkers, length, extended⟩
    · have alone : Extended tracking handed _ (Option.toList none ++ [raw + 16]) := pool
      obtain ⟨after, freed, back⟩ := given_back keeps alone one rfl
        ((granted_append pool.active one).not.mpr refused) (arrayRequest_length_le _ _)
        (arrayRequest workerCount outcomes.workers)
      rw [ran, Option.bind_some]
      simp only [Option.isNone_none, and_true]
      rw [if_pos some_]
      exact Or.inl ⟨fun all => refused (granted_first all), after, freed, back⟩
    · have both := extended_trans pool extended
      rw [granted_append (extended.active.trans (by rw [length])) grantedJobs, ran, Option.bind_some]
      simp only
      rw [if_neg notRefused]
      rcases allocArray_cases Worker extended.keeps extended.unlocked placedWorkers with
        ⟨some_, refused, ranWorkers⟩ |
        ⟨grantedWorkers, ready, workers, ranWorkers, shapeWorkers, notRefusedWorkers, placedEntries,
          lengthWorkers, extendedWorkers⟩
      · have both_ : Granted tracking
            ([Request.mk sizeofPool (some raw)] ++ arrayRequest jobCount outcomes.jobs) :=
          (granted_append pool.active one).mpr grantedJobs
        have lengthBoth : ((jobs.map PointerArray.address).toList ++ [raw + 16]).length =
            ([Request.mk sizeofPool (some raw)] ++ arrayRequest jobCount outcomes.jobs).length := by
          rw [List.length_append, List.length_append, length, Nat.add_comm]
          rfl
        have activeBoth := both.active.trans (congrArg _ lengthBoth)
        obtain ⟨after, freed, back⟩ := given_back keeps both both_ lengthBoth
          ((granted_append activeBoth both_).not.mpr refused) (arrayRequest_length_le _ _) []
        rw [List.append_nil, List.append_assoc] at back
        rw [ranWorkers, Option.bind_some]
        simp only [Option.isNone_none, and_true]
        rw [if_pos some_]
        exact Or.inl ⟨refused, after, freed, back⟩
      · rw [ranWorkers, Option.bind_some]
        simp only
        rw [if_neg notRefusedWorkers]
        rw [← List.append_assoc] at extendedWorkers
        refine Or.inr ⟨grantedWorkers, ready, raw + 16, jobs, workers,
          extended_trans both extendedWorkers, ?_, placedEntries, shape, shapeWorkers, rfl⟩
        rw [extendedWorkers.active, extended.active, pool.active, length, lengthWorkers]
        simp only [firstRequests, List.length_cons, List.length_append, List.length_nil]
        omega
  · have refused : ¬ Granted tracking ([] ++ [⟨sizeofPool, outcomes.pool⟩]) := by
      rintro ⟨enough, answered⟩
      exact room ⟨enough, answered _ List.mem_cons_self⟩
    refine Or.inl ⟨fun all => refused (granted_first all), tracking, ?_, keeps, unlocked, rfl, ?_⟩
    · rw [alloc_refused unlocked asked room]
      rfl
    · have none_ : Granted tracking [] :=
        ⟨keeps.tracked.room, fun _ member => absurd member List.not_mem_nil⟩
      exact iff_of_true rfl ((spared_iff none_ refused (Nat.le_refl 1)).mpr
        fun _ less => absurd less (Nat.not_lt_zero _))

/-! ## What a constructor returns -/

private theorem sizeofJob_pos : 1 ≤ sizeofJob := by decide

private theorem sizeofWorker_pos : 1 ≤ sizeofWorker := by decide

/-- What becomes of the block for a worker. -/
def madeWorker (outcomes : Outcomes) (i address : Nat) : Option Worker :=
  some (makeWorker (i + 1) (outcomes.worker i) address)

/-- What becomes of the block for a job, unless `fork` fails. -/
def madeJob (outcomes : Outcomes) (i address : Nat) : Option Job :=
  processSpawn { address, id := i + 1, pid := -1 } (outcomes.job i).fork

private theorem madeWorker_at (outcomes : Outcomes) (i address : Nat) (worker : Worker)
    (small : address < 2 ^ 64) (made : madeWorker outcomes i address = some worker) :
    worker.address.toNat = address := by
  obtain rfl := Option.some.inj made
  simpa [makeWorker, Reactor.initWorker] using small

private theorem madeJob_at (outcomes : Outcomes) (i address : Nat) (job : Job)
    (_ : address < 2 ^ 64) (made : madeJob outcomes i address = some job) :
    job.address = address := by
  obtain ⟨pid, _, rfl⟩ := Option.map_eq_some_iff.mp made
  rfl

theorem initJobs_fill (tracking : Tracking) (jobs : Slots Job) (outcomes : Outcomes) (count : Nat) :
    initJobs tracking jobs outcomes.job count =
      fill sizeofJob (fun i => (outcomes.job i).malloc) (madeJob outcomes) (tracking, jobs)
        (List.range count) := by
  have same : ∀ (tracking : Tracking) (jobs : Slots Job) (i : Nat),
      initJob tracking jobs i (i + 1) (outcomes.job i) =
        initEntry tracking jobs i true sizeofJob (outcomes.job i).malloc (madeJob outcomes i) := by
    intro tracking jobs i
    have positive : ¬ (i : Int) + 1 < 0 := by omega
    simp only [initJob, positive, decide_false, Bool.not_false]
    rfl
  simp only [initJobs, fill, same]

theorem initWorkers_fill (accepted : psharedAccepted pshared = true) (tracking : Tracking)
    (workers : Slots Worker) (outcomes : Outcomes) (count : Nat) :
    initWorkers tracking workers pshared outcomes.worker count =
      fill sizeofWorker (fun i => (outcomes.worker i).malloc) (madeWorker outcomes)
        (tracking, workers) (List.range count) := by
  have same : ∀ (tracking : Tracking) (workers : Slots Worker) (i : Nat),
      initWorker tracking workers i (i + 1) pshared (outcomes.worker i) =
        initEntry tracking workers i true sizeofWorker (outcomes.worker i).malloc
          (madeWorker outcomes i) := by
    intro tracking workers i
    have positive : ¬ (i : Int) + 1 < 0 := by omega
    simp only [initWorker, positive, accepted, decide_false, Bool.not_false, Bool.and_true]
    rfl
  simp only [initWorkers, fill, same]

/-- A pool that a constructor returned: its blocks were added to the tracker, and
its jobs and workers are what the loops left. -/
structure Assembled (jobCount workerCount : Nat) (epollfd : Int) (outcomes : Outcomes)
    (before : Tracking) (handed : List Nat) (after : Tracking) (pool : Pool) : Prop where
  granted : Granted before (firstRequests jobCount workerCount outcomes)
  fresh : pool = { newPool pool.address epollfd with jobs := pool.jobs, workers := pool.workers }
  parts : ∃ ready middle, ∃ jobs : Option (PointerArray Job),
    ∃ workers : Option (PointerArray Worker), ∃ first addedJobs addedWorkers,
      first = (workers.map PointerArray.address).toList ++
        ((jobs.map PointerArray.address).toList ++ [pool.address]) ∧
      ArrayFor jobCount jobs ∧ ArrayFor workerCount workers ∧
      Extended before handed ready first ∧
      ready.tracker.active =
        before.tracker.active + (firstRequests jobCount workerCount outcomes).length ∧
      Populated (fun i => (outcomes.job i).malloc) (madeJob outcomes) Job.address jobCount jobs
        ready (first ++ handed) middle pool.jobs addedJobs ∧
      Populated (fun i => (outcomes.worker i).malloc) (madeWorker outcomes) (·.address.toNat)
        workerCount workers middle (addedJobs ++ (first ++ handed)) after pool.workers addedWorkers

theorem initMode_assembled (keeps : Keeps tracking handed)
    (unlocked : tracking.tracker.mutex = false) (accepted : psharedAccepted pshared = true)
    (placed : Placed tracking.memory
      (firstRequests jobCount workerCount outcomes ++ entryRequests jobCount workerCount outcomes))
    (made : initMode tracking jobCount workerCount epollfd pshared outcomes = some (after, some pool)) :
    Assembled jobCount workerCount epollfd outcomes tracking handed after pool := by
  rcases initMode_cases epollfd pshared keeps unlocked placed with ⟨_, other, ran, _⟩ |
    ⟨granted, ready, address, jobs, workers, extended, active, placedEntries, shapeJobs,
      shapeWorkers, ran⟩
  · cases ran.symm.trans made
  · rw [ran, Option.bind_eq_some_iff] at made
    obtain ⟨⟨middle, slotsJobs⟩, ranJobs, rest⟩ := made
    obtain ⟨⟨final, slotsWorkers⟩, ranWorkers, same⟩ := Option.map_eq_some_iff.mp rest
    obtain ⟨rfl, poolSame⟩ := Prod.mk.inj same
    obtain rfl := Option.some.inj poolSame
    rw [initJobs_fill] at ranJobs
    rw [initWorkers_fill accepted] at ranWorkers
    obtain ⟨addedJobs, placedWorkers, populatedJobs⟩ := populate sizeofJob_pos (madeJob_at outcomes)
      extended.keeps extended.unlocked shapeJobs placedEntries ranJobs
    rw [← List.append_nil (List.map _ (List.range workerCount))] at placedWorkers
    obtain ⟨addedWorkers, _, populatedWorkers⟩ := populate sizeofWorker_pos (madeWorker_at outcomes)
      populatedJobs.extended.keeps populatedJobs.extended.unlocked shapeWorkers placedWorkers ranWorkers
    exact ⟨granted, rfl, ready, middle, jobs, workers, _, addedJobs, addedWorkers, rfl, shapeJobs,
      shapeWorkers, extended, active, populatedJobs, populatedWorkers⟩

/-- A pool that lacks nothing: every worker is there with its queue and its
thread, and every job with its process. -/
structure Complete (init : Init) (pool : Pool) : Prop where
  workers : ∀ i < init.workerCount, ∃ worker, pool.workers.at_ i = some worker ∧
    worker.id = i + 1 ∧ worker.localQueues.isSome ∧ worker.tid.isSome
  jobs : ∀ i < init.jobCount, ∃ job, pool.jobs.at_ i = some job ∧ job.id = i + 1 ∧ 0 < job.pid

/-- The live blocks are what they were, and so is the tracker: its lock, its
counters and its table of them. -/
def Untouched (before after : Tracking) : Prop :=
  after.memory.blocks = before.memory.blocks ∧ after.tracker = before.tracker

/-- The constructor returns, either null and leaves no block behind, or a pool
that lacks nothing. -/
def AllOrNothing (init : Init) (tracking : Tracking) (outcomes : Outcomes) : Prop :=
  ∃ after result, initPool tracking outcomes init = some (after, result) ∧
    (result = none ∧ Untouched tracking after ∨ ∃ pool, result = some pool ∧ Complete init pool)

/-- What the constructor asks for first: the pool and its arrays. -/
def askedFirst (init : Init) (outcomes : Outcomes) : List Request :=
  firstRequests init.jobCount init.workerCount outcomes

/-- All that the constructor asks for. -/
def askedAll (init : Init) (outcomes : Outcomes) : List Request :=
  firstRequests init.jobCount init.workerCount outcomes ++
    entryRequests init.jobCount init.workerCount outcomes

/-- Every queue, thread and process that the constructor asks for is made. -/
def Started (init : Init) (outcomes : Outcomes) : Prop :=
  (∀ i < init.workerCount, (outcomes.worker i).arenaRoom = true ∧
    (outcomes.worker i).arenaBlock.isSome ∧ (outcomes.worker i).pthreadCreate.isSome) ∧
  ∀ i < init.jobCount, (outcomes.job i).fork.isSome

theorem initMode_locked (keeps : Keeps tracking handed) (locked : tracking.tracker.mutex = true) :
    initMode tracking jobCount workerCount epollfd pshared outcomes = none := by
  simp only [initMode, keeps_healthy keeps, Bool.false_eq_true, ↓reduceIte, alloc_locked locked,
    Option.bind_none]

private theorem queue_isSome (id : Int) (outcome : WorkerOutcome) (address : Nat) :
    (makeWorker id outcome address).localQueues.isSome ↔
      outcome.arenaRoom = true ∧ outcome.arenaBlock.isSome := by
  simp only [makeWorker, Reactor.initWorker, Allocator.arenaInit, Allocator.arenaNewBlock]
  cases outcome.arenaRoom <;> simp

/-- Everything was granted exactly if every worker and every job is there. -/
private theorem all_granted_iff
    (assembled : Assembled init.jobCount init.workerCount init.epollfd outcomes tracking handed
      after pool) :
    Granted tracking (askedAll init outcomes) ↔
      (∀ i < init.jobCount, (pool.jobs.at_ i).isSome) ∧
        ∀ i < init.workerCount, (pool.workers.at_ i).isSome := by
  obtain ⟨granted, _, ready, middle, _, _, _, addedJobs, _, _, _, _, _, active, jobs, workers⟩ :=
    assembled
  have activeMiddle := jobs.extended.active
  rw [populated_all_iff workers, populated_all_iff jobs]
  have requests : Granted tracking (askedAll init outcomes) ↔
      ready.tracker.active + (init.jobCount + init.workerCount) ≤ maxHeaps ∧
        (∀ i < init.jobCount, (outcomes.job i).malloc ≠ none) ∧
          ∀ i < init.workerCount, (outcomes.worker i).malloc ≠ none := by
    rw [askedAll, granted_append active granted]
    simp only [Granted, entryRequests, List.length_append, List.length_map, List.length_range,
      List.mem_append, List.mem_map, List.mem_range]
    refine and_congr_right fun _ => ⟨fun all => ⟨fun i less => all _ (Or.inl ⟨i, less, rfl⟩),
      fun i less => all _ (Or.inr ⟨i, less, rfl⟩)⟩, ?_⟩
    rintro ⟨answeredJobs, answeredWorkers⟩ request (⟨i, less, rfl⟩ | ⟨i, less, rfl⟩)
    · exact answeredJobs i less
    · exact answeredWorkers i less
  rw [requests]
  constructor
  · rintro ⟨room, answeredJobs, answeredWorkers⟩
    have length := (jobs.all.mp ((populated_all_iff jobs).mpr ⟨by omega, answeredJobs⟩))
    exact ⟨⟨by omega, answeredJobs⟩, by omega, answeredWorkers⟩
  · rintro ⟨⟨room, answeredJobs⟩, roomWorkers, answeredWorkers⟩
    have length := (jobs.all.mp ((populated_all_iff jobs).mpr ⟨by omega, answeredJobs⟩))
    exact ⟨by omega, answeredJobs, answeredWorkers⟩

/-- The pool is complete exactly if everything was granted and started. -/
private theorem complete_iff
    (assembled : Assembled init.jobCount init.workerCount init.epollfd outcomes tracking handed
      after pool) :
    Complete init pool ↔ Granted tracking (askedAll init outcomes) ∧ Started init outcomes := by
  rw [all_granted_iff assembled]
  obtain ⟨_, _, _, _, _, _, _, _, _, _, _, _, _, _, jobs, workers⟩ := assembled
  constructor
  · rintro ⟨completeWorkers, completeJobs⟩
    refine ⟨⟨fun i less => ?_, fun i less => ?_⟩, fun i less => ?_, fun i less => ?_⟩
    · obtain ⟨job, here, _⟩ := completeJobs i less
      simp [here]
    · obtain ⟨worker, here, _⟩ := completeWorkers i less
      simp [here]
    · obtain ⟨worker, here, _, queue, thread⟩ := completeWorkers i less
      rcases workers.made i less with ⟨null, _⟩ | ⟨raw, other, _, made, there⟩
      · cases null.symm.trans here
      · obtain rfl := Option.some.inj (there.symm.trans here)
        obtain rfl := Option.some.inj made
        have room := (queue_isSome _ _ _).mp queue
        exact ⟨room.1, room.2, thread⟩
    · obtain ⟨job, here, _⟩ := completeJobs i less
      rcases jobs.made i less with ⟨null, _⟩ | ⟨raw, other, _, made, _⟩
      · cases null.symm.trans here
      · obtain ⟨pid, forked, _⟩ := Option.map_eq_some_iff.mp made
        simp [forked]
  · rintro ⟨⟨allJobs, allWorkers⟩, startedWorkers, _⟩
    refine ⟨fun i less => ?_, fun i less => ?_⟩
    · have here := allWorkers i less
      rcases workers.made i less with ⟨null, _⟩ | ⟨raw, worker, _, made, there⟩
      · simp [null] at here
      · obtain rfl := Option.some.inj made
        obtain ⟨room, block, thread⟩ := startedWorkers i less
        exact ⟨_, there, rfl, (queue_isSome _ _ _).mpr ⟨room, block⟩, thread⟩
    · have here := allJobs i less
      rcases jobs.made i less with ⟨null, _⟩ | ⟨raw, job, _, made, there⟩
      · simp [null] at here
      · obtain ⟨pid, _, rfl⟩ := Option.map_eq_some_iff.mp made
        exact ⟨_, there, rfl, by simpa using pid.property⟩

/-- A constructor that comes to its loops returns a pool when everything it
starts is started. -/
private theorem started_returns (keeps : Keeps tracking handed)
    (unlocked : tracking.tracker.mutex = false) (accepted : init.accepted = true)
    (placed : Placed tracking.memory (askedAll init outcomes))
    (granted : Granted tracking (askedFirst init outcomes)) (started : Started init outcomes) :
    ∃ after pool, initPool tracking outcomes init = some (after, some pool) := by
  rw [initPool_accepted accepted]
  rcases initMode_cases init.epollfd init.pshared keeps unlocked placed with
    ⟨refused, _⟩ | ⟨_, ready, address, jobs, workers, extended, _, placedEntries, shapeJobs,
      shapeWorkers, ran⟩
  · exact absurd granted refused
  · have forks : ∀ i < init.jobCount, ∀ address, (madeJob outcomes i address).isSome := by
      intro i less address
      rw [madeJob, processSpawn, Option.isSome_map]
      exact started.2 i less
    have makes : ∀ i < init.workerCount, ∀ address, (madeWorker outcomes i address).isSome :=
      fun _ _ _ => rfl
    obtain ⟨middle, slots, ranJobs⟩ := populate_returns sizeofJob_pos extended.keeps
      extended.unlocked shapeJobs placedEntries forks
    obtain ⟨added, placedWorkers, populated⟩ := populate sizeofJob_pos (madeJob_at outcomes)
      extended.keeps extended.unlocked shapeJobs placedEntries ranJobs
    rw [← List.append_nil (List.map _ (List.range init.workerCount))] at placedWorkers
    obtain ⟨after, slotsWorkers, ranWorkers⟩ := populate_returns sizeofWorker_pos
      populated.extended.keeps populated.extended.unlocked shapeWorkers placedWorkers makes
    refine ⟨after, { newPool address init.epollfd with jobs := slots, workers := slotsWorkers }, ?_⟩
    rw [ran, initJobs_fill, ranJobs, Option.bind_some]
    simp only
    rw [initWorkers_fill (pshared_of_accepted accepted), ranWorkers]
    rfl

/-- What a refused constructor gives back leaves the tracker as it was exactly if it
has overwritten no entry. -/
private theorem untouched_iff (keeps : Keeps tracking handed) (unlocked : tracking.tracker.mutex = false)
    (back : GivenBack tracking handed requests after) :
    Untouched tracking after ↔ Spared tracking requests := by
  obtain ⟨active, allocated⟩ := counters_of_blocks keeps back.keeps back.blocks
  have free := back.unlocked
  rw [Untouched, and_iff_right back.blocks, ← back.table]
  constructor
  · exact fun same => congrArg HeapTracker.ptr same
  · intro table
    obtain ⟨⟨mutex, count, total, entries⟩, memory⟩ := after
    obtain ⟨⟨_, _, _, _⟩, _⟩ := tracking
    simp only at free active allocated table unlocked
    subst free active allocated table unlocked
    rfl

/-- A constructor is all-or-nothing exactly if it refuses its arguments, or the
lock is free and either the pool or one of its arrays is refused, with no entry
of a live block where those before it were entered, or nothing at all is: no
worker and no job, no queue, no thread and no process. -/
theorem all_or_nothing_iff (reached : exec step (start words) calls = some state)
    (placed : init.accepted = true → Placed state.memory (askedAll init outcomes)) :
    AllOrNothing init ⟨state.tracker, state.memory⟩ outcomes ↔
      init.accepted = false ∨ state.tracker.mutex = false ∧
        (¬ Granted ⟨state.tracker, state.memory⟩ (askedFirst init outcomes) ∧
            Spared ⟨state.tracker, state.memory⟩ (askedFirst init outcomes) ∨
          Granted ⟨state.tracker, state.memory⟩ (askedAll init outcomes) ∧
            Started init outcomes) := by
  have keeps := keeps_reached reached
  cases accepted : init.accepted with
  | false =>
    exact iff_of_true ⟨_, none, initPool_refused accepted, Or.inl ⟨rfl, rfl, rfl⟩⟩ (Or.inl rfl)
  | true =>
    simp only [Bool.true_eq_false, false_or]
    have placed := placed accepted
    cases locked : state.tracker.mutex with
    | true =>
      refine iff_of_false ?_ nofun
      rintro ⟨after, result, ran, _⟩
      rw [initPool_accepted accepted, initMode_locked keeps locked] at ran
      cases ran
    | false =>
      simp only [true_and]
      rcases initMode_cases init.epollfd init.pshared keeps locked placed with
        ⟨refused, after, ran, back⟩ | loops
      · rw [← initPool_accepted accepted] at ran
        constructor
        · rintro ⟨other, result, returned, outcome⟩
          obtain ⟨rfl, rfl⟩ := Prod.mk.inj (Option.some.inj (ran.symm.trans returned))
          rcases outcome with ⟨_, untouched⟩ | ⟨_, some_, _⟩
          · exact Or.inl ⟨refused, (untouched_iff keeps locked back).mp untouched⟩
          · cases some_
        · rintro (⟨_, spared⟩ | ⟨all, _⟩)
          · exact ⟨after, none, ran, Or.inl ⟨rfl, (untouched_iff keeps locked back).mpr spared⟩⟩
          · exact absurd (granted_first all) refused
      · obtain ⟨granted, _, _, _, _, ⟨_, _, _, _, _, loops⟩⟩ := loops
        have assembled : ∀ after pool, initPool ⟨state.tracker, state.memory⟩ outcomes init =
            some (after, some pool) → Assembled init.jobCount init.workerCount init.epollfd outcomes
              ⟨state.tracker, state.memory⟩ state.handed after pool := by
          intro after pool ran
          rw [initPool_accepted accepted] at ran
          exact initMode_assembled keeps locked (pshared_of_accepted accepted) placed ran
        constructor
        · rintro ⟨after, result, ran, ⟨rfl, _⟩ | ⟨pool, rfl, complete⟩⟩
          · rw [initPool_accepted accepted, loops, Option.bind_eq_some_iff] at ran
            obtain ⟨_, _, rest⟩ := ran
            obtain ⟨_, _, same⟩ := Option.map_eq_some_iff.mp rest
            cases same
          · exact Or.inr ((complete_iff (assembled after pool ran)).mp complete)
        · rintro (⟨refused, _⟩ | ⟨all, started⟩)
          · exact absurd granted refused
          · obtain ⟨after, pool, ran⟩ := started_returns keeps locked accepted placed granted started
            exact ⟨after, some pool, ran,
              Or.inr ⟨pool, rfl, (complete_iff (assembled after pool ran)).mpr ⟨all, started⟩⟩⟩

/-- Answers for a pool of one worker, whose thread is or is not made. -/
def oneWorker (thread : Option Nat) : Outcomes :=
  { pool := some 4096
    jobs := none
    workers := some 8192
    job := fun _ => ⟨none, none⟩
    worker := fun _ => ⟨some 12288, true, some 16384, thread⟩ }

private theorem oneWorker_asked (thread : Option Nat) :
    askedAll (.threading 1 (-1) 0) (oneWorker thread) =
      [⟨96, some 4096⟩, ⟨8, some 8192⟩, ⟨104, some 12288⟩] := rfl

theorem oneWorker_placed (thread : Option Nat) :
    Placed ⟨fun _ => 0, []⟩ (askedAll (.threading 1 (-1) 0) (oneWorker thread)) := by
  rw [oneWorker_asked]
  exact ⟨by decide, by decide⟩

/-- With the answers it needs, a pool of one worker is complete. -/
theorem one_worker_all_or_nothing :
    AllOrNothing (.threading 1 (-1) 0) ⟨zeroTracker, ⟨fun _ => 0, []⟩⟩ (oneWorker (some 7)) := by
  have granted : Granted ⟨zeroTracker, ⟨fun _ => 0, []⟩⟩
      (askedAll (.threading 1 (-1) 0) (oneWorker (some 7))) := by
    refine ⟨by decide, ?_⟩
    decide
  have started : Started (.threading 1 (-1) 0) (oneWorker (some 7)) :=
    ⟨fun i less => ⟨rfl, rfl, rfl⟩, fun i less => absurd less (Nat.not_lt_zero i)⟩
  exact (all_or_nothing_iff (show exec step (start fun _ => 0) [] = some _ from rfl)
    (fun _ => oneWorker_placed (some 7))).mpr (Or.inr ⟨rfl, Or.inr ⟨granted, started⟩⟩)

/-- When its thread cannot be made, the worker is in the pool all the same. -/
theorem threadless_worker_returned :
    ¬ ∀ words calls state init outcomes, exec step (start words) calls = some state →
      init.accepted = true → Placed state.memory (askedAll init outcomes) →
        AllOrNothing init ⟨state.tracker, state.memory⟩ outcomes := by
  intro always
  obtain ⟨after, result, ran, whole⟩ := always (fun _ => 0) [] _ (.threading 1 (-1) 0)
    (oneWorker none) rfl (by decide) (oneWorker_placed none)
  obtain ⟨tracking, pool, returned, tid⟩ : ∃ tracking pool,
      initPool ⟨zeroTracker, ⟨fun _ => 0, []⟩⟩ (oneWorker none) (.threading 1 (-1) 0) =
        some (tracking, some pool) ∧ ∀ worker, pool.workers.at_ 0 = some worker → worker.tid = none :=
    ⟨_, _, rfl, fun worker here => by cases here; rfl⟩
  obtain ⟨rfl, rfl⟩ := Prod.mk.inj (Option.some.inj (returned.symm.trans ran))
  rcases whole with ⟨none_, _⟩ | ⟨other, same, complete⟩
  · cases none_
  · obtain rfl := Option.some.inj same
    obtain ⟨worker, here, _, _, thread⟩ := complete.workers 0 (by decide)
    rw [tid worker here] at thread
    cases thread

end ShapeQuake.PoolConstruction
