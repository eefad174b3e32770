import Mathlib.Algebra.Order.BigOperators.Group.List
import Mathlib.Algebra.Order.Group.Nat
import ShapeQuake.Heap
import ShapeQuake.Library.Runs

/-! The tracker's table is meant to hold exactly the pointers its clients own.
An allocation writes at index `active` while a free clears whichever index held
the pointer, so the table stays exact for as long as index `active` is free
when it is written. What does hold in every run (the counters, the sizes, that
no entry is stale) is the background invariant `Tracked`. -/
namespace ShapeQuake.HeapTrackerProofs
open Heap Library.Bytes Library.Spans Library.Runs

/-- One call of a client, with the outcome of the `malloc` it may cause. -/
inductive Call where
  | alloc (size : Nat) (malloc : Option Nat)
  | free (ptr : Option Nat)
  deriving DecidableEq, Repr

/-- The tracker and its memory, with the pointers handed out by an allocation
and not given back by a successful free. -/
structure State where
  tracker : HeapTracker
  memory : Memory
  handed : List Nat

/-- A zeroed tracker that has handed out nothing. -/
def start (words : Nat → Nat) : State := ⟨zeroTracker, ⟨words, []⟩, []⟩

/-- Requests do not wrap `size_t`, and `malloc` answers with an aligned address
whose block lies in the address space, clear of every block it still owes. -/
def Possible (memory : Memory) : Call → Prop
  | .alloc size malloc =>
    size + 15 < 2 ^ 64 ∧ alignHeap size + 16 < 2 ^ 64 ∧
      ∀ raw ∈ malloc, 16 ∣ raw ∧ raw ≠ 0 ∧ raw + (alignHeap size + 16) ≤ 2 ^ 64 ∧
        ∀ span ∈ memory.blocks, Apart ⟨raw, alignHeap size + 16⟩ span
  | .free _ => True

instance (memory : Memory) (call : Call) : Decidable (Possible memory call) :=
  match call with
  | .alloc _ _ => inferInstanceAs (Decidable (_ ∧ _ ∧ _))
  | .free _ => isTrue trivial

/-- One call. It has no successor when it waits for the lock for ever. -/
def step (state : State) (call : Call) : Option State :=
  if Possible state.memory call then
    match call with
    | .alloc size malloc =>
      match heapAlloc (some state.tracker) state.memory size malloc with
      | some (some tracker, memory, ptr) => some ⟨tracker, memory, ptr.toList ++ state.handed⟩
      | _ => none
    | .free ptr =>
      match heapFree (some state.tracker) state.memory ptr with
      | some (some tracker, memory, status) =>
        some ⟨tracker, memory,
          if getCnd status = Cnd.success.raw then ptr.elim state.handed state.handed.erase
          else state.handed⟩
      | _ => none
  else none

/-- The non-null entries are exactly the pointers handed out, each once. -/
def TableExact (state : State) : Prop :=
  (∀ user, some user ∈ state.tracker.ptr ↔ user ∈ state.handed) ∧
    (state.tracker.ptr.filterMap id).Nodup

/-- A free of this pointer returns, and returns success. -/
def FreeSucceeds (state : State) (user : Nat) : Prop :=
  ∃ tracker memory, heapFree (some state.tracker) state.memory (some user) =
    some (some tracker, memory, asStatus .heap .success .free)

/-- What the tracker promises its clients between calls. -/
def Served (state : State) : Prop :=
  TableExact state ∧ ∀ user ∈ state.handed, FreeSucceeds state user

/-- The calls that keep the promise: an allocation that is refused or finds
index `active` free, and a free of null or of a pointer the client owns. -/
def KeepsTable (state : State) : Call → Prop
  | .alloc size malloc =>
    size < 1 ∨ maxHeaps ≤ state.tracker.active ∨ malloc = none ∨
      state.tracker.ptr[state.tracker.active]? = some none
  | .free ptr => ptr = none ∨ (∃ user ∈ state.handed, ptr = some user) ∨ state.handed = []

/-! ## What one call can do -/

/-- The outcomes of a call, guards included. -/
inductive Outcome (state : State) : Call → State → Prop where
  | refused (unlocked : state.tracker.mutex = false)
      (why : size < 1 ∨ maxHeaps ≤ state.tracker.active ∨ malloc = none) :
      Outcome state (.alloc size malloc) state
  | granted (raw : Nat) (unlocked : state.tracker.mutex = false) (asked : 1 ≤ size)
      (room : state.tracker.active < maxHeaps) (possible : Possible state.memory (.alloc size (some raw))) :
      Outcome state (.alloc size (some raw))
        { tracker :=
            { mutex := false
              active := state.tracker.active + 1
              allocated := wrap64 (state.tracker.allocated + alignHeap size)
              ptr := state.tracker.ptr.set state.tracker.active (some (raw + 16)) }
          memory :=
            { sizeWord := Function.update state.memory.sizeWord raw (alignHeap size)
              blocks := ⟨raw, alignHeap size + 16⟩ :: state.memory.blocks }
          handed := (raw + 16) :: state.handed }
  | null : Outcome state (.free none) state
  | aborted (unlocked : state.tracker.mutex = false)
      (why : state.tracker.active = 0 ∨
        state.tracker.allocated < state.memory.sizeWord (user - 16) ∨
          some user ∉ state.tracker.ptr) :
      Outcome state (.free (some user)) { state with tracker := { state.tracker with mutex := true } }
  | freed (unlocked : state.tracker.mutex = false) (before after : List (Option Nat))
      (table : state.tracker.ptr = before ++ some user :: after) :
      Outcome state (.free (some user))
        { tracker :=
            { mutex := false
              active := state.tracker.active - 1
              allocated := state.tracker.allocated - state.memory.sizeWord (user - 16)
              ptr := before ++ none :: after }
          memory :=
            { sizeWord := Function.update state.memory.sizeWord (user - 16) 0
              blocks := state.memory.blocks.filter (·.start ≠ user - 16) }
          handed := state.handed.erase user }

private theorem unlocked_record (unlocked : tracker.mutex = false) :
    ({ tracker with mutex := false } : HeapTracker) = tracker := by
  cases tracker
  simp_all

theorem step_outcome (taken : step state call = some next) : Outcome state call next := by
  simp only [step] at taken
  split at taken
  · rename_i possible
    cases call with
    | alloc size malloc =>
      simp only at taken
      split at taken
      · rename_i tracker memory ptr ran
        obtain ⟨unlocked, ⟨rfl, same, rfl, why⟩ | ⟨raw, rfl, asked, room, rfl, granted, rfl⟩⟩ :=
          heapAlloc_cases ran
        · rw [unlocked_record unlocked] at same
          cases same
          cases taken
          exact .refused unlocked why
        · cases granted
          cases taken
          rw [wrap64_of_lt possible.2.1]
          exact .granted raw unlocked asked room possible
      · cases taken
    | free ptr =>
      cases ptr with
      | none =>
        simp only [heapFree, getCnd_asStatus, ↓reduceIte, Option.elim_none,
          Option.some.injEq] at taken
        subst taken
        exact .null
      | some user =>
        simp only at taken
        split at taken
        · rename_i tracker memory status ran
          obtain ⟨unlocked, freed⟩ := heapFree_freed ran
          cases freed with
          | refused failed why =>
            rw [if_neg failed] at taken
            cases taken
            exact .aborted unlocked why
          | cleared success before after table =>
            rw [if_pos success] at taken
            cases taken
            exact .freed unlocked before after table
        · cases taken
  · cases taken

/-! ## What holds in every run -/

/-- Every entry is a pointer handed out, and `active` counts these. -/
structure Entered (state : State) : Prop where
  entries : state.tracker.ptr.length = maxHeaps
  owned : ∀ user, some user ∈ state.tracker.ptr → user ∈ state.handed
  once : (state.tracker.ptr.filterMap id).Nodup
  distinct : state.handed.Nodup
  placed : ∀ user ∈ state.handed, 16 ≤ user
  count : state.tracker.active = state.handed.length
  room : state.tracker.active ≤ maxHeaps
  starts : state.memory.blocks.map (·.start) = state.handed.map (· - 16)

theorem entered_start (words : Nat → Nat) : Entered (start words) where
  entries := rfl
  owned := by simp [start, zeroTracker]
  once := by simp [start, zeroTracker]
  distinct := List.nodup_nil
  placed := by simp [start]
  count := rfl
  room := Nat.zero_le _
  starts := rfl

/-- The block in front of which a user pointer lies. -/
def blockOf (memory : Memory) (user : Nat) : Span := ⟨user - 16, memory.sizeWord (user - 16) + 16⟩

/-- The counters and the sizes agree with the pointers handed out, and every
entry is one of them. Nothing is said about which of them have an entry. -/
structure Tracked (state : State) : Prop where
  entries : state.tracker.ptr.length = maxHeaps
  owned : ∀ user, some user ∈ state.tracker.ptr → user ∈ state.handed
  once : (state.tracker.ptr.filterMap id).Nodup
  distinct : state.handed.Nodup
  placed : ∀ user ∈ state.handed, 16 ≤ user
  count : state.tracker.active = state.handed.length
  room : state.tracker.active ≤ maxHeaps
  blocks : state.memory.blocks = state.handed.map (blockOf state.memory)
  apart : state.memory.blocks.Pairwise Apart
  within : ∀ span ∈ state.memory.blocks, span.start + span.size ≤ 2 ^ 64
  total : state.tracker.allocated =
    (state.handed.map fun user => state.memory.sizeWord (user - 16)).sum

/-- The blocks lie in front of the pointers handed out. -/
theorem Tracked.entered (tracked : Tracked state) : Entered state :=
  { tracked with starts := by simp [tracked.blocks, blockOf, Function.comp_def] }

theorem tracked_start (words : Nat → Nat) : Tracked (start words) :=
  { entered_start words with
    blocks := rfl
    apart := List.Pairwise.nil
    within := by simp [start]
    total := rfl }

/-- The table around one of its indices. -/
theorem table_split {table : List (Option Nat)} (bound : index < table.length) :
    table = table.take index ++ table[index] :: table.drop (index + 1) ∧
      ∀ entry, table.set index entry = table.take index ++ entry :: table.drop (index + 1) := by
  refine ⟨?_, fun entry => by rw [List.set_eq_take_append_cons_drop, if_pos bound]⟩
  rw [List.getElem_cons_drop, List.take_append_drop]

theorem filterMap_around (before after : List (Option Nat)) (entry : Option Nat) :
    (before ++ entry :: after).filterMap id =
      before.filterMap id ++ entry.toList ++ after.filterMap id := by
  cases entry <;> simp

theorem mem_filterMap_id (table : List (Option Nat)) (user : Nat) :
    user ∈ table.filterMap id ↔ some user ∈ table := by
  simp

/-- Replacing an entry by a pointer the table does not hold keeps entries distinct. -/
theorem once_set {before after : List (Option Nat)}
    (once : ((before ++ old :: after).filterMap id).Nodup)
    (absent : some user ∉ before ++ old :: after) :
    ((before ++ some user :: after).filterMap id).Nodup := by
  rw [filterMap_around] at once ⊢
  have rest : (before.filterMap id ++ after.filterMap id).Nodup := by
    refine List.Nodup.sublist ?_ once
    rw [List.append_assoc]
    exact List.Sublist.append_left (List.sublist_append_right _ _) _
  have fresh : user ∉ before.filterMap id ++ after.filterMap id := by
    rw [List.mem_append, mem_filterMap_id, mem_filterMap_id]
    simp only [List.mem_append, List.mem_cons, not_or] at absent
    exact not_or.mpr ⟨absent.1, absent.2.2⟩
  have moved : (before.filterMap id ++ [user] ++ after.filterMap id).Perm
      (user :: (before.filterMap id ++ after.filterMap id)) := by
    rw [List.append_assoc]
    exact List.perm_middle
  exact moved.nodup_iff.mpr (List.nodup_cons.mpr ⟨fresh, rest⟩)

/-- Clearing an entry keeps entries distinct and removes exactly that pointer. -/
theorem once_clear {before after : List (Option Nat)}
    (once : ((before ++ some user :: after).filterMap id).Nodup) :
    ((before ++ none :: after).filterMap id).Nodup ∧
      ∀ other, some other ∈ before ++ none :: after ↔
        some other ∈ before ++ some user :: after ∧ other ≠ user := by
  rw [filterMap_around, List.append_assoc, Option.toList_some, List.singleton_append] at once
  have moved := List.perm_middle.nodup_iff.mp once
  obtain ⟨absent, rest⟩ := List.nodup_cons.mp moved
  refine ⟨by simpa [filterMap_around] using rest, fun other => ?_⟩
  rw [List.mem_append, mem_filterMap_id, mem_filterMap_id, not_or] at absent
  simp only [List.mem_append, List.mem_cons, reduceCtorEq, false_or, Option.some.injEq]
  constructor
  · rintro (left | right)
    · exact ⟨Or.inl left, fun same => absent.1 (same ▸ left)⟩
    · exact ⟨Or.inr (Or.inr right), fun same => absent.2 (same ▸ right)⟩
  · rintro ⟨left | same | right, different⟩
    · exact Or.inl left
    · exact absurd same different
    · exact Or.inr right

theorem entered_granted (entered : Entered state) (room : state.tracker.active < maxHeaps)
    (fresh : ∀ span ∈ state.memory.blocks, span.start ≠ raw) (allocated size : Nat) (sizeWord : Nat → Nat) :
    Entered
      { tracker :=
          { mutex := false, active := state.tracker.active + 1, allocated
            ptr := state.tracker.ptr.set state.tracker.active (some (raw + 16)) }
        memory := { sizeWord, blocks := ⟨raw, size⟩ :: state.memory.blocks }
        handed := (raw + 16) :: state.handed } := by
  have bound : state.tracker.active < state.tracker.ptr.length := entered.entries ▸ room
  obtain ⟨around, written⟩ := table_split bound
  have absent : raw + 16 ∉ state.handed := by
    intro member
    have there : raw ∈ state.memory.blocks.map (·.start) :=
      entered.starts ▸ List.mem_map.mpr ⟨raw + 16, member, rfl⟩
    obtain ⟨span, live, same⟩ := List.mem_map.mp there
    exact fresh span live same
  have absentTable : some (raw + 16) ∉ state.tracker.ptr := fun member => absent (entered.owned _ member)
  exact {
    entries := by rw [List.length_set]; exact entered.entries
    owned := by
      intro user member
      rcases List.mem_or_eq_of_mem_set member with old | new
      · exact List.mem_cons_of_mem _ (entered.owned user old)
      · exact Option.some.inj new ▸ List.mem_cons_self
    once := by
      show ((state.tracker.ptr.set _ _).filterMap id).Nodup
      rw [written]
      exact once_set (around ▸ entered.once) (around ▸ absentTable)
    distinct := List.nodup_cons.mpr ⟨absent, entered.distinct⟩
    placed := by
      intro user member
      rcases List.mem_cons.mp member with rfl | old
      · exact Nat.le_add_left 16 raw
      · exact entered.placed user old
    count := by simp [entered.count]
    room := room
    starts := by simp [entered.starts] }

/-- The pointers that are left are those with other blocks. -/
private theorem handed_apart (entered : Entered state) (held : user ∈ state.handed) :
    state.handed.filter (fun other => other - 16 ≠ user - 16) = state.handed.erase user := by
  rw [entered.distinct.erase_eq_filter]
  apply List.filter_congr
  intro other member
  have lower := entered.placed user held
  have lowerOther := entered.placed other member
  simp only [ne_eq, decide_not, bne]
  by_cases same : other = user
  · simp [same]
  · have apart : ¬ other - 16 = user - 16 := by omega
    simp [same, apart]

/-- The starts of the blocks that are left when one is given back. -/
private theorem starts_freed (entered : Entered state) (held : user ∈ state.handed) :
    (state.memory.blocks.filter (·.start ≠ user - 16)).map (·.start) =
      (state.handed.erase user).map (· - 16) := by
  have starts := congrArg (List.filter (· ≠ user - 16)) entered.starts
  rw [List.filter_map, List.filter_map] at starts
  exact starts.trans (congrArg _ (handed_apart entered held))

theorem entered_freed (entered : Entered state) {before after : List (Option Nat)}
    (table : state.tracker.ptr = before ++ some user :: after) (allocated : Nat) (sizeWord : Nat → Nat) :
    Entered
      { tracker :=
          { mutex := false, active := state.tracker.active - 1, allocated
            ptr := before ++ none :: after }
        memory := { sizeWord, blocks := state.memory.blocks.filter (·.start ≠ user - 16) }
        handed := state.handed.erase user } := by
  have held : user ∈ state.handed := entered.owned user (by simp [table])
  obtain ⟨once, entriesLeft⟩ := once_clear (table ▸ entered.once)
  exact {
    entries := by
      have length := entered.entries
      rw [table] at length
      simpa using length
    owned := by
      intro other member
      obtain ⟨old, different⟩ := (entriesLeft other).mp member
      exact (List.Nodup.mem_erase_iff entered.distinct).mpr
        ⟨different, entered.owned other (table ▸ old)⟩
    once := once
    distinct := entered.distinct.erase user
    placed := fun other member => entered.placed other (List.mem_of_mem_erase member)
    count := by
      rw [List.length_erase_of_mem held, ← entered.count]
    room := Nat.le_trans (Nat.sub_le _ _) entered.room
    starts := starts_freed entered held }

private theorem blockOf_update {raw word : Nat} (memory : Memory) (blocks : List Span)
    (apart : user - 16 ≠ raw) :
    blockOf ⟨Function.update memory.sizeWord raw word, blocks⟩ user = blockOf memory user := by
  simp [blockOf, Function.update_of_ne apart]

theorem sum_block_sizes (memory : Memory) (handed : List Nat) :
    ((handed.map (blockOf memory)).map Span.size).sum =
      (handed.map fun user => memory.sizeWord (user - 16)).sum + 16 * handed.length := by
  induction handed with
  | nil => rfl
  | cons user rest ih =>
    simp only [List.map_cons, List.sum_cons, List.length_cons, blockOf] at ih ⊢
    omega

/-- A granted pointer is none of those already handed out. -/
theorem granted_fresh (tracked : Tracked state)
    (possible : Possible state.memory (.alloc size (some raw))) :
    ∀ user ∈ state.handed, user - 16 ≠ raw := by
  intro user member same
  have clear := (possible.2.2 raw rfl).2.2.2 (blockOf state.memory user)
    (tracked.blocks ▸ List.mem_map_of_mem member)
  simp only [Apart, blockOf] at clear
  omega

theorem tracked_granted (tracked : Tracked state) (room : state.tracker.active < maxHeaps)
    (possible : Possible state.memory (.alloc size (some raw))) :
    Tracked
      { tracker :=
          { mutex := false
            active := state.tracker.active + 1
            allocated := wrap64 (state.tracker.allocated + alignHeap size)
            ptr := state.tracker.ptr.set state.tracker.active (some (raw + 16)) }
        memory :=
          { sizeWord := Function.update state.memory.sizeWord raw (alignHeap size)
            blocks := ⟨raw, alignHeap size + 16⟩ :: state.memory.blocks }
        handed := (raw + 16) :: state.handed } := by
  have fresh := granted_fresh tracked possible
  obtain ⟨_, _, fits, clear⟩ := possible.2.2 raw rfl
  have elsewhere : ∀ span ∈ state.memory.blocks, span.start ≠ raw := by
    intro span member
    obtain ⟨user, held, rfl⟩ := List.mem_map.mp (tracked.blocks ▸ member)
    exact fresh user held
  have entered := entered_granted tracked.entered room elsewhere
    (wrap64 (state.tracker.allocated + alignHeap size)) (alignHeap size + 16)
    (Function.update state.memory.sizeWord raw (alignHeap size))
  have newBlock : blockOf ⟨Function.update state.memory.sizeWord raw (alignHeap size),
      ⟨raw, alignHeap size + 16⟩ :: state.memory.blocks⟩ (raw + 16) = ⟨raw, alignHeap size + 16⟩ := by
    simp [blockOf]
  have oldBlocks : ∀ user ∈ state.handed,
      blockOf ⟨Function.update state.memory.sizeWord raw (alignHeap size),
        ⟨raw, alignHeap size + 16⟩ :: state.memory.blocks⟩ user = blockOf state.memory user :=
    fun user member => blockOf_update state.memory _ (fresh user member)
  have oldWords : ∀ user ∈ state.handed,
      Function.update state.memory.sizeWord raw (alignHeap size) (user - 16) =
        state.memory.sizeWord (user - 16) :=
    fun user member => Function.update_of_ne (fresh user member) _ _
  have apart : (⟨raw, alignHeap size + 16⟩ :: state.memory.blocks).Pairwise Apart :=
    List.pairwise_cons.mpr ⟨clear, tracked.apart⟩
  have within : ∀ span ∈ (⟨raw, alignHeap size + 16⟩ :: state.memory.blocks : List Span),
      span.start + span.size ≤ 2 ^ 64 := by
    intro span member
    rcases List.mem_cons.mp member with rfl | old
    · exact fits
    · exact tracked.within span old
  -- the live blocks lie side by side in the address space, so their sizes cannot wrap
  have packed := total_size_le apart within
  rw [List.map_cons, List.sum_cons, tracked.blocks, sum_block_sizes, ← tracked.total] at packed
  exact {
    entered with
    blocks := by
      simp only [List.map_cons, newBlock, List.map_congr_left oldBlocks, ← tracked.blocks]
    apart := apart
    within := within
    total := by
      simp only [List.map_cons, List.sum_cons, Nat.add_sub_cancel, Function.update_self,
        List.map_congr_left oldWords, ← tracked.total]
      rw [wrap64_of_lt (by simp only at packed; omega)]
      omega }

/-- Handed-out pointers have different blocks. -/
theorem blocks_keep_others (tracked : Tracked state) (held : user ∈ state.handed) :
    ∀ other ∈ state.handed.erase user, other ∈ state.handed ∧ other - 16 ≠ user - 16 := by
  intro other member
  obtain ⟨different, old⟩ := (List.Nodup.mem_erase_iff tracked.distinct).mp member
  have lower := tracked.placed user held
  have lowerOther := tracked.placed other old
  exact ⟨old, fun same => different (by omega)⟩

/-- Without the block of a pointer, the blocks of the other pointers are left. -/
private theorem blocks_freed (tracked : Tracked state) (held : user ∈ state.handed) :
    state.memory.blocks.filter (·.start ≠ user - 16) =
      (state.handed.erase user).map (blockOf state.memory) := by
  rw [tracked.blocks, List.filter_map]
  exact congrArg _ (handed_apart tracked.entered held)

theorem tracked_freed (tracked : Tracked state) {before after : List (Option Nat)}
    (table : state.tracker.ptr = before ++ some user :: after) :
    Tracked
      { tracker :=
          { mutex := false
            active := state.tracker.active - 1
            allocated := state.tracker.allocated - state.memory.sizeWord (user - 16)
            ptr := before ++ none :: after }
        memory :=
          { sizeWord := Function.update state.memory.sizeWord (user - 16) 0
            blocks := state.memory.blocks.filter (·.start ≠ user - 16) }
        handed := state.handed.erase user } := by
  have held : user ∈ state.handed := tracked.owned user (by simp [table])
  have others := blocks_keep_others tracked held
  have entered := entered_freed tracked.entered table
    (state.tracker.allocated - state.memory.sizeWord (user - 16))
    (Function.update state.memory.sizeWord (user - 16) 0)
  have oldBlocks : ∀ other ∈ state.handed.erase user,
      blockOf ⟨Function.update state.memory.sizeWord (user - 16) 0,
        state.memory.blocks.filter (·.start ≠ user - 16)⟩ other = blockOf state.memory other :=
    fun other member => blockOf_update state.memory _ (others other member).2
  have oldWords : ∀ other ∈ state.handed.erase user,
      Function.update state.memory.sizeWord (user - 16) 0 (other - 16) =
        state.memory.sizeWord (other - 16) :=
    fun other member => Function.update_of_ne (others other member).2 _ _
  exact {
    entered with
    blocks := by
      rw [blocks_freed tracked held]
      exact (List.map_congr_left oldBlocks).symm
    apart := tracked.apart.filter _
    within := fun span member => tracked.within span (List.mem_of_mem_filter member)
    total := by
      have whole := (List.perm_cons_erase held).map (fun other => state.memory.sizeWord (other - 16))
      have sum := whole.sum_eq
      rw [List.map_cons, List.sum_cons, ← tracked.total] at sum
      simp only [List.map_congr_left oldWords]
      omega }

/-- The background invariant survives every call, whatever its arguments. -/
theorem tracked_step (tracked : Tracked state) (taken : step state call = some next) :
    Tracked next := by
  cases step_outcome taken with
  | refused unlocked why => exact tracked
  | granted raw unlocked asked room possible => exact tracked_granted tracked room possible
  | null => exact tracked
  | aborted unlocked why => exact { tracked with }
  | freed unlocked before after table => exact tracked_freed tracked table

/-! ## Which calls keep the table exact -/

/-- An owned pointer is freed exactly when the lock is free and it has an entry;
the counters never stand in the way. -/
theorem free_succeeds_iff (tracked : Tracked state) (held : user ∈ state.handed) :
    FreeSucceeds state user ↔
      state.tracker.mutex = false ∧ some user ∈ state.tracker.ptr := by
  constructor
  · rintro ⟨tracker, memory, ran⟩
    obtain ⟨unlocked, ⟨abort, _⟩ | ⟨table, _, search, _⟩⟩ := heapFree_cases ran
    · exact absurd abort (getCnd_ne nofun)
    · refine ⟨unlocked, ?_⟩
      by_contra absent
      rw [clearEntry_none.mpr absent] at search
      cases search
  · rintro ⟨unlocked, entry⟩
    have active : ¬ state.tracker.active = 0 := by
      have := List.length_pos_of_mem held
      rw [tracked.count]
      omega
    have covered : ¬ state.tracker.allocated < state.memory.sizeWord (user - 16) := by
      rw [Nat.not_lt, tracked.total]
      exact List.le_sum_of_mem (List.mem_map_of_mem held)
    cases search : clearEntry user state.tracker.ptr with
    | none => exact absurd entry (clearEntry_none.mp search)
    | some table =>
      simp only [FreeSucceeds, heapFree, unlocked, Bool.false_eq_true, active, covered, or_self,
        ↓reduceIte, search]
      exact ⟨_, _, rfl⟩

theorem served_iff (tracked : Tracked state) :
    Served state ↔ TableExact state ∧ (state.handed = [] ∨ state.tracker.mutex = false) := by
  constructor
  · rintro ⟨table, frees⟩
    refine ⟨table, ?_⟩
    cases handed : state.handed with
    | nil => exact Or.inl rfl
    | cons user rest =>
      have held : user ∈ state.handed := by simp [handed]
      exact Or.inr ((free_succeeds_iff tracked held).mp (frees user held)).1
  · rintro ⟨table, unlocked⟩
    refine ⟨table, fun user held => (free_succeeds_iff tracked held).mpr ⟨?_, (table.1 user).mpr held⟩⟩
    rcases unlocked with empty | free
    · simp [empty] at held
    · exact free

/-- The written index held nothing exactly when no owned pointer lost its entry. -/
private theorem granted_exact_iff (tracked : Tracked state) (table : TableExact state)
    (room : state.tracker.active < maxHeaps)
    (possible : Possible state.memory (.alloc size (some raw))) :
    (∀ user, some user ∈ state.tracker.ptr.set state.tracker.active (some (raw + 16)) ↔
      user ∈ (raw + 16) :: state.handed) ↔
    state.tracker.ptr[state.tracker.active]? = some none := by
  have fresh := granted_fresh tracked possible
  have bound : state.tracker.active < state.tracker.ptr.length := tracked.entries ▸ room
  obtain ⟨around, written⟩ := table_split bound
  rw [written, List.getElem?_eq_getElem bound]
  generalize state.tracker.ptr.take state.tracker.active = before at *
  generalize state.tracker.ptr.drop (state.tracker.active + 1) = after at *
  have members := table.1
  have once := table.2
  rw [around] at members once
  generalize state.tracker.ptr[state.tracker.active] = entry at *
  cases entry with
  | none =>
    refine iff_of_true (fun user => ?_) rfl
    rw [List.mem_cons, ← members user]
    simp only [List.mem_append, List.mem_cons, Option.some.injEq, reduceCtorEq, false_or]
    exact or_left_comm
  | some lost =>
    refine iff_of_false (fun every => ?_) (by simp)
    have owned : lost ∈ state.handed := (members lost).mp (by simp)
    have different : lost ≠ raw + 16 := fun same => fresh lost owned (by omega)
    have gone : some lost ∉ before ++ none :: after :=
      fun member => (((once_clear once).2 lost).mp member).2 rfl
    have kept := (every lost).mpr (List.mem_cons_of_mem _ owned)
    simp only [List.mem_append, List.mem_cons, reduceCtorEq, false_or, Option.some.injEq,
      different] at kept gone
    exact gone kept

/-- In a state that serves its clients, a call keeps doing so exactly when it
is one of `KeepsTable`. -/
theorem step_serves_iff (tracked : Tracked state) (served : Served state)
    (taken : step state call = some next) : Served next ↔ KeepsTable state call := by
  have trackedNext := tracked_step tracked taken
  obtain ⟨table, _⟩ := (served_iff tracked).mp served
  cases step_outcome taken with
  | refused unlocked why => exact iff_of_true served (by unfold KeepsTable; tauto)
  | @granted size raw unlocked asked room possible =>
    have onlySlot : KeepsTable state (.alloc size (some raw)) ↔
        state.tracker.ptr[state.tracker.active]? = some none := by
      simp only [KeepsTable, reduceCtorEq, false_or]
      constructor
      · rintro (small | full | free)
        · omega
        · omega
        · exact free
      · exact fun free => Or.inr (Or.inr free)
    rw [served_iff trackedNext, onlySlot, ← granted_exact_iff tracked table room possible]
    constructor
    · exact fun held => held.1.1
    · exact fun members => ⟨⟨members, trackedNext.once⟩, Or.inr rfl⟩
  | null => exact iff_of_true served (Or.inl rfl)
  | @aborted user unlocked why =>
    have unowned : user ∉ state.handed := by
      intro held
      obtain ⟨_, entry⟩ := (free_succeeds_iff tracked held).mp (served.2 user held)
      obtain ⟨tracker, memory, ran⟩ := served.2 user held
      obtain ⟨_, ⟨abort, _⟩ | ⟨_, _, _, active, covered, _⟩⟩ := heapFree_cases ran
      · exact absurd abort (getCnd_ne nofun)
      · rcases why with none_ | larger | absent
        · exact active none_
        · omega
        · exact absent entry
    rw [served_iff trackedNext]
    simp only [KeepsTable, reduceCtorEq, false_or, Bool.true_eq_false, or_false, Option.some.injEq]
    constructor
    · exact fun held => Or.inr held.2
    · rintro (⟨owner, held, rfl⟩ | empty)
      · exact absurd held unowned
      · exact ⟨table, empty⟩
  | @freed user unlocked before after split_ =>
    have held : user ∈ state.handed := tracked.owned user (by simp [split_])
    refine iff_of_true ((served_iff trackedNext).mpr ⟨⟨fun other => ?_, trackedNext.once⟩, Or.inr rfl⟩)
      (Or.inr (Or.inl ⟨user, held, rfl⟩))
    rw [(once_clear (split_ ▸ tracked.once)).2 other, ← split_, table.1 other,
      List.Nodup.mem_erase_iff tracked.distinct, and_comm]

theorem served_start (words : Nat → Nat) : Served (start words) :=
  (served_iff (tracked_start words)).mpr
    ⟨⟨by simp [start, zeroTracker], (tracked_start words).once⟩, Or.inl rfl⟩

/-- The table is exact, and every owned pointer can be freed, in every state of
a run exactly when every granted allocation of the run found index `active`
free and no free was given a pointer that nobody owns while others are owned. -/
theorem table_exact_iff_free_index (words : Nat → Nat) (calls : List Call) :
    Throughout step Served (start words) calls ↔
      EachStep step KeepsTable (start words) calls :=
  throughout_iff_each_step (fun _ _ _ ground _ _ => tracked_step ground) (fun _ _ _ => step_serves_iff)
    (tracked_start words) (served_start words)

/-- Two blocks, the older one freed, and a third: the third is written over the
entry of the second, whose owner can no longer free it. -/
theorem freed_out_of_order_loses_entry :
    ¬ ∀ words calls, Throughout step Served (start words) calls := by
  intro always
  have served := throughout_final
    (always (fun _ => 0) [.alloc 16 (some 4096), .alloc 16 (some 8192), .free (some 4112),
      .alloc 16 (some 12288)])
    (show exec step _ _ = some ⟨⟨false, 2, 32, none :: some 12304 :: List.replicate 18 none⟩, _,
      [12304, 8208]⟩ from rfl)
  have entry := (served.1.1 8208).mpr (by simp)
  simp at entry

end ShapeQuake.HeapTrackerProofs
