import Mathlib.Logic.Function.Basic
import ShapeQuake.Library.Bytes
import ShapeQuake.Library.Spans
import ShapeQuake.Status

/-! The heap tracker of `heap.c`: a table of at most twenty user pointers in
front of `malloc`, each block carrying its rounded size in a sixteen byte
header. A call returns `none` here when it waits for a lock nobody releases. -/
namespace ShapeQuake.Heap
open Library.Bytes Library.Spans

/-- `MAX_HEAPS`. -/
def maxHeaps : Nat := 20

/-- `align_heap`. -/
def alignHeap (size : Nat) : Nat := roundUp16 size

/-- `heap_tracker_t`. The mutex is its state: held or not. -/
structure HeapTracker where
  mutex : Bool
  active : Nat
  allocated : Nat
  ptr : List (Option Nat)
  deriving DecidableEq, Repr

/-- A tracker with static storage duration starts out zeroed. -/
def zeroTracker : HeapTracker := ⟨false, 0, 0, List.replicate maxHeaps none⟩

/-- `tracker_init`: it clears the table only, and takes no lock. -/
def trackerInit (tracker : Option HeapTracker) : Option HeapTracker :=
  tracker.map fun tracker => { tracker with ptr := List.replicate maxHeaps none }

/-- What the tracker sees of the process's memory: the word stored at each
address, and the blocks it obtained from `malloc` and has not given back. -/
structure Memory where
  sizeWord : Nat → Nat
  blocks : List Span

/-- `internal_heap_alloc`. The outcome of the one `malloc` call is an argument. -/
def internalHeapAlloc (tracker : Option HeapTracker) (memory : Memory) (requiredSize : Nat)
    (malloc : Option Nat) : Option HeapTracker × Memory × Option Nat :=
  match tracker with
  | none => (none, memory, none)
  | some tracker =>
    if requiredSize < 1 then (some tracker, memory, none)
    else if tracker.active ≥ maxHeaps then (some tracker, memory, none)
    else
      let reqAligned := alignHeap requiredSize
      let totalAlignedSize := wrap64 (reqAligned + 16)
      match malloc with
      | none => (some tracker, memory, none)
      | some ptr =>
        let userPtr := ptr + 16
        (some { tracker with
            ptr := tracker.ptr.set tracker.active (some userPtr)
            active := tracker.active + 1
            allocated := wrap64 (tracker.allocated + reqAligned) },
          { sizeWord := Function.update memory.sizeWord ptr reqAligned
            blocks := ⟨ptr, totalAlignedSize⟩ :: memory.blocks },
          some userPtr)

/-- `heap_alloc`. -/
def heapAlloc (tracker : Option HeapTracker) (memory : Memory) (size : Nat)
    (malloc : Option Nat) : Option (Option HeapTracker × Memory × Option Nat) :=
  match tracker with
  | none => some (none, memory, none)
  | some tracker =>
    if tracker.mutex then none
    else
      let (after, memory, ptr) :=
        internalHeapAlloc (some { tracker with mutex := true }) memory size malloc
      some (after.map fun tracker => { tracker with mutex := false }, memory, ptr)

/-- The search loop of `heap_free`: the first entry that holds the pointer is
cleared, and no entry changes when there is none. -/
def clearEntry (user : Nat) : List (Option Nat) → Option (List (Option Nat))
  | [] => none
  | entry :: rest =>
    if entry = some user then some (none :: rest)
    else (clearEntry user rest).map (entry :: ·)

/-- `heap_free`. Both abort exits after the lock return without unlocking. -/
def heapFree (tracker : Option HeapTracker) (memory : Memory) (ptr : Option Nat) :
    Option (Option HeapTracker × Memory × Status) :=
  match ptr with
  | none => some (tracker, memory, asStatus .heap .success .free)
  | some user =>
    match tracker with
    | none => some (none, memory, asStatus .heap .abort .param)
    | some tracker =>
      if tracker.mutex then none
      else
        let locked := { tracker with mutex := true }
        let raw := user - 16
        let reqAligned := memory.sizeWord raw
        if tracker.active = 0 ∨ tracker.allocated < reqAligned then
          some (some locked, memory, asStatus .heap .abort .calculation)
        else
          match clearEntry user tracker.ptr with
          | none => some (some locked, memory, asStatus .heap .abort .notFound)
          | some table =>
            some (some { mutex := false
                         active := tracker.active - 1
                         allocated := tracker.allocated - reqAligned
                         ptr := table },
              { sizeWord := Function.update memory.sizeWord raw 0
                blocks := memory.blocks.filter (·.start ≠ raw) },
              asStatus .heap .success .free)

/-- What `heap_free_all` works on, and the user pointers of the blocks it gives to `free`. -/
structure FreeAll where
  tracker : HeapTracker
  memory : Memory
  freed : List Nat

/-- A turn of its loop. -/
def freeEntry (loop : FreeAll) (i : Nat) : FreeAll :=
  match loop.tracker.ptr.getD i none with
  | some user =>
    let raw := user - 16
    { tracker := { loop.tracker with ptr := loop.tracker.ptr.set i none }
      memory :=
        { sizeWord := Function.update loop.memory.sizeWord raw 0
          blocks := loop.memory.blocks.filter (·.start ≠ raw) }
      freed := loop.freed ++ [user] }
  | none => loop

/-- `heap_free_all` of a tracker that is not null. It takes no lock. -/
def heapFreeAll (tracker : HeapTracker) (memory : Memory) : FreeAll :=
  let loop := (List.range tracker.active).foldl freeEntry ⟨tracker, memory, []⟩
  { loop with tracker := { loop.tracker with active := 0, allocated := 0 } }

/-- `tracking_health`. -/
def trackingHealth (tracker : Option HeapTracker) : Status :=
  match tracker with
  | none => asStatus .heapTracker .abort .param
  | some tracker =>
    if tracker.active = 0 ∧ tracker.allocated ≠ 0 ∨ tracker.active > 0 ∧ tracker.allocated = 0 then
      asStatus .heapTracker .fatal .calculation
    else asStatus .heapTracker .success .calculation

/-- The callers of `tracking_health` give up on these conditions. -/
def unhealthy (status : Status) : Bool :=
  getCnd status = Cnd.fatal.raw ∨ getCnd status = Cnd.abort.raw

/-! ## Spec lemmas -/

/-- A tracker is healthy when its counters are both zero or both not. -/
theorem unhealthy_trackingHealth (tracker : HeapTracker) :
    unhealthy (trackingHealth (some tracker)) = false ↔ (tracker.active = 0 ↔ tracker.allocated = 0) := by
  by_cases off :
      tracker.active = 0 ∧ tracker.allocated ≠ 0 ∨ tracker.active > 0 ∧ tracker.allocated = 0
  · have fatal : unhealthy (asStatus .heapTracker .fatal .calculation) = true := by decide
    simp only [trackingHealth, if_pos off, fatal, Bool.true_eq_false, false_iff]
    omega
  · have success : unhealthy (asStatus .heapTracker .success .calculation) = false := by decide
    simp only [trackingHealth, if_neg off, success, true_iff]
    omega

theorem clearEntry_none : clearEntry user table = none ↔ some user ∉ table := by
  induction table with
  | nil => simp [clearEntry]
  | cons entry rest ih =>
    by_cases same : entry = some user
    · simp [clearEntry, same]
    · simp [clearEntry, same, ih, Ne.symm same]

/-- Clearing an entry splits the table around its first occurrence. -/
theorem clearEntry_some (found : clearEntry user table = some cleared) :
    ∃ before after, table = before ++ some user :: after ∧ some user ∉ before ∧
      cleared = before ++ none :: after := by
  induction table generalizing cleared with
  | nil => simp [clearEntry] at found
  | cons entry rest ih =>
    by_cases same : entry = some user
    · simp only [clearEntry, same, ↓reduceIte, Option.some.injEq] at found
      exact ⟨[], rest, by simp [same], by simp, found.symm⟩
    · simp only [clearEntry, same, ↓reduceIte, Option.map_eq_some_iff] at found
      obtain ⟨tail, here, rfl⟩ := found
      obtain ⟨before, after, rfl, absent, rfl⟩ := ih here
      refine ⟨entry :: before, after, rfl, ?_, rfl⟩
      simp [absent, Ne.symm same]

/-- An allocation either changes nothing and returns null, or the request was
granted: there was a free entry count, `malloc` answered, and the pointer was
written at index `active`. -/
theorem heapAlloc_cases
    (ran : heapAlloc (some tracker) memory size malloc = some (after, memoryAfter, ptr)) :
    tracker.mutex = false ∧
    ((ptr = none ∧ after = some { tracker with mutex := false } ∧ memoryAfter = memory ∧
        (size < 1 ∨ maxHeaps ≤ tracker.active ∨ malloc = none)) ∨
      ∃ raw, malloc = some raw ∧ 1 ≤ size ∧ tracker.active < maxHeaps ∧ ptr = some (raw + 16) ∧
        after = some { mutex := false
                       active := tracker.active + 1
                       allocated := wrap64 (tracker.allocated + alignHeap size)
                       ptr := tracker.ptr.set tracker.active (some (raw + 16)) } ∧
        memoryAfter = { sizeWord := Function.update memory.sizeWord raw (alignHeap size)
                        blocks := ⟨raw, wrap64 (alignHeap size + 16)⟩ :: memory.blocks }) := by
  simp only [heapAlloc, internalHeapAlloc] at ran
  split at ran
  · cases ran
  · rename_i free
    refine ⟨by simpa using free, ?_⟩
    by_cases empty : size < 1
    · simp only [empty, ↓reduceIte, Option.map_some, Option.some.injEq, Prod.mk.injEq] at ran
      obtain ⟨rfl, rfl, rfl⟩ := ran
      exact Or.inl ⟨rfl, rfl, rfl, Or.inl empty⟩
    · by_cases full : maxHeaps ≤ tracker.active
      · simp only [empty, full, ↓reduceIte, Option.map_some, Option.some.injEq,
          Prod.mk.injEq] at ran
        obtain ⟨rfl, rfl, rfl⟩ := ran
        exact Or.inl ⟨rfl, rfl, rfl, Or.inr (Or.inl full)⟩
      · cases malloc with
        | none =>
          simp only [empty, full, ↓reduceIte, Option.map_some, Option.some.injEq,
            Prod.mk.injEq] at ran
          obtain ⟨rfl, rfl, rfl⟩ := ran
          exact Or.inl ⟨rfl, rfl, rfl, Or.inr (Or.inr rfl)⟩
        | some raw =>
          simp only [empty, full, ↓reduceIte, Option.map_some, Option.some.injEq,
            Prod.mk.injEq] at ran
          obtain ⟨rfl, rfl, rfl⟩ := ran
          exact Or.inr ⟨raw, rfl, by omega, by omega, rfl, rfl, rfl⟩

/-- A free of a non-null pointer either aborts with the lock held and nothing
else changed, or clears the entry that holds the pointer. -/
theorem heapFree_cases
    (ran : heapFree (some tracker) memory (some user) = some (after, memoryAfter, status)) :
    tracker.mutex = false ∧
    ((getCnd status = Cnd.abort.raw ∧ after = some { tracker with mutex := true } ∧
        memoryAfter = memory ∧
        (tracker.active = 0 ∨ tracker.allocated < memory.sizeWord (user - 16) ∨
          some user ∉ tracker.ptr)) ∨
      ∃ table, getCnd status = Cnd.success.raw ∧ clearEntry user tracker.ptr = some table ∧
        tracker.active ≠ 0 ∧ memory.sizeWord (user - 16) ≤ tracker.allocated ∧
        after = some { mutex := false
                       active := tracker.active - 1
                       allocated := tracker.allocated - memory.sizeWord (user - 16)
                       ptr := table } ∧
        memoryAfter = { sizeWord := Function.update memory.sizeWord (user - 16) 0
                        blocks := memory.blocks.filter (·.start ≠ user - 16) }) := by
  simp only [heapFree] at ran
  split at ran
  · cases ran
  · rename_i free
    refine ⟨by simpa using free, ?_⟩
    split at ran
    · rename_i refused
      simp only [Option.some.injEq, Prod.mk.injEq] at ran
      obtain ⟨rfl, rfl, rfl⟩ := ran
      exact Or.inl ⟨by simp, rfl, rfl, refused.imp_right Or.inl⟩
    · rename_i accepted
      rw [not_or, Nat.not_lt] at accepted
      cases search : clearEntry user tracker.ptr with
      | none =>
        simp only [search, Option.some.injEq, Prod.mk.injEq] at ran
        obtain ⟨rfl, rfl, rfl⟩ := ran
        exact Or.inl ⟨by simp, rfl, rfl, Or.inr (Or.inr (clearEntry_none.mp search))⟩
      | some table =>
        simp only [search, Option.some.injEq, Prod.mk.injEq] at ran
        obtain ⟨rfl, rfl, rfl⟩ := ran
        exact Or.inr ⟨table, by simp, rfl, accepted.1, accepted.2, rfl, rfl⟩

/-- What a free of a non-null pointer leaves, by what it returns. -/
inductive Freed (tracker : HeapTracker) (memory : Memory) (user : Nat) :
    HeapTracker → Memory → Status → Prop
  | refused (failed : getCnd status ≠ Cnd.success.raw)
      (why : tracker.active = 0 ∨ tracker.allocated < memory.sizeWord (user - 16) ∨
        some user ∉ tracker.ptr) :
      Freed tracker memory user { tracker with mutex := true } memory status
  | cleared (success : getCnd status = Cnd.success.raw) (before after : List (Option Nat))
      (table : tracker.ptr = before ++ some user :: after) :
      Freed tracker memory user
        { mutex := false
          active := tracker.active - 1
          allocated := tracker.allocated - memory.sizeWord (user - 16)
          ptr := before ++ none :: after }
        { sizeWord := Function.update memory.sizeWord (user - 16) 0
          blocks := memory.blocks.filter (·.start ≠ user - 16) }
        status

theorem heapFree_freed
    (ran : heapFree (some tracker) memory (some user) = some (some after, memoryAfter, status)) :
    tracker.mutex = false ∧ Freed tracker memory user after memoryAfter status := by
  obtain ⟨unlocked, ⟨abort, locked, rfl, why⟩ | ⟨table, success, search, _, _, cleared, rfl⟩⟩ :=
    heapFree_cases ran
  · cases locked
    have unsuccessful : Cnd.abort.raw ≠ Cnd.success.raw := by decide
    exact ⟨unlocked, .refused (abort ▸ unsuccessful) why⟩
  · cases cleared
    obtain ⟨before, rest, split_, _, rfl⟩ := clearEntry_some search
    exact ⟨unlocked, .cleared success before rest split_⟩

end ShapeQuake.Heap
