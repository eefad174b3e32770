import ShapeQuake.HeapTrackerProofs

/-! The lock of a shared tracker. `heap_alloc` unlocks on every path, and
`heap_free` on its successful one, but both abort exits behind the lock keep
it, after which no call that needs the lock returns. -/
namespace ShapeQuake.HeapLock
open Heap Library.Runs
open HeapTrackerProofs (Call)

/-- A tracker and its memory, whatever their history. -/
structure State where
  tracker : HeapTracker
  memory : Memory

/-- One call with any argument and any answer of `malloc`. It has no successor
when it waits for the lock for ever. -/
def step (state : State) : Call → Option State
  | .alloc size malloc =>
    match heapAlloc (some state.tracker) state.memory size malloc with
    | some (some tracker, memory, _) => some ⟨tracker, memory⟩
    | _ => none
  | .free ptr =>
    match heapFree (some state.tracker) state.memory ptr with
    | some (some tracker, memory, _) => some ⟨tracker, memory⟩
    | _ => none

/-- Whatever is called next, it can take the lock and return. -/
def NextReturns (state : State) : Prop :=
  ∀ call, (step state call).isSome = true

/-- A null allocation and an aborted free give everything back as it was. -/
def LeavesTracker (tracker : Option HeapTracker) (memory : Memory) : Call → Prop
  | .alloc size malloc =>
    ∀ after memoryAfter, heapAlloc tracker memory size malloc = some (after, memoryAfter, none) →
      after = tracker ∧ memoryAfter = memory
  | .free ptr =>
    ∀ after memoryAfter status, heapFree tracker memory ptr = some (after, memoryAfter, status) →
      getCnd status = Cnd.abort.raw → after = tracker ∧ memoryAfter = memory

/-- The free gets past both checks behind the lock. -/
def Accepted (memory : Memory) (user : Nat) (tracker : HeapTracker) : Prop :=
  tracker.active ≠ 0 ∧ memory.sizeWord (user - 16) ≤ tracker.allocated ∧ some user ∈ tracker.ptr

/-- Every call except a free that takes the lock and is not accepted. -/
def Harmless (tracker : Option HeapTracker) (memory : Memory) : Call → Prop
  | .alloc _ _ => True
  | .free none => True
  | .free (some user) => ∀ shared ∈ tracker, shared.mutex = true ∨ Accepted memory user shared

/-! ## Single calls -/

private theorem null_alloc_leaves (tracker : Option HeapTracker) (memory : Memory) :
    LeavesTracker tracker memory (.alloc size malloc) := by
  intro after memoryAfter ran
  cases tracker with
  | none =>
    simp only [heapAlloc, Option.some.injEq, Prod.mk.injEq] at ran
    exact ⟨ran.1.symm, ran.2.1.symm⟩
  | some tracker =>
    obtain ⟨unlocked, ⟨_, rfl, rfl, _⟩ | ⟨raw, _, _, _, given, _⟩⟩ := heapAlloc_cases ran
    · exact ⟨by rw [← unlocked], rfl⟩
    · cases given

/-- A free that takes the lock is accepted, or it aborts and keeps the lock. -/
private theorem free_decided (memory : Memory) (user : Nat) (unlocked : tracker.mutex = false) :
    (Accepted memory user tracker ∧ ∃ after memoryAfter,
        heapFree (some tracker) memory (some user) =
          some (some after, memoryAfter, asStatus .heap .success .free) ∧ after.mutex = false) ∨
      (¬ Accepted memory user tracker ∧ ∃ status, getCnd status = Cnd.abort.raw ∧
        heapFree (some tracker) memory (some user) =
          some (some { tracker with mutex := true }, memory, status)) := by
  by_cases refused : tracker.active = 0 ∨ tracker.allocated < memory.sizeWord (user - 16)
  · refine .inr ⟨fun accepted => ?_, asStatus .heap .abort .calculation, by simp, ?_⟩
    · obtain ⟨active, covered, _⟩ := accepted
      omega
    · simp [heapFree, unlocked, refused]
  · have counted : tracker.active ≠ 0 ∧ memory.sizeWord (user - 16) ≤ tracker.allocated := by omega
    cases search : clearEntry user tracker.ptr with
    | none =>
      have absent := clearEntry_none.mp search
      refine .inr ⟨fun accepted => absent accepted.2.2, asStatus .heap .abort .notFound, by simp, ?_⟩
      simp [heapFree, unlocked, refused, search]
    | some table =>
      have present : some user ∈ tracker.ptr := by
        by_contra absent
        rw [clearEntry_none.mpr absent] at search
        cases search
      refine .inl ⟨⟨counted.1, counted.2, present⟩, ?_⟩
      simp [heapFree, unlocked, refused, search]

private theorem free_leaves_iff (tracker : Option HeapTracker) (memory : Memory) (ptr : Option Nat) :
    LeavesTracker tracker memory (.free ptr) ↔ Harmless tracker memory (.free ptr) := by
  cases ptr with
  | none =>
    refine iff_of_true (fun after memoryAfter status ran aborted => ?_) trivial
    simp only [heapFree, Option.some.injEq, Prod.mk.injEq] at ran
    exact ⟨ran.1.symm, ran.2.1.symm⟩
  | some user =>
    cases tracker with
    | none =>
      refine iff_of_true (fun after memoryAfter status ran aborted => ?_) (by simp [Harmless])
      simp only [heapFree, Option.some.injEq, Prod.mk.injEq] at ran
      exact ⟨ran.1.symm, ran.2.1.symm⟩
    | some tracker =>
      cases locked : tracker.mutex with
      | true =>
        -- the call waits, so there is no status to speak of
        refine iff_of_true (fun after memoryAfter status ran aborted => ?_) fun shared same => ?_
        · simp [heapFree, locked] at ran
        · obtain rfl := Option.some.inj same
          exact .inl locked
      | false =>
        obtain ⟨accepted, after, memoryAfter, success, _⟩ | ⟨refused, status, aborted, kept⟩ :=
          free_decided memory user locked
        · refine iff_of_true (fun other memoryOther status ran aborted => ?_) fun shared same => ?_
          · rw [success] at ran
            obtain ⟨rfl, rfl, rfl⟩ := Prod.mk.injEq .. ▸ Option.some.inj ran
            exact absurd aborted (getCnd_ne (by decide))
          · obtain rfl := Option.some.inj same
            exact .inr accepted
        · refine iff_of_false (fun leaves => ?_) fun harmless => ?_
          · have same := Option.some.inj (leaves _ _ _ kept aborted).1
            have held : tracker.mutex = true := by rw [← same]
            exact Bool.noConfusion (locked.symm.trans held)
          · obtain waits | accepted := harmless tracker rfl
            · exact Bool.noConfusion (locked.symm.trans waits)
            · exact refused accepted

/-! ## Runs -/

private theorem next_returns_iff : NextReturns state ↔ state.tracker.mutex = false := by
  constructor
  · intro returns
    have some_ := returns (.alloc 0 none)
    by_contra locked
    simp [step, heapAlloc, locked] at some_
  · intro unlocked call
    cases call with
    | alloc size malloc =>
      by_cases refused : size < 1 ∨ maxHeaps ≤ state.tracker.active
      · rcases refused with empty | full
        · simp [step, heapAlloc, internalHeapAlloc, unlocked, empty]
        · by_cases empty : size < 1 <;>
            simp [step, heapAlloc, internalHeapAlloc, unlocked, empty, full]
      · rw [not_or] at refused
        cases malloc <;> simp [step, heapAlloc, internalHeapAlloc, unlocked, refused]
    | free ptr =>
      cases ptr with
      | none => rfl
      | some user =>
        obtain ⟨_, after, memoryAfter, ran, _⟩ | ⟨_, status, _, ran⟩ :=
          free_decided state.memory user unlocked <;> simp [step, ran]

private theorem step_keeps_lock_iff (unlocked : state.tracker.mutex = false)
    (taken : step state call = some next) :
    next.tracker.mutex = false ↔ Harmless (some state.tracker) state.memory call := by
  cases call with
  | alloc size malloc =>
    refine iff_of_true ?_ trivial
    simp only [step] at taken
    split at taken
    · rename_i tracker memory ptr ran
      obtain rfl := Option.some.inj taken
      obtain ⟨_, ⟨_, after, _⟩ | ⟨raw, _, _, _, _, after, _⟩⟩ := heapAlloc_cases ran <;>
        exact Option.some.inj after ▸ rfl
    · cases taken
  | free ptr =>
    cases ptr with
    | none =>
      obtain rfl := Option.some.inj taken
      exact iff_of_true unlocked trivial
    | some user =>
      obtain ⟨accepted, after, memoryAfter, ran, free⟩ | ⟨refused, status, _, ran⟩ :=
        free_decided state.memory user unlocked
      · simp only [step, ran, Option.some.injEq] at taken
        subst taken
        refine iff_of_true free fun shared same => ?_
        obtain rfl := Option.some.inj same
        exact .inr accepted
      · simp only [step, ran, Option.some.injEq] at taken
        subst taken
        refine iff_of_false (fun free => Bool.noConfusion free) fun harmless => ?_
        obtain waits | accepted := harmless _ rfl
        · exact Bool.noConfusion (unlocked.symm.trans waits)
        · exact refused accepted

/-- A failing call leaves everything as it was, lock included, exactly if it is
no refused free; and the next call can take the lock after every call of a run
exactly if it could at first and no call of the run was a refused free. -/
theorem lock_released_iff_harmless (tracker : Option HeapTracker) (memory : Memory) (call : Call)
    (state : State) (calls : List Call) :
    (LeavesTracker tracker memory call ↔ Harmless tracker memory call) ∧
      (Throughout step NextReturns state calls ↔
        NextReturns state ∧
          EachStep step (fun state call => Harmless (some state.tracker) state.memory call)
            state calls) := by
  constructor
  · cases call with
    | alloc size malloc => exact iff_of_true (null_alloc_leaves tracker memory) trivial
    | free ptr => exact free_leaves_iff tracker memory ptr
  · by_cases start : NextReturns state
    · rw [and_iff_right start]
      have kept : ∀ state call next, NextReturns state → NextReturns state → NextReturns next →
          step state call = some next → NextReturns next :=
        fun _ _ _ _ _ returns _ => returns
      exact throughout_iff_each_step kept (fun _ _ _ returns _ taken =>
        next_returns_iff.trans (step_keeps_lock_iff (next_returns_iff.mp returns) taken)) start start
    · exact iff_of_false (fun held => start (throughout_start held)) fun held => start held.1

/-- A block of another tracker given to one that tracks nothing: the free
aborts with the lock held, and the next call that needs it waits for ever. -/
theorem untracked_free_keeps_lock :
    ¬ LeavesTracker (some zeroTracker) ⟨fun _ => 16, [⟨4096, 32⟩]⟩ (.free (some 4112)) ∧
      NextReturns ⟨zeroTracker, ⟨fun _ => 16, [⟨4096, 32⟩]⟩⟩ ∧
      ¬ Throughout step NextReturns ⟨zeroTracker, ⟨fun _ => 16, [⟨4096, 32⟩]⟩⟩
        [.free (some 4112)] := by
  have harmful : ¬ Harmless (some zeroTracker) ⟨fun _ => 16, [⟨4096, 32⟩]⟩ (.free (some 4112)) := by
    intro harmless
    obtain waits | accepted := harmless zeroTracker rfl
    · exact Bool.noConfusion waits
    · exact accepted.1 rfl
  refine ⟨(free_leaves_iff _ _ _).not.mpr harmful, next_returns_iff.mpr rfl, fun held => ?_⟩
  have unlocked := next_returns_iff.mp (throughout_final held
    (show exec step _ _ = some ⟨{ zeroTracker with mutex := true }, _⟩ from rfl))
  exact Bool.noConfusion unlocked

end ShapeQuake.HeapLock
