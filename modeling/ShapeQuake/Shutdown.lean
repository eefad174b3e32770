import ShapeQuake.ArenaCalls
import ShapeQuake.Heap
import ShapeQuake.ReactorRaces

/-! `destroy_workers` against the workers it stops: any number of threads, each
somewhere in `start_working`, and one thread that flags, wakes, waits, empties,
joins and frees them one after the other. All acknowledgements arrive at one
semaphore, so what a single one means only the count of all of them tells. -/
namespace ShapeQuake.Shutdown
open Library.Runs Allocator Reactor Heap

/-- `MIN_WORKER_ID`. -/
def minWorkerId : Int := 0

/-- The queue of a worker: `arena_init` had no memory for it, or it is there, or
`arena_destroy` has freed it. -/
inductive Queue where
  | missing
  | live (arena : Arena)
  | destroyed

/-- Where a thread is in `start_working`: before its check of the id, about to
read `shutdown` at the top of the loop, at `sem_wait`, about to read `shutdown`
behind it, walking over its queue, behind the loop, about to post `ack_sem`,
about to return, or gone. -/
inductive Place where
  | entering
  | top
  | sleeping
  | woken
  | walking (at_ : ReactorRaces.Place)
  | left
  | posting
  | returning
  | ended
  deriving DecidableEq, Repr

/-- `worker_t` and the thread it was made for. What follows the place is not the
program's: whether `destroy_workers` has posted the worker's semaphore, how
often the worker has posted `ack_sem`, and whether its `worker_t` is freed. -/
structure Thread where
  address : Nat
  id : Int
  queue : Queue
  sem : Nat
  isSleeping : Bool
  shutdown : Bool
  place : Place
  notified : Bool
  posts : Nat
  freed : Bool

/-- Where the caller of `destroy_workers` is: before it, in its first loop about
to flag or to wake a worker, in its loop of waits, in its last loop about to
destroy a queue, to join a thread or to free a `worker_t`, or behind it. It has
refused when the tracker is not healthy. -/
inductive Destroyer where
  | before
  | flagging (index : Nat)
  | waking (index : Nat)
  | waiting (index : Nat)
  | emptying (index : Nat)
  | joining (index : Nat)
  | freeing (index : Nat)
  | refused
  | returned
  deriving DecidableEq, Repr

/-- The array of workers with its address, as long as `worker_count` says, the
rest of what `destroy_workers` uses, and where its caller is. -/
structure System where
  workersAt : Nat
  workers : List (Option Thread)
  ackSem : Nat
  tracker : HeapTracker
  memory : Memory
  destroyer : Destroyer

/-- A worker takes a step, `destroy_workers` does, or someone enqueues: the
worker's arena has changed and its semaphore may have been posted. -/
inductive Event where
  | work (index : Nat)
  | destroy
  | enqueued (index : Nat) (arena : Arena) (posted : Bool)

/-- The thread of a worker, if there is a worker at this index. -/
def System.at_ (system : System) (index : Nat) : Option Thread := (system.workers[index]?).join

/-- Replaces the thread at an index. -/
def System.put (system : System) (index : Nat) (thread : Thread) : System :=
  { system with workers := system.workers.set index (some thread) }

/-- One step of a walk over the queue, the calls of the tasks apart. -/
def walkStep (arena : Arena) : ReactorRaces.Place → Option (Arena × ReactorRaces.Place)
  | .waiting => none
  | .atBlock index => arena.blocks.chain[index]?.map fun block =>
    (arena, if block.isWiped then .leaving index else .reading index 0)
  | .reading index readOffset => arena.blocks.chain[index]?.map fun block =>
    (arena, if readOffset < block.offset then .running index readOffset else .leaving index)
  | .running index readOffset => arena.blocks.chain[index]?.map fun _ =>
    (arena, .reading index (readOffset + slotSize))
  | .leaving index =>
    some (arena, if index + 1 < arena.blocks.chain.length then .atBlock (index + 1) else .resetting)
  | .resetting => (arenaReset (some arena)).bind fun arena => arena.map fun arena => (arena, .waiting)

/-- The place in the loop after a step of the walk: a walk that has reset the
arena is over. -/
def afterWalk : ReactorRaces.Place → Place
  | .waiting => .top
  | at_ => .walking at_

/-- One step of `start_working`, and whether it posts `ack_sem`. -/
def threadStep (thread : Thread) : Option (Thread × Bool) :=
  match thread.place with
  | .entering =>
    some ({ thread with place := if thread.id < minWorkerId then .posting else .top }, false)
  | .top =>
    some (if thread.shutdown then { thread with place := .left }
      else { thread with isSleeping := true, place := .sleeping }, false)
  | .sleeping =>
    if thread.sem = 0 then none
    else some ({ thread with sem := thread.sem - 1, place := .woken }, false)
  | .woken =>
    some ({ thread with
        isSleeping := false
        place := if thread.shutdown then .left else .walking (.atBlock 0) }, false)
  | .walking at_ =>
    match thread.queue with
    | .live arena => (walkStep arena at_).map fun (arena, at_) =>
      ({ thread with queue := .live arena, place := afterWalk at_ }, false)
    -- the queue is read through a null pointer
    | .missing | .destroyed => none
  | .left => some ({ thread with isSleeping := true, place := .posting }, false)
  | .posting => some ({ thread with place := .returning, posts := thread.posts + 1 }, true)
  | .returning => some ({ thread with place := .ended }, false)
  | .ended => none

/-- One step of `destroy_workers`. -/
def destroyStep (system : System) : Option System :=
  match system.destroyer with
  | .before =>
    some { system with
      destroyer := if unhealthy (trackingHealth (some system.tracker)) then .refused
        else .flagging 0 }
  | .flagging index =>
    match system.workers[index]? with
    | none => some { system with destroyer := .waiting 0 }
    | some none => some { system with destroyer := .flagging (index + 1) }
    | some (some w) =>
      some { system.put index { w with shutdown := true } with destroyer := .waking index }
  | .waking index =>
    (system.at_ index).map fun w =>
      { system.put index { w with sem := w.sem + 1, notified := true } with
        destroyer := .flagging (index + 1) }
  | .waiting index =>
    match system.workers[index]? with
    | none => some { system with destroyer := .emptying 0 }
    | some none => some { system with destroyer := .waiting (index + 1) }
    | some (some _) =>
      if system.ackSem = 0 then none
      else some { system with ackSem := system.ackSem - 1, destroyer := .waiting (index + 1) }
  | .emptying index =>
    match system.workers[index]? with
    | none =>
      (heapFree (some system.tracker) system.memory (some system.workersAt)).bind
        fun (tracker, memory, _) =>
          tracker.map fun tracker => { system with tracker, memory, destroyer := .returned }
    | some none => some { system with destroyer := .emptying (index + 1) }
    | some (some w) =>
      match w.queue with
      | .live arena => (arenaDestroy (some arena) true).map fun (arena, _) =>
        { system.put index { w with queue := arena.elim .destroyed .live } with
          destroyer := .joining index }
      -- `is_reset` is read through a null pointer
      | .missing | .destroyed => none
  | .joining index =>
    (system.at_ index).bind fun w =>
      if w.place = .ended then some { system with destroyer := .freeing index } else none
  | .freeing index =>
    (system.at_ index).bind fun w =>
      (heapFree (some system.tracker) system.memory (some w.address)).bind fun (tracker, memory, st) =>
        tracker.map fun tracker =>
          { system.put index { w with freed := getCnd st = Cnd.success.raw } with
            tracker, memory, destroyer := .emptying (index + 1) }
  | .refused | .returned => none

/-- One step. Whoever enqueues does so while the worker's queue is there, and
blocks are only ever added to it. -/
def step (system : System) : Event → Option System
  | .work index =>
    (system.at_ index).bind fun thread => (threadStep thread).map fun (thread, posts) =>
      let system := system.put index thread
      { system with ackSem := system.ackSem + posts.toNat }
  | .destroy => destroyStep system
  | .enqueued index arena posted =>
    (system.at_ index).bind fun thread =>
      match thread.queue with
      | .live old =>
        if old.blocks.chain.length ≤ arena.blocks.chain.length then
          some (system.put index
            { thread with queue := .live arena, sem := thread.sem + posted.toNat })
        else none
      | .missing | .destroyed => none

/-- The walk is the one of a worker that callers meet. -/
theorem walkStep_workStep (walking : state.place ≠ .waiting) :
    (ReactorRaces.workStep state).map (fun next => (next.arena, next.place)) =
      walkStep state.arena state.place := by
  unfold ReactorRaces.workStep walkStep
  cases place : state.place with
  | waiting => exact absurd place walking
  | atBlock index => simp [Function.comp_def]
  | reading index readOffset => simp [Function.comp_def]
  | running index readOffset => simp [Function.comp_def]
  | leaving index => rfl
  | resetting => simp [Option.map_bind, Function.comp_def]

/-! ## The promise -/

/-- The walk is at a block of the chain. -/
def WalksInside (arena : Arena) : ReactorRaces.Place → Prop
  | .waiting => False
  | .atBlock index | .reading index _ | .running index _ | .leaving index =>
    index < arena.blocks.chain.length
  | .resetting => True

/-- A thread that nobody has told to stop, anywhere before or in its loop. -/
structure Running (thread : Thread) : Prop where
  untold : thread.shutdown = false ∧ thread.notified = false
  unposted : thread.posts = 0
  held : thread.freed = false ∧ thread.queue ≠ .destroyed
  place : thread.place = .entering ∨ thread.place = .top ∨ thread.place = .sleeping ∨
    thread.place = .woken ∨
    ∃ at_ arena, thread.place = .walking at_ ∧ thread.queue = .live arena ∧ WalksInside arena at_

/-- All threads of a pool run, and nobody has called `destroy_workers` yet. -/
structure Started (system : System) : Prop where
  before : system.destroyer = .before
  quiet : system.ackSem = 0
  running : ∀ index thread, system.at_ index = some thread → Running thread

/-- `destroy_workers` has passed its loop of waits. -/
def PastWaits : Destroyer → Prop
  | .emptying _ | .joining _ | .freeing _ | .returned => True
  | .before | .flagging _ | .waking _ | .waiting _ | .refused => False

/-- The thread has left its loop for good and posted. -/
def Acknowledged (thread : Thread) : Prop :=
  thread.posts = 1 ∧ (thread.place = .returning ∨ thread.place = .ended)

/-- The next step of the thread reads its queue. -/
def UsesQueue (thread : Thread) : Prop := ∃ at_, thread.place = .walking at_

/-- A thread that cannot go on: its queue is missing, or it is to reset an arena
whose lock was left held. -/
def Halted (thread : Thread) : Prop :=
  ∃ at_, thread.place = .walking at_ ∧ (thread.queue = .missing ∨
    ∃ arena, thread.queue = .live arena ∧ at_ = .resetting ∧ arena.mutex = true)

/-- A step of a worker or of `destroy_workers`, not of someone who enqueues. -/
def OwnStep (event : Event) : Prop := event = .destroy ∨ ∃ index, event = .work index

/-- Neither a worker nor `destroy_workers` can take a step. -/
def Stuck (system : System) : Prop :=
  step system .destroy = none ∧ ∀ index, step system (.work index) = none

/-- What the shutdown promises in every state, whatever blocks: nobody posts
twice, everybody has posted and left when the waits are over, nobody reads a
queue that is destroyed or has anything left to do when its `worker_t` is freed. -/
structure Safe (system : System) : Prop where
  once : ∀ index thread, system.at_ index = some thread → thread.posts ≤ 1
  waited : PastWaits system.destroyer → ∀ index thread, system.at_ index = some thread →
    Acknowledged thread
  queues : ∀ index thread, system.at_ index = some thread → UsesQueue thread →
    thread.queue ≠ .destroyed
  workers : ∀ index thread, system.at_ index = some thread → thread.freed = true →
    thread.place = .ended

/-- And it gets that far: where nobody can go on the waits are over, so that
every worker has posted. -/
structure Orderly (system : System) : Prop extends Safe system where
  finishes : Stuck system → PastWaits system.destroyer

/-- Every worker has its queue, and nobody holds the lock of one. -/
def Equipped (system : System) : Prop :=
  ∀ index thread, system.at_ index = some thread →
    ∃ arena, thread.queue = .live arena ∧ arena.mutex = false

/-- Whoever enqueues gives the lock of the queue back, and `destroy_workers`
finds the tracker healthy. -/
def Unfailing (system : System) : Event → Prop
  | .enqueued _ arena _ => arena.mutex = false
  | .destroy => system.destroyer = .before → unhealthy (trackingHealth (some system.tracker)) = false
  | .work _ => True

instance (system : System) : DecidablePred (Unfailing system)
  | .enqueued _ arena _ => inferInstanceAs (Decidable (arena.mutex = false))
  | .destroy => inferInstanceAs (Decidable (_ → _))
  | .work _ => isTrue trivial

private theorem grown_length {chain after : List ArenaBlock}
    (grown : ArenaCalls.Grown malloc (ArenaCalls.names chain) (ArenaCalls.names after)) :
    chain.length ≤ after.length := by
  rcases grown with same | ⟨_, _, _, _, more⟩
  · simpa [ArenaCalls.names] using (congrArg List.length same).ge
  · have length := congrArg List.length more
    simp only [ArenaCalls.names, List.length_map, List.length_append, List.length_singleton] at length
    omega

/-- An `arena_alloc` for a task is something that can happen to a queue, and the
lock comes back from it unless it needs a block and there is no memory for one. -/
theorem enqueue_possible {system : System} (held : system.at_ index = some thread)
    (queue : thread.queue = .live arena)
    (ran : arenaAlloc arena sizeofTask malloc = some (next, pointer)) (posted : Bool) :
    (step system (.enqueued index next posted)).isSome ∧
      (Unfailing system (.enqueued index next posted) ↔
        ¬ (ArenaExhaustion.NeedsBlock arena sizeofTask ∧ malloc = none)) := by
  obtain ⟨unlocked, blocks, room, loop, outcome⟩ := arenaAllocateRaw_cases ran
  have grown := ArenaCalls.findRoom_grown (align sizeofTask) arena.blockSize malloc arena.blocks.before
    arena.blocks.current arena.blocks.after
  rw [loop] at grown
  have longer : arena.blocks.chain.length ≤ blocks.chain.length := grown_length grown
  have possible : ∀ after : Arena, arena.blocks.chain.length ≤ after.blocks.chain.length →
      (step system (.enqueued index after posted)).isSome := by
    intro after longer
    simp [step, held, queue, longer]
  rcases outcome with ⟨rfl, _, rfl⟩ | ⟨rfl, _, rfl⟩
  · obtain ⟨refused, full, rest⟩ := ArenaExhaustion.findRoom_refused loop
    exact ⟨possible _ longer, iff_of_false Bool.noConfusion (not_not_intro ⟨⟨full, rest⟩, refused⟩)⟩
  · refine ⟨possible _ ?_, iff_of_true unlocked ?_⟩
    · simpa [Blocks.chain] using longer
    · rintro ⟨⟨full, rest⟩, rfl⟩
      obtain ⟨_, ran, _⟩ := ArenaExhaustion.findRoom_exhausted (align sizeofTask) arena.blockSize
        arena.blocks.before full rest
      cases congrArg Prod.snd (loop.symm.trans ran)

end ShapeQuake.Shutdown
