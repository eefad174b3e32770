import ShapeQuake.ReactorPasses
import ShapeQuake.ReactorRefinement

/-! Whole runs of the two models of the reactor. What the worker's turns and each `enqueue`
that stores its task do one call after the other is among what they do when their steps may
interleave. -/
namespace ShapeQuake.ReactorSerial
open Library.Runs Allocator Reactor ReactorRefinement
open ReactorPasses (Started MallocKeeps)

/-- The worker at the index is the one of the interleaved machine, which waits, and both
have made the same calls. -/
structure Mirrors (index : Int) (serial : ReactorPasses.State) (state : ReactorRaces.State) : Prop where
  address : serial.pool.address = state.pool
  worker : ∃ self, serial.pool.workerAt index = some self ∧ self.address = state.worker ∧
    self.localQueues = some state.arena ∧ self.sem = state.sem ∧ self.shutdown = false
  waiting : state.place = .waiting
  calls : serial.calls = state.calls

/-- An `enqueue` that stores its task is its three steps. -/
theorem enqueue_mirrored (mirrors : Mirrors index serial state)
    (taken : ReactorPasses.step index serial (.enqueue request malloc) = some next) :
    ∃ steps after, exec ReactorRaces.step state steps = some after ∧ Mirrors index next after := by
  obtain ⟨self, held, own, queues, sem, running⟩ := mirrors.worker
  simp only [ReactorPasses.step] at taken
  split at taken
  case isFalse => cases taken
  case isTrue keeps =>
    simp only [MallocKeeps, held, Option.bind_some, queues] at keeps
    split at taken
    case h_2 => cases taken
    case h_1 pool outcome =>
      obtain rfl := Option.some.inj taken
      obtain ⟨valid, arena, slot, allocated, address, changed⟩ := enqueue_cases held queues outcome
      obtain ⟨callers, ran⟩ := steps_alone_are_enqueue valid keeps allocated
      refine ⟨_, _, ran, address.trans mirrors.address, ⟨_, changed, own, ?_, ?_, running⟩,
        mirrors.waiting, mirrors.calls⟩
      · simp only [Worker.queued, mirrors.address, own]
      · simp only [Worker.queued, sem]

private theorem turn_keeps (served : turn worker = .serves next calls) :
    next.address = worker.address ∧ worker.shutdown = false ∧ next.shutdown = false := by
  unfold turn at served
  split at served
  · cases served
  · simp only at served
    split at served
    · cases served
    · rename_i running
      split at served
      · cases served
      · split at served
        · cases served
        · cases served
          exact ⟨rfl, by simpa using running, by simpa using running⟩

/-- A turn that serves is a pass. -/
theorem turn_mirrored (mirrors : Mirrors index serial state)
    (taken : ReactorPasses.step index serial .turn = some next) :
    ∃ steps after, exec ReactorRaces.step state steps = some after ∧ Mirrors index next after := by
  obtain ⟨self, held, own, queues, sem, running⟩ := mirrors.worker
  obtain ⟨workers, array, here⟩ := Option.bind_eq_some_iff.mp held
  simp only [ReactorPasses.step, array, here, Option.map_some] at taken
  split at taken
  case h_2 => cases taken
  case h_1 worker calls served =>
    obtain rfl := Option.some.inj taken
    have turned := Option.some.inj served
    obtain ⟨address, _, stays⟩ := turn_keeps turned
    have self_eq : self = ⟨state.worker, some state.arena, state.sem, self.isSleeping, false⟩ := by
      rw [← own, ← queues, ← sem, ← running]
    rw [self_eq] at turned
    obtain ⟨arena, callers, emptied, steps, passed⟩ := pass_alone_is_turn mirrors.waiting turned
    refine ⟨_, _, passed, mirrors.address, ⟨worker, ?_, address.trans own, emptied, rfl, stays⟩,
      mirrors.waiting, ?_⟩
    · exact setWorker_workerAt serial.pool workers index worker
    · simp only [mirrors.calls]

/-- Whatever is enqueued, each task stored, and however often the worker turns, one call
after the other, is a run of the interleaved machine that ends in the same arena, with the
same posts left and with the same calls made in the same order. -/
theorem calls_are_interleavings (started : Started pool index worker)
    (ran : exec (ReactorPasses.step index) ⟨pool, []⟩ events = some final) :
    ∃ arena steps state, (pool.workerAt index).bind Worker.localQueues = some arena ∧
      exec ReactorRaces.step (ReactorRaces.start pool.address worker arena) steps = some state ∧
      Mirrors index final state := by
  have runs : ∀ {serial state}, Mirrors index serial state →
      exec (ReactorPasses.step index) serial events = some final →
      ∃ steps after, exec ReactorRaces.step state steps = some after ∧ Mirrors index final after := by
    clear ran
    induction events with
    | nil =>
      intro serial state mirrors ran
      cases ran
      exact ⟨[], state, rfl, mirrors⟩
    | cons event rest ih =>
      intro serial state mirrors ran
      obtain ⟨next, taken, later⟩ := exec_cons.mp ran
      have moved : ∃ steps after, exec ReactorRaces.step state steps = some after ∧
          Mirrors index next after := by
        cases event with
        | enqueue request malloc => exact enqueue_mirrored mirrors taken
        | turn => exact turn_mirrored mirrors taken
      obtain ⟨first, middle, early, there⟩ := moved
      obtain ⟨second, after, late, ended⟩ := ih there later
      exact ⟨first ++ second, after, exec_append.mpr ⟨middle, early, late⟩, ended⟩
  obtain ⟨memory, _, held⟩ := started
  have queues := ReactorSlots.arenaInit_fresh memory
  have mirrors : Mirrors index ⟨pool, []⟩
      (ReactorRaces.start pool.address worker (ReactorSlots.freshArena memory)) :=
    ⟨rfl, ⟨_, held, rfl, queues, rfl, rfl⟩, rfl, rfl⟩
  obtain ⟨steps, state, walked, there⟩ := runs mirrors ran
  refine ⟨ReactorSlots.freshArena memory, steps, state, ?_, walked, there⟩
  rw [held]
  exact queues

/-- Two tasks enqueued and a turn, of a worker that `init_worker` made. -/
theorem two_tasks_interleaved :
    ∃ pool final, exec (ReactorPasses.step 0) ⟨pool, []⟩
        [.enqueue ⟨false, 3, 1, 5, 1, 7, 0, 0, 0⟩ none, .enqueue ⟨true, 4, 1, 5, 1, 8, 0, 0, 0⟩ none, .turn] =
          some final ∧
      ∃ arena steps state, (pool.workerAt 0).bind Worker.localQueues = some arena ∧
        exec ReactorRaces.step (ReactorRaces.start pool.address 2 arena) steps = some state ∧
        Mirrors 0 final state := by
  let pool : Pool := ⟨1, some (Function.update (fun _ => none) 0 (some (initWorker 2 true (some 4096))))⟩
  have returns : (exec (ReactorPasses.step 0) ⟨pool, []⟩
      [.enqueue ⟨false, 3, 1, 5, 1, 7, 0, 0, 0⟩ none, .enqueue ⟨true, 4, 1, 5, 1, 8, 0, 0, 0⟩ none,
        .turn]).isSome = true := by decide
  obtain ⟨final, ran⟩ := Option.isSome_iff_exists.mp returns
  have started : Started pool 0 2 := ⟨4096, by decide, rfl⟩
  exact ⟨pool, final, ran, calls_are_interleavings started ran⟩

end ShapeQuake.ReactorSerial
