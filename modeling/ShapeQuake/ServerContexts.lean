import ShapeQuake.Allocator
import ShapeQuake.HeapTrackerProofs

/-! Server contexts, made and unmade by `sq_server_create` and `sq_server_destroy`
of `net.c`, whose memory comes from one static tracker. Each creation clears the
tracker's table again before it takes its own entry, so the table is right for as
long as a context is created only when none is live. Where the table of the database
cannot be made, the message about it is the last that the process does. -/
namespace ShapeQuake.ServerContexts
open Heap Allocator Library.Runs
open HeapTrackerProofs (Possible)

/-! ## The program -/

/-- `sq_socket_handle_t`. -/
structure SqSocketHandle where
  fd : Int
  isRunning : Bool

/-- `sq_db_context_t`. -/
structure SqDbContext where
  hDb : Option Nat
  isOpen : Bool
  arenaRecordCache : Option Arena
  isArenaReq : Bool

/-- `sq_server_context_t`. -/
structure SqServerContext where
  hSock : SqSocketHandle
  ctxDb : SqDbContext
  arena : Option Arena
  isArenaReq : Bool

/-- `sizeof(sq_server_context_t)`. -/
def sizeofSqServerContext : Nat := 56

/-- A context after the `memset`. -/
def zeroContext : SqServerContext := ⟨⟨0, false⟩, ⟨none, false, none, false⟩, none, false⟩

/-- How the calls inside one `sq_server_create` turn out: `malloc` for the
context, memory for either arena and for its first block, the handle when
`sqlite3_open` succeeds, and whether `sqlite3_exec` does. -/
structure Answers where
  context : Option Nat
  arenaRoom : Bool
  arenaBlock : Option Nat
  database : Option Nat
  cacheRoom : Bool
  cacheBlock : Option Nat
  tableMade : Bool

/-- What is given back or printed on the way. -/
inductive Effect where
  | closed (fd : Int)
  | sqliteClosed (handle : Option Nat)
  | cannotOpen
  | debug (status : Status)
  deriving DecidableEq, Repr

/-- A tracker and its memory behind a call, with what the call returns and does. -/
structure Created where
  tracker : Option HeapTracker
  memory : Memory
  context : Option (Nat × SqServerContext)
  effects : List Effect

/-- `heap_free(&static_tracker, ctx); return nullptr;`, which every failure exit
behind the allocation of the context ends with. -/
def giveUp (tracker : Option HeapTracker) (memory : Memory) (ctx : Nat) (effects : List Effect) :
    Option Created := do
  let (tracker, memory, _) ← heapFree tracker memory (some ctx)
  return ⟨tracker, memory, none, effects⟩

/-- `sq_server_create`. Where `sqlite3_exec` fails it does not come back from printing that,
and what it would clean up stays. -/
def sqServerCreate (tracker : Option HeapTracker) (memory : Memory) (dbPath : Option (List UInt8))
    (answers : Answers) : Option Created :=
  match dbPath with
  | none => some ⟨tracker, memory, none, []⟩
  | some _ => do
    let tracker := trackerInit tracker
    let (tracker, memory, ctx) ← heapAlloc tracker memory sizeofSqServerContext answers.context
    match ctx with
    | none => return ⟨tracker, memory, none, []⟩
    | some ctx =>
      match arenaInit sizeArenaDefault answers.arenaRoom answers.arenaBlock with
      | none => giveUp tracker memory ctx []
      | some arena =>
        match answers.database with
        | none =>
          let _ ← arenaDestroy (some arena) true
          giveUp tracker memory ctx [.cannotOpen]
        | some handle =>
          match arenaInit sizeBlockDefault answers.cacheRoom answers.cacheBlock with
          | none =>
            let _ ← arenaDestroy (some arena) true
            giveUp tracker memory ctx [.sqliteClosed (some handle)]
          | some cache =>
            let (cache, _) ← arenaSetContainsDbConnection (some cache) true
            if answers.tableMade = false then
              let status := asStatus .db .fatal .connection
              let _ ← dbgmsg status
              let (cache, _) ← arenaSetContainsDbConnection cache false
              let _ ← arenaDestroy cache true
              let _ ← arenaDestroy (some arena) true
              giveUp tracker memory ctx
                [.debug status, .sqliteClosed (some handle)]
            else
              return ⟨tracker, memory, some (ctx,
                { zeroContext with
                  ctxDb := ⟨some handle, true, cache, true⟩
                  arena := some arena
                  isArenaReq := true }), []⟩

/-- `arena_destroy` where the arena is there and the flag asks for it. -/
def destroyIf (arena : Option Arena) (requested force : Bool) : Option (Option (Option Arena × Status)) :=
  if arena.isSome ∧ requested then (arenaDestroy arena force).map some else some none

/-- `sq_server_destroy`, of a pointer and the context there. -/
def sqServerDestroy (tracker : Option HeapTracker) (memory : Memory)
    (ctx : Option (Nat × SqServerContext)) (requireForceDestroy : Bool) : Option Created :=
  match ctx with
  | none => some ⟨tracker, memory, none, []⟩
  | some (user, ctx) => do
    let socket : List Effect :=
      if ctx.hSock.isRunning ∧ ctx.hSock.fd > -1 then [.closed ctx.hSock.fd] else []
    let open_ := ctx.ctxDb.isOpen ∧ ctx.ctxDb.hDb.isSome
    let database : List Effect := if open_ then [.sqliteClosed ctx.ctxDb.hDb] else []
    let unmarked : Option (Option Arena) :=
      if open_ ∧ ctx.ctxDb.arenaRecordCache.isSome then
        (arenaSetContainsDbConnection ctx.ctxDb.arenaRecordCache false).map Prod.fst
      else some ctx.ctxDb.arenaRecordCache
    let cache ← unmarked
    let _ ← destroyIf cache ctx.ctxDb.isArenaReq requireForceDestroy
    let _ ← destroyIf ctx.arena ctx.isArenaReq requireForceDestroy
    let (tracker, memory, _) ← heapFree tracker memory (some user)
    return ⟨tracker, memory, none, socket ++ database⟩

/-! ## Runs -/

/-- The static tracker with its memory, the contexts created and not destroyed, and whether
a creation has not come back. -/
structure State where
  tracker : HeapTracker
  memory : Memory
  live : List (Nat × SqServerContext)
  crashed : Bool

/-- The program before its first context. -/
def start (words : Nat → Nat) : State := ⟨zeroTracker, ⟨words, []⟩, [], false⟩

/-- A context is created, or a live one destroyed. -/
inductive Event where
  | create (dbPath : Option (List UInt8)) (answers : Answers)
  | destroy (user : Nat) (force : Bool)

/-- One call, when `malloc` answers as it may and what is destroyed is live. -/
def step (state : State) (event : Event) : Option State :=
  if state.crashed then none
  else
    match event with
    | .create dbPath answers =>
      if Possible state.memory (.alloc sizeofSqServerContext answers.context) then
        match sqServerCreate (some state.tracker) state.memory dbPath answers with
        | some ⟨some tracker, memory, context, _⟩ =>
          some { state with tracker, memory, live := context.toList ++ state.live }
        | some ⟨none, _, _, _⟩ => none
        | none => some { state with crashed := true }
      else none
    | .destroy user force =>
      match state.live.find? (·.1 = user) with
      | none => none
      | some context =>
        match sqServerDestroy (some state.tracker) state.memory (some context) force with
        | some ⟨some tracker, memory, _, _⟩ =>
          some { state with tracker, memory, live := state.live.filter (·.1 ≠ user) }
        | _ => none

/-- Every creation has come back, and the tracker tracks the live contexts and nothing else:
each has an entry of its own and a block, each can be destroyed and its free succeeds, and
the counters are zero when there is none. -/
structure TracksLive (state : State) : Prop where
  back : state.crashed = false
  entries : ∀ user, some user ∈ state.tracker.ptr ↔ user ∈ state.live.map Prod.fst
  once : (state.tracker.ptr.filterMap id).Nodup
  blocks : state.memory.blocks.map (·.start + 16) = state.live.map Prod.fst
  destroyed : ∀ context ∈ state.live, ∀ force,
    (sqServerDestroy (some state.tracker) state.memory (some context) force).isSome = true
  freed : ∀ user ∈ state.live.map Prod.fst, ∃ tracker memory,
    heapFree (some state.tracker) state.memory (some user) =
      some (some tracker, memory, asStatus .heap .success .free)
  none_ : state.live = [] → state.tracker.active = 0 ∧ state.tracker.allocated = 0

/-- An earlier step of the creation fails, or `sqlite3_exec` does not. -/
def Survives (answers : Answers) : Prop :=
  answers.context = none ∨ (answers.arenaRoom = false ∨ answers.arenaBlock = none) ∨ answers.database = none ∨
    (answers.cacheRoom = false ∨ answers.cacheBlock = none) ∨ answers.tableMade = true

/-- A context is created only when none is live, and its table is made if it comes to that;
the null path creates none. -/
def OneAtATime (state : State) : Event → Prop
  | .create dbPath answers => dbPath = none ∨ state.live = [] ∧ Survives answers
  | .destroy _ _ => True

/-! ## One call -/

/-- The arenas of a context are not locked. -/
def Unlocked (context : SqServerContext) : Prop :=
  (∀ cache ∈ context.ctxDb.arenaRecordCache, cache.mutex = false) ∧
    ∀ arena ∈ context.arena, arena.mutex = false

/-- What a creation can do to the tracker: nothing for a null path, otherwise one
allocation behind `tracker_init`, and one free of its block if a later call fails. -/
inductive Creation (tracker : Option HeapTracker) (memory : Memory) (malloc : Option Nat) :
    Option (List UInt8) → Created → Prop
  | null (effects : List Effect) : Creation tracker memory malloc none ⟨tracker, memory, none, effects⟩
  | refused (ran : heapAlloc (trackerInit tracker) memory sizeofSqServerContext malloc =
      some (after, memoryAfter, none)) (effects : List Effect) :
      Creation tracker memory malloc (some path) ⟨after, memoryAfter, none, effects⟩
  | failed (ran : heapAlloc (trackerInit tracker) memory sizeofSqServerContext malloc =
      some (middle, memoryMiddle, some user))
      (freed : heapFree middle memoryMiddle (some user) = some (after, memoryAfter, status))
      (effects : List Effect) :
      Creation tracker memory malloc (some path) ⟨after, memoryAfter, none, effects⟩
  | made (ran : heapAlloc (trackerInit tracker) memory sizeofSqServerContext malloc =
      some (after, memoryAfter, some user)) (unlocked : Unlocked context) (effects : List Effect) :
      Creation tracker memory malloc (some path) ⟨after, memoryAfter, some (user, context), effects⟩

private theorem giveUp_failed
    (ran : heapAlloc (trackerInit tracker) memory sizeofSqServerContext malloc =
      some (middle, memoryMiddle, some user))
    (gave : giveUp middle memoryMiddle user effects = some created) :
    Creation tracker memory malloc (some path) created := by
  unfold giveUp at gave
  obtain ⟨⟨after, memoryAfter, status⟩, freed, returned⟩ := Option.bind_eq_some_iff.mp gave
  cases returned
  exact .failed ran freed effects

theorem sqServerCreate_cases
    (ran : sqServerCreate tracker memory dbPath answers = some created) :
    Creation tracker memory answers.context dbPath created := by
  unfold sqServerCreate at ran
  split at ran
  · cases ran
    exact .null []
  · obtain ⟨⟨middle, memoryMiddle, ctx⟩, allocated, ran⟩ := Option.bind_eq_some_iff.mp ran
    simp only at ran
    split at ran
    · cases ran
      exact .refused allocated []
    · split at ran
      · exact giveUp_failed allocated ran
      · rename_i arena arenaMade
        split at ran
        · obtain ⟨_, _, ran⟩ := Option.bind_eq_some_iff.mp ran
          exact giveUp_failed allocated ran
        · split at ran
          · obtain ⟨_, _, ran⟩ := Option.bind_eq_some_iff.mp ran
            exact giveUp_failed allocated ran
          · rename_i cache cacheMade
            obtain ⟨⟨marked, _⟩, mark, ran⟩ := Option.bind_eq_some_iff.mp ran
            simp only at ran
            split at ran
            · rw [dbgmsg_eq_none_iff.mpr (.inr (.inr rfl))] at ran
              cases ran
            · cases ran
              refine .made allocated ⟨fun other same => ?_, fun other same => ?_⟩ []
              · simp only [arenaSetContainsDbConnection, (arenaInit_flags cacheMade).1,
                  Bool.false_eq_true, if_false, Option.some.injEq, Prod.mk.injEq] at mark
                obtain ⟨rfl, _⟩ := mark
                cases same
                rfl
              · cases same
                exact (arenaInit_flags arenaMade).1

/-- With unlocked arenas a destruction comes to the free of its context. -/
private theorem destroy_returns (unlocked : Unlocked context) (force : Bool)
    (freed : heapFree tracker memory (some user) = some (after, memoryAfter, status)) :
    ∃ effects, sqServerDestroy tracker memory (some (user, context)) force =
      some ⟨after, memoryAfter, none, effects⟩ := by
  have given (arena : Option Arena) (free : ∀ held ∈ arena, held.mutex = false) (requested : Bool) :
      ∃ outcome, destroyIf arena requested force = some outcome := by
    unfold destroyIf
    split
    · cases arena with
      | none => exact ⟨_, rfl⟩
      | some held =>
        simp only [arenaDestroy, free held rfl, Bool.false_eq_true, if_false]
        split
        · exact ⟨_, rfl⟩
        · exact ⟨_, rfl⟩
    · exact ⟨_, rfl⟩
  obtain ⟨_, arenaGiven⟩ := given context.arena unlocked.2 context.isArenaReq
  have marked : ∃ cache, (if (context.ctxDb.isOpen ∧ context.ctxDb.hDb.isSome) ∧
        context.ctxDb.arenaRecordCache.isSome then
        (arenaSetContainsDbConnection context.ctxDb.arenaRecordCache false).map Prod.fst
      else some context.ctxDb.arenaRecordCache) = some cache ∧ ∀ held ∈ cache, held.mutex = false := by
    split
    · cases there : context.ctxDb.arenaRecordCache with
      | none => exact ⟨none, rfl, by simp⟩
      | some cache =>
        have free := unlocked.1 cache there
        refine ⟨some { cache with containsDbHandle := false }, ?_, fun held same => ?_⟩
        · simp [arenaSetContainsDbConnection, free]
        · cases same
          exact free
    · exact ⟨_, rfl, unlocked.1⟩
  obtain ⟨cache, mark, free⟩ := marked
  obtain ⟨_, cacheGiven⟩ := given cache free context.ctxDb.isArenaReq
  unfold sqServerDestroy
  simp only [mark, Option.bind_eq_bind, Option.bind_some, cacheGiven, arenaGiven, freed]
  exact ⟨_, rfl⟩

/-! ## The states of a run that goes well -/

/-- The tracker with one context of its own. -/
def trackerOf (user : Nat) : HeapTracker := ⟨false, 1, 64, some user :: List.replicate 19 none⟩

/-- No context is live and the tracker is as it started, or one is. -/
inductive Sound : State → Prop
  | empty (words : Nat → Nat) : Sound (start words)
  | single (words : Nat → Nat) (user : Nat) (sized : words (user - 16) = 64) (placed : 16 ≤ user)
      (unlocked : Unlocked context) :
      Sound ⟨trackerOf user, ⟨words, [⟨user - 16, 80⟩]⟩, [(user, context)], false⟩

private theorem free_single (words : Nat → Nat) (sized : words (user - 16) = 64) :
    heapFree (some (trackerOf user)) ⟨words, [⟨user - 16, 80⟩]⟩ (some user) =
      some (some zeroTracker, ⟨Function.update words (user - 16) 0, []⟩,
        asStatus .heap .success .free) := by
  simp [heapFree, trackerOf, sized, clearEntry, zeroTracker, maxHeaps, List.replicate_succ]

private theorem alloc_first (ran : heapAlloc (some zeroTracker) ⟨words, []⟩ sizeofSqServerContext malloc =
      some (after, memoryAfter, some user)) :
    16 ≤ user ∧ after = some (trackerOf user) ∧
      ∃ words, words (user - 16) = 64 ∧ memoryAfter = ⟨words, [⟨user - 16, 80⟩]⟩ := by
  obtain ⟨_, ⟨none_, _⟩ | ⟨raw, _, _, _, same, rfl, rfl⟩⟩ := heapAlloc_cases ran
  · cases none_
  · cases same
    refine ⟨Nat.le_add_left _ _, rfl, Function.update words raw 64, ?_, ?_⟩
    · rw [Nat.add_sub_cancel, Function.update_self]
    · rw [Nat.add_sub_cancel]
      rfl

theorem sound_tracks (sound : Sound state) : TracksLive state := by
  cases sound with
  | empty words =>
    constructor <;> simp [start, zeroTracker]
  | @single context words user sized placed unlocked =>
    refine ⟨rfl, ?_, ?_, ?_, ?_, ?_, by simp⟩
    · simp [trackerOf, eq_comm]
    · simp [trackerOf]
    · simp [Nat.sub_add_cancel placed]
    · intro other member force
      obtain rfl := List.mem_singleton.mp member
      obtain ⟨effects, ran⟩ := destroy_returns unlocked force (free_single words sized)
      rw [ran]
      rfl
    · intro other member
      obtain rfl := List.mem_singleton.mp member
      exact ⟨_, _, free_single words sized⟩

/-- A creation with none live leaves none live, or one. -/
private theorem sound_create (created : Creation (some zeroTracker) ⟨words, []⟩ malloc dbPath outcome)
    (there : outcome.tracker = some tracker) :
    Sound ⟨tracker, outcome.memory, outcome.context.toList ++ [], false⟩ := by
  have fresh : trackerInit (some zeroTracker) = some zeroTracker := rfl
  cases created with
  | null effects =>
    cases there
    exact .empty words
  | refused ran effects =>
    rw [fresh] at ran
    obtain ⟨_, ⟨_, rfl, rfl, _⟩ | ⟨_, _, _, _, given, _⟩⟩ := heapAlloc_cases ran
    · cases there
      exact .empty words
    · cases given
  | failed ran freed effects =>
    rw [fresh] at ran
    obtain ⟨_, rfl, words, sized, rfl⟩ := alloc_first ran
    rw [free_single words sized] at freed
    cases freed
    cases there
    exact .empty _
  | made ran unlocked effects =>
    rw [fresh] at ran
    obtain ⟨placed, rfl, words, sized, rfl⟩ := alloc_first ran
    cases there
    exact .single words _ sized placed unlocked

/-- A creation while one context is live loses its entry, whatever comes of it. -/
private theorem create_loses_entry
    (created : Creation (some (trackerOf user)) ⟨words, [⟨user - 16, 80⟩]⟩ malloc (some path) outcome)
    (placed : 16 ≤ user)
    (possible : Possible ⟨words, [⟨user - 16, 80⟩]⟩ (.alloc sizeofSqServerContext malloc))
    (there : outcome.tracker = some tracker) : some user ∉ tracker.ptr := by
  have cleared : trackerInit (some (trackerOf user)) =
      some { trackerOf user with ptr := List.replicate maxHeaps none } := rfl
  -- behind `tracker_init` only the pointer just allocated can have an entry
  have allocated {after : Option HeapTracker} {memoryAfter : Memory} {ptr : Option Nat}
      (ran : heapAlloc (trackerInit (some (trackerOf user))) ⟨words, [⟨user - 16, 80⟩]⟩
        sizeofSqServerContext malloc = some (after, memoryAfter, ptr)) :
      ∃ held, after = some held ∧ some user ∉ held.ptr := by
    rw [cleared] at ran
    obtain ⟨_, ⟨_, rfl, _⟩ | ⟨raw, rfl, _, _, _, rfl, _⟩⟩ := heapAlloc_cases ran
    · refine ⟨_, rfl, fun member => ?_⟩
      cases List.eq_of_mem_replicate member
    · refine ⟨_, rfl, fun member => ?_⟩
      have apart := (possible.2.2 raw rfl).2.2.2 _ (List.mem_singleton.mpr rfl)
      rcases List.mem_or_eq_of_mem_set member with old | new
      · cases List.eq_of_mem_replicate old
      · have same := Option.some.inj new
        simp only [Library.Spans.Apart] at apart
        omega
  cases created with
  | refused ran effects =>
    obtain ⟨held, rfl, absent⟩ := allocated ran
    cases there
    exact absent
  | failed ran freed effects =>
    obtain ⟨held, rfl, absent⟩ := allocated ran
    cases there
    obtain ⟨_, moved⟩ := heapFree_freed freed
    cases moved with
    | refused _ _ => exact absent
    | cleared _ before after table =>
      intro member
      rw [table] at absent
      simp only [List.mem_append, List.mem_cons, reduceCtorEq, false_or] at member absent
      tauto
  | made ran unlocked effects =>
    obtain ⟨held, rfl, absent⟩ := allocated ran
    cases there
    exact absent

private theorem arenaInit_eq_none_iff : arenaInit size room block = none ↔ room = false ∨ block = none := by
  cases room <;> cases block <;> simp [arenaInit, arenaNewBlock]

private theorem made_of_some (made : arenaInit size room block = some arena) :
    ¬ (room = false ∨ block = none) := by
  intro failed
  rw [arenaInit_eq_none_iff.mpr failed] at made
  cases made

/-- With a path, a creation when none is live comes back exactly if it does not come to a
table that cannot be made. -/
private theorem create_returns_iff (words : Nat → Nat) (path : List UInt8) (answers : Answers) :
    (∃ outcome, sqServerCreate (some zeroTracker) ⟨words, []⟩ (some path) answers = some outcome) ↔
      Survives answers := by
  have fresh : trackerInit (some zeroTracker) = some zeroTracker := rfl
  cases context : answers.context with
  | none =>
    have refused : heapAlloc (some zeroTracker) ⟨words, []⟩ sizeofSqServerContext none =
        some (some zeroTracker, ⟨words, []⟩, none) := rfl
    refine iff_of_true ?_ (.inl context)
    simp only [sqServerCreate, fresh, context, refused, Option.bind_eq_bind, Option.bind_some]
    exact ⟨_, rfl⟩
  | some raw =>
    have allocated : heapAlloc (some zeroTracker) ⟨words, []⟩ sizeofSqServerContext (some raw) =
        some (some (trackerOf (raw + 16)), ⟨Function.update words raw 64, [⟨raw, 80⟩]⟩, some (raw + 16)) := rfl
    have gaveUp (effects : List Effect) : ∃ outcome,
        giveUp (some (trackerOf (raw + 16))) ⟨Function.update words raw 64, [⟨raw, 80⟩]⟩ (raw + 16) effects =
          some outcome := by
      have sized : Function.update words raw 64 (raw + 16 - 16) = 64 := by simp
      have freed := free_single (Function.update words raw 64) sized
      rw [Nat.add_sub_cancel] at freed
      exact ⟨_, by rw [giveUp, freed]; rfl⟩
    have destroyed {size : Nat} {room : Bool} {block : Option Nat} {arena : Arena}
        (made : arenaInit size room block = some arena) : ∃ left, arenaDestroy (some arena) true = some left := by
      simp [arenaDestroy, (arenaInit_flags made).1]
    simp only [sqServerCreate, fresh, context, allocated, Option.bind_eq_bind, Option.bind_some, Survives,
      reduceCtorEq, false_or]
    cases first : arenaInit sizeArenaDefault answers.arenaRoom answers.arenaBlock with
    | none => exact iff_of_true (gaveUp []) (.inl (arenaInit_eq_none_iff.mp first))
    | some arena =>
      obtain ⟨_, given⟩ := destroyed first
      rw [or_iff_right (made_of_some first)]
      cases opened : answers.database with
      | none =>
        simp only [given, Option.bind_some]
        exact iff_of_true (gaveUp _) (.inl trivial)
      | some handle =>
        rw [or_iff_right (Option.some_ne_none handle)]
        cases second : arenaInit sizeBlockDefault answers.cacheRoom answers.cacheBlock with
        | none =>
          simp only [given, Option.bind_some]
          exact iff_of_true (gaveUp _) (.inl (arenaInit_eq_none_iff.mp second))
        | some cache =>
          rw [or_iff_right (made_of_some second)]
          simp only [arenaSetContainsDbConnection, (arenaInit_flags second).1, Bool.false_eq_true, if_false,
            Option.bind_some]
          cases answers.tableMade with
          | true => exact iff_of_true ⟨_, rfl⟩ rfl
          | false => simp [dbgmsg_eq_none_iff.mpr]

/-- From a sound state a call leads to a sound one, or it creates a context while
one is live, and then the tracker has lost that. -/
private theorem sound_step (sound : Sound state) (taken : step state event = some next) :
    (OneAtATime state event ∧ Sound next) ∨ (¬ OneAtATime state event ∧ ¬ TracksLive next) := by
  have back : ¬ state.crashed = true := by
    rw [(sound_tracks sound).back]
    exact Bool.false_ne_true
  cases event with
  | create dbPath answers =>
    simp only [step, if_neg back] at taken
    split at taken
    · rename_i possible
      split at taken
      · rename_i tracker memory context effects ran
        cases taken
        have created := sqServerCreate_cases ran
        cases sound with
        | empty words =>
          refine .inl ⟨?_, sound_create created rfl⟩
          cases dbPath with
          | none => exact .inl rfl
          | some path => exact .inr ⟨rfl, (create_returns_iff words path answers).mp ⟨_, ran⟩⟩
        | single words user sized placed unlocked =>
          cases dbPath with
          | none =>
            cases created
            exact .inl ⟨.inl rfl, .single words user sized placed unlocked⟩
          | some path =>
            refine .inr ⟨?_, fun tracks => ?_⟩
            · rintro (null | ⟨none_, _⟩)
              · cases null
              · cases none_
            · exact create_loses_entry created placed possible rfl
                ((tracks.entries user).mpr (by simp))
      · cases taken
      · rename_i lost
        cases taken
        refine .inr ⟨?_, fun tracks => Bool.noConfusion tracks.back⟩
        rintro (rfl | ⟨none_, survives⟩)
        · cases lost
        · cases sound with
          | single => cases none_
          | empty words =>
            cases dbPath with
            | none => cases lost
            | some path =>
              obtain ⟨_, back⟩ := (create_returns_iff words path answers).mpr survives
              cases lost.symm.trans back
    · cases taken
  | destroy user force =>
    simp only [step, if_neg back] at taken
    cases sound with
    | empty words => cases taken
    | @single context words owner sized placed unlocked =>
      by_cases same : owner = user
      · subst same
        obtain ⟨effects, ran⟩ := destroy_returns unlocked force (free_single words sized)
        simp only [List.find?_cons_of_pos, decide_true, ran, Option.some.injEq] at taken
        subst taken
        simp only [List.filter_cons, ne_eq, not_true_eq_false, decide_false, Bool.false_eq_true,
          if_false, List.filter_nil]
        exact .inl ⟨trivial, .empty _⟩
      · simp [same] at taken

/-- The tracker tracks exactly the live contexts in every state of a run of
creations and destructions exactly when every creation with a path finds no context
live and does not come to a table that cannot be made; its other steps may fail. -/
theorem tracks_live_iff_one_at_a_time (words : Nat → Nat) (events : List Event) :
    Throughout step TracksLive (start words) events ↔
      EachStep step OneAtATime (start words) events := by
  have kept : ∀ state event next, Sound state → TracksLive state → TracksLive next →
      step state event = some next → Sound next := by
    intro state event next sound _ tracks taken
    exact ((sound_step sound taken).resolve_right fun lost => lost.2 tracks).2
  refine throughout_iff_each_step kept ?_ (.empty words) (sound_tracks (.empty words))
  intro state event next sound _ taken
  rcases sound_step sound taken with ⟨alone, after⟩ | ⟨crowded, lost⟩
  · exact iff_of_true (sound_tracks after) alone
  · exact iff_of_false lost crowded

/-- Two contexts, created one after the other without a failure: the first has lost
its entry, and cannot be freed any more. -/
theorem second_create_loses_first :
    ¬ ∀ words events, Throughout step TracksLive (start words) events := by
  intro always
  have tracks := throughout_final
    (always (fun _ => 0)
      [.create (some []) ⟨some 4096, true, some 8192, some 1, true, some 12288, true⟩,
        .create (some []) ⟨some 16384, true, some 20480, some 2, true, some 24576, true⟩])
    (show exec step _ _ = some ⟨⟨false, 2, 128, none :: some 16400 :: List.replicate 18 none⟩, _,
      [(16400, _), (4112, _)], false⟩ from rfl)
  have entry := (tracks.entries 4112).mpr (by simp)
  simp at entry

end ShapeQuake.ServerContexts
