import ShapeQuake.PayloadOwnership
import ShapeQuake.ServerContexts

/-! What `sq_server_destroy` leaves behind. `start_listening` marks the server's arena as
holding a descriptor, and nothing takes that mark off again: `arena_destroy` refuses such
an arena unless it is forced, and the context drops its pointer all the same. -/
namespace ShapeQuake.ServerTeardown
open Library.Runs Heap Allocator ServerContexts
open PayloadOwnership (Message handle handle_cases)

/-! ## The program -/

/-- What `socket`, `bind` and `listen` answer. -/
structure SocketAnswers where
  socket : Option Nat
  bound : Bool
  listening : Bool

/-- What `start_listening` does besides. -/
inductive SocketEffect where
  | debug (status : Status) (source message : String)
  | unlinked
  | closed (fd : Int)
  deriving DecidableEq, Repr

/-- How `start_listening` ends: the process exits, or the server listens. -/
inductive Started where
  | exits (effects : List SocketEffect)
  | listens (ctxServer : SqServerContext) (effects : List SocketEffect)

/-- `start_listening`. -/
def startListening (ctxServer : Option SqServerContext) (answers : SocketAnswers) : Started :=
  let failed (source message : String) : SocketEffect :=
    .debug (asStatus .server .failure .connection) source message
  match ctxServer with
  | none => .exits []
  | some ctxServer =>
    match answers.socket with
    | none => .exits [failed "socket()" "Unable to create server socket."]
    | some serverFd =>
      if answers.bound = false then
        .exits [.unlinked, .closed serverFd, failed "bind()" "Unable to resolve binding server socket."]
      else if answers.listening = false then
        .exits [.unlinked, .closed serverFd, failed "listen()" "Unable to start open server."]
      else
        .listens { ctxServer with
          hSock := ⟨serverFd, true⟩
          arena := (arenaSetContainsFd ctxServer.arena true).1 } [.unlinked]

/-- What `sq_server_destroy` has done when it comes to free the context, and what became
of the two calls of `arena_destroy`, each with what is left of its arena. -/
structure Destruction where
  effects : List Effect
  cache : Option (Option Arena × Status)
  arena : Option (Option Arena × Status)

/-- `sq_server_destroy` up to the free of the context. -/
def destruction (ctx : SqServerContext) (requireForceDestroy : Bool) : Option Destruction := do
  let socket : List Effect :=
    if ctx.hSock.isRunning ∧ ctx.hSock.fd > -1 then [.closed ctx.hSock.fd] else []
  let open_ := ctx.ctxDb.isOpen ∧ ctx.ctxDb.hDb.isSome
  let database : List Effect := if open_ then [.sqliteClosed ctx.ctxDb.hDb] else []
  let unmarked : Option (Option Arena) :=
    if open_ ∧ ctx.ctxDb.arenaRecordCache.isSome then
      (arenaSetContainsDbConnection ctx.ctxDb.arenaRecordCache false).map Prod.fst
    else some ctx.ctxDb.arenaRecordCache
  let cache ← unmarked
  let cacheOutcome ← destroyIf cache ctx.ctxDb.isArenaReq requireForceDestroy
  let arenaOutcome ← destroyIf ctx.arena ctx.isArenaReq requireForceDestroy
  return ⟨socket ++ database, cacheOutcome, arenaOutcome⟩

/-- The statuses of `arena_destroy` are what `sq_server_destroy` does not look at. -/
theorem sqServerDestroy_eq (tracker : Option HeapTracker) (memory : Memory) (user : Nat)
    (ctx : SqServerContext) (force : Bool) :
    sqServerDestroy tracker memory (some (user, ctx)) force =
      (destruction ctx force).bind fun outcome =>
        (heapFree tracker memory (some user)).map fun (tracker, memory, _) =>
          ⟨tracker, memory, none, outcome.effects⟩ := by
  simp only [sqServerDestroy, destruction, Option.bind_eq_bind, Option.bind_assoc, Option.map_eq_bind]
  rfl

/-! ## Runs -/

/-- A context, and the sockets that `start_listening` has opened for it. -/
structure State where
  context : SqServerContext
  sockets : List Nat

/-- What happens to a context between its creation and its destruction: the server starts
to listen, an arena serves a request, or a client's message is handled. -/
inductive Event where
  | listen (answers : SocketAnswers)
  | arenaAlloc (size : Nat) (malloc : Option Nat)
  | cacheAlloc (size : Nat) (malloc : Option Nat)
  | message (message : Message)

/-- One event that leaves the process running. A socket that is opened is not open yet. -/
def step (state : State) : Event → Option State
  | .listen answers =>
    match answers.socket, startListening (some state.context) answers with
    | some fd, .listens context _ =>
      if fd ∈ state.sockets then none else some ⟨context, state.sockets ++ [fd]⟩
    | _, _ => none
  | .arenaAlloc size malloc =>
    match state.context.arena with
    | none => none
    | some arena =>
      (Allocator.arenaAlloc arena size malloc).map fun (arena, _) =>
        { state with context := { state.context with arena := some arena } }
  | .cacheAlloc size malloc =>
    match state.context.ctxDb.arenaRecordCache with
    | none => none
    | some cache =>
      (Allocator.arenaAlloc cache size malloc).map fun (cache, _) =>
        { state with context := { state.context with
          ctxDb := { state.context.ctxDb with arenaRecordCache := some cache } } }
  | .message message =>
    match state.context.arena with
    | none => none
    | some arena =>
      (handle ⟨arena, []⟩ message).map fun handled =>
        { state with context := { state.context with arena := some handled.arena } }

/-- `arena_destroy` has succeeded, and left nothing. -/
def Destroyed (outcome : Option (Option Arena × Status)) : Prop :=
  outcome = some (none, asStatus .arena .success .destroy)

/-- `sq_server_destroy` returns, having closed every socket the server listened on and the
database, and destroyed both arenas. -/
def Releases (tracker : HeapTracker) (memory : Memory) (user : Nat) (state : State)
    (force : Bool) : Prop :=
  ∃ outcome created, destruction state.context force = some outcome ∧
    sqServerDestroy (some tracker) memory (some (user, state.context)) force = some created ∧
    (∀ fd ∈ state.sockets, .closed fd ∈ outcome.effects) ∧
    (∃ handle, state.context.ctxDb.hDb = some handle ∧ .sqliteClosed (some handle) ∈ outcome.effects) ∧
    Destroyed outcome.cache ∧ Destroyed outcome.arena

/-- Neither arena is locked, and the server has not listened, or it has once and the
destruction is forced. -/
def Releasable (state : State) (force : Bool) : Prop :=
  Unlocked state.context ∧ (state.sockets = [] ∨ state.sockets.length = 1 ∧ force = true)

/-! ## Contexts -/

/-- What holds of a context from its creation on: what is asked for is there, the database
is open, and the arena is marked once the server listens. -/
structure Ready (state : State) : Prop where
  isOpen : state.context.ctxDb.isOpen = true
  handle : state.context.ctxDb.hDb.isSome = true
  cacheAsked : state.context.ctxDb.isArenaReq = true
  arenaAsked : state.context.isArenaReq = true
  cache : ∃ cache, state.context.ctxDb.arenaRecordCache = some cache ∧ cache.containsFd = false
  arena : ∃ arena, state.context.arena = some arena ∧ arena.containsDbHandle = false ∧
    arena.containsFd = !state.sockets.isEmpty
  socket : state.context.hSock.isRunning = !state.sockets.isEmpty ∧
    ∀ last ∈ state.sockets.getLast?, state.context.hSock.fd = last
  distinct : state.sockets.Nodup

private theorem giveUp_context (gave : giveUp tracker memory ctx effects = some created) :
    created.context = none := by
  unfold giveUp at gave
  obtain ⟨_, _, returned⟩ := Option.bind_eq_some_iff.mp gave
  cases returned
  rfl

/-- A created context is ready, and its tracker is not locked. -/
theorem ready_created
    (ran : sqServerCreate (some before) memoryBefore dbPath answers =
      some ⟨some tracker, memory, some (user, context), effects⟩) :
    Ready ⟨context, []⟩ ∧ tracker.mutex = false := by
  have kept : tracker.mutex = false := by
    cases sqServerCreate_cases ran with
    | made allocated _ _ =>
      obtain ⟨_, ⟨none_, _⟩ | ⟨_, _, _, _, _, same, _⟩⟩ := heapAlloc_cases allocated
      · cases none_
      · cases same
        rfl
  refine ⟨?_, kept⟩
  unfold sqServerCreate at ran
  split at ran
  · cases ran
  · obtain ⟨⟨middle, memoryMiddle, ctx⟩, allocated, ran⟩ := Option.bind_eq_some_iff.mp ran
    simp only at ran
    split at ran
    · cases ran
    · split at ran
      · cases giveUp_context ran
      · rename_i arena arenaMade
        split at ran
        · obtain ⟨_, _, ran⟩ := Option.bind_eq_some_iff.mp ran
          cases giveUp_context ran
        · split at ran
          · obtain ⟨_, _, ran⟩ := Option.bind_eq_some_iff.mp ran
            cases giveUp_context ran
          · rename_i cache cacheMade
            obtain ⟨⟨marked, _⟩, mark, ran⟩ := Option.bind_eq_some_iff.mp ran
            simp only at ran
            split at ran
            · rw [dbgmsg_eq_none_iff.mpr (.inr (.inr rfl))] at ran
              cases ran
            · obtain ⟨free, fd, _⟩ := arenaInit_flags cacheMade
              obtain ⟨_, arenaFd, arenaDb⟩ := arenaInit_flags arenaMade
              simp only [arenaSetContainsDbConnection, free, Bool.false_eq_true, if_false,
                Option.some.injEq, Prod.mk.injEq] at mark
              obtain ⟨rfl, _⟩ := mark
              cases ran
              exact ⟨rfl, rfl, rfl, rfl, ⟨_, rfl, fd⟩, ⟨_, rfl, arenaDb, arenaFd⟩, ⟨rfl, nofun⟩,
                List.nodup_nil⟩

private theorem arenaAlloc_flags (ran : Allocator.arenaAlloc arena size malloc = some (next, pointer)) :
    next.containsFd = arena.containsFd ∧ next.containsDbHandle = arena.containsDbHandle := by
  obtain ⟨_, _, _, _, ⟨_, _, rfl⟩ | ⟨_, _, rfl⟩⟩ := arenaAllocateRaw_cases ran
  · exact ⟨rfl, rfl⟩
  · exact ⟨rfl, rfl⟩

/-- An event that changes the server's arena but for its marks. -/
private theorem ready_arena (ready : Ready state) (there : state.context.arena = some arena)
    (fd : next.containsFd = arena.containsFd) (db : next.containsDbHandle = arena.containsDbHandle) :
    Ready { state with context := { state.context with arena := some next } } := by
  obtain ⟨other, same, unmarked, marked⟩ := ready.arena
  cases there.symm.trans same
  exact ⟨ready.isOpen, ready.handle, ready.cacheAsked, ready.arenaAsked, ready.cache,
    ⟨next, rfl, db.trans unmarked, fd.trans marked⟩, ready.socket, ready.distinct⟩

private theorem ready_step (ready : Ready state) (taken : step state event = some next) : Ready next := by
  cases event with
  | listen answers =>
    obtain ⟨arena, there, unmarked, _⟩ := ready.arena
    simp only [step] at taken
    split at taken
    · rename_i fd context effects socket started
      split at taken
      · cases taken
      · rename_i new
        cases taken
        have same : context = { state.context with
            hSock := ⟨fd, true⟩, arena := some { arena with containsFd := true } } := by
          simp only [startListening, socket, there, arenaSetContainsFd] at started
          split at started
          · cases started
          · split at started
            · cases started
            · cases started
              rfl
        subst same
        refine ⟨ready.isOpen, ready.handle, ready.cacheAsked, ready.arenaAsked, ready.cache,
          ⟨_, rfl, unmarked, ?_⟩, ⟨?_, ?_⟩, ?_⟩
        · simp
        · simp
        · simp
        · exact List.nodup_append.mpr ⟨ready.distinct, List.nodup_singleton fd, fun a held b last same =>
            new (by rw [List.mem_singleton.mp last] at same; exact same ▸ held)⟩
    · cases taken
  | arenaAlloc size malloc =>
    obtain ⟨arena, there, _⟩ := ready.arena
    simp only [step, there] at taken
    obtain ⟨⟨after, pointer⟩, ran, rfl⟩ := Option.map_eq_some_iff.mp taken
    obtain ⟨fd, db⟩ := arenaAlloc_flags ran
    exact ready_arena ready there fd db
  | cacheAlloc size malloc =>
    obtain ⟨cache, there, unmarked⟩ := ready.cache
    simp only [step, there] at taken
    obtain ⟨⟨after, pointer⟩, ran, rfl⟩ := Option.map_eq_some_iff.mp taken
    obtain ⟨fd, _⟩ := arenaAlloc_flags ran
    exact ⟨ready.isOpen, ready.handle, ready.cacheAsked, ready.arenaAsked, ⟨_, rfl, fd.trans unmarked⟩,
      ready.arena, ready.socket, ready.distinct⟩
  | message message =>
    obtain ⟨arena, there, _⟩ := ready.arena
    simp only [step, there] at taken
    obtain ⟨handled, ran, rfl⟩ := Option.map_eq_some_iff.mp taken
    rcases handle_cases ran with ⟨_, rfl⟩ | ⟨_, payload, allocated, _⟩
    · exact ready_arena ready there rfl rfl
    · obtain ⟨fd, db⟩ := arenaAlloc_flags allocated
      exact ready_arena ready there fd db

/-! ## The destruction -/

section
variable {state : State} {cache arena : Arena}

/-- What is closed first: the socket of the last call of `start_listening`, and the database. -/
private theorem closes_ready (ready : Ready state) :
    (if state.context.hSock.isRunning ∧ state.context.hSock.fd > -1 then
        [Effect.closed state.context.hSock.fd] else []) =
      (state.sockets.getLast?.map fun last : Nat => Effect.closed last).toList := by
  obtain ⟨running, last⟩ := ready.socket
  cases newest : state.sockets.getLast? with
  | none =>
    rw [List.getLast?_eq_none_iff.mp newest] at running
    simp [running]
  | some fd =>
    have some_ : state.sockets ≠ [] := fun none_ => by simp [none_] at newest
    have running : state.context.hSock.isRunning = true := by simp [running, some_]
    rw [if_pos ⟨running, by rw [last fd newest]; omega⟩, last fd newest]
    rfl

/-- The destruction of a ready context: the cache is unmarked and destroyed, and the arena
is destroyed or refused. -/
private theorem destruction_ready (ready : Ready state)
    (cacheThere : state.context.ctxDb.arenaRecordCache = some cache)
    (arenaThere : state.context.arena = some arena) (force : Bool) :
    destruction state.context force =
      if cache.mutex ∨ arena.mutex then none
      else some
        ⟨(state.sockets.getLast?.map fun last : Nat => Effect.closed last).toList ++
            [.sqliteClosed state.context.ctxDb.hDb],
          some (none, asStatus .arena .success .destroy),
          some (if force = false ∧ state.sockets ≠ [] then
              (some arena, asStatus .arena .failure .resourceHeld)
            else (none, asStatus .arena .success .destroy))⟩ := by
  obtain ⟨_, sameCache, cacheFd⟩ := ready.cache
  cases cacheThere.symm.trans sameCache
  obtain ⟨_, sameArena, arenaDb, arenaFd⟩ := ready.arena
  cases arenaThere.symm.trans sameArena
  have marked : arena.containsFd = true ↔ state.sockets ≠ [] := by simp [arenaFd]
  unfold destruction
  rw [closes_ready ready]
  simp only [ready.isOpen, ready.handle, and_self, if_true, cacheThere, arenaThere, Option.isSome_some,
    ready.cacheAsked, ready.arenaAsked, destroyIf, arenaSetContainsDbConnection, Option.bind_eq_bind]
  cases cacheLocked : cache.mutex with
  | true => simp
  | false =>
    simp only [arenaDestroy, cacheFd, arenaDb, Bool.false_eq_true, if_false, false_or,
      and_false, Option.map_some, Option.bind_some]
    cases arenaLocked : arena.mutex with
    | true => rfl
    | false =>
      by_cases refused : force = false ∧ state.sockets ≠ []
      · simp [marked, refused]
      · simp [marked, refused]

private theorem unlocked_ready (cacheThere : state.context.ctxDb.arenaRecordCache = some cache)
    (arenaThere : state.context.arena = some arena) :
    Unlocked state.context ↔ ¬ (cache.mutex = true ∨ arena.mutex = true) := by
  simp [Unlocked, cacheThere, arenaThere]

/-- All sockets are closed exactly if there is at most one. -/
private theorem all_closed_iff (ready : Ready state) (handle : Option Nat) :
    (∀ fd ∈ state.sockets, Effect.closed fd ∈
      (state.sockets.getLast?.map fun last : Nat => Effect.closed last).toList ++ [.sqliteClosed handle]) ↔
      state.sockets.length ≤ 1 := by
  have distinct := ready.distinct
  rcases List.eq_nil_or_concat state.sockets with none_ | ⟨earlier, last, all⟩
  · simp [none_]
  · rw [List.concat_eq_append] at all
    rw [all] at distinct ⊢
    constructor
    · intro closed
      cases earlier with
      | nil => exact Nat.le_refl 1
      | cons first rest =>
        have newest : (first :: rest ++ [last]).getLast? = some last := List.getLast?_concat
        have seen := closed first (by simp)
        rw [newest] at seen
        have same : first = last := by
          have closed : (first : Int) = last := by simpa using seen
          exact Int.ofNat_inj.mp closed
        simp [same] at distinct
    · intro single
      have none_ : earlier = [] := by simpa using single
      simp [none_]

/-- One socket at most, and an arena that is not held or not asked whether it is. -/
private theorem listened_iff (sockets : List Nat) (force : Bool) :
    sockets = [] ∨ sockets.length = 1 ∧ force = true ↔
      sockets.length ≤ 1 ∧ ¬ (force = false ∧ sockets ≠ []) := by
  cases sockets with
  | nil => simp
  | cons first rest => cases force <;> simp

private theorem heapFree_returns (unlocked : tracker.mutex = false) (memory : Memory) (user : Nat) :
    ∃ result, heapFree (some tracker) memory (some user) = some result := by
  simp only [heapFree, unlocked, Bool.false_eq_true, if_false]
  split
  · exact ⟨_, rfl⟩
  · split
    · exact ⟨_, rfl⟩
    · exact ⟨_, rfl⟩

end

/-- Every context that `sq_server_create` makes, after any number of calls of
`start_listening`, allocations in its arenas and messages: `sq_server_destroy`, forced or
not, releases its sockets, its database and its arenas exactly if the arenas are not
locked and the server has not listened, or once and the destruction is forced. -/
theorem releases_iff_releasable
    (made : sqServerCreate (some before) memoryBefore dbPath answers =
      some ⟨some tracker, memory, some (user, context), effects⟩)
    (ran : exec step ⟨context, []⟩ events = some state) (force : Bool) :
    Releases tracker memory user state force ↔ Releasable state force := by
  obtain ⟨start, unlocked⟩ := ready_created made
  have ready : Ready state := exec_invariant (fun _ _ _ ready taken => ready_step ready taken) start ran
  obtain ⟨cache, cacheThere, _⟩ := ready.cache
  obtain ⟨arena, arenaThere, _⟩ := ready.arena
  obtain ⟨handle, database⟩ := Option.isSome_iff_exists.mp ready.handle
  obtain ⟨result, freed⟩ := heapFree_returns unlocked memory user
  have destroyed := destruction_ready ready cacheThere arenaThere force
  rw [Releasable, unlocked_ready cacheThere arenaThere, listened_iff]
  by_cases locked : cache.mutex = true ∨ arena.mutex = true
  · rw [if_pos locked] at destroyed
    refine iff_of_false ?_ fun both => both.1 locked
    rintro ⟨_, _, other, _⟩
    cases destroyed.symm.trans other
  · rw [if_neg locked] at destroyed
    rw [and_iff_right locked]
    constructor
    · rintro ⟨outcome, _, same, _, closed, _, _, arenaGone⟩
      cases destroyed.symm.trans same
      refine ⟨(all_closed_iff ready _).mp closed, fun held => ?_⟩
      rw [Destroyed, if_pos held] at arenaGone
      cases arenaGone
    · rintro ⟨few, unheld⟩
      have whole := sqServerDestroy_eq (some tracker) memory user state.context force
      rw [destroyed, Option.bind_some, freed, Option.map_some] at whole
      refine ⟨_, _, destroyed, whole, (all_closed_iff ready _).mpr few, ⟨handle, database, ?_⟩, rfl, ?_⟩
      · simp [database]
      · rw [Destroyed, if_neg unheld]

/-- What `sq_server_create` makes of answers that succeed. -/
def freshContext : SqServerContext :=
  ⟨⟨0, false⟩,
    ⟨some 1, true, some ⟨false, ⟨[], ⟨12288, 0, false, none, 0, 1024, Library.Bytes.zeros⟩, []⟩, 1024,
      false, true, false⟩, true⟩,
    some ⟨false, ⟨[], ⟨8192, 0, false, none, 0, 1024, Library.Bytes.zeros⟩, []⟩, 1024, false, false, false⟩,
    true⟩

private theorem fresh_created : ∃ tracker memory, sqServerCreate (some zeroTracker) ⟨fun _ => 0, []⟩
    (some []) ⟨some 4096, true, some 8192, some 1, true, some 12288, true⟩ =
      some ⟨some tracker, memory, some (4112, freshContext), []⟩ := ⟨_, _, rfl⟩

/-- A context that has served requests and listened, destroyed by force. -/
theorem forced_destroy_releases :
    ∃ tracker memory state, exec step ⟨freshContext, []⟩
        [.cacheAlloc 88 none, .listen ⟨some 3, true, true⟩, .arenaAlloc 100 none] = some state ∧
      Releases tracker memory 4112 state true := by
  obtain ⟨tracker, memory, made⟩ := fresh_created
  have ran : ∃ state, exec step ⟨freshContext, []⟩
        [.cacheAlloc 88 none, .listen ⟨some 3, true, true⟩, .arenaAlloc 100 none] = some state ∧
      Unlocked state.context ∧ state.sockets.length = 1 := by
    refine ⟨_, rfl, ⟨?_, ?_⟩, rfl⟩
    · rintro cache ⟨⟩
      rfl
    · rintro arena ⟨⟩
      rfl
  obtain ⟨state, ran, unlocked, once⟩ := ran
  exact ⟨tracker, memory, state, ran,
    (releases_iff_releasable made ran true).mpr ⟨unlocked, .inr ⟨once, rfl⟩⟩⟩

/-- Not forced, the arena of a context that has listened is refused, and its pointer
dropped. -/
theorem listening_arena_dropped :
    ¬ ∀ before memoryBefore dbPath answers tracker memory user context effects events state force,
      sqServerCreate (some before) memoryBefore dbPath answers =
          some ⟨some tracker, memory, some (user, context), effects⟩ →
        exec step ⟨context, []⟩ events = some state → Releases tracker memory user state force := by
  intro always
  obtain ⟨tracker, memory, made⟩ := fresh_created
  obtain ⟨outcome, _, same, _, _, _, _, gone⟩ :=
    always _ _ _ _ _ _ _ _ _ [.listen ⟨some 3, true, true⟩] _ false made rfl
  cases same
  cases gone

end ShapeQuake.ServerTeardown
