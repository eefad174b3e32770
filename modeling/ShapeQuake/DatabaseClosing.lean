import ShapeQuake.ServerContexts

/-! Closing a database context. `sq_db_close` looks at `is_open`, which it clears, and
`sq_db_close_context` at `is_arena_req`, which nothing clears; neither of them clears the
pointer to the arena, so both can follow it to an arena that has been destroyed. -/
namespace ShapeQuake.DatabaseClosing
open Library.Runs Allocator ServerContexts

/-! ## The program -/

/-- How the calls inside one `sq_db_init` turn out: whether `sqlite3_open` succeeds and
the handle it stores, memory for the arena and for its first block, and whether
`sqlite3_exec` succeeds. -/
structure Answers where
  opened : Bool
  handle : Option Nat
  cacheRoom : Bool
  cacheBlock : Option Nat
  tableMade : Bool

/-- `sq_db_init`: what it returns, the context, and what it does besides. Where the table
cannot be made it does not come back from printing that. -/
def sqDbInit (ctx : Option SqDbContext) (answers : Answers) :
    Option (Bool × Option SqDbContext × List Effect) :=
  match ctx with
  | none => some (false, none, [])
  | some ctx =>
    if answers.opened = false then
      some (false, some { ctx with hDb := answers.handle }, [.cannotOpen])
    else do
      let cache := arenaInit sizeBlockDefault answers.cacheRoom answers.cacheBlock
      let (cache, _) ← arenaSetContainsDbConnection cache true
      let ctx : SqDbContext := ⟨answers.handle, true, cache, true⟩
      if answers.tableMade = false then
        let status := asStatus .db .fatal .connection
        let _ ← dbgmsg status
        return (false, some ctx, [.debug status])
      else return (true, some ctx, [])

/-- `sq_db_close`. -/
def sqDbClose (ctx : Option SqDbContext) : Option (Option SqDbContext × List Effect) :=
  match ctx with
  | none => some (none, [])
  | some ctx =>
    if ctx.isOpen then do
      let (cache, _) ← arenaSetContainsDbConnection ctx.arenaRecordCache false
      return (some { ctx with isOpen := false, arenaRecordCache := cache }, [.sqliteClosed ctx.hDb])
    else some (some ctx, [])

/-- `sq_db_close_context`: what is left of the arena, and the status. The context keeps
its pointer either way. -/
def sqDbCloseContext (ctx : Option SqDbContext) (requireForceDestroy : Bool) :
    Option (Option Arena × Status) :=
  match ctx with
  | none => some (none, asStatus .server .failure .destroy)
  | some ctx =>
    if ctx.isArenaReq then arenaDestroy ctx.arenaRecordCache requireForceDestroy
    else some (ctx.arenaRecordCache, asStatus .server .failure .destroy)

/-! ## Runs -/

/-- A call on the context. -/
inductive Call where
  | close
  | closeContext (requireForceDestroy : Bool)
  deriving DecidableEq, Repr

/-- The context, whose pointer leads to the arena as it was last; whether that has been
destroyed and how often, whether a call has followed the pointer since, and what was
done besides. -/
structure State where
  ctx : SqDbContext
  gone : Bool
  destroys : Nat
  strayed : Bool
  effects : List Effect

/-- The context that `sq_db_init` made. -/
def start (ctx : SqDbContext) : State := ⟨ctx, false, 0, false, []⟩

/-- The call follows the pointer to the arena. -/
def follows (ctx : SqDbContext) : Call → Bool
  | .close => ctx.isOpen && ctx.arenaRecordCache.isSome
  | .closeContext _ => ctx.isArenaReq && ctx.arenaRecordCache.isSome

/-- The state behind an `arena_destroy` that left so much of the arena. -/
def State.destroyed (state : State) (arena : Option Arena) (status : Status) : State :=
  if status = asStatus .arena .success .destroy then
    { state with gone := true, destroys := state.destroys + 1 }
  else { state with ctx := { state.ctx with arenaRecordCache := arena } }

/-- One call. What one does that strays to a destroyed arena is not defined from there
on, so there is no call behind it. -/
def step (state : State) (call : Call) : Option State :=
  if state.strayed then none
  else
    match call with
    | .close =>
      if state.gone ∧ follows state.ctx .close then
        some { state with
          ctx := { state.ctx with isOpen := false }
          strayed := true
          effects := state.effects ++ [.sqliteClosed state.ctx.hDb] }
      else
        (sqDbClose (some state.ctx)).bind fun (ctx, effects) =>
          ctx.map fun ctx => { state with ctx, effects := state.effects ++ effects }
    | .closeContext force =>
      if state.gone ∧ follows state.ctx (.closeContext force) then some { state with strayed := true }
      else
        (sqDbCloseContext (some state.ctx) force).map fun (arena, status) => state.destroyed arena status

/-- How often the database has been closed. -/
def closings (effects : List Effect) : Nat :=
  effects.countP fun effect => match effect with | .sqliteClosed _ => true | _ => false

/-- The arena is destroyed once at most and not followed to afterwards, and the database
is closed once at most. -/
structure Safe (state : State) : Prop where
  once : state.destroys ≤ 1
  unstrayed : state.strayed = false
  closedOnce : closings state.effects ≤ 1

/-- Without force an open context is refused, and its arena is there and as it was. -/
def RefusesOpen (state : State) : Call → Prop
  | .closeContext false => state.ctx.isOpen = true →
      state.gone = false ∧ ∃ status, status ≠ asStatus .arena .success .destroy ∧
        sqDbCloseContext (some state.ctx) false = some (state.ctx.arenaRecordCache, status)
  | _ => True

/-- The arena has been destroyed while the database was open or not: the context is not
closed again, nor is the database if it was open. -/
def Finished (isOpen : Bool) (calls : List Call) : Prop :=
  (∀ force, .closeContext force ∉ calls) ∧ (isOpen = true → .close ∉ calls)

/-- Nothing follows the call that destroys the arena, which is the first
`sq_db_close_context` that is forced or finds the database closed. -/
def InOrder (isOpen : Bool) : List Call → Prop
  | [] => True
  | .close :: rest => InOrder false rest
  | .closeContext force :: rest =>
    if isOpen = true ∧ force = false then InOrder isOpen rest else Finished isOpen rest

/-! ## Steps -/

/-- What holds of a context as long as no call has strayed. -/
structure Sound (state : State) : Prop where
  unstrayed : state.strayed = false
  requested : state.ctx.isArenaReq = true
  unlocked : ∀ cache ∈ state.ctx.arenaRecordCache, cache.mutex = false
  marked : ∀ cache ∈ state.ctx.arenaRecordCache,
    cache.containsDbHandle = state.ctx.isOpen ∧ cache.containsFd = false
  there : state.gone = true → state.ctx.arenaRecordCache.isSome = true
  counted : state.destroys = if state.gone then 1 else 0
  closed : closings state.effects = if state.ctx.isOpen then 0 else 1

/-- The pointer of an arena whose mark has been taken off. -/
def unmarked (cache : Option Arena) : Option Arena :=
  cache.map fun cache => { cache with containsDbHandle := false }

/-- What a call does to a sound context. -/
inductive Moves (state : State) : Call → State → Prop
  | strays (gone : state.gone = true) (follows_ : follows state.ctx call = true)
      (strayed : next.strayed = true) : Moves state call next
  | closes (isOpen : state.ctx.isOpen = true) (kept : state.gone = false) :
      Moves state .close { state with
        ctx := { state.ctx with
          isOpen := false, arenaRecordCache := unmarked state.ctx.arenaRecordCache }
        effects := state.effects ++ [.sqliteClosed state.ctx.hDb] }
  | closed (isClosed : state.ctx.isOpen = false) : Moves state .close state
  | refuses (kept : state.gone = false)
      (why : state.ctx.arenaRecordCache = none ∨ state.ctx.isOpen = true ∧ force = false)
      (status : Status) (other : status ≠ asStatus .arena .success .destroy)
      (returned : sqDbCloseContext (some state.ctx) force = some (state.ctx.arenaRecordCache, status)) :
      Moves state (.closeContext force) state
  | destroys (kept : state.gone = false) (held : state.ctx.arenaRecordCache.isSome = true)
      (why : ¬ (state.ctx.isOpen = true ∧ force = false)) :
      Moves state (.closeContext force) { state with gone := true, destroys := state.destroys + 1 }

private theorem destroyed_other (other : status ≠ asStatus .arena .success .destroy) (state : State) :
    state.destroyed state.ctx.arenaRecordCache status = state := if_neg other

private theorem destroyed_success (state : State) (arena : Option Arena) :
    state.destroyed arena (asStatus .arena .success .destroy) =
      { state with gone := true, destroys := state.destroys + 1 } := if_pos rfl

private theorem step_strays (sound : Sound state) (gone : state.gone = true)
    (follows_ : follows state.ctx call = true) :
    ∃ next, step state call = some next ∧ Moves state call next := by
  have both : state.gone = true ∧ follows state.ctx call = true := ⟨gone, follows_⟩
  cases call with
  | close =>
    have taken : step state .close = some { state with
        ctx := { state.ctx with isOpen := false }
        strayed := true
        effects := state.effects ++ [.sqliteClosed state.ctx.hDb] } := by
      simp only [step, sound.unstrayed, Bool.false_eq_true, if_false, if_pos both]
    exact ⟨_, taken, .strays gone follows_ rfl⟩
  | closeContext force =>
    have taken : step state (.closeContext force) = some { state with strayed := true } := by
      simp only [step, sound.unstrayed, Bool.false_eq_true, if_false, if_pos both]
    exact ⟨_, taken, .strays gone follows_ rfl⟩

private theorem close_moves (sound : Sound state) :
    ∃ next, step state .close = some next ∧ Moves state .close next := by
  by_cases strays : state.gone = true ∧ follows state.ctx .close = true
  · exact step_strays sound strays.1 strays.2
  · have taken : step state .close =
        (sqDbClose (some state.ctx)).bind fun (ctx, effects) =>
          ctx.map fun ctx => { state with ctx, effects := state.effects ++ effects } := by
      rw [step, if_neg (by simp [sound.unstrayed])]
      exact if_neg strays
    cases isOpen : state.ctx.isOpen with
    | false =>
      refine ⟨state, ?_, .closed isOpen⟩
      rw [taken, sqDbClose, if_neg (by simp [isOpen])]
      simp
    | true =>
      have kept : state.gone = false := by
        by_contra gone
        have gone := Bool.eq_true_of_not_eq_false gone
        exact strays ⟨gone, by simp [follows, isOpen, sound.there gone]⟩
      have set_ : ∃ status, arenaSetContainsDbConnection state.ctx.arenaRecordCache false =
          some (unmarked state.ctx.arenaRecordCache, status) := by
        cases there : state.ctx.arenaRecordCache with
        | none => exact ⟨_, rfl⟩
        | some cache =>
          refine ⟨asStatus .arena .success .set, ?_⟩
          rw [arenaSetContainsDbConnection, if_neg (by simp [sound.unlocked cache there])]
          rfl
      obtain ⟨status, set_⟩ := set_
      refine ⟨_, ?_, .closes isOpen kept⟩
      rw [taken, sqDbClose, if_pos isOpen, set_]
      rfl

private theorem closeContext_moves (sound : Sound state) (force : Bool) :
    ∃ next, step state (.closeContext force) = some next ∧ Moves state (.closeContext force) next := by
  by_cases strays : state.gone = true ∧ follows state.ctx (.closeContext force) = true
  · exact step_strays sound strays.1 strays.2
  · have kept : state.gone = false := by
      by_contra gone
      have gone := Bool.eq_true_of_not_eq_false gone
      exact strays ⟨gone, by simp [follows, sound.requested, sound.there gone]⟩
    have called : sqDbCloseContext (some state.ctx) force =
        arenaDestroy state.ctx.arenaRecordCache force := if_pos sound.requested
    have taken : step state (.closeContext force) =
        (sqDbCloseContext (some state.ctx) force).map fun (arena, status) =>
          state.destroyed arena status := by
      rw [step, if_neg (by simp [sound.unstrayed])]
      exact if_neg strays
    cases there : state.ctx.arenaRecordCache with
    | none =>
      have returned : sqDbCloseContext (some state.ctx) force =
          some (state.ctx.arenaRecordCache, asStatus .arena .fatal .param) := by
        rw [called, there]
        rfl
      refine ⟨state, ?_, .refuses kept (.inl there) _ (by decide) returned⟩
      rw [taken, returned]
      exact congrArg some (destroyed_other (by decide) state)
    | some cache =>
      obtain ⟨mark, fd⟩ := sound.marked cache there
      have free : ¬ cache.mutex = true := by simp [sound.unlocked cache there]
      by_cases why : state.ctx.isOpen = true ∧ force = false
      · have returned : sqDbCloseContext (some state.ctx) force =
            some (state.ctx.arenaRecordCache, asStatus .arena .failure .resourceHeld) := by
          rw [called, there, arenaDestroy, if_neg free, if_pos ⟨why.2, .inl (mark.trans why.1)⟩]
        refine ⟨state, ?_, .refuses kept (.inr why) _ (by decide) returned⟩
        rw [taken, returned]
        exact congrArg some (destroyed_other (by decide) state)
      · have returned : sqDbCloseContext (some state.ctx) force =
            some (none, asStatus .arena .success .destroy) := by
          have unheld : ¬ (force = false ∧ (cache.containsDbHandle = true ∨ cache.containsFd = true)) := by
            rw [mark, fd]
            simpa [and_comm] using why
          rw [called, there, arenaDestroy, if_neg free, if_neg unheld]
        refine ⟨_, ?_, .destroys kept (by rw [there]; rfl) why⟩
        rw [taken, returned]
        exact congrArg some (destroyed_success state none)

theorem step_moves (sound : Sound state) (call : Call) :
    ∃ next, step state call = some next ∧ Moves state call next := by
  cases call with
  | close => exact close_moves sound
  | closeContext force => exact closeContext_moves sound force

private theorem closings_append (first second : List Effect) :
    closings (first ++ second) = closings first + closings second :=
  List.countP_append

/-- A call that does not stray leaves a sound context. -/
theorem sound_moves (sound : Sound state) (moves : Moves state call next)
    (unstrayed : next.strayed = false) : Sound next := by
  obtain ⟨_, requested, unlocked, marked, there, counted, closed⟩ := sound
  cases moves with
  | strays _ _ strayed => exact Bool.noConfusion (unstrayed.symm.trans strayed)
  | closes isOpen kept =>
    refine ⟨unstrayed, requested, ?_, ?_, fun gone => ?_, counted, ?_⟩
    · intro cache member
      obtain ⟨old, held, rfl⟩ := Option.map_eq_some_iff.mp member
      exact unlocked old held
    · intro cache member
      obtain ⟨old, held, rfl⟩ := Option.map_eq_some_iff.mp member
      exact ⟨rfl, (marked old held).2⟩
    · exact Bool.noConfusion (kept.symm.trans gone)
    · simp only [closings_append, closed, isOpen]
      rfl
  | closed _ | refuses _ _ _ _ _ => exact ⟨unstrayed, requested, unlocked, marked, there, counted, closed⟩
  | destroys kept held _ =>
    refine ⟨unstrayed, requested, unlocked, marked, fun _ => held, ?_, closed⟩
    simp only [counted, kept]
    rfl

/-- The pointer is not followed to an arena that has been destroyed. -/
def StaysAway (state : State) (call : Call) : Prop :=
  ¬ (state.gone = true ∧ follows state.ctx call = true)

private theorem safe_of_sound (sound : Sound state) : Safe state := by
  refine ⟨?_, sound.unstrayed, ?_⟩
  · rw [sound.counted]
    split <;> decide
  · rw [sound.closed]
    split <;> decide

private theorem safe_moves_iff (sound : Sound state) (moves : Moves state call next) :
    Safe next ∧ RefusesOpen state call ↔ StaysAway state call := by
  have after := sound_moves sound moves
  cases moves with
  | strays gone follows_ strayed =>
    exact iff_of_false (fun both => Bool.noConfusion (both.1.unstrayed.symm.trans strayed))
      fun away => away ⟨gone, follows_⟩
  | closes isOpen kept =>
    refine iff_of_true ⟨safe_of_sound (after sound.unstrayed), trivial⟩ fun both => ?_
    exact Bool.noConfusion (kept.symm.trans both.1)
  | closed isClosed =>
    refine iff_of_true ⟨safe_of_sound sound, trivial⟩ fun both => ?_
    simp [follows, isClosed] at both
  | @refuses force kept why status other returned =>
    refine iff_of_true ⟨safe_of_sound sound, ?_⟩ fun both => Bool.noConfusion (kept.symm.trans both.1)
    cases force with
    | true => trivial
    | false => exact fun _ => ⟨kept, status, other, returned⟩
  | @destroys force kept held why =>
    refine iff_of_true ⟨safe_of_sound (after sound.unstrayed), ?_⟩
      fun both => Bool.noConfusion (kept.symm.trans both.1)
    cases force with
    | true => trivial
    | false => exact fun isOpen => absurd ⟨isOpen, rfl⟩ why

/-! ## Runs -/

/-- Once the arena is gone, a run stays away from it if it does not close again. -/
private theorem finished_iff (sound : Sound state) (gone : state.gone = true) (calls : List Call) :
    EachStep step StaysAway state calls ↔ Finished state.ctx.isOpen calls := by
  have there := sound.there gone
  induction calls generalizing state with
  | nil => exact iff_of_true trivial ⟨fun _ => List.not_mem_nil, fun _ => List.not_mem_nil⟩
  | cons call rest ih =>
    obtain ⟨next, taken, moves⟩ := step_moves sound call
    have first : EachStep step StaysAway state (call :: rest) ↔
        StaysAway state call ∧ EachStep step StaysAway next rest := by
      refine ⟨fun met => met next taken, fun met other same => ?_⟩
      cases taken.symm.trans same
      exact met
    rw [first]
    cases call with
    | close =>
      by_cases isOpen : state.ctx.isOpen = true
      · refine iff_of_false (fun both => both.1 ⟨gone, ?_⟩) fun finished => ?_
        · simp [follows, isOpen, there]
        · exact finished.2 isOpen List.mem_cons_self
      · have away : StaysAway state .close := fun both => by simp [follows, isOpen] at both
        have kept : next = state := by
          cases moves with
          | strays _ follows_ _ => exact absurd ⟨gone, follows_⟩ away
          | closes isOpen_ _ => exact absurd isOpen_ isOpen
          | closed _ => rfl
        subst kept
        refine (and_congr_right fun _ => ih sound gone there).trans ?_
        simp [away, Finished, isOpen]
    | closeContext force =>
      refine iff_of_false (fun both => both.1 ⟨gone, ?_⟩) fun finished => ?_
      · simp [follows, sound.requested, there]
      · exact finished.1 force List.mem_cons_self

/-- As long as the arena is there, the order of the calls decides. -/
private theorem inOrder_iff (sound : Sound state) (kept : state.gone = false)
    (there : state.ctx.arenaRecordCache.isSome = true) (calls : List Call) :
    EachStep step StaysAway state calls ↔ InOrder state.ctx.isOpen calls := by
  induction calls generalizing state with
  | nil => exact Iff.rfl
  | cons call rest ih =>
    obtain ⟨next, taken, moves⟩ := step_moves sound call
    have first : EachStep step StaysAway state (call :: rest) ↔ EachStep step StaysAway next rest := by
      refine ⟨fun met => (met next taken).2, fun met other same => ?_⟩
      cases taken.symm.trans same
      exact ⟨fun both => Bool.noConfusion (kept.symm.trans both.1), met⟩
    rw [first]
    have after := sound_moves sound moves
    cases moves with
    | strays gone _ _ => exact Bool.noConfusion (kept.symm.trans gone)
    | closes isOpen _ =>
      refine ih (after sound.unstrayed) kept ?_
      simpa [unmarked] using there
    | closed isClosed =>
      rw [ih sound kept there, InOrder, isClosed]
    | refuses _ why status other returned =>
      rcases why with none_ | why
      · rw [none_] at there
        cases there
      · rw [ih sound kept there, InOrder, if_pos why]
    | destroys _ _ why =>
      rw [finished_iff (after sound.unstrayed) rfl, InOrder, if_neg why]

/-- Without an arena there is nothing to stray to. -/
private theorem away_without_arena (sound : Sound state) (none_ : state.ctx.arenaRecordCache = none)
    (calls : List Call) : EachStep step StaysAway state calls := by
  induction calls generalizing state with
  | nil => trivial
  | cons call rest ih =>
    obtain ⟨next, taken, moves⟩ := step_moves sound call
    have nothing : follows state.ctx call = false := by
      cases call <;> simp [follows, none_]
    have kept : next.strayed = false ∧ next.ctx.arenaRecordCache = none := by
      cases moves with
      | strays _ follows_ _ => exact Bool.noConfusion (nothing.symm.trans follows_)
      | closes _ _ => exact ⟨sound.unstrayed, by rw [none_]; rfl⟩
      | closed _ | refuses _ _ _ _ _ | destroys _ _ _ => exact ⟨sound.unstrayed, none_⟩
    intro other same
    cases taken.symm.trans same
    exact ⟨fun both => Bool.noConfusion (nothing.symm.trans both.2),
      ih (sound_moves sound moves kept.1) kept.2⟩

/-- The context that `sq_db_init` leaves open is sound. -/
private theorem sound_start (opened : answers.opened = true)
    (made : sqDbInit (some before) answers = some (returned, some ctx, effects)) : Sound (start ctx) := by
  have isOpen : ¬ answers.opened = false := by simp [opened]
  have set_ : ∃ cache status, arenaSetContainsDbConnection
        (arenaInit sizeBlockDefault answers.cacheRoom answers.cacheBlock) true = some (cache, status) ∧
      ∀ arena ∈ cache, arena.mutex = false ∧ arena.containsDbHandle = true ∧ arena.containsFd = false := by
    cases init : arenaInit sizeBlockDefault answers.cacheRoom answers.cacheBlock with
    | none => exact ⟨none, asStatus .arena .fatal .param, rfl, by simp⟩
    | some arena =>
      obtain ⟨free, fd, _⟩ := arenaInit_flags init
      refine ⟨some { arena with containsDbHandle := true }, asStatus .arena .success .set, ?_, ?_⟩
      · rw [arenaSetContainsDbConnection, if_neg (by simp [free])]
      · intro other same
        cases same
        exact ⟨free, rfl, fd⟩
  obtain ⟨cache, status, set_, flags⟩ := set_
  have same : ctx = ⟨answers.handle, true, cache, true⟩ := by
    simp only [sqDbInit] at made
    rw [if_neg isOpen, set_] at made
    simp only [Option.bind_eq_bind, Option.bind_some] at made
    split at made
    · rw [dbgmsg_eq_none_iff.mpr (.inr (.inr rfl))] at made
      cases made
    · cases made
      rfl
  subst same
  exact ⟨rfl, rfl, fun arena member => (flags arena member).1, fun arena member => (flags arena member).2,
    by simp [start], rfl, rfl⟩

/-- Every sequence of closing calls on a context that `sq_db_init` opened, whether or not
it had memory for the arena: the arena and the database are closed
once at most, nothing strays and an open context is refused without force, exactly if
there is no arena or no call follows its destruction. -/
theorem closing_safe_iff_in_order (opened : answers.opened = true)
    (made : sqDbInit (some before) answers = some (returned, some ctx, effects)) (calls : List Call) :
    Throughout step Safe (start ctx) calls ∧ EachStep step RefusesOpen (start ctx) calls ↔
      ctx.arenaRecordCache = none ∨ InOrder ctx.isOpen calls := by
  have sound := sound_start opened made
  have kept : ∀ state call next, Sound state → Safe state → Safe next →
      RefusesOpen state call → step state call = some next → Sound next := by
    intro state call next sound _ safe _ taken
    obtain ⟨other, same, moves⟩ := step_moves sound call
    cases taken.symm.trans same
    exact sound_moves sound moves safe.unstrayed
  have exact_ : ∀ state call next, Sound state → Safe state → step state call = some next →
      (Safe next ∧ RefusesOpen state call ↔ StaysAway state call) := by
    intro state call next sound _ taken
    obtain ⟨other, same, moves⟩ := step_moves sound call
    cases taken.symm.trans same
    exact safe_moves_iff sound moves
  rw [throughout_and_each_step_iff kept exact_ sound (safe_of_sound sound)]
  cases there : ctx.arenaRecordCache with
  | none => exact iff_of_true (away_without_arena sound there calls) (.inl rfl)
  | some cache =>
    have held : (start ctx).ctx.arenaRecordCache.isSome = true := by
      rw [show (start ctx).ctx.arenaRecordCache = some cache from there]
      rfl
    rw [inOrder_iff sound rfl held calls]
    simp [start]

/-- The database is closed first, the context then. -/
theorem close_then_context :
    Throughout step Safe
        (start ⟨some 7, true, some ⟨false, ⟨[], ⟨4096, 0, false, none, 0, 1024, Library.Bytes.zeros⟩, []⟩,
          1024, false, true, false⟩, true⟩)
        [.closeContext false, .close, .closeContext false, .close] ∧
      EachStep step RefusesOpen
        (start ⟨some 7, true, some ⟨false, ⟨[], ⟨4096, 0, false, none, 0, 1024, Library.Bytes.zeros⟩, []⟩,
          1024, false, true, false⟩, true⟩)
        [.closeContext false, .close, .closeContext false, .close] := by
  have made : sqDbInit (some ⟨none, false, none, false⟩) ⟨true, some 7, true, some 4096, true⟩ =
      some (true, some _, []) := rfl
  apply (closing_safe_iff_in_order rfl made _).mpr
  refine .inr ⟨?_, nofun⟩
  simp

/-- A context closed twice by force: the second call follows the pointer to the arena
that the first has destroyed. -/
theorem second_close_strays :
    ¬ ∀ before answers returned ctx effects calls, answers.opened = true →
      sqDbInit (some before) answers = some (returned, some ctx, effects) →
        Throughout step Safe (start ctx) calls ∧ EachStep step RefusesOpen (start ctx) calls := by
  intro always
  have both := always ⟨none, false, none, false⟩ ⟨true, some 7, true, some 4096, true⟩ true _ []
    [.closeContext true, .closeContext true] rfl rfl
  have final := throughout_final both.1 (show exec step _ _ = some _ from rfl)
  exact Bool.noConfusion final.unstrayed

end ShapeQuake.DatabaseClosing
