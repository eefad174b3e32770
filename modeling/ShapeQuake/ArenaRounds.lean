import ShapeQuake.AllocatorInvariants
import ShapeQuake.ArenaCalls

/-! An arena that serves the same requests again after a reset. The first time the loop
of `arena_allocate_raw` may append blocks; the second time it walks on to them, and they
have room for what they were appended for. -/
namespace ShapeQuake.ArenaRounds
open Library.Bytes Library.Runs Allocator AllocatorInvariants
open ArenaCalls (Answered alloc_answered places places_cons unlocked_reached)

/-- Requests in order, each with the answer of `malloc` if it is asked, and the pointers
that are returned. -/
def allocAll (arena : Arena) : List (Nat × Option Nat) → Option (Arena × List (Option Pointer))
  | [] => some (arena, [])
  | (size, malloc) :: rest =>
    (arenaAlloc arena size malloc).bind fun (next, pointer) =>
      (allocAll next rest).map fun (last, pointers) => (last, pointer :: pointers)

/-- A reset, and requests after it. -/
def round (arena : Arena) (requests : List (Nat × Option Nat)) :
    Option (Arena × List (Option Pointer)) :=
  (arenaReset (some arena)).join.bind (allocAll · requests)

/-- One round after the other. -/
def rounds (arena : Arena) :
    List (List (Nat × Option Nat)) → Option (Arena × List (List (Option Pointer)))
  | [] => some (arena, [])
  | requests :: rest =>
    (round arena requests).bind fun (next, pointers) =>
      (rounds next rest).map fun (last, others) => (last, pointers :: others)

/-- `current` hands out the same in the second arena as in the first, and behind it are the
same blocks and then more: those that the first has yet to append. -/
structure Ahead (more : List (Nat × Nat)) (first second : Blocks) : Prop where
  address : second.current.address = first.current.address
  offset : second.current.offset = first.current.offset
  capacity : second.current.capacity = first.current.capacity
  after : places second.after = places first.after ++ more

private theorem places_eq_cons (behind : places later = place :: more) :
    ∃ next rest, later = next :: rest ∧ next.address = place.1 ∧ next.capacity = place.2 ∧
      places rest = more := by
  obtain ⟨next, rest, rfl, same, others⟩ := List.map_eq_cons_iff.mp behind
  exact ⟨next, rest, rfl, congrArg Prod.fst same, congrArg Prod.snd same, others⟩

/-! ## One request -/

/-- A block appended for a request has room for it once it is empty again. -/
private theorem appended_fits (unitWhole : 16 ∣ blockSize) (unitFits : blockSize < 2 ^ 64) (size : Nat) :
    wrap64 (0 + align size) ≤
      align (if align size > blockSize then align size else blockSize) := by
  have next : (if align size > blockSize then align size else blockSize) =
      max (align size) blockSize := by
    split <;> omega
  rw [next, align_nextSize unitWhole unitFits, Nat.zero_add, wrap64_of_lt (align_lt size)]
  exact Nat.le_max_left _ _

/-- Where `current` is full in the first arena, it is in the second. -/
private theorem ahead_full (ahead : Ahead more ⟨before, current, after⟩ second)
    (full : wrap64 (current.offset + aligned) > current.capacity) :
    wrap64 (second.current.offset + aligned) > second.current.capacity := by
  rw [ahead.offset, ahead.capacity]
  exact full

private theorem ahead_here (ahead : Ahead more ⟨before, current, after⟩ second)
    (fits : ¬ wrap64 (current.offset + aligned) > current.capacity) :
    findRoom aligned blockSize answer second.before second.current second.after = (second, true) := by
  apply findRoom_here
  rw [ahead.offset, ahead.capacity]
  exact Nat.not_lt.mp fits

/-- Where the first arena finds room, or appends it, the second is ahead of it by as many
blocks as the first has still to append, and finds the same room without asking. -/
theorem findRoom_ahead (unitWhole : 16 ∣ blockSize) (unitFits : blockSize < 2 ^ 64)
    (ran : findRoom (align size) blockSize malloc before current after = (found, true)) :
    ∃ grown, places found.chain = places (before ++ current :: after) ++ grown ∧
      ∀ more second answer, Ahead (grown ++ more) ⟨before, current, after⟩ second →
        ∃ again, findRoom (align size) blockSize answer second.before second.current second.after =
            (again, true) ∧
          places again.chain = places second.chain ∧ Ahead more found again := by
  induction after generalizing before current with
  | nil =>
    rw [findRoom] at ran
    split at ran
    case isTrue full =>
      cases malloc with
      | none => cases ran
      | some address =>
        cases ran
        refine ⟨[(address, align (if align size > blockSize then align size else blockSize))],
          by simp, ?_⟩
        rintro more ⟨earlier, present, later⟩ answer ahead
        -- the block that the first arena appends here is there already
        obtain ⟨next, rest, rfl, where_, room, others⟩ := places_eq_cons ahead.after
        refine ⟨⟨earlier ++ [present], { next with offset := 0 }, rest⟩, ?_, by simp [Blocks.chain],
          ⟨where_, rfl, room, others⟩⟩
        rw [findRoom, if_pos (ahead_full ahead full)]
        apply findRoom_here
        exact Nat.le_trans (appended_fits unitWhole unitFits size) (Nat.le_of_eq room.symm)
    case isFalse fits =>
      cases ran
      exact ⟨[], by simp, fun more second answer ahead => ⟨second, ahead_here ahead fits, rfl, ahead⟩⟩
  | cons next rest ih =>
    rw [findRoom] at ran
    split at ran
    case isTrue full =>
      obtain ⟨grown, same, follows⟩ := ih ran
      refine ⟨grown, by simpa using same, ?_⟩
      rintro more ⟨earlier, present, later⟩ answer ahead
      obtain ⟨other, others, rfl, where_, room, behind⟩ := places_eq_cons ahead.after
      obtain ⟨again, moved, kept, further⟩ :=
        follows more ⟨earlier ++ [present], { other with offset := 0 }, others⟩ answer
          ⟨where_, rfl, room, behind⟩
      refine ⟨again, ?_, by simpa [Blocks.chain] using kept, further⟩
      rw [findRoom, if_pos (ahead_full ahead full)]
      exact moved
    case isFalse fits =>
      cases ran
      exact ⟨[], by simp, fun more second answer ahead => ⟨second, ahead_here ahead fits, rfl, ahead⟩⟩

/-- Two arenas of one unit, the second unlocked and ahead. -/
structure Serves (more : List (Nat × Nat)) (first second : Arena) : Prop where
  unlocked : second.mutex = false
  unit : second.blockSize = first.blockSize
  ahead : Ahead more first.blocks second.blocks

/-- The unit of an arena is a whole multiple of sixteen. -/
def UnitWhole (arena : Arena) : Prop := 16 ∣ arena.blockSize ∧ arena.blockSize < 2 ^ 64

/-- What is granted in the first arena is granted at the same place in the second. -/
theorem alloc_ahead (whole : UnitWhole arena)
    (ran : arenaAlloc arena size malloc = some (next, some pointer)) :
    next.mutex = false ∧ next.blockSize = arena.blockSize ∧
      ∃ grown, places next.blocks.chain = places arena.blocks.chain ++ grown ∧
        ∀ more second answer, Serves (grown ++ more) arena second →
          ∃ again, arenaAlloc second size answer = some (again, some pointer) ∧
            places again.blocks.chain = places second.blocks.chain ∧ Serves more next again := by
  obtain ⟨unlocked, found, room, loop, ⟨_, none_, _⟩ | ⟨rfl, same, rfl⟩⟩ := arenaAllocateRaw_cases ran
  · cases none_
  · obtain ⟨grown, places_, follows⟩ := findRoom_ahead whole.1 whole.2 loop
    refine ⟨unlocked, rfl, grown, by simpa [Blocks.chain] using places_, ?_⟩
    intro more second answer serves
    obtain ⟨again, moved, kept, ahead⟩ := follows more second.blocks answer serves.ahead
    rw [← serves.unit] at moved
    refine ⟨{ second with
        blocks := { again with
          current := { again.current with offset := wrap64 (again.current.offset + align size) } }
        isReset := false }, ?_, by simpa [Blocks.chain] using kept,
      ⟨serves.unlocked, serves.unit, ahead.address, ?_, ahead.capacity, ahead.after⟩⟩
    · simp only [arenaAlloc, arenaAllocateRaw, serves.unlocked, Bool.false_eq_true, if_false, moved,
        same, ahead.address, ahead.offset]
    · simp only [ahead.offset]

/-! ## One round -/

/-- Requests that all find memory are granted, in the second arena as in the first. -/
theorem allocAll_ahead (whole : UnitWhole arena) (unlocked : arena.mutex = false)
    (answered : ∀ request ∈ requests, request.2.isSome) :
    ∃ last, ∃ pointers : List Pointer, allocAll arena requests = some (last, pointers.map some) ∧
      last.mutex = false ∧ last.blockSize = arena.blockSize ∧
      ∃ grown, places last.blocks.chain = places arena.blocks.chain ++ grown ∧
        ∀ second again, again.map Prod.fst = requests.map Prod.fst → Serves grown arena second →
          ∃ final, allocAll second again = some (final, pointers.map some) ∧
            final.mutex = false ∧ final.blockSize = arena.blockSize ∧
            places final.blocks.chain = places second.blocks.chain := by
  induction requests generalizing arena with
  | nil =>
    refine ⟨arena, [], rfl, unlocked, rfl, [], by simp, fun second again sizes serves => ?_⟩
    obtain rfl := List.map_eq_nil_iff.mp sizes
    exact ⟨second, rfl, serves.unlocked, serves.unit, rfl⟩
  | cons request rest ih =>
    obtain ⟨size, malloc⟩ := request
    obtain ⟨here, others⟩ := List.forall_mem_cons.mp answered
    obtain ⟨next, pointer, ran⟩ := alloc_answered unlocked here size
    obtain ⟨free, unit, grown, places_, follows⟩ := alloc_ahead whole ran
    have wholeNext : UnitWhole next := ⟨unit ▸ whole.1, unit ▸ whole.2⟩
    obtain ⟨last, pointers, all, released, same, more, further, serve⟩ := ih wholeNext free others
    refine ⟨last, pointer :: pointers, by simp [allocAll, ran, all], released, same.trans unit,
      grown ++ more, by rw [further, places_, List.append_assoc], fun second again sizes serves => ?_⟩
    obtain ⟨⟨_, answer⟩, others, rfl, rfl, rest_⟩ := List.map_eq_cons_iff.mp sizes
    obtain ⟨after, granted, kept, ahead⟩ := follows more second answer serves
    obtain ⟨final, served, unlocked, size_, chain⟩ := serve after others rest_ ahead
    exact ⟨final, by simp [allocAll, granted, served], unlocked, size_.trans unit, chain.trans kept⟩

/-- After a reset `current` is the first block, and empty. -/
private theorem emptied_blocks (arena : Arena) :
    ∃ head rest, arena.emptied.blocks = ⟨[], head, rest⟩ ∧ head.offset = 0 ∧
      places (head :: rest) = places arena.blocks.chain := by
  have chain : arena.emptied.blocks.chain = arena.blocks.chain.map (internalBlockShred true) := by
    rw [Arena.emptied, rewind_chain, chain_map]
  have before : arena.emptied.blocks.before = [] := rewind_before _
  refine ⟨arena.emptied.blocks.current, arena.emptied.blocks.after, ?_, ?_, ?_⟩
  · rw [← before]
  · have member := current_mem_chain arena.emptied.blocks
    rw [chain] at member
    obtain ⟨block, _, same⟩ := List.mem_map.mp member
    exact same ▸ rfl
  · have whole : arena.emptied.blocks.current :: arena.emptied.blocks.after =
        arena.emptied.blocks.chain := by
      rw [Blocks.chain, before, List.nil_append]
    rw [whole, chain, places, places, List.map_map]
    rfl

private theorem places_emptied (arena : Arena) :
    places arena.emptied.blocks.chain = places arena.blocks.chain := by
  obtain ⟨head, rest, blocks, _, held⟩ := emptied_blocks arena
  rw [blocks, ← held]
  rfl

/-- A reset puts an arena with more blocks ahead of one with the first of them. -/
private theorem serves_emptied {first second : Arena} (unlocked : second.mutex = false)
    (unit : second.blockSize = first.blockSize)
    (chain : places second.blocks.chain = places first.blocks.chain ++ more) :
    Serves more first.emptied second.emptied := by
  obtain ⟨head, rest, blocks, empty, held⟩ := emptied_blocks first
  obtain ⟨other, others, blocks₂, empty₂, held₂⟩ := emptied_blocks second
  rw [← held₂, ← held, places_cons, places_cons, List.cons_append] at chain
  obtain ⟨place, behind⟩ := List.cons.inj chain
  refine ⟨unlocked, unit, ?_⟩
  rw [blocks, blocks₂]
  exact ⟨congrArg Prod.fst place, empty₂.trans empty.symm, congrArg Prod.snd place, behind⟩

private theorem round_unlocked (unlocked : arena.mutex = false) (requests : List (Nat × Option Nat)) :
    round arena requests = allocAll arena.emptied requests := by
  simp [round, arenaReset_unlocked unlocked]

/-- However often requests of the same sizes are served, each in a round that starts with
a reset, the first round decides where, and no later round needs a block. -/
theorem rounds_ahead (whole : UnitWhole arena) (unlocked : arena.mutex = false)
    (answered : ∀ request ∈ requests, request.2.isSome) :
    ∃ once, ∃ pointers : List Pointer, round arena requests = some (once, pointers.map some) ∧
      ∀ later : List (List (Nat × Option Nat)),
        (∀ again ∈ later, again.map Prod.fst = requests.map Prod.fst) →
        ∃ last, rounds once later = some (last, later.map fun _ => pointers.map some) ∧
          places last.blocks.chain = places once.blocks.chain := by
  have wholeEmptied : UnitWhole arena.emptied := whole
  have free : arena.emptied.mutex = false := unlocked
  obtain ⟨once, pointers, ran, released, unit, grown, chain, serve⟩ :=
    allocAll_ahead wholeEmptied free answered
  rw [places_emptied] at chain
  refine ⟨once, pointers, (round_unlocked unlocked requests).trans ran, fun later sizes => ?_⟩
  clear ran
  induction later generalizing once with
  | nil => exact ⟨once, rfl, rfl⟩
  | cons again rest ih =>
    obtain ⟨same, others⟩ := List.forall_mem_cons.mp sizes
    obtain ⟨next, served, unlockedNext, unitNext, kept⟩ :=
      serve once.emptied again same (serves_emptied released unit chain)
    rw [places_emptied] at kept
    obtain ⟨last, all, final⟩ := ih next unlockedNext unitNext (kept.trans chain) others
    exact ⟨last, by simp [rounds, round_unlocked released, served, all], final.trans kept⟩

/-! ## Arenas that are reached -/

theorem unitWhole_init (made : arenaInit blockSize room malloc = some arena) : UnitWhole arena := by
  unfold arenaInit at made
  split at made
  · obtain ⟨_, _, rfl⟩ := Option.map_eq_some_iff.mp made
    exact ⟨align_dvd _, align_lt _⟩
  · cases made

theorem unitWhole_reached (made : arenaInit blockSize room malloc = some first)
    (ran : exec ArenaCalls.step first calls = some arena) : UnitWhole arena := by
  apply exec_invariant _ (unitWhole_init made) ran
  intro arena call next whole taken
  obtain ⟨_, _, unit, _⟩ := ArenaCalls.step_extends taken
  exact ⟨unit ▸ whole.1, unit ▸ whole.2⟩

/-- Whatever has happened to an arena for which there is always memory: requests made
after a reset return the same pointers each time they are made again after another reset,
and from the second time on no block is added. -/
theorem rounds_return_same (made : arenaInit blockSize room memory = some first)
    (ran : exec ArenaCalls.step first calls = some arena) (answeredBefore : ∀ call ∈ calls, Answered call)
    (requests : List (Nat × Option Nat)) (answered : ∀ request ∈ requests, request.2.isSome) :
    ∃ once, ∃ pointers : List Pointer, round arena requests = some (once, pointers.map some) ∧
      ∀ later : List (List (Nat × Option Nat)),
        (∀ again ∈ later, again.map Prod.fst = requests.map Prod.fst) →
        ∃ last, rounds once later = some (last, later.map fun _ => pointers.map some) ∧
          last.blocks.chain.map ArenaBlock.address = once.blocks.chain.map ArenaBlock.address := by
  have unlocked := unlocked_reached (arenaInit_flags made).1 answeredBefore ran
  obtain ⟨once, pointers, served, follows⟩ :=
    rounds_ahead (unitWhole_reached made ran) unlocked answered
  refine ⟨once, pointers, served, fun later sizes => ?_⟩
  obtain ⟨last, all, kept⟩ := follows later sizes
  refine ⟨last, all, ?_⟩
  have addresses := congrArg (List.map Prod.fst) kept
  simpa only [places, List.map_map, Function.comp_def] using addresses

/-- An arena of sixteen bytes, in which the second request of each round needs a block of
its own: it is allocated once. -/
theorem second_round_grows_nothing :
    ∃ arena once last pointers, arenaInit 16 true (some 4096) = some arena ∧
      round arena [(16, some 8192), (40, some 8192)] = some (once, pointers) ∧
      rounds once [[(16, none), (40, none)]] = some (last, [pointers]) ∧
      last.blocks.chain.map ArenaBlock.address = once.blocks.chain.map ArenaBlock.address := by
  obtain ⟨arena, made⟩ : ∃ arena, arenaInit 16 true (some 4096) = some arena := ⟨_, rfl⟩
  obtain ⟨once, pointers, served, follows⟩ := rounds_return_same made exec_nil (by simp)
    [(16, some 8192), (40, some 8192)] (by simp)
  obtain ⟨last, all, kept⟩ := follows [[(16, none), (40, none)]] (by simp)
  exact ⟨arena, once, last, pointers.map some, made, served, all, kept⟩

end ShapeQuake.ArenaRounds
