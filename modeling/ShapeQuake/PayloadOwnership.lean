import ShapeQuake.AllocatorInvariants
import ShapeQuake.ArenaExhaustion
import ShapeQuake.Library.Runs
import ShapeQuake.ServerNetProofs

/-! Who owns the memory of a payload. `sq_handle_client_payload` takes it from the
server's arena, whose regions lie inside blocks the arena frees itself, and then
gives it to `free` as if it were a block of its own. -/
namespace ShapeQuake.PayloadOwnership
open Library.Bytes Library.Spans Library.Runs Allocator AllocatorInvariants ServerNet ServerNetProofs
open ArenaExhaustion (NeedsBlock)

/-- The server's arena, and the blocks that `malloc` has returned to the process
and that have not been freed. -/
structure State where
  arena : Arena
  heap : List Span

/-- A connection: what the client sends and how it is delivered, the answer of
`malloc` should the arena need a block, and the memory behind the payload. -/
structure Message where
  stream : List UInt8
  deliveries : List Delivery
  malloc : Option Nat
  beyond : List UInt8

/-- One message handled: the arena, the heap behind the allocation, and what is
given to `free` then. -/
structure Handling where
  arena : Arena
  heap : List Span
  frees : List Nat

/-- `sq_handle_client_payload` with the server's own arena. The payload's bytes are
left out: they go where the region is. -/
def handle (state : State) (message : Message) : Option Handling :=
  match sqRecvHeader (accepted message.stream) message.deliveries with
  | none => none
  | some (status, header, _) =>
    let allocated :=
      if getCnd status = Cnd.success.raw ∧ header.payloadSize > 0 then
        arenaAlloc state.arena header.payloadSize message.malloc
      else some (state.arena, none)
    match allocated with
    | none => none
    | some (arena, payload) =>
      (sqHandleClientPayload (accepted message.stream) message.deliveries payload.isSome
          message.beyond).map fun net =>
        { arena
          heap := (arena.blocks.chain.drop state.arena.blocks.chain.length).map ArenaBlock.span ++
            state.heap
          frees := if .freed ∈ net.actions then payload.toList.map Pointer.address else [] }

/-- `free` of an address, which has an effect for the start of a block only. -/
def free (heap : List Span) (address : Nat) : List Span := heap.filter (·.start ≠ address)

/-- The payload that a connection announces with a header that is complete and has
the right magic, or nothing. -/
def announced (message : Message) : Nat :=
  if (leftOver headerSize message.deliveries).isSome ∧ headerSize ≤ message.stream.length ∧
      (headerOf (message.stream.take headerSize)).magic = sqMagic then
    (headerOf (message.stream.take headerSize)).payloadSize
  else 0

/-- `malloc` answers with an aligned address whose block is clear of all others. -/
def Possible (state : State) (message : Message) : Prop :=
  ∀ address ∈ message.malloc, 16 ∣ address ∧
    address + totalSize (max (align (announced message)) state.arena.blockSize) ≤ 2 ^ 64 ∧
    ∀ span ∈ state.heap,
      Apart ⟨address, totalSize (max (align (announced message)) state.arena.blockSize)⟩ span

instance (state : State) (message : Message) : Decidable (Possible state message) :=
  inferInstanceAs (Decidable (∀ address ∈ message.malloc, _))

/-- One message, handled to its end. -/
def step (state : State) (message : Message) : Option State :=
  if Possible state message then
    (handle state message).map fun handled => ⟨handled.arena, handled.frees.foldl free handled.heap⟩
  else none

/-- What the message gives to `free` is the start of a block then allocated. -/
def FreesOwned (state : State) (message : Message) : Prop :=
  ∀ handled ∈ handle state message, ∀ address ∈ handled.frees,
    ∃ span ∈ handled.heap, span.start = address

/-- The blocks of the arena are allocated, and none occurs in its chain twice, so
`arena_destroy` would free each of them exactly once. -/
def BlocksOwned (state : State) : Prop :=
  (∀ block ∈ state.arena.blocks.chain, block.span ∈ state.heap) ∧
    (state.arena.blocks.chain.map ArenaBlock.address).Nodup

/-- No memory is obtained for a payload: none is announced, or the arena has no
room for it and no memory for a block. -/
def TakesNothing (state : State) (message : Message) : Prop :=
  announced message = 0 ∨ NeedsBlock state.arena (announced message) ∧ message.malloc = none

/-! ## The header and the payload -/

theorem announced_lt (message : Message) : announced message < 2 ^ 32 := by
  unfold announced
  split
  · have short : ((message.stream.take headerSize).drop 8 |>.take 4).length ≤ 4 :=
      List.length_take_le _ _
    exact Nat.lt_of_lt_of_le (ofBytes_lt _) (Nat.pow_le_pow_right (Nat.succ_pos 255) short)
  · exact Nat.two_pow_pos 32

/-- A header that is accepted announces what the connection does, and one that is
not announces nothing. -/
private theorem announced_eq
    (ran : sqRecvHeader (accepted message.stream) message.deliveries = some (status, header, net)) :
    announced message = if getCnd status = Cnd.success.raw then header.payloadSize else 0 := by
  cases looped : recvHeaderLoop (accepted message.stream) [] message.deliveries with
  | none =>
    rw [sqRecvHeader, looped] at ran
    cases ran
  | some outcome =>
    obtain ⟨bytes, refused, after⟩ := outcome
    have start : (accepted message.stream).taken ++ (accepted message.stream).stream = message.stream :=
      rfl
    rw [sqRecvHeader, looped] at ran
    rcases recvHeaderLoop_returns start (Nat.zero_le _) looped with
      ⟨rfl, rfl, long, _, rest⟩ | ⟨failure, rfl, failed, _, why⟩
    · have whole : leftOver headerSize message.deliveries = some after.deliveries := rest
      simp only at ran
      by_cases magic : (headerOf (message.stream.take headerSize)).magic = sqMagic
      · simp only [magic, ne_eq, not_true_eq_false, if_false, Option.some.injEq, Prod.mk.injEq] at ran
        obtain ⟨rfl, rfl, _⟩ := ran
        simp [announced, whole, long, magic]
      · simp only [magic, ne_eq, not_false_eq_true, if_true, Option.some.injEq, Prod.mk.injEq] at ran
        obtain ⟨rfl, rfl, _⟩ := ran
        have invalid : getCnd (asStatus .server .invalid .magic) ≠ Cnd.success.raw := getCnd_ne nofun
        rw [if_neg invalid, announced, if_neg fun all => magic all.2.2]
    · simp only [Option.some.injEq, Prod.mk.injEq] at ran
      obtain ⟨rfl, rfl, _⟩ := ran
      rw [if_neg failed, announced, if_neg]
      rintro ⟨whole, long, _⟩
      rcases why with short | ⟨none_, _⟩
      · omega
      · rw [show leftOver headerSize message.deliveries = none from none_] at whole
        cases whole

/-- What handling a message comes to: nothing, or one allocation, whose region is
then freed. -/
theorem handle_cases (ran : handle state message = some handled) :
    (announced message = 0 ∧ handled = ⟨state.arena, state.heap, []⟩) ∨
      (0 < announced message ∧ ∃ payload,
        arenaAlloc state.arena (announced message) message.malloc = some (handled.arena, payload) ∧
        handled.heap = (handled.arena.blocks.chain.map ArenaBlock.span).drop
          state.arena.blocks.chain.length ++ state.heap ∧
        handled.frees = payload.toList.map Pointer.address) := by
  unfold handle at ran
  cases header_ : sqRecvHeader (accepted message.stream) message.deliveries with
  | none =>
    rw [header_] at ran
    cases ran
  | some outcome =>
    obtain ⟨status, header, net⟩ := outcome
    have same := announced_eq header_
    simp only [header_] at ran
    by_cases asked : getCnd status = Cnd.success.raw ∧ header.payloadSize > 0
    · rw [if_pos asked.1] at same
      rw [if_pos asked] at ran
      refine .inr ⟨by rw [same]; exact asked.2, ?_⟩
      split at ran
      · cases ran
      · rename_i arena payload allocated
        obtain ⟨after, ended, rfl⟩ := Option.map_eq_some_iff.mp ran
        refine ⟨payload, by rw [same]; exact allocated, by rw [List.map_drop], ?_⟩
        cases payload with
        | none => simp
        | some pointer =>
          have freed : .freed ∈ after.actions := by
            simp only [sqHandleClientPayload, handlePayload, header_, asked.1, ne_eq, not_true_eq_false, if_false,
              if_pos asked.2, Option.isSome_some, Bool.true_eq_false] at ended
            split at ended
            · cases ended
            · split at ended <;> cases ended <;> simp [logged]
          simp [freed]
    · rw [if_neg asked] at ran
      simp only at ran
      obtain ⟨after, _, rfl⟩ := Option.map_eq_some_iff.mp ran
      refine .inl ⟨?_, by simp⟩
      rw [same]
      split
      · rename_i success
        exact Nat.eq_zero_of_not_pos fun more => asked ⟨success, more⟩
      · rfl

/-! ## The arena in the heap -/

/-- The arena is in order, its blocks are blocks of the heap, and those lie apart. -/
structure Ground (state : State) : Prop where
  formed : WellFormed state.arena.blocks state.arena.blockSize
  unit : state.arena.blockSize ≤ 2 ^ 33
  owned : ∀ span ∈ state.arena.blocks.chain.map ArenaBlock.span, span ∈ state.heap
  bounded : ∀ span ∈ state.arena.blocks.chain.map ArenaBlock.span, span.size ≤ 2 ^ 34
  apart : state.heap.Pairwise Apart
  solid : ∀ span ∈ state.heap, 0 < span.size

private theorem align_le_add (size : Nat) : align size ≤ size + 15 := by
  rw [align, roundUp16_eq]
  exact Nat.le_trans (Nat.div_mul_le_self _ _) (Nat.mod_le _ _)

private theorem grantable (ground : Ground state) (possible : Possible state message) :
    Grantable state.arena.blocks state.arena.blockSize (announced message) message.malloc := by
  have small := announced_lt message
  have rounded := align_le_add (announced message)
  have unit := ground.unit
  have capacity := newBlock_capacity ground.formed (announced message)
  have current := ground.bounded _ (List.mem_map_of_mem (current_mem_chain state.arena.blocks))
  have handed := (ground.formed.placed _ (current_mem_chain state.arena.blocks)).handed
  simp only [ArenaBlock.span, sizeofArenaBlock] at current
  refine ⟨by omega, ?_, by omega, fun address answered => ?_⟩
  · rw [capacity, sizeofArenaBlock]
    omega
  · obtain ⟨aligned, inMemory, clear⟩ := possible address answered
    exact ⟨aligned, inMemory, fun block member =>
      clear _ (ground.owned _ (List.mem_map_of_mem member))⟩

/-- The spans of the chain where the loop of an allocation ends: those it had, with
the block of `malloc` behind them if one was made. -/
private theorem found_spans (ground : Ground state) (possible : Possible state message)
    (found : RoomFound (align (announced message)) state.arena.blockSize message.malloc
      state.arena.blocks (next, room)) :
    ∃ added, next.chain.map ArenaBlock.span = state.arena.blocks.chain.map ArenaBlock.span ++ added ∧
      (added ++ state.heap).Pairwise Apart ∧ ∀ span ∈ added, 0 < span.size ∧ span.size ≤ 2 ^ 34 := by
  cases found with
  | here _ _ same => exact ⟨[], by rw [same, List.append_nil], ground.apart, nofun⟩
  | exhausted _ same => exact ⟨[], by rw [same, List.append_nil], ground.apart, nofun⟩
  | added address id prev answered =>
    have header := (grantable ground possible).2.1
    have capacity := newBlock_capacity ground.formed (announced message)
    have small := announced_lt message
    have rounded := align_le_add (announced message)
    have unit := ground.unit
    obtain ⟨_, _, clear⟩ := possible address answered
    rw [totalSize_of_fits header] at clear
    refine ⟨[⟨address, sizeofArenaBlock +
      align (max (align (announced message)) state.arena.blockSize)⟩], ?_, ?_, ?_⟩
    · rw [chain_mk, List.map_append]
      rfl
    · exact List.pairwise_cons.mpr ⟨clear, ground.apart⟩
    · intro span member
      obtain rfl := List.mem_singleton.mp member
      simp only [capacity, sizeofArenaBlock]
      omega

/-- An allocation leaves the arena in the heap, and the region it returns lies
behind the start of one of its blocks. -/
private theorem alloc_ground (ground : Ground state) (possible : Possible state message)
    (asked : 0 < announced message)
    (ran : arenaAlloc state.arena (announced message) message.malloc = some (arena, payload)) :
    Ground ⟨arena, (arena.blocks.chain.map ArenaBlock.span).drop state.arena.blocks.chain.length ++
        state.heap⟩ ∧
      ∀ pointer ∈ payload, ∃ span ∈ arena.blocks.chain.map ArenaBlock.span,
        span.start < pointer.address ∧ pointer.address < span.start + span.size := by
  have grants := grantable ground possible
  obtain ⟨blocks, found, formed, granted⟩ := alloc_granted ground.formed grants ran
  obtain ⟨added, spans, apart, sized⟩ := found_spans ground possible found
  have new : (blocks.chain.map ArenaBlock.span).drop state.arena.blocks.chain.length = added := by
    rw [spans, List.drop_left' (List.length_map _)]
  -- handing out more of `current` moves no block
  have grounded (arena : Arena) (unit : arena.blockSize = state.arena.blockSize)
      (formed : WellFormed arena.blocks arena.blockSize)
      (same : arena.blocks.chain.map ArenaBlock.span = blocks.chain.map ArenaBlock.span) :
      Ground ⟨arena, (arena.blocks.chain.map ArenaBlock.span).drop
        state.arena.blocks.chain.length ++ state.heap⟩ := by
    rw [same, new]
    refine ⟨formed, unit ▸ ground.unit, fun span member => ?_, fun span member => ?_, apart,
      fun span member => ?_⟩
    · rw [same, spans, List.mem_append] at member
      rcases member with old | fresh
      · exact List.mem_append_right _ (ground.owned span old)
      · exact List.mem_append_left _ fresh
    · rw [same, spans, List.mem_append] at member
      rcases member with old | fresh
      · exact ground.bounded span old
      · exact (sized span fresh).2
    · rcases List.mem_append.mp member with fresh | old
      · exact (sized span fresh).1
      · exact ground.solid span old
  cases granted with
  | refused => exact ⟨grounded _ rfl formed rfl, nofun⟩
  | handed enough bumped =>
    refine ⟨grounded _ rfl bumped (by simp [Blocks.chain, ArenaBlock.span]), fun pointer same => ?_⟩
    cases same
    have more : announced message ≤ align (announced message) := align_le grants.1
    refine ⟨blocks.current.span, by simp [Blocks.chain, ArenaBlock.span], ?_, ?_⟩
    · simp only [ArenaBlock.span, Pointer.address, sizeofArenaBlock]
      omega
    · simp only [ArenaBlock.span, Pointer.address, sizeofArenaBlock]
      omega

private theorem free_other (absent : ∀ span ∈ heap, span.start ≠ address) : free heap address = heap := by
  rw [free, List.filter_eq_self]
  exact fun span member => decide_eq_true (absent span member)

private theorem ground_owned (ground : Ground state) : BlocksOwned state :=
  ⟨fun _ member => ground.owned _ (List.mem_map_of_mem member), addresses_nodup ground.formed⟩

/-- The handler leaves the arena in the heap, and what it frees is never the start
of a block; so it does well exactly if it obtains no memory. -/
private theorem step_owned (ground : Ground state) (taken : step state message = some next) :
    Ground next ∧ (FreesOwned state message ↔ TakesNothing state message) := by
  simp only [step] at taken
  split at taken
  · rename_i possible
    obtain ⟨handled, ran, rfl⟩ := Option.map_eq_some_iff.mp taken
    have only : FreesOwned state message ↔
        ∀ address ∈ handled.frees, ∃ span ∈ handled.heap, span.start = address := by
      simp [FreesOwned, ran]
    rw [only]
    rcases handle_cases ran with ⟨none_, rfl⟩ | ⟨asked, payload, allocated, heap, frees⟩
    · exact ⟨ground, iff_of_true nofun (.inl none_)⟩
    · obtain ⟨after, inside⟩ := alloc_ground ground possible asked allocated
      rw [← heap] at after
      rw [frees]
      cases payload with
      | none =>
        refine ⟨after, iff_of_true nofun (.inr ?_)⟩
        obtain ⟨_, blocks, room, looped, ⟨rfl, _⟩ | ⟨_, given, _⟩⟩ := arenaAllocateRaw_cases allocated
        · obtain ⟨refused, full, others⟩ := ArenaExhaustion.findRoom_refused looped
          exact ⟨⟨full, others⟩, refused⟩
        · cases given
      | some pointer =>
        obtain ⟨span, member, behind, below⟩ := inside pointer rfl
        have absent := not_start_of_inside after.apart after.solid (after.owned span member) behind below
        refine ⟨?_, iff_of_false (fun owned => ?_) fun nothing => ?_⟩
        · simp only [Option.toList_some, List.map_cons, List.map_nil, List.foldl_cons, List.foldl_nil,
            free_other absent]
          exact after
        · obtain ⟨other, held, start⟩ := owned pointer.address (by simp)
          exact absent other held start
        · rcases nothing with none_ | ⟨⟨full, others⟩, refused⟩
          · omega
          · obtain ⟨last, looped, _⟩ := ArenaExhaustion.findRoom_exhausted
              (align (announced message)) state.arena.blockSize state.arena.blocks.before full others
            obtain ⟨_, blocks, room, other, ⟨_, none_, _⟩ | ⟨rfl, _, _⟩⟩ :=
              arenaAllocateRaw_cases allocated
            · cases none_
            · rw [refused, looped] at other
              cases other
  · cases taken

/-! ## Every sequence of messages -/

/-- A server context whose arena `arena_init` has just made, in a process that may
have other blocks. -/
structure Fresh (state : State) (address : Nat) : Prop where
  initial : Initial sizeArenaDefault address
  made : arenaInit sizeArenaDefault true (some address) = some state.arena
  head : ∀ block ∈ state.arena.blocks.chain, block.span ∈ state.heap
  apart : state.heap.Pairwise Apart
  solid : ∀ span ∈ state.heap, 0 < span.size

private theorem ground_fresh (fresh : Fresh state address) : Ground state := by
  have formed := wellFormed_init fresh.initial fresh.made
  have owned : ∀ span ∈ state.arena.blocks.chain.map ArenaBlock.span, span ∈ state.heap := by
    intro span member
    obtain ⟨block, held, rfl⟩ := List.mem_map.mp member
    exact fresh.head block held
  obtain ⟨arena, heap⟩ := state
  obtain rfl := Option.some.inj fresh.made
  have unit : workingBlockSize sizeArenaDefault ≤ 2 ^ 33 := by decide
  have size : sizeofArenaBlock + align (workingBlockSize sizeArenaDefault) ≤ 2 ^ 34 := by decide
  refine ⟨formed, unit, owned, ?_, fresh.apart, fresh.solid⟩
  intro span member
  obtain rfl := List.mem_singleton.mp member
  exact size

/-- Whatever messages a server context handles, its arena's blocks stay allocated;
and everything given to `free` is the start of an allocated block exactly when no
message obtains memory for a payload. -/
theorem frees_owned_iff_nothing_taken (fresh : Fresh state address) (messages : List Message) :
    Throughout step BlocksOwned state messages ∧ EachStep step FreesOwned state messages ↔
      EachStep step TakesNothing state messages := by
  have kept : ∀ state message next, Ground state → BlocksOwned state → BlocksOwned next →
      FreesOwned state message → step state message = some next → Ground next :=
    fun _ _ _ ground _ _ _ taken => (step_owned ground taken).1
  refine throughout_and_each_step_iff kept ?_ (ground_fresh fresh) (ground_owned (ground_fresh fresh))
  intro state message next ground _ taken
  obtain ⟨after, iff_⟩ := step_owned ground taken
  rw [and_iff_right (ground_owned after)]
  exact iff_

/-- A new arena of 1024 bytes at one address, and another block of the process. -/
private theorem fresh_server :
    Fresh ⟨⟨false, ⟨[], ⟨4096, 0, false, none, 0, 1024, zeros⟩, []⟩, 1024, false, false, false⟩,
      [⟨4096, 1088⟩, ⟨8192, 104⟩]⟩ 4096 where
  initial := by decide
  made := rfl
  head := by
    intro block member
    obtain rfl := List.mem_singleton.mp member
    exact List.mem_cons_self
  apart := by simp [Apart]
  solid := by simp

/-- A client that sends nothing, and one whose header announces no payload. -/
theorem empty_messages_owned :
    Throughout step BlocksOwned
        ⟨⟨false, ⟨[], ⟨4096, 0, false, none, 0, 1024, zeros⟩, []⟩, 1024, false, false, false⟩,
          [⟨4096, 1088⟩, ⟨8192, 104⟩]⟩
        [⟨[], [.chunk 0], none, []⟩, ⟨smallMessage.take 8 ++ [0, 0, 0, 0], [.chunk 11], none, []⟩] ∧
      EachStep step FreesOwned
        ⟨⟨false, ⟨[], ⟨4096, 0, false, none, 0, 1024, zeros⟩, []⟩, 1024, false, false, false⟩,
          [⟨4096, 1088⟩, ⟨8192, 104⟩]⟩
        [⟨[], [.chunk 0], none, []⟩, ⟨smallMessage.take 8 ++ [0, 0, 0, 0], [.chunk 11], none, []⟩] :=
  (frees_owned_iff_nothing_taken fresh_server _).mpr
    fun _ _ => ⟨.inl (by decide), fun _ _ => ⟨.inl (by decide), trivial⟩⟩

/-- One message with a payload of two bytes: the address freed is 64 bytes inside
the arena's block. -/
theorem payload_free_not_owned :
    ¬ ∀ state address, Fresh state address → ∀ messages,
      Throughout step BlocksOwned state messages ∧ EachStep step FreesOwned state messages := by
  intro always
  obtain ⟨_, owned⟩ := always _ _ fresh_server [⟨smallMessage, [.chunk 11, .chunk 1], none, []⟩]
  have handled : handle ⟨⟨false, ⟨[], ⟨4096, 0, false, none, 0, 1024, zeros⟩, []⟩, 1024, false,
        false, false⟩, [⟨4096, 1088⟩, ⟨8192, 104⟩]⟩ ⟨smallMessage, [.chunk 11, .chunk 1], none, []⟩ =
      some ⟨⟨false, ⟨[], ⟨4096, 0, false, none, 16, 1024, zeros⟩, []⟩, 1024, false, false, false⟩,
        [⟨4096, 1088⟩, ⟨8192, 104⟩], [4160]⟩ := rfl
  obtain ⟨span, member, start⟩ := (owned _ rfl).1 _ handled 4160 (by simp)
  simp only [List.mem_cons, List.not_mem_nil, or_false] at member
  rcases member with rfl | rfl <;> cases start

end ShapeQuake.PayloadOwnership
