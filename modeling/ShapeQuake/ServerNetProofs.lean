import ShapeQuake.ServerNet

/-! Message boundaries on a client's descriptor. The header loop repeats
interrupted calls and closes the descriptor when it gives up, so only the code
after it can leave the descriptor open inside a message: a wrong magic, a
refused allocation, and the payload loop, which gives up at the first call that
returns no bytes. -/
namespace ShapeQuake.ServerNetProofs
open Library.Bytes ServerNet

/-! ## What should hold when the handler returns -/

/-- The length of the message that starts the stream, as its header says. -/
def messageSize (stream : List UInt8) : Nat :=
  headerSize + (headerOf (stream.take headerSize)).payloadSize

/-- The stream holds its first message in full. -/
def HoldsMessage (stream : List UInt8) : Prop :=
  headerSize ≤ stream.length ∧ messageSize stream ≤ stream.length

/-- The client has been closed, or exactly the first message has been taken. -/
def AtBoundary (stream : List UInt8) (client : Client) : Prop :=
  0 < client.closes ∨ HoldsMessage stream ∧ client.taken = stream.take (messageSize stream)

/-- Chunks of any size and interruptions, and nothing else. -/
def ChunkedOrInterrupted (deliveries : List Delivery) : Prop :=
  ∀ delivery ∈ deliveries, delivery ≠ .wouldBlock ∧ delivery ≠ .fault

/-- What a call that returns should have done with the stream. -/
structure Handled (stream : List UInt8) (deliveries : List Delivery) (client : Client) : Prop where
  boundary : AtBoundary stream client
  full : HoldsMessage stream → ChunkedOrInterrupted deliveries →
    client.taken = stream.take (messageSize stream)

/-! ## When it does -/

/-- The calls that are left once so many bytes have been received, by a loop
that repeats failed calls and gives up on one that would block. -/
def leftOver : Nat → List Delivery → Option (List Delivery)
  | 0, deliveries => some deliveries
  | _ + 1, [] => none
  | missing + 1, .chunk more :: rest => leftOver (missing - more) rest
  | _ + 1, .wouldBlock :: _ => none
  | missing + 1, _ :: rest => leftOver (missing + 1) rest

@[simp] theorem leftOver_zero (deliveries : List Delivery) :
    leftOver 0 deliveries = some deliveries := by
  cases deliveries <;> rfl

/-- How many bytes the calls deliver before the first that delivers none. -/
def offered : List Delivery → Nat
  | .chunk more :: rest => more + 1 + offered rest
  | _ => 0

/-- The header is not received in full, or no payload is announced, or the magic
is right, there is room, and the payload is there and delivered without a call
that delivers none. -/
def Delivers (stream : List UInt8) (deliveries : List Delivery) (room : Bool) : Prop :=
  match leftOver headerSize deliveries with
  | none => True
  | some rest =>
    stream.length < headerSize ∨
      let header := headerOf (stream.take headerSize)
      header.payloadSize = 0 ∨
        header.magic = sqMagic ∧ room = true ∧ messageSize stream ≤ stream.length ∧
          header.payloadSize ≤ offered rest

/-! ## The header loop -/

section
variable {client : Client} {net : Net} {stream : List UInt8}

theorem client_split (whole : client.taken ++ client.stream = stream)
    (count : client.taken.length = size) :
    client = ⟨stream.drop size, stream.take size, client.closes⟩ := by
  obtain ⟨rest, taken, closes⟩ := client
  subst whole count
  simp

/-- One more chunk of a loop that has not received all it wants. -/
theorem chunk_taken (whole : client.taken ++ client.stream = stream)
    (missing : client.taken.length + size ≤ stream.length) :
    (client.stream.take (min (more + 1) size)).length = min (more + 1) size := by
  have lengths := congrArg List.length whole
  rw [List.length_append] at lengths
  rw [List.length_take]
  omega

theorem recv_whole (whole : client.taken ++ client.stream = stream) :
    client.taken ++ client.stream.take count ++ client.stream.drop count = stream := by
  rw [List.append_assoc, List.take_append_drop, whole]

/-- The header loop has all it wants. -/
private theorem header_complete (whole : client.taken ++ client.stream = stream)
    (count : client.taken.length = headerSize)
    (returned : some (client.taken, (none : Option Status), ⟨client, deliveries, []⟩) = some (bytes, refused, net)) :
    refused = none ∧ bytes = stream.take headerSize ∧ headerSize ≤ stream.length ∧
      net.client = ⟨stream.drop headerSize, stream.take headerSize, client.closes⟩ ∧
      leftOver (headerSize - client.taken.length) deliveries = some net.deliveries := by
  have lengths := congrArg List.length whole
  rw [List.length_append] at lengths
  have split := client_split whole count
  cases returned
  refine ⟨rfl, by rw [split], by omega, split, ?_⟩
  rw [count, Nat.sub_self, leftOver_zero]

/-- How the header loop ends: with a header, or with the descriptor closed. -/
theorem recvHeaderLoop_returns (whole : client.taken ++ client.stream = stream)
    (short : client.taken.length ≤ headerSize)
    (ran : recvHeaderLoop client client.taken deliveries = some (bytes, refused, net)) :
    (refused = none ∧ bytes = stream.take headerSize ∧ headerSize ≤ stream.length ∧
      net.client = ⟨stream.drop headerSize, stream.take headerSize, client.closes⟩ ∧
      leftOver (headerSize - client.taken.length) deliveries = some net.deliveries) ∨
    (∃ status, refused = some status ∧ getCnd status ≠ Cnd.success.raw ∧
      net.client.closes = client.closes + 1 ∧
      (stream.length < headerSize ∨
        leftOver (headerSize - client.taken.length) deliveries = none ∧
          .wouldBlock ∈ deliveries)) := by
  induction deliveries generalizing client with
  | nil =>
    simp only [recvHeaderLoop] at ran
    split at ran
    · cases ran
    · exact Or.inl (header_complete whole (by omega) ran)
  | cons delivery rest ih =>
    have lengths := congrArg List.length whole
    rw [List.length_append] at lengths
    simp only [recvHeaderLoop] at ran
    split at ran
    · rename_i more
      obtain ⟨missing, count⟩ : ∃ missing, headerSize - client.taken.length = missing + 1 :=
        ⟨headerSize - client.taken.length - 1, by omega⟩
      rw [count] at ran ⊢
      cases delivery with
      | chunk size =>
        by_cases ended : client.stream = []
        · simp only [recv, ended, ↓reduceIte] at ran
          cases ran
          rw [ended, List.length_nil] at lengths
          exact Or.inr ⟨_, rfl, getCnd_ne nofun, rfl, Or.inl (by omega)⟩
        · simp only [recv, ended, ↓reduceIte] at ran
          have bounded : (client.stream.take (min (size + 1) (missing + 1))).length ≤ missing + 1 :=
            Nat.le_trans (List.length_take_le _ _) (Nat.min_le_right _ _)
          have next := ih (recv_whole whole) (by rw [List.length_append]; omega) ran
          rw [List.length_append] at next
          by_cases long : headerSize ≤ stream.length
          · rw [chunk_taken whole (by omega), show headerSize -
              (client.taken.length + min (size + 1) (missing + 1)) = missing - size by omega] at next
            apply next.imp id
            rintro ⟨status, refused, failed, closes, why⟩
            refine ⟨status, refused, failed, closes, why.imp id fun both => ?_⟩
            exact ⟨both.1, List.mem_cons_of_mem _ both.2⟩
          · rcases next with ⟨_, _, enough, _⟩ | ⟨status, refused, failed, closes, _⟩
            · exact absurd enough long
            · exact Or.inr ⟨status, refused, failed, closes, Or.inl (Nat.not_le.mp long)⟩
      | interrupted | fault =>
        simp only [recv] at ran
        rcases ih whole short ran with done | ⟨status, refused, failed, closes, why⟩
        · rw [count] at done
          exact Or.inl done
        · rw [count] at why
          refine Or.inr ⟨status, refused, failed, closes, why.imp id fun both => ?_⟩
          exact ⟨both.1, List.mem_cons_of_mem _ both.2⟩
      | wouldBlock =>
        simp only [recv] at ran
        cases ran
        exact Or.inr ⟨_, rfl, getCnd_ne nofun, rfl, Or.inr ⟨rfl, by simp⟩⟩
    · exact Or.inl (header_complete whole (by omega) ran)

/-! ## The payload loop -/

/-- What the payload loop has received when it ends, and when that is all of
it. It takes nothing else from the descriptor and leaves it open. -/
theorem recvPayloadLoop_returns (short : received.length ≤ size)
    (ran : recvPayloadLoop size client received deliveries = some (payload, after)) :
    ∃ count, payload = received ++ client.stream.take count ∧
      after.client = ⟨client.stream.drop count, client.taken ++ client.stream.take count,
        client.closes⟩ ∧
      payload.length ≤ size ∧
      (payload.length = size ↔ size - received.length ≤ client.stream.length ∧
        size - received.length ≤ offered deliveries) := by
  induction deliveries generalizing client received with
  | nil =>
    simp only [recvPayloadLoop] at ran
    split at ran
    · cases ran
    · cases ran
      refine ⟨0, by simp, by simp, short, iff_of_true (by omega) ⟨by omega, by omega⟩⟩
  | cons delivery rest ih =>
    simp only [recvPayloadLoop] at ran
    split at ran
    · rename_i more
      cases delivery with
      | chunk ahead =>
        by_cases ended : client.stream = []
        · simp only [recv, ended, ↓reduceIte] at ran
          cases ran
          refine ⟨0, by simp, by simp, short, iff_of_false (by omega) fun both => ?_⟩
          rw [ended, List.length_nil] at both
          omega
        · simp only [recv, ended, ↓reduceIte] at ran
          obtain ⟨want, asked⟩ : ∃ want, want = min (ahead + 1) (size - received.length) := ⟨_, rfl⟩
          rw [← asked] at ran
          have within : (client.stream.take want).length ≤ want := List.length_take_le _ _
          obtain ⟨count, payloadIs, left, bounded, exact_⟩ :=
            ih (by rw [List.length_append]; omega) ran
          refine ⟨want + count, ?_, ?_, bounded, exact_.trans ?_⟩
          · rw [payloadIs, List.append_assoc, List.take_add]
          · rw [left]
            simp [List.take_add]
          · rw [List.length_append, List.length_take, List.length_drop, offered]
            omega
      | interrupted | wouldBlock | fault =>
        simp only [recv] at ran
        cases ran
        refine ⟨0, by simp, by simp, short, iff_of_false (by omega) fun both => ?_⟩
        simp only [offered] at both
        omega
    · cases ran
      refine ⟨0, by simp, by simp, short, iff_of_true (by omega) ⟨by omega, by omega⟩⟩

/-! ## The handler -/

/-- A descriptor left open has been handled if what was taken is the message. -/
private theorem open_handled_iff (left_open : client.closes = 0)
    (taken : client.taken = stream.take count) (within : count ≤ stream.length)
    (header : headerSize ≤ stream.length) :
    Handled stream deliveries client ↔ count = messageSize stream := by
  constructor
  · intro handled
    rcases handled.boundary with closed | ⟨holds, message⟩
    · omega
    · have lengths := congrArg List.length (taken.symm.trans message)
      rw [List.length_take, List.length_take] at lengths
      have whole := holds.2
      omega
  · intro same
    rw [same] at taken within
    exact ⟨Or.inr ⟨⟨header, within⟩, taken⟩, fun _ _ => taken⟩

/-- A descriptor closed before its header was complete has been handled. -/
private theorem closed_handled (closed : client.closes = 1)
    (why : stream.length < headerSize ∨
      leftOver headerSize deliveries = none ∧ .wouldBlock ∈ deliveries) :
    Handled stream deliveries client ∧ Delivers stream deliveries room := by
  refine ⟨⟨Or.inl (by omega), fun holds regular => ?_⟩, ?_⟩
  · rcases why with short | ⟨_, blocked⟩
    · exact absurd holds.1 (Nat.not_le.mpr short)
    · exact absurd rfl (regular _ blocked).1
  · unfold Delivers
    rcases why with short | ⟨none_, _⟩
    · split
      · trivial
      · exact Or.inl short
    · rw [none_]
      trivial

private theorem take_of_length {items : List α} (count : (items.take upTo).length = size) :
    items.take upTo = items.take size := by
  rw [List.length_take] at count
  rw [List.take_eq_take_iff]
  omega

/-- What the handler does with a complete header. -/
theorem handle_header (looped : recvHeaderLoop client [] deliveries = some (bytes, none, after)) :
    sqHandleClientPayload client deliveries room beyond =
      let header := headerOf bytes
      if header.magic ≠ sqMagic then
        some { after with
          actions := after.actions ++ [.debug (asStatus .server .invalid .magic)] }
      else if header.payloadSize > 0 then
        if room = false then some after
        else
          (recvPayloadLoop header.payloadSize after.client [] after.deliveries).map
            fun (payload, rest) =>
              { rest with
                actions := after.actions ++ rest.actions ++
                  if payload.length = header.payloadSize then [logPayload payload beyond, .freed]
                  else [.freed] }
      else some after := by
  unfold sqHandleClientPayload handlePayload sqRecvHeader
  rw [looped]
  by_cases magic : (headerOf bytes).magic = sqMagic
  · simp only [magic, ne_eq, not_true_eq_false, ↓reduceIte, getCnd_asStatus]
    cases recvPayloadLoop (headerOf bytes).payloadSize after.client [] after.deliveries with
    | none => rfl
    | some result =>
      obtain ⟨payload, rest⟩ := result
      simp only [Option.map_some]
      split
      · split
        · rfl
        · split <;> rfl
      · rfl
  · have other : ¬ Cnd.invalid.raw = Cnd.success.raw := fun same =>
      nomatch Cnd.raw_injective same
    simp only [magic, other, ne_eq, not_false_eq_true, ↓reduceIte, getCnd_asStatus]

/-- After a whole header the rest of the deliveries decides. -/
private theorem delivers_after_header (long : headerSize ≤ stream.length)
    (rest : leftOver headerSize deliveries = some left) :
    Delivers stream deliveries room ↔
      (headerOf (stream.take headerSize)).payloadSize = 0 ∨
        (headerOf (stream.take headerSize)).magic = sqMagic ∧ room = true ∧
          messageSize stream ≤ stream.length ∧
            (headerOf (stream.take headerSize)).payloadSize ≤ offered left := by
  unfold Delivers
  rw [rest]
  simp only [Nat.not_lt.mpr long, false_or]

/-- The payload loop leaves the descriptor at the end of the message when the
payload is there and the calls deliver all of it. -/
private theorem payload_handled (long : headerSize ≤ stream.length)
    (start : client = ⟨stream.drop headerSize, stream.take headerSize, 0⟩)
    (ran : recvPayloadLoop (headerOf (stream.take headerSize)).payloadSize client [] left =
      some (payload, last)) :
    Handled stream deliveries last.client ↔
      messageSize stream ≤ stream.length ∧
        (headerOf (stream.take headerSize)).payloadSize ≤ offered left := by
  obtain ⟨count, received, after, bounded, full⟩ := recvPayloadLoop_returns (Nat.zero_le _) ran
  rw [start] at received after full
  have taken : payload = (stream.drop headerSize).take payload.length := by
    rw [List.nil_append] at received
    rw [received, ← take_of_length rfl]
  have within := congrArg List.length taken
  rw [List.length_take, List.length_drop] at within
  have handled : Handled stream deliveries last.client ↔
      headerSize + payload.length = messageSize stream := by
    rw [after]
    refine open_handled_iff rfl ?_ (by omega) long
    rw [List.take_add, ← taken, received, List.nil_append]
  rw [handled, messageSize, Nat.add_left_cancel_iff, full, List.length_drop]
  simp only [List.length_nil, Nat.sub_zero]
  apply and_congr_left'
  omega

/-- `sq_handle_client_payload` for every stream, every way of delivering it,
and room for the payload or not: when it returns, the descriptor is closed or at
the end of its first message, and a message that is there in full has been
received in full, exactly when the deliveries are as `Delivers` says. -/
theorem handled_iff_delivers
    (returned : sqHandleClientPayload (accepted stream) deliveries room beyond = some net) :
    Handled stream deliveries net.client ↔ Delivers stream deliveries room := by
  cases looped : recvHeaderLoop (accepted stream) [] deliveries with
  | none =>
    unfold sqHandleClientPayload handlePayload sqRecvHeader at returned
    rw [looped] at returned
    cases returned
  | some outcome =>
    obtain ⟨bytes, refused, after⟩ := outcome
    have start : (accepted stream).taken ++ (accepted stream).stream = stream := rfl
    rcases recvHeaderLoop_returns start (Nat.zero_le _) looped with
      ⟨rfl, rfl, long, client, rest⟩ | ⟨status, rfl, failed, closes, why⟩
    · rw [handle_header looped] at returned
      rw [delivers_after_header long rest]
      -- where the descriptor is left at the end of the header, that has to be the end
      have stopped : Handled stream deliveries after.client ↔
          (headerOf (stream.take headerSize)).payloadSize = 0 := by
        rw [client, open_handled_iff rfl rfl long long, messageSize]
        omega
      simp only at returned
      split at returned
      · rename_i magic
        cases returned
        simp only [stopped, magic, false_and, or_false]
      · rename_i magic
        split at returned
        · rename_i announced
          have announced := Nat.pos_iff_ne_zero.mp announced
          split at returned
          · rename_i refused
            cases returned
            simp only [stopped, refused, Bool.false_eq_true, false_and, and_false, or_false]
          · rename_i granted
            obtain ⟨⟨payload, last⟩, ran, rfl⟩ := Option.map_eq_some_iff.mp returned
            simp only [payload_handled long client ran, announced,
              Decidable.not_not.mp magic, Bool.eq_true_of_not_eq_false granted, true_and, false_or]
        · rename_i empty
          cases returned
          simp only [stopped, Nat.eq_zero_of_not_pos empty, true_or]
    · unfold sqHandleClientPayload handlePayload sqRecvHeader at returned
      rw [looped] at returned
      simp only [failed, ne_eq, not_false_eq_true, ↓reduceIte] at returned
      cases returned
      obtain ⟨handled, delivers⟩ :=
        (closed_handled closes why : _ ∧ Delivers stream deliveries room)
      exact iff_of_true handled delivers

end

/-- A message whose payload is the string `a`. -/
def smallMessage : List UInt8 := [0x51, 0x45, 0x53, 0x51, 0, 0, 0, 0, 2, 0, 0, 0, 0x61, 0]

/-- Interrupted inside the header and cut into chunks everywhere, the small
message is handled. -/
theorem small_message_handled :
    ∃ net, sqHandleClientPayload (accepted smallMessage)
        [.chunk 4, .interrupted, .chunk 99, .chunk 0, .chunk 5] true [] = some net ∧
      Handled smallMessage [.chunk 4, .interrupted, .chunk 99, .chunk 0, .chunk 5] net.client := by
  refine ⟨⟨⟨[], smallMessage, 0⟩, [], [.logged [0x61] 0, .freed]⟩, by decide, ?_⟩
  apply (handled_iff_delivers (by decide : sqHandleClientPayload (accepted smallMessage)
    [.chunk 4, .interrupted, .chunk 99, .chunk 0, .chunk 5] true [] =
      some ⟨⟨[], smallMessage, 0⟩, [], [.logged [0x61] 0, .freed]⟩)).mpr
  exact Or.inr (Or.inr ⟨by decide, rfl, by decide, by decide⟩)

/-- Interrupted between header and payload, it is left open with its payload
still to come. -/
theorem interrupted_payload_left_behind :
    ¬ ∀ stream deliveries room beyond net,
      sqHandleClientPayload (accepted stream) deliveries room beyond = some net →
        Handled stream deliveries net.client := by
  intro always
  have handled := always smallMessage [.chunk 11, .interrupted] true []
    ⟨⟨[0x61, 0], smallMessage.take 12, 0⟩, [], [.freed]⟩ (by decide)
  rcases handled.boundary with closed | ⟨_, taken⟩
  · exact absurd closed (by decide)
  · exact absurd taken (by decide)

end ShapeQuake.ServerNetProofs
