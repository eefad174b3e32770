import ShapeQuake.HeaderExchange
import ShapeQuake.Library.Runs
import ShapeQuake.PayloadScans

/-! Messages that follow each other on one connection. The server calls
`sq_handle_client_payload` each time the descriptor is ready, and nothing but the sizes in
the headers says where a message ends: the next call goes on where the last one stopped.
This is so up to the first payload. The call that gets it frees it, and what it frees is a
pointer into a block of the arena. -/
namespace ShapeQuake.PacketStream
open Library.Bytes Library.Runs ServerNet ServerNetProofs PayloadScans
open HeaderExchange (headerBytes_length headerOf_headerBytes)

/-! ## The connection -/

/-- A call of `sq_handle_client_payload`: what its calls of `recv` meet, whether the arena
has room, and the memory behind the payload. -/
structure Call where
  deliveries : List Delivery
  room : Bool
  beyond : List UInt8

/-- A client's descriptor and what the server has done about it. -/
structure Connection where
  client : Client
  actions : List Action
  deriving DecidableEq, Repr

/-- A connection that has just been accepted, on which the client sends these bytes. -/
def start (stream : List UInt8) : Connection := ⟨accepted stream, []⟩

/-- The server handles the descriptor once. Nothing is said of a program that has freed
what `malloc` did not hand out, so behind the `free` of a payload there is no step. -/
def step (connection : Connection) (call : Call) : Option Connection :=
  if .freed ∈ connection.actions then none
  else
    (sqHandleClientPayload connection.client call.deliveries call.room call.beyond).map fun net =>
      ⟨net.client, connection.actions ++ net.actions⟩

/-! ## Packets -/

/-- The `header` of `shell_send_backlog`, with `SQ_CAT_EXEC_LOG | SQ_TYPE_OVERVIEW` for its
type. The calls that would send it are commented out. -/
def backlogHeader (cmdLen outputLen : Nat) : SqPacketHeader :=
  ⟨sqMagic, 0x1000 ||| 0x2001, ((cmdLen + 1) + (outputLen + 1)) % 2 ^ 32⟩

/-- A command with its output, as `shell_send_backlog` lays it out. -/
structure Packet where
  type : Nat
  command : List UInt8
  output : List UInt8
  typeFits : type < 2 ^ 32
  commandSolid : 0 ∉ command
  outputSolid : 0 ∉ output
  sizeFits : (command.length + 1) + (output.length + 1) < 2 ^ 32

/-- The command and the output, each with its null. -/
def Packet.payload (packet : Packet) : List UInt8 := packet.command ++ 0 :: (packet.output ++ [0])

/-- The header that announces it. -/
def Packet.header (packet : Packet) : SqPacketHeader :=
  { backlogHeader packet.command.length packet.output.length with type := packet.type }

/-- The bytes that are sent. -/
def Packet.bytes (packet : Packet) : List UInt8 := headerBytes packet.header ++ packet.payload

/-- What the server should do about it. -/
def Packet.handled (packet : Packet) : List Action := [.logged packet.command packet.output.length, .freed]

/-- The calls of `recv` deliver the packet: those for the header are repeated where they
are interrupted, and those for the payload are not disturbed. There is room for the payload. -/
def Undisturbed (packet : Packet) (call : Call) : Prop :=
  call.room = true ∧ ∃ rest, leftOver headerSize call.deliveries = some rest ∧ packet.payload.length ≤ offered rest

theorem payload_length (packet : Packet) :
    packet.payload.length = (packet.command.length + 1) + (packet.output.length + 1) := by
  simp only [Packet.payload, List.length_append, List.length_cons, List.length_nil]
  omega

theorem header_size (packet : Packet) : packet.header.payloadSize = packet.payload.length := by
  rw [payload_length]
  exact Nat.mod_eq_of_lt packet.sizeFits

theorem header_valid (packet : Packet) : HeaderExchange.Valid packet.header := by
  refine ⟨show sqMagic < 2 ^ 32 by decide, packet.typeFits, ?_⟩
  rw [header_size, payload_length]
  exact packet.sizeFits

/-- The line that is printed for a packet, whatever is behind it in memory. -/
theorem logPayload_packet (packet : Packet) (beyond : List UInt8) :
    logPayload packet.payload beyond = .logged packet.command packet.output.length := by
  have strlen_solid (text rest : List UInt8) (solid : 0 ∉ text) : strlen (text ++ 0 :: rest) = text.length := by
    have whole := untilNull_terminated solid rest
    rw [List.append_assoc] at whole
    exact congrArg List.length whole
  have memory : packet.payload ++ beyond =
      packet.command ++ 0 :: (packet.output ++ 0 :: beyond) := by
    simp [Packet.payload]
  have command := strlen_solid packet.command (packet.output ++ 0 :: beyond) packet.commandSolid
  have behind : (packet.command ++ 0 :: (packet.output ++ 0 :: beyond)).drop (packet.command.length + 1) =
      packet.output ++ 0 :: beyond := by
    rw [List.append_cons, List.drop_left' (by simp)]
  have more : packet.command.length + 1 < packet.payload.length := by
    rw [payload_length]
    omega
  simp only [logPayload, memory, command, behind, if_pos more, strlen_solid _ _ packet.outputSolid,
    List.take_left']

/-- What a client sends at a time: a header that announces nothing, or a packet. -/
inductive Message where
  | bare (type : Nat) (typeFits : type < 2 ^ 32)
  | withPayload (packet : Packet)

def Message.bytes : Message → List UInt8
  | .bare type _ => headerBytes ⟨sqMagic, type, 0⟩
  | .withPayload packet => packet.bytes

/-- Whether there is nothing behind the header. -/
def Message.isBare : Message → Bool
  | .bare _ _ => true
  | .withPayload _ => false

def Message.handled : Message → List Action
  | .bare _ _ => []
  | .withPayload packet => packet.handled

def Message.Delivered : Message → Call → Prop
  | .bare _ _, call => (leftOver headerSize call.deliveries).isSome = true
  | .withPayload packet, call => Undisturbed packet call

/-- Only the last of them has a payload, if one has. -/
def LastOnly (messages : List Message) : Prop := ∀ message ∈ messages.dropLast, message.isBare = true

theorem handled_bare {message : Message} (bare : message.isBare = true) : message.handled = [] := by
  cases message with
  | bare => rfl
  | withPayload => cases bare

/-! ## What has been taken before -/

/-- The same client, which has been sent something before. -/
def behind (front : List UInt8) (closes : Nat) (client : Client) : Client :=
  { client with taken := front ++ client.taken, closes := closes + client.closes }

/-- `recv` does not look at it. -/
theorem recv_behind (front : List UInt8) (closes : Nat) (client : Client) (size : Nat) (delivery : Delivery) :
    recv (behind front closes client) size delivery =
      ((recv client size delivery).1, behind front closes (recv client size delivery).2) := by
  cases delivery with
  | chunk more =>
    by_cases ended : client.stream = []
    · simp [recv, behind, ended]
    · simp [recv, behind, ended]
  | interrupted | wouldBlock | fault => rfl

private theorem recvHeaderLoop_behind (front : List UInt8) (closes : Nat) (client : Client)
    (received : List UInt8) (deliveries : List Delivery) :
    recvHeaderLoop (behind front closes client) received deliveries =
      (recvHeaderLoop client received deliveries).map fun outcome =>
        (outcome.1, outcome.2.1, { outcome.2.2 with client := behind front closes outcome.2.2.client }) := by
  induction deliveries generalizing client received with
  | nil =>
    simp only [recvHeaderLoop]
    split <;> rfl
  | cons delivery rest ih =>
    simp only [recvHeaderLoop, recv_behind]
    split
    · generalize recv client (headerSize - received.length) delivery = outcome
      obtain ⟨received, next⟩ := outcome
      cases received with
      | bytes bytes => exact ih next _
      | endOfStream => rfl
      | error errno =>
        cases errno with
        | wouldBlock => rfl
        | chunk | interrupted | fault => exact ih next _
    · rfl

private theorem recvPayloadLoop_behind (front : List UInt8) (closes size : Nat) (client : Client)
    (received : List UInt8) (deliveries : List Delivery) :
    recvPayloadLoop size (behind front closes client) received deliveries =
      (recvPayloadLoop size client received deliveries).map fun outcome =>
        (outcome.1, { outcome.2 with client := behind front closes outcome.2.client }) := by
  induction deliveries generalizing client received with
  | nil =>
    simp only [recvPayloadLoop]
    split <;> rfl
  | cons delivery rest ih =>
    simp only [recvPayloadLoop, recv_behind]
    split
    · generalize recv client (size - received.length) delivery = outcome
      obtain ⟨received, next⟩ := outcome
      cases received with
      | bytes bytes => exact ih next _
      | endOfStream | error => rfl
    · rfl

private theorem sqRecvHeader_behind (front : List UInt8) (closes : Nat) (client : Client)
    (deliveries : List Delivery) :
    sqRecvHeader (behind front closes client) deliveries =
      (sqRecvHeader client deliveries).map fun outcome =>
        (outcome.1, outcome.2.1, { outcome.2.2 with client := behind front closes outcome.2.2.client }) := by
  simp only [sqRecvHeader, recvHeaderLoop_behind]
  cases recvHeaderLoop client [] deliveries with
  | none => rfl
  | some outcome =>
    obtain ⟨received, refused, net⟩ := outcome
    cases refused with
    | some status => rfl
    | none =>
      simp only [Option.map_some]
      split <;> rfl

/-- The handler does the same. -/
theorem handle_behind (front : List UInt8) (closes : Nat) (client : Client) (deliveries : List Delivery)
    (room : Bool) (beyond : List UInt8) :
    sqHandleClientPayload (behind front closes client) deliveries room beyond =
      (sqHandleClientPayload client deliveries room beyond).map fun net =>
        { net with client := behind front closes net.client } := by
  simp only [sqHandleClientPayload, handlePayload, sqRecvHeader_behind]
  cases sqRecvHeader client deliveries with
  | none => rfl
  | some outcome =>
    obtain ⟨status, header, net⟩ := outcome
    simp only [Option.map_some, recvPayloadLoop_behind]
    split
    · rfl
    · split
      · split
        · rfl
        · cases recvPayloadLoop header.payloadSize net.client [] net.deliveries with
          | none => rfl
          | some result =>
            simp only [Option.map_some]
            split <;> rfl
      · rfl

/-! ## One packet -/

/-- A header that is there takes no more calls. -/
private theorem recvHeaderLoop_full {client : Client} (whole : client.taken ++ client.stream = stream)
    (full : client.taken.length = headerSize) (deliveries : List Delivery) :
    recvHeaderLoop client client.taken deliveries =
      some (stream.take headerSize, none,
        ⟨⟨stream.drop headerSize, stream.take headerSize, client.closes⟩, deliveries, []⟩) := by
  have split := client_split whole full
  have taken : client.taken = stream.take headerSize := congrArg Client.taken split
  have done : ¬ client.taken.length < headerSize := by omega
  rw [← split, ← taken]
  cases deliveries <;> exact if_neg done

/-- The calls deliver a header, with interruptions, where the stream holds one. -/
private theorem recvHeaderLoop_complete {client : Client} (whole : client.taken ++ client.stream = stream)
    (short : client.taken.length ≤ headerSize) (long : headerSize ≤ stream.length)
    (left : leftOver (headerSize - client.taken.length) deliveries = some rest) :
    recvHeaderLoop client client.taken deliveries =
      some (stream.take headerSize, none,
        ⟨⟨stream.drop headerSize, stream.take headerSize, client.closes⟩, rest, []⟩) := by
  induction deliveries generalizing client with
  | nil =>
    rcases Nat.lt_or_eq_of_le short with missing | full
    · obtain ⟨ahead, count⟩ := Nat.exists_eq_add_one_of_ne_zero (Nat.sub_ne_zero_of_lt missing)
      rw [count] at left
      cases left
    · rw [full, Nat.sub_self, leftOver_zero] at left
      cases left
      exact recvHeaderLoop_full whole full []
  | cons delivery others ih =>
    rcases Nat.lt_or_eq_of_le short with missing | full
    · have lengths := congrArg List.length whole
      rw [List.length_append] at lengths
      obtain ⟨ahead, count⟩ := Nat.exists_eq_add_one_of_ne_zero (Nat.sub_ne_zero_of_lt missing)
      simp only [recvHeaderLoop, if_pos missing]
      rw [count] at left ⊢
      cases delivery with
      | chunk more =>
        have open_ : client.stream ≠ [] := by
          rw [← List.length_pos_iff]
          omega
        have got : (client.stream.take (min (more + 1) (ahead + 1))).length = min (more + 1) (ahead + 1) :=
          chunk_taken whole (by omega)
        simp only [recv, if_neg open_]
        refine ih (recv_whole whole) ?_ ?_
        · rw [List.length_append, got]
          omega
        · rw [List.length_append, got]
          have next : headerSize - (client.taken.length + min (more + 1) (ahead + 1)) = ahead - more := by omega
          rw [next]
          exact left
      | interrupted | fault =>
        simp only [recv]
        exact ih whole short (by rw [count]; exact left)
      | wouldBlock => cases left
    · rw [full, Nat.sub_self, leftOver_zero] at left
      cases left
      exact recvHeaderLoop_full whole full _

/-- Calls that are not disturbed deliver so many bytes. -/
private theorem recvPayloadLoop_complete {client : Client} (short : received.length ≤ size)
    (long : size - received.length ≤ client.stream.length)
    (enough : size - received.length ≤ offered deliveries) :
    ∃ rest, recvPayloadLoop size client received deliveries =
      some (received ++ client.stream.take (size - received.length),
        ⟨⟨client.stream.drop (size - received.length),
          client.taken ++ client.stream.take (size - received.length), client.closes⟩, rest, []⟩) := by
  induction deliveries generalizing client received with
  | nil =>
    have full : size - received.length = 0 := Nat.le_zero.mp enough
    rw [full]
    refine ⟨[], ?_⟩
    simp only [recvPayloadLoop, if_neg (show ¬ received.length < size by omega), List.take_zero,
      List.append_nil, List.drop_zero]
  | cons delivery others ih =>
    by_cases missing : received.length < size
    · simp only [recvPayloadLoop, if_pos missing]
      cases delivery with
      | chunk more =>
        have open_ : client.stream ≠ [] := by
          rw [← List.length_pos_iff]
          omega
        obtain ⟨want, asked⟩ : ∃ want, want = min (more + 1) (size - received.length) := ⟨_, rfl⟩
        obtain ⟨later, split⟩ : ∃ later, size - received.length = want + later :=
          ⟨size - received.length - want, by omega⟩
        have got : (client.stream.take want).length = want := by
          rw [List.length_take]
          omega
        have after : size - (received ++ client.stream.take want).length = later := by
          rw [List.length_append, got]
          omega
        simp only [offered] at enough
        obtain ⟨rest, ran⟩ := @ih (received ++ client.stream.take want)
          { client with stream := client.stream.drop want, taken := client.taken ++ client.stream.take want }
          (by rw [List.length_append, got]; omega) (by rw [after, List.length_drop]; omega) (by rw [after]; omega)
        rw [after] at ran
        refine ⟨rest, ?_⟩
        simp only [recv, if_neg open_, ← asked]
        rw [ran, split]
        simp only [List.take_add, List.drop_drop, List.append_assoc]
      | interrupted | wouldBlock | fault =>
        have none_ : size - received.length ≤ 0 := enough
        omega
    · have full : size - received.length = 0 := by omega
      rw [full]
      refine ⟨delivery :: others, ?_⟩
      simp only [recvPayloadLoop, if_neg missing, List.take_zero, List.append_nil, List.drop_zero]

/-- A header that is delivered is taken from the stream. -/
private theorem header_delivered {header : SqPacketHeader} (deliveries : List Delivery)
    (left : leftOver headerSize deliveries = some rest) (more : List UInt8) :
    recvHeaderLoop (accepted (headerBytes header ++ more)) [] deliveries =
      some (headerBytes header, none, ⟨⟨more, headerBytes header, 0⟩, rest, []⟩) := by
  have size := headerBytes_length header
  have start : (accepted (headerBytes header ++ more)).taken ++ (accepted (headerBytes header ++ more)).stream =
    headerBytes header ++ more := rfl
  have long : headerSize ≤ (headerBytes header ++ more).length := by
    rw [List.length_append, size]
    exact Nat.le_add_right _ _
  have ran := recvHeaderLoop_complete start (Nat.zero_le _) long left
  rw [List.take_left' size, List.drop_left' size] at ran
  exact ran

/-- A packet that is delivered is taken from the stream, and logged. -/
theorem handle_packet (packet : Packet) (undisturbed : Undisturbed packet call) (more : List UInt8) :
    ∃ rest, sqHandleClientPayload (accepted (packet.bytes ++ more)) call.deliveries call.room call.beyond =
      some ⟨⟨more, packet.bytes, 0⟩, rest, packet.handled⟩ := by
  obtain ⟨room, left, header, payload⟩ := undisturbed
  have whole : packet.bytes ++ more = headerBytes packet.header ++ (packet.payload ++ more) :=
    List.append_assoc _ _ _
  have looped : recvHeaderLoop (accepted (headerBytes packet.header ++ (packet.payload ++ more))) [] call.deliveries =
      some (headerBytes packet.header, none, ⟨⟨packet.payload ++ more, headerBytes packet.header, 0⟩, _, []⟩) :=
    header_delivered call.deliveries header (packet.payload ++ more)
  rw [whole, handle_header looped, headerOf_headerBytes (header_valid packet), room]
  have announced : packet.payload.length > 0 := by
    rw [payload_length]
    exact Nat.succ_pos _
  have there : packet.payload.length - ([] : List UInt8).length ≤
      (Client.mk (packet.payload ++ more) (headerBytes packet.header) 0).stream.length := by
    rw [List.length_append]
    exact Nat.le_add_right _ _
  obtain ⟨rest, ran⟩ := recvPayloadLoop_complete (Nat.zero_le _) there payload
  rw [List.length_nil, Nat.sub_zero, List.take_left, List.drop_left, List.nil_append] at ran
  refine ⟨rest, ?_⟩
  have magic : packet.header.magic = sqMagic := rfl
  simp only [magic, header_size, announced, ran, ne_eq, not_true_eq_false, ↓reduceIte, Bool.true_eq_false,
    Option.map_some, logPayload_packet, List.nil_append]
  rfl

/-- So is a header without a payload, and nothing is done about it. -/
theorem handle_bare {call : Call} (fits : type < 2 ^ 32) (left : leftOver headerSize call.deliveries = some rest)
    (more : List UInt8) :
    sqHandleClientPayload (accepted (headerBytes ⟨sqMagic, type, 0⟩ ++ more)) call.deliveries call.room
        call.beyond =
      some ⟨⟨more, headerBytes ⟨sqMagic, type, 0⟩, 0⟩, rest, []⟩ := by
  have valid : HeaderExchange.Valid ⟨sqMagic, type, 0⟩ :=
    ⟨show sqMagic < 2 ^ 32 by decide, fits, show 0 < 2 ^ 32 by decide⟩
  rw [handle_header (header_delivered call.deliveries left more), headerOf_headerBytes valid]
  simp

theorem handle_message {call : Call} (message : Message) (delivered : message.Delivered call) (more : List UInt8) :
    ∃ rest, sqHandleClientPayload (accepted (message.bytes ++ more)) call.deliveries call.room call.beyond =
      some ⟨⟨more, message.bytes, 0⟩, rest, message.handled⟩ := by
  cases message with
  | bare type fits =>
    obtain ⟨rest, left⟩ := Option.isSome_iff_exists.mp delivered
    exact ⟨rest, handle_bare fits left more⟩
  | withPayload packet => exact handle_packet packet delivered more

/-! ## A connection -/

/-- The bytes of messages that are sent one after the other. -/
def sent (messages : List Message) : List UInt8 := messages.flatMap Message.bytes

/-- One more message, on a connection that is at the start of it. -/
theorem step_message {call : Call} (message : Message) (delivered : message.Delivered call)
    (unfreed : .freed ∉ actions) (taken more : List UInt8) :
    step ⟨⟨message.bytes ++ more, taken, 0⟩, actions⟩ call =
      some ⟨⟨more, taken ++ message.bytes, 0⟩, actions ++ message.handled⟩ := by
  obtain ⟨rest, ran⟩ := handle_message message delivered more
  have moved := handle_behind taken 0 (accepted (message.bytes ++ more)) call.deliveries call.room call.beyond
  rw [ran] at moved
  have same : behind taken 0 (accepted (message.bytes ++ more)) = ⟨message.bytes ++ more, taken, 0⟩ := by
    simp [behind, accepted]
  rw [same] at moved
  rw [step, if_neg unfreed, moved]
  rfl

/-- The peer has closed its end at the start of a message: the call closes the descriptor. -/
theorem step_end (count : Nat) (room : Bool) (beyond taken : List UInt8) (deliveries : List Delivery)
    (unfreed : .freed ∉ actions) :
    step ⟨⟨[], taken, 0⟩, actions⟩ ⟨.chunk count :: deliveries, room, beyond⟩ =
      some ⟨⟨[], taken, 1⟩, actions ++ [.debug (asStatus .server .refuse .recv)]⟩ := by
  have refused : getCnd (asStatus .server .refuse .recv) ≠ Cnd.success.raw := getCnd_ne (by decide)
  have looped : recvHeaderLoop ⟨[], taken, 0⟩ [] (.chunk count :: deliveries) =
      some ([], some (asStatus .server .refuse .recv),
        ⟨⟨[], taken, 1⟩, deliveries, [.debug (asStatus .server .refuse .recv)]⟩) := rfl
  simp only [step, if_neg unfreed, sqHandleClientPayload, handlePayload, sqRecvHeader, looped, if_pos refused,
    Option.map_some]

/-- Messages one after the other. -/
theorem run_messages (pairs : List (Message × Call)) (delivered : ∀ pair ∈ pairs, pair.1.Delivered pair.2)
    (last : LastOnly (pairs.map Prod.fst)) (unfreed : .freed ∉ actions) (taken more : List UInt8) :
    exec step ⟨⟨sent (pairs.map Prod.fst) ++ more, taken, 0⟩, actions⟩ (pairs.map Prod.snd) =
      some ⟨⟨more, taken ++ sent (pairs.map Prod.fst), 0⟩,
        actions ++ (pairs.map Prod.fst).flatMap Message.handled⟩ := by
  induction pairs generalizing taken actions with
  | nil => simp [sent]
  | cons pair pairs ih =>
    obtain ⟨here, later⟩ := List.forall_mem_cons.mp delivered
    have first : sent ((pair :: pairs).map Prod.fst) = pair.1.bytes ++ sent (pairs.map Prod.fst) := rfl
    rw [first, List.append_assoc, List.map_cons, exec_cons]
    refine ⟨_, step_message pair.1 here unfreed taken _, ?_⟩
    cases pairs with
    | nil => simp [sent]
    | cons next others =>
      have bare : pair.1.isBare = true := last pair.1 List.mem_cons_self
      have rest : LastOnly ((next :: others).map Prod.fst) :=
        fun message member => last message (List.mem_cons_of_mem _ member)
      have handled : ((pair :: next :: others).map Prod.fst).flatMap Message.handled =
          ((next :: others).map Prod.fst).flatMap Message.handled := by
        rw [List.map_cons, List.flatMap_cons, handled_bare bare, List.nil_append]
      rw [handled, handled_bare bare, List.append_nil, ih later rest unfreed, List.append_assoc]

private theorem handled_all_bare {messages : List Message}
    (bare : ∀ message ∈ messages, Message.isBare message = true) :
    messages.flatMap Message.handled = [] := by
  rw [List.flatMap_eq_nil_iff]
  exact fun message member => handled_bare (bare message member)

/-- Whatever messages are sent on a connection, the last of them perhaps a packet, and
however their bytes are cut into calls of `recv`, as long as each is delivered: each call of
the handler takes exactly the next one, it logs the command of the packet and the length of
its output, and nothing about the others, and the descriptor stays open, until the peer has
closed its end. -/
theorem messages_framed (pairs : List (Message × Call)) (delivered : ∀ pair ∈ pairs, pair.1.Delivered pair.2)
    (last : LastOnly (pairs.map Prod.fst)) :
    (∀ more, exec step (start (sent (pairs.map Prod.fst) ++ more)) (pairs.map Prod.snd) =
      some ⟨⟨more, sent (pairs.map Prod.fst), 0⟩, (pairs.map Prod.fst).flatMap Message.handled⟩) ∧
    ((∀ message ∈ pairs.map Prod.fst, message.isBare = true) → ∀ count room beyond deliveries,
      exec step (start (sent (pairs.map Prod.fst)))
          (pairs.map Prod.snd ++ [⟨.chunk count :: deliveries, room, beyond⟩]) =
        some ⟨⟨[], sent (pairs.map Prod.fst), 1⟩, [.debug (asStatus .server .refuse .recv)]⟩) := by
  have run (more : List UInt8) := run_messages pairs delivered last List.not_mem_nil [] more
  simp only [List.nil_append] at run
  refine ⟨run, fun bare count room beyond deliveries => ?_⟩
  have all := run []
  rw [List.append_nil, handled_all_bare bare] at all
  exact exec_append.mpr
    ⟨_, all, exec_cons.mpr ⟨_, step_end count room beyond _ deliveries List.not_mem_nil, rfl⟩⟩

/-- A header without a payload, and the call that receives it in two pieces. -/
def bareMessage : Message := .bare 0x3001 (by decide)

def bareCall : Call := ⟨[.chunk 5, .chunk 99], false, []⟩

/-- `ls` with its output, and the call that receives it; its header is interrupted. -/
def lsMessage : Message :=
  .withPayload ⟨0x3001, [0x6c, 0x73], [0x61, 0x0a], by decide, by decide, by decide, by decide⟩

def lsCall : Call := ⟨[.chunk 3, .interrupted, .chunk 99, .chunk 0, .chunk 9], true, []⟩

/-- Both are received, and one byte that follows is left. -/
theorem bare_and_packet_framed :
    exec step (start (sent [bareMessage, lsMessage] ++ [0x51])) [bareCall, lsCall] =
      some ⟨⟨[0x51], sent [bareMessage, lsMessage], 0⟩, [.logged [0x6c, 0x73] 2, .freed]⟩ := by
  have delivered : ∀ pair ∈ [(bareMessage, bareCall), (lsMessage, lsCall)], pair.1.Delivered pair.2 := by
    simp only [List.forall_mem_cons]
    exact ⟨rfl, ⟨rfl, _, rfl, by decide⟩, List.forall_mem_nil _⟩
  exact (messages_framed _ delivered (List.forall_mem_singleton.mpr rfl)).1 [0x51]

end ShapeQuake.PacketStream
