import ShapeQuake.ServerNetProofs

/-! The strings of a payload. `sq_handle_client_payload` finds the command and the
output behind it with `strlen`, in bytes that are whatever the client sent, and
nothing checks first that each of them ends inside the payload. -/
namespace ShapeQuake.PayloadScans
open Library.Bytes ServerNet ServerNetProofs

/-- The offsets that `strlen` reads from a start on: the string and its null. -/
def scan (memory : List UInt8) (start : Nat) : List Nat :=
  List.range' start (strlen (memory.drop start) + 1)

/-- The offsets, from the payload on, that are read for the line printed for it.
Printing the command reads the same bytes as its `strlen`. -/
def logScans (payload beyond : List UInt8) : List Nat :=
  let memory := payload ++ beyond
  let cmdLen := strlen memory
  scan memory 0 ++ if cmdLen + 1 < payload.length then scan memory (cmdLen + 1) else []

/-- `sq_handle_client_payload` with the offsets that its scans read. -/
def scanningHandler (client : Client) (deliveries : List Delivery) (room : Bool)
    (beyond : List UInt8) : Option (Net × List Nat) :=
  handlePayload (fun payload net => (logged beyond payload net, logScans payload beyond))
    (fun net => (net, [])) client deliveries room

/-- The payload of the message that starts the stream. -/
def payloadOf (stream : List UInt8) : List UInt8 :=
  (stream.drop headerSize).take (headerOf (stream.take headerSize)).payloadSize

/-- The payload is the command, its null and what is behind, which is nothing or
starts with an output of that length and its null. -/
def Splits (payload command : List UInt8) (output : Nat) : Prop :=
  ∃ rest, payload = command ++ 0 :: rest ∧ 0 ∉ command ∧
    (rest = [] ∧ output = 0 ∨
      ∃ text tail, rest = text ++ 0 :: tail ∧ 0 ∉ text ∧ output = text.length)

/-- What the handler should have done with a payload: its scans have stayed inside,
and the strings of a line it printed end inside as well. -/
structure StaysInside (payload : List UInt8) (net : Net) (reads : List Nat) : Prop where
  inside : ∀ offset ∈ reads, offset < payload.length
  logged : ∀ command output, .logged command output ∈ net.actions → Splits payload command output

/-- There is a null, and another behind it unless it is the last byte. -/
def Terminated (payload : List UInt8) : Prop :=
  0 ∈ payload ∧ (strlen payload + 1 < payload.length → 0 ∈ payload.drop (strlen payload + 1))

/-- A payload is announced with the right magic, and there is room for it, it is there
and the calls deliver all of it. -/
def ReceivedInFull (stream : List UInt8) (deliveries : List Delivery) (room : Bool) : Prop :=
  ∃ rest, leftOver headerSize deliveries = some rest ∧ headerSize ≤ stream.length ∧
    let header := headerOf (stream.take headerSize)
    header.magic = sqMagic ∧ 0 < header.payloadSize ∧ room = true ∧
      messageSize stream ≤ stream.length ∧ header.payloadSize ≤ offered rest

/-! ## The scans -/

/-- The handler is the one whose scans are not recorded. -/
theorem scanningHandler_net (client : Client) (deliveries : List Delivery) (room : Bool)
    (beyond : List UInt8) :
    (scanningHandler client deliveries room beyond).map Prod.fst =
      sqHandleClientPayload client deliveries room beyond := by
  unfold scanningHandler sqHandleClientPayload handlePayload
  cases sqRecvHeader client deliveries with
  | none => rfl
  | some outcome =>
    obtain ⟨status, header, net⟩ := outcome
    simp only
    split
    · rfl
    · split
      · split
        · rfl
        · cases recvPayloadLoop header.payloadSize net.client [] net.deliveries with
          | none => rfl
          | some result =>
            simp only
            split <;> rfl
      · rfl

@[simp] theorem strlen_cons (byte : UInt8) (rest : List UInt8) :
    strlen (byte :: rest) = if byte = 0 then 0 else strlen rest + 1 := by
  by_cases null : byte = 0 <;> simp [strlen, null]

/-- A string ends before its memory does exactly if there is a null. -/
theorem strlen_lt_iff (bytes : List UInt8) : strlen bytes < bytes.length ↔ 0 ∈ bytes := by
  induction bytes with
  | nil => simp
  | cons byte rest ih =>
    by_cases null : byte = 0
    · simp [null]
    · simpa [null, Ne.symm null] using ih

/-- A string that ends does not depend on what is behind it. -/
theorem strlen_append (ends : 0 ∈ bytes) (beyond : List UInt8) :
    strlen (bytes ++ beyond) = strlen bytes := by
  induction bytes with
  | nil => cases ends
  | cons byte rest ih =>
    by_cases null : byte = 0
    · simp [null]
    · simp [null, ih ((List.mem_cons.mp ends).resolve_left (Ne.symm null))]

/-- A string that does not end runs on into the memory behind. -/
theorem length_le_strlen (runs : 0 ∉ bytes) (beyond : List UInt8) :
    bytes.length ≤ strlen (bytes ++ beyond) := by
  have solid : ∀ byte ∈ bytes, (decide (byte ≠ 0)) = true :=
    fun byte member => decide_eq_true fun null => runs (null ▸ member)
  rw [strlen, List.takeWhile_append_of_pos solid, List.length_append]
  exact Nat.le_add_right _ _

theorem strlen_split (ends : 0 ∈ bytes) :
    bytes = bytes.take (strlen bytes) ++ 0 :: bytes.drop (strlen bytes + 1) ∧
      0 ∉ bytes.take (strlen bytes) := by
  induction bytes with
  | nil => cases ends
  | cons byte rest ih =>
    by_cases null : byte = 0
    · simp [null]
    · have count : strlen (byte :: rest) = strlen rest + 1 := by simp [null]
      obtain ⟨split_, solid⟩ := ih ((List.mem_cons.mp ends).resolve_left (Ne.symm null))
      rw [count, List.take_succ_cons, List.drop_succ_cons]
      refine ⟨congrArg (byte :: ·) split_, ?_⟩
      rw [List.mem_cons, not_or]
      exact ⟨Ne.symm null, solid⟩

/-- A scan stays inside the payload exactly if there is a null from its start on. -/
theorem scan_inside_iff (payload beyond : List UInt8) (within : start ≤ payload.length) :
    (∀ offset ∈ scan (payload ++ beyond) start, offset < payload.length) ↔
      0 ∈ payload.drop start := by
  have drop : (payload ++ beyond).drop start = payload.drop start ++ beyond :=
    List.drop_append_of_le_length within
  have last : start + strlen (payload.drop start ++ beyond) ∈ scan (payload ++ beyond) start := by
    rw [scan, drop, List.mem_range'_1]
    omega
  constructor
  · intro inside
    by_contra runs
    have out := length_le_strlen runs beyond
    rw [List.length_drop] at out
    have read := inside _ last
    omega
  · intro ends offset read
    rw [scan, drop, List.mem_range'_1, strlen_append ends] at read
    have short := (strlen_lt_iff _).mpr ends
    rw [List.length_drop] at short
    omega

/-- All that is read for a payload lies inside it exactly if it is terminated. -/
theorem logScans_inside_iff (payload beyond : List UInt8) :
    (∀ offset ∈ logScans payload beyond, offset < payload.length) ↔ Terminated payload := by
  have first := scan_inside_iff payload beyond (Nat.zero_le _)
  rw [List.drop_zero] at first
  simp only [logScans, List.forall_mem_append]
  rw [first, Terminated]
  refine and_congr_right fun ends => ?_
  rw [strlen_append ends]
  by_cases more : strlen payload + 1 < payload.length
  · rw [if_pos more, scan_inside_iff payload beyond (Nat.le_of_lt more)]
    exact ⟨fun held _ => held, fun held => held more⟩
  · rw [if_neg more]
    exact iff_of_true nofun fun less => absurd less more

/-- The line printed for a terminated payload shows its strings. -/
theorem log_splits (terminated : Terminated payload) (beyond : List UInt8) :
    ∃ command output, logPayload payload beyond = .logged command output ∧
      Splits payload command output := by
  obtain ⟨ends, second⟩ := terminated
  have short := (strlen_lt_iff _).mpr ends
  obtain ⟨split_, solid⟩ := strlen_split ends
  refine ⟨_, _, rfl, payload.drop (strlen payload + 1), ?_, ?_, ?_⟩
  · rw [strlen_append ends, List.take_append_of_le_length (Nat.le_of_lt short)]
    exact split_
  · rw [strlen_append ends, List.take_append_of_le_length (Nat.le_of_lt short)]
    exact solid
  · rw [strlen_append ends]
    by_cases more : strlen payload + 1 < payload.length
    · obtain ⟨rest, text⟩ := strlen_split (second more)
      have length : strlen (payload.drop (strlen payload + 1)) ≤
          (payload.drop (strlen payload + 1)).length :=
        Nat.le_of_lt ((strlen_lt_iff _).mpr (second more))
      refine .inr ⟨_, _, rest, text, ?_⟩
      rw [if_pos more, List.drop_append_of_le_length (Nat.le_of_lt more),
        strlen_append (second more), List.length_take, Nat.min_eq_left length]
    · exact .inl ⟨List.drop_eq_nil_of_le (Nat.le_of_not_lt more), if_neg more⟩

/-! ## The handler -/

/-- Up to the payload nothing is printed but diagnostics. -/
private theorem header_prints_nothing
    (ran : recvHeaderLoop client received deliveries = some (bytes, refused, net)) :
    .logged command output ∉ net.actions := by
  induction deliveries generalizing client received with
  | nil =>
    simp only [recvHeaderLoop] at ran
    split at ran
    · cases ran
    · cases ran
      exact List.not_mem_nil
  | cons delivery rest ih =>
    simp only [recvHeaderLoop] at ran
    split at ran
    · split at ran
      · exact ih ran
      · cases ran
        simp
      · cases ran
        simp
      · exact ih ran
    · cases ran
      exact List.not_mem_nil

private theorem payload_prints_nothing
    (ran : recvPayloadLoop size client received deliveries = some (payload, after)) :
    after.actions = [] := by
  induction deliveries generalizing client received with
  | nil =>
    simp only [recvPayloadLoop] at ran
    split at ran
    · cases ran
    · cases ran
      rfl
  | cons delivery rest ih =>
    simp only [recvPayloadLoop] at ran
    split at ran
    · split at ran
      · exact ih ran
      · cases ran
        rfl
    · cases ran
      rfl

/-- What the loop of the payload has received when it returns behind the header. -/
private theorem payload_received (behind : client.stream = stream.drop headerSize)
    (long : headerSize ≤ stream.length)
    (ran : recvPayloadLoop (headerOf (stream.take headerSize)).payloadSize client [] deliveries =
      some (payload, after)) :
    (payload.length = (headerOf (stream.take headerSize)).payloadSize ↔
      messageSize stream ≤ stream.length ∧
        (headerOf (stream.take headerSize)).payloadSize ≤ offered deliveries) ∧
    (payload.length = (headerOf (stream.take headerSize)).payloadSize → payload = payloadOf stream) := by
  obtain ⟨count, received, _, _, full⟩ := recvPayloadLoop_returns (Nat.zero_le _) ran
  rw [behind] at received full
  simp only [List.nil_append, List.length_nil, Nat.sub_zero, List.length_drop] at received full
  constructor
  · rw [full, messageSize]
    apply and_congr_left'
    omega
  · intro whole
    rw [payloadOf, received, ← whole, received, List.length_take, List.take_eq_take_iff]
    omega

/-- What a call that returns has read and printed: the strings of the payload, or nothing. -/
inductive Scanned (stream : List UInt8) (deliveries : List Delivery) (room : Bool)
    (beyond : List UInt8) (net : Net) : List Nat → Prop
  | inFull (full : ReceivedInFull stream deliveries room)
      (printed : ∀ command output, .logged command output ∈ net.actions ↔
        logPayload (payloadOf stream) beyond = .logged command output) :
      Scanned stream deliveries room beyond net (logScans (payloadOf stream) beyond)
  | nothing (stopped : ¬ ReceivedInFull stream deliveries room)
      (quiet : ∀ command output, .logged command output ∉ net.actions) :
      Scanned stream deliveries room beyond net []

/-- A call that does not get past the header has read nothing of a payload. -/
private theorem not_received_of_header (status : Status)
    (looped : recvHeaderLoop (accepted stream) [] deliveries = some (bytes, some status, after)) :
    ¬ ReceivedInFull stream deliveries room ∧ getCnd status ≠ Cnd.success.raw := by
  have start : (accepted stream).taken ++ (accepted stream).stream = stream := rfl
  rcases recvHeaderLoop_returns start (Nat.zero_le _) looped with ⟨none_, _⟩ | ⟨_, same, failed, _, why⟩
  · cases none_
  · obtain rfl := Option.some.inj same
    refine ⟨?_, failed⟩
    rintro ⟨rest, left, long, _⟩
    rcases why with short | ⟨none_, _⟩
    · omega
    · rw [show leftOver headerSize deliveries = none from none_] at left
      cases left

theorem scanning_scanned
    (returned : scanningHandler (accepted stream) deliveries room beyond = some (net, reads)) :
    Scanned stream deliveries room beyond net reads := by
  unfold scanningHandler handlePayload sqRecvHeader at returned
  cases looped : recvHeaderLoop (accepted stream) [] deliveries with
  | none =>
    rw [looped] at returned
    cases returned
  | some outcome =>
    obtain ⟨bytes, refused, after⟩ := outcome
    have quiet (command output) : .logged command output ∉ after.actions := header_prints_nothing looped
    rw [looped] at returned
    cases refused with
    | some status =>
      obtain ⟨stopped, failed⟩ := not_received_of_header status looped
      simp only [failed, ne_eq, not_false_eq_true, if_true] at returned
      cases returned
      exact .nothing stopped quiet
    | none =>
      have start : (accepted stream).taken ++ (accepted stream).stream = stream := rfl
      rcases recvHeaderLoop_returns start (Nat.zero_le _) looped with
        ⟨_, rfl, long, client, left⟩ | ⟨_, same, _⟩
      case inr => cases same
      have left : leftOver headerSize deliveries = some after.deliveries := left
      have behind : after.client.stream = stream.drop headerSize := congrArg Client.stream client
      by_cases magic : (headerOf (stream.take headerSize)).magic = sqMagic
      case neg =>
        have invalid : getCnd (asStatus .server .invalid .magic) ≠ Cnd.success.raw := getCnd_ne nofun
        simp only [magic, ne_eq, not_false_eq_true, if_true, invalid] at returned
        cases returned
        refine .nothing (fun full => ?_) fun command output => by simp [quiet]
        obtain ⟨_, _, _, right, _⟩ := full
        exact magic right
      case pos =>
        simp only [magic, ne_eq, not_true_eq_false, if_false, getCnd_asStatus] at returned
        split at returned
        case isFalse unannounced =>
          cases returned
          refine .nothing (fun full => ?_) quiet
          obtain ⟨_, _, _, _, announced, _⟩ := full
          exact unannounced announced
        case isTrue announced =>
          split at returned
          case isTrue crowded =>
            cases returned
            refine .nothing (fun full => ?_) quiet
            obtain ⟨_, _, _, _, _, there, _⟩ := full
            exact Bool.noConfusion (crowded.symm.trans there)
          case isFalse roomy =>
            split at returned
            case h_1 => cases returned
            case h_2 payload last ran =>
              have silent := payload_prints_nothing ran
              obtain ⟨enough, payload_⟩ := payload_received behind long ran
              split at returned
              case isTrue whole =>
                cases returned
                obtain rfl := payload_ whole
                refine .inFull ⟨_, left, long, magic, announced, Bool.eq_true_of_not_eq_false roomy,
                  enough.mp whole⟩ fun command output => ?_
                simp only [logged, silent]
                simp [quiet, eq_comm]
              case isFalse partial_ =>
                cases returned
                refine .nothing (fun full => ?_) fun command output => ?_
                · obtain ⟨rest, same, _, _, _, _, all⟩ := full
                  obtain rfl := Option.some.inj (left.symm.trans same)
                  exact partial_ (enough.mpr all)
                · rw [silent]
                  simp [quiet]

/-- `sq_handle_client_payload` for every stream, every way of delivering it, room for
the payload or not, and whatever lies behind the payload: the scans and the strings
printed stay inside the payload exactly if one that is received in full is terminated. -/
theorem stays_inside_iff_terminated
    (returned : scanningHandler (accepted stream) deliveries room beyond = some (net, reads)) :
    StaysInside (payloadOf stream) net reads ↔
      (ReceivedInFull stream deliveries room → Terminated (payloadOf stream)) := by
  cases scanning_scanned returned with
  | inFull full printed =>
    constructor
    · exact fun stays _ => (logScans_inside_iff _ beyond).mp stays.inside
    · intro met
      have terminated := met full
      obtain ⟨command, output, line, split_⟩ := log_splits terminated beyond
      refine ⟨(logScans_inside_iff _ beyond).mpr terminated, fun other count shown => ?_⟩
      obtain ⟨rfl, rfl⟩ := Action.logged.inj (line.symm.trans ((printed other count).mp shown))
      exact split_
  | nothing stopped quiet =>
    exact iff_of_true ⟨nofun, fun command output shown => absurd shown (quiet command output)⟩
      fun full => absurd full stopped

/-- The small message, whose payload is a string. -/
theorem small_message_scanned :
    ∃ net reads, scanningHandler (accepted smallMessage) [.chunk 11, .chunk 1] true [7, 0] =
        some (net, reads) ∧ StaysInside (payloadOf smallMessage) net reads := by
  refine ⟨⟨⟨[], smallMessage, 0⟩, [], [.logged [0x61] 0, .freed]⟩, [0, 1], by decide, ?_⟩
  apply (stays_inside_iff_terminated (by decide : scanningHandler (accepted smallMessage)
    [.chunk 11, .chunk 1] true [7, 0] =
      some (⟨⟨[], smallMessage, 0⟩, [], [.logged [0x61] 0, .freed]⟩, [0, 1]))).mpr
  exact fun _ => ⟨by decide, by decide⟩

/-- A message whose payload is the byte `a` and no null. -/
def bareMessage : List UInt8 := [0x51, 0x45, 0x53, 0x51, 0, 0, 0, 0, 1, 0, 0, 0, 0x61]

/-- The command printed for it goes on behind the payload. -/
theorem bare_message_overread :
    ¬ ∀ stream deliveries room beyond net reads,
      scanningHandler (accepted stream) deliveries room beyond = some (net, reads) →
        StaysInside (payloadOf stream) net reads := by
  intro always
  have stays := always bareMessage [.chunk 11, .chunk 0] true [0x62, 0]
    ⟨⟨[], bareMessage, 0⟩, [], [.logged [0x61, 0x62] 0, .freed]⟩ [0, 1, 2] (by decide)
  exact absurd (stays.inside 2 (by decide)) (by decide)

end ShapeQuake.PayloadScans
