import ShapeQuake.ServerNetProofs
import ShapeQuake.ReceiveTermination

/-! A packet header on its way between two sides of a connection. Each side moves
it in pieces of its own choosing and repeats what is interrupted; the sender
closes its descriptor on each of its three ways to give up. -/
namespace ShapeQuake.HeaderExchange
open Library.Bytes ServerNet ServerNetProofs
open ReceiveTermination (size)

/-- The fields are 32-bit words. -/
def Valid (header : SqPacketHeader) : Prop :=
  header.magic < 2 ^ 32 ∧ header.type < 2 ^ 32 ∧ header.payloadSize < 2 ^ 32

/-- The first of these calls deliver a header, in pieces and with interruptions. -/
def DeliversHeader (deliveries : List Delivery) : Prop :=
  ∃ first rest, deliveries = first ++ rest ∧ ChunkedOrInterrupted first ∧
    headerSize ≤ (first.map size).sum

/-- The peer reads this header off the stream, and accepts it for its magic. -/
def Reconstructs (header : SqPacketHeader) (stream : List UInt8) (deliveries : List Delivery) : Prop :=
  ∃ status net, sqRecvHeader (accepted stream) deliveries = some (status, header, net) ∧
    (getCnd status = Cnd.success.raw ↔ header.magic = sqMagic)

theorem headerBytes_length (header : SqPacketHeader) : (headerBytes header).length = headerSize := by
  simp [headerBytes, headerSize]

theorem headerOf_headerBytes (valid : Valid header) : headerOf (headerBytes header) = header := by
  obtain ⟨magic, type, payloadSize⟩ := header
  obtain ⟨magicFits, typeFits, sizeFits⟩ := valid
  have first : (headerBytes ⟨magic, type, payloadSize⟩).take 4 = toBytes 4 magic := by
    simp [headerBytes]
  have second : ((headerBytes ⟨magic, type, payloadSize⟩).drop 4).take 4 = toBytes 4 type := by
    simp [headerBytes]
  have third : ((headerBytes ⟨magic, type, payloadSize⟩).drop 8).take 4 = toBytes 4 payloadSize := by
    simp [headerBytes, List.drop_append, List.drop_eq_nil_of_le, List.take_of_length_le]
  rw [headerOf, first, second, third, ofBytes_toBytes magicFits, ofBytes_toBytes typeFits,
    ofBytes_toBytes sizeFits]

/-! ## The sender -/

/-- The sending loop returns success with everything handed over, or it has
handed over less and closed the descriptor once. -/
private theorem sendHeaderLoop_returns {out : Outgoing} (whole : ptr.length = headerSize)
    (handed : out.handed = ptr.take totalSent) (within : totalSent ≤ headerSize)
    (ran : sendHeaderLoop ptr totalSent out outcomes = some (status, after)) :
    (getCnd status = Cnd.success.raw ∧ after.handed = ptr ∧ after.closes = out.closes) ∨
      (getCnd status ≠ Cnd.success.raw ∧ after.closes = out.closes + 1 ∧
        ∃ count < headerSize, after.handed = ptr.take count) := by
  have complete (done : ¬ totalSent < headerSize) : out.handed = ptr := by
    rw [handed, List.take_of_length_le (by omega)]
  induction outcomes generalizing totalSent out with
  | nil =>
    simp only [sendHeaderLoop] at ran
    split at ran
    · cases ran
    · rename_i done
      cases ran
      exact .inl ⟨getCnd_asStatus .., complete done, rfl⟩
  | cons outcome rest ih =>
    simp only [sendHeaderLoop] at ran
    split at ran
    · rename_i missing
      cases outcome with
      | sent more =>
        have next : out.handed ++ (ptr.drop totalSent).take (min (more + 1) (headerSize - totalSent)) =
            ptr.take (totalSent + min (more + 1) (headerSize - totalSent)) := by
          rw [handed, List.take_add]
        simp only at ran
        have sent := ih (show (Outgoing.mk _ out.closes out.actions).handed = _ from next) (by omega)
          ran fun done => by rw [next, List.take_of_length_le (by omega)]
        exact sent
      | interrupted =>
        simp only at ran
        exact ih handed within ran complete
      | closed | wouldBlock | fault =>
        cases ran
        refine .inr ⟨?_, rfl, totalSent, missing, handed⟩
        exact getCnd_ne nofun
    · rename_i done
      cases ran
      exact .inl ⟨getCnd_asStatus .., complete done, rfl⟩

/-! ## The receiver -/

private theorem recvHeaderLoop_complete {client : Client} {stream : List UInt8}
    (whole : client.taken ++ client.stream = stream) (count : client.taken.length = headerSize)
    (deliveries : List Delivery) :
    ∃ net, recvHeaderLoop client client.taken deliveries = some (stream.take headerSize, none, net) := by
  have taken : client.taken = stream.take headerSize := congrArg Client.taken (client_split whole count)
  have done : ¬ client.taken.length < headerSize := by omega
  rw [← taken]
  cases deliveries <;> exact ⟨_, if_neg done⟩

/-- Calls that deliver what is missing of the header complete it. -/
private theorem recvHeaderLoop_delivers {client : Client} {stream : List UInt8}
    (whole : client.taken ++ client.stream = stream) (short : client.taken.length ≤ headerSize)
    (long : headerSize ≤ stream.length) (plain : ChunkedOrInterrupted first)
    (enough : headerSize ≤ client.taken.length + (first.map size).sum) (rest : List Delivery) :
    ∃ net, recvHeaderLoop client client.taken (first ++ rest) =
      some (stream.take headerSize, none, net) := by
  induction first generalizing client with
  | nil =>
    have count : client.taken.length = headerSize := by
      simp only [List.map_nil, List.sum_nil] at enough
      omega
    exact recvHeaderLoop_complete whole count rest
  | cons delivery others ih =>
    obtain ⟨here, later⟩ := List.forall_mem_cons.mp plain
    by_cases missing : client.taken.length < headerSize
    · simp only [List.cons_append, recvHeaderLoop, if_pos missing]
      cases delivery with
      | chunk more =>
        have lengths := congrArg List.length whole
        rw [List.length_append] at lengths
        have left : client.stream ≠ [] := by
          rw [← List.length_pos_iff]
          omega
        have got : (client.stream.take (min (more + 1) (headerSize - client.taken.length))).length =
            min (more + 1) (headerSize - client.taken.length) := chunk_taken whole (by omega)
        simp only [recv, if_neg left]
        refine ih (recv_whole whole) ?_ later ?_
        · rw [List.length_append, got]
          omega
        · simp only [List.map_cons, List.sum_cons, size] at enough
          rw [List.length_append, got]
          omega
      | interrupted =>
        simp only [recv]
        simp only [List.map_cons, List.sum_cons, size, Nat.zero_add] at enough
        exact ih whole short later enough
      | wouldBlock => exact absurd rfl here.1
      | fault => exact absurd rfl here.2
    · exact recvHeaderLoop_complete whole (by omega) _

private theorem sqRecvHeader_reconstructs (valid : Valid header) (more : List UInt8)
    (delivers : DeliversHeader deliveries) :
    Reconstructs header (headerBytes header ++ more) deliveries := by
  obtain ⟨first, rest, rfl, plain, enough⟩ := delivers
  have start : (accepted (headerBytes header ++ more)).taken ++
      (accepted (headerBytes header ++ more)).stream = headerBytes header ++ more := rfl
  have long : headerSize ≤ (headerBytes header ++ more).length := by
    rw [List.length_append, headerBytes_length]
    exact Nat.le_add_right _ _
  obtain ⟨net, ran⟩ := recvHeaderLoop_delivers start (Nat.zero_le _) long plain
    (show headerSize ≤ 0 + _ by rwa [Nat.zero_add]) rest
  have bytes : (headerBytes header ++ more).take headerSize = headerBytes header := by
    rw [List.take_append_of_le_length (headerBytes_length header).ge, ← headerBytes_length header,
      List.take_length]
  rw [bytes] at ran
  have read : recvHeaderLoop (accepted (headerBytes header ++ more)) [] (first ++ rest) =
      some (headerBytes header, none, net) := ran
  simp only [Reconstructs, sqRecvHeader, read, headerOf_headerBytes valid]
  by_cases magic : header.magic = sqMagic
  · simp only [magic, ne_eq, not_true_eq_false, ↓reduceIte, iff_true]
    exact ⟨_, net, rfl, getCnd_asStatus ..⟩
  · simp only [magic, ne_eq, not_false_eq_true, ↓reduceIte, iff_false]
    exact ⟨_, _, rfl, getCnd_ne nofun⟩

/-- Whatever the calls of both sides meet: a header sent with success has been
handed over byte for byte, and a peer to which the bytes are delivered reads the
same header, accepting it for its magic alone; a header that is given up has been
handed over in part only, and its descriptor closed exactly once. -/
theorem header_exchanged (valid : Valid header)
    (returned : sqSendHeader (some header) outcomes = some (status, out)) :
    (getCnd status = Cnd.success.raw →
      out.handed = headerBytes header ∧ out.closes = 0 ∧
        ∀ more deliveries, DeliversHeader deliveries →
          Reconstructs header (out.handed ++ more) deliveries) ∧
    (getCnd status ≠ Cnd.success.raw →
      out.handed <+: headerBytes header ∧ out.handed.length < (headerBytes header).length ∧
        out.closes = 1) := by
  rw [headerBytes_length]
  rcases sendHeaderLoop_returns (headerBytes_length header)
      (show (⟨[], 0, []⟩ : Outgoing).handed = (headerBytes header).take 0 from rfl)
      (Nat.zero_le _) returned with
    ⟨success, handed, closes⟩ | ⟨failed, closes, count, less, handed⟩
  · refine ⟨fun _ => ⟨handed, closes, fun more deliveries delivers => ?_⟩, fun other => absurd success other⟩
    rw [handed]
    exact sqRecvHeader_reconstructs valid more delivers
  · refine ⟨fun success => absurd success failed, fun _ => ⟨?_, ?_, closes⟩⟩
    · rw [handed]
      exact List.take_prefix _ _
    · rw [handed, List.length_take]
      omega

/-- Sent in two pieces with an interruption between them, read in three. -/
theorem interrupted_header_exchanged :
    Reconstructs ⟨sqMagic, 0x1000, 2⟩ (headerBytes ⟨sqMagic, 0x1000, 2⟩ ++ [0x61, 0])
      [.chunk 0, .interrupted, .chunk 6, .chunk 3] := by
  have valid : Valid ⟨sqMagic, 0x1000, 2⟩ := by
    unfold Valid
    decide
  have sent := header_exchanged valid
    (show sqSendHeader (some ⟨sqMagic, 0x1000, 2⟩) [.sent 4, .interrupted, .sent 11] =
      some (asStatus .server .success .send, ⟨headerBytes ⟨sqMagic, 0x1000, 2⟩, 0, []⟩) by decide)
  refine (sent.1 (getCnd_asStatus ..)).2.2 [0x61, 0] _
    ⟨[.chunk 0, .interrupted, .chunk 6, .chunk 3], [], rfl, ?_, by decide⟩
  simp [ChunkedOrInterrupted]

end ShapeQuake.HeaderExchange
