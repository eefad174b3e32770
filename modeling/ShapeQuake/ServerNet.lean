import ShapeQuake.Library.Bytes
import ShapeQuake.Status

/-! Packets in the server's `net.c`: a header sent by one loop, read by another
and its payload by a third, through sockets that take and deliver as many bytes
at a time as they like. The outcomes of the `send` or `recv` calls are a list,
one for each call; a function has no result when it still waits at the end of
the list. -/
namespace ShapeQuake.ServerNet
open Library.Bytes

/-- What a `recv` call meets: at least one byte of the stream (one more than the
number, if the stream has them), or an error. The stream's end is met by a call
that would deliver bytes when none are left. -/
inductive Delivery where
  | chunk (more : Nat)
  | interrupted
  | wouldBlock
  | fault
  deriving DecidableEq, Repr

/-- What a `recv` call returns. -/
inductive Received where
  | bytes (received : List UInt8)
  | endOfStream
  | error (errno : Delivery)
  deriving DecidableEq, Repr

/-- A client's descriptor: the bytes it has still to deliver, those that have
been taken from it, and how often the server has closed it. -/
structure Client where
  stream : List UInt8
  taken : List UInt8
  closes : Nat
  deriving DecidableEq, Repr

/-- A descriptor that has just been accepted. -/
def accepted (stream : List UInt8) : Client := ⟨stream, [], 0⟩

/-- `recv` of at most `size` bytes. -/
def recv (client : Client) (size : Nat) (delivery : Delivery) : Received × Client :=
  match delivery with
  | .chunk more =>
    if client.stream = [] then (.endOfStream, client)
    else
      let received := client.stream.take (min (more + 1) size)
      (.bytes received,
        { client with
          stream := client.stream.drop (min (more + 1) size)
          taken := client.taken ++ received })
  | other => (.error other, client)

/-- `close`. -/
def close (client : Client) : Client := { client with closes := client.closes + 1 }

/-- `sq_packet_header_t`. -/
structure SqPacketHeader where
  magic : Nat
  type : Nat
  payloadSize : Nat
  deriving DecidableEq, Repr

/-- `sizeof(sq_packet_header_t)`. -/
def headerSize : Nat := 12

/-- `SQ_MAGIC`. -/
def sqMagic : Nat := 0x51534551

/-- The header in these bytes; bytes that are missing are zero. -/
def headerOf (bytes : List UInt8) : SqPacketHeader :=
  { magic := ofBytes (bytes.take 4)
    type := ofBytes ((bytes.drop 4).take 4)
    payloadSize := ofBytes ((bytes.drop 8).take 4) }

/-- What the server does besides receiving. -/
inductive Action where
  | debug (status : Status)
  | logged (command : List UInt8) (output : Nat)
  | freed
  deriving DecidableEq, Repr

/-- The bytes of a header. -/
def headerBytes (header : SqPacketHeader) : List UInt8 :=
  toBytes 4 header.magic ++ toBytes 4 header.type ++ toBytes 4 header.payloadSize

/-- What a `send` call meets: it takes at least one byte (one more than the
number, if it is given as many), none at all, or an error. -/
inductive Sending where
  | sent (more : Nat)
  | closed
  | interrupted
  | wouldBlock
  | fault
  deriving DecidableEq, Repr

/-- A descriptor that is sent on: the bytes handed over, how often the server
has closed it, and what it has printed. -/
structure Outgoing where
  handed : List UInt8
  closes : Nat
  actions : List Action
  deriving DecidableEq, Repr

/-- The loop of `sq_send_header`, from the bytes at the header's address on. -/
def sendHeaderLoop (ptr : List UInt8) (totalSent : Nat) (out : Outgoing) :
    List Sending → Option (Status × Outgoing)
  | [] => if totalSent < headerSize then none else some (asStatus .server .success .send, out)
  | outcome :: rest =>
    if totalSent < headerSize then
      match outcome with
      | .sent more =>
        let n := min (more + 1) (headerSize - totalSent)
        sendHeaderLoop ptr (totalSent + n)
          { out with handed := out.handed ++ (ptr.drop totalSent).take n } rest
      | .closed =>
        let status := asStatus .server .dead .send
        some (status, { out with
          closes := out.closes + 1, actions := out.actions ++ [.debug status] })
      | .interrupted => sendHeaderLoop ptr totalSent out rest
      | .wouldBlock =>
        some (asStatus .response .retry .connection, { out with closes := out.closes + 1 })
      | .fault =>
        some (asStatus .server .failure .send, { out with
          closes := out.closes + 1
          actions := out.actions ++ [.debug (asStatus .server .abort .send)] })
    else some (asStatus .server .success .send, out)

/-- `sq_send_header`. -/
def sqSendHeader (header : Option SqPacketHeader) (outcomes : List Sending) :
    Option (Status × Outgoing) :=
  match header with
  | none => some (asStatus .server .abort .value, ⟨[], 0, []⟩)
  | some header => sendHeaderLoop (headerBytes header) 0 ⟨[], 0, []⟩ outcomes

/-- The state in which a receiving function leaves its client: the outcomes of
`recv` that are left over and what has been done. -/
structure Net where
  client : Client
  deliveries : List Delivery
  actions : List Action
  deriving DecidableEq, Repr

/-- The loop of `sq_recv_header`: the bytes of the header received so far, and
the status with which the function returns when they are not all of them. -/
def recvHeaderLoop (client : Client) (received : List UInt8) :
    List Delivery → Option (List UInt8 × Option Status × Net)
  | [] => if received.length < headerSize then none else some (received, none, ⟨client, [], []⟩)
  | delivery :: rest =>
    if received.length < headerSize then
      match recv client (headerSize - received.length) delivery with
      | (.bytes bytes, client) => recvHeaderLoop client (received ++ bytes) rest
      | (.endOfStream, client) =>
        let status := asStatus .server .refuse .recv
        some (received, some status, ⟨close client, rest, [.debug status]⟩)
      | (.error .wouldBlock, client) =>
        let status := asStatus .response .retry .connection
        some (received, some status, ⟨close client, rest, []⟩)
      -- an interrupted call is repeated, and so is one that failed in any other way
      | (.error _, client) => recvHeaderLoop client received rest
    else some (received, none, ⟨client, delivery :: rest, []⟩)

/-- `sq_recv_header`, for a header that is zeroed: the status and the header. -/
def sqRecvHeader (client : Client) (deliveries : List Delivery) :
    Option (Status × SqPacketHeader × Net) :=
  match recvHeaderLoop client [] deliveries with
  | none => none
  | some (received, some status, net) => some (status, headerOf received, net)
  | some (received, none, net) =>
    let header := headerOf received
    if header.magic ≠ sqMagic then
      let status := asStatus .server .invalid .magic
      some (status, header, { net with actions := net.actions ++ [.debug status] })
    else some (asStatus .server .success .recv, header, net)

/-- The receiving loop of `sq_handle_client_payload`: what has been received
when it ends. -/
def recvPayloadLoop (size : Nat) (client : Client) (received : List UInt8) :
    List Delivery → Option (List UInt8 × Net)
  | [] => if received.length < size then none else some (received, ⟨client, [], []⟩)
  | delivery :: rest =>
    if received.length < size then
      match recv client (size - received.length) delivery with
      | (.bytes bytes, client) => recvPayloadLoop size client (received ++ bytes) rest
      | (_, client) => some (received, ⟨client, rest, []⟩)
    else some (received, ⟨client, delivery :: rest, []⟩)

/-- `strlen` of the string at the start of these bytes. -/
def strlen (bytes : List UInt8) : Nat := (bytes.takeWhile (· ≠ 0)).length

/-- The line printed for a payload that has been received in full. The scans run
on into `beyond`, the memory after the payload. -/
def logPayload (payload beyond : List UInt8) : Action :=
  let memory := payload ++ beyond
  let cmdLen := strlen memory
  .logged (memory.take cmdLen)
    (if cmdLen + 1 < payload.length then strlen (memory.drop (cmdLen + 1)) else 0)

/-- `sq_handle_client_payload`, but for what it does with a payload that has come whole
and with the descriptor as it is then. Whether `arena_alloc` has room for the payload is
the last argument. -/
def handlePayload {Result : Type} (whole : List UInt8 → Net → Result) (other : Net → Result)
    (client : Client) (deliveries : List Delivery) (room : Bool) : Option Result :=
  match sqRecvHeader client deliveries with
  | none => none
  | some (status, header, net) =>
    if getCnd status ≠ Cnd.success.raw then some (other net)
    else if header.payloadSize > 0 then
      if room = false then some (other net)
      else
        match recvPayloadLoop header.payloadSize net.client [] net.deliveries with
        | none => none
        | some (payload, after) =>
          let received := { after with actions := net.actions ++ after.actions }
          if payload.length = header.payloadSize then some (whole payload received)
          else some (other { received with actions := received.actions ++ [.freed] })
    else some (other net)

/-- The line that is printed for a payload, and the `free` behind it. -/
def logged (beyond payload : List UInt8) (net : Net) : Net :=
  { net with actions := net.actions ++ [logPayload payload beyond, .freed] }

/-- `sq_handle_client_payload`. -/
def sqHandleClientPayload (client : Client) (deliveries : List Delivery) (room : Bool)
    (beyond : List UInt8) : Option Net :=
  handlePayload (logged beyond) (fun net => net) client deliveries room

end ShapeQuake.ServerNet
