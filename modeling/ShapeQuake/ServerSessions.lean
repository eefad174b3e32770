import ShapeQuake.PacketStream
import ShapeQuake.ServerLoop

/-! The server with all of its clients: the loop of `main` over every connection it has
accepted, each with the bytes its client sends. The handler is given a descriptor's number,
and works on the connection that is open under it at that time. As on one connection, all of
this is up to the first payload. -/
namespace ShapeQuake.ServerSessions
open Library.Runs ServerNet PacketStream
open ServerLoop (Loop)

/-! ## The server -/

/-- A connection that was accepted: its descriptor, what its client sends, the calls of the
handler on it, and what they have done. -/
structure Session where
  clientFd : Int
  stream : List UInt8
  calls : List Call
  connection : Connection

/-- The connection is the one that its descriptor's number leads to. -/
def Session.isOn (session : Session) (fd : Int) : Bool :=
  session.clientFd = fd && session.connection.client.closes = 0

/-- The server's loop, the connections in the order they were accepted, and all that the
handler has done. -/
structure Server where
  loop : Loop
  sessions : List Session
  log : List Action

/-- The server when it enters the loop. -/
def start (socket : Int) : Server := ⟨ServerLoop.start socket, [], []⟩

/-- The events of the loop. An accepted connection comes with what its client will send; a
call of the handler with what its calls of `recv` meet. -/
inductive Event where
  | wait (events : List Int)
  | accept (client : Option (Int × List UInt8))
  | payload (call : Call)

/-- What a call of the handler leads to: the connections behind it, whether it has closed
one, and what it has done. -/
structure Handled where
  sessions : List Session
  closed : Bool
  actions : List Action

/-- `sq_handle_client_payload` on a descriptor. Every `recv` on a number that nothing is open
under fails with `EBADF`. -/
def handle (fd : Int) (call : Call) : List Session → Option Handled
  | [] =>
    if call.deliveries.all (· = .fault) then
      (sqHandleClientPayload ⟨[], [], 0⟩ call.deliveries call.room call.beyond).map fun net =>
        ⟨[], false, net.actions⟩
    else none
  | session :: rest =>
    if session.isOn fd then
      (PacketStream.step session.connection call).map fun after =>
        { sessions := { session with connection := after, calls := session.calls ++ [call] } :: rest
          closed := after.client.closes ≠ 0
          actions := after.actions.drop session.connection.actions.length }
    else (handle fd call rest).map fun handled => { handled with sessions := session :: handled.sessions }

/-- One step of the loop while nothing was freed, with what it does. -/
def serve (server : Server) : Event → Option Server
  | .wait events =>
    (ServerLoop.step server.loop (.wait events)).map fun loop => { server with loop }
  | .accept none =>
    (ServerLoop.step server.loop (.accept none)).map fun loop => { server with loop }
  | .accept (some client) =>
    (ServerLoop.step server.loop (.accept (some client.1))).map fun loop =>
      { server with
        loop
        sessions := server.sessions ++ [⟨client.1, client.2, [], PacketStream.start client.2⟩] }
  | .payload call =>
    match handle server.loop.evFd call server.sessions with
    | none => none
    | some handled =>
      (ServerLoop.step server.loop (.payload handled.closed)).map fun loop =>
        ⟨loop, handled.sessions, server.log ++ handled.actions⟩

/-- One step of the loop. Behind the `free` of a payload there is none. -/
def step (server : Server) (event : Event) : Option Server :=
  if .freed ∈ server.log then none else serve server event

/-! ## One call -/

/-- A closed descriptor keeps `sq_recv_header` in its loop. -/
private theorem faults_never_return (deliveries : List Delivery) (fail : ∀ delivery ∈ deliveries, delivery = .fault)
    (room : Bool) (beyond : List UInt8) :
    sqHandleClientPayload ⟨[], [], 0⟩ deliveries room beyond = none := by
  have looped : recvHeaderLoop ⟨[], [], 0⟩ [] deliveries = none := by
    induction deliveries with
    | nil => rfl
    | cons delivery rest ih =>
      obtain ⟨rfl, others⟩ := List.forall_mem_cons.mp fail
      exact ih others
  simp only [sqHandleClientPayload, handlePayload, sqRecvHeader, looped]

/-- The handler does not return from a number that nothing is open under. -/
theorem handle_closed (closed : ∀ session ∈ sessions, session.isOn fd = false) :
    handle fd call sessions = none := by
  induction sessions with
  | nil =>
    unfold handle
    split
    · rename_i fail
      rw [faults_never_return call.deliveries (by simpa using fail), Option.map_none]
    · rfl
  | cons session rest ih =>
    obtain ⟨here, others⟩ := List.forall_mem_cons.mp closed
    rw [handle, if_neg (by simp [here]), ih others, Option.map_none]

/-- A call on the only connection that is open under the number. -/
theorem handle_last (older : ∀ session ∈ sessions, session.isOn fd = false)
    (ran : handle fd call (sessions ++ [last]) = some handled) :
    last.isOn fd = true ∧ ∃ after, PacketStream.step last.connection call = some after ∧
      handled.sessions = sessions ++ [{ last with connection := after, calls := last.calls ++ [call] }] ∧
      handled.actions = after.actions.drop last.connection.actions.length ∧
      handled.closed = decide (after.client.closes ≠ 0) := by
  induction sessions generalizing handled with
  | nil =>
    rw [List.nil_append, handle] at ran
    split at ran
    case isTrue here =>
      obtain ⟨after, stepped, rfl⟩ := Option.map_eq_some_iff.mp ran
      exact ⟨here, after, stepped, rfl, rfl, rfl⟩
    case isFalse other =>
      obtain ⟨_, never, _⟩ := Option.map_eq_some_iff.mp ran
      rw [handle_closed (List.forall_mem_nil _)] at never
      cases never
  | cons session rest ih =>
    obtain ⟨here, others⟩ := List.forall_mem_cons.mp older
    rw [List.cons_append, handle, if_neg (by simp [here])] at ran
    obtain ⟨inner, stepped, rfl⟩ := Option.map_eq_some_iff.mp ran
    obtain ⟨onIt, after, taken, sessions, actions, closed⟩ := ih others stepped
    exact ⟨onIt, after, taken, congrArg (session :: ·) sessions, actions, closed⟩

/-- A call only adds to what was done on a connection. -/
theorem step_actions (taken : PacketStream.step connection call = some after) :
    connection.actions <+: after.actions := by
  rw [PacketStream.step] at taken
  split at taken
  · cases taken
  · obtain ⟨net, _, rfl⟩ := Option.map_eq_some_iff.mp taken
    exact List.prefix_append _ _

/-! ## The loop -/

private theorem loop_waits (taken : ServerLoop.step loop (.wait events) = some next) :
    next.registered = loop.registered ∧ next.evFd = loop.evFd ∧ next.accepted = loop.accepted ∧
      next.socket = loop.socket := by
  simp only [ServerLoop.step] at taken
  split at taken
  · cases taken
    exact ⟨rfl, rfl, rfl, rfl⟩
  · cases taken

private theorem loop_refuses (taken : ServerLoop.step loop (.accept none) = some next) :
    next.registered = loop.registered ∧ next.evFd = loop.evFd ∧ next.accepted = loop.accepted ∧
      next.socket = loop.socket := by
  simp only [ServerLoop.step] at taken
  split at taken
  · cases taken
  · split at taken
    · cases taken
      exact ⟨rfl, rfl, rfl, rfl⟩
    · cases taken

private theorem loop_accepts (taken : ServerLoop.step loop (.accept (some clientFd)) = some next) :
    clientFd ∉ loop.registered ∧ next.registered = loop.registered ++ [clientFd] ∧
      next.evFd = clientFd ∧ next.accepted = loop.accepted ++ [clientFd] ∧ next.socket = loop.socket := by
  simp only [ServerLoop.step] at taken
  split at taken
  · cases taken
  · split at taken
    · split at taken
      · cases taken
      · rename_i fresh
        cases taken
        exact ⟨fresh, rfl, rfl, rfl, rfl⟩
    · cases taken

private theorem loop_calls (taken : ServerLoop.step loop (.payload closes) = some next) :
    next.registered = (if closes then loop.registered.filter (· ≠ loop.evFd) else loop.registered) ∧
      next.evFd = loop.evFd ∧ next.accepted = loop.accepted ∧ next.socket = loop.socket := by
  simp only [ServerLoop.step] at taken
  split at taken
  · cases taken
  · split at taken
    · cases taken
    · cases taken
      exact ⟨rfl, rfl, rfl, rfl⟩

/-! ## Runs -/

/-- `ev.data.fd` is the connection accepted last, and no earlier one is open under its number.
Each connection is where its own calls have led it, and the log is made of theirs. -/
structure Sound (server : Server) : Prop where
  accepted : server.loop.accepted = server.sessions.map Session.clientFd
  newest : server.loop.evFd = server.loop.accepted.getLast?.getD server.loop.socket
  registered : ∀ session ∈ server.sessions, session.connection.client.closes = 0 →
    session.clientFd ∈ server.loop.registered
  apart : server.sessions.Pairwise fun first second =>
    first.clientFd = second.clientFd → first.connection.client.closes ≠ 0
  own : ∀ session ∈ server.sessions,
    exec PacketStream.step (PacketStream.start session.stream) session.calls = some session.connection
  log : server.log = server.sessions.flatMap fun session => session.connection.actions

theorem sound_start (socket : Int) : Sound (start socket) :=
  ⟨rfl, rfl, List.forall_mem_nil _, List.Pairwise.nil, List.forall_mem_nil _, rfl⟩

/-- A call of the handler works on the connection accepted last, which is open. -/
theorem payload_on_newest (sound : Sound server) (taken : serve server (.payload call) = some next) :
    ∃ older last after, server.sessions = older ++ [last] ∧ last.connection.client.closes = 0 ∧
      PacketStream.step last.connection call = some after ∧
      next.sessions = older ++ [{ last with connection := after, calls := last.calls ++ [call] }] ∧
      next.log = server.log ++ after.actions.drop last.connection.actions.length ∧
      ServerLoop.step server.loop (.payload (after.client.closes ≠ 0)) = some next.loop := by
  simp only [serve] at taken
  split at taken
  case h_1 => cases taken
  case h_2 handled ran =>
    obtain ⟨loop, looped, rfl⟩ := Option.map_eq_some_iff.mp taken
    rcases List.eq_nil_or_concat server.sessions with none_ | ⟨older, last, split⟩
    · rw [none_, handle_closed (List.forall_mem_nil _)] at ran
      cases ran
    · rw [List.concat_eq_append] at split
      have number : server.loop.evFd = last.clientFd := by
        rw [sound.newest, sound.accepted, split]
        simp
      have apart := sound.apart
      rw [split, List.pairwise_append] at apart
      have closed : ∀ session ∈ older, session.isOn server.loop.evFd = false := by
        intro session member
        have differs := apart.2.2 session member last (List.mem_singleton_self _)
        rw [number]
        simpa [Session.isOn] using differs
      rw [split] at ran
      obtain ⟨onIt, after, stepped, sessions, actions, closes⟩ := handle_last closed ran
      rw [closes] at looped
      have open_ : last.connection.client.closes = 0 := by
        simp only [Session.isOn, Bool.and_eq_true, decide_eq_true_eq] at onIt
        exact onIt.2
      exact ⟨older, last, after, split, open_, stepped, sessions, congrArg (server.log ++ ·) actions, looped⟩

/-- A turn of the loop that accepts nobody and calls nothing. -/
private theorem sound_looped (sound : Sound server)
    (kept : loop.registered = server.loop.registered ∧ loop.evFd = server.loop.evFd ∧
      loop.accepted = server.loop.accepted ∧ loop.socket = server.loop.socket) :
    Sound { server with loop } := by
  obtain ⟨same, evFd, all, socket⟩ := kept
  exact ⟨all.trans sound.accepted, by rw [evFd, sound.newest, all, socket],
    by rw [same]; exact sound.registered, sound.apart, sound.own, sound.log⟩

/-- A client that is accepted has a number that nothing is open under. -/
private theorem sound_accepted (sound : Sound server)
    (looped : ServerLoop.step server.loop (.accept (some clientFd)) = some loop) (stream : List UInt8) :
    Sound { server with
      loop
      sessions := server.sessions ++ [⟨clientFd, stream, [], PacketStream.start stream⟩] } := by
  obtain ⟨fresh, more, evFd, all, socket⟩ := loop_accepts looped
  refine ⟨?_, ?_, ?_, ?_, ?_, ?_⟩
  · rw [all, sound.accepted, List.map_append]
    rfl
  · rw [evFd, all]
    simp
  · intro session member opened
    rw [more]
    rcases List.mem_append.mp member with old | new
    · exact List.mem_append_left _ (sound.registered session old opened)
    · obtain rfl := List.mem_singleton.mp new
      exact List.mem_append_right _ (List.mem_singleton_self _)
  · refine List.pairwise_append.mpr ⟨sound.apart, List.pairwise_singleton _ _, ?_⟩
    intro first old second new same opened
    obtain rfl := List.mem_singleton.mp new
    have held := sound.registered first old opened
    rw [same] at held
    exact fresh held
  · intro session member
    rcases List.mem_append.mp member with old | new
    · exact sound.own session old
    · obtain rfl := List.mem_singleton.mp new
      rfl
  · rw [List.flatMap_append, ← sound.log]
    exact (List.append_nil _).symm

/-- A call changes the connection accepted last, and may close it. -/
private theorem sound_payload (sound : Sound server) (taken : serve server (.payload call) = some next) :
    Sound next := by
  obtain ⟨older, last, after, split, open_, stepped, sessions, logged, looped⟩ := payload_on_newest sound taken
  obtain ⟨same, evFd, all, socket⟩ := loop_calls looped
  obtain ⟨accepted, newest, registered, apart, own, log⟩ := id sound
  rw [split] at accepted registered apart own log
  rw [List.pairwise_append] at apart
  obtain ⟨before, _, across⟩ := apart
  have number : server.loop.evFd = last.clientFd := by
    rw [newest, accepted]
    simp
  refine ⟨?_, ?_, ?_, ?_, ?_, ?_⟩
  · rw [all, accepted, sessions, List.map_append, List.map_append]
    rfl
  · rw [evFd, newest, all, socket]
  · intro session member opened
    rw [sessions] at member
    rw [same]
    rcases List.mem_append.mp member with old | new
    · have held := registered session (List.mem_append_left _ old) opened
      have differs : session.clientFd ≠ server.loop.evFd := by
        rw [number]
        intro equal
        exact across session old last (List.mem_singleton_self _) equal opened
      split
      · exact List.mem_filter.mpr ⟨held, by simpa using differs⟩
      · exact held
    · obtain rfl := List.mem_singleton.mp new
      have still : after.client.closes = 0 := opened
      rw [still]
      exact registered last (List.mem_append_right _ (List.mem_singleton_self _)) open_
  · rw [sessions]
    refine List.pairwise_append.mpr ⟨before, List.pairwise_singleton _ _, ?_⟩
    intro first old second new
    obtain rfl := List.mem_singleton.mp new
    exact across first old last (List.mem_singleton_self _)
  · intro session member
    rw [sessions] at member
    rcases List.mem_append.mp member with old | new
    · exact own session (List.mem_append_left _ old)
    · obtain rfl := List.mem_singleton.mp new
      have ran := own last (List.mem_append_right _ (List.mem_singleton_self _))
      exact exec_append.mpr ⟨_, ran, exec_cons.mpr ⟨_, stepped, rfl⟩⟩
  · obtain ⟨did, grown⟩ := step_actions stepped
    have more : after.actions.drop last.connection.actions.length = did := by rw [← grown, List.drop_left]
    rw [logged, log, sessions, more, List.flatMap_append, List.flatMap_append, List.append_assoc]
    simp only [List.flatMap_singleton, grown]

theorem serve_sound (sound : Sound server) (taken : serve server event = some next) : Sound next := by
  cases event with
  | wait events =>
    obtain ⟨loop, looped, rfl⟩ := Option.map_eq_some_iff.mp taken
    exact sound_looped sound (loop_waits looped)
  | accept client =>
    cases client with
    | none =>
      obtain ⟨loop, looped, rfl⟩ := Option.map_eq_some_iff.mp taken
      exact sound_looped sound (loop_refuses looped)
    | some client =>
      obtain ⟨loop, looped, rfl⟩ := Option.map_eq_some_iff.mp taken
      exact sound_accepted sound looped client.2
  | payload call => exact sound_payload sound taken

/-- A step leaves all connections but the one accepted last as they are. -/
theorem serve_keeps_older (sound : Sound server) (taken : serve server event = some next) :
    server.sessions.dropLast <+: next.sessions.dropLast := by
  cases event with
  | wait events =>
    obtain ⟨loop, _, rfl⟩ := Option.map_eq_some_iff.mp taken
    exact List.prefix_refl _
  | accept client =>
    cases client with
    | none =>
      obtain ⟨loop, _, rfl⟩ := Option.map_eq_some_iff.mp taken
      exact List.prefix_refl _
    | some client =>
      obtain ⟨loop, _, rfl⟩ := Option.map_eq_some_iff.mp taken
      rw [List.dropLast_concat]
      exact List.dropLast_prefix _
  | payload call =>
    obtain ⟨older, last, after, split, _, _, sessions, _⟩ := payload_on_newest sound taken
    have same : server.sessions.dropLast = next.sessions.dropLast := by
      rw [split, sessions, List.dropLast_concat, List.dropLast_concat]
    exact same ▸ List.prefix_refl _

theorem step_served (taken : step server event = some next) : serve server event = some next := by
  rw [step] at taken
  split at taken
  · cases taken
  · exact taken

theorem run_keeps_older (sound : Sound server) (ran : exec step server events = some final) :
    server.sessions.dropLast <+: final.sessions.dropLast := by
  induction events generalizing server with
  | nil =>
    cases ran
    exact List.prefix_refl _
  | cons event rest ih =>
    obtain ⟨next, taken, later⟩ := exec_cons.mp ran
    have served := step_served taken
    exact (serve_keeps_older sound served).trans (ih (serve_sound sound served) later)

/-! ## What is logged -/

/-- The client sends messages, of which the handler has been given so many, each delivered,
and perhaps the end of the stream behind all of them. -/
inductive Orderly (session : Session) (messages : List Message) : Prop
  | open_ (pairs : List (Message × Call)) (more : List UInt8) (own : pairs.map Prod.fst = messages)
      (delivered : ∀ pair ∈ pairs, pair.1.Delivered pair.2) (last : LastOnly messages)
      (stream : session.stream = sent messages ++ more) (calls : session.calls = pairs.map Prod.snd)
  | ended (pairs : List (Message × Call)) (own : pairs.map Prod.fst = messages)
      (delivered : ∀ pair ∈ pairs, pair.1.Delivered pair.2)
      (bare : ∀ message ∈ messages, message.isBare = true) (stream : session.stream = sent messages)
      (calls : session.calls = pairs.map Prod.snd ++ [⟨.chunk count :: deliveries, room, beyond⟩])

/-- The line that was printed, if that is what was done. -/
def lineOf : Action → Option (List UInt8 × Nat)
  | .logged command output => some (command, output)
  | .debug _ | .freed => none

/-- The line that a message should leave. -/
def lineFor : Message → Option (List UInt8 × Nat)
  | .bare _ _ => none
  | .withPayload packet => some (packet.command, packet.output.length)

private theorem lines_handled (messages : List Message) :
    (messages.flatMap Message.handled).filterMap lineOf = messages.filterMap lineFor := by
  induction messages with
  | nil => rfl
  | cons message rest ih =>
    rw [List.flatMap_cons, List.filterMap_append, ih]
    cases message <;> rfl

/-- A connection leaves the lines of the messages it was given. -/
theorem orderly_lines (orderly : Orderly session messages)
    (own : exec PacketStream.step (PacketStream.start session.stream) session.calls = some session.connection) :
    session.connection.actions.filterMap lineOf = messages.filterMap lineFor := by
  cases orderly with
  | open_ pairs more same delivered last stream calls =>
    obtain rfl := same
    have ran := (messages_framed pairs delivered last).1 more
    rw [stream, calls] at own
    rw [← Option.some.inj (ran.symm.trans own)]
    exact lines_handled _
  | @ended count deliveries room beyond pairs same delivered bare stream calls =>
    obtain rfl := same
    have last : LastOnly (pairs.map Prod.fst) :=
      fun message member => bare message (List.dropLast_subset _ member)
    have ran := (messages_framed pairs delivered last).2 bare count room beyond deliveries
    rw [stream, calls] at own
    rw [← Option.some.inj (ran.symm.trans own)]
    have none_ : (pairs.map Prod.fst).filterMap lineFor = [] := by
      refine List.filterMap_eq_nil_iff.mpr fun message member => ?_
      cases message with
      | bare => rfl
      | withPayload => cases bare _ member
    rw [none_]
    rfl

private theorem orderly_all (orderly : List.Forall₂ Orderly sessions messages)
    (own : ∀ session ∈ sessions,
      exec PacketStream.step (PacketStream.start session.stream) session.calls = some session.connection) :
    (sessions.flatMap fun session => session.connection.actions).filterMap lineOf =
      messages.flatten.filterMap lineFor := by
  induction orderly with
  | nil => rfl
  | @cons session messages sessions others here _ ih =>
    obtain ⟨mine, theirs⟩ := List.forall_mem_cons.mp own
    rw [List.flatMap_cons, List.filterMap_append, orderly_lines here mine, ih theirs, List.flatten_cons,
      List.filterMap_append]

/-- With any number of clients, in any order of their events: the handler works on the
connection accepted last and on no other, so that what it does for one is never mixed with
what it does for another, a connection is left as it is for good once another is accepted, and
behind the end of the last no call returns. What is logged is what the messages that the
handler was given should leave, those of one client after those of another. -/
theorem clients_served_one_by_one (ran : exec step (start socket) events = some server) :
    (server.log = server.sessions.flatMap fun session => session.connection.actions) ∧
    (∀ session ∈ server.sessions,
      exec PacketStream.step (PacketStream.start session.stream) session.calls = some session.connection) ∧
    (∀ more final, exec step server more = some final → server.sessions.dropLast <+: final.sessions) ∧
    (∀ last call, server.sessions.getLast? = some last → last.connection.client.closes ≠ 0 →
      step server (.payload call) = none) ∧
    ∀ messages, List.Forall₂ Orderly server.sessions messages →
      server.log.filterMap lineOf = messages.flatten.filterMap lineFor := by
  have sound : Sound server :=
    exec_invariant (fun _ _ _ sound taken => serve_sound sound (step_served taken)) (sound_start socket) ran
  refine ⟨sound.log, sound.own, ?_, ?_, ?_⟩
  · intro more final later
    exact (run_keeps_older sound later).trans (List.dropLast_prefix _)
  · intro last call newest closed
    cases taken : step server (.payload call) with
    | none => rfl
    | some next =>
      obtain ⟨older, other, after, split, opened, _⟩ := payload_on_newest sound (step_served taken)
      rw [split, List.getLast?_concat] at newest
      obtain rfl := Option.some.inj newest
      exact absurd opened closed
  · intro messages orderly
    rw [sound.log]
    exact orderly_all orderly sound.own

/-- A client sends two messages, and another one; the event of the second message of the first
client is spent on the other. -/
def twoClients : List Event :=
  [.wait [3], .accept (some (5, sent [bareMessage, lsMessage])), .wait [5], .payload bareCall, .wait [3],
    .accept (some (6, sent [lsMessage])), .wait [5], .payload lsCall]

/-- Where that ends. -/
def firstClientLeft : Server :=
  { loop := ⟨3, 6, [3, 5, 6], [5], [], [3, 5, 3, 5], [5, 6], [⟨5, [5]⟩, ⟨6, [5]⟩]⟩
    sessions :=
      [⟨5, sent [bareMessage, lsMessage], [bareCall],
          ⟨⟨sent [lsMessage], sent [bareMessage], 0⟩, bareMessage.handled⟩⟩,
        ⟨6, sent [lsMessage], [lsCall], ⟨⟨[], sent [lsMessage], 0⟩, lsMessage.handled⟩⟩]
    log := lsMessage.handled }

theorem first_client_left :
    exec step (start 3) twoClients = some firstClientLeft ∧
      firstClientLeft.log.filterMap lineOf = [([0x6c, 0x73], 2)] := by
  have ran : exec step (start 3) twoClients = some firstClientLeft := rfl
  have bare : ∀ pair ∈ [(bareMessage, bareCall)], pair.1.Delivered pair.2 :=
    List.forall_mem_singleton.mpr rfl
  have ls : ∀ pair ∈ [(lsMessage, lsCall)], pair.1.Delivered pair.2 :=
    List.forall_mem_singleton.mpr ⟨rfl, _, rfl, by decide⟩
  have orderly : List.Forall₂ Orderly firstClientLeft.sessions [[bareMessage], [lsMessage]] :=
    .cons (.open_ [(bareMessage, bareCall)] (sent [lsMessage]) rfl bare (List.forall_mem_nil _) rfl rfl)
      (.cons (.open_ [(lsMessage, lsCall)] [] rfl ls (List.forall_mem_nil _) rfl rfl) .nil)
  obtain ⟨_, _, _, _, logged⟩ := clients_served_one_by_one ran
  exact ⟨ran, logged _ orderly⟩

end ShapeQuake.ServerSessions
