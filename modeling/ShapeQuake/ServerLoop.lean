import ShapeQuake.Library.Runs

/-! The event loop in the server's `main`, as it is written below the early exit. One
`epoll_event` serves to register descriptors and to say which client is to be handled,
so the handler is given the descriptor that was registered last. -/
namespace ShapeQuake.ServerLoop
open Library.Runs

/-- `MAX_EVENTS`. -/
def maxEvents : Nat := 16

/-- A call of `sq_handle_client_payload`: its descriptor, and those of the batch of
events during which it is made. -/
structure PayloadCall where
  clientFd : Int
  batch : List Int
  deriving DecidableEq, Repr

/-- The variables of the loop: `h_sock.fd`, `ev.data.fd`, the descriptors registered with
`epoll_fd`, those in `events`, and of these the ones still to be looked at. Behind them
stands what has happened: the events looked at, the connections accepted, and the calls. -/
structure Loop where
  socket : Int
  evFd : Int
  registered : List Int
  batch : List Int
  pending : List Int
  looked : List Int
  accepted : List Int
  calls : List PayloadCall
  deriving DecidableEq, Repr

/-- The loop when it is entered. -/
def start (socket : Int) : Loop := ⟨socket, socket, [socket], [], [], [], [], []⟩

/-- `epoll_wait` returns, for ready descriptors or for none; the next event is the
listening socket's, and `accept` answers; or it is a client's, and the handler closes
its descriptor or not. -/
inductive Event where
  | wait (events : List Int)
  | accept (clientFd : Option Int)
  | payload (closes : Bool)
  deriving DecidableEq, Repr

/-- One step of the loop. Ready descriptors are registered ones, each once in a batch,
and an accepted one is not registered yet. -/
def step (loop : Loop) : Event → Option Loop
  | .wait events =>
    if loop.pending = [] ∧ events.length ≤ maxEvents ∧ events.Nodup ∧
        ∀ fd ∈ events, fd ∈ loop.registered then
      some { loop with batch := events, pending := events }
    else none
  | .accept clientFd =>
    match loop.pending with
    | [] => none
    | fd :: rest =>
      if fd = loop.socket then
        let loop := { loop with pending := rest, looked := loop.looked ++ [fd] }
        match clientFd with
        | none => some loop
        | some clientFd =>
          if clientFd ∈ loop.registered then none
          else
            some { loop with
              evFd := clientFd
              registered := loop.registered ++ [clientFd]
              accepted := loop.accepted ++ [clientFd] }
      else none
  | .payload closes =>
    match loop.pending with
    | [] => none
    | fd :: rest =>
      if fd = loop.socket then none
      else
        -- `events[i].data.fd` is compared with the socket and not used again
        some { loop with
          pending := rest
          looked := loop.looked ++ [fd]
          registered := if closes then loop.registered.filter (· ≠ loop.evFd) else loop.registered
          calls := loop.calls ++ [⟨loop.evFd, loop.batch⟩] }

/-- The descriptors given to the handler are those of the clients whose events were
looked at, in order, and each of them has an event in the batch of that time. -/
structure Serves (loop : Loop) : Prop where
  own : loop.calls.map PayloadCall.clientFd = loop.looked.filter (· ≠ loop.socket)
  current : ∀ call ∈ loop.calls, call.clientFd ∈ call.batch

/-- A client whose event is looked at is the one that was accepted last. -/
def OnNewest (loop : Loop) : Event → Prop
  | .payload _ => loop.pending.head? = loop.accepted.getLast?
  | .wait _ | .accept _ => True

/-! ## Steps -/

/-- Where `ev.data.fd` comes from, and the events still to be looked at. -/
structure Ground (loop : Loop) : Prop where
  newest : loop.evFd = loop.accepted.getLast?.getD loop.socket
  pending : ∀ fd ∈ loop.pending, fd ∈ loop.batch

/-- What a step does. -/
inductive Steps (loop : Loop) : Event → Loop → Prop
  | waited (events : List Int) :
      Steps loop (.wait events) { loop with batch := events, pending := events }
  | looked (there : loop.pending = loop.socket :: rest) :
      Steps loop (.accept none) { loop with
        pending := rest, looked := loop.looked ++ [loop.socket] }
  | connected (there : loop.pending = loop.socket :: rest) (clientFd : Int) :
      Steps loop (.accept (some clientFd)) { loop with
        pending := rest
        looked := loop.looked ++ [loop.socket]
        evFd := clientFd
        registered := loop.registered ++ [clientFd]
        accepted := loop.accepted ++ [clientFd] }
  | handled (there : loop.pending = fd :: rest) (client : fd ≠ loop.socket) (registered : List Int) :
      Steps loop (.payload closes) { loop with
        pending := rest
        looked := loop.looked ++ [fd]
        registered
        calls := loop.calls ++ [⟨loop.evFd, loop.batch⟩] }

theorem step_steps (taken : step loop event = some next) : Steps loop event next := by
  cases event with
  | wait events =>
    simp only [step] at taken
    split at taken
    · cases taken
      exact .waited events
    · cases taken
  | accept clientFd =>
    simp only [step] at taken
    split at taken
    · cases taken
    · rename_i fd rest there
      split at taken
      · rename_i same
        subst same
        split at taken
        · cases taken
          exact .looked there
        · split at taken
          · cases taken
          · cases taken
            exact .connected there _
      · cases taken
  | payload closes =>
    simp only [step] at taken
    split at taken
    · cases taken
    · rename_i fd rest there
      split at taken
      · cases taken
      · rename_i client
        cases taken
        exact .handled there client _

private theorem ground_step (ground : Ground loop) (taken : step loop event = some next) : Ground next := by
  have later {fd : Int} {rest : List Int} (there : loop.pending = fd :: rest) :
      ∀ other ∈ rest, other ∈ loop.batch :=
    fun other member => ground.pending other (there ▸ List.mem_cons_of_mem _ member)
  cases step_steps taken with
  | waited events => exact ⟨ground.newest, fun _ member => member⟩
  | looked there => exact ⟨ground.newest, later there⟩
  | connected there clientFd => exact ⟨by simp, later there⟩
  | handled there _ _ => exact ⟨ground.newest, later there⟩

/-- Looking at an event of the socket calls nobody. -/
private theorem serves_socket (serves : Serves loop) :
    loop.calls.map PayloadCall.clientFd = (loop.looked ++ [loop.socket]).filter (· ≠ loop.socket) := by
  rw [List.filter_append, serves.own]
  simp

private theorem serves_step_iff (ground : Ground loop) (serves : Serves loop)
    (taken : step loop event = some next) : Serves next ↔ OnNewest loop event := by
  cases step_steps taken with
  | waited events => exact iff_of_true ⟨serves.own, serves.current⟩ trivial
  | looked there => exact iff_of_true ⟨serves_socket serves, serves.current⟩ trivial
  | connected there clientFd => exact iff_of_true ⟨serves_socket serves, serves.current⟩ trivial
  | @handled fd rest closes there client _ =>
    have same : OnNewest loop (.payload closes) ↔ loop.evFd = fd := by
      rw [OnNewest, there, List.head?_cons, ground.newest]
      cases newest : loop.accepted.getLast? with
      | none => simp [Ne.symm client]
      | some latest => simp [eq_comm]
    rw [same]
    constructor
    · intro after
      have own := after.own
      simp only [List.map_append, List.filter_append, serves.own, List.map_cons, List.map_nil,
        List.append_right_inj] at own
      simpa [client] using own
    · intro newest
      refine ⟨?_, ?_⟩
      · rw [List.map_append, List.filter_append, serves.own]
        simp [client, newest]
      · intro call member
        rcases List.mem_append.mp member with old | new
        · exact serves.current call old
        · obtain rfl := List.mem_singleton.mp new
          have held := ground.pending fd (there ▸ List.mem_cons_self)
          rwa [← newest] at held

/-- With any number of clients, in any order and batching of events, the handler is run
on the descriptor of each event throughout exactly if every client's event is one of the
connection accepted last. -/
theorem serves_iff_on_newest (socket : Int) (events : List Event) :
    Throughout step Serves (start socket) events ↔ EachStep step OnNewest (start socket) events :=
  throughout_iff_each_step (fun _ _ _ ground _ _ taken => ground_step ground taken)
    (fun _ _ _ ground serves taken => serves_step_iff ground serves taken)
    ⟨rfl, nofun⟩ ⟨rfl, nofun⟩

/-- Two clients, and an event of the first: the second is handled. -/
theorem older_client_not_served :
    ¬ ∀ socket events, Throughout step Serves (start socket) events := by
  intro always
  have serves := throughout_final
    (always 3 [.wait [3], .accept (some 5), .wait [3], .accept (some 6), .wait [5], .payload false])
    (show exec step _ _ = some ⟨3, 6, [3, 5, 6], [5], [], [3, 3, 5], [5, 6], [⟨6, [5]⟩]⟩ by decide)
  exact absurd serves.own (by decide)

end ShapeQuake.ServerLoop
