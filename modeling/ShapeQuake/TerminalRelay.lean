import ShapeQuake.Library.Runs

/-! The pty test of `terminal/src/main.c`: a loop over `poll` that hands what is typed to the
child on the pty of `sq_pty.c`, and what the child writes to the screen. Each call of the
loop is a step of its own, between which keys arrive and the child writes. -/
namespace ShapeQuake.TerminalRelay
open Library.Runs

/-! ## The pty -/

/-- `sq_pty_t`. A `fd` of `-1` is `none`. -/
structure SqPty where
  fd : Option Nat
  pid : Int
  deriving DecidableEq, Repr

/-- `sq_pty_create`, when `calloc` finds memory. -/
def sqPtyCreate : Bool → Option SqPty
  | false => none
  | true => some ⟨none, 0⟩

/-- `sq_pty_spawn` in the parent: what `forkpty` answers, with the master's descriptor. -/
def sqPtySpawn (pty : SqPty) : Option (Nat × Nat) → SqPty × Int
  | none => ({ pty with pid := -1 }, -1)
  | some forked => (⟨some forked.2, forked.1⟩, 0)

/-- `sq_pty_write_byte`: what the master takes, if it takes a byte now. -/
def sqPtyWriteByte (pty : SqPty) (b : UInt8) (takes : Bool) : List UInt8 :=
  if pty.fd.isSome && takes then [b] else []

/-- `sq_pty_destroy`: what it closes before it frees the pty. -/
def sqPtyDestroy (pty : SqPty) : List Nat := pty.fd.toList

/-! ## The loop -/

/-- Where `main` is: before `sq_pty_create` or `sq_pty_spawn`, in `poll`, at its two tests, at
the writes behind them, before `sq_pty_destroy`, or gone with a status. The first test and the
write behind it carry whether the master is readable, the answer of the same `poll`. -/
inductive Place where
  | creating
  | spawning
  | polling
  | keyboard (output : Bool)
  | typing (b : UInt8) (output : Bool)
  | output
  | showing (buf : List UInt8)
  | closing
  | exited (status : Nat)
  deriving DecidableEq, Repr

/-- `main` with what stands around it: the keys it has not read, the bytes of the child it has
not read, whether more of either can come, and what the child and the screen were handed.
`keyed` and `written` are all that was typed and all that the child wrote. -/
structure State where
  place : Place
  pty : Option SqPty
  closed : List Nat
  unread : List UInt8
  ended : Bool
  pending : List UInt8
  gone : Bool
  handed : List UInt8
  screen : List UInt8
  keyed : List UInt8
  written : List UInt8
  deriving DecidableEq, Repr

def start : State :=
  ⟨.creating, none, [], [], false, [], false, [], [], [], []⟩

/-- What happens next: a call of `main` with what the system answers, where `read` answers
with the `n` it returns and the writes with what is taken of their bytes; or a key, the end of the
keyboard, an output of the child, or its end. -/
inductive Event where
  | create (memory : Bool)
  | spawn (forked : Option (Nat × Nat))
  | poll (revents : Option (Bool × Bool))
  | readKey (n : Int)
  | writeKey (takes : Bool)
  | read (n : Int)
  | write (n : Nat)
  | destroy
  | key (b : UInt8)
  | keysEnd
  | childWrites (bytes : List UInt8)
  | childGoes
  deriving DecidableEq, Repr

/-- `sizeof(buf)`. -/
def bufSize : Nat := 4096

/-- Whether a `read` of a stream can return `n`: no more than there is or is asked for, `0` only
at its end, and an error at any time. -/
def canReturn (n : Int) (unread : List UInt8) (ended : Bool) (size : Nat) : Bool :=
  if n < 0 then true
  else if n = 0 then unread.isEmpty && ended
  else n ≤ unread.length && n ≤ size

/-- Whether `poll` can return these `revents`. Of a stream with something unread `POLLIN` is
reported, of one at its end it may be, and of one where nothing happened it is not; the call
does not return before something happened. -/
def canReport (state : State) (revents : Bool × Bool) : Bool :=
  (if revents.1 then !state.unread.isEmpty || state.ended else state.unread.isEmpty) &&
  (if revents.2 then !state.pending.isEmpty || state.gone else state.pending.isEmpty) &&
  (revents.1 || revents.2 || state.ended || state.gone)

/-- Behind the first test of the loop. -/
def next (output : Bool) : Place := if output then .output else .polling

/-- The step of an event, when it can happen. -/
def step (state : State) : Event → Option State
  | .create memory =>
    match state.place, sqPtyCreate memory with
    | .creating, none => some { state with place := .exited 1 }
    | .creating, some pty => some { state with place := .spawning, pty := some pty }
    | _, _ => none
  | .spawn forked =>
    match state.place, state.pty with
    | .spawning, some pty =>
      let (pty, status) := sqPtySpawn pty forked
      some { state with place := if status ≠ 0 then .exited 1 else .polling, pty := some pty }
    | _, _ => none
  | .poll revents =>
    match state.place, revents with
    | .polling, none => some { state with place := .closing }
    | .polling, some revents =>
      if canReport state revents then
        some { state with place := if revents.1 then .keyboard revents.2 else next revents.2 }
      else none
    | _, _ => none
  | .readKey n =>
    match state.place with
    | .keyboard output =>
      if canReturn n state.unread state.ended 1 then
        if n > 0 then
          match state.unread with
          | b :: rest => some { state with place := .typing b output, unread := rest }
          | [] => none
        else some { state with place := next output }
      else none
    | _ => none
  | .writeKey takes =>
    match state.place, state.pty with
    | .typing b output, some pty =>
      some { state with place := next output, handed := state.handed ++ sqPtyWriteByte pty b takes }
    | _, _ => none
  | .read n =>
    match state.place with
    | .output =>
      if canReturn n state.pending state.gone bufSize then
        if n ≤ 0 then some { state with place := .closing }
        else
          some { state with
            place := .showing (state.pending.take n.toNat)
            pending := state.pending.drop n.toNat }
      else none
    | _ => none
  | .write n =>
    match state.place with
    | .showing buf =>
      if n ≤ buf.length then some { state with place := .polling, screen := state.screen ++ buf.take n }
      else none
    | _ => none
  | .destroy =>
    match state.place, state.pty with
    | .closing, some pty =>
      some { state with place := .exited 0, pty := none, closed := state.closed ++ sqPtyDestroy pty }
    | _, _ => none
  | .key b =>
    if state.ended then none else some { state with unread := state.unread ++ [b], keyed := state.keyed ++ [b] }
  | .keysEnd => some { state with ended := true }
  | .childWrites bytes =>
    if (state.pty.bind SqPty.fd).isSome && !state.gone then
      some { state with pending := state.pending ++ bytes, written := state.written ++ bytes }
    else none
  | .childGoes =>
    if (state.pty.bind SqPty.fd).isSome then some { state with gone := true } else none

/-! ## What the loop keeps -/

/-- The key that was read and not yet written to the master. -/
def Place.key : Place → List UInt8
  | .typing b _ => [b]
  | _ => []

/-- The bytes that were read and not yet written to the screen. -/
def Place.buf : Place → List UInt8
  | .showing buf => buf
  | _ => []

/-- Whether `main` goes on to read the master. -/
def Place.awaitsOutput : Place → Bool
  | .keyboard readable | .typing _ readable => readable
  | .output => true
  | .creating | .spawning | .polling | .showing _ | .closing | .exited _ => false

/-- What was typed, as far as it is still there: handed to the child, read, or unread. -/
def State.keys (state : State) : List UInt8 := state.handed ++ state.place.key ++ state.unread

/-- What the child wrote, as far as it is still there: shown, read, or unread. -/
def State.output (state : State) : List UInt8 := state.screen ++ state.place.buf ++ state.pending

/-- Behind `sq_pty_spawn` the pty has its master until it is destroyed, and `main` reads only
what has something to read or is at its end. -/
structure Sound (state : State) : Prop where
  fresh : state.place = .spawning → state.pty = some ⟨none, 0⟩
  opened : state.place ≠ .creating → state.place ≠ .spawning → (∀ status, state.place ≠ .exited status) →
    ∃ pid fd, state.pty = some ⟨some fd, pid⟩
  keyboard : ∀ output, state.place = .keyboard output → state.unread ≠ [] ∨ state.ended
  readable : state.place.awaitsOutput → state.pending ≠ [] ∨ state.gone

@[simp] theorem Place.key_typing : (Place.typing b readable).key = [b] := rfl
@[simp] theorem Place.key_polling : Place.polling.key = [] := rfl
@[simp] theorem Place.buf_polling : Place.polling.buf = [] := rfl
@[simp] theorem Place.buf_showing : (Place.showing bytes).buf = bytes := rfl
@[simp] theorem Place.awaitsOutput_keyboard : (Place.keyboard readable).awaitsOutput = readable := rfl
@[simp] theorem Place.awaitsOutput_typing : (Place.typing b readable).awaitsOutput = readable := rfl
@[simp] theorem Place.awaitsOutput_output : Place.output.awaitsOutput = true := rfl
@[simp] theorem Place.awaitsOutput_polling : Place.polling.awaitsOutput = false := rfl
@[simp] theorem Place.awaitsOutput_showing : (Place.showing bytes).awaitsOutput = false := rfl
@[simp] theorem Place.awaitsOutput_closing : Place.closing.awaitsOutput = false := rfl
@[simp] theorem Place.awaitsOutput_exited : (Place.exited status).awaitsOutput = false := rfl
@[simp] theorem Place.awaitsOutput_spawning : Place.spawning.awaitsOutput = false := rfl
@[simp] theorem next_key (output : Bool) : (next output).key = [] := by cases output <;> rfl
@[simp] theorem next_buf (output : Bool) : (next output).buf = [] := by cases output <;> rfl
@[simp] theorem next_awaitsOutput (output : Bool) : (next output).awaitsOutput = output := by cases output <;> rfl
/-- What `poll` says of both streams. -/
theorem canReport_iff : canReport state revents ↔
    (if revents.1 then state.unread ≠ [] ∨ state.ended else state.unread = []) ∧
    (if revents.2 then state.pending ≠ [] ∨ state.gone else state.pending = []) ∧
    (revents.1 ∨ revents.2 ∨ state.ended ∨ state.gone) := by
  simp [canReport, and_assoc, or_assoc]

/-- What a step can do. -/
inductive Moves (state : State) : Event → State → Prop
  | noMemory : state.place = .creating → Moves state (.create false) { state with place := .exited 1 }
  | created : state.place = .creating →
      Moves state (.create true) { state with place := .spawning, pty := some ⟨none, 0⟩ }
  | unspawned : state.place = .spawning → state.pty = some pty →
      Moves state (.spawn none) { state with place := .exited 1, pty := some { pty with pid := -1 } }
  | spawned : state.place = .spawning →
      Moves state (.spawn (some forked)) { state with place := .polling, pty := some ⟨some forked.2, forked.1⟩ }
  | pollFails : state.place = .polling → Moves state (.poll none) { state with place := .closing }
  | polls : state.place = .polling → canReport state revents →
      Moves state (.poll (some revents))
        { state with place := if revents.1 then .keyboard revents.2 else next revents.2 }
  | noKey : state.place = .keyboard output → n ≤ 0 → canReturn n state.unread state.ended 1 →
      Moves state (.readKey n) { state with place := next output }
  | readsKey : state.place = .keyboard output → state.unread = b :: rest →
      Moves state (.readKey 1) { state with place := .typing b output, unread := rest }
  | writesKey : state.place = .typing b output → state.pty = some pty →
      Moves state (.writeKey takes)
        { state with place := next output, handed := state.handed ++ sqPtyWriteByte pty b takes }
  | leaves : state.place = .output → n ≤ 0 → canReturn n state.pending state.gone bufSize →
      Moves state (.read n) { state with place := .closing }
  | reads : state.place = .output → 0 < n →
      Moves state (.read n)
        { state with place := .showing (state.pending.take n.toNat), pending := state.pending.drop n.toNat }
  | shows : state.place = .showing buf → n ≤ buf.length →
      Moves state (.write n) { state with place := .polling, screen := state.screen ++ buf.take n }
  | destroys : state.place = .closing → state.pty = some pty →
      Moves state .destroy { state with place := .exited 0, pty := none, closed := state.closed ++ sqPtyDestroy pty }
  | typed : state.ended = false →
      Moves state (.key b) { state with unread := state.unread ++ [b], keyed := state.keyed ++ [b] }
  | keysEnd : Moves state .keysEnd { state with ended := true }
  | childWrites : state.gone = false →
      Moves state (.childWrites bytes)
        { state with pending := state.pending ++ bytes, written := state.written ++ bytes }
  | childGoes : Moves state .childGoes { state with gone := true }

/-- A `read` that is asked for one byte returns one, none or an error. -/
theorem canReturn_one (returns : canReturn n unread ended 1) : n ≤ 0 ∨ n = 1 := by
  simp only [canReturn] at returns
  grind

/-- A `read` of a stream with something unread, or at its end, does not wait. -/
theorem canReturn_of_ready (ready : unread ≠ [] ∨ ended = true) (room : 0 < size) :
    (∃ b rest, unread = b :: rest ∧ canReturn 1 unread ended size) ∨ canReturn 0 unread ended size := by
  cases unread with
  | nil => exact .inr (by simpa [canReturn] using ready)
  | cons b rest =>
    refine .inl ⟨b, rest, rfl, ?_⟩
    simp [canReturn]
    omega

theorem step_moves (taken : step state event = some after) : Moves state event after := by
  cases event <;> simp only [step] at taken
  case create memory => cases memory <;> grind [sqPtyCreate, Moves]
  case spawn forked => cases forked <;> grind [sqPtySpawn, Moves]
  case readKey n =>
    split at taken
    case h_2 => cases taken
    case h_1 output here =>
      split at taken
      case isFalse => cases taken
      case isTrue returns =>
        rcases canReturn_one returns with none_ | rfl
        · grind [Moves]
        · grind [Moves]
  all_goals grind [Moves]

theorem sound_start : Sound start := by
  constructor <;> simp [start]
  rfl

private theorem step_readable (sound : Sound state) (moves : Moves state event after)
    (awaits : after.place.awaitsOutput) : after.pending ≠ [] ∨ after.gone := by
  have before := sound.readable
  cases moves
  case polls revents here reports =>
    obtain ⟨_, out, _⟩ := canReport_iff.mp reports
    rcases revents with ⟨_ | _, _ | _⟩ <;> simp_all
  case childWrites bytes lives =>
    rcases before awaits with some_ | gone
    · exact .inl (by simp [some_])
    · exact .inr gone
  all_goals simp_all

private theorem step_keyboard (sound : Sound state) (moves : Moves state event after)
    (reads : after.place = .keyboard output) : after.unread ≠ [] ∨ after.ended := by
  cases moves
  case polls revents here reports =>
    obtain ⟨keys, _⟩ := canReport_iff.mp reports
    rcases revents with ⟨_ | _, _ | _⟩ <;> simp_all [next]
  case noKey readable n here none_ returns => cases readable <;> simp [next] at reads
  case writesKey b readable pty takes here has => cases readable <;> simp [next] at reads
  case typed b open_ => exact .inl (by simp)
  case keysEnd => exact .inr rfl
  case childWrites bytes lives => exact sound.keyboard output reads
  case childGoes => exact sound.keyboard output reads
  all_goals cases reads

private theorem step_opened (sound : Sound state) (moves : Moves state event after)
    (created : after.place ≠ .creating) (spawned : after.place ≠ .spawning)
    (runs : ∀ status, after.place ≠ .exited status) : ∃ pid fd, after.pty = some ⟨some fd, pid⟩ := by
  have before := sound.opened
  cases moves <;> simp_all

private theorem step_fresh (sound : Sound state) (moves : Moves state event after)
    (spawns : after.place = .spawning) : after.pty = some ⟨none, 0⟩ := by
  have before := sound.fresh
  cases moves
  case polls revents here reports => rcases revents with ⟨_ | _, _ | _⟩ <;> simp [next] at spawns
  case noKey readable n here none_ returns => cases readable <;> simp [next] at spawns
  case writesKey b readable pty takes here has => cases readable <;> simp [next] at spawns
  all_goals simp_all

theorem step_sound (sound : Sound state) (taken : step state event = some after) : Sound after :=
  have moves := step_moves taken
  ⟨step_fresh sound moves, step_opened sound moves, fun _ => step_keyboard sound moves, step_readable sound moves⟩

/-- A write to the master takes the byte. -/
def KeyTaken (_ : State) (event : Event) : Prop := event ≠ .writeKey false

/-- How much of a write to the screen was taken. -/
def Event.taken : Event → Option Nat
  | .write n => some n
  | _ => none

/-- Whether a `read` of the master fails. -/
def Event.readFails : Event → Bool
  | .read n => n < 0
  | _ => false

/-- A write to the screen takes all that was read. -/
def WriteWhole (state : State) (event : Event) : Prop :=
  ∀ n ∈ event.taken, n = state.place.buf.length

instance : DecidableRel KeyTaken := fun _ event => inferInstanceAs (Decidable (event ≠ .writeKey false))

instance : DecidableRel WriteWhole := fun state event =>
  inferInstanceAs (Decidable (∀ n ∈ event.taken, n = state.place.buf.length))

theorem keys_passed (sound : Sound state) (taken : step state event = some after) :
    (KeyTaken state event ∧ ∃ more, after.keys = state.keys ++ more ∧ after.keyed = state.keyed ++ more) ∨
    (¬ KeyTaken state event ∧ after.keys.Sublist state.keys ∧ after.keys ≠ state.keys ∧
      after.keyed = state.keyed) := by
  cases step_moves taken
  case writesKey b output pty takes here has =>
    obtain ⟨pid, fd, held⟩ := sound.opened (by simp [here]) (by simp [here]) (by simp [here])
    obtain rfl := Option.some.inj (has.symm.trans held)
    cases takes
    case true => exact .inl ⟨by simp [KeyTaken], [], by simp [State.keys, here, sqPtyWriteByte]⟩
    case false =>
      refine .inr ⟨by simp [KeyTaken], ?_, ?_, rfl⟩
      · simp [State.keys, here, sqPtyWriteByte]
      · simp [State.keys, here, sqPtyWriteByte]
  case typed b open_ => exact .inl ⟨by simp [KeyTaken], [b], by simp [State.keys], rfl⟩
  all_goals
    refine .inl ⟨by simp [KeyTaken], [], ?_, ?_⟩ <;> grind [State.keys, Place.key, next]

theorem output_passed (taken : step state event = some after) :
    (WriteWhole state event ∧ ∃ more, after.output = state.output ++ more ∧ after.written = state.written ++ more) ∨
    (¬ WriteWhole state event ∧ after.output.Sublist state.output ∧ after.output ≠ state.output ∧
      after.written = state.written) := by
  cases step_moves taken
  case shows buf n here fits =>
    by_cases whole : n = buf.length
    · refine .inl ⟨?_, [], ?_, by simp⟩
      · simpa [WriteWhole, Event.taken, here] using whole
      · simp [State.output, here, whole]
    · have less : n < buf.length := Nat.lt_of_le_of_ne fits whole
      refine .inr ⟨?_, ?_, ?_, rfl⟩
      · intro all
        exact whole (by simpa [WriteWhole, Event.taken, here] using all)
      · have sub : (buf.take n ++ state.pending).Sublist (buf ++ state.pending) :=
          (List.take_sublist n buf).append_right _
        simpa [State.output, here] using sub
      · intro same
        have lengths := congrArg List.length same
        simp [State.output, here] at lengths
        omega
  case childWrites bytes lives => exact .inl ⟨by simp [WriteWhole, Event.taken], bytes, by simp [State.output], rfl⟩
  all_goals
    refine .inl ⟨by simp [WriteWhole, Event.taken], [], ?_, ?_⟩ <;>
      grind [State.output, Place.buf, next, List.take_append_drop]

/-- Neither `poll` nor `read` fails before the child is gone, and the writes to the screen are whole. -/
def Smooth (state : State) (event : Event) : Prop :=
  event ≠ .poll none ∧ (event.readFails → state.gone ∧ state.pending = []) ∧ WriteWhole state event

instance : DecidableRel Smooth := fun state event =>
  inferInstanceAs (Decidable (event ≠ .poll none ∧ (event.readFails → state.gone ∧ state.pending = []) ∧
    WriteWhole state event))

/-- The loop was left. -/
def State.left (state : State) : Prop := state.place = .closing ∨ state.place = .exited 0

/-- The loop is left for a child that is gone and has nothing unread. -/
def Finished (state : State) : Prop := state.left → state.gone ∧ state.pending = []

theorem step_finished (finished : Finished state) (smooth : Smooth state event)
    (taken : step state event = some after) : Finished after := by
  obtain ⟨polls, fails, whole⟩ := smooth
  cases step_moves taken
  case pollFails => exact absurd rfl polls
  case leaves n here none_ returns =>
    intro _
    rcases Int.lt_or_eq_of_le none_ with negative | rfl
    · exact fails (by simpa [Event.readFails] using negative)
    · simpa [canReturn, and_comm] using returns
  all_goals grind [Finished, State.left, next]

/-- A call of `main` that succeeds and that nobody else has to make room for. -/
def Event.Succeeds : Event → Prop
  | .create memory => memory
  | .spawn forked => forked.isSome
  | .poll revents => revents.isSome
  | .readKey n | .read n => 0 ≤ n
  | .destroy => True
  | .writeKey _ | .write _ => False
  | .key _ | .keysEnd | .childWrites _ | .childGoes => False

/-- No such call can succeed now. -/
def State.Blocked (state : State) : Prop := ∀ event, event.Succeeds → step state event = none

/-- `main` is in a `write` to the master or to the screen, which waits while these are full. -/
def State.writing (state : State) : Prop :=
  (∃ b output, state.place = .typing b output) ∨ ∃ buf, state.place = .showing buf

/-- `poll` waits only while there is nothing to do, and no `read` waits. -/
theorem blocked_idle (sound : Sound state) (blocked : state.Blocked) :
    (∃ status, state.place = .exited status) ∨ state.writing ∨
    (state.place = .polling ∧ state.unread = [] ∧ state.pending = [] ∧ state.ended = false ∧ state.gone = false) := by
  cases here : state.place with
  | creating => simpa [step, here, sqPtyCreate] using blocked (.create true) rfl
  | spawning => simpa [step, here, sound.fresh here] using blocked (.spawn (some (0, 0))) rfl
  | polling =>
    refine .inr (.inr ⟨rfl, ?_⟩)
    have waits := blocked (.poll (some (!state.unread.isEmpty, !state.pending.isEmpty))) rfl
    simp [step, here, canReport] at waits
    grind
  | keyboard output =>
    rcases canReturn_of_ready (sound.keyboard output here) Nat.one_pos with ⟨b, rest, more, returns⟩ | returns
    · have waits := blocked (.readKey 1) (by simp [Event.Succeeds])
      rw [more] at returns
      simp [step, here, more, returns] at waits
    · have waits := blocked (.readKey 0) (by simp [Event.Succeeds])
      simp [step, here, returns] at waits
  | typing b output => exact .inr (.inl (.inl ⟨b, output, here⟩))
  | output =>
    have ready := sound.readable (by simp [here, Place.awaitsOutput])
    rcases canReturn_of_ready ready (by decide : 0 < bufSize) with ⟨b, rest, more, returns⟩ | returns
    · have waits := blocked (.read 1) (by simp [Event.Succeeds])
      simp [step, here, returns] at waits
    · have waits := blocked (.read 0) (by simp [Event.Succeeds])
      simp [step, here, returns] at waits
  | showing buf => exact .inr (.inl (.inr ⟨buf, here⟩))
  | closing =>
    obtain ⟨pid, fd, has⟩ := sound.opened (by simp [here]) (by simp [here]) (by simp [here])
    simpa [step, here, has] using blocked .destroy trivial
  | exited status => exact .inl ⟨status, rfl⟩

/-- However keys and output come between the calls of `main`: it reorders and makes up
nothing, and loses keys exactly if the master refuses one, output exactly if the screen takes
less than was read. Apart from its writes it waits for nothing but the next key or output, and
if nothing fails it leaves the loop only behind a child that is gone, with all of its output on
the screen. -/
theorem relays_all (ran : exec step start events = some final) :
    (final.keys.Sublist final.keyed ∧ (final.keys = final.keyed ↔ EachStep step KeyTaken start events)) ∧
    (final.output.Sublist final.written ∧
      (final.output = final.written ↔ EachStep step WriteWhole start events)) ∧
    (final.Blocked → (∃ status, final.place = .exited status) ∨ final.writing ∨
      (final.place = .polling ∧ final.unread = [] ∧ final.pending = [] ∧ final.ended = false ∧
        final.gone = false)) ∧
    (EachStep step Smooth start events → final.left → final.gone ∧ final.screen = final.written) := by
  have kept : ∀ state event after, Sound state → step state event = some after → Sound after :=
    fun _ _ _ => step_sound
  have output := nothing_missing_iff kept (fun _ _ _ _ => output_passed) sound_start rfl ran
  have sound := exec_invariant kept sound_start ran
  refine ⟨nothing_missing_iff kept (fun _ _ _ => keys_passed) sound_start rfl ran, output,
    blocked_idle sound, ?_⟩
  intro smooth left
  have finished : Finished final :=
    throughout_final (throughout_of_each_step (fun _ _ _ => step_finished) (by simp [Finished, State.left, start])
      smooth) ran
  have whole : EachStep step WriteWhole start events :=
    each_step_of_each_step (fun _ _ _ _ met _ => ⟨trivial, met.2.2⟩) trivial smooth
  obtain ⟨gone, nothing⟩ := finished left
  refine ⟨gone, ?_⟩
  have all := output.2.mpr whole
  rcases left with here | here <;> simpa [State.output, here, nothing, Place.buf] using all

/-- A key, three bytes of output and the end of the child. -/
def session : List Event :=
  [.create true, .spawn (some (7, 3)), .key 97, .childWrites [104, 105, 10], .poll (some (true, true)),
    .readKey 1, .writeKey true, .read 2, .write 2, .childGoes, .poll (some (false, true)), .read 1, .write 1,
    .poll (some (false, true)), .read (-1), .destroy]

theorem session_relayed :
    ∃ final, exec step start session = some final ∧ final.left ∧ final.keys = final.keyed ∧
      final.screen = final.written := by
  have returns : (exec step start session).isSome = true := by decide
  obtain ⟨final, ran⟩ := Option.isSome_iff_exists.mp returns
  obtain ⟨⟨_, keys⟩, _, _, shown⟩ := relays_all ran
  have left : final.left := by
    have gone : (exec step start session).map (fun state => state.place) = some (.exited 0) := by decide
    rw [ran] at gone
    exact .inr (Option.some.inj gone)
  exact ⟨final, ran, left, keys.mpr (by decide), (shown (by decide) left).2⟩

end ShapeQuake.TerminalRelay
