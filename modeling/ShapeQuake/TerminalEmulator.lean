import Mathlib.Logic.Function.Basic
import ShapeQuake.Library.Runs

/-! The terminal of `terminal.c`: its owner spawns a child on a pty, types to it and
destroys the terminal, while a thread reads what the child writes into the `vterm`. Each
access to what they share and each call is a step of its own. -/
namespace ShapeQuake.TerminalEmulator
open Library.Runs

/-! ## The program -/

/-- What a descriptor leads to: the master end of a pty opened here, counted from zero, or
something that another part of the process has opened. -/
inductive File where
  | master (pty : Nat)
  | foreign
  deriving DecidableEq, Repr

/-- A pty and the child on it: what the child has written and nobody has read, all it has
written, what was typed to it, and whether it is gone. -/
structure Pty where
  pending : List UInt8
  written : List UInt8
  typed : List UInt8
  hungUp : Bool
  deriving DecidableEq, Repr

/-- Where a thread is in `pty_read_thread`: before its test, at the load of `pty_master`,
at the call of `read`, inside it, at `vterm_input_write`, at the store behind a failed
read, or gone. -/
inductive ThreadPc where
  | test
  | load
  | call (fd : Option Nat)
  | read (file : File)
  | feed (bytes : List UInt8)
  | store
  | ended
  deriving DecidableEq, Repr

/-- Where the owner is: between two calls, behind `forkpty`, or in `sq_terminal_destroy`
before it tests `pty_master`, before `pthread_join`, before `vterm_free` or before `free`;
or behind all of it. -/
inductive OwnerPc where
  | idle
  | creating
  | closing
  | joining
  | freeingVt
  | freeingTerm
  | done
  deriving DecidableEq, Repr

/-- `sq_terminal_t` with what it leads to. A `pty_master` of `-1` is `none`, a `read_thread`
that was not stored is too. Behind them stand the `vterm`'s input, and whether something
freed was used or a thread joined that there is none of. -/
structure Terminal where
  owner : OwnerPc
  ptyMaster : Option Nat
  isRunning : Bool
  readThread : Option Nat
  threads : List ThreadPc
  ptys : List Pty
  files : Nat → Option File
  screen : List UInt8
  vtFreed : Bool
  termFreed : Bool
  fault : Bool

/-- The terminal behind `sq_terminal_create`. -/
def start (files : Nat → Option Nat) : Terminal :=
  { owner := .idle, ptyMaster := none, isRunning := true, readThread := none, threads := [], ptys := []
    files := fun fd => (files fd).map fun _ => .foreign
    screen := [], vtFreed := false, termFreed := false, fault := false }

/-- What can happen next. The owner calls `sq_terminal_spawn`, where `forkpty` and then
`pthread_create` answer, `sq_terminal_write_byte` or `sq_terminal_destroy`, or takes its next
step; a thread takes one, with the size of what `read` returns, if it returns bytes; a child
writes or goes; another part of the process opens a file, or reads and writes one. -/
inductive Event where
  | spawn (fd : Option Nat)
  | created (successful : Bool)
  | write (b : UInt8)
  | destroy
  | owner
  | thread (index : Nat) (count : Option Nat) (foreign : List UInt8)
  | childWrites (pty : Nat) (bytes : List UInt8)
  | childGoes (pty : Nat)
  | opened (fd : Nat)
  deriving DecidableEq, Repr

/-- `sizeof buffer`. -/
def bufferSize : Nat := 4096

/-- A change of one pty. -/
def onPty (terminal : Terminal) (pty : Nat) (change : Pty → Pty) : Terminal :=
  { terminal with ptys := terminal.ptys.modify pty change }

/-- The next step of `sq_terminal_destroy`. -/
def ownerStep (terminal : Terminal) : Option Terminal :=
  match terminal.owner with
  | .idle | .creating | .done => none
  | .closing =>
    match terminal.ptyMaster with
    | none => some { terminal with owner := .freeingVt }
    | some fd => some { terminal with files := Function.update terminal.files fd none, owner := .joining }
  | .joining =>
    match terminal.readThread with
    | none => some { terminal with fault := true, owner := .freeingVt }
    | some index => if terminal.threads[index]? = some .ended then some { terminal with owner := .freeingVt } else none
  | .freeingVt => some { terminal with vtFreed := true, owner := .freeingTerm }
  | .freeingTerm => some { terminal with termFreed := true, owner := .done }

/-- `read`, inside: bytes of a pty, or none when the child is gone or the call fails; what a
file of another part of the process answers is not known here. -/
def readStep (terminal : Terminal) (count : Option Nat) (foreign : List UInt8) :
    File → Option (Terminal × ThreadPc)
  | .master pty =>
    match terminal.ptys[pty]? with
    | none => none
    | some found =>
      match count with
      | none => some (terminal, .store)
      | some more =>
        if found.pending = [] then if found.hungUp then some (terminal, .store) else none
        else
          let size := min (more + 1) bufferSize
          some (onPty terminal pty fun pty => { pty with pending := pty.pending.drop size },
            .feed (found.pending.take size))
  | .foreign => some (terminal, if foreign = [] then .store else .feed foreign)

/-- The next step of a thread, and where it is then. -/
def threadStep (terminal : Terminal) (count : Option Nat) (foreign : List UInt8) :
    ThreadPc → Option (Terminal × ThreadPc)
  | .test =>
    some ({ terminal with fault := terminal.fault || terminal.termFreed },
      if terminal.isRunning then .load else .ended)
  | .load =>
    some ({ terminal with fault := terminal.fault || terminal.termFreed }, .call terminal.ptyMaster)
  | .call fd =>
    match fd.bind terminal.files with
    | none => some (terminal, .store)
    | some file => some (terminal, .read file)
  | .read file => readStep terminal count foreign file
  | .feed bytes =>
    some ({ terminal with
      fault := terminal.fault || terminal.vtFreed || terminal.termFreed
      screen := terminal.screen ++ bytes }, .test)
  | .store =>
    some ({ terminal with fault := terminal.fault || terminal.termFreed, isRunning := false }, .ended)
  | .ended => none

/-- One step of the owner, a thread, a child or another part of the process. -/
def step (terminal : Terminal) : Event → Option Terminal
  | .spawn answer =>
    if terminal.owner = .idle then
      match answer with
      | none => some terminal
      | some fd =>
        if terminal.files fd = none then
          some { terminal with
            owner := .creating
            ptyMaster := some fd
            files := Function.update terminal.files fd (some (.master terminal.ptys.length))
            ptys := terminal.ptys ++ [⟨[], [], [], false⟩] }
        else none
    else none
  | .created successful =>
    if terminal.owner = .creating then
      if successful then
        some { terminal with
          owner := .idle
          readThread := some terminal.threads.length
          threads := terminal.threads ++ [.test] }
      else some { terminal with owner := .idle }
    else none
  | .write b =>
    if terminal.owner = .idle then
      match terminal.ptyMaster.bind terminal.files with
      | some (.master pty) => some (onPty terminal pty fun pty => { pty with typed := pty.typed ++ [b] })
      | _ => some terminal
    else none
  | .destroy => if terminal.owner = .idle then some { terminal with isRunning := false, owner := .closing } else none
  | .owner => ownerStep terminal
  | .thread index count foreign => do
    let pc ← terminal.threads[index]?
    let (next, pc) ← threadStep terminal count foreign pc
    some { next with threads := next.threads.set index pc }
  | .childWrites pty bytes =>
    match terminal.ptys[pty]? with
    | some found =>
      if found.hungUp then none
      else some (onPty terminal pty fun pty =>
        { pty with pending := pty.pending ++ bytes, written := pty.written ++ bytes })
    | none => none
  | .childGoes pty =>
    if pty < terminal.ptys.length then some (onPty terminal pty fun pty => { pty with hungUp := true }) else none
  | .opened fd =>
    if terminal.files fd = none then
      some { terminal with files := Function.update terminal.files fd (some .foreign) }
    else none

/-! ## What should hold -/

/-- A child is spawned once, and with a thread; and while the thread is there, its
descriptor's number is not used for anything else. -/
def Disciplined (terminal : Terminal) : Event → Prop
  | .spawn (some _) => terminal.ptyMaster = none
  | .created successful => successful = true
  | .opened fd => terminal.ptyMaster = some fd → ∀ pc ∈ terminal.threads, pc = .ended
  | _ => True

instance (terminal : Terminal) : (event : Event) → Decidable (Disciplined terminal event)
  | .spawn (some _) => inferInstanceAs (Decidable (terminal.ptyMaster = none))
  | .created successful => inferInstanceAs (Decidable (successful = true))
  | .opened fd => inferInstanceAs (Decidable (terminal.ptyMaster = some fd → ∀ pc ∈ terminal.threads, pc = .ended))
  | .spawn none | .write _ | .destroy | .owner | .thread _ _ _ | .childWrites _ _ | .childGoes _ => isTrue trivial

/-- What a thread has read and not fed yet. -/
def inFlight : ThreadPc → List UInt8
  | .feed bytes => bytes
  | _ => []

/-- `pthread_join` is for a thread that is gone, one that can go on, or one that waits for
a child that lives and is silent. -/
def JoinWaits (terminal : Terminal) : Prop :=
  terminal.owner = .joining → ∃ pc, terminal.threads = [pc] ∧
    (pc = .ended ∨ (∃ foreign, (step terminal (.thread 0 (some 0) foreign)).isSome) ∨
      ∃ pty, pc = .read (.master 0) ∧ terminal.ptys = [pty] ∧ pty.pending = [] ∧ pty.hungUp = false)

/-- Nothing is used after it was freed, and no thread is joined that was not created; what
the child has written is on the screen, on its way there, or still to be read, in order
and once; and behind `sq_terminal_destroy` the thread is gone. -/
structure Safe (terminal : Terminal) : Prop where
  fault : terminal.fault = false
  output : ∀ pty ∈ terminal.ptys,
    terminal.screen ++ terminal.threads.flatMap inFlight ++ pty.pending = pty.written
  joined : terminal.vtFreed = true → ∀ pc ∈ terminal.threads, pc = .ended
  join : JoinWaits terminal

/-! ## Phases -/

/-- Behind the join. -/
def Joined : OwnerPc → Bool
  | .freeingVt | .freeingTerm | .done => true
  | _ => false

/-- Before a child is there. -/
structure Fresh (terminal : Terminal) : Prop where
  owner : terminal.owner ≠ .creating ∧ terminal.owner ≠ .joining
  ptyMaster : terminal.ptyMaster = none
  threads : terminal.threads = []
  ptys : terminal.ptys = []
  screen : terminal.screen = []

/-- Behind `forkpty`. -/
structure Forked (terminal : Terminal) (fd : Nat) (pty : Pty) : Prop where
  owner : terminal.owner = .creating
  ptyMaster : terminal.ptyMaster = some fd
  threads : terminal.threads = []
  ptys : terminal.ptys = [pty]
  file : terminal.files fd = some (.master 0)
  output : terminal.screen ++ pty.pending = pty.written

/-- The descriptors a thread has to do with. -/
def OnPty (fd : Nat) : ThreadPc → Prop
  | .call number => number = some fd
  | .read file => file = .master 0
  | _ => True

/-- With its thread. -/
structure Live (terminal : Terminal) (fd : Nat) (pty : Pty) (pc : ThreadPc) : Prop where
  owner : terminal.owner ≠ .creating
  ptyMaster : terminal.ptyMaster = some fd
  readThread : terminal.readThread = some 0
  threads : terminal.threads = [pc]
  ptys : terminal.ptys = [pty]
  file : pc ≠ .ended → terminal.files fd = some (.master 0) ∨ terminal.files fd = none
  at_ : OnPty fd pc
  output : terminal.screen ++ inFlight pc ++ pty.pending = pty.written
  joined : Joined terminal.owner = true → pc = .ended

/-- What holds between any two steps. -/
structure Sound (terminal : Terminal) : Prop where
  fault : terminal.fault = false
  vtFreed : terminal.vtFreed = true → Joined terminal.owner = true
  termFreed : terminal.termFreed = true → Joined terminal.owner = true
  phase : Fresh terminal ∨ (∃ fd pty, Forked terminal fd pty) ∨ ∃ fd pty pc, Live terminal fd pty pc

theorem sound_start (files : Nat → Option Nat) : Sound (start files) where
  fault := rfl
  vtFreed := by simp [start]
  termFreed := by simp [start]
  phase := .inl ⟨by simp [start], rfl, rfl, rfl, rfl⟩

private theorem thread_enabled (threads : terminal.threads = [pc])
    (taken : threadStep terminal count foreign pc = some (next, after)) :
    (step terminal (.thread 0 count foreign)).isSome := by
  simp only [step, threads, List.getElem?_cons_zero, Option.bind_eq_bind, Option.bind_some, taken,
    Option.isSome_some]

/-- Until it is gone, a thread goes on where it does not wait for a child. -/
private theorem thread_goes_on (live : Live terminal fd pty pc) (running : pc ≠ .ended) :
    (∃ foreign, (step terminal (.thread 0 (some 0) foreign)).isSome) ∨
      pc = .read (.master 0) ∧ pty.pending = [] ∧ pty.hungUp = false := by
  have goes {next : Terminal} {after : ThreadPc} (taken : threadStep terminal (some 0) [] pc = some (next, after)) :
      ∃ foreign, (step terminal (.thread 0 (some 0) foreign)).isSome := ⟨[], thread_enabled live.threads taken⟩
  cases pc with
  | test | load | feed _ | store => exact .inl (goes rfl)
  | call number =>
    left
    cases found : number.bind terminal.files with
    | none => exact goes (by rw [threadStep, found])
    | some file => exact goes (by rw [threadStep, found])
  | read file =>
    obtain rfl : file = .master 0 := live.at_
    have reading : threadStep terminal (some 0) [] (.read (.master 0)) =
        readStep terminal (some 0) [] (.master 0) := rfl
    rw [readStep, live.ptys] at reading
    simp only [List.getElem?_cons_zero] at reading
    by_cases none_ : pty.pending = []
    · by_cases gone : pty.hungUp = true
      · rw [if_pos none_, if_pos gone] at reading
        exact .inl (goes reading)
      · exact .inr ⟨rfl, none_, by simpa using gone⟩
    · rw [if_neg none_] at reading
      exact .inl (goes reading)
  | ended => exact absurd rfl running

theorem safe_of_sound (sound : Sound terminal) : Safe terminal := by
  obtain ⟨fault, vtFreed, termFreed, phase⟩ := sound
  refine ⟨fault, ?_, ?_, ?_⟩
  · rcases phase with fresh | ⟨_, pty, forked⟩ | ⟨_, pty, pc, live⟩
    · simp [fresh.ptys]
    · simpa [forked.ptys, forked.threads] using forked.output
    · simpa [live.ptys, live.threads] using live.output
  · intro freed
    have behind := vtFreed freed
    rcases phase with fresh | ⟨_, pty, forked⟩ | ⟨_, pty, pc, live⟩
    · simp [fresh.threads]
    · simp [forked.threads]
    · simpa [live.threads] using live.joined behind
  · intro joining
    rcases phase with fresh | ⟨_, pty, forked⟩ | ⟨_, pty, pc, live⟩
    · exact absurd joining fresh.owner.2
    · cases joining.symm.trans forked.owner
    · refine ⟨pc, live.threads, ?_⟩
      by_cases ended : pc = .ended
      · exact .inl ended
      · rcases thread_goes_on live ended with goes | ⟨reading, none_, alive⟩
        · exact .inr (.inl goes)
        · exact .inr (.inr ⟨pty, reading, live.ptys, none_, alive⟩)

private theorem spawn_sound (sound : Sound terminal) (disciplined : Disciplined terminal (.spawn answer))
    (taken : step terminal (.spawn answer) = some next) : Sound next := by
  obtain ⟨fault, vtFreed, termFreed, phase⟩ := sound
  simp only [step] at taken
  split at taken
  · cases answer with
    | none =>
      cases taken
      exact ⟨fault, vtFreed, termFreed, phase⟩
    | some fd =>
      rename_i idle
      have early : ¬ Joined terminal.owner = true := by simp [idle, Joined]
      simp only at taken
      split at taken
      · cases taken
        refine ⟨fault, fun freed => absurd (vtFreed freed) early, fun freed => absurd (termFreed freed) early, ?_⟩
        rcases phase with ⟨_, _, threads, ptys, screen⟩ | ⟨_, _, forked⟩ | ⟨_, _, _, live⟩
        · refine .inr (.inl ⟨fd, ⟨[], [], [], false⟩, rfl, rfl, threads, ?_, ?_, ?_⟩)
          · simp [ptys]
          · simp [ptys]
          · simp [screen]
        · cases disciplined.symm.trans forked.ptyMaster
        · cases disciplined.symm.trans live.ptyMaster
      · cases taken
  · cases taken

private theorem created_sound (sound : Sound terminal) (disciplined : Disciplined terminal (.created successful))
    (taken : step terminal (.created successful) = some next) : Sound next := by
  obtain ⟨fault, vtFreed, termFreed, phase⟩ := sound
  cases (show successful = true from disciplined)
  simp only [step, if_true] at taken
  split at taken
  · rename_i creating
    have early : ¬ Joined terminal.owner = true := by simp [creating, Joined]
    cases taken
    refine ⟨fault, fun freed => absurd (vtFreed freed) early, fun freed => absurd (termFreed freed) early, ?_⟩
    rcases phase with fresh | ⟨fd, pty, forked⟩ | ⟨_, _, _, live⟩
    · exact absurd creating fresh.owner.1
    · refine .inr (.inr ⟨fd, pty, .test, by simp, forked.ptyMaster, ?_, ?_, forked.ptys, fun _ => .inl forked.file,
        trivial, ?_, by simp [Joined]⟩)
      · simp [forked.threads]
      · simp [forked.threads]
      · simpa [inFlight] using forked.output
    · exact absurd creating live.owner
  · cases taken

/-- A change of one pty that keeps what is behind its reader. -/
private theorem pty_sound (more : List UInt8) (sound : Sound terminal) {change : Pty → Pty}
    (written : ∀ pty, (change pty).written = pty.written ++ more)
    (pending : ∀ pty, (change pty).pending = pty.pending ++ more) (number : Nat) :
    Sound (onPty terminal number change) := by
  obtain ⟨fault, vtFreed, termFreed, phase⟩ := sound
  refine ⟨fault, vtFreed, termFreed, ?_⟩
  have one {pty : Pty} (ptys : terminal.ptys = [pty]) :
      ∃ after, terminal.ptys.modify number change = [after] ∧
        ∀ front, front ++ pty.pending = pty.written → front ++ after.pending = after.written := by
    rw [ptys]
    cases number with
    | zero =>
      refine ⟨change pty, rfl, fun front whole => ?_⟩
      rw [written, pending, ← List.append_assoc, whole]
    | succ number => exact ⟨pty, by simp, fun front whole => whole⟩
  rcases phase with ⟨owner, master, threads, ptys, screen⟩ | ⟨fd, pty, forked⟩ | ⟨fd, pty, pc, live⟩
  · exact .inl ⟨owner, master, threads, by simp [onPty, ptys], screen⟩
  · obtain ⟨after, same, output⟩ := one forked.ptys
    exact .inr (.inl ⟨fd, after, forked.owner, forked.ptyMaster, forked.threads, same, forked.file,
      output _ forked.output⟩)
  · obtain ⟨after, same, output⟩ := one live.ptys
    exact .inr (.inr ⟨fd, after, pc, live.owner, live.ptyMaster, live.readThread, live.threads, same, live.file,
      live.at_, output _ live.output, live.joined⟩)

/-- The owner comes to another place before the join, and keeps the rest. -/
private theorem owner_sound (sound : Sound terminal) (place : OwnerPc)
    (other : place ≠ .creating) (now : terminal.owner ≠ .creating)
    (joining : place = .joining → terminal.ptyMaster ≠ none)
    (flags : Joined terminal.owner = true → Joined place = true)
    (joined : Joined place = true → ∀ pc ∈ terminal.threads, pc = .ended) (running : Bool) :
    Sound { terminal with isRunning := running, owner := place } := by
  obtain ⟨fault, vtFreed, termFreed, phase⟩ := sound
  refine ⟨fault, fun freed => flags (vtFreed freed), fun freed => flags (termFreed freed), ?_⟩
  rcases phase with ⟨_, master, threads, ptys, screen⟩ | ⟨_, _, forked⟩ | ⟨fd, pty, pc, live⟩
  · exact .inl ⟨⟨other, fun same => joining same master⟩, master, threads, ptys, screen⟩
  · exact absurd forked.owner now
  · refine .inr (.inr ⟨fd, pty, pc, other, live.ptyMaster, live.readThread, live.threads, live.ptys, live.file,
      live.at_, live.output, fun behind => joined behind pc ?_⟩)
    rw [live.threads]
    exact List.mem_singleton.mpr rfl

/-- Everything is joined, and something is freed. -/
private theorem freed_sound (sound : Sound terminal) (behind : Joined terminal.owner = true)
    (place : OwnerPc) (later : Joined place = true) (vt term : Bool) :
    Sound { terminal with vtFreed := vt, termFreed := term, owner := place } := by
  obtain ⟨fault, _, _, phase⟩ := sound
  have apart : place ≠ .creating ∧ place ≠ .joining := by
    refine ⟨?_, ?_⟩
    · rintro rfl
      cases later
    · rintro rfl
      cases later
  refine ⟨fault, fun _ => later, fun _ => later, ?_⟩
  rcases phase with ⟨_, master, threads, ptys, screen⟩ | ⟨_, _, forked⟩ | ⟨fd, pty, pc, live⟩
  · exact .inl ⟨apart, master, threads, ptys, screen⟩
  · rw [forked.owner] at behind
    cases behind
  · exact .inr (.inr ⟨fd, pty, pc, apart.1, live.ptyMaster, live.readThread, live.threads, live.ptys, live.file,
      live.at_, live.output, fun _ => live.joined behind⟩)

private theorem close_sound (sound : Sound terminal) (closing : terminal.owner = .closing)
    (master : terminal.ptyMaster = some fd) :
    Sound { terminal with files := Function.update terminal.files fd none, owner := .joining } := by
  obtain ⟨fault, vtFreed, termFreed, phase⟩ := sound
  have early : ¬ Joined terminal.owner = true := by simp [closing, Joined]
  refine ⟨fault, fun freed => absurd (vtFreed freed) early, fun freed => absurd (termFreed freed) early, ?_⟩
  rcases phase with fresh | ⟨_, _, forked⟩ | ⟨number, pty, pc, live⟩
  · cases master.symm.trans fresh.ptyMaster
  · cases closing.symm.trans forked.owner
  · cases master.symm.trans live.ptyMaster
    refine .inr (.inr ⟨fd, pty, pc, by simp, master, live.readThread, live.threads, live.ptys, fun _ => .inr ?_,
      live.at_, live.output, by simp [Joined]⟩)
    exact Function.update_self _ _ _

private theorem destruction_sound (sound : Sound terminal) (taken : ownerStep terminal = some next) :
    Sound next := by
  unfold ownerStep at taken
  cases owner : terminal.owner with
  | idle | creating | done =>
    simp only [owner] at taken
    cases taken
  | closing =>
    simp only [owner] at taken
    split at taken
    · rename_i master
      cases taken
      have gone : ∀ pc ∈ terminal.threads, pc = .ended := by
        rcases sound.phase with fresh | ⟨_, _, forked⟩ | ⟨_, _, _, live⟩
        · rw [fresh.threads]
          exact List.forall_mem_nil _
        · cases owner.symm.trans forked.owner
        · cases master.symm.trans live.ptyMaster
      exact owner_sound sound .freeingVt (by simp) (by simp [owner]) (by simp) (fun _ => rfl) (fun _ => gone)
        terminal.isRunning
    · rename_i fd master
      cases taken
      exact close_sound sound owner master
  | joining =>
    simp only [owner] at taken
    rcases sound.phase with fresh | ⟨_, _, forked⟩ | ⟨fd, pty, pc, live⟩
    · exact absurd owner fresh.owner.2
    · cases owner.symm.trans forked.owner
    · split at taken
      · rename_i missing
        cases missing.symm.trans live.readThread
      · rename_i index stored
        split at taken
        · rename_i ended
          cases taken
          have gone : ∀ pc ∈ terminal.threads, pc = .ended := by
            cases stored.symm.trans live.readThread
            rw [live.threads] at ended ⊢
            simpa using ended
          exact owner_sound sound .freeingVt (by simp) (by simp [owner]) (by simp) (fun _ => rfl) (fun _ => gone)
            terminal.isRunning
        · cases taken
  | freeingVt =>
    simp only [owner] at taken
    cases taken
    exact freed_sound sound (by rw [owner]; rfl) .freeingTerm rfl true terminal.termFreed
  | freeingTerm =>
    simp only [owner] at taken
    cases taken
    exact freed_sound sound (by rw [owner]; rfl) .done rfl terminal.vtFreed true

/-! ## The thread -/

/-- A thread that is not gone comes to another place, and keeps what it shares. -/
private theorem thread_moves (live : Live terminal fd pty pc) (running : pc ≠ .ended) (after : ThreadPc)
    (at_ : OnPty fd after) (screen : List UInt8) (ptys : List Pty) (left : Pty) (one : ptys = [left])
    (output : screen ++ inFlight after ++ left.pending = left.written) (flag fault : Bool) :
    Live { terminal with isRunning := flag, screen, ptys, threads := [after], fault } fd left after :=
  ⟨live.owner, live.ptyMaster, live.readThread, rfl, one, fun _ => live.file running, at_, output,
    fun behind => absurd (live.joined behind) running⟩

/-- What a thread does: nothing is freed, and it stays with its pty. -/
private theorem thread_live (live : Live terminal fd pty pc) (unfreed : terminal.vtFreed = false)
    (there : terminal.termFreed = false) (taken : threadStep terminal count foreign pc = some (next, after)) :
    next.fault = terminal.fault ∧ next.vtFreed = false ∧ next.termFreed = false ∧ next.threads = terminal.threads ∧
      ∃ left, Live { next with threads := [after] } fd left after := by
  have output := live.output
  have one := live.ptys
  cases pc with
  | test =>
    cases taken
    refine ⟨by simp [there], unfreed, there, rfl, pty, ?_⟩
    refine thread_moves live (by simp) _ ?_ _ _ pty one ?_ terminal.isRunning _
    · split <;> trivial
    · split <;> exact output
  | load =>
    cases taken
    exact ⟨by simp [there], unfreed, there, rfl, pty,
      thread_moves live (by simp) (.call terminal.ptyMaster) live.ptyMaster _ _ pty one output terminal.isRunning _⟩
  | call number =>
    obtain rfl : number = some fd := live.at_
    simp only [threadStep, Option.bind_some] at taken
    rcases live.file (by simp) with file | closed
    · rw [file] at taken
      cases taken
      exact ⟨rfl, unfreed, there, rfl, pty,
        thread_moves live (by simp) (.read (.master 0)) rfl _ _ pty one output terminal.isRunning _⟩
    · rw [closed] at taken
      cases taken
      exact ⟨rfl, unfreed, there, rfl, pty,
        thread_moves live (by simp) .store trivial _ _ pty one output terminal.isRunning _⟩
  | read file =>
    obtain rfl : file = .master 0 := live.at_
    simp only [threadStep, readStep, one, List.getElem?_cons_zero] at taken
    have stops : Live { terminal with threads := [.store] } fd pty .store :=
      thread_moves live (by simp) .store trivial _ _ pty one output terminal.isRunning _
    cases count with
    | none =>
      cases taken
      exact ⟨rfl, unfreed, there, rfl, pty, stops⟩
    | some more =>
      simp only at taken
      split at taken
      · split at taken
        · cases taken
          exact ⟨rfl, unfreed, there, rfl, pty, stops⟩
        · cases taken
      · cases taken
        refine ⟨rfl, unfreed, there, rfl, { pty with pending := pty.pending.drop (min (more + 1) bufferSize) }, ?_⟩
        refine thread_moves live (by simp) (.feed (pty.pending.take (min (more + 1) bufferSize))) trivial _ _ _ ?_ ?_
          terminal.isRunning _
        · simp [onPty, one]
        · simp only [inFlight, List.append_nil] at output ⊢
          rw [List.append_assoc, List.take_append_drop]
          exact output
  | feed bytes =>
    cases taken
    refine ⟨by simp [there, unfreed], unfreed, there, rfl, pty,
      thread_moves live (by simp) .test trivial _ _ pty one ?_ terminal.isRunning _⟩
    simpa [inFlight] using output
  | store =>
    cases taken
    exact ⟨by simp [there], unfreed, there, rfl, pty,
      thread_moves live (by simp) .ended trivial _ _ pty one output false _⟩
  | ended => cases taken

private theorem thread_sound (sound : Sound terminal)
    (taken : step terminal (.thread index count foreign) = some next) : Sound next := by
  obtain ⟨pc, here, more⟩ := Option.bind_eq_some_iff.mp taken
  obtain ⟨⟨moved, after⟩, ran, done⟩ := Option.bind_eq_some_iff.mp more
  obtain ⟨fault, vtFreed, termFreed, phase⟩ := sound
  cases done
  rcases phase with fresh | ⟨_, _, forked⟩ | ⟨fd, pty, _, live⟩
  · simp [fresh.threads] at here
  · simp [forked.threads] at here
  · rw [live.threads, List.getElem?_singleton] at here
    split at here
    · rename_i first
      subst first
      cases here
      have running : pc ≠ .ended := by
        rintro rfl
        cases ran
      have early : ¬ Joined terminal.owner = true := fun behind => running (live.joined behind)
      have unfreed : terminal.vtFreed = false := by simpa using mt vtFreed early
      have there : terminal.termFreed = false := by simpa using mt termFreed early
      obtain ⟨same, vtKept, termKept, threads, left, now⟩ := thread_live live unfreed there ran
      refine ⟨same.trans fault, fun freed => ?_, fun freed => ?_, .inr (.inr ⟨fd, left, after, ?_⟩)⟩
      · cases vtKept.symm.trans freed
      · cases termKept.symm.trans freed
      · rw [threads, live.threads]
        exact now
    · cases here

/-! ## Runs -/

private theorem opened_sound (sound : Sound terminal) (disciplined : Disciplined terminal (.opened fd))
    (taken : step terminal (.opened fd) = some next) : Sound next := by
  obtain ⟨fault, vtFreed, termFreed, phase⟩ := sound
  simp only [step] at taken
  split at taken
  · rename_i free
    cases taken
    refine ⟨fault, vtFreed, termFreed, ?_⟩
    rcases phase with ⟨owner, master, threads, ptys, screen⟩ | ⟨number, pty, forked⟩ | ⟨number, pty, pc, live⟩
    · exact .inl ⟨owner, master, threads, ptys, screen⟩
    · have apart : number ≠ fd := by
        rintro rfl
        cases free.symm.trans forked.file
      refine .inr (.inl ⟨number, pty, forked.owner, forked.ptyMaster, forked.threads, forked.ptys, ?_,
        forked.output⟩)
      simp only [Function.update_of_ne apart, forked.file]
    · refine .inr (.inr ⟨number, pty, pc, live.owner, live.ptyMaster, live.readThread, live.threads, live.ptys,
        fun running => ?_, live.at_, live.output, live.joined⟩)
      have apart : number ≠ fd := by
        rintro rfl
        exact running (disciplined live.ptyMaster pc (by rw [live.threads]; exact List.mem_singleton.mpr rfl))
      simp only [Function.update_of_ne apart]
      exact live.file running
  · cases taken

theorem step_sound (sound : Sound terminal) (disciplined : Disciplined terminal event)
    (taken : step terminal event = some next) : Sound next := by
  cases event with
  | spawn answer => exact spawn_sound sound disciplined taken
  | created successful => exact created_sound sound disciplined taken
  | write b =>
    simp only [step] at taken
    split at taken
    · split at taken
      · cases taken
        exact pty_sound [] sound (by simp) (by simp) _
      · cases taken
        exact sound
    · cases taken
  | destroy =>
    simp only [step] at taken
    split at taken
    · rename_i idle
      cases taken
      exact owner_sound sound .closing (by simp) (by simp [idle]) (by simp) (by simp [idle, Joined])
        (by simp [Joined]) false
    · cases taken
  | owner => exact destruction_sound sound taken
  | thread index count foreign => exact thread_sound sound taken
  | childWrites pty bytes =>
    simp only [step] at taken
    split at taken
    · split at taken
      · cases taken
      · cases taken
        exact pty_sound bytes sound (fun _ => rfl) (fun _ => rfl) pty
    · cases taken
  | childGoes pty =>
    simp only [step] at taken
    split at taken
    · cases taken
      exact pty_sound [] sound (by simp) (by simp) pty
    · cases taken
  | opened fd => exact opened_sound sound disciplined taken

/-- However the owner, the thread, the child and the rest of the process interleave: nothing
is used after it was freed, what the child writes gets to the screen in its order, and only
a silent child keeps `sq_terminal_destroy` waiting. -/
theorem terminal_safe (disciplined : EachStep step Disciplined (start files) events) :
    Throughout step Safe (start files) events :=
  throughout_mono (fun _ => safe_of_sound)
    (throughout_of_each_step (fun _ _ _ sound disciplined taken => step_sound sound disciplined taken)
      (sound_start files) disciplined)

/-- A child writes two bytes and goes while the terminal is destroyed: the thread shows the
first, finds the descriptor closed and is joined. -/
def shownAndDestroyed : List Event :=
  [.spawn (some 3), .created true, .childWrites 0 [0x61, 0x62], .thread 0 none [], .thread 0 none [],
    .thread 0 none [], .thread 0 (some 0) [], .destroy, .owner, .thread 0 none [], .thread 0 none [], .owner,
    .owner, .owner]

theorem shown_and_destroyed :
    ∃ terminal, exec step (start fun _ => none) shownAndDestroyed = some terminal ∧ terminal.owner = .done ∧
      terminal.screen = [0x61] ∧ Safe terminal := by
  have disciplined : EachStep step Disciplined (start fun _ => none) shownAndDestroyed := by decide
  have ran : ∃ terminal, exec step (start fun _ => none) shownAndDestroyed = some terminal ∧
      terminal.owner = .done ∧ terminal.screen = [0x61] := ⟨_, rfl, rfl, rfl⟩
  obtain ⟨terminal, reached, done, screen⟩ := ran
  exact ⟨terminal, reached, done, screen, throughout_final (terminal_safe disciplined) reached⟩

end ShapeQuake.TerminalEmulator
