import ShapeQuake.ExecuterInvariants

/-! Who reads, reaps and closes what. The log of system calls decides: a child
is reaped once and by its own thread, a thread reads its own terminal, and every
descriptor of a terminal is closed once. Nothing in the source closes a master,
so the last part holds only of runs in which no terminal is opened. -/
namespace ShapeQuake.DescriptorProofs
open Library.Runs ShellCore Terminals Executer ExecuterInvariants

/-- The call reaps the child of this terminal. -/
def reapsChildOf (pty : Nat) : Call → Bool
  | .reaped _ child => child == pty
  | _ => false

/-- Every command has run to its end. -/
def Finished (system : System) : Prop :=
  system.main = .ready ∧ (∀ thread ∈ system.threads, thread.pc = .done) ∧
    ∀ child ∈ system.kernel.children, child.exited = true

/-- What the calls should amount to: at any time a child has been reaped at most
once, by its own thread, and a thread has read its own terminal only; when all
commands have finished, every child has been reaped and every descriptor closed
once. -/
structure Accounted (system : System) : Prop where
  reaped : ∀ pty, system.kernel.log.filter (reapsChildOf pty) = [] ∨
    system.kernel.log.filter (reapsChildOf pty) = [.reaped pty pty]
  read : ∀ reader pty, .read reader pty ∈ system.kernel.log → reader = pty
  collected : Finished system → ∀ pty, .forked pty ∈ system.kernel.log →
    system.kernel.log.filter (reapsChildOf pty) ≠ []
  closed : Finished system → ∀ pty, .opened pty ∈ system.kernel.log →
    ∀ side, system.kernel.log.count (.closed pty side) = 1

/-- The step is not an `openpty` that succeeds. -/
def OpensNothing (system : System) (event : Event) : Prop :=
  ∀ list, system.main = .openpty list → ∀ master slave, event ≠ .main (.pair master slave)

/-! ## What a step adds to the log -/

/-- No step logs that a master is closed, and only an `openpty` that succeeds
logs that a terminal is opened. -/
structure Adds (system next : System) (event : Event) (calls : List Call) : Prop where
  log : next.kernel.log = system.kernel.log ++ calls
  master : ∀ pty, .closed pty .master ∉ calls
  opened : (∃ pty, .opened pty ∈ calls) ↔ ¬ OpensNothing system event

private theorem adds_nothing (same : next.kernel.log = system.kernel.log)
    (opens : OpensNothing system event) : Adds system next event [] :=
  ⟨by rw [same, List.append_nil], by simp, iff_of_false (by simp) (not_not_intro opens)⟩

private theorem adds_other (log : next.kernel.log = system.kernel.log ++ [call])
    (opens : OpensNothing system event) (master : ∀ pty, call ≠ .closed pty .master)
    (opened : ∀ pty, call ≠ .opened pty) : Adds system next event [call] := by
  refine ⟨log, fun pty inside => ?_, iff_of_false ?_ (not_not_intro opens)⟩
  · exact master pty (List.mem_singleton.mp inside).symm
  · rintro ⟨pty, inside⟩
    exact opened pty (List.mem_singleton.mp inside).symm

private theorem thread_adds (moves : ThreadMoves system thread answer next pc)
    (opens : OpensNothing system event) : ∃ calls, Adds system next event calls := by
  cases moves with
  | took _ ran =>
    obtain ⟨pty, _, _, _, rfl⟩ := Kernel.read_some ran
    exact ⟨_, adds_other rfl opens (by simp) (by simp)⟩
  | unread _ ran =>
    obtain ⟨rfl, _⟩ := Kernel.read_none ran
    exact ⟨_, adds_nothing rfl opens⟩
  | reaped _ ran =>
    obtain ⟨child, _, _, _, _, rfl⟩ := Kernel.waitpid_true ran
    exact ⟨_, adds_other rfl opens (by simp) (by simp)⟩
  | unreaped _ ran =>
    obtain ⟨rfl, _⟩ := Kernel.waitpid_false ran
    exact ⟨_, adds_nothing rfl opens⟩
  | _ => exact ⟨_, adds_nothing rfl opens⟩

private theorem main_adds (tidy : Tidy system) (moves : MainMoves system answer next) :
    ∃ calls, Adds system next (.main answer) calls := by
  have elsewhere : (∀ list, system.main ≠ .openpty list) → OpensNothing system (.main answer) :=
    fun away list here => absurd here (away list)
  cases moves with
  | @opened list master slave kernel pc ran =>
    obtain ⟨_, _, _, rfl⟩ := Kernel.openpty_some ran
    refine ⟨[.opened system.kernel.ptys], rfl, by simp, iff_of_true ⟨_, List.mem_singleton_self _⟩ ?_⟩
    exact fun opens => opens list pc master slave rfl
  | unopened pc =>
    exact ⟨_, adds_nothing rfl fun _ _ _ _ same => by cases same⟩
  | forked pc ran =>
    obtain ⟨_, _, _, _, rfl⟩ := Kernel.fork_some ran
    exact ⟨_, adds_other rfl (elsewhere (by simp [pc])) (by simp) (by simp)⟩
  | closedSlave pc =>
    obtain ⟨fd, pty, slave⟩ := tidy.slave (by rw [pc]; trivial)
    refine ⟨[.closed pty .slave], adds_other ?_ (elsewhere (by simp [pc])) (by simp) (by simp)⟩
    unfold Kernel.close
    rw [slave]
  | entered pc | builtin pc | external pc | unforked pc | storedPid pc | running pc | created pc
  | uncreated pc | finished pc =>
    exact ⟨_, adds_nothing rfl (elsewhere (by simp [pc]))⟩

private theorem step_adds (tidy : Tidy system) (taken : step system event = some next) :
    ∃ calls, Adds system next event calls := by
  cases event with
  | input b alloc =>
    refine ⟨[], adds_nothing ?_ fun _ _ _ _ same => by cases same⟩
    simp only [step, inputStep] at taken
    split at taken
    · split at taken <;> cases taken <;> rfl
    · cases taken
  | main answer => exact main_adds tidy (mainStep_moves taken)
  | thread index answer =>
    obtain ⟨thread, after, pc, _, moves, rfl⟩ := step_thread taken
    have opens : OpensNothing system (.thread index answer) := by
      intro _ _ _ _ same
      cases same
    obtain ⟨calls, adds⟩ := thread_adds moves opens
    exact ⟨calls, adds.log, adds.master, adds.opened⟩
  | childWrites pid bytes =>
    obtain ⟨kernel, ran, rfl⟩ := Option.map_eq_some_iff.mp taken
    obtain ⟨_, _, _, _, rfl⟩ := Kernel.childWrites_some ran
    exact ⟨_, adds_nothing rfl fun _ _ _ _ same => by cases same⟩
  | childExits pid =>
    obtain ⟨kernel, ran, rfl⟩ := Option.map_eq_some_iff.mp taken
    obtain ⟨_, _, _, _, rfl⟩ := Kernel.childExits_some ran
    exact ⟨_, adds_nothing rfl fun _ _ _ _ same => by cases same⟩

/-! ## Runs that open nothing -/

/-- No terminal has been opened. -/
def Unopened (system : System) : Prop := ∀ pty, .opened pty ∉ system.kernel.log

/-- The main thread has not got past an `openpty`. -/
def BeforeOpenpty : MainPc → Prop
  | .ready | .enter _ | .openpty _ | .finish | .crashed => True
  | _ => False

/-- Masters stay open, and without a terminal there are no threads and no calls. -/
structure Leaks (system : System) : Prop where
  tidy : Tidy system
  master : ∀ pty, .closed pty .master ∉ system.kernel.log
  nothing : Unopened system →
    system.kernel.log = [] ∧ system.threads = [] ∧ BeforeOpenpty system.main

private theorem leaks_boot : Leaks boot where
  tidy := tidy_boot
  master := by simp [boot, quiet]
  nothing := fun _ => ⟨rfl, rfl, trivial⟩

private theorem unopened_step (leaks : Leaks system) (taken : step system event = some next) :
    (Unopened next → Unopened system) ∧
      (Unopened system → (Unopened next ↔ OpensNothing system event)) := by
  obtain ⟨calls, adds⟩ := step_adds leaks.tidy taken
  have split : Unopened next ↔ Unopened system ∧ OpensNothing system event := by
    unfold Unopened
    rw [← not_not (a := OpensNothing system event), ← adds.opened, adds.log]
    simp only [List.mem_append, not_or, forall_and, not_exists]
  exact ⟨fun unopened => (split.mp unopened).1, fun unopened => by rw [split, and_iff_right unopened]⟩

private theorem nothing_step
    (nothing : system.kernel.log = [] ∧ system.threads = [] ∧ BeforeOpenpty system.main)
    (opens : OpensNothing system event) (taken : step system event = some next) :
    next.kernel.log = [] ∧ next.threads = [] ∧ BeforeOpenpty next.main := by
  obtain ⟨log, threads, main⟩ := nothing
  cases event with
  | input b alloc =>
    simp only [step, inputStep] at taken
    split at taken
    · split at taken
      · cases taken
      · cases taken
        exact ⟨log, threads, main⟩
      · cases taken
        exact ⟨log, threads, trivial⟩
    · cases taken
  | main answer =>
    cases mainStep_moves taken with
    | opened pc ran => exact absurd rfl (opens _ pc _ _)
    | entered pc | unopened pc | finished pc => exact ⟨log, threads, trivial⟩
    | builtin pc | external pc | forked pc | unforked pc | storedPid pc | closedSlave pc
    | running pc | created pc | uncreated pc =>
      rw [pc] at main
      exact absurd main id
  | thread index answer =>
    obtain ⟨thread, after, pc, found, _, _⟩ := step_thread taken
    rw [threads] at found
    cases found
  | childWrites pid bytes =>
    obtain ⟨kernel, ran, rfl⟩ := Option.map_eq_some_iff.mp taken
    obtain ⟨_, _, _, _, rfl⟩ := Kernel.childWrites_some ran
    exact ⟨log, threads, main⟩
  | childExits pid =>
    obtain ⟨kernel, ran, rfl⟩ := Option.map_eq_some_iff.mp taken
    obtain ⟨_, _, _, _, rfl⟩ := Kernel.childExits_some ran
    exact ⟨log, threads, main⟩

private theorem leaks_step (leaks : Leaks system) (taken : step system event = some next) :
    Leaks next := by
  obtain ⟨calls, adds⟩ := step_adds leaks.tidy taken
  refine ⟨tidy_step leaks.tidy taken, fun pty closed => ?_, fun unopened => ?_⟩
  · rw [adds.log] at closed
    rcases List.mem_append.mp closed with before | now
    · exact leaks.master pty before
    · exact adds.master pty now
  · have before := (unopened_step leaks taken).1 unopened
    have opens := ((unopened_step leaks taken).2 before).mp unopened
    exact nothing_step (leaks.nothing before) opens taken

private theorem accounted_of_unopened (leaks : Leaks system) (unopened : Unopened system) :
    Accounted system := by
  obtain ⟨log, _⟩ := leaks.nothing unopened
  constructor <;> simp [log]

/-- A run in which no `openpty` succeeds is accounted for throughout, and a run
that has finished is accounted for only if no `openpty` has succeeded. -/
theorem accounted_iff_opens_nothing (events : List Event) :
    (EachStep step OpensNothing boot events → Throughout step Accounted boot events) ∧
      ∀ final, exec step boot events = some final → Finished final →
        (Accounted final ↔ EachStep step OpensNothing boot events) := by
  have start : Unopened boot := by simp [Unopened, boot, quiet]
  have unopened_iff : Throughout step Unopened boot events ↔
      EachStep step OpensNothing boot events :=
    throughout_iff_each_step (fun _ _ _ leaks _ _ taken => leaks_step leaks taken)
      (fun _ _ _ leaks unopened taken => (unopened_step leaks taken).2 unopened) leaks_boot start
  constructor
  · intro met
    have held : Throughout step (fun system => Leaks system ∧ Unopened system) boot events :=
      throughout_of_each_step (fun _ _ _ known opens taken => ⟨leaks_step known.1 taken,
        ((unopened_step known.1 taken).2 known.2).mpr opens⟩) ⟨leaks_boot, start⟩ met
    exact throughout_mono (fun _ known => accounted_of_unopened known.1 known.2) held
  · intro final ran finished
    have last : Leaks final :=
      exec_invariant (fun _ _ _ leaks taken => leaks_step leaks taken) leaks_boot ran
    rw [← unopened_iff, throughout_iff_final (fun _ _ _ leaks taken => leaks_step leaks taken)
      (fun _ _ _ leaks taken => (unopened_step leaks taken).1) leaks_boot ran]
    refine ⟨fun accounted pty opened => ?_, accounted_of_unopened last⟩
    -- a terminal was opened, so its master would have been closed
    have closed := accounted.closed finished pty opened .master
    apply last.master pty
    apply List.count_pos_iff.mp
    rw [closed]
    exact Nat.one_pos

/-- One external command, run to its end: the master of its terminal is open. -/
theorem master_left_open :
    ¬ ∀ events, Throughout step Accounted boot events := by
  intro accounted
  have ran : (exec step boot
      [.input 0x6c fun _ => true, .input 0x0d fun _ => true, .main .ok, .main (.pair 3 4),
        .main .ok, .main (.number 100), .main .ok, .main .ok, .main .ok, .main .ok, .main .ok,
        .childExits 100, .thread 0 .ok, .thread 0 .ok, .thread 0 .ok, .thread 0 .failed,
        .thread 0 .ok, .thread 0 .ok, .thread 0 .ok, .thread 0 .ok, .thread 0 .ok]).map
      (fun system => (system.main, system.threads, system.kernel.children, system.kernel.log)) =
        some (.ready, [⟨.done, 0⟩], [],
          [.opened 0, .forked 0, .closed 0 .slave, .reaped 0 0]) := by
    decide +kernel
  obtain ⟨final, reached, seen⟩ := Option.map_eq_some_iff.mp ran
  simp only [Prod.mk.injEq] at seen
  obtain ⟨main, threads, children, log⟩ := seen
  have finished : Finished final :=
    ⟨main, by simp [threads], by simp [children]⟩
  have closed := (throughout_final (accounted _) reached).closed finished 0 (by simp [log]) .master
  rw [log] at closed
  revert closed
  decide

end ShapeQuake.DescriptorProofs
