import ShapeQuake.Executer

/-! The shell's state while commands run. `shell_executer_spawn` passes the
shell itself where a context is expected, so the state it stores lands in the
command line buffer and the context stays idle; the read thread takes the
member's address and stores idle over idle. A failing `openpty` or `fork` leaves
no shell behind that could be idle. -/
namespace ShapeQuake.ContextProofs
open Library.Bytes Library.Runs ShellCore Terminals Executer

/-! ## What the state should be -/

/-- The main thread has forked and not yet started the read thread. -/
def AfterFork : MainPc → Prop
  | .storePid _ _ | .closeSlave _ | .setRunning _ | .createThread _ => True
  | _ => False

/-- A child has been forked and the thread that reads for it has not ended. -/
def Executing (system : System) : Prop :=
  AfterFork system.main ∨
  ∃ thread ∈ system.threads, thread.pc ≠ .prompt ∧ thread.pc ≠ .done

/-- The shell is there, and its state is executing exactly while a command is. -/
def InPhase (system : System) : Prop :=
  system.main ≠ .crashed ∧
    (Executing system → system.shell.ctx.state = .executing) ∧
    (¬ Executing system → system.shell.ctx.state = .idle)

/-- The main thread is inside `shell_executer_spawn`. -/
def Spawning : MainPc → Prop
  | .ready | .finish | .crashed => False
  | _ => True

/-- Nothing but the state and the executer has changed. -/
def OnlyStateAndExec (before after : Shell) : Prop :=
  ∃ state exec,
    after = { before with ctx := { before.ctx with state := state }, exec := exec }

/-- A step of `shell_executer_spawn` modifies only the state and the executer. -/
def Framed (system : System) (event : Event) : Prop :=
  ∀ answer, event = .main answer → Spawning system.main →
    ∀ next, step system event = some next → OnlyStateAndExec system.shell next.shell

/-- The state is stored over its own bytes, `openpty` does not fail, and `fork` is not
called: a child would run while the shell is idle, and a failure is not survived. -/
def StoresInPlace (system : System) : Event → Prop
  | .main answer =>
    match system.main with
    | .enter _ => readBytes system.shell.commandLineBuffer 0 4 = [1, 0, 0, 0]
    | .openpty _ => answer ≠ .failed
    | .fork _ => False
    | _ => True
  | _ => True

/-! ## No command runs -/

/-- As long as no child has been forked there is no read thread, and the state
has stayed what `shell_context_init` made it. -/
structure Unforked (system : System) : Prop where
  alive : system.main ≠ .crashed
  idle : system.shell.ctx.state = .idle
  threads : system.threads = []
  before : ¬ Executing system
  shellContext : system.shell.exec.shellContext = some .base

private theorem unforked_inPhase (unforked : Unforked system) : InPhase system :=
  ⟨unforked.alive, fun executing => absurd executing unforked.before, fun _ => unforked.idle⟩

private theorem not_executing (threads : system.threads = []) (main : ¬ AfterFork system.main) :
    ¬ Executing system := by
  rintro (forked | ⟨thread, member, _⟩)
  · exact main forked
  · rw [threads] at member
    cases member

private theorem unforked_input (unforked : Unforked system)
    (taken : inputStep system b alloc = some next) :
    Unforked next ∧ ¬ Spawning system.main := by
  unfold inputStep at taken
  split at taken
  · rename_i ready
    have outside : ¬ Spawning system.main := by
      rw [ready.1]
      exact fun spawning => spawning
    split at taken
    · cases taken
    · rename_i ran
      cases taken
      obtain ⟨ctx, exec⟩ := shellInputByte_context ran
      refine ⟨⟨unforked.alive, ?_, unforked.threads, unforked.before, ?_⟩, outside⟩
      · rw [ctx]
        exact unforked.idle
      · rw [exec]
        exact unforked.shellContext
    · rename_i ran
      cases taken
      obtain ⟨ctx, exec⟩ := shellInputByte_context ran
      refine ⟨⟨MainPc.noConfusion, ?_, unforked.threads, not_executing unforked.threads id, exec⟩, outside⟩
      rw [ctx]
      exact unforked.idle
  · cases taken

/-- Storing four bytes over themselves is the only way to store them unseen. -/
private theorem write_four_iff (store : Store) (bytes : List UInt8) (four : bytes.length = 4) :
    writeBytes store 0 bytes = store ↔ readBytes store 0 4 = bytes := by
  constructor
  · intro same
    have back : readBytes (writeBytes store 0 bytes) (0 + 0) 4 = (bytes.drop 0).take 4 :=
      readBytes_writeBytes (by omega)
    rwa [same, List.drop_zero, List.take_of_length_le (Nat.le_of_eq four)] at back
  · rintro rfl
    funext position
    unfold writeBytes
    split
    · rename_i within
      rw [readBytes_length] at within
      have small : position = 0 ∨ position = 1 ∨ position = 2 ∨ position = 3 := by omega
      rcases small with rfl | rfl | rfl | rfl <;> rfl
    · rfl

/-- Passing the shell as the context leaves everything but the state and the
executer alone exactly when the bytes of the state are there already. -/
private theorem entered_framed_iff (shell : Shell) :
    OnlyStateAndExec shell (shellContextSetState shell (some .base) .executing) ↔
      readBytes shell.commandLineBuffer 0 4 = [1, 0, 0, 0] := by
  have bytes : toBytes 4 ShellState.executing.raw = [1, 0, 0, 0] := rfl
  rw [← write_four_iff _ _ rfl, ← bytes]
  constructor
  · rintro ⟨state, exec, same⟩
    exact congrArg Shell.commandLineBuffer same
  · intro same
    refine ⟨shell.ctx.state, shell.exec, ?_⟩
    simp only [shellContextSetState, same]

/-- A step that forks nothing and stays within its frame. -/
private theorem harmless (after : Unforked next)
    (framed : Spawning system.main → OnlyStateAndExec system.shell next.shell)
    (stores : StoresInPlace system event) :
    (InPhase next ∧ (Spawning system.main → OnlyStateAndExec system.shell next.shell) ↔
      StoresInPlace system event) ∧ (InPhase next → Unforked next) :=
  ⟨iff_of_true ⟨unforked_inPhase after, framed⟩ stores, fun _ => after⟩

private theorem unforked_main (unforked : Unforked system)
    (moves : MainMoves system answer next) :
    (InPhase next ∧ (Spawning system.main → OnlyStateAndExec system.shell next.shell) ↔
      StoresInPlace system (.main answer)) ∧ (InPhase next → Unforked next) := by
  have idle := unforked.idle
  have threads := unforked.threads
  have base := unforked.shellContext
  have same : OnlyStateAndExec system.shell system.shell :=
    ⟨system.shell.ctx.state, system.shell.exec, rfl⟩
  cases moves with
  | @entered list _ pc =>
    have after : Unforked { system with
        shell := shellContextSetState system.shell system.shell.exec.shellContext .executing
        main := .openpty list } := by
      refine ⟨MainPc.noConfusion, ?_, threads, not_executing threads id, ?_⟩
      · rw [base]
        exact idle
      · rw [setState_exec]
        exact base
    refine ⟨?_, fun _ => after⟩
    rw [and_iff_right (unforked_inPhase after), base, entered_framed_iff]
    simp only [StoresInPlace, pc, Spawning, forall_true_left]
  | opened pc ran =>
    rw [if_neg (by rw [base]; exact fun null => by cases null)]
    apply harmless
    · exact ⟨MainPc.noConfusion, idle, threads, not_executing threads id, base⟩
    · exact fun _ => ⟨system.shell.ctx.state, _, rfl⟩
    · simp only [StoresInPlace, pc]
      exact Answer.noConfusion
  | @forked list pid pty kernel pc ran =>
    have late : ¬ InPhase { system with kernel := kernel, main := .storePid pid pty } := by
      intro phase
      have state := phase.2.1 (Or.inl trivial)
      cases idle.symm.trans state
    refine ⟨iff_of_false (fun both => late both.1) ?_, fun phase => absurd phase late⟩
    simp only [StoresInPlace, pc, not_false_eq_true]
  | unopened pc | unforked pc =>
    have gone : ¬ InPhase { system with main := .crashed } := fun phase => phase.1 rfl
    refine ⟨iff_of_false (fun both => gone both.1) ?_, fun phase => absurd phase gone⟩
    simp only [StoresInPlace, pc, ne_eq, not_true_eq_false, not_false_eq_true]
  | builtin pc found | external pc missing =>
    apply harmless
    · exact ⟨MainPc.noConfusion, idle, threads, not_executing threads id, base⟩
    · exact fun _ => same
    · simp only [StoresInPlace, pc]
  | storedPid pc | closedSlave pc | running pc | created pc | uncreated pc =>
    exact absurd (Or.inl (by rw [pc]; trivial)) unforked.before
  | finished pc =>
    apply harmless
    · exact ⟨MainPc.noConfusion, idle, threads, not_executing threads id, base⟩
    · rw [pc]
      exact fun spawning => absurd spawning id
    · simp only [StoresInPlace, pc]

/-- Until a child is forked, a step keeps the state in phase and within its
frame exactly when it forks nothing and stores in place. -/
private theorem unforked_step (unforked : Unforked system)
    (taken : step system event = some next) :
    (InPhase next ∧ Framed system event ↔ StoresInPlace system event) ∧
      (InPhase next → Unforked next) := by
  cases event with
  | input b alloc =>
    obtain ⟨after, _⟩ := unforked_input unforked taken
    refine ⟨iff_of_true ⟨unforked_inPhase after, ?_⟩ trivial, fun _ => after⟩
    intro answer same
    cases same
  | main answer =>
    obtain ⟨exact_, kept⟩ := unforked_main unforked (mainStep_moves taken)
    refine ⟨?_, kept⟩
    rw [← exact_]
    refine and_congr_right fun _ => ⟨fun framed spawning => ?_, fun framed other same spawning => ?_⟩
    · exact framed answer rfl spawning next taken
    · intro after moved
      cases taken.symm.trans moved
      exact framed spawning
  | thread index answer =>
    obtain ⟨thread, after, pc, found, _⟩ := step_thread taken
    rw [unforked.threads] at found
    cases found
  | childWrites pid bytes | childExits pid =>
    obtain ⟨kernel, _, rfl⟩ := Option.map_eq_some_iff.mp taken
    have after : Unforked { system with kernel := kernel } :=
      ⟨unforked.alive, unforked.idle, unforked.threads, unforked.before, unforked.shellContext⟩
    refine ⟨iff_of_true ⟨unforked_inPhase after, ?_⟩ trivial, fun _ => after⟩
    intro answer same
    cases same

/-- In a run from `shell_init`, the state follows the commands and spawns stay
within their frame exactly when each spawn finds the bytes of the state at the start of
the command line, its `openpty` does not fail, and it does not come to its `fork`. -/
theorem state_follows_iff_stores_in_place (events : List Event) :
    Throughout step InPhase boot events ∧ EachStep step Framed boot events ↔
      EachStep step StoresInPlace boot events := by
  have ground : Unforked boot := ⟨MainPc.noConfusion, rfl, rfl, not_executing rfl id, rfl⟩
  exact throughout_and_each_step_iff
    (fun _ _ _ unforked _ phase _ taken => (unforked_step unforked taken).2 phase)
    (fun _ _ _ unforked _ taken => (unforked_step unforked taken).1)
    ground (unforked_inPhase ground)

/-- The line `l`, not a built-in: after the fork the child runs and the state is
still idle. -/
theorem forked_while_idle :
    ¬ ∀ events, Throughout step InPhase boot events ∧ EachStep step Framed boot events := by
  intro always
  obtain ⟨phase, _⟩ := always
    [.input 0x6c (fun _ => true), .input 0x0d (fun _ => true), .main .ok, .main (.pair 3 4),
      .main .ok, .main (.number 100)]
  have ran : (exec step boot
      [.input 0x6c (fun _ => true), .input 0x0d (fun _ => true), .main .ok, .main (.pair 3 4),
        .main .ok, .main (.number 100)]).map
      (fun system => (system.main, system.shell.ctx.state)) = some (.storePid 100 0, .idle) := by
    decide +kernel
  obtain ⟨final, reached, seen⟩ := Option.map_eq_some_iff.mp ran
  simp only [Prod.mk.injEq] at seen
  have executing : Executing final := by
    apply Or.inl
    rw [seen.1]
    trivial
  cases seen.2.symm.trans ((throughout_final phase reached).2.1 executing)

end ShapeQuake.ContextProofs
