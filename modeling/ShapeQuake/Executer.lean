import ShapeQuake.Library.Runs
import ShapeQuake.ShellCore
import ShapeQuake.Terminals

/-! The shell process of `main.c`, `callbacks.c` and `executer.c` as a machine:
the main thread reads a byte or is on its way through `shell_executer_spawn`,
every command has left behind a read thread, and all of them share the one
executer. Each access to a shared field and each system call is a step of its
own, with the answer of the system in the event. A failing `openpty` or `fork` is
reported with a status whose category has no name, and there the process ends. -/
namespace ShapeQuake.Executer
open ShellCore Terminals Tokenizer

/-- Where the main thread is: between bytes, or at a point of
`shell_executer_spawn`. After the fork it carries the child's terminal. Where `dbgmsg`
does not come back, the process is gone with all its threads. -/
inductive MainPc where
  | ready
  | enter (list : TokenList)
  | openpty (list : TokenList)
  | dispatch (list : TokenList)
  | fork (list : TokenList)
  | storePid (pid pty : Nat)
  | closeSlave (pty : Nat)
  | setRunning (pty : Nat)
  | createThread (pty : Nat)
  | finish
  | crashed
  deriving DecidableEq, Repr

/-- Where a read thread is in `shell_executer_read_thread`. A number it has
loaded from the executer stays with it until the call it is passed to returns. -/
inductive ThreadPc where
  | enter
  | test
  | arm
  | poll (fd : Int)
  | load
  | read (fd : Int)
  | wait
  | reap (pid : Nat)
  | stop
  | leave
  | prompt
  | done
  deriving DecidableEq, Repr

/-- A read thread and the terminal of the child it was started for. -/
structure Thread where
  pc : ThreadPc
  pty : Nat
  deriving DecidableEq, Repr

structure System where
  shell : Shell
  stopRequired : Bool
  main : MainPc
  threads : List Thread
  kernel : Kernel
  /-- What the process has shown and asked for, in order. -/
  trace : List Action

/-- What a system call answers: success, failure, a number or two descriptors. -/
inductive Answer where
  | ok
  | failed
  | number (n : Nat)
  | pair (first second : Nat)
  deriving DecidableEq, Repr

inductive Event where
  | input (b : UInt8) (alloc : Nat → Bool)
  | main (answer : Answer)
  | thread (index : Nat) (answer : Answer)
  | childWrites (pid : Nat) (bytes : List UInt8)
  | childExits (pid : Nat)

/-- The process when `main` enters its loop. -/
def boot : System :=
  { shell := shellBuiltinInitRegystry shellInit
    stopRequired := false
    main := .ready
    threads := []
    kernel := quiet
    trace := [.blankline, .prompt] }

/-- One turn of the loop of `main` up to the call of `shell_executer_spawn`. -/
def inputStep (system : System) (b : UInt8) (alloc : Nat → Bool) : Option System :=
  if system.main = .ready ∧ system.stopRequired = false then
    match shellInputByte system.shell b alloc with
    | none => none
    | some (.returned shell stop actions) =>
      some { system with
        shell := shell
        stopRequired := stop
        trace := system.trace ++ actions }
    | some (.spawns shell list actions) =>
      some { system with
        shell := shell
        main := .enter list
        trace := system.trace ++ actions }
  else none

/-- The main thread prints a status on its way to `next`. -/
def report (system : System) (status : Status) (next : MainPc) : System :=
  match dbgmsg status with
  | some _ => { system with main := next, trace := system.trace ++ [.debug status] }
  | none => { system with main := .crashed }

/-- The executer with other contents. -/
def setExec (shell : Shell) (exec : ShellExecuter) : Shell := { shell with exec := exec }

/-- The next step of the main thread in `shell_executer_spawn`, and the end of
`shell_cb_execute_default`. -/
def mainStep (system : System) (answer : Answer) : Option System :=
  let shell := system.shell
  let exec := shell.exec
  match system.main with
  | .ready => none
  | .enter list =>
    some { system with
      shell := shellContextSetState shell exec.shellContext .executing
      main := .openpty list }
  | .openpty list =>
    match answer with
    | .pair master slave => do
      let kernel ← system.kernel.openpty master slave
      some { system with
        shell := setExec shell { exec with masterFd := master, slaveFd := slave }
        kernel := kernel
        main := if exec.shellContext = none then .finish else .dispatch list }
    -- printed by `shell_cb_execute_default`, which compares the status it is returned
    | .failed => some (report system (asStatus .shellPty .failure .open) .finish)
    | _ => none
  | .dispatch list =>
    match findBuiltin shell list with
    | some handler =>
      let (stop, actions) := runHandler handler list (answer = .ok)
      some { system with
        stopRequired := system.stopRequired || stop
        main := .finish
        trace := system.trace ++ actions ++ shellUiPutPrompt shell false }
    | none => some { system with main := .fork list }
  | .fork _ =>
    match answer with
    | .number pid => do
      let (pty, kernel) ← system.kernel.fork pid exec.slaveFd
      some { system with kernel := kernel, main := .storePid pid pty }
    | .failed => some (report system (asStatus .shellExecuter .failure .open) .finish)
    | _ => none
  | .storePid pid pty =>
    some { system with
      shell := setExec shell { exec with spawnedPid := pid }
      main := .closeSlave pty }
  | .closeSlave pty =>
    some { system with kernel := system.kernel.close exec.slaveFd, main := .setRunning pty }
  | .setRunning pty =>
    some { system with
      shell := setExec shell { exec with isThreadRunning := true }
      main := .createThread pty }
  | .createThread pty =>
    -- the status of `pthread_create` is not looked at
    if answer = .ok then
      some { system with
        shell := setExec shell { exec with readThread := system.threads.length }
        threads := system.threads ++ [⟨.enter, pty⟩]
        main := .finish }
    else some { system with main := .finish }
  | .finish => some { system with shell := clearCommandLine shell, main := .ready }
  | .crashed => none

/-- The next step of a read thread. -/
def threadStep (system : System) (thread : Thread) (answer : Answer) :
    Option (System × ThreadPc) :=
  let shell := system.shell
  let exec := shell.exec
  match thread.pc with
  | .enter => some (system, if exec.masterFd < 0 then .done else .test)
  | .test => some (system, if exec.isThreadRunning then .arm else .leave)
  | .arm => some (system, .poll exec.masterFd)
  | .poll fd =>
    match answer with
    | .ok => if system.kernel.canReport fd then some (system, .load) else none
    | .failed => if system.kernel.canStayQuiet fd then some (system, .wait) else none
    | _ => none
  | .load => some (system, .read exec.masterFd)
  | .read fd =>
    match answer with
    | .number count => do
      let (bytes, kernel) ← system.kernel.read thread.pty fd (some count)
      some ({ system with
        kernel := kernel
        trace := system.trace ++ bytes.map .dispatchChar }, .wait)
    | .failed => do
      let (_, kernel) ← system.kernel.read thread.pty fd none
      some ({ system with kernel := kernel }, .leave)
    | _ => none
  | .wait => some (system, .reap exec.spawnedPid)
  | .reap pid =>
    let (reported, kernel) := system.kernel.waitpid thread.pty pid
    some ({ system with kernel := kernel }, if reported then .stop else .test)
  | .stop =>
    some ({ system with shell := setExec shell { exec with isThreadRunning := false } }, .leave)
  | .leave =>
    some ({ system with
      shell := shellContextSetState shell (memberCtx exec.shellContext) .idle }, .prompt)
  | .prompt =>
    some ({ system with
      trace := system.trace ++ .flush :: shellUiPutPrompt shell false }, .done)
  | .done => none

/-- One step of the process or of a child. -/
def step (system : System) (event : Event) : Option System :=
  match event with
  | .input b alloc => inputStep system b alloc
  | .main answer => mainStep system answer
  | .thread index answer =>
    if system.main = .crashed then none
    else
      match system.threads[index]? with
      | none => none
      | some thread =>
        match threadStep system thread answer with
        | none => none
        | some (next, pc) => some { next with threads := next.threads.set index { thread with pc := pc } }
  | .childWrites pid bytes =>
    (system.kernel.childWrites pid bytes).map fun kernel => { system with kernel := kernel }
  | .childExits pid =>
    (system.kernel.childExits pid).map fun kernel => { system with kernel := kernel }

/-! ## What a step can do -/

/-- The steps of the main thread between two bytes. -/
inductive MainMoves (system : System) : Answer → System → Prop where
  | entered (pc : system.main = .enter list) :
      MainMoves system answer
        { system with
          shell := shellContextSetState system.shell system.shell.exec.shellContext .executing
          main := .openpty list }
  | opened (pc : system.main = .openpty list)
      (ran : system.kernel.openpty master slave = some kernel) :
      MainMoves system (.pair master slave)
        { system with
          shell := setExec system.shell
            { system.shell.exec with masterFd := master, slaveFd := slave }
          kernel := kernel
          main := if system.shell.exec.shellContext = none then .finish else .dispatch list }
  | unopened (pc : system.main = .openpty list) :
      MainMoves system .failed { system with main := .crashed }
  | builtin (pc : system.main = .dispatch list)
      (found : findBuiltin system.shell list = some handler) :
      MainMoves system answer
        { system with
          stopRequired := system.stopRequired || (runHandler handler list (answer = .ok)).1
          main := .finish
          trace := system.trace ++ (runHandler handler list (answer = .ok)).2 ++
            shellUiPutPrompt system.shell false }
  | external (pc : system.main = .dispatch list) (missing : findBuiltin system.shell list = none) :
      MainMoves system answer { system with main := .fork list }
  | forked (pc : system.main = .fork list)
      (ran : system.kernel.fork pid system.shell.exec.slaveFd = some (pty, kernel)) :
      MainMoves system (.number pid) { system with kernel := kernel, main := .storePid pid pty }
  | unforked (pc : system.main = .fork list) :
      MainMoves system .failed { system with main := .crashed }
  | storedPid (pc : system.main = .storePid pid pty) :
      MainMoves system answer
        { system with
          shell := setExec system.shell { system.shell.exec with spawnedPid := pid }
          main := .closeSlave pty }
  | closedSlave (pc : system.main = .closeSlave pty) :
      MainMoves system answer
        { system with
          kernel := system.kernel.close system.shell.exec.slaveFd
          main := .setRunning pty }
  | running (pc : system.main = .setRunning pty) :
      MainMoves system answer
        { system with
          shell := setExec system.shell { system.shell.exec with isThreadRunning := true }
          main := .createThread pty }
  | created (pc : system.main = .createThread pty) :
      MainMoves system .ok
        { system with
          shell := setExec system.shell
            { system.shell.exec with readThread := system.threads.length }
          threads := system.threads ++ [⟨.enter, pty⟩]
          main := .finish }
  | uncreated (pc : system.main = .createThread pty) :
      MainMoves system answer { system with main := .finish }
  | finished (pc : system.main = .finish) :
      MainMoves system answer
        { system with shell := clearCommandLine system.shell, main := .ready }

/-- The status of a category without a name is not survived. -/
theorem report_crashes (unnamed : cat = .shellExecuter ∨ cat = .shellPty ∨ cat = .db) :
    report system (asStatus cat condition code) next = { system with main := .crashed } := by
  rw [report, dbgmsg_eq_none_iff.mpr unnamed]

theorem mainStep_moves (taken : mainStep system answer = some next) :
    MainMoves system answer next := by
  unfold mainStep at taken
  cases pc : system.main with
  | ready =>
    simp only [pc] at taken
    cases taken
  | enter list =>
    simp only [pc] at taken
    cases taken
    exact .entered pc
  | openpty list =>
    simp only [pc] at taken
    split at taken
    · obtain ⟨kernel, ran, after⟩ := Option.bind_eq_some_iff.mp taken
      cases after
      exact .opened pc ran
    · cases taken
      rw [report_crashes (.inr (.inl rfl))]
      exact .unopened pc
    · cases taken
  | dispatch list =>
    simp only [pc] at taken
    split at taken
    · rename_i found
      cases taken
      exact .builtin pc found
    · rename_i missing
      cases taken
      exact .external pc missing
  | fork list =>
    simp only [pc] at taken
    split at taken
    · obtain ⟨⟨pty, kernel⟩, ran, after⟩ := Option.bind_eq_some_iff.mp taken
      cases after
      exact .forked pc ran
    · cases taken
      rw [report_crashes (.inl rfl)]
      exact .unforked pc
    · cases taken
  | storePid pid pty =>
    simp only [pc] at taken
    cases taken
    exact .storedPid pc
  | closeSlave pty =>
    simp only [pc] at taken
    cases taken
    exact .closedSlave pc
  | setRunning pty =>
    simp only [pc] at taken
    cases taken
    exact .running pc
  | createThread pty =>
    simp only [pc] at taken
    split at taken
    · rename_i ok
      cases taken
      subst ok
      exact .created pc
    · cases taken
      exact .uncreated pc
  | finish =>
    simp only [pc] at taken
    cases taken
    exact .finished pc
  | crashed =>
    simp only [pc] at taken
    cases taken

/-- The steps of a read thread. Only four of them change anything but the point
the thread is at: reading, reaping, and the two that store a shared field. -/
inductive ThreadMoves (system : System) (thread : Thread) : Answer → System → ThreadPc → Prop where
  | entered (pc : thread.pc = .enter) :
      ThreadMoves system thread answer system
        (if system.shell.exec.masterFd < 0 then .done else .test)
  | tested (pc : thread.pc = .test) :
      ThreadMoves system thread answer system
        (if system.shell.exec.isThreadRunning then .arm else .leave)
  | armed (pc : thread.pc = .arm) :
      ThreadMoves system thread answer system (.poll system.shell.exec.masterFd)
  | reported (pc : thread.pc = .poll fd) (ready : system.kernel.canReport fd = true) :
      ThreadMoves system thread .ok system .load
  | timedOut (pc : thread.pc = .poll fd) (empty : system.kernel.canStayQuiet fd = true) :
      ThreadMoves system thread .failed system .wait
  | loaded (pc : thread.pc = .load) :
      ThreadMoves system thread answer system (.read system.shell.exec.masterFd)
  | took (pc : thread.pc = .read fd)
      (ran : system.kernel.read thread.pty fd (some count) = some (bytes, kernel)) :
      ThreadMoves system thread (.number count)
        { system with
          kernel := kernel
          trace := system.trace ++ bytes.map .dispatchChar } .wait
  | unread (pc : thread.pc = .read fd)
      (ran : system.kernel.read thread.pty fd none = some (bytes, kernel)) :
      ThreadMoves system thread .failed { system with kernel := kernel } .leave
  | waited (pc : thread.pc = .wait) :
      ThreadMoves system thread answer system (.reap system.shell.exec.spawnedPid)
  | reaped (pc : thread.pc = .reap pid) (ran : system.kernel.waitpid thread.pty pid = (true, kernel)) :
      ThreadMoves system thread answer { system with kernel := kernel } .stop
  | unreaped (pc : thread.pc = .reap pid)
      (ran : system.kernel.waitpid thread.pty pid = (false, kernel)) :
      ThreadMoves system thread answer { system with kernel := kernel } .test
  | stopped (pc : thread.pc = .stop) :
      ThreadMoves system thread answer
        { system with
          shell := setExec system.shell { system.shell.exec with isThreadRunning := false } } .leave
  | left (pc : thread.pc = .leave) :
      ThreadMoves system thread answer
        { system with
          shell := shellContextSetState system.shell (memberCtx system.shell.exec.shellContext)
            .idle } .prompt
  | prompted (pc : thread.pc = .prompt) :
      ThreadMoves system thread answer
        { system with
          trace := system.trace ++ .flush :: shellUiPutPrompt system.shell false } .done

theorem threadStep_moves (taken : threadStep system thread answer = some (next, pc)) :
    ThreadMoves system thread answer next pc := by
  unfold threadStep at taken
  cases point : thread.pc with
  | enter =>
    simp only [point] at taken
    cases taken
    exact .entered point
  | test =>
    simp only [point] at taken
    cases taken
    exact .tested point
  | arm =>
    simp only [point] at taken
    cases taken
    exact .armed point
  | poll fd =>
    simp only [point] at taken
    split at taken
    · split at taken
      · rename_i ready
        cases taken
        exact .reported point ready
      · cases taken
    · split at taken
      · rename_i empty
        cases taken
        exact .timedOut point empty
      · cases taken
    · cases taken
  | load =>
    simp only [point] at taken
    cases taken
    exact .loaded point
  | read fd =>
    simp only [point] at taken
    split at taken
    · obtain ⟨⟨bytes, kernel⟩, ran, after⟩ := Option.bind_eq_some_iff.mp taken
      cases after
      exact .took point ran
    · obtain ⟨⟨bytes, kernel⟩, ran, after⟩ := Option.bind_eq_some_iff.mp taken
      cases after
      exact .unread point ran
    · cases taken
  | wait =>
    simp only [point] at taken
    cases taken
    exact .waited point
  | reap pid =>
    simp only [point] at taken
    cases outcome : system.kernel.waitpid thread.pty pid with
    | mk reported kernel =>
      simp only [outcome] at taken
      cases reported with
      | true =>
        cases taken
        exact .reaped point outcome
      | false =>
        cases taken
        exact .unreaped point outcome
  | stop =>
    simp only [point] at taken
    cases taken
    exact .stopped point
  | leave =>
    simp only [point] at taken
    cases taken
    exact .left point
  | prompt =>
    simp only [point] at taken
    cases taken
    exact .prompted point
  | done =>
    simp only [point] at taken
    cases taken

/-- A thread that has returned does not move. -/
theorem moves_not_done (moves : ThreadMoves system thread answer next pc) :
    thread.pc ≠ .done := by
  intro done
  cases moves with
  | entered pc | tested pc | armed pc | reported pc | timedOut pc | loaded pc | took pc
  | unread pc | waited pc | reaped pc | unreaped pc | stopped pc | left pc | prompted pc =>
    cases done.symm.trans pc

/-- A step of a read thread moves that thread and leaves the list of threads
and the main thread where they are. -/
theorem step_thread (taken : step system (.thread index answer) = some next) :
    ∃ thread after pc, system.threads[index]? = some thread ∧
      ThreadMoves system thread answer after pc ∧
      next = { after with threads := after.threads.set index { thread with pc := pc } } := by
  simp only [step] at taken
  split at taken
  · cases taken
  · split at taken
    · cases taken
    · rename_i thread found
      split at taken
      · cases taken
      · rename_i after pc moved
        cases taken
        exact ⟨thread, after, pc, found, threadStep_moves moved, rfl⟩

end ShapeQuake.Executer
