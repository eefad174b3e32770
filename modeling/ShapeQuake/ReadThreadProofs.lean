import Mathlib.Data.List.Nodup
import ShapeQuake.ExecuterInvariants

/-! What a read thread shows of its child's output. From the fork on, what the
thread has passed on followed by what is unread is what the child has written.
The thread leaves its loop when a read fails, which happens with nothing unread,
or when `waitpid` reports the exit, after at most one read of 4096 bytes in that
turn: everything is shown exactly when nothing is unread at that moment. -/
namespace ShapeQuake.ReadThreadProofs
open Library.Runs ShellCore Terminals Executer ExecuterInvariants

/-- The process while nothing is typed. -/
def untyped (system : System) (event : Event) : Option System :=
  match event with
  | .input _ _ => none
  | other => step system other

/-- A `waitpid` that reports an exit finds nothing unread in the child's terminal. -/
def ExitSeenDrained (system : System) : Event → Prop
  | .thread index _ =>
    ∀ thread pid child, system.threads[index]? = some thread → thread.pc = .reap pid →
      system.kernel.children.find? (fun child => child.pid == pid) = some child →
        child.exited = true → system.kernel.unread child.pty = []
  | _ => True

/-- The thread has left its loop. -/
def Past : ThreadPc → Prop
  | .stop | .leave | .prompt | .done => True
  | _ => False

/-- What a thread shows after its last byte. -/
def ending : Option Thread → List Action
  | some ⟨.done, _⟩ => [.flush, .carriageReturn, .prompt]
  | _ => []

/-- No child of this number runs. -/
def Ended (system : System) (pid : Nat) : Prop :=
  ∀ child ∈ system.kernel.children, child.pid = pid → child.exited = true

/-- What the reader relies on at the point it is at. -/
def At (system : System) (pid : Nat) : ThreadPc → Prop
  | .enter | .test | .arm | .load | .wait => system.shell.exec.isThreadRunning = true
  | .poll fd | .read fd =>
    fd = system.shell.exec.masterFd ∧ system.shell.exec.isThreadRunning = true
  | .reap other => other = pid ∧ system.shell.exec.isThreadRunning = true
  | .stop | .leave | .prompt | .done => Ended system pid

private theorem at_of_past (gone : Past pc) : At system pid pc ↔ Ended system pid := by
  cases pc <;> first | rfl | cases gone

/-- How far `shell_executer_spawn` is, and the reader with it. -/
def Stage (system : System) (pid pty : Nat) (reader : Option Thread) : Prop :=
  match system.main with
  | .storePid storing own => storing = pid ∧ own = pty ∧ reader = none
  | .closeSlave own | .setRunning own =>
    own = pty ∧ system.shell.exec.spawnedPid = pid ∧ reader = none
  | .createThread own =>
    own = pty ∧ system.shell.exec.spawnedPid = pid ∧
      system.shell.exec.isThreadRunning = true ∧ reader = none
  | .finish | .ready =>
    system.shell.exec.spawnedPid = pid ∧
      ∀ thread ∈ reader, thread.pty = pty ∧ At system pid thread.pc
  | _ => False

/-- The command has been forked, its reader is the only thread that moves, and
no byte of its output is lost or shown twice so far. -/
structure Session (first : System) (pid pty : Nat) (reader : Option Thread) (system : System) :
    Prop where
  threads : system.threads = first.threads ++ reader.toList
  stage : Stage system pid pty reader
  master : system.kernel.masterOf system.shell.exec.masterFd = some pty
  own : ∀ child ∈ system.kernel.children, child.pid = pid ↔ child.pty = pty
  bytes : ∃ shown, shown ++ system.kernel.unread pty = system.kernel.written pty ∧
    system.trace = first.trace ++ shown.map .dispatchChar ++ ending reader

/-- A reader past its loop has left nothing unread. -/
def Drained (first system : System) : Prop :=
  ∀ thread, system.threads[first.threads.length]? = some thread → Past thread.pc →
    system.kernel.unread thread.pty = []

private theorem reader_of_threads (session : Session first pid pty reader system) :
    system.threads[first.threads.length]? = reader := by
  rw [session.threads, List.getElem?_append_right (Nat.le_refl _), Nat.sub_self]
  cases reader <;> rfl

private theorem reader_at (session : Session first pid pty (some thread) system) :
    thread.pty = pty ∧ At system pid thread.pc ∧ system.shell.exec.spawnedPid = pid ∧
      (system.main = .finish ∨ system.main = .ready) := by
  have stage := session.stage
  unfold Stage at stage
  cases pc : system.main with
  | finish | ready =>
    simp only [pc] at stage
    obtain ⟨spawned, at_⟩ := stage
    obtain ⟨own, here⟩ := at_ thread rfl
    exact ⟨own, here, spawned, by simp⟩
  | _ => simp [pc] at stage

private theorem drained_iff (session : Session first pid pty reader system) :
    Drained first system ↔
      ∀ thread ∈ reader, Past thread.pc → system.kernel.unread pty = [] := by
  unfold Drained
  rw [reader_of_threads session]
  constructor
  · intro drained thread member past
    cases member
    rw [← (reader_at session).1]
    exact drained thread rfl past
  · intro drained thread member past
    subst member
    rw [(reader_at session).1]
    exact drained thread rfl past

private theorem master_nonneg {kernel : Kernel} (master : kernel.masterOf fd = some pty) :
    ¬ fd < 0 := by
  unfold Kernel.masterOf Kernel.lookup at master
  split at master
  · rename_i found
    have same := List.find?_some found
    simp only [beq_iff_eq] at same
    omega
  · cases master

/-- A terminal whose slave end is gone has no running child. -/
private theorem ended_of_hungUp
    (own : ∀ child ∈ system.kernel.children, child.pid = pid ↔ child.pty = pty)
    (gone : system.kernel.hungUp pty = true) : Ended system pid := by
  intro child member same
  unfold Kernel.hungUp at gone
  have exited := (List.all_eq_true.mp (Bool.and_eq_true_iff.mp gone).2) child member
  simpa [(own child member).mp same] using exited

/-- The reported child is the only one of its number. -/
private theorem ended_of_exited (pids : (system.kernel.children.map Child.pid).Nodup)
    (member : child ∈ system.kernel.children) (same : child.pid = pid)
    (exited : child.exited = true) : Ended system pid := by
  intro other inside number
  rw [List.inj_on_of_nodup_map pids inside member (number.trans same.symm)]
  exact exited

/-- What every step of a session shows: it stays one, it keeps the reader's
promise exactly if it meets the condition, and it does not mend a broken one. -/
structure Keeps (first : System) (pid pty : Nat) (system next : System) (event : Event) : Prop where
  session : ∃ reader, Session first pid pty reader next
  drained : Drained first system → (Drained first next ↔ ExitSeenDrained system event)
  lost : Drained first next → Drained first system

/-- A step that leaves the reader's side of the loop and what is unread alone. -/
private theorem keeps_of_same (reader' : Option Thread)
    (session : Session first pid pty reader system)
    (after : Session first pid pty reader' next)
    (past : (∃ thread ∈ reader', Past thread.pc) ↔ ∃ thread ∈ reader, Past thread.pc)
    (unread : (∃ thread ∈ reader, Past thread.pc) →
      next.kernel.unread pty = system.kernel.unread pty)
    (met : ExitSeenDrained system event) : Keeps first pid pty system next event := by
  have same : Drained first next ↔ Drained first system := by
    rw [drained_iff session, drained_iff after]
    constructor
    · intro drained thread member gone
      have before : ∃ thread ∈ reader, Past thread.pc := ⟨thread, member, gone⟩
      obtain ⟨later, inside, stillGone⟩ := past.mpr before
      rw [← unread before]
      exact drained later inside stillGone
    · intro drained thread member gone
      obtain ⟨earlier, inside, before⟩ := past.mp ⟨thread, member, gone⟩
      rw [unread ⟨earlier, inside, before⟩]
      exact drained earlier inside before
  exact ⟨⟨_, after⟩, fun drained => iff_of_true (same.mpr drained) met, same.mp⟩

/-- A step that shows nothing and leaves the terminal and the point of the
reader as they are. -/
private theorem keeps_of_stage (session : Session first pid pty reader system)
    (threads : next.threads = system.threads) (stage : Stage next pid pty reader)
    (master : next.kernel.masterOf next.shell.exec.masterFd = some pty)
    (children : next.kernel.children = system.kernel.children)
    (unread : next.kernel.unread = system.kernel.unread)
    (written : next.kernel.written = system.kernel.written) (trace : next.trace = system.trace)
    (met : ExitSeenDrained system event) : Keeps first pid pty system next event := by
  refine keeps_of_same reader session ?_ Iff.rfl (fun _ => by rw [unread]) met
  refine ⟨threads.trans session.threads, stage, master, ?_, ?_⟩
  · rw [children]
    exact session.own
  · rw [unread, written, trace]
    exact session.bytes

/-- The main thread moves on towards the next byte. -/
private theorem session_main (tidy : Tidy system) (session : Session first pid pty reader system)
    (moves : MainMoves system answer next) :
    Keeps first pid pty system next (.main answer) := by
  have stage := session.stage
  have master := session.master
  unfold Stage at stage
  cases moves with
  | entered pc | opened pc | unopened pc | builtin pc | external pc | forked pc | unforked pc =>
    simp only [pc] at stage
  | storedPid pc =>
    simp only [pc] at stage
    obtain ⟨rfl, rfl, rfl⟩ := stage
    exact keeps_of_stage session rfl ⟨rfl, rfl, rfl⟩ master rfl rfl rfl rfl trivial
  | closedSlave pc =>
    simp only [pc] at stage
    obtain ⟨rfl, spawned, rfl⟩ := stage
    obtain ⟨fd, other, slave⟩ := tidy.slave (by rw [pc]; trivial)
    have closed := Kernel.close_masterOf slave master
    refine keeps_of_stage session rfl ⟨rfl, spawned, rfl⟩ closed ?_ ?_ ?_ rfl trivial
    all_goals
      unfold Kernel.close
      split <;> rfl
  | running pc =>
    simp only [pc] at stage
    obtain ⟨rfl, spawned, rfl⟩ := stage
    exact keeps_of_stage session rfl ⟨rfl, spawned, rfl, rfl⟩ master rfl rfl rfl rfl trivial
  | @created own pc =>
    simp only [pc] at stage
    obtain ⟨rfl, spawned, running, rfl⟩ := stage
    apply keeps_of_same (some ⟨.enter, own⟩) session
    · refine ⟨?_, ⟨spawned, fun thread same => ?_⟩, master, session.own, session.bytes⟩
      · rw [session.threads]
        simp
      · cases same
        exact ⟨rfl, running⟩
    · simp [Past]
    · exact fun _ => rfl
    · trivial
  | uncreated pc =>
    simp only [pc] at stage
    obtain ⟨rfl, spawned, running, rfl⟩ := stage
    exact keeps_of_stage session rfl ⟨spawned, by simp⟩ master rfl rfl rfl rfl trivial
  | finished pc =>
    simp only [pc] at stage
    exact keeps_of_stage session rfl stage master rfl rfl rfl rfl trivial

/-- Only the reader can move, since the threads before it are done. -/
private theorem session_reader (old : ∀ thread ∈ first.threads, thread.pc = .done)
    (session : Session first pid pty reader system) (found : system.threads[index]? = some thread)
    (moves : ThreadMoves system thread answer after pc) :
    reader = some thread ∧ index = first.threads.length ∧
      system.threads.set index { thread with pc := pc } =
        first.threads ++ [{ thread with pc := pc }] := by
  have threads := session.threads
  rw [threads] at found
  have late : ¬ index < first.threads.length := by
    intro early
    rw [List.getElem?_append_left early] at found
    exact moves_not_done moves (old thread (List.mem_of_getElem? found))
  rw [List.getElem?_append_right (by omega)] at found
  cases reader with
  | none => simp at found
  | some reader =>
    have last : index = first.threads.length := by
      have bound := (List.getElem?_eq_some_iff.mp found).1
      simp at bound
      omega
    subst last
    simp only [Option.toList_some, Nat.sub_self, List.getElem?_cons_zero, Option.some.injEq] at found
    subst found
    refine ⟨rfl, rfl, ?_⟩
    rw [threads]
    simp

/-- The stage of a command whose reader has moved to another point. -/
private theorem stage_of_at (session : Session first pid pty (some thread) system)
    (main : next.main = system.main)
    (spawned : next.shell.exec.spawnedPid = system.shell.exec.spawnedPid)
    (here : At next pid pc) : Stage next pid pty (some { thread with pc := pc }) := by
  obtain ⟨own, _, same, resting⟩ := reader_at session
  unfold Stage
  rcases resting with at_ | at_
  all_goals
    rw [main, at_]
    refine ⟨spawned.trans same, fun other member => ?_⟩
    cases member
    exact ⟨own, here⟩

private theorem ending_open {thread : Thread} (going : thread.pc ≠ .done) :
    ending (some thread) = [] := by
  obtain ⟨pc, pty⟩ := thread
  unfold ending
  split
  · rename_i same
    cases same
    exact absurd rfl going
  · rfl

/-- A step of the reader that moves only the point it is at. -/
private theorem keeps_of_point (session : Session first pid pty (some thread) system)
    (at_ : thread.pc = before) (here : At system pid after) (loops : ¬ Past before)
    (stays : ¬ Past after) (met : ExitSeenDrained system event) :
    Keeps first pid pty system
      { system with threads := first.threads ++ [{ thread with pc := after }] } event := by
  refine keeps_of_same (some { thread with pc := after }) session ?_ ?_ (fun _ => rfl) met
  · refine ⟨rfl, stage_of_at session rfl rfl here, session.master, session.own, ?_⟩
    have bytes := session.bytes
    rw [ending_open fun done => loops (by rw [← at_, done]; trivial)] at bytes
    rw [ending_open fun done => stays (by rw [show after = .done from done]; trivial)]
    exact bytes
  · apply iff_of_false
    · rintro ⟨other, member, past⟩
      cases member
      exact stays past
    · rintro ⟨other, member, past⟩
      cases member
      rw [at_] at past
      exact loops past

/-- The condition asks nothing of a thread that is not about to reap. -/
private theorem met_unless_reaping (session : Session first pid pty (some thread) system)
    (other : ∀ number, thread.pc ≠ .reap number) :
    ExitSeenDrained system (.thread first.threads.length answer) := by
  intro reader number child found reaping
  rw [reader_of_threads session] at found
  cases found
  exact absurd reaping (other number)

/-- The reader passes its loop with nothing unread, or stays past it. -/
private theorem keeps_past (pc : ThreadPc)
    (session : Session first pid pty (some thread) system)
    (after : Session first pid pty (some { thread with pc := pc }) next)
    (unread : next.kernel.unread pty = system.kernel.unread pty)
    (gone : Past pc) (safe : Past thread.pc ∨ system.kernel.unread pty = [])
    (met : ExitSeenDrained system event) : Keeps first pid pty system next event := by
  have exact_ : Drained first next ↔ system.kernel.unread pty = [] := by
    rw [drained_iff after, ← unread]
    exact ⟨fun drained => drained _ rfl gone, fun empty _ _ _ => empty⟩
  have before : Drained first system ↔ (Past thread.pc → system.kernel.unread pty = []) := by
    rw [drained_iff session]
    exact ⟨fun drained => drained _ rfl, fun drained other member => by cases member; exact drained⟩
  refine ⟨⟨_, after⟩, fun drained => iff_of_true ?_ met, fun drained => ?_⟩
  · rw [exact_]
    rcases safe with past | empty
    · exact before.mp drained past
    · exact empty
  · rw [before]
    exact fun _ => exact_.mp drained

/-- What a reader that is not done yet has shown. -/
private theorem shown_so_far (session : Session first pid pty (some thread) system)
    (at_ : thread.pc = before) (going : before ≠ .done) :
    ∃ shown, shown ++ system.kernel.unread pty = system.kernel.written pty ∧
      system.trace = first.trace ++ shown.map .dispatchChar := by
  obtain ⟨shown, whole, trace⟩ := session.bytes
  rw [ending_open (at_ ▸ going), List.append_nil] at trace
  exact ⟨shown, whole, trace⟩

/-- The reader shows what its read takes. -/
private theorem session_took (session : Session first pid pty (some thread) system)
    (at_ : thread.pc = .read fd)
    (ran : system.kernel.read thread.pty fd (some count) = some (bytes, kernel)) :
    Keeps first pid pty system
      { system with
        kernel := kernel
        trace := system.trace ++ bytes.map .dispatchChar
        threads := first.threads ++ [{ thread with pc := .wait }] }
      (.thread first.threads.length answer) := by
  obtain ⟨_, here, _, _⟩ := reader_at session
  rw [at_] at here
  obtain ⟨from_, same, _, rfl, rfl⟩ := Kernel.read_some ran
  rw [here.1] at same
  cases session.master.symm.trans same
  obtain ⟨shown, whole, trace⟩ := shown_so_far session at_ nofun
  have loops : ¬ ∃ reader ∈ some thread, Past reader.pc := by
    rintro ⟨_, member, past⟩
    cases member
    rw [at_] at past
    exact past
  refine keeps_of_same (some { thread with pc := .wait }) session ?_ ?_
    (fun past => absurd past loops)
    (met_unless_reaping session fun number same => nomatch at_.symm.trans same)
  · refine ⟨rfl, stage_of_at session rfl rfl here.2, session.master, session.own,
      shown ++ (system.kernel.unread pty).take count, ?_, ?_⟩
    · simp only [↓reduceIte, List.append_assoc, List.take_append_drop]
      exact whole
    · rw [ending_open (by simp), trace]
      simp
  · apply iff_of_false
    · rintro ⟨_, member, past⟩
      cases member
      exact past
    · exact loops

/-- The step that can break the promise: `waitpid` reports the exit and the loop
ends, whatever is unread. -/
private theorem session_reaped (tidy : Tidy system)
    (session : Session first pid pty (some thread) system) (at_ : thread.pc = .reap number)
    (ran : system.kernel.waitpid thread.pty number = (true, kernel)) :
    Keeps first pid pty system
      { system with
        kernel := kernel
        threads := first.threads ++ [{ thread with pc := .stop }] }
      (.thread first.threads.length answer) := by
  obtain ⟨_, here, _, _⟩ := reader_at session
  rw [at_] at here
  obtain ⟨rfl, _⟩ := here
  obtain ⟨child, member, same, exited, found, rfl⟩ := Kernel.waitpid_true ran
  have childPty : child.pty = pty := (session.own child member).mp same
  have ended := ended_of_exited tidy.pids member same exited
  obtain ⟨shown, whole, trace⟩ := shown_so_far session at_ nofun
  have after : Session first number pty (some { thread with pc := .stop })
      { system with
        kernel := { system.kernel with
          children := system.kernel.children.erase child
          log := system.kernel.log ++ [.reaped thread.pty child.pty] }
        threads := first.threads ++ [{ thread with pc := .stop }] } := by
    refine ⟨rfl, stage_of_at session rfl rfl ?_, session.master, ?_, shown, whole, ?_⟩
    · exact fun other inside => ended other (List.mem_of_mem_erase inside)
    · exact fun other inside => session.own other (List.mem_of_mem_erase inside)
    · rw [ending_open (by simp), List.append_nil]
      exact trace
  have promise : Drained first system := by
    rw [drained_iff session]
    intro _ same past
    cases same
    rw [at_] at past
    exact absurd past id
  refine ⟨⟨_, after⟩, fun _ => ?_, fun _ => promise⟩
  rw [drained_iff after]
  constructor
  · intro drained reader pid other reading reaping report _
    rw [reader_of_threads session] at reading
    cases reading
    cases at_.symm.trans reaping
    cases found.symm.trans report
    rw [childPty]
    exact drained _ rfl trivial
  · intro met _ _ _
    have empty := met thread number child (reader_of_threads session) at_ found exited
    rwa [childPty] at empty

/-- The reader moves on past its loop, with nothing unread when it leaves it,
and shows nothing. -/
private theorem keeps_leaving (pc : ThreadPc)
    (session : Session first pid pty (some thread) system)
    (at_ : thread.pc = before) (reaps : ∀ number, before ≠ .reap number)
    (goes : before ≠ .done) (gone : Past pc) (going : pc ≠ .done)
    (safe : Past before ∨ system.kernel.unread pty = [])
    (spawned : shell.exec.spawnedPid = system.shell.exec.spawnedPid)
    (master : shell.exec.masterFd = system.shell.exec.masterFd) (ended : Ended system pid) :
    Keeps first pid pty system
      { system with shell := shell, threads := first.threads ++ [{ thread with pc := pc }] }
      (.thread first.threads.length answer) := by
  obtain ⟨shown, whole, trace⟩ := shown_so_far session at_ goes
  refine keeps_past pc session ?_ rfl gone (at_ ▸ safe)
    (met_unless_reaping session fun number same => reaps number (at_.symm.trans same))
  refine ⟨rfl, stage_of_at session rfl spawned ((at_of_past gone).mpr ended), ?_, session.own,
    shown, whole, ?_⟩
  · rw [master]
    exact session.master
  · rw [ending_open going, List.append_nil]
    exact trace

/-- The reader moves on. Of all its steps only the one that reports the exit
can break the promise. -/
private theorem session_thread (tidy : Tidy system)
    (session : Session first pid pty (some thread) system)
    (moves : ThreadMoves system thread answer next pc) :
    Keeps first pid pty system
      { next with threads := first.threads ++ [{ thread with pc := pc }] }
      (.thread first.threads.length answer) := by
  obtain ⟨own, here, spawned, resting⟩ := reader_at session
  have master := session.master
  have other : ∀ {point}, thread.pc = point → (∀ number, point ≠ .reap number) →
      ExitSeenDrained system (.thread first.threads.length answer) :=
    fun at_ apart => met_unless_reaping session fun number same => apart number (at_.symm.trans same)
  cases moves with
  | entered at_ =>
    rw [if_neg (master_nonneg master)]
    rw [at_] at here
    exact keeps_of_point session at_ here id id (other at_ (by simp))
  | tested at_ =>
    rw [at_] at here
    rw [show system.shell.exec.isThreadRunning = true from here, if_pos rfl]
    exact keeps_of_point session at_ here id id (other at_ (by simp))
  | armed at_ =>
    rw [at_] at here
    exact keeps_of_point session at_ ⟨rfl, here⟩ id id (other at_ (by simp))
  | reported at_ | timedOut at_ =>
    rw [at_] at here
    exact keeps_of_point session at_ here.2 id id (other at_ (by simp))
  | loaded at_ =>
    rw [at_] at here
    exact keeps_of_point session at_ ⟨rfl, here⟩ id id (other at_ (by simp))
  | took at_ ran => exact session_took session at_ ran
  | unread at_ ran =>
    rw [at_] at here
    obtain ⟨rfl, drained⟩ := Kernel.read_none ran
    -- a read fails when the slave end is gone and nothing is left to read
    obtain ⟨empty, gone⟩ := drained pty (by rw [here.1]; exact master)
    exact keeps_leaving .leave session at_ nofun nofun trivial nofun (Or.inr empty) rfl rfl
      (ended_of_hungUp session.own gone)
  | waited at_ =>
    rw [at_] at here
    exact keeps_of_point session at_ ⟨spawned, here⟩ id id (other at_ (by simp))
  | reaped at_ ran => exact session_reaped tidy session at_ ran
  | unreaped at_ ran =>
    rw [at_] at here
    obtain ⟨rfl, running⟩ := Kernel.waitpid_false ran
    refine keeps_of_point session at_ here.2 id id ?_
    intro reader pid child reading reaping found exited
    rw [reader_of_threads session] at reading
    cases reading
    cases at_.symm.trans reaping
    rw [running child found] at exited
    cases exited
  | stopped at_ =>
    rw [at_] at here
    exact keeps_leaving .leave session at_ nofun nofun trivial nofun (Or.inl trivial) rfl rfl here
  | left at_ =>
    rw [at_] at here
    rw [tidy.base]
    exact keeps_leaving .prompt session at_ nofun nofun trivial nofun (Or.inl trivial) rfl rfl here
  | prompted at_ =>
    rw [at_] at here
    obtain ⟨shown, whole, trace⟩ := shown_so_far session at_ nofun
    refine keeps_past .done session ?_ rfl trivial (Or.inl (by rw [at_]; trivial)) (other at_ (by simp))
    refine ⟨rfl, stage_of_at session rfl rfl here, master, session.own, shown, whole, ?_⟩
    have prompt : shellUiPutPrompt system.shell false = [.carriageReturn, .prompt] := by
      unfold shellUiPutPrompt shellContextGetState
      rw [tidy.idle]
      rfl
    simp only [prompt, trace]
    rfl

/-- A step that changes the kernel alone leaves the stage. -/
private theorem stage_kernel {system : System} (stage : Stage system pid pty reader)
    (ended : Ended system pid → Ended { system with kernel := kernel } pid) :
    Stage { system with kernel := kernel } pid pty reader := by
  have here : ∀ pc, At system pid pc → At { system with kernel := kernel } pid pc := by
    intro pc at_
    cases pc with
    | stop | leave | prompt | done => exact ended at_
    | _ => exact at_
  unfold Stage at stage ⊢
  cases pc : system.main with
  | finish | ready =>
    simp only [pc] at stage ⊢
    exact ⟨stage.1, fun thread member => ⟨(stage.2 thread member).1, here _ (stage.2 thread member).2⟩⟩
  | storePid | closeSlave | setRunning | createThread =>
    simp only [pc] at stage ⊢
    exact stage
  | _ => simp only [pc] at stage

/-- Output of a child: while the command's own child runs, its reader loops. -/
private theorem session_writes (session : Session first pid pty reader system)
    (ran : system.kernel.childWrites number bytes = some kernel) :
    Keeps first pid pty system { system with kernel := kernel } (.childWrites number bytes) := by
  obtain ⟨child, member, _, running, rfl⟩ := Kernel.childWrites_some ran
  obtain ⟨shown, whole, trace⟩ := session.bytes
  have looping : child.pty = pty → ¬ ∃ thread ∈ reader, Past thread.pc := by
    rintro same ⟨thread, inside, past⟩
    cases inside
    have here := (reader_at session).2.1
    have ended := (at_of_past past).mp here
    rw [ended child member ((session.own child member).mpr same)] at running
    cases running
  refine keeps_of_same reader session ?_ Iff.rfl (fun past => ?_) trivial
  · refine ⟨session.threads, stage_kernel session.stage id, session.master, session.own, shown, ?_,
      trace⟩
    by_cases same : pty = child.pty
    · subst same
      simp only [↓reduceIte, ← List.append_assoc, whole]
    · simp only [same, ↓reduceIte, whole]
  · by_cases same : pty = child.pty
    · exact absurd past (looping same.symm)
    · simp only [same, ↓reduceIte]

private theorem session_exits (session : Session first pid pty reader system)
    (ran : system.kernel.childExits number = some kernel) :
    Keeps first pid pty system { system with kernel := kernel } (.childExits number) := by
  obtain ⟨child, member, _, _, rfl⟩ := Kernel.childExits_some ran
  refine keeps_of_same reader session ?_ Iff.rfl (fun _ => rfl) trivial
  refine ⟨session.threads, stage_kernel session.stage ?_, session.master, ?_, session.bytes⟩
  · intro ended other inside same
    rcases List.mem_cons.mp inside with rfl | inside
    · rfl
    · exact ended other (List.mem_of_mem_erase inside) same
  · intro other inside
    rcases List.mem_cons.mp inside with rfl | inside
    · exact session.own child member
    · exact session.own other (List.mem_of_mem_erase inside)

private theorem session_step (old : ∀ thread ∈ first.threads, thread.pc = .done)
    (tidy : Tidy system) (session : Session first pid pty reader system)
    (taken : untyped system event = some next) : Keeps first pid pty system next event := by
  cases event with
  | input b alloc => cases taken
  | main answer => exact session_main tidy session (mainStep_moves taken)
  | thread index answer =>
    obtain ⟨thread, after, pc, found, moves, rfl⟩ := step_thread taken
    obtain ⟨rfl, rfl, threads⟩ := session_reader old session found moves
    rw [(thread_shell moves).2.1, threads]
    exact session_thread tidy session moves
  | childWrites number bytes =>
    obtain ⟨kernel, ran, rfl⟩ := Option.map_eq_some_iff.mp taken
    exact session_writes session ran
  | childExits number =>
    obtain ⟨kernel, ran, rfl⟩ := Option.map_eq_some_iff.mp taken
    exact session_exits session ran

/-! ## From the fork on -/

/-- The command is about to be forked, or could not be. -/
structure Pending (first system : System) : Prop where
  threads : system.threads = first.threads
  trace : (∃ list, system.main = .fork list) → system.trace = first.trace
  main : (∃ list, system.main = .fork list) ∨ system.main = .finish ∨ system.main = .ready ∨
    system.main = .crashed

/-- What is known in every state after the terminal has been opened. -/
def Following (first system : System) : Prop :=
  Tidy system ∧
    (Pending first system ∨ ∃ pid pty reader, Session first pid pty reader system)

private theorem drained_of_pending (pending : Pending first system) : Drained first system := by
  intro thread found
  rw [pending.threads, List.getElem?_eq_none (Nat.le_refl _)] at found
  cases found

/-- Forking starts a session. -/
private theorem session_forked (tidy : Tidy system) (pending : Pending first system)
    (pc : system.main = .fork list)
    (ran : system.kernel.fork pid system.shell.exec.slaveFd = some (pty, kernel)) :
    Session first pid pty none { system with kernel := kernel, main := .storePid pid pty } := by
  obtain ⟨own, opened⟩ := tidy.opened (by rw [pc]; trivial)
  obtain ⟨fd, found⟩ := opened.slave
  obtain ⟨descriptor, same, rfl, unused, rfl⟩ := Kernel.fork_some ran
  cases found.symm.trans same
  refine ⟨by simp [pending.threads], ⟨rfl, rfl, rfl⟩, opened.master, ?_, [], ?_, ?_⟩
  · intro child member
    rcases List.mem_cons.mp member with rfl | member
    · exact iff_of_true rfl rfl
    · exact iff_of_false (unused child member) (opened.childless child member)
  · exact opened.unread.trans opened.unwritten.symm
  · rw [pending.trace ⟨list, pc⟩]
    simp [ending]

private theorem pending_step (old : ∀ thread ∈ first.threads, thread.pc = .done)
    (tidy : Tidy system) (pending : Pending first system)
    (taken : untyped system event = some next) :
    (Pending first next ∨ ∃ pid pty, Session first pid pty none next) ∧
      ExitSeenDrained system event := by
  have threads := pending.threads
  cases event with
  | input b alloc => cases taken
  | main answer =>
    refine ⟨?_, trivial⟩
    cases mainStep_moves taken with
    | forked pc ran => exact Or.inr ⟨_, _, session_forked tidy pending pc ran⟩
    | unforked pc =>
      refine Or.inl ⟨threads, ?_, Or.inr (Or.inr (Or.inr rfl))⟩
      rintro ⟨list, away⟩
      cases away
    | finished pc =>
      refine Or.inl ⟨threads, ?_, Or.inr (Or.inr (Or.inl rfl))⟩
      rintro ⟨list, away⟩
      cases away
    | entered pc | opened pc | unopened pc | builtin pc | external pc | storedPid pc
    | closedSlave pc | running pc | created pc | uncreated pc =>
      rcases pending.main with ⟨list, at_⟩ | at_ | at_ | at_ <;> cases pc.symm.trans at_
  | thread index answer =>
    obtain ⟨thread, after, pc, found, moves, _⟩ := step_thread taken
    rw [threads] at found
    exact absurd (old thread (List.mem_of_getElem? found)) (moves_not_done moves)
  | childWrites number bytes | childExits number =>
    obtain ⟨kernel, _, rfl⟩ := Option.map_eq_some_iff.mp taken
    exact ⟨Or.inl ⟨threads, pending.trace, pending.main⟩, trivial⟩

/-- One step from the fork on: what is known stays known, the promise is kept
exactly if the condition is met, and it is not mended once it is broken. -/
private theorem following_step (old : ∀ thread ∈ first.threads, thread.pc = .done)
    (following : Following first system) (taken : untyped system event = some next) :
    Following first next ∧
      (Drained first system → (Drained first next ↔ ExitSeenDrained system event)) ∧
      (Drained first next → Drained first system) := by
  obtain ⟨tidy, known⟩ := following
  have moved : step system event = some next := by
    cases event with
    | input b alloc => cases taken
    | main | thread | childWrites | childExits => exact taken
  have tidyNext := tidy_step tidy moved
  rcases known with pending | ⟨pid, pty, reader, session⟩
  · obtain ⟨later, met⟩ := pending_step old tidy pending taken
    refine ⟨⟨tidyNext, ?_⟩, fun _ => ?_, fun _ => drained_of_pending pending⟩
    · rcases later with pending | ⟨pid, pty, session⟩
      · exact Or.inl pending
      · exact Or.inr ⟨pid, pty, none, session⟩
    · refine iff_of_true ?_ met
      rcases later with pending | ⟨pid, pty, session⟩
      · exact drained_of_pending pending
      · rw [drained_iff session]
        intro thread member
        cases member
  · obtain ⟨⟨reader, after⟩, exact_, lost⟩ := session_step old tidy session taken
    exact ⟨⟨tidyNext, Or.inr ⟨pid, pty, reader, after⟩⟩, exact_, lost⟩

/-- A command forked when no earlier read thread is left, up to the end of its
own: everything the child has written is shown, in order and once, before the
prompt, exactly when each `waitpid` that reports an exit comes with nothing
unread in the terminal. -/
theorem output_shown_iff_exit_seen_drained {before after : List Event} {first final : System}
    (reached : exec step boot before = some first) (forking : first.main = .fork list)
    (old : ∀ thread ∈ first.threads, thread.pc = .done)
    (ran : exec untyped first after = some final)
    (ended : final.threads[first.threads.length]? = some ⟨.done, pty⟩) :
    final.trace = first.trace ++ (final.kernel.written pty).map .dispatchChar ++
        [.flush, .carriageReturn, .prompt] ↔
      EachStep untyped ExitSeenDrained first after := by
  have pending : Pending first first := ⟨rfl, fun _ => rfl, Or.inl ⟨list, forking⟩⟩
  have start : Following first first := ⟨tidy_reached reached, Or.inl pending⟩
  have last : Following first final :=
    exec_invariant (fun _ _ _ known taken => (following_step old known taken).1) start ran
  rw [← throughout_iff_each_step
      (fun _ _ _ known _ _ taken => (following_step old known taken).1)
      (fun _ _ _ known drained taken => (following_step old known taken).2.1 drained)
      start (drained_of_pending pending),
    throughout_iff_final (fun _ _ _ known taken => (following_step old known taken).1)
      (fun _ _ _ known taken => (following_step old known taken).2.2) start ran]
  rcases last.2 with pending | ⟨pid, own, reader, session⟩
  · rw [pending.threads, List.getElem?_eq_none (Nat.le_refl _)] at ended
    cases ended
  · rw [reader_of_threads session] at ended
    subst ended
    obtain ⟨rfl, _⟩ := reader_at session
    obtain ⟨shown, whole, trace⟩ := session.bytes
    rw [drained_iff session, trace, ← whole]
    constructor
    · intro same _ _ _
      -- the same ending on both sides leaves no room for unread bytes
      have lengths := congrArg List.length same
      simp only [ending, List.map_append, List.length_append, List.length_map] at lengths
      show final.kernel.unread pty = []
      exact List.eq_nil_of_length_eq_zero (by omega)
    · intro drained
      rw [drained _ rfl trivial, List.append_nil]
      rfl

/-- The line `l`, up to the fork. -/
def launch : List Event :=
  [.input 0x6c fun _ => true, .input 0x0d fun _ => true, .main .ok, .main (.pair 3 4), .main .ok]

/-- From the fork to the first `poll` of the read thread. -/
def started : List Event :=
  [.main (.number 100), .main .ok, .main .ok, .main .ok, .main .ok, .main .ok,
    .thread 0 .ok, .thread 0 .ok, .thread 0 .ok]

/-- From `waitpid` to the return of the read thread. -/
def collected : List Event :=
  [.thread 0 .ok, .thread 0 .ok, .thread 0 .ok, .thread 0 .ok, .thread 0 .ok]

/-- A run whose child writes before the poll: its byte is read before its exit
is seen. -/
theorem byte_before_poll_is_drained :
    ∃ first, exec step boot launch = some first ∧
      EachStep untyped ExitSeenDrained first
        (started ++ [.childWrites 100 [0x61], .childExits 100, .thread 0 .ok, .thread 0 .ok,
          .thread 0 (.number 1)] ++ collected) := by
  obtain ⟨first, reached, forking⟩ := Option.map_eq_some_iff.mp
    (show (exec step boot launch).map (fun system => (system.main, system.threads)) =
      some (.fork ⟨some [0x6c] :: List.replicate 7 none, 1, 8⟩, []) by decide +kernel)
  simp only [Prod.mk.injEq] at forking
  have ran : ((exec step boot launch).bind fun first =>
      (exec untyped first (started ++ [.childWrites 100 [0x61], .childExits 100, .thread 0 .ok,
        .thread 0 .ok, .thread 0 (.number 1)] ++ collected)).map
        fun final => (final.threads[0]?, decide (final.trace = first.trace ++
          (final.kernel.written 0).map .dispatchChar ++ [.flush, .carriageReturn, .prompt]))) =
      some (some ⟨.done, 0⟩, true) := by
    decide +kernel
  rw [reached] at ran
  obtain ⟨final, after, seen⟩ := Option.map_eq_some_iff.mp ran
  simp only [Prod.mk.injEq, decide_eq_true_eq] at seen
  refine ⟨first, reached, ?_⟩
  apply (output_shown_iff_exit_seen_drained reached forking.1 (by simp [forking.2]) after
    (by rw [forking.2]; exact seen.1)).mp
  exact seen.2

/-- A child that writes and exits after a poll that timed out: `waitpid` ends
the loop and the byte is never shown. -/
theorem byte_after_poll_is_lost :
    ¬ ∀ before after first final list pty, exec step boot before = some first →
      first.main = .fork list → (∀ thread ∈ first.threads, thread.pc = .done) →
      exec untyped first after = some final →
      final.threads[first.threads.length]? = some ⟨.done, pty⟩ →
      final.trace = first.trace ++ (final.kernel.written pty).map .dispatchChar ++
        [.flush, .carriageReturn, .prompt] := by
  intro shown
  obtain ⟨first, reached, forking⟩ := Option.map_eq_some_iff.mp
    (show (exec step boot launch).map (fun system => (system.main, system.threads)) =
      some (.fork ⟨some [0x6c] :: List.replicate 7 none, 1, 8⟩, []) by decide +kernel)
  simp only [Prod.mk.injEq] at forking
  have ran : ((exec step boot launch).bind fun first =>
      (exec untyped first (started ++ [.thread 0 .failed, .childWrites 100 [0x61],
        .childExits 100] ++ collected)).map
        fun final => (final.threads[0]?, decide (final.trace = first.trace ++
          (final.kernel.written 0).map .dispatchChar ++ [.flush, .carriageReturn, .prompt]))) =
      some (some ⟨.done, 0⟩, false) := by
    decide +kernel
  rw [reached] at ran
  obtain ⟨final, after, seen⟩ := Option.map_eq_some_iff.mp ran
  simp only [Prod.mk.injEq, decide_eq_false_iff_not] at seen
  exact seen.2 (shown _ _ first final _ 0 reached forking.1 (by simp [forking.2]) after
    (by rw [forking.2]; exact seen.1))

end ShapeQuake.ReadThreadProofs
