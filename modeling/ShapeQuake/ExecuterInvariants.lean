import ShapeQuake.Executer

/-! What holds in every state of the process, whatever is typed and however
threads and children interleave: the state is idle, the back pointer is set, and
from its `openpty` until its `fork` a command has a terminal of its own. -/
namespace ShapeQuake.ExecuterInvariants
open ShellCore Terminals Executer

/-- The executer refers to a terminal that no child has used. -/
structure Opened (kernel : Kernel) (exec : ShellExecuter) (pty : Nat) : Prop where
  master : kernel.masterOf exec.masterFd = some pty
  slave : ∃ fd, kernel.lookup exec.slaveFd = some ⟨fd, pty, .slave⟩
  childless : ∀ child ∈ kernel.children, child.pty ≠ pty
  unwritten : kernel.written pty = []
  unread : kernel.unread pty = []
  below : pty < kernel.ptys

/-- The main thread is between `openpty` and `fork`. -/
def BeforeFork : MainPc → Prop
  | .dispatch _ | .fork _ => True
  | _ => False

/-- The main thread has forked and not yet closed the slave. -/
def KeepsSlave : MainPc → Prop
  | .storePid _ _ | .closeSlave _ => True
  | _ => False

structure Tidy (system : System) : Prop where
  idle : system.shell.ctx.state = .idle
  base : system.shell.exec.shellContext = some .base
  children : ∀ child ∈ system.kernel.children, child.pty < system.kernel.ptys
  pids : (system.kernel.children.map Child.pid).Nodup
  fresh : ∀ pty, system.kernel.ptys ≤ pty →
    system.kernel.written pty = [] ∧ system.kernel.unread pty = []
  opened : BeforeFork system.main → ∃ pty, Opened system.kernel system.shell.exec pty
  slave : KeepsSlave system.main →
    ∃ fd pty, system.kernel.lookup system.shell.exec.slaveFd = some ⟨fd, pty, .slave⟩

theorem tidy_boot : Tidy boot where
  idle := rfl
  base := rfl
  children := by simp [boot, quiet]
  pids := List.nodup_nil
  fresh := fun _ _ => ⟨rfl, rfl⟩
  opened := fun before => absurd before id
  slave := fun keeps => absurd keeps id

private theorem lookup_others {before after : Kernel} (others : Kernel.Others before after) (fd : Int) :
    after.lookup fd = before.lookup fd := by
  unfold Kernel.lookup
  rw [others.descriptors]

theorem masterOf_others {before after : Kernel} (others : Kernel.Others before after) (fd : Int) :
    after.masterOf fd = before.masterOf fd := by
  unfold Kernel.masterOf
  rw [lookup_others others]

theorem opened_others (opened : Opened kernel exec pty) (others : Kernel.Others kernel after) :
    Opened after exec pty := by
  obtain ⟨master, slave, childless, unwritten, unread, below⟩ := opened
  obtain ⟨written, unreadKept⟩ := others.silent pty childless
  refine ⟨?_, ?_, fun child member => ?_, written.trans unwritten, unreadKept unread, ?_⟩
  · rwa [masterOf_others others]
  · rwa [lookup_others others]
  · obtain ⟨old, inside, _, same⟩ := others.children child member
    rw [same]
    exact childless old inside
  · rwa [others.ptys]

/-- Threads and children keep the process tidy, whatever running flag they leave. -/
private theorem tidy_others (tidy : Tidy system) (others : Kernel.Others system.kernel next.kernel)
    (main : next.main = system.main) (idle : next.shell.ctx.state = .idle)
    (base : next.shell.exec.shellContext = system.shell.exec.shellContext)
    (masterFd : next.shell.exec.masterFd = system.shell.exec.masterFd)
    (slaveFd : next.shell.exec.slaveFd = system.shell.exec.slaveFd) : Tidy next where
  idle := idle
  base := base.trans tidy.base
  children := by
    intro child member
    obtain ⟨old, inside, _, same⟩ := others.children child member
    rw [same, others.ptys]
    exact tidy.children old inside
  pids := others.pids tidy.pids
  fresh := by
    intro pty new
    rw [others.ptys] at new
    obtain ⟨unwritten, unread⟩ := tidy.fresh pty new
    have childless : ∀ child ∈ system.kernel.children, child.pty ≠ pty := by
      intro child member same
      have below := tidy.children child member
      omega
    obtain ⟨written, unreadKept⟩ := others.silent pty childless
    exact ⟨written.trans unwritten, unreadKept unread⟩
  opened := by
    intro before
    rw [main] at before
    obtain ⟨pty, opened⟩ := tidy.opened before
    obtain ⟨master, slave, childless, unwritten, unread, below⟩ := opened_others opened others
    refine ⟨pty, ?_, ?_, childless, unwritten, unread, below⟩
    · rwa [masterFd]
    · rwa [slaveFd]
  slave := by
    intro keeps
    rw [main] at keeps
    rw [slaveFd, lookup_others others]
    exact tidy.slave keeps

private theorem thread_others (moves : ThreadMoves system thread answer next pc) :
    Kernel.Others system.kernel next.kernel := by
  cases moves with
  | took _ ran | unread _ ran => exact Kernel.read_others ran
  | reaped _ ran | unreaped _ ran => exact Kernel.waitpid_others ran
  | _ => exact Kernel.others_refl _

/-- A thread moves nothing of the shell but the running flag and the state. -/
theorem thread_shell (moves : ThreadMoves system thread answer next pc) :
    next.main = system.main ∧ next.threads = system.threads ∧
      next.shell.exec.masterFd = system.shell.exec.masterFd ∧
      next.shell.exec.slaveFd = system.shell.exec.slaveFd ∧
      next.shell.exec.spawnedPid = system.shell.exec.spawnedPid ∧
      next.shell.exec.shellContext = system.shell.exec.shellContext ∧
      (system.shell.ctx.state = .idle → system.shell.exec.shellContext = some .base →
        next.shell.ctx.state = .idle) := by
  cases moves with
  | left =>
    refine ⟨rfl, rfl, ?_⟩
    simp only [setState_exec, true_and]
    intro _ base
    rw [base]
    rfl
  | _ => exact ⟨rfl, rfl, rfl, rfl, rfl, rfl, fun idle _ => idle⟩

private theorem opened_openpty (tidy : Tidy system)
    (ran : system.kernel.openpty master slave = some kernel) :
    Opened kernel { system.shell.exec with masterFd := master, slaveFd := slave }
      system.kernel.ptys := by
  obtain ⟨_, _, distinct, rfl⟩ := Kernel.openpty_some ran
  obtain ⟨unwritten, unread⟩ := tidy.fresh system.kernel.ptys (Nat.le_refl _)
  refine ⟨?_, ⟨slave, ?_⟩, ?_, unwritten, unread, Nat.lt_succ_self _⟩
  · simp [Kernel.masterOf, Kernel.lookup]
  · have apart : ¬ (master : Int) = slave := fun same => distinct (Int.ofNat.inj same)
    simp [Kernel.lookup, apart]
  · intro child member same
    have below := tidy.children child member
    omega

private theorem tidy_main (tidy : Tidy system) (moves : MainMoves system answer next) :
    Tidy next := by
  obtain ⟨idle, base, children, pids, fresh, opened, slave⟩ := tidy
  cases moves with
  | entered pc =>
    refine ⟨?_, ?_, children, pids, fresh, fun before => absurd before id,
      fun keeps => absurd keeps id⟩
    · rw [base]
      exact idle
    · rw [setState_exec]
      exact base
  | @opened _ _ _ kernel pc ran =>
    have own := opened_openpty ⟨idle, base, children, pids, fresh, opened, slave⟩ ran
    obtain ⟨_, _, _, rfl⟩ := Kernel.openpty_some ran
    rw [if_neg (by rw [base]; exact fun null => by cases null)]
    refine ⟨idle, base, fun child member => ?_, pids, fun pty new => ?_, fun _ => ⟨_, own⟩,
      fun keeps => absurd keeps id⟩
    · exact Nat.lt_succ_of_lt (children child member)
    · exact fresh pty (Nat.le_of_succ_le new)
  | external pc missing =>
    have before : BeforeFork system.main := by
      rw [pc]
      trivial
    exact ⟨idle, base, children, pids, fresh, fun _ => opened before, fun keeps => absurd keeps id⟩
  | forked pc ran =>
    obtain ⟨pty, own⟩ := opened (by rw [pc]; trivial)
    obtain ⟨fd, found⟩ := own.slave
    obtain ⟨descriptor, same, rfl, unused, rfl⟩ := Kernel.fork_some ran
    cases found.symm.trans same
    refine ⟨idle, base, fun child member => ?_, List.nodup_cons.mpr ⟨?_, pids⟩, fresh,
      fun before => absurd before id, fun _ => ⟨fd, pty, found⟩⟩
    · rcases List.mem_cons.mp member with rfl | member
      · exact own.below
      · exact children child member
    · intro taken
      obtain ⟨child, member, same⟩ := List.mem_map.mp taken
      exact unused child member same
  | storedPid pc =>
    have keeps : KeepsSlave system.main := by
      rw [pc]
      trivial
    exact ⟨idle, base, children, pids, fresh, fun before => absurd before id, fun _ => slave keeps⟩
  | closedSlave pc =>
    refine ⟨idle, base, ?_, ?_, ?_, fun before => absurd before id, fun keeps => absurd keeps id⟩
    all_goals
      unfold Kernel.close
      split <;> assumption
  | unopened pc | builtin pc found | unforked pc | running pc | created pc | uncreated pc
  | finished pc =>
    exact ⟨idle, base, children, pids, fresh, fun before => absurd before id,
      fun keeps => absurd keeps id⟩

theorem tidy_step (tidy : Tidy system) (taken : step system event = some next) : Tidy next := by
  cases event with
  | input b alloc =>
    obtain ⟨idle, base, children, pids, fresh, _, _⟩ := tidy
    simp only [step, inputStep] at taken
    split at taken
    · rename_i ready
      split at taken
      · cases taken
      · rename_i ran
        cases taken
        obtain ⟨ctx, exec⟩ := shellInputByte_context ran
        refine ⟨?_, ?_, children, pids, fresh, fun before => ?_, fun keeps => ?_⟩
        · rw [ctx]
          exact idle
        · rw [exec]
          exact base
        · rw [ready.1] at before
          exact absurd before id
        · rw [ready.1] at keeps
          exact absurd keeps id
      · rename_i ran
        cases taken
        obtain ⟨ctx, exec⟩ := shellInputByte_context ran
        refine ⟨?_, exec, children, pids, fresh, fun before => absurd before id,
          fun keeps => absurd keeps id⟩
        rw [ctx]
        exact idle
    · cases taken
  | main answer => exact tidy_main tidy (mainStep_moves taken)
  | thread index answer =>
    obtain ⟨thread, after, pc, _, moves, rfl⟩ := step_thread taken
    obtain ⟨main, _, masterFd, slaveFd, _, base, idle⟩ := thread_shell moves
    have others := thread_others moves
    exact tidy_others tidy others main (idle tidy.idle tidy.base) base masterFd slaveFd
  | childWrites pid bytes =>
    obtain ⟨kernel, ran, rfl⟩ := Option.map_eq_some_iff.mp taken
    exact tidy_others tidy (Kernel.childWrites_others ran) rfl tidy.idle rfl rfl rfl
  | childExits pid =>
    obtain ⟨kernel, ran, rfl⟩ := Option.map_eq_some_iff.mp taken
    exact tidy_others tidy (Kernel.childExits_others ran) rfl tidy.idle rfl rfl rfl

/-- Every state the process reaches is tidy. -/
theorem tidy_reached (ran : Library.Runs.exec step boot events = some system) : Tidy system :=
  Library.Runs.exec_invariant (fun _ _ _ tidy taken => tidy_step tidy taken) tidy_boot ran

end ShapeQuake.ExecuterInvariants
