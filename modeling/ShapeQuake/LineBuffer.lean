import ShapeQuake.LineEditorProofs

/-! The bounds of the command line buffer. Each handler changes length and contents
on its own, a blank line stays, and a spawn stores its state over the first bytes of
a line that is cleared afterwards; between two bytes the rest of the buffer is zero
all the same. -/
namespace ShapeQuake.LineBuffer
open Library.Bytes Library.Runs ShellCore Executer LineEditorProofs

/-- The indices of the command line buffer at which the handler of a byte stores. -/
def storesOf (shell : Shell) (b : UInt8) : List Nat :=
  if b = 0x0d ∨ b = 0x0a then []
  else if b = 0x7f ∨ b = 0x08 then
    if shell.commandLineLen > 0 then [shell.commandLineLen - 1] else []
  else if shell.commandLineLen < commandLineBufSize - 1 then
    [shell.commandLineLen, shell.commandLineLen + 1]
  else []

/-- The line leaves room for a null, and the buffer is zero behind it. -/
structure ZeroTail (shell : Shell) : Prop where
  short : shell.commandLineLen ≤ 1023
  tail : ∀ i, shell.commandLineLen ≤ i → i < commandLineBufSize → shell.commandLineBuffer i = 0

/-- What the next byte can rely on: the stores of its handler are in bounds, they are
all it changes when it returns, and the tokenizer finds a terminator. -/
structure Bounded (shell : Shell) : Prop where
  zeroTail : ZeroTail shell
  inside : ∀ b, ∀ i ∈ storesOf shell b, i < commandLineBufSize
  only : ∀ b alloc after stop actions,
    shellInputByte shell b alloc = some (.returned after stop actions) →
      ∀ i, i ∉ storesOf shell b → after.commandLineBuffer i = shell.commandLineBuffer i
  terminated : ∃ i < commandLineBufSize, shell.commandLineBuffer i = 0 ∧
    cString shell.commandLineBuffer commandLineBufSize ≠ none

/-- Between two input bytes the line is bounded. -/
def BetweenBytes (system : System) : Prop := system.main = .ready → Bounded system.shell

/-! ## The handlers -/

/-- A handler of the line's end that returns has left the shell as it was. -/
private theorem execute_returned
    (ran : shellCbExecuteDefault shell alloc = some (.returned after stop actions)) : after = shell := by
  unfold shellCbExecuteDefault at ran
  obtain ⟨line, _, ran⟩ := Option.bind_eq_some_iff.mp ran
  obtain ⟨result, _, ran⟩ := Option.bind_eq_some_iff.mp ran
  split at ran
  · cases ran
    rfl
  · split at ran
    · cases ran
      rfl
    · obtain ⟨first, _, ran⟩ := Option.bind_eq_some_iff.mp ran
      split at ran
      · cases ran
        rfl
      · cases ran

/-- What a byte makes of the line when its handler returns. -/
inductive Handled (shell : Shell) (b : UInt8) : Shell → Prop
  | kept : Handled shell b shell
  | shortened (more : 0 < shell.commandLineLen)
      (stores : storesOf shell b = [shell.commandLineLen - 1]) :
      Handled shell b { shell with
        commandLineBuffer := writeBytes shell.commandLineBuffer (shell.commandLineLen - 1) [0]
        commandLineLen := shell.commandLineLen - 1 }
  | appended (room : shell.commandLineLen < 1023)
      (stores : storesOf shell b = [shell.commandLineLen, shell.commandLineLen + 1]) :
      Handled shell b { shell with
        commandLineBuffer := writeBytes (writeBytes shell.commandLineBuffer shell.commandLineLen [b])
          (shell.commandLineLen + 1) [0]
        commandLineLen := shell.commandLineLen + 1 }

theorem byte_handled (ran : shellInputByte shell b alloc = some (.returned after stop actions)) :
    Handled shell b after := by
  unfold shellInputByte at ran
  split at ran
  · cases ran
    exact .kept
  · by_cases ends : b = 0x0d ∨ b = 0x0a
    · rw [if_pos ends] at ran
      rw [execute_returned ran]
      exact .kept
    · rw [if_neg ends] at ran
      by_cases deletes : b = 0x7f ∨ b = 0x08
      · rw [if_pos deletes] at ran
        simp only [shellCbHandleBackspaceDefault] at ran
        by_cases more : shell.commandLineLen > 0
        · simp only [more, if_true] at ran
          cases ran
          exact .shortened more (by rw [storesOf, if_neg ends, if_pos deletes, if_pos more])
        · simp only [more, if_false] at ran
          cases ran
          exact .kept
      · rw [if_neg deletes] at ran
        simp only [shellCbHandleCharDefault] at ran
        by_cases room : shell.commandLineLen < commandLineBufSize - 1
        · simp only [room, if_true] at ran
          cases ran
          exact .appended room (by rw [storesOf, if_neg ends, if_neg deletes, if_pos room])
        · simp only [room, if_false] at ran
          cases ran
          exact .kept

private theorem stores_inside (short : shell.commandLineLen ≤ 1023) (b : UInt8) :
    ∀ i ∈ storesOf shell b, i < commandLineBufSize := by
  intro i stored
  show i < 1024
  unfold storesOf at stored
  split at stored
  · cases stored
  · split at stored
    · split at stored
      · rw [List.mem_singleton] at stored
        omega
      · cases stored
    · split at stored
      · rename_i room
        simp only [commandLineBufSize] at room
        simp only [List.mem_cons, List.not_mem_nil, or_false] at stored
        omega
      · cases stored

private theorem written_elsewhere (elsewhere : i ≠ position) (byte : UInt8) :
    writeBytes store position [byte] i = store i :=
  writeBytes_outside (by rw [List.length_singleton]; omega)

private theorem changes_only_stores (handled : Handled shell b after) :
    ∀ i, i ∉ storesOf shell b → after.commandLineBuffer i = shell.commandLineBuffer i := by
  intro i untouched
  cases handled with
  | kept => rfl
  | shortened more stores =>
    rw [stores, List.mem_singleton] at untouched
    exact written_elsewhere untouched 0
  | appended room stores =>
    simp only [stores, List.mem_cons, List.not_mem_nil, or_false, not_or] at untouched
    exact (written_elsewhere untouched.2 0).trans (written_elsewhere untouched.1 b)

/-- A line with a zero tail is all the next byte needs. -/
theorem bounded_of_zeroTail (zeroTail : ZeroTail shell) : Bounded shell := by
  have room : shell.commandLineLen < commandLineBufSize := Nat.lt_succ_of_le zeroTail.short
  have ended := zeroTail.tail _ (Nat.le_refl _) room
  refine ⟨zeroTail, stores_inside zeroTail.short, ?_, shell.commandLineLen, room, ended, ?_⟩
  · intro b alloc after stop actions ran
    exact changes_only_stores (byte_handled ran)
  · have line : (readBytes shell.commandLineBuffer 0 shell.commandLineLen).length = shell.commandLineLen :=
      readBytes_length _ _ _
    have found : cString shell.commandLineBuffer commandLineBufSize = some _ :=
      cString_line (by rw [line]) (by rw [line]; exact ended) (by rw [line]; exact room)
    rw [found]
    exact nofun

private theorem zeroTail_handled (zeroTail : ZeroTail shell) (handled : Handled shell b after) :
    ZeroTail after := by
  have short := zeroTail.short
  cases handled with
  | kept => exact zeroTail
  | shortened more _ =>
    refine ⟨by simp only; omega, fun i behind within => ?_⟩
    simp only at behind ⊢
    by_cases last : i = shell.commandLineLen - 1
    · simp [writeBytes, last]
    · rw [written_elsewhere last]
      exact zeroTail.tail i (by omega) within
  | appended room _ =>
    refine ⟨room, fun i behind within => ?_⟩
    simp only at behind ⊢
    by_cases next : i = shell.commandLineLen + 1
    · simp [writeBytes, next]
    · rw [written_elsewhere next, written_elsewhere (by omega)]
      exact zeroTail.tail i (by omega) within

/-! ## Runs -/

private theorem zeroTail_input (before : system.main = .ready → ZeroTail system.shell)
    (taken : inputStep system b alloc = some next) (ready : next.main = .ready) :
    ZeroTail next.shell := by
  unfold inputStep at taken
  split at taken
  · rename_i between
    split at taken
    · cases taken
    · rename_i ran
      cases taken
      exact zeroTail_handled (before between.1) (byte_handled ran)
    · cases taken
      cases ready
  · cases taken

/-- No step leaves anything behind the line by the time the next byte is read. -/
private theorem zeroTail_step (before : system.main = .ready → ZeroTail system.shell)
    (taken : Executer.step system event = some next) (ready : next.main = .ready) :
    ZeroTail next.shell := by
  by_cases typed : ∃ b alloc, event = .input b alloc
  · obtain ⟨b, alloc, rfl⟩ := typed
    exact zeroTail_input before taken ready
  · have unedited := step_unedited (fun b alloc same => typed ⟨b, alloc, same⟩) taken
    rcases unedited.line with ⟨main, buffer, len⟩ | ⟨_, away⟩ | ⟨_, len, buffer⟩
    · obtain ⟨short, tail⟩ := before (main ▸ ready)
      exact ⟨len ▸ short, by rwa [len, buffer]⟩
    · exact absurd ready away
    · refine ⟨by rw [len]; exact Nat.zero_le _, fun i _ within => ?_⟩
      rw [buffer]
      exact if_pos ⟨Nat.zero_le _, by rwa [Nat.zero_add]⟩

/-- In every run of bytes, spawned commands and read threads from `shell_init` on, the
line is bounded whenever the next byte is read. -/
theorem bounded_between_bytes (events : List Event) : Throughout Executer.step BetweenBytes boot events := by
  have start : boot.main = .ready → ZeroTail boot.shell := fun _ => ⟨Nat.zero_le _, fun _ _ _ => rfl⟩
  have always : Throughout Executer.step (fun system => system.main = .ready → ZeroTail system.shell)
      boot events :=
    throughout_invariant (fun _ _ _ before taken ready => zeroTail_step before taken ready) start events
  exact throughout_mono (fun _ held ready => bounded_of_zeroTail (held ready)) always

end ShapeQuake.LineBuffer
