import Mathlib.Data.List.Induction
import ShapeQuake.Library.Bytes

/-! The terminal output of `ui.c`: characters collect in a static buffer, with a
carriage return put in front of every line feed that has none, and are written
out at line ends, near the end of the buffer and on request. `write` takes all
the bytes it is given. -/
namespace ShapeQuake.TerminalUi
open Library.Bytes

/-- `SHELL_UI_WRITE_BUF_SIZE`. -/
def shellUiWriteBufSize : Nat := 1024

/-- The byte `'\n'`. -/
def lineFeed : UInt8 := 0x0a

/-- The byte `'\r'`. -/
def carriageReturn : UInt8 := 0x0d

/-- The static variables, and what has been written to the terminal. -/
structure Ui where
  staticWriteBuf : Store
  staticBufIdx : Nat
  staticLastChar : UInt8
  written : List UInt8

/-- Static variables start out zeroed. -/
def start : Ui := ⟨zeros, 0, 0, []⟩

/-- `if (static_buf_idx < SHELL_UI_WRITE_BUF_SIZE) static_write_buf[static_buf_idx++] = c`. -/
def storeChar (ui : Ui) (c : UInt8) : Ui :=
  if ui.staticBufIdx < shellUiWriteBufSize then
    { ui with
      staticWriteBuf := writeBytes ui.staticWriteBuf ui.staticBufIdx [c]
      staticBufIdx := ui.staticBufIdx + 1 }
  else ui

/-- `write(STDOUT_FILENO, static_write_buf, static_buf_idx); static_buf_idx = 0`. -/
def writeOut (ui : Ui) : Ui :=
  { ui with
    written := ui.written ++ readBytes ui.staticWriteBuf 0 ui.staticBufIdx
    staticBufIdx := 0 }

/-- The first statement of `shell_ui_dispatch_char`. -/
def storeReturn (ui : Ui) (c : UInt8) : Ui :=
  if c = lineFeed ∧ ui.staticLastChar ≠ carriageReturn then storeChar ui carriageReturn else ui

/-- The last statement of `shell_ui_dispatch_char`. -/
def writeWhenDue (ui : Ui) (c : UInt8) : Ui :=
  if c = lineFeed ∨ ui.staticBufIdx ≥ shellUiWriteBufSize - 16 then writeOut ui else ui

/-- `shell_ui_dispatch_char`. -/
def shellUiDispatchChar (ui : Ui) (c : UInt8) : Ui :=
  let ui := storeReturn ui c
  let ui := storeChar ui c
  writeWhenDue { ui with staticLastChar := c } c

/-- `shell_ui_flush`. -/
def shellUiFlush (ui : Ui) : Ui := if ui.staticBufIdx > 0 then writeOut ui else ui

/-- A call of one of the two. -/
inductive Event where
  | dispatchChar (c : UInt8)
  | flush
  deriving DecidableEq, Repr

def step (ui : Ui) : Event → Ui
  | .dispatchChar c => shellUiDispatchChar ui c
  | .flush => shellUiFlush ui

/-- The state after the calls. -/
def run (events : List Event) : Ui := events.foldl step start

/-! ## What should be shown -/

/-- The characters given to `shell_ui_dispatch_char`. -/
def dispatched : List Event → List UInt8
  | [] => []
  | .dispatchChar c :: rest => c :: dispatched rest
  | .flush :: rest => dispatched rest

/-- A character, with a carriage return in front if it is a line feed and the
character before it is no carriage return. -/
def withReturn (previous c : UInt8) : List UInt8 :=
  if c = lineFeed ∧ previous ≠ carriageReturn then [carriageReturn, c] else [c]

/-- A text with its line feeds completed, after the character before it. -/
def completed (previous : UInt8) : List UInt8 → List UInt8
  | [] => []
  | c :: rest => withReturn previous c ++ completed c rest

/-- What was written, followed by what is still in the buffer. -/
def shown (ui : Ui) : List UInt8 := ui.written ++ readBytes ui.staticWriteBuf 0 ui.staticBufIdx

/-! ## The buffer -/

private theorem storeChar_shown (room : ui.staticBufIdx < shellUiWriteBufSize) (c : UInt8) :
    shown (storeChar ui c) = shown ui ++ [c] ∧
      (storeChar ui c).staticBufIdx = ui.staticBufIdx + 1 := by
  rw [storeChar, if_pos room]
  refine ⟨?_, rfl⟩
  have stored := readBytes_writeBytes_end ui.staticWriteBuf ui.staticBufIdx [c]
  rw [List.length_singleton] at stored
  simp only [shown]
  rw [stored, List.append_assoc]

private theorem writeOut_shown (ui : Ui) : shown (writeOut ui) = shown ui := by
  simp [shown, writeOut, readBytes]

theorem flush_shown (ui : Ui) :
    shown (shellUiFlush ui) = shown ui ∧
      (shellUiFlush ui).staticLastChar = ui.staticLastChar ∧
      (shellUiFlush ui).staticBufIdx ≤ ui.staticBufIdx := by
  unfold shellUiFlush
  split
  · exact ⟨writeOut_shown ui, rfl, Nat.zero_le _⟩
  · exact ⟨rfl, rfl, Nat.le_refl _⟩

/-- Between calls there is room for the two characters a call can store, so that
no store is skipped. -/
def Roomy (ui : Ui) : Prop := ui.staticBufIdx < shellUiWriteBufSize - 16

/-- A character is shown behind the others, completed. -/
theorem dispatchChar_shown (roomy : Roomy ui) (c : UInt8) :
    shown (shellUiDispatchChar ui c) = shown ui ++ withReturn ui.staticLastChar c ∧
      (shellUiDispatchChar ui c).staticLastChar = c ∧ Roomy (shellUiDispatchChar ui c) := by
  simp only [Roomy, shellUiWriteBufSize] at roomy
  have returned : (storeReturn ui c).staticBufIdx ≤ ui.staticBufIdx + 1 ∧
      shown (storeReturn ui c) ++ [c] = shown ui ++ withReturn ui.staticLastChar c := by
    unfold storeReturn withReturn
    split
    · obtain ⟨text, index⟩ :=
        storeChar_shown (show ui.staticBufIdx < shellUiWriteBufSize by
          simp only [shellUiWriteBufSize]; omega) carriageReturn
      rw [text, index, List.append_assoc]
      exact ⟨Nat.le_refl _, rfl⟩
    · exact ⟨Nat.le_succ _, rfl⟩
  obtain ⟨small, text⟩ := returned
  obtain ⟨stored, index⟩ :=
    storeChar_shown (show (storeReturn ui c).staticBufIdx < shellUiWriteBufSize by
      simp only [shellUiWriteBufSize]; omega) c
  unfold shellUiDispatchChar writeWhenDue
  simp only
  split
  · refine ⟨?_, rfl, ?_⟩
    · rw [writeOut_shown, ← text, ← stored]
      rfl
    · simp [Roomy, writeOut, shellUiWriteBufSize]
  · rename_i early
    rw [not_or, Nat.not_le] at early
    refine ⟨?_, rfl, early.2⟩
    rw [← text, ← stored]
    rfl

/-! ## Runs -/

theorem completed_append (previous : UInt8) (text : List UInt8) (c : UInt8) :
    completed previous (text ++ [c]) =
      completed previous text ++ withReturn (text.getLastD previous) c := by
  induction text generalizing previous with
  | nil => simp [completed]
  | cons first rest ih =>
    rw [List.cons_append, completed, completed, ih first, List.append_assoc]
    cases rest <;> rfl

/-- What a run has shown so far, and the character it remembers. -/
structure Faithful (events : List Event) (ui : Ui) : Prop where
  text : shown ui = completed 0 (dispatched events)
  last : ui.staticLastChar = (dispatched events).getLastD 0
  roomy : Roomy ui

theorem dispatched_append (first second : List Event) :
    dispatched (first ++ second) = dispatched first ++ dispatched second := by
  induction first with
  | nil => rfl
  | cons event rest ih =>
    cases event with
    | dispatchChar c => exact congrArg (c :: ·) ih
    | flush => exact ih

theorem faithful_step (faithful : Faithful events ui) (event : Event) :
    Faithful (events ++ [event]) (step ui event) := by
  obtain ⟨text, last, roomy⟩ := faithful
  cases event with
  | dispatchChar c =>
    obtain ⟨shownNow, lastNow, roomyNow⟩ := dispatchChar_shown roomy c
    refine ⟨?_, ?_, roomyNow⟩
    · rw [dispatched_append]
      exact (shownNow.trans (by rw [text, last])).trans (completed_append 0 _ c).symm
    · rw [dispatched_append]
      exact lastNow.trans (by simp [dispatched])
  | flush =>
    obtain ⟨shownNow, lastNow, index⟩ := flush_shown ui
    refine ⟨?_, ?_, Nat.lt_of_le_of_lt index roomy⟩
    · rw [dispatched_append]
      exact shownNow.trans (by simpa [dispatched] using text)
    · rw [dispatched_append]
      exact lastNow.trans (by simpa [dispatched] using last)

theorem faithful_run (events : List Event) : Faithful events (run events) := by
  induction events using List.reverseRecOn with
  | nil => exact ⟨rfl, rfl, Nat.succ_pos _⟩
  | append_singleton events event ih =>
    rw [run, List.foldl_append]
    exact faithful_step ih event

/-- After any calls, what was written followed by what is in the buffer is the
text dispatched with its line feeds completed, the index lies in the buffer, and
the same text shows the same wherever it was flushed. -/
theorem text_shown_completed (events : List Event) :
    shown (run events) = completed 0 (dispatched events) ∧
      (run events).staticBufIdx ≤ shellUiWriteBufSize ∧
      ∀ others, dispatched others = dispatched events → shown (run others) = shown (run events) := by
  have faithful := faithful_run events
  refine ⟨faithful.text, ?_, fun others same => ?_⟩
  · exact Nat.le_trans (Nat.le_of_lt faithful.roomy) (Nat.sub_le _ _)
  · rw [(faithful_run others).text, same, faithful.text]

end ShapeQuake.TerminalUi
