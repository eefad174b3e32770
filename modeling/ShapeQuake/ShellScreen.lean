import ShapeQuake.ExecuterInvariants
import ShapeQuake.ShellSession
import ShapeQuake.TerminalUi

/-! What the user of the shell sees. The process writes its prompt, an echo of each byte and
what its commands write to a terminal, and while no command runs the row of the cursor should
show the prompt and the line that the next carriage return hands over. The terminal is any
that does with plain text what terminals do, and the line has to fit into one of its rows. -/
namespace ShapeQuake.ShellScreen
open Library.Bytes Library.Runs ShellCore Executer ExecuterInvariants LineEditorProofs
open ShellSession (Typed byte_typed)
open TerminalUi (Ui Roomy shown)

/-! ## The terminal -/

/-- A blank. -/
def blank : UInt8 := 0x20

/-- A byte that is shown in one cell. -/
def Printable (b : UInt8) : Prop := 0x20 ≤ b ∧ b ≤ 0x7e

instance : DecidablePred Printable := fun b => inferInstanceAs (Decidable (0x20 ≤ b ∧ b ≤ 0x7e))

theorem printable_blank : Printable 0x20 := by decide

/-- A byte of plain text: shown in a cell, or a step to the left edge, to the next row or one
cell back. -/
def Plain (b : UInt8) : Prop := Printable b ∨ b = 0x0d ∨ b = 0x0a ∨ b = 0x08

instance : DecidablePred Plain := fun b =>
  inferInstanceAs (Decidable (Printable b ∨ b = 0x0d ∨ b = 0x0a ∨ b = 0x08))

/-- The terminal that the shell is started on: how it looks then, what a byte does to it, the
cells of the cursor's row and the cursor's column. -/
structure Terminal (Display : Type) where
  initial : Display
  put : Display → UInt8 → Display
  cell : Display → Nat → UInt8
  column : Display → Nat

section
variable {Display : Type} {terminal : Terminal Display} {columns : Nat} {before : Display}

/-- The display behind these bytes. -/
def Terminal.display (terminal : Terminal Display) (written : List UInt8) : Display :=
  written.foldl terminal.put terminal.initial

/-- What a terminal does with plain text, in rows of this many cells. What it does with a byte
that is shown at the right edge is left open. -/
structure Terminal.Documented (terminal : Terminal Display) (columns : Nat) : Prop where
  printable : ∀ before b, Printable b → terminal.column before + 1 < columns →
    (∀ i < columns, terminal.cell (terminal.put before b) i =
      if i = terminal.column before then b else terminal.cell before i) ∧
    terminal.column (terminal.put before b) = terminal.column before + 1
  backspace : ∀ before, 0 < terminal.column before → terminal.column before < columns →
    (∀ i < columns, terminal.cell (terminal.put before 0x08) i = terminal.cell before i) ∧
    terminal.column (terminal.put before 0x08) = terminal.column before - 1
  carriageReturn : ∀ before,
    (∀ i < columns, terminal.cell (terminal.put before 0x0d) i = terminal.cell before i) ∧
    terminal.column (terminal.put before 0x0d) = 0
  /-- Nothing is below the cursor's row, since no byte of plain text leads upwards. -/
  lineFeed : ∀ written, (∀ b ∈ written, Plain b) →
    (∀ i < columns, terminal.cell (terminal.display (written ++ [0x0d, 0x0a])) i = blank) ∧
    terminal.column (terminal.display (written ++ [0x0d, 0x0a])) = 0

/-- The row is this text in front of other cells, and the cursor is behind the text. -/
structure Terminal.Covers (terminal : Terminal Display) (columns : Nat) (display : Display)
    (text : List UInt8) (others : Nat → UInt8) : Prop where
  row : ∀ i < columns, terminal.cell display i = text[i]?.getD (others i)
  column : terminal.column display = text.length

/-- The row is this text with blanks behind it, and the cursor behind the text. -/
def Terminal.Shows (terminal : Terminal Display) (columns : Nat) (display : Display) (text : List UInt8) : Prop :=
  terminal.Covers columns display text fun _ => blank

/-! ## What the process writes -/

/-- The prompt of `shell_ui_prompt`. -/
def promptText : List UInt8 := [0x20, 0x20]

/-- What an action does to the terminal output. The prompt and the line ends before it do not
go through the buffer of `shell_ui_dispatch_char`. What is printed to `stderr` is left out. -/
def perform (ui : Ui) : Action → Ui
  | .dispatchChar c => TerminalUi.shellUiDispatchChar ui c
  | .flush => TerminalUi.shellUiFlush ui
  | .blankline => { ui with written := ui.written ++ [0x0d, 0x0a] }
  | .carriageReturn => { ui with written := ui.written ++ [0x0d] }
  | .prompt => { ui with written := ui.written ++ promptText }
  | .tokenize _ | .chdir _ | .complain | .debug _ => ui

/-- The output behind these actions. -/
def performed (trace : List Action) : Ui := trace.foldl perform TerminalUi.start

/-- What is on the screen once the buffer is flushed. -/
def screen (terminal : Terminal Display) (trace : List Action) : Display :=
  terminal.display (shown (performed trace))

/-! ## What should be seen -/

/-- No read thread is left. -/
def Quiet (system : System) : Prop := ∀ thread ∈ system.threads, thread.pc = .done

/-- Everything written is on the screen, which shows the prompt and this line. -/
def Seen (terminal : Terminal Display) (columns : Nat) (trace : List Action) (line : List UInt8) : Prop :=
  (performed trace).staticBufIdx = 0 ∧ terminal.Shows columns (screen terminal trace) (promptText ++ line)

/-- Everything written is on the screen, and the cursor is at the start of an empty row. -/
def Fresh (terminal : Terminal Display) (columns : Nat) (trace : List Action) : Prop :=
  (performed trace).staticBufIdx = 0 ∧ terminal.Shows columns (screen terminal trace) []

/-- The line is seen between two commands. From the end of a line until its command has a read
thread the row is empty, and from then on the line is, so that it can be seen again when the
thread is done. -/
def Screen (terminal : Terminal Display) (columns : Nat) (system : System) : Prop :=
  (∀ thread ∈ system.threads.dropLast, thread.pc = .done) ∧
  match system.main with
  | .ready => (Quiet system → Seen terminal columns system.trace (storedLine system.shell)) ∧
      (¬ Quiet system → storedLine system.shell = [])
  | .finish => Quiet system → Seen terminal columns system.trace []
  | _ => Quiet system ∧ Fresh terminal columns system.trace

/-- The system call that the main thread is at does not fail. -/
def Succeeds (shell : Shell) (answer : Answer) : MainPc → Prop
  | .openpty _ | .fork _ => answer ≠ .failed
  | .createThread _ => answer = .ok
  | .dispatch list => ∀ handler ∈ findBuiltin shell list, .complain ∉ (runHandler handler list (answer = .ok)).2
  | _ => True

/-- One command at a time, plain text, a line that fits into a row behind the prompt, and no
system call that fails. -/
def Usual (columns : Nat) (system : System) : Event → Prop
  | .input b _ => Quiet system ∧ (endsLine b = true ∨ deletes b = true ∨
      Printable b ∧ promptText.length + (storedLine system.shell).length + 1 < columns)
  | .main answer => Succeeds system.shell answer system.main
  | .childWrites _ bytes => ∀ b ∈ bytes, Plain b
  | .thread _ _ | .childExits _ => True

/-- A line is handed over empty or with a token, and the output of a command leaves nothing
behind the place of the prompt in its last row. -/
def Clean (terminal : Terminal Display) (columns : Nat) (system : System) : Event → Prop
  | .input b alloc => endsLine b = true →
      storedLine system.shell = [] ∨ Tokenizes alloc ((storedLine system.shell).takeWhile (· ≠ 0))
  | .thread index _ => ∀ thread ∈ system.threads[index]?, thread.pc = .prompt →
      ∀ i < columns, promptText.length ≤ i → terminal.cell (screen terminal system.trace) i = blank
  | .main _ | .childWrites _ _ | .childExits _ => True

/-! ## The display -/

theorem display_append (first second : List UInt8) :
    terminal.display (first ++ second) = second.foldl terminal.put (terminal.display first) := List.foldl_append

theorem performed_append (first second : List Action) :
    performed (first ++ second) = second.foldl perform (performed first) := List.foldl_append

private theorem getD_concat (text : List UInt8) (b : UInt8) (i : Nat) (other : UInt8) :
    (text ++ [b])[i]?.getD other = if i = text.length then b else text[i]?.getD other := by
  split
  · rename_i last
    simp [last]
  · rename_i elsewhere
    rcases Nat.lt_or_ge i text.length with inside | behind
    · rw [List.getElem?_append_left inside]
    · rw [List.getElem?_eq_none behind, List.getElem?_eq_none (by simp; omega)]

/-- A printable byte behind the text. -/
theorem put_covers (documented : terminal.Documented columns) (covers : terminal.Covers columns before text others)
    (printable : Printable b) (room : text.length + 1 < columns) :
    terminal.Covers columns (terminal.put before b) (text ++ [b]) others := by
  obtain ⟨row, column⟩ := documented.printable before b printable (by rw [covers.column]; exact room)
  refine ⟨fun i inside => ?_, ?_⟩
  · rw [row i inside, covers.column, covers.row i inside, getD_concat]
  · rw [column, covers.column, List.length_append, List.length_singleton]

/-- Back, a blank, and back: the last byte of the text is gone. -/
theorem erase_shows (documented : terminal.Documented columns) (shows_ : terminal.Shows columns before (text ++ [b]))
    (room : text.length + 1 < columns) :
    terminal.Shows columns ([0x08, 0x20, 0x08].foldl terminal.put before) text := by
  have behind : terminal.column before = text.length + 1 := by
    rw [shows_.column, List.length_append, List.length_singleton]
  obtain ⟨firstRow, firstColumn⟩ := documented.backspace before (by omega) (by omega)
  have back : terminal.column (terminal.put before 0x08) = text.length := by omega
  obtain ⟨blankRow, blankColumn⟩ := documented.printable (terminal.put before 0x08) 0x20 printable_blank
    (by omega)
  obtain ⟨lastRow, lastColumn⟩ := documented.backspace (terminal.put (terminal.put before 0x08) 0x20) (by omega)
    (by omega)
  refine ⟨fun i inside => ?_, ?_⟩
  · simp only [List.foldl_cons, List.foldl_nil]
    rw [lastRow i inside, blankRow i inside, firstRow i inside, shows_.row i inside, back, getD_concat]
    split
    · rename_i last
      simp [last, blank]
    · rfl
  · simp only [List.foldl_cons, List.foldl_nil]
    omega

/-- Behind plain text, a new row is empty. -/
theorem newline_shows (documented : terminal.Documented columns) (plain : ∀ b ∈ written, Plain b) :
    terminal.Shows columns (terminal.display (written ++ [0x0d, 0x0a])) [] := by
  obtain ⟨row, column⟩ := documented.lineFeed written plain
  exact ⟨row, column⟩

/-- The prompt at the left edge covers the first cells. -/
theorem prompt_covers (documented : terminal.Documented columns) (wide : promptText.length < columns)
    (covers : terminal.Covers columns before [] others) :
    terminal.Covers columns (promptText.foldl terminal.put before) promptText others := by
  have two : 2 < columns := wide
  have first := put_covers documented covers printable_blank (by simp; omega)
  exact put_covers documented first printable_blank (by simp; omega)

/-- The prompt shows an empty line if nothing is behind it. -/
theorem prompt_shows_iff (covers : terminal.Covers columns before promptText others) :
    terminal.Shows columns before promptText ↔ ∀ i < columns, promptText.length ≤ i → others i = blank := by
  constructor
  · intro shows_ i inside behind
    have same := (covers.row i inside).symm.trans (shows_.row i inside)
    rwa [List.getElem?_eq_none behind] at same
  · intro nothing
    refine ⟨fun i inside => ?_, covers.column⟩
    rw [covers.row i inside]
    rcases Nat.lt_or_ge i promptText.length with within | behind
    · rw [List.getElem?_eq_getElem within]
      rfl
    · rw [List.getElem?_eq_none behind]
      exact nothing i inside behind

/-! ## Output -/

/-- The buffer has room, and is empty if nothing waits in it. -/
theorem shown_of_empty (empty : ui.staticBufIdx = 0) : shown ui = ui.written := by
  simp [shown, empty, readBytes]

/-- What is flushed is written. -/
theorem flush_written (ui : Ui) :
    (TerminalUi.shellUiFlush ui).staticBufIdx = 0 ∧ shown (TerminalUi.shellUiFlush ui) = shown ui := by
  refine ⟨?_, (TerminalUi.flush_shown ui).1⟩
  unfold TerminalUi.shellUiFlush
  split
  · rfl
  · omega

/-- An echo: a byte and a flush. -/
theorem echo_written (roomy : Roomy ui) (plain : c ≠ 0x0a) :
    let after := [Action.dispatchChar c, .flush].foldl perform ui
    after.staticBufIdx = 0 ∧ Roomy after ∧ shown after = shown ui ++ [c] := by
  obtain ⟨text, _, room⟩ := TerminalUi.dispatchChar_shown roomy c
  obtain ⟨none_, flushed⟩ := flush_written (TerminalUi.shellUiDispatchChar ui c)
  refine ⟨none_, ?_, ?_⟩
  · exact Nat.lt_of_le_of_lt (TerminalUi.flush_shown _).2.2 room
  · have whole : TerminalUi.withReturn ui.staticLastChar c = [c] := by
      simp [TerminalUi.withReturn, TerminalUi.lineFeed, plain]
    exact flushed.trans (text.trans (by rw [whole]))

/-- A text that goes around an empty buffer. -/
theorem written_around (empty : ui.staticBufIdx = 0) (text : List UInt8) :
    shown { ui with written := ui.written ++ text } = shown ui ++ text := by
  rw [shown_of_empty empty]
  exact shown_of_empty empty

theorem roomy_perform (roomy : Roomy ui) (action : Action) : Roomy (perform ui action) := by
  cases action with
  | dispatchChar c => exact (TerminalUi.dispatchChar_shown roomy c).2.2
  | flush => exact Nat.lt_of_le_of_lt (TerminalUi.flush_shown ui).2.2 roomy
  | tokenize | blankline | carriageReturn | prompt | chdir | complain | debug => exact roomy

theorem roomy_performed (trace : List Action) : Roomy (performed trace) := by
  have all : ∀ ui, Roomy ui → Roomy (trace.foldl perform ui) := by
    induction trace with
    | nil => exact fun _ roomy => roomy
    | cons action rest ih => exact fun ui roomy => ih _ (roomy_perform roomy action)
  exact all _ (Nat.succ_pos _)

/-! ## Plain text -/

/-- All that has been written or waits in the buffer is plain text. -/
def PlainOutput (ui : Ui) : Prop := ∀ b ∈ shown ui, Plain b

/-- A byte that is dispatched is plain. -/
def PlainAction : Action → Prop
  | .dispatchChar c => Plain c
  | _ => True

private theorem plain_return (plain : Plain c) (previous : UInt8) :
    ∀ b ∈ TerminalUi.withReturn previous c, Plain b := by
  intro b member
  unfold TerminalUi.withReturn at member
  split at member
  · rcases List.mem_pair.mp member with rfl | rfl
    · exact .inr (.inl rfl)
    · exact plain
  · rw [List.mem_singleton.mp member]
    exact plain

/-- What goes around the buffer comes before what waits in it. -/
private theorem plain_around (output : PlainOutput ui) (text : List UInt8) (plain : ∀ b ∈ text, Plain b) :
    PlainOutput { ui with written := ui.written ++ text } := by
  intro b member
  rcases List.mem_append.mp member with written | waiting
  · rcases List.mem_append.mp written with old | new
    · exact output b (List.mem_append_left _ old)
    · exact plain b new
  · exact output b (List.mem_append_right _ waiting)

theorem plain_perform (roomy : Roomy ui) (output : PlainOutput ui) (plain : PlainAction action) :
    PlainOutput (perform ui action) := by
  cases action with
  | dispatchChar c =>
    have text := (TerminalUi.dispatchChar_shown roomy c).1
    intro b member
    rw [perform, text] at member
    rcases List.mem_append.mp member with old | new
    · exact output b old
    · exact plain_return plain _ b new
  | flush =>
    intro b member
    exact output b ((TerminalUi.flush_shown ui).1 ▸ member)
  | blankline => exact plain_around output _ (by simp [Plain])
  | carriageReturn => exact plain_around output _ (by simp [Plain])
  | prompt => exact plain_around output _ (by simp [Plain, printable_blank, promptText])
  | tokenize | chdir | complain | debug => exact output

theorem plain_performed (output : PlainOutput (performed trace)) (plain : ∀ action ∈ actions, PlainAction action) :
    PlainOutput (performed (trace ++ actions)) := by
  induction actions generalizing trace with
  | nil =>
    rw [List.append_nil]
    exact output
  | cons action rest ih =>
    obtain ⟨first, others⟩ := List.forall_mem_cons.mp plain
    have next : PlainOutput (performed (trace ++ [action])) := by
      rw [performed_append]
      exact plain_perform (roomy_performed trace) output first
    have rest := ih next others
    rwa [List.append_assoc] at rest

/-! ## What is seen -/

/-- An echo is seen behind the line. -/
theorem seen_echo (documented : terminal.Documented columns) (seen : Seen terminal columns trace line)
    (printable : Printable b) (room : promptText.length + line.length + 1 < columns) :
    Seen terminal columns (trace ++ [.dispatchChar b, .flush]) (line ++ [b]) := by
  have plain : b ≠ 0x0a := by
    rintro rfl
    exact absurd printable.1 (by decide)
  obtain ⟨empty, _, text⟩ := echo_written (roomy_performed trace) plain
  refine ⟨by rw [performed_append]; exact empty, ?_⟩
  rw [screen, performed_append, text, display_append, ← List.append_assoc]
  exact put_covers documented seen.2 printable (by rwa [List.length_append])

private theorem erase_performed (trace : List Action) :
    (performed (trace ++ shellCbOutputStr [0x08, 0x20, 0x08])).staticBufIdx = 0 ∧
      shown (performed (trace ++ shellCbOutputStr [0x08, 0x20, 0x08])) =
        shown (performed trace) ++ [0x08, 0x20, 0x08] := by
  have echo (trace : List Action) (c : UInt8) (plain : c ≠ 0x0a) :
      (performed (trace ++ [.dispatchChar c, .flush])).staticBufIdx = 0 ∧
        shown (performed (trace ++ [.dispatchChar c, .flush])) = shown (performed trace) ++ [c] := by
    obtain ⟨empty, _, text⟩ := echo_written (roomy_performed trace) plain
    rw [performed_append]
    exact ⟨empty, text⟩
  have three : trace ++ shellCbOutputStr [0x08, 0x20, 0x08] =
      trace ++ [.dispatchChar 0x08, .flush] ++ [.dispatchChar 0x20, .flush] ++ [.dispatchChar 0x08, .flush] := by
    simp [shellCbOutputStr]
  rw [three]
  obtain ⟨empty, last⟩ := echo (trace ++ [.dispatchChar 0x08, .flush] ++ [.dispatchChar 0x20, .flush]) 0x08 (by decide)
  have second := (echo (trace ++ [.dispatchChar 0x08, .flush]) 0x20 (by decide)).2
  have first := (echo trace 0x08 (by decide)).2
  refine ⟨empty, ?_⟩
  rw [last, second, first]
  simp

/-- What a deleting byte shows takes the last byte of the line away. -/
theorem seen_erase (documented : terminal.Documented columns) (seen : Seen terminal columns trace (line ++ [b]))
    (room : promptText.length + line.length + 1 < columns) :
    Seen terminal columns (trace ++ shellCbOutputStr [0x08, 0x20, 0x08]) line := by
  obtain ⟨empty, text⟩ := erase_performed trace
  refine ⟨empty, ?_⟩
  rw [screen, text, display_append]
  exact erase_shows documented (by rw [List.append_assoc]; exact seen.2) (by rwa [List.length_append])

/-- What is only looked at is not written. -/
private theorem performed_tokenize (trace : List Action) (text : List UInt8) :
    performed (trace ++ [.tokenize text]) = performed trace := by
  rw [performed_append]
  rfl

/-- A new row. -/
theorem fresh_newline (documented : terminal.Documented columns) (plain : PlainOutput (performed trace))
    (empty : (performed trace).staticBufIdx = 0) : Fresh terminal columns (trace ++ [.blankline]) := by
  have written : performed (trace ++ [.blankline]) =
      { performed trace with written := (performed trace).written ++ [0x0d, 0x0a] } := by
    rw [performed_append]
    rfl
  refine ⟨by rw [written]; exact empty, ?_⟩
  rw [screen, written, written_around empty]
  exact newline_shows documented plain

private theorem fresh_tokenized (documented : terminal.Documented columns) (plain : PlainOutput (performed trace))
    (empty : (performed trace).staticBufIdx = 0) (text : List UInt8) :
    Fresh terminal columns (trace ++ [.tokenize text, .blankline]) := by
  have row : Fresh terminal columns ((trace ++ [.tokenize text]) ++ [.blankline]) :=
    fresh_newline documented (by rw [performed_tokenize]; exact plain) (by rw [performed_tokenize]; exact empty)
  rwa [List.append_assoc] at row

/-- The prompt in an empty row shows an empty line and no other. -/
theorem seen_prompt_iff (documented : terminal.Documented columns) (wide : promptText.length < columns)
    (fresh : Fresh terminal columns trace) (line : List UInt8) :
    Seen terminal columns (trace ++ [.prompt]) line ↔ line = [] := by
  have written : performed (trace ++ [.prompt]) =
      { performed trace with written := (performed trace).written ++ promptText } := by
    rw [performed_append]
    rfl
  have row : terminal.Shows columns (screen terminal (trace ++ [.prompt])) promptText := by
    rw [screen, written, written_around fresh.1, display_append]
    exact prompt_covers documented wide fresh.2
  constructor
  · rintro ⟨_, _, column⟩
    have same := row.column.symm.trans column
    rw [List.length_append] at same
    exact List.eq_nil_of_length_eq_zero (by omega)
  · rintro rfl
    rw [Seen, List.append_nil]
    exact ⟨by rw [written]; exact fresh.1, row⟩

/-- What is only looked at is not seen. -/
theorem seen_tokenize (seen : Seen terminal columns trace line) (text : List UInt8) :
    Seen terminal columns (trace ++ [.tokenize text]) line := by
  rw [Seen, screen, performed_tokenize]
  exact seen

private theorem seen_at_edge (documented : terminal.Documented columns) (wide : promptText.length < columns)
    (empty : (performed trace).staticBufIdx = 0) :
    Seen terminal columns (trace ++ [.carriageReturn, .prompt]) [] ↔
      ∀ i < columns, promptText.length ≤ i → terminal.cell (screen terminal trace) i = blank := by
  have written : performed (trace ++ [.carriageReturn, .prompt]) =
      { performed trace with written := (performed trace).written ++ (0x0d :: promptText) } := by
    rw [performed_append]
    simp [perform]
  obtain ⟨kept, edge⟩ := documented.carriageReturn (screen terminal trace)
  have row : terminal.Covers columns (screen terminal (trace ++ [.carriageReturn, .prompt])) promptText
      (terminal.cell (screen terminal trace)) := by
    rw [screen, written, written_around empty, display_append]
    exact prompt_covers documented wide ⟨kept, edge⟩
  rw [Seen, List.append_nil, prompt_shows_iff row, written]
  exact and_iff_right empty

/-- The prompt of a read thread shows an empty line if the row is blank behind it. -/
theorem seen_after_output (documented : terminal.Documented columns) (wide : promptText.length < columns)
    (trace : List Action) :
    Seen terminal columns (trace ++ [.flush, .carriageReturn, .prompt]) [] ↔
      ∀ i < columns, promptText.length ≤ i → terminal.cell (screen terminal trace) i = blank := by
  obtain ⟨empty, text⟩ := flush_written (performed trace)
  have flushed : performed (trace ++ [.flush]) = TerminalUi.shellUiFlush (performed trace) := by
    rw [performed_append]
    rfl
  have edge : Seen terminal columns ((trace ++ [.flush]) ++ [.carriageReturn, .prompt]) [] ↔ _ :=
    seen_at_edge documented wide (by rw [flushed]; exact empty)
  have row : screen terminal (trace ++ [.flush]) = screen terminal trace := by
    rw [screen, flushed, text]
    rfl
  rw [List.append_assoc, row] at edge
  exact edge

/-- The prompt of a built-in that does not complain. -/
theorem seen_after_builtin (documented : terminal.Documented columns) (wide : promptText.length < columns)
    (fresh : Fresh terminal columns trace) (quiet : .complain ∉ (runHandler handler list changed).2) :
    Seen terminal columns (trace ++ (runHandler handler list changed).2 ++ [.carriageReturn, .prompt]) [] := by
  have same : performed (trace ++ (runHandler handler list changed).2) = performed trace := by
    rw [performed_append]
    cases handler with
    | shellBuiltinExit => rfl
    | shellBuiltinCd =>
      simp only [runHandler, shellBuiltinCd] at quiet ⊢
      split at quiet
      · exact absurd (List.mem_singleton_self _) quiet
      · rename_i enough
        rw [if_neg enough]
        cases changed with
        | true => rfl
        | false => exact absurd (by simp) quiet
  apply (seen_at_edge documented wide (by rw [same]; exact fresh.1)).mpr
  intro i inside _
  rw [screen, same]
  exact fresh.2.row i inside

/-! ## Steps -/

/-- The main thread has opened a terminal for the command it is carrying. -/
def PastOpenpty : MainPc → Prop
  | .dispatch _ | .fork _ | .storePid _ _ | .closeSlave _ | .setRunning _ | .createThread _ => True
  | .ready | .enter _ | .openpty _ | .finish | .crashed => False

/-- What holds of the process as long as its steps are usual: a read thread has a terminal,
between two bytes the buffer holds the line, which fits into a row, and all output is plain
text, what a command has written but no thread has read included. -/
structure Ground (columns : Nat) (system : System) : Prop where
  tidy : Tidy system
  operations : system.shell.operations = some .gDefaultShellOps
  typed : system.main = .ready → Typed system.shell (storedLine system.shell)
  fits : system.main = .ready → promptText.length + (storedLine system.shell).length < columns
  master : system.threads ≠ [] ∨ PastOpenpty system.main → 0 ≤ system.shell.exec.masterFd
  output : PlainOutput (performed system.trace)
  unread : ∀ pty, ∀ b ∈ system.kernel.unread pty, Plain b

theorem typed_line (typed : Typed shell line) : storedLine shell = line := by
  rw [storedLine, typed.len, typed.contents]

theorem ground_boot (wide : promptText.length < columns) : Ground columns boot where
  tidy := tidy_boot
  operations := rfl
  typed := fun _ => ⟨rfl, rfl, rfl, Nat.zero_le _⟩
  fits := fun _ => wide
  master := fun opened => absurd opened (by simp [boot, PastOpenpty])
  output := by
    have nothing : PlainOutput (performed []) := fun b member => absurd member List.not_mem_nil
    exact plain_performed nothing (by simp [PlainAction])
  unread := fun _ b member => absurd member List.not_mem_nil

private theorem setState_masterFd (shell : Shell) (ptr : Option ShellPtr) (state : ShellState) :
    (shellContextSetState shell ptr state).exec.masterFd = shell.exec.masterFd := by
  rw [setState_exec]

private theorem main_master (ground : Ground columns system) (moves : MainMoves system answer next)
    (opened : next.threads ≠ [] ∨ PastOpenpty next.main) : 0 ≤ next.shell.exec.masterFd := by
  have before := ground.master
  cases moves with
  | opened pc ran => exact Int.natCast_nonneg _
  | entered pc =>
    rw [setState_masterFd]
    exact before (opened.imp_right False.elim)
  | unopened pc | unforked pc =>
    rcases opened with some_ | past
    · exact before (.inl some_)
    · exact past.elim
  | builtin pc | uncreated pc | finished pc =>
    exact before (opened.imp_right False.elim)
  | external pc | forked pc | storedPid pc | closedSlave pc | running pc | created pc =>
    exact before (.inr (by rw [pc]; trivial))

private theorem thread_master (moves : ThreadMoves system thread answer next pc) :
    next.shell.exec.masterFd = system.shell.exec.masterFd ∧ next.threads = system.threads ∧
      next.main = system.main := by
  cases moves with
  | left => exact ⟨setState_masterFd _ _ _, rfl, rfl⟩
  | _ => exact ⟨rfl, rfl, rfl⟩

/-- A step without a byte keeps the line, or clears it. -/
private theorem line_other (unedited : Unedited system next) (ready : next.main = .ready) :
    storedLine next.shell = [] ∨ system.main = .ready ∧ storedLine next.shell = storedLine system.shell := by
  rcases unedited.line with ⟨main, buffer, len⟩ | ⟨_, away⟩ | ⟨_, len, _⟩
  · exact .inr ⟨main ▸ ready, by rw [storedLine, storedLine, buffer, len]⟩
  · exact absurd ready away
  · rw [storedLine, len]
    exact .inl rfl

private theorem fits_other (wide : promptText.length < columns) (ground : Ground columns system)
    (unedited : Unedited system next) (ready : next.main = .ready) :
    promptText.length + (storedLine next.shell).length < columns := by
  rcases line_other unedited ready with none_ | ⟨before, same⟩
  · rw [none_]
    exact wide
  · rw [same]
    exact ground.fits before

private theorem typed_other (ground : Ground columns system) (unedited : Unedited system next)
    (ready : next.main = .ready) : Typed next.shell (storedLine next.shell) := by
  rcases unedited.line with ⟨main, buffer, len⟩ | ⟨_, away⟩ | ⟨_, len, buffer⟩
  · obtain ⟨contents, ended, size, bounded⟩ := ground.typed (main ▸ ready)
    have same : storedLine next.shell = storedLine system.shell := by rw [storedLine, storedLine, buffer, len]
    rw [same]
    exact ⟨by rw [buffer]; exact contents, by rw [buffer]; exact ended, len.trans size, bounded⟩
  · exact absurd ready away
  · have none_ : storedLine next.shell = [] := by
      rw [storedLine, len]
      rfl
    rw [none_]
    refine ⟨rfl, ?_, len, Nat.zero_le _⟩
    rw [buffer]
    rfl

/-- What a byte that does not end the line puts on the screen. -/
def echoOf (line : List UInt8) (b : UInt8) : List Action :=
  if deletes b then if line = [] then [] else shellCbOutputStr [0x08, 0x20, 0x08]
  else if line.length < 1023 then [.dispatchChar b, .flush] else []

private theorem byte_echoed (typed : Typed shell line) (operations : shell.operations = some .gDefaultShellOps)
    (inside : endsLine b = false) (alloc : Nat → Bool) :
    ∃ after, shellInputByte shell b alloc = some (.returned after false (echoOf line b)) := by
  have kept : ¬ (b = 0x0d ∨ b = 0x0a) := mt endsLine_iff.mpr (by simp [inside])
  unfold shellInputByte
  rw [operations]
  simp only [kept, ↓reduceIte, echoOf]
  by_cases shorter : deletes b = true
  · simp only [deletes_iff.mp shorter, shorter, ↓reduceIte, shellCbHandleBackspaceDefault, typed.len,
      gt_iff_lt, List.length_pos_iff]
    by_cases none_ : line = []
    · exact ⟨_, by simp [none_]; rfl⟩
    · exact ⟨_, by simp [none_]; rfl⟩
  · simp only [mt deletes_iff.mpr shorter, shorter, ↓reduceIte, shellCbHandleCharDefault, typed.len,
      commandLineBufSize, Nat.reduceSub]
    by_cases room : line.length < 1023
    · exact ⟨_, by simp [room]; rfl⟩
    · exact ⟨_, by simp [room]; rfl⟩

/-- What a byte does: it is echoed and edits the line, or it ends the line, which is kept,
stops the shell or is handed on as a command. -/
inductive Reads (system : System) (b : UInt8) (alloc : Nat → Bool) : System → Prop
  | edited (inside : endsLine b = false) (now : Typed after (edit (storedLine system.shell) b))
      (operations : after.operations = some .gDefaultShellOps) (exec : after.exec = system.shell.exec) :
      Reads system b alloc
        { system with
          shell := after
          stopRequired := false
          trace := system.trace ++ echoOf (storedLine system.shell) b }
  | kept (ends : endsLine b = true)
      (blank : ¬ Tokenizes alloc ((storedLine system.shell).takeWhile (· ≠ 0))) :
      Reads system b alloc
        { system with
          stopRequired := false
          trace := system.trace ++ [.tokenize ((storedLine system.shell).takeWhile (· ≠ 0)), .blankline, .prompt] }
  | stopped (ends : endsLine b = true)
      (found : Tokenizes alloc ((storedLine system.shell).takeWhile (· ≠ 0))) :
      Reads system b alloc
        { system with
          stopRequired := true
          trace := system.trace ++ [.tokenize ((storedLine system.shell).takeWhile (· ≠ 0))] }
  | handed (ends : endsLine b = true)
      (found : Tokenizes alloc ((storedLine system.shell).takeWhile (· ≠ 0))) :
      Reads system b alloc
        { system with
          shell := { system.shell with exec := { system.shell.exec with shellContext := some .base } }
          main := .enter list
          trace := system.trace ++ [.tokenize ((storedLine system.shell).takeWhile (· ≠ 0)), .blankline] }

theorem input_reads (ground : Ground columns system) (taken : Executer.step system (.input b alloc) = some next) :
    system.main = .ready ∧ Reads system b alloc next := by
  simp only [Executer.step, inputStep] at taken
  split at taken
  case isFalse => cases taken
  case isTrue ready =>
    refine ⟨ready.1, ?_⟩
    have typed := ground.typed ready.1
    cases ends : endsLine b with
    | false =>
      obtain ⟨after, ran⟩ := byte_echoed typed ground.operations ends alloc
      obtain ⟨other, _, same, operations, _, now⟩ := byte_typed typed ends alloc ground.operations
      obtain ⟨_, exec⟩ := shellInputByte_context ran
      rw [ran] at same taken
      cases same
      cases taken
      exact .edited ends now operations exec
    | true =>
      have text := cString_line typed.contents typed.ended (Nat.lt_succ_of_le typed.bounded)
      have called : shellInputByte system.shell b alloc = shellCbExecuteDefault system.shell alloc := by
        unfold shellInputByte
        rw [ground.operations]
        simp only [endsLine_iff.mp ends, ↓reduceIte]
      rw [called] at taken
      split at taken
      case h_1 => cases taken
      case h_2 shell stop actions returned =>
        cases taken
        rcases execute_cases text returned with ⟨blank, same⟩ | ⟨found, same | ⟨list, same⟩⟩
        · cases same
          simp only [shellUiPutPrompt, shellContextGetState, ground.tidy.idle, ↓reduceIte]
          exact .kept ends blank
        · cases same
          exact .stopped ends found
        · cases same
      case h_3 shell list actions spawns =>
        cases taken
        rcases execute_cases text spawns with ⟨blank, same⟩ | ⟨found, same | ⟨list, same⟩⟩
        · cases same
        · cases same
        · cases same
          exact .handed ends found

/-! ## Plain output -/

private theorem plain_echo (usual : deletes b = true ∨ Printable b) (line : List UInt8) :
    ∀ action ∈ echoOf line b, PlainAction action := by
  unfold echoOf
  split
  · split
    · simp
    · simp [shellCbOutputStr, PlainAction, Plain]
      decide
  · rename_i kept
    split
    · simpa [PlainAction, Plain] using Or.inl (usual.resolve_left kept)
    · simp

private theorem plain_handler (handler : Handler) (args : Tokenizer.TokenList) (changed : Bool) :
    ∀ action ∈ (runHandler handler args changed).2, PlainAction action := by
  cases handler with
  | shellBuiltinExit => simp [runHandler]
  | shellBuiltinCd =>
    simp only [runHandler, shellBuiltinCd]
    split
    · simp [PlainAction]
    · cases changed <;> simp [PlainAction]

private theorem plain_prompt (shell : Shell) (newline : Bool) :
    ∀ action ∈ shellUiPutPrompt shell newline, PlainAction action := by
  unfold shellUiPutPrompt
  split
  · cases newline <;> simp [PlainAction]
  · simp

private theorem main_plain (ground : Ground columns system) (moves : MainMoves system answer next) :
    PlainOutput (performed next.trace) ∧ next.kernel.unread = system.kernel.unread := by
  cases moves with
  | opened pc ran =>
    obtain ⟨_, _, _, rfl⟩ := Terminals.Kernel.openpty_some ran
    exact ⟨ground.output, rfl⟩
  | forked pc ran =>
    obtain ⟨_, _, _, _, rfl⟩ := Terminals.Kernel.fork_some ran
    exact ⟨ground.output, rfl⟩
  | closedSlave pc =>
    refine ⟨ground.output, ?_⟩
    unfold Terminals.Kernel.close
    split <;> rfl
  | builtin pc found =>
    exact ⟨plain_performed (plain_performed ground.output (plain_handler _ _ _)) (plain_prompt _ _), rfl⟩
  | entered | unopened | external | unforked | storedPid | running | created | uncreated | finished =>
    exact ⟨ground.output, rfl⟩

private theorem thread_plain (ground : Ground columns system) (moves : ThreadMoves system thread answer after pc) :
    PlainOutput (performed after.trace) ∧ ∀ pty, ∀ b ∈ after.kernel.unread pty, Plain b := by
  obtain ⟨_, _, _, _, _, output, unread⟩ := ground
  cases moves with
  | took _ ran =>
    obtain ⟨pty, _, _, rfl, rfl⟩ := Terminals.Kernel.read_some ran
    refine ⟨plain_performed output fun action member => ?_, fun other b member => ?_⟩
    · obtain ⟨b, inside, rfl⟩ := List.mem_map.mp member
      exact unread pty b (List.mem_of_mem_take inside)
    · simp only at member
      split at member
      · exact unread pty b (List.mem_of_mem_drop member)
      · exact unread other b member
  | unread _ ran =>
    obtain ⟨rfl, _⟩ := Terminals.Kernel.read_none ran
    exact ⟨output, unread⟩
  | reaped _ ran =>
    obtain ⟨_, _, _, _, _, rfl⟩ := Terminals.Kernel.waitpid_true ran
    exact ⟨output, unread⟩
  | unreaped _ ran =>
    obtain ⟨rfl, _⟩ := Terminals.Kernel.waitpid_false ran
    exact ⟨output, unread⟩
  | prompted =>
    refine ⟨plain_performed output ?_, unread⟩
    exact List.forall_mem_cons.mpr ⟨trivial, plain_prompt _ _⟩
  | entered | tested | armed | reported | timedOut | loaded | waited | stopped | left => exact ⟨output, unread⟩

/-! ## What stays true -/

private theorem input_ground (ground : Ground columns system) (usual : Usual columns system (.input b alloc))
    (taken : Executer.step system (.input b alloc) = some next) : Ground columns next := by
  have tidy := tidy_step ground.tidy taken
  obtain ⟨ready, reads⟩ := input_reads ground taken
  have master := ground.master
  have fits := ground.fits ready
  have shape := usual.2
  cases reads with
  | @edited after inside now operations exec =>
    have shorter := shape.resolve_left (by simp [inside])
    refine ⟨tidy, operations, fun _ => ?_, fun _ => ?_, fun opened => ?_, ?_, ground.unread⟩
    · rw [typed_line now]
      exact now
    · rw [typed_line now, edit, if_neg (by simp [inside])]
      rcases shorter with deleting | ⟨_, room⟩
      · rw [if_pos deleting, List.length_dropLast]
        omega
      · split
        · rw [List.length_dropLast]
          omega
        · split
          · rw [List.length_append, List.length_singleton]
            omega
          · exact fits
    · show 0 ≤ after.exec.masterFd
      rw [exec]
      exact master opened
    · exact plain_performed ground.output (plain_echo (shorter.imp_right And.left) _)
  | kept ends blank =>
    exact ⟨tidy, ground.operations, ground.typed, ground.fits, master,
      plain_performed ground.output (by simp [PlainAction]), ground.unread⟩
  | stopped ends found =>
    exact ⟨tidy, ground.operations, ground.typed, ground.fits, master,
      plain_performed ground.output (by simp [PlainAction]), ground.unread⟩
  | handed ends found =>
    refine ⟨tidy, ground.operations, (by simp), (by simp), ?_,
      plain_performed ground.output (by simp [PlainAction]), ground.unread⟩
    rintro (some_ | past)
    · exact master (.inl some_)
    · exact past.elim

theorem step_ground (wide : promptText.length < columns) (ground : Ground columns system)
    (usual : Usual columns system event) (taken : Executer.step system event = some next) : Ground columns next := by
  have tidy := tidy_step ground.tidy taken
  cases event with
  | input b alloc => exact input_ground ground usual taken
  | main answer =>
    have unedited := step_unedited (by simp) taken
    obtain ⟨output, unread⟩ := main_plain ground (mainStep_moves taken)
    exact ⟨tidy, unedited.operations.trans ground.operations, typed_other ground unedited,
      fits_other wide ground unedited, main_master ground (mainStep_moves taken), output,
      by rw [unread]; exact ground.unread⟩
  | thread index answer =>
    have unedited := step_unedited (by simp) taken
    have typed := typed_other ground unedited
    have fits := fits_other wide ground unedited
    obtain ⟨thread, after, pc, here, moves, rfl⟩ := step_thread taken
    obtain ⟨same, _, _⟩ := thread_master moves
    obtain ⟨output, unread⟩ := thread_plain ground moves
    refine ⟨tidy, unedited.operations.trans ground.operations, typed, fits, fun _ => ?_, output, unread⟩
    show 0 ≤ after.shell.exec.masterFd
    rw [same]
    exact ground.master (.inl (List.ne_nil_of_mem (List.mem_of_getElem? here)))
  | childWrites pid bytes =>
    have unedited := step_unedited (by simp) taken
    obtain ⟨kernel, ran, rfl⟩ := Option.map_eq_some_iff.mp taken
    obtain ⟨child, _, _, _, rfl⟩ := Terminals.Kernel.childWrites_some ran
    refine ⟨tidy, ground.operations, typed_other ground unedited, fits_other wide ground unedited, ground.master,
      ground.output, fun pty b member => ?_⟩
    simp only at member
    split at member
    · rcases List.mem_append.mp member with old | new
      · exact ground.unread pty b old
      · exact usual b new
    · exact ground.unread pty b member
  | childExits pid =>
    have unedited := step_unedited (by simp) taken
    obtain ⟨kernel, ran, rfl⟩ := Option.map_eq_some_iff.mp taken
    obtain ⟨_, _, _, _, rfl⟩ := Terminals.Kernel.childExits_some ran
    exact ⟨tidy, ground.operations, typed_other ground unedited, fits_other wide ground unedited, ground.master,
      ground.output, ground.unread⟩

/-! ## The screen -/

/-- An echoed byte keeps the line in sight. -/
theorem seen_edited (documented : terminal.Documented columns) (seen : Seen terminal columns trace line)
    (fits : promptText.length + line.length < columns)
    (usual : deletes b = true ∨ Printable b ∧ promptText.length + line.length + 1 < columns)
    (inside : endsLine b = false) : Seen terminal columns (trace ++ echoOf line b) (edit line b) := by
  have kept : ¬ endsLine b = true := by simp [inside]
  rw [echoOf, edit, if_neg kept]
  by_cases shorter : deletes b = true
  · rw [if_pos shorter, if_pos shorter]
    rcases List.eq_nil_or_concat line with rfl | ⟨text, last, rfl⟩
    · rw [if_pos rfl, List.append_nil]
      exact seen
    · rw [List.concat_eq_append] at seen ⊢
      rw [if_neg (by simp), List.dropLast_concat]
      refine seen_erase documented seen ?_
      rw [List.length_concat] at fits
      omega
  · obtain ⟨printable, behind⟩ := usual.resolve_left shorter
    rw [if_neg shorter, if_neg shorter]
    by_cases room : line.length < 1023
    · rw [if_pos room, if_pos room]
      exact seen_echo documented seen printable behind
    · rw [if_neg room, if_neg room, List.append_nil]
      exact seen

private theorem input_screen_iff (documented : terminal.Documented columns) (wide : promptText.length < columns)
    (ground : Ground columns system) (before : Screen terminal columns system)
    (usual : Usual columns system (.input b alloc)) (taken : Executer.step system (.input b alloc) = some next) :
    Screen terminal columns next ↔ Clean terminal columns system (.input b alloc) := by
  obtain ⟨ready, reads⟩ := input_reads ground taken
  obtain ⟨quiet, shape⟩ := usual
  obtain ⟨one, point⟩ := before
  rw [ready] at point
  have seen := point.1 quiet
  cases reads with
  | @edited after inside now operations exec =>
    refine iff_of_true ⟨one, ?_⟩ (fun ends => absurd ends (by simp [inside]))
    have shown_ : Seen terminal columns (system.trace ++ echoOf (storedLine system.shell) b) (storedLine after) := by
      rw [typed_line now]
      exact seen_edited documented seen (ground.fits ready) (shape.resolve_left (by simp [inside])) inside
    simp only [ready]
    exact ⟨fun _ => shown_, fun active => absurd quiet active⟩
  | kept ends blank =>
    have row := fresh_tokenized documented ground.output seen.1 ((storedLine system.shell).takeWhile (· ≠ 0))
    have prompted := seen_prompt_iff documented wide row (storedLine system.shell)
    rw [List.append_assoc] at prompted
    constructor
    · rintro ⟨_, after⟩ _
      simp only [ready] at after
      exact .inl (prompted.mp (after.1 quiet))
    · intro clean
      have none_ := (clean ends).resolve_right blank
      refine ⟨one, ?_⟩
      simp only [ready]
      exact ⟨fun _ => prompted.mpr none_, fun active => absurd quiet active⟩
  | stopped ends found =>
    refine iff_of_true ⟨one, ?_⟩ (fun _ => .inr found)
    simp only [ready]
    exact ⟨fun _ => seen_tokenize seen _, fun active => absurd quiet active⟩
  | handed ends found =>
    exact iff_of_true ⟨one, quiet, fresh_tokenized documented ground.output seen.1 _⟩ (fun _ => .inr found)

private theorem main_screen (documented : terminal.Documented columns) (wide : promptText.length < columns)
    (ground : Ground columns system) (before : Screen terminal columns system)
    (usual : Usual columns system (.main answer)) (taken : mainStep system answer = some next) :
    Screen terminal columns next := by
  obtain ⟨one, point⟩ := before
  cases mainStep_moves taken with
  | entered pc | external pc | forked pc ran | storedPid pc | closedSlave pc | running pc =>
    rw [pc] at point
    exact ⟨one, point⟩
  | opened pc ran =>
    rw [pc] at point
    refine ⟨one, ?_⟩
    rw [if_neg (by simp [ground.tidy.base])]
    exact point
  | unopened pc | unforked pc =>
    simp only [Usual, Succeeds, pc] at usual
    exact absurd rfl usual
  | @builtin list handler answer pc found =>
    rw [pc] at point
    simp only [Usual, Succeeds, pc] at usual
    refine ⟨one, fun _ => ?_⟩
    simp only [shellUiPutPrompt, shellContextGetState, ground.tidy.idle, ↓reduceIte]
    exact seen_after_builtin documented wide point.2 (usual handler found)
  | @created pty pc =>
    rw [pc] at point
    refine ⟨?_, fun quiet => ?_⟩
    · rw [List.dropLast_concat]
      exact point.1
    · have active := quiet ⟨.enter, pty⟩ (List.mem_append_right _ (List.mem_singleton_self _))
      cases active
  | @uncreated pty answer pc =>
    simp only [Usual, Succeeds, pc] at usual
    simp only [mainStep, pc, usual, ↓reduceIte, Option.some.injEq, System.mk.injEq] at taken
    exact absurd taken.2.2.2.1 (by simp)
  | finished pc =>
    rw [pc] at point
    have none_ : storedLine (clearCommandLine system.shell) = [] := rfl
    refine ⟨one, fun quiet => ?_, fun _ => none_⟩
    rw [none_]
    exact point quiet

/-- The thread that moves is the last, and the others are done. -/
private theorem moves_last {threads : List Thread} {thread : Thread}
    (one : ∀ thread ∈ threads.dropLast, thread.pc = .done)
    (here : threads[index]? = some thread) (active : thread.pc ≠ .done) :
    ∃ front, threads = front ++ [thread] ∧ index = front.length ∧ ∀ thread ∈ front, thread.pc = .done := by
  rcases List.eq_nil_or_concat threads with rfl | ⟨front, last, split⟩
  · simp at here
  · rw [List.concat_eq_append] at split
    subst split
    rw [List.dropLast_concat] at one
    rcases Nat.lt_trichotomy index front.length with early | rfl | late
    · rw [List.getElem?_append_left early] at here
      exact absurd (one thread (List.mem_of_getElem? here)) active
    · simp only [List.getElem?_concat_length, Option.some.injEq] at here
      exact ⟨front, by rw [here], rfl, one⟩
    · rw [List.getElem?_eq_none (by rw [List.length_append]; exact late)] at here
      cases here

/-- A thread that goes on, or shows its prompt and is done. -/
private theorem thread_goes_on (moves : ThreadMoves system thread answer after pc)
    (master : 0 ≤ system.shell.exec.masterFd) :
    (thread.pc ≠ .prompt ∧ pc ≠ .done) ∨
      (thread.pc = .prompt ∧ pc = .done ∧
        after = { system with trace := system.trace ++ .flush :: shellUiPutPrompt system.shell false }) := by
  cases moves with
  | entered here =>
    rw [if_neg (Int.not_lt.mpr master)]
    exact .inl ⟨by simp [here], by simp⟩
  | tested here =>
    refine .inl ⟨by simp [here], ?_⟩
    split <;> simp
  | prompted here => exact .inr ⟨here, rfl, rfl⟩
  | armed here | reported here | timedOut here | loaded here | took here | unread here | waited here
  | reaped here | unreaped here | stopped here | left here => exact .inl ⟨by simp [here], by simp⟩

/-- While a thread is there, the main thread is behind its command. -/
private theorem main_of_busy (before : Screen terminal columns system) (busy : ¬ Quiet system) :
    system.main = .finish ∨ (system.main = .ready ∧ storedLine system.shell = []) := by
  obtain ⟨_, point⟩ := before
  cases pc : system.main with
  | ready =>
    rw [pc] at point
    exact .inr ⟨rfl, point.2 busy⟩
  | finish => exact .inl rfl
  | enter | openpty | dispatch | fork | storePid | closeSlave | setRunning | createThread | crashed =>
    rw [pc] at point
    exact absurd point.1 busy

private theorem thread_screen_iff (documented : terminal.Documented columns) (wide : promptText.length < columns)
    (ground : Ground columns system) (before : Screen terminal columns system)
    (taken : Executer.step system (.thread index answer) = some next) :
    Screen terminal columns next ↔ Clean terminal columns system (.thread index answer) := by
  have unedited := step_unedited (by simp) taken
  obtain ⟨thread, after, pc, here, moves, rfl⟩ := step_thread taken
  obtain ⟨_, sameThreads, sameMain⟩ := thread_master moves
  obtain ⟨front, threads, rfl, others⟩ := moves_last before.1 here (moves_not_done moves)
  have busy : ¬ Quiet system := fun quiet => moves_not_done moves (quiet thread (List.mem_of_getElem? here))
  have some_ : system.threads ≠ [] := List.ne_nil_of_mem (List.mem_of_getElem? here)
  have moved : after.threads.set front.length { thread with pc := pc } = front ++ [{ thread with pc := pc }] := by
    rw [sameThreads, threads]
    simp
  simp only [moved]
  have only : ∀ other ∈ (front ++ [{ thread with pc := pc }]).dropLast, other.pc = .done := by
    rw [List.dropLast_concat]
    exact others
  have main := main_of_busy before busy
  have line : system.main = .ready → storedLine after.shell = storedLine system.shell := by
    intro ready
    rcases unedited.line with ⟨_, buffer, len⟩ | ⟨away, _⟩ | ⟨away, _⟩
    · rw [storedLine, storedLine]
      exact congrArg₂ (readBytes · 0 ·) buffer len
    · exact absurd ready away
    · exact absurd ready away
  rcases thread_goes_on moves (ground.master (.inl some_)) with ⟨early, going⟩ | ⟨last, rfl, rfl⟩
  · have clean : Clean terminal columns system (.thread front.length answer) := by
      intro other same prompting
      obtain rfl := Option.some.inj (here.symm.trans same)
      exact absurd prompting early
    have still : ¬ Quiet { after with threads := front ++ [{ thread with pc := pc }] } := fun quiet =>
      going (quiet { thread with pc := pc } (List.mem_append_right _ (List.mem_singleton_self _)))
    refine iff_of_true ⟨only, ?_⟩ clean
    rcases main with finish | ⟨ready, none_⟩
    · simp only [sameMain, finish]
      exact fun quiet => absurd quiet still
    · simp only [sameMain, ready]
      exact ⟨fun quiet => absurd quiet still, fun _ => (line ready).trans none_⟩
  · have quiet : ∀ other ∈ front ++ [{ thread with pc := ThreadPc.done }], other.pc = .done := by
      intro other member
      rcases List.mem_append.mp member with old | new
      · exact others other old
      · rw [List.mem_singleton.mp new]
    have clean : Clean terminal columns system (.thread front.length answer) ↔
        ∀ i < columns, promptText.length ≤ i → terminal.cell (screen terminal system.trace) i = blank :=
      ⟨fun clean => clean thread here last, fun row _ _ _ => row⟩
    rw [clean, ← seen_after_output documented wide]
    have prompt : shellUiPutPrompt system.shell false = [.carriageReturn, .prompt] := by
      simp [shellUiPutPrompt, shellContextGetState, ground.tidy.idle]
    rw [prompt]
    rcases main with finish | ⟨ready, none_⟩
    · simp only [Screen, finish, Quiet]
      exact ⟨fun after => after.2 quiet, fun seen => ⟨only, fun _ => seen⟩⟩
    · simp only [Screen, ready, Quiet, none_]
      exact ⟨fun after => after.2.1 quiet, fun seen => ⟨only, fun _ => seen, fun _ => trivial⟩⟩

/-- A usual step keeps the line in sight exactly if it is clean. -/
theorem step_screen_iff (documented : terminal.Documented columns) (wide : promptText.length < columns)
    (ground : Ground columns system) (before : Screen terminal columns system) (usual : Usual columns system event)
    (taken : Executer.step system event = some next) :
    Screen terminal columns next ↔ Clean terminal columns system event := by
  cases event with
  | input b alloc => exact input_screen_iff documented wide ground before usual taken
  | main answer => exact iff_of_true (main_screen documented wide ground before usual taken) trivial
  | thread index answer => exact thread_screen_iff documented wide ground before taken
  | childWrites pid bytes | childExits pid =>
    obtain ⟨kernel, _, rfl⟩ := Option.map_eq_some_iff.mp taken
    exact iff_of_true before trivial

theorem screen_boot (documented : terminal.Documented columns) (wide : promptText.length < columns) :
    Screen terminal columns boot := by
  have fresh : Fresh terminal columns ([] ++ [.blankline]) :=
    fresh_newline documented (fun b member => absurd member List.not_mem_nil) rfl
  refine ⟨by simp [boot], fun _ => (seen_prompt_iff documented wide fresh []).mpr rfl, fun busy => ?_⟩
  exact absurd (by simp [Quiet, boot]) busy

/-- Whatever is typed and run, one command at a time: between two commands the cursor's row
shows the prompt and the line that the next carriage return hands over, throughout exactly if
no blank line is handed over and no command leaves text behind in its last row. -/
theorem line_in_sight_iff_clean (documented : terminal.Documented columns) (wide : promptText.length < columns)
    (events : List Event) :
    Throughout Executer.step (Screen terminal columns) boot events ∧
        EachStep Executer.step (Usual columns) boot events ↔
      EachStep Executer.step (fun system event => Usual columns system event ∧ Clean terminal columns system event)
        boot events :=
  throughout_and_each_step_iff (fun _ _ _ ground _ _ usual taken => step_ground wide ground usual taken)
    (fun _ _ _ ground before taken => by
      constructor
      · exact fun both => ⟨both.2, (step_screen_iff documented wide ground before both.2 taken).mp both.1⟩
      · exact fun both => ⟨(step_screen_iff documented wide ground before both.1 taken).mpr both.2, both.1⟩)
    (ground_boot wide) (screen_boot documented wide)

end

/-! ## An ordinary terminal -/

/-- The cursor's row, and its column. Column 80 is behind a byte in the last cell, which the
next one leaves for a new row. -/
structure Page where
  row : Nat → UInt8
  column : Nat

/-- A terminal of the 80 columns that `main` passes to `shell_init`. -/
def page : Terminal Page where
  initial := ⟨fun _ => blank, 0⟩
  put page b :=
    if b = 0x0d then { page with column := 0 }
    else if b = 0x0a then { page with row := fun _ => blank }
    else if b = 0x08 then { page with column := page.column - 1 }
    else if Printable b then
      if page.column < 80 then ⟨fun i => if i = page.column then b else page.row i, page.column + 1⟩
      else ⟨fun i => if i = 0 then b else blank, 1⟩
    else page
  cell := Page.row
  column := Page.column

theorem page_documented : page.Documented 80 where
  printable before b printable room := by
    have plain : b ≠ 0x0d ∧ b ≠ 0x0a ∧ b ≠ 0x08 := by
      refine ⟨?_, ?_, ?_⟩ <;> rintro rfl <;> exact absurd printable.1 (by decide)
    have inside : before.column < 80 := Nat.lt_of_succ_lt room
    simp only [page, plain, printable, inside, ↓reduceIte]
    exact ⟨fun _ _ => rfl, trivial⟩
  backspace before _ _ := ⟨fun _ _ => rfl, rfl⟩
  carriageReturn before := ⟨fun _ _ => rfl, rfl⟩
  lineFeed written _ := by
    rw [Terminal.display, List.foldl_append]
    exact ⟨fun _ _ => rfl, rfl⟩

instance : Decidable (Quiet system) := inferInstanceAs (Decidable (∀ thread ∈ system.threads, _))

instance (alloc : Nat → Bool) (line : List UInt8) : Decidable (Tokenizes alloc line) :=
  decidable_of_iff ((Tokenizer.shellTokenize alloc (some line)).join.any (·.count ≠ 0) = true)
    (by simp [Tokenizes, Option.any_eq_true, Option.join_eq_some_iff])

instance : Decidable (Succeeds shell answer pc) := by
  cases pc
  case openpty | fork => exact inferInstanceAs (Decidable (answer ≠ .failed))
  case createThread => exact inferInstanceAs (Decidable (answer = .ok))
  case dispatch list => exact inferInstanceAs (Decidable (∀ handler ∈ findBuiltin shell list, _))
  all_goals exact isTrue trivial

instance : Decidable (Usual columns system event) := by
  cases event
  case input => exact inferInstanceAs (Decidable (Quiet system ∧ _))
  case main answer => exact inferInstanceAs (Decidable (Succeeds system.shell answer system.main))
  case childWrites bytes => exact inferInstanceAs (Decidable (∀ b ∈ bytes, Plain b))
  all_goals exact isTrue trivial

instance {terminal : Terminal Display} : Decidable (Clean terminal columns system event) := by
  cases event
  case input => exact inferInstanceAs (Decidable (_ → _ ∨ _))
  case thread index _ => exact inferInstanceAs (Decidable (∀ thread ∈ system.threads[index]?, _))
  all_goals exact isTrue trivial

/-- The line `l`, its output `x` and a line end, and then the line `a`, deleted and typed as
`b`: the prompt and `b` are seen. -/
theorem typed_behind_output :
    ∃ final, exec Executer.step boot
      [.input 0x6c fun _ => true, .input 0x0d fun _ => true, .main .ok, .main (.pair 3 4), .main .ok,
        .main (.number 100), .main .ok, .main .ok, .main .ok, .main .ok, .main .ok,
        .childWrites 100 [0x78, 0x0d, 0x0a], .thread 0 .ok, .thread 0 .ok, .thread 0 .ok, .thread 0 .ok,
        .thread 0 .ok, .thread 0 (.number 3), .thread 0 .ok, .childExits 100, .thread 0 .ok, .thread 0 .ok,
        .thread 0 .ok, .thread 0 .ok, .input 0x61 fun _ => true, .input 0x7f fun _ => true,
        .input 0x62 fun _ => true] = some final ∧
      Quiet final ∧ page.Shows 80 (screen page final.trace) [0x20, 0x20, 0x62] := by
  have ran : (exec Executer.step boot
      [.input 0x6c fun _ => true, .input 0x0d fun _ => true, .main .ok, .main (.pair 3 4), .main .ok,
        .main (.number 100), .main .ok, .main .ok, .main .ok, .main .ok, .main .ok,
        .childWrites 100 [0x78, 0x0d, 0x0a], .thread 0 .ok, .thread 0 .ok, .thread 0 .ok, .thread 0 .ok,
        .thread 0 .ok, .thread 0 (.number 3), .thread 0 .ok, .childExits 100, .thread 0 .ok, .thread 0 .ok,
        .thread 0 .ok, .thread 0 .ok, .input 0x61 fun _ => true, .input 0x7f fun _ => true,
        .input 0x62 fun _ => true]).map
      (fun system => (system.main, system.threads, storedLine system.shell)) =
        some (.ready, [⟨.done, 0⟩], [0x62]) := by
    decide +kernel
  obtain ⟨final, reached, seen⟩ := Option.map_eq_some_iff.mp ran
  simp only [Prod.mk.injEq] at seen
  have quiet : Quiet final := by simp [Quiet, seen.2.1]
  have sight := throughout_final ((line_in_sight_iff_clean page_documented (by decide) _).mpr
    (by decide +kernel)).1 reached
  rw [Screen, seen.1] at sight
  have line := (sight.2.1 quiet).2
  rw [seen.2.2] at line
  exact ⟨final, reached, quiet, line⟩

end ShapeQuake.ShellScreen
