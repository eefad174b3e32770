import ShapeQuake.Executer
import ShapeQuake.TokenizerProofs

/-! The command line against a reference editor that keeps the line as a list
of bytes. The two agree until a line is handed over that holds a null byte,
which ends the C string early, or that is not empty and yields no token, which
`shell_cb_execute_default` returns from without clearing it. Read threads and
spawned commands interleave freely: none of them touches the line, except that
a spawn writes into the buffer that it clears when it is done. -/
namespace ShapeQuake.LineEditorProofs
open Library.Bytes Library.Runs ShellCore Terminals Executer Tokenizer TokenizerProofs

/-! ## The reference editor -/

/-- A byte that hands the line over. -/
def endsLine (b : UInt8) : Bool := b == 0x0d || b == 0x0a

/-- A byte that deletes. -/
def deletes (b : UInt8) : Bool := b == 0x7f || b == 0x08

/-- The line after one more byte. -/
def edit (line : List UInt8) (b : UInt8) : List UInt8 :=
  if endsLine b then []
  else if deletes b then line.dropLast
  else if line.length < 1023 then line ++ [b]
  else line

/-- The process, the reference editor's line, and the lines it has handed over. -/
structure State where
  system : System
  line : List UInt8
  expected : List (List UInt8)

/-- The process when the first byte is read. -/
def start : State := ⟨boot, [], []⟩

/-- A step of the process. The editor follows the bytes, and a run ends before
an `exit` command. -/
def step (state : State) (event : Event) : Option State :=
  match Executer.step state.system event with
  | none => none
  | some next =>
    if next.stopRequired then none
    else
      match event with
      | .input b _ =>
        some ⟨next, edit state.line b,
          if endsLine b then state.expected ++ [state.line] else state.expected⟩
      | _ => some { state with system := next }

/-- The lines the tokenizer was given. -/
def handed (trace : List Action) : List (List UInt8) :=
  trace.filterMap fun
    | .tokenize line => some line
    | _ => none

/-- Every line handed to the tokenizer is the editor's, and between bytes the
length is that of the editor's line. -/
def Edits (state : State) : Prop :=
  handed state.system.trace = state.expected ∧
    (state.system.main = .ready → state.system.shell.commandLineLen = state.line.length)

/-- The stored bytes that make up the line. -/
def storedLine (shell : Shell) : List UInt8 :=
  readBytes shell.commandLineBuffer 0 shell.commandLineLen

/-- The tokenizer finds a token in the line, and memory for it. -/
def Tokenizes (alloc : Nat → Bool) (line : List UInt8) : Prop :=
  ∃ list, shellTokenize alloc (some line) = some (some list) ∧ list.count ≠ 0

/-- A line is handed over without a null byte, and empty or with a token. -/
def HandsOver (state : State) : Event → Prop
  | .input b alloc =>
    endsLine b = true →
      0 ∉ storedLine state.system.shell ∧
        (storedLine state.system.shell = [] ∨ Tokenizes alloc (storedLine state.system.shell))
  | _ => True

/-! ## What the trace hands over -/

private theorem handed_append (first second : List Action) :
    handed (first ++ second) = handed first ++ handed second :=
  List.filterMap_append

private theorem handed_prompt (shell : Shell) (newline : Bool) :
    handed (shellUiPutPrompt shell newline) = [] := by
  unfold shellUiPutPrompt
  split
  · cases newline <;> rfl
  · rfl

private theorem handed_chars (bytes : List UInt8) : handed (bytes.map .dispatchChar) = [] := by
  induction bytes with
  | nil => rfl
  | cons byte bytes ih => exact ih

private theorem handed_handler (handler : Handler) (args : TokenList) (changed : Bool) :
    handed (runHandler handler args changed).2 = [] := by
  cases handler with
  | shellBuiltinCd =>
    simp only [runHandler, shellBuiltinCd]
    split
    · rfl
    · cases changed <;> rfl
  | shellBuiltinExit => rfl

/-! ## Steps without a byte -/

/-- A step without a byte hands over nothing, and leaves the line as it is,
works outside the loop of `main`, or clears the line and goes back there. -/
structure Unedited (system next : System) : Prop where
  silent : handed next.trace = handed system.trace
  operations : next.shell.operations = system.shell.operations
  line : (next.main = system.main ∧
      next.shell.commandLineBuffer = system.shell.commandLineBuffer ∧
      next.shell.commandLineLen = system.shell.commandLineLen) ∨
    (system.main ≠ .ready ∧ next.main ≠ .ready) ∨
    (system.main ≠ .ready ∧ next.shell.commandLineLen = 0 ∧
      next.shell.commandLineBuffer =
        clearBytes system.shell.commandLineBuffer 0 commandLineBufSize)

private theorem setState_operations (shell : Shell) (ptr : Option ShellPtr) (state : ShellState) :
    (shellContextSetState shell ptr state).operations = shell.operations := by
  rcases ptr with _ | _ | _ <;> rfl

private theorem setState_member_line (shell : Shell) (ptr : Option ShellPtr) (state : ShellState) :
    (shellContextSetState shell (memberCtx ptr) state).commandLineBuffer =
      shell.commandLineBuffer := by
  rcases ptr with _ | _ | _ <;> rfl

private theorem main_unedited (moves : MainMoves system answer next) : Unedited system next := by
  cases moves with
  | entered pc =>
    exact ⟨rfl, setState_operations _ _ _, Or.inr (Or.inl ⟨by simp [pc], by simp⟩)⟩
  | opened pc ran =>
    refine ⟨rfl, rfl, Or.inr (Or.inl ⟨by simp [pc], ?_⟩)⟩
    simp only
    split <;> simp
  | unopened pc | unforked pc =>
    exact ⟨by simp [handed], rfl, Or.inr (Or.inl ⟨by simp [pc], by simp⟩)⟩
  | builtin pc found =>
    refine ⟨?_, rfl, Or.inr (Or.inl ⟨by simp [pc], by simp⟩)⟩
    simp only [handed_append, handed_handler, handed_prompt, List.append_nil]
  | external pc | forked pc | storedPid pc | closedSlave pc | running pc | created pc
  | uncreated pc =>
    exact ⟨rfl, rfl, Or.inr (Or.inl ⟨by simp [pc], by simp⟩)⟩
  | finished pc => exact ⟨rfl, rfl, Or.inr (Or.inr ⟨by simp [pc], rfl, rfl⟩)⟩

/-- A read thread moves no part of the line. -/
private theorem thread_unedited (moves : ThreadMoves system thread answer next pc) :
    handed next.trace = handed system.trace ∧
      next.shell.operations = system.shell.operations ∧ next.main = system.main ∧
      next.shell.commandLineBuffer = system.shell.commandLineBuffer ∧
      next.shell.commandLineLen = system.shell.commandLineLen := by
  cases moves with
  | took =>
    refine ⟨?_, rfl, rfl, rfl, rfl⟩
    simp only [handed_append, handed_chars, List.append_nil]
  | left =>
    exact ⟨rfl, setState_operations _ _ _, rfl, setState_member_line _ _ _, setState_len _ _ _⟩
  | prompted =>
    refine ⟨?_, rfl, rfl, rfl, rfl⟩
    rw [handed_append]
    show _ ++ handed (shellUiPutPrompt system.shell false) = _
    rw [handed_prompt, List.append_nil]
  | _ => exact ⟨rfl, rfl, rfl, rfl, rfl⟩

/-- A step without a byte leaves the line to the editor. -/
theorem step_unedited (other : ∀ b alloc, event ≠ .input b alloc)
    (taken : Executer.step system event = some next) : Unedited system next := by
  cases event with
  | input b alloc => exact absurd rfl (other b alloc)
  | main answer => exact main_unedited (mainStep_moves taken)
  | thread index answer =>
    obtain ⟨thread, after, pc, _, moves, rfl⟩ := step_thread taken
    obtain ⟨silent, operations, line⟩ := thread_unedited moves
    exact ⟨silent, operations, Or.inl line⟩
  | childWrites pid bytes | childExits pid =>
    obtain ⟨kernel, _, rfl⟩ := Option.map_eq_some_iff.mp taken
    exact ⟨rfl, rfl, Or.inl ⟨rfl, rfl, rfl⟩⟩

/-! ## Bytes -/

theorem endsLine_iff : endsLine b = true ↔ b = 0x0d ∨ b = 0x0a := by
  simp [endsLine]

theorem deletes_iff : deletes b = true ↔ b = 0x7f ∨ b = 0x08 := by
  simp [deletes]

/-- The C string in the buffer is the stored line up to its first null. -/
theorem cString_line (contents : readBytes store 0 line.length = line)
    (ended : store line.length = 0) (within : line.length < size) :
    cString store size = some (line.takeWhile (· ≠ 0)) := by
  have split : readBytes store 0 size =
      line ++ 0 :: readBytes store (line.length + 1) (size - line.length - 1) := by
    have whole := readBytes_append store 0 line.length (size - line.length)
    rw [Nat.add_sub_cancel' (Nat.le_of_lt within), contents, Nat.zero_add] at whole
    rw [whole]
    obtain ⟨rest, more⟩ : ∃ rest, size - line.length = rest + 1 :=
      ⟨size - line.length - 1, by omega⟩
    rw [more, Nat.add_sub_cancel]
    simp only [readBytes, ended]
  unfold cString
  simp only [split, List.mem_append, List.mem_cons, true_or, or_true, ↓reduceIte]
  congr 1
  by_cases null : 0 ∈ line
  · obtain ⟨before, after, rfl⟩ := List.append_of_mem null
    simp only [List.append_assoc, List.cons_append]
    rw [List.takeWhile_append, List.takeWhile_append]
    split <;> simp
  · have solid : ∀ byte ∈ line, decide (byte ≠ 0) = true := by
      intro byte member
      apply decide_eq_true
      intro zero
      exact null (zero ▸ member)
    rw [List.takeWhile_append_of_pos solid, List.takeWhile_eq_self_iff.mpr solid]
    simp

theorem takeWhile_line (line : List UInt8) :
    line.takeWhile (· ≠ 0) = line ↔ 0 ∉ line := by
  rw [List.takeWhile_eq_self_iff]
  constructor
  · intro solid null
    have zero := solid 0 null
    cases zero
  · intro absent byte member
    apply decide_eq_true
    intro zero
    exact absent (zero ▸ member)

/-- `shell_cb_execute_default` on the C string in the buffer: it returns with
the line as it is when there is no token, it stops, or it goes on to spawn. -/
theorem execute_cases (stored : cString shell.commandLineBuffer commandLineBufSize = some text)
    (ran : shellCbExecuteDefault shell alloc = some execution) :
    (¬ Tokenizes alloc text ∧
      execution = .returned shell false (.tokenize text :: shellUiPutPrompt shell true)) ∨
    (Tokenizes alloc text ∧
      (execution = .returned shell true [.tokenize text] ∨
        ∃ list, execution =
          .spawns { shell with exec := { shell.exec with shellContext := some .base } } list
            [.tokenize text, .blankline])) := by
  unfold shellCbExecuteDefault at ran
  obtain ⟨line, same, ran⟩ := Option.bind_eq_some_iff.mp ran
  cases stored.symm.trans same
  obtain ⟨result, tokenized, ran⟩ := Option.bind_eq_some_iff.mp ran
  cases result with
  | none =>
    refine Or.inl ⟨?_, (Option.some.inj ran).symm⟩
    rintro ⟨list, same, _⟩
    rw [tokenized] at same
    cases same
  | some list =>
    simp only at ran
    split at ran
    · rename_i none_
      refine Or.inl ⟨?_, (Option.some.inj ran).symm⟩
      rintro ⟨other, same, some_⟩
      rw [tokenized] at same
      cases same
      exact some_ none_
    · rename_i some_
      obtain ⟨first, _, ran⟩ := Option.bind_eq_some_iff.mp ran
      refine Or.inr ⟨⟨list, tokenized, some_⟩, ?_⟩
      split at ran
      · exact Or.inl (Option.some.inj ran).symm
      · exact Or.inr ⟨list, (Option.some.inj ran).symm⟩

/-! ## The editor and the buffer -/

/-- Between bytes the buffer holds the editor's line and a null; while a command
is on its way the editor's line is empty. -/
structure Stored (state : State) : Prop where
  operations : state.system.shell.operations = some .gDefaultShellOps
  contents : state.system.main = .ready →
    readBytes state.system.shell.commandLineBuffer 0 state.line.length = state.line
  ended : state.system.main = .ready →
    state.system.shell.commandLineBuffer state.line.length = 0
  bounded : state.line.length ≤ 1023
  empty : state.system.main ≠ .ready → state.line = []

theorem stored_start : Stored start where
  operations := rfl
  contents := fun _ => rfl
  ended := fun _ => rfl
  bounded := Nat.zero_le _
  empty := fun away => absurd rfl away

/-- What a step without a byte does to the editor's view. -/
private theorem step_other (other : ∀ b alloc, event ≠ .input b alloc)
    (taken : step state event = some next) :
    Executer.step state.system event = some next.system ∧ next.line = state.line ∧
      next.expected = state.expected := by
  unfold step at taken
  split at taken
  · cases taken
  · split at taken
    · cases taken
    · cases event with
      | input b alloc => exact absurd rfl (other b alloc)
      | main | thread | childWrites | childExits =>
        cases taken
        exact ⟨by assumption, rfl, rfl⟩

private theorem stored_other (stored : Stored state) (edits : Edits state)
    (other : ∀ b alloc, event ≠ .input b alloc) (taken : step state event = some next) :
    Stored next ∧ Edits next := by
  obtain ⟨taken, line, expected⟩ := step_other other taken
  have unedited := step_unedited other taken
  obtain ⟨operations, contents, ended, bounded, empty⟩ := stored
  have silent := unedited.silent.trans edits.1
  rcases unedited.line with ⟨main, buffer, len⟩ | ⟨away, stillAway⟩ | ⟨away, len, buffer⟩
  · refine ⟨⟨unedited.operations.trans operations, ?_, ?_, ?_, ?_⟩, ?_, ?_⟩
    · rwa [line, main, buffer]
    · rwa [line, main, buffer]
    · rwa [line]
    · rwa [line, main]
    · rwa [expected]
    · rw [main, len, line]
      exact edits.2
  · refine ⟨⟨unedited.operations.trans operations, fun ready => absurd ready stillAway,
      fun ready => absurd ready stillAway, ?_, fun _ => ?_⟩, ?_, fun ready => absurd ready stillAway⟩
    · rwa [line]
    · rw [line, empty away]
    · rwa [expected]
  · have cleared : next.line = [] := by rw [line, empty away]
    refine ⟨⟨unedited.operations.trans operations, fun _ => ?_, fun _ => ?_, ?_, fun _ => cleared⟩,
      ?_, fun _ => ?_⟩
    · rw [cleared]
      rfl
    · rw [cleared, buffer]
      rfl
    · rw [cleared]
      exact Nat.zero_le _
    · rwa [expected]
    · rw [cleared, len]
      rfl

/-- What a step with a byte does: the handler returns, or hands the command on. -/
private theorem step_input (taken : step state (.input b alloc) = some next) :
    state.system.main = .ready ∧ next.line = edit state.line b ∧
      next.expected =
        (if endsLine b then state.expected ++ [state.line] else state.expected) ∧
      ((∃ shell actions, shellInputByte state.system.shell b alloc =
          some (.returned shell false actions) ∧
        next.system = { state.system with
          shell := shell
          stopRequired := false
          trace := state.system.trace ++ actions }) ∨
      (∃ shell list actions, shellInputByte state.system.shell b alloc =
          some (.spawns shell list actions) ∧
        next.system = { state.system with
          shell := shell
          main := .enter list
          trace := state.system.trace ++ actions })) := by
  unfold step at taken
  split at taken
  · cases taken
  · rename_i after ran
    split at taken
    · cases taken
    · rename_i going
      cases taken
      simp only [Executer.step, inputStep] at ran
      split at ran
      · rename_i ready
        refine ⟨ready.1, rfl, rfl, ?_⟩
        split at ran
        · cases ran
        · rename_i shell stop actions returned
          cases ran
          cases stop with
          | true => exact absurd rfl going
          | false => exact Or.inl ⟨shell, actions, returned, rfl⟩
        · rename_i shell list actions spawns
          cases ran
          exact Or.inr ⟨shell, list, actions, spawns, rfl⟩
      · cases ran

private theorem readBytes_dropLast (store : Store) (count : Nat) :
    readBytes store 0 (count - 1) = (readBytes store 0 count).dropLast := by
  cases count with
  | zero => rfl
  | succ count =>
    rw [readBytes_append store 0 count 1]
    simp [readBytes]

/-- A deleting byte shortens the stored line as it shortens the editor's. -/
theorem backspace_stored (contents : readBytes shell.commandLineBuffer 0 line.length = line)
    (ended : shell.commandLineBuffer line.length = 0)
    (len : shell.commandLineLen = line.length) :
    ∃ after actions, shellCbHandleBackspaceDefault shell = (after, actions) ∧
      handed actions = [] ∧ after.operations = shell.operations ∧
      after.commandLineLen = line.dropLast.length ∧
      readBytes after.commandLineBuffer 0 line.dropLast.length = line.dropLast ∧
      after.commandLineBuffer line.dropLast.length = 0 := by
  unfold shellCbHandleBackspaceDefault
  rw [len, List.length_dropLast]
  split
  · refine ⟨_, _, rfl, rfl, rfl, rfl, ?_, ?_⟩
    · rw [readBytes_writeBytes_apart (Or.inl (by omega)), readBytes_dropLast, contents]
    · simp [writeBytes]
  · rename_i nothing
    have empty : line = [] := List.eq_nil_of_length_eq_zero (by omega)
    subst empty
    exact ⟨_, _, rfl, rfl, rfl, len, rfl, ended⟩

/-- Any other byte is appended while there is room. -/
theorem char_stored (contents : readBytes shell.commandLineBuffer 0 line.length = line)
    (ended : shell.commandLineBuffer line.length = 0)
    (len : shell.commandLineLen = line.length) (b : UInt8) :
    ∃ after actions, shellCbHandleCharDefault shell b = (after, actions) ∧
      handed actions = [] ∧ after.operations = shell.operations ∧
      after.commandLineLen = (if line.length < 1023 then line ++ [b] else line).length ∧
      readBytes after.commandLineBuffer 0
        (if line.length < 1023 then line ++ [b] else line).length =
          (if line.length < 1023 then line ++ [b] else line) ∧
      after.commandLineBuffer (if line.length < 1023 then line ++ [b] else line).length = 0 := by
  by_cases room : line.length < 1023
  · simp only [shellCbHandleCharDefault, len, commandLineBufSize, Nat.reduceSub, room, ↓reduceIte]
    refine ⟨_, _, rfl, rfl, rfl, by simp, ?_, ?_⟩
    · rw [List.length_append, List.length_singleton, readBytes_append,
        readBytes_writeBytes_apart (Or.inl (by omega)),
        readBytes_writeBytes_apart (Or.inl (by omega)), contents]
      simp [readBytes, writeBytes]
    · simp [writeBytes]
  · simp only [shellCbHandleCharDefault, len, commandLineBufSize, Nat.reduceSub, room, ↓reduceIte]
    exact ⟨_, _, rfl, rfl, rfl, len, contents, ended⟩

/-- What a byte that ends the line does: it finds no token and leaves the line,
or hands the command on. -/
private theorem step_end (stored : Stored state) (ends : endsLine b = true)
    (taken : step state (.input b alloc) = some next) :
    state.system.main = .ready ∧ next.line = [] ∧
      next.expected = state.expected ++ [state.line] ∧
      ((¬ Tokenizes alloc (state.line.takeWhile (· ≠ 0)) ∧
        next.system = { state.system with
          stopRequired := false
          trace := state.system.trace ++ .tokenize (state.line.takeWhile (· ≠ 0)) ::
            shellUiPutPrompt state.system.shell true }) ∨
      (Tokenizes alloc (state.line.takeWhile (· ≠ 0)) ∧ ∃ list,
        next.system = { state.system with
          shell := { state.system.shell with
            exec := { state.system.shell.exec with shellContext := some .base } }
          main := .enter list
          trace := state.system.trace ++
            [.tokenize (state.line.takeWhile (· ≠ 0)), .blankline] })) := by
  obtain ⟨ready, line, expected, outcome⟩ := step_input taken
  have room : state.line.length < commandLineBufSize := Nat.lt_succ_of_le stored.bounded
  have text := cString_line (stored.contents ready) (stored.ended ready) room
  have called : shellInputByte state.system.shell b alloc =
      shellCbExecuteDefault state.system.shell alloc := by
    unfold shellInputByte
    rw [stored.operations]
    simp only [endsLine_iff.mp ends, ↓reduceIte]
  rw [edit, if_pos ends] at line
  rw [if_pos ends] at expected
  refine ⟨ready, line, expected, ?_⟩
  rcases outcome with ⟨shell, actions, returned, system⟩ | ⟨shell, list, actions, spawns, system⟩
  · rw [called] at returned
    rcases execute_cases text returned with ⟨blank, same⟩ | ⟨_, same | ⟨list, same⟩⟩
    · cases same
      exact Or.inl ⟨blank, system⟩
    · cases same
    · cases same
  · rw [called] at spawns
    rcases execute_cases text spawns with ⟨_, same⟩ | ⟨found, same | ⟨list, same⟩⟩
    · cases same
    · cases same
    · cases same
      exact Or.inr ⟨found, list, system⟩

/-- The tokenizer is given the line the editor ends when that has no null byte. -/
private theorem handed_line {state next : State} (edits : Edits state)
    (expected : next.expected = state.expected ++ [state.line])
    (given : handed next.system.trace =
      handed state.system.trace ++ [state.line.takeWhile (· ≠ 0)]) :
    handed next.system.trace = next.expected ↔ 0 ∉ state.line := by
  rw [given, edits.1, expected, List.append_right_inj, List.cons.injEq, and_iff_left rfl,
    takeWhile_line]

/-- A byte that ends the line keeps the editor and the buffer together exactly
when it hands over a line without a null byte that is empty or has a token. -/
private theorem end_edits (stored : Stored state) (edits : Edits state) (ends : endsLine b = true)
    (taken : step state (.input b alloc) = some next) :
    (Edits next ↔ HandsOver state (.input b alloc)) ∧ (Edits next → Stored next) := by
  obtain ⟨ready, cleared, expected, outcome⟩ := step_end stored ends taken
  have bounded : next.line.length ≤ 1023 := by
    rw [cleared]
    exact Nat.zero_le _
  have handsOver : HandsOver state (.input b alloc) ↔
      0 ∉ state.line ∧ (state.line = [] ∨ Tokenizes alloc state.line) := by
    have same : storedLine state.system.shell = state.line := by
      unfold storedLine
      rw [edits.2 ready, stored.contents ready]
    simp only [HandsOver, ends, forall_true_left, same]
  rw [handsOver]
  rcases outcome with ⟨blank, system⟩ | ⟨found, list, system⟩
  · have given := handed_line edits expected (by
      rw [system, handed_append]
      show _ ++ ([_] ++ handed (shellUiPutPrompt state.system.shell true)) = _
      rw [handed_prompt]
      rfl)
    have readyNow : next.system.main = .ready := by
      rw [system]
      exact ready
    -- the handler returns without clearing the line
    have kept : next.system.shell.commandLineLen = state.line.length := by
      rw [system]
      exact edits.2 ready
    have exact_ : Edits next ↔ 0 ∉ state.line ∧ state.line = [] := by
      unfold Edits
      rw [given, kept, cleared, List.length_nil, List.length_eq_zero_iff]
      simp only [readyNow, forall_true_left]
    constructor
    · apply exact_.trans
      apply and_congr_right
      intro solid
      rw [(takeWhile_line state.line).mpr solid] at blank
      simp only [blank, or_false]
    · intro edited
      obtain ⟨_, empty⟩ := exact_.mp edited
      have ended := stored.ended ready
      refine ⟨by rw [system]; exact stored.operations, fun _ => ?_, fun _ => ?_, bounded,
        fun away => absurd readyNow away⟩
      · rw [cleared]
        rfl
      · rw [cleared, system]
        rwa [empty] at ended
  · have given := handed_line edits expected (by
      rw [system, handed_append]
      rfl)
    have awayNow : next.system.main ≠ .ready := by
      rw [system]
      nofun
    have exact_ : Edits next ↔ 0 ∉ state.line := by
      unfold Edits
      rw [given, and_iff_left fun readyNow => absurd readyNow awayNow]
    constructor
    · apply exact_.trans
      refine ⟨fun solid => ⟨solid, Or.inr ?_⟩, fun both => both.1⟩
      rwa [(takeWhile_line state.line).mpr solid] at found
    · intro _
      exact ⟨by rw [system]; exact stored.operations, fun readyNow => absurd readyNow awayNow,
        fun readyNow => absurd readyNow awayNow, bounded, fun _ => cleared⟩

/-- Any other byte keeps them together. -/
private theorem byte_edits (stored : Stored state) (edits : Edits state)
    (inside : ¬ endsLine b = true) (taken : step state (.input b alloc) = some next) :
    Edits next ∧ Stored next := by
  obtain ⟨ready, line, expected, outcome⟩ := step_input taken
  rw [if_neg inside] at expected
  -- what the two remaining handlers have in common
  have handled : ∃ after actions, shellInputByte state.system.shell b alloc =
      some (.returned after false actions) ∧ handed actions = [] ∧
      after.operations = state.system.shell.operations ∧
      after.commandLineLen = next.line.length ∧
      readBytes after.commandLineBuffer 0 next.line.length = next.line ∧
      after.commandLineBuffer next.line.length = 0 := by
    have kept : ¬ (b = 0x0d ∨ b = 0x0a) := mt endsLine_iff.mpr inside
    unfold shellInputByte
    rw [stored.operations]
    simp only [kept, ↓reduceIte]
    by_cases shorter : deletes b = true
    · have cut : next.line = state.line.dropLast := by
        rw [line, edit, if_neg inside, if_pos shorter]
      obtain ⟨after, actions, ran, spec⟩ :=
        backspace_stored (stored.contents ready) (stored.ended ready) (edits.2 ready)
      simp only [deletes_iff.mp shorter, ↓reduceIte, ran, cut]
      exact ⟨after, actions, rfl, spec.1, spec.2.1.trans stored.operations, spec.2.2⟩
    · have grown : next.line =
          if state.line.length < 1023 then state.line ++ [b] else state.line := by
        rw [line, edit, if_neg inside, if_neg shorter]
      obtain ⟨after, actions, ran, spec⟩ :=
        char_stored (stored.contents ready) (stored.ended ready) (edits.2 ready) b
      simp only [mt deletes_iff.mpr shorter, ↓reduceIte, ran, grown]
      exact ⟨after, actions, rfl, spec.1, spec.2.1.trans stored.operations, spec.2.2⟩
  have bounded : next.line.length ≤ 1023 := by
    have before := stored.bounded
    rw [line, edit, if_neg inside]
    split
    · rw [List.length_dropLast]
      omega
    · split
      · rw [List.length_append, List.length_singleton]
        omega
      · exact before
  obtain ⟨after, actions, ran, silent, operations, len, contents, ended⟩ := handled
  rcases outcome with ⟨shell, others, returned, system⟩ | ⟨shell, list, others, spawns, system⟩
  · cases ran.symm.trans returned
    have readyNow : next.system.main = .ready := by
      rw [system]
      exact ready
    constructor
    · unfold Edits
      rw [system, handed_append, silent, List.append_nil, expected]
      exact ⟨edits.1, fun _ => len⟩
    · refine ⟨?_, fun _ => ?_, fun _ => ?_, bounded, fun away => absurd readyNow away⟩
      · rw [system]
        exact operations.trans stored.operations
      · rw [system]
        exact contents
      · rw [system]
        exact ended
  · cases ran.symm.trans spawns

/-! ## Runs -/

private theorem step_edits_iff (stored : Stored state) (edits : Edits state)
    (taken : step state event = some next) : Edits next ↔ HandsOver state event := by
  by_cases typed : ∃ b alloc, event = .input b alloc
  · obtain ⟨b, alloc, rfl⟩ := typed
    by_cases ends : endsLine b = true
    · exact (end_edits stored edits ends taken).1
    · exact iff_of_true (byte_edits stored edits ends taken).1 fun ended => absurd ended ends
  · have other : ∀ b alloc, event ≠ .input b alloc :=
      fun b alloc same => typed ⟨b, alloc, same⟩
    apply iff_of_true (stored_other stored edits other taken).2
    cases event with
    | input b alloc => exact absurd rfl (other b alloc)
    | main | thread | childWrites | childExits => trivial

private theorem stored_step (stored : Stored state) (edits : Edits state) (editsNext : Edits next)
    (taken : step state event = some next) : Stored next := by
  by_cases typed : ∃ b alloc, event = .input b alloc
  · obtain ⟨b, alloc, rfl⟩ := typed
    by_cases ends : endsLine b = true
    · exact (end_edits stored edits ends taken).2 editsNext
    · exact (byte_edits stored edits ends taken).2
  · exact (stored_other stored edits (fun b alloc same => typed ⟨b, alloc, same⟩) taken).1

/-- Every run of bytes, spawned commands and read threads from `shell_init` to
before an `exit` command agrees with the reference editor throughout exactly
when each line handed over holds no null byte and is empty or has a token. -/
theorem edits_iff_lines_hand_over (events : List Event) :
    Throughout step Edits start events ↔ EachStep step HandsOver start events :=
  throughout_iff_each_step
    (fun _ _ _ stored edits editsNext taken => stored_step stored edits editsNext taken)
    (fun _ _ _ stored edits taken => step_edits_iff stored edits taken)
    stored_start ⟨rfl, fun _ => rfl⟩

/-- A blank line is not cleared: after a space and a carriage return, one byte
is still stored. -/
theorem blank_line_kept :
    ¬ Throughout step Edits start [.input 0x20 always, .input 0x0d always] := by
  intro edits
  have ran : (exec step start [.input 0x20 always, .input 0x0d always]).map
      (fun state => (state.system.main, state.system.shell.commandLineLen, state.line)) =
        some (.ready, 1, []) := by
    decide +kernel
  obtain ⟨final, reached, seen⟩ := Option.map_eq_some_iff.mp ran
  simp only [Prod.mk.injEq] at seen
  have len := (throughout_final edits reached).2 seen.1
  rw [seen.2.1, seen.2.2] at len
  cases len

end ShapeQuake.LineEditorProofs
