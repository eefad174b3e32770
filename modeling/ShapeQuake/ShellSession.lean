import ShapeQuake.CommandLines
import ShapeQuake.LineEditorProofs

/-! A session at the shell against a reader of the bytes that are typed. The reader takes
a command with each line that is not blank, and stops at `exit`. The shell keeps a line
that is blank, and the next one is typed behind it; the blanks do not show in its tokens,
so the commands that are spawned are still those of the reader. -/
namespace ShapeQuake.ShellSession
open Library.Bytes Library.Runs ShellCore Executer Tokenizer TokenizerProofs CommandLines LineEditorProofs
open Pipeline (Token)

/-! ## The reader -/

/-- What has been typed: the line that is not ended yet, the commands before it, and
whether one was `exit`. -/
structure Reader where
  line : List UInt8
  commands : List (List Token)
  stopped : Bool
  deriving DecidableEq, Repr

/-- The end of a line. -/
def Reader.enter (reader : Reader) : Reader :=
  match words reader.line with
  | [] => { reader with line := [] }
  | first :: args =>
    if first = exitName then { reader with line := [], stopped := true }
    else { reader with line := [], commands := reader.commands ++ [first :: args] }

/-- One more byte. -/
def Reader.read (reader : Reader) (b : UInt8) : Reader :=
  if endsLine b then reader.enter
  else if deletes b then { reader with line := reader.line.dropLast }
  else { reader with line := reader.line ++ [b] }

/-- All bytes, from the first on. -/
def readAll (typed : List UInt8) : Reader := typed.foldl Reader.read ⟨[], [], false⟩

theorem readAll_concat (typed : List UInt8) (b : UInt8) : readAll (typed ++ [b]) = (readAll typed).read b := by
  rw [readAll, List.foldl_append]
  rfl

/-! ## The session -/

/-- The process, the bytes it has read, and the commands it has handed to
`shell_executer_spawn`. -/
structure State where
  system : System
  typed : List UInt8
  spawned : List (List Token)

/-- The process when the first byte is read. -/
def start : State := ⟨boot, [], []⟩

/-- The tokens of a list, up to its count. -/
def tokensIn (list : TokenList) : List Token := (list.tokens.take list.count).reduceOption

/-- The command that the main thread has just been handed. -/
def entered : MainPc → List (List Token)
  | .enter list => [tokensIn list]
  | _ => []

/-- A step of the process. -/
def step (state : State) (event : Event) : Option State :=
  (Executer.step state.system event).map fun next =>
    match event with
    | .input b _ => ⟨next, state.typed ++ [b], state.spawned ++ entered next.main⟩
    | _ => { state with system := next }

/-- No null is typed, the buffer has room for a byte that is kept, and there is memory
for the tokens of a line. -/
def Usual (state : State) : Event → Prop
  | .input b alloc =>
    b ≠ 0 ∧ (endsLine b = true → ∀ call, alloc call = true) ∧
      (endsLine b = false → deletes b = false → state.system.shell.commandLineLen < 1023)
  | _ => True

/-- The commands spawned so far are those that were typed, and the shell has stopped if
`exit` was. -/
def Follows (state : State) : Prop :=
  state.spawned = (readAll state.typed).commands ∧ state.system.stopRequired = (readAll state.typed).stopped

/-! ## Blanks -/

theorem words_behind_blanks (blank : ∀ byte ∈ blanks, isSpace byte = true) (line : List UInt8) :
    words (blanks ++ line) = words line := by
  induction blanks with
  | nil => rfl
  | cons byte blanks ih =>
    obtain ⟨space, others⟩ := List.forall_mem_cons.mp blank
    have front := words_blank space [] (blanks ++ line)
    rw [List.nil_append] at front
    rw [List.cons_append, front, ih others]
    rfl

/-- A line without a token is blank. -/
theorem blank_of_words (none_ : words line = []) : ∀ byte ∈ line, isSpace byte = true :=
  blank_of_lexes_nothing (lexes_words line) none_

/-! ## Commands on their way -/

/-- The list that the main thread is carrying to the search of the registry or to `fork`. -/
def carried : MainPc → Option TokenList
  | .enter list | .openpty list | .dispatch list | .fork list => some list
  | _ => none

/-- The registry has the two commands, and what is carried is not `exit`. -/
structure Guarded (system : System) : Prop where
  registry : system.shell.builtinRegistry = boot.shell.builtinRegistry
  other : ∀ list, carried system.main = some list → tokenAt list 0 ≠ some exitName

/-- The handler of `exit` is found for `exit` only. -/
theorem exit_found (registry : shell.builtinRegistry = boot.shell.builtinRegistry)
    (found : findBuiltin shell list = some .shellBuiltinExit) : tokenAt list 0 = some exitName := by
  have both : shell.builtinRegistry = [⟨cdName, .shellBuiltinCd⟩, ⟨exitName, .shellBuiltinExit⟩] := registry
  obtain ⟨cmd, here, same⟩ := Option.map_eq_some_iff.mp found
  have named := List.find?_some here
  have member := List.mem_of_find?_eq_some here
  rw [both] at member
  rcases List.mem_pair.mp member with rfl | rfl
  · cases same
  · exact beq_iff_eq.mp named

private theorem setState_registry (shell : Shell) (ptr : Option ShellPtr) (state : ShellState) :
    (shellContextSetState shell ptr state).builtinRegistry = shell.builtinRegistry := by
  rcases ptr with _ | _ | _ <;> rfl

private theorem main_guarded (guarded : Guarded system) (moves : MainMoves system answer next) :
    Guarded next ∧ next.stopRequired = system.stopRequired := by
  obtain ⟨registry, other⟩ := guarded
  cases moves with
  | entered pc =>
    refine ⟨⟨(setState_registry _ _ _).trans registry, fun list same => ?_⟩, rfl⟩
    exact other list (by rw [pc]; exact same)
  | opened pc ran =>
    refine ⟨⟨registry, fun list same => ?_⟩, rfl⟩
    simp only at same
    split at same
    · cases same
    · exact other list (by rw [pc]; exact same)
  | @builtin list handler answer pc found =>
    refine ⟨⟨registry, by simp [carried]⟩, ?_⟩
    cases handler with
    | shellBuiltinCd => exact Bool.or_false _
    | shellBuiltinExit => exact absurd (exit_found registry found) (other list (by rw [pc]; rfl))
  | external pc missing => exact ⟨⟨registry, fun list same => other list (by rw [pc]; exact same)⟩, rfl⟩
  | unopened pc | forked pc ran | unforked pc | storedPid pc | closedSlave pc | running pc | created pc
  | uncreated pc | finished pc => exact ⟨⟨registry, by simp [carried]⟩, rfl⟩

/-- A step without a byte neither stops the shell nor hands it a command. -/
theorem step_guarded (guarded : Guarded system) (other : ∀ b alloc, event ≠ .input b alloc)
    (taken : Executer.step system event = some next) :
    Guarded next ∧ next.stopRequired = system.stopRequired := by
  cases event with
  | input b alloc => exact absurd rfl (other b alloc)
  | main answer => exact main_guarded guarded (mainStep_moves taken)
  | thread index answer =>
    obtain ⟨thread, after, pc, _, moves, rfl⟩ := step_thread taken
    obtain ⟨registry, still⟩ := guarded
    cases moves with
    | left => exact ⟨⟨(setState_registry _ _ _).trans registry, still⟩, rfl⟩
    | _ => exact ⟨⟨registry, still⟩, rfl⟩
  | childWrites pid bytes | childExits pid =>
    obtain ⟨kernel, _, rfl⟩ := Option.map_eq_some_iff.mp taken
    exact ⟨⟨guarded.registry, guarded.other⟩, rfl⟩

/-! ## The end of a line -/

/-- What `shell_cb_execute_default` does about a line, by its tokens. -/
theorem execute_words (memory : ∀ call, alloc call = true)
    (stored : cString shell.commandLineBuffer commandLineBufSize = some line)
    (ran : shellCbExecuteDefault shell alloc = some execution) :
    (words line = [] ∧ ∃ actions, execution = .returned shell false actions) ∨
    ∃ first args, words line = first :: args ∧
      (first = exitName ∧ (∃ actions, execution = .returned shell true actions) ∨
        first ≠ exitName ∧ ∃ list actions, tokensIn list = first :: args ∧ tokenAt list 0 = some first ∧
          execution = .spawns { shell with exec := { shell.exec with shellContext := some .base } } list
            actions) := by
  obtain rfl : alloc = always := funext memory
  have returned := Parser.lexes_iff_tokenizesTo.mp (lexes_words line)
  rw [Parser.TokenizesTo] at returned
  unfold shellCbExecuteDefault at ran
  rw [stored, Option.bind_eq_bind, Option.bind_some] at ran
  cases tokens : words line with
  | nil =>
    rw [if_pos tokens] at returned
    rw [returned] at ran
    exact .inl ⟨rfl, _, (Option.some.inj ran).symm⟩
  | cons first args =>
    rw [if_neg (by simp [tokens]), tokens] at returned
    obtain ⟨list, tokenized, count, slots⟩ := returned
    have head : tokenAt list 0 = some first := by
      have here := congrArg (·[0]?) slots
      simp only [List.map_cons, List.getElem?_cons_zero, List.getElem?_take] at here
      rw [count, List.length_cons, if_pos (Nat.succ_pos _)] at here
      rw [tokenAt, here]
      rfl
    have all : tokensIn list = first :: args := by
      rw [tokensIn, slots]
      simp [List.reduceOption, List.filterMap_map]
    have some_ : list.count ≠ 0 := by
      rw [count]
      exact Nat.succ_ne_zero _
    simp only [tokenized, Option.bind_eq_bind, Option.bind_some, if_neg some_, head] at ran
    refine .inr ⟨first, args, rfl, ?_⟩
    split at ran
    · rename_i exits
      exact .inl ⟨exits, _, (Option.some.inj ran).symm⟩
    · rename_i other
      exact .inr ⟨other, list, _, all, head, (Option.some.inj ran).symm⟩

/-! ## The line in the buffer -/

/-- The buffer holds this line, and a null behind it. -/
structure Typed (shell : Shell) (line : List UInt8) : Prop where
  contents : readBytes shell.commandLineBuffer 0 line.length = line
  ended : shell.commandLineBuffer line.length = 0
  len : shell.commandLineLen = line.length
  bounded : line.length ≤ 1023

/-- Between bytes the buffer holds the reader's line behind blanks; while a command is on
its way, the reader's line is empty. -/
structure Reads (state : State) : Prop where
  guarded : Guarded state.system
  follows : Follows state
  operations : state.system.shell.operations = some .gDefaultShellOps
  stored : state.system.main = .ready → state.system.stopRequired = false →
    ∃ blanks, (∀ byte ∈ blanks, isSpace byte = true) ∧
      Typed state.system.shell (blanks ++ (readAll state.typed).line)
  empty : state.system.main ≠ .ready → (readAll state.typed).line = []
  solid : 0 ∉ (readAll state.typed).line

theorem reads_start : Reads start where
  guarded := ⟨rfl, by simp [start, boot, carried]⟩
  follows := ⟨rfl, rfl⟩
  operations := rfl
  stored := fun _ _ => ⟨[], List.forall_mem_nil _, rfl, rfl, rfl, Nat.zero_le _⟩
  empty := fun away => absurd rfl away
  solid := List.not_mem_nil

/-- What a step without a byte does. -/
private theorem step_other (other : ∀ b alloc, event ≠ .input b alloc) (taken : step state event = some next) :
    Executer.step state.system event = some next.system ∧ next.typed = state.typed ∧
      next.spawned = state.spawned := by
  obtain ⟨system, ran, rfl⟩ := Option.map_eq_some_iff.mp taken
  cases event with
  | input b alloc => exact absurd rfl (other b alloc)
  | main | thread | childWrites | childExits => exact ⟨ran, rfl, rfl⟩

private theorem reads_other (reads : Reads state) (other : ∀ b alloc, event ≠ .input b alloc)
    (taken : step state event = some next) : Reads next := by
  obtain ⟨ran, typed, spawned⟩ := step_other other taken
  obtain ⟨guarded, stop⟩ := step_guarded reads.guarded other ran
  have unedited := step_unedited other ran
  have follows : Follows next := by
    rw [Follows, typed, spawned, stop]
    exact reads.follows
  have operations := unedited.operations.trans reads.operations
  have solid : 0 ∉ (readAll next.typed).line := typed ▸ reads.solid
  rcases unedited.line with ⟨main, buffer, len⟩ | ⟨away, stillAway⟩ | ⟨away, len, buffer⟩
  · refine ⟨guarded, follows, operations, fun ready going => ?_, ?_, solid⟩
    · obtain ⟨blanks, blank, line⟩ := reads.stored (main ▸ ready) (stop ▸ going)
      refine ⟨blanks, blank, ?_⟩
      rw [typed]
      exact ⟨by rw [buffer]; exact line.contents, by rw [buffer]; exact line.ended, len.trans line.len, line.bounded⟩
    · rw [main, typed]
      exact reads.empty
  · refine ⟨guarded, follows, operations, fun ready => absurd ready stillAway, fun _ => ?_, solid⟩
    rw [typed]
    exact reads.empty away
  · have cleared : (readAll next.typed).line = [] := by
      rw [typed]
      exact reads.empty away
    refine ⟨guarded, follows, operations, fun _ _ => ⟨[], List.forall_mem_nil _, ?_⟩, fun _ => cleared, solid⟩
    rw [cleared]
    refine ⟨rfl, ?_, len, Nat.zero_le _⟩
    rw [buffer]
    rfl

/-! ## Bytes -/

/-- What a step with a byte does: the handler returns, or hands a command on. -/
private theorem step_input (taken : step state (.input b alloc) = some next) :
    state.system.main = .ready ∧ state.system.stopRequired = false ∧ next.typed = state.typed ++ [b] ∧
      ((∃ shell stop actions, shellInputByte state.system.shell b alloc = some (.returned shell stop actions) ∧
        next.spawned = state.spawned ∧
        next.system = { state.system with
          shell := shell
          stopRequired := stop
          trace := state.system.trace ++ actions }) ∨
      (∃ shell list actions, shellInputByte state.system.shell b alloc = some (.spawns shell list actions) ∧
        next.spawned = state.spawned ++ [tokensIn list] ∧
        next.system = { state.system with
          shell := shell
          main := .enter list
          trace := state.system.trace ++ actions })) := by
  obtain ⟨system, ran, rfl⟩ := Option.map_eq_some_iff.mp taken
  simp only [Executer.step, inputStep] at ran
  split at ran
  · rename_i ready
    refine ⟨ready.1, ready.2, rfl, ?_⟩
    split at ran
    · cases ran
    · rename_i shell stop actions returned
      cases ran
      refine .inl ⟨shell, stop, actions, returned, ?_, rfl⟩
      simp [entered, ready.1]
    · rename_i shell list actions spawns
      cases ran
      exact .inr ⟨shell, list, actions, spawns, rfl, rfl⟩
  · cases ran

private theorem backspace_registry (shell : Shell) :
    (shellCbHandleBackspaceDefault shell).1.builtinRegistry = shell.builtinRegistry := by
  unfold shellCbHandleBackspaceDefault
  split <;> rfl

private theorem char_registry (shell : Shell) (b : UInt8) :
    (shellCbHandleCharDefault shell b).1.builtinRegistry = shell.builtinRegistry := by
  unfold shellCbHandleCharDefault
  split <;> rfl

/-- The handlers of a byte that does not end the line. -/
theorem byte_typed (stored : Typed shell line) (inside : endsLine b = false) (alloc : Nat → Bool)
    (operations : shell.operations = some .gDefaultShellOps) :
    ∃ after actions, shellInputByte shell b alloc = some (.returned after false actions) ∧
      after.operations = some .gDefaultShellOps ∧ after.builtinRegistry = shell.builtinRegistry ∧
      Typed after (edit line b) := by
  obtain ⟨contents, ended, len, bounded⟩ := stored
  have kept : ¬ endsLine b = true := by simp [inside]
  unfold shellInputByte
  rw [operations, edit, if_neg kept]
  simp only [mt endsLine_iff.mpr kept, ↓reduceIte]
  by_cases shorter : deletes b = true
  · obtain ⟨after, actions, ran, _, same, size, bytes, null⟩ := backspace_stored contents ended len
    have registry := backspace_registry shell
    rw [ran] at registry
    simp only [deletes_iff.mp shorter, shorter, ↓reduceIte, ran]
    exact ⟨after, actions, rfl, same.trans operations, registry, bytes, null, size, by
      rw [List.length_dropLast]; omega⟩
  · obtain ⟨after, actions, ran, _, same, size, bytes, null⟩ := char_stored contents ended len b
    have registry := char_registry shell b
    rw [ran] at registry
    rw [if_neg shorter]
    simp only [mt deletes_iff.mpr shorter, ↓reduceIte, ran]
    refine ⟨after, actions, rfl, same.trans operations, registry, bytes, null, size, ?_⟩
    split
    · rw [List.length_append, List.length_singleton]
      omega
    · exact bounded

/-- A byte that the buffer has room for is typed behind the blanks, or deletes from the
line or else from the blanks. -/
private theorem edit_behind_blanks {reader : Reader} (blank : ∀ byte ∈ blanks, isSpace byte = true)
    (inside : endsLine b = false)
    (room : deletes b = false → (blanks ++ reader.line).length < 1023) :
    ∃ others, (∀ byte ∈ others, isSpace byte = true) ∧
      edit (blanks ++ reader.line) b = others ++ (reader.read b).line := by
  have kept : ¬ endsLine b = true := by simp [inside]
  rw [edit, if_neg kept, Reader.read, if_neg kept]
  by_cases shorter : deletes b = true
  · rw [if_pos shorter, if_pos shorter]
    by_cases none_ : reader.line = []
    · refine ⟨blanks.dropLast, fun byte member => blank byte (List.dropLast_subset _ member), ?_⟩
      simp [none_]
    · exact ⟨blanks, blank, List.dropLast_append_of_ne_nil none_⟩
  · rw [if_neg shorter, if_neg shorter, if_pos (room (by simpa using shorter))]
    exact ⟨blanks, blank, List.append_assoc _ _ _⟩

private theorem read_inside (reader : Reader) (inside : endsLine b = false) :
    (reader.read b).commands = reader.commands ∧ (reader.read b).stopped = reader.stopped ∧
      ∀ byte ∈ (reader.read b).line, byte ∈ reader.line ∨ byte = b := by
  have kept : ¬ endsLine b = true := by simp [inside]
  rw [Reader.read, if_neg kept]
  split
  · exact ⟨rfl, rfl, fun byte member => .inl (List.dropLast_subset _ member)⟩
  · exact ⟨rfl, rfl, fun byte member => by simpa using member⟩

private theorem reads_byte (reads : Reads state) (inside : endsLine b = false)
    (usual : Usual state (.input b alloc)) (taken : step state (.input b alloc) = some next) : Reads next := by
  obtain ⟨ready, going, typed, outcome⟩ := step_input taken
  obtain ⟨blanks, blank, stored⟩ := reads.stored ready going
  obtain ⟨after, actions, ran, operations, registry, now⟩ := byte_typed stored inside alloc reads.operations
  rcases outcome with ⟨shell, stop, others, returned, spawned, system⟩ | ⟨shell, list, others, spawns, _, _⟩
  · cases ran.symm.trans returned
    obtain ⟨notNull, _, room⟩ := usual
    obtain ⟨commands, stopped, from_⟩ := read_inside (readAll state.typed) inside
    obtain ⟨moved, still, edited⟩ := edit_behind_blanks blank inside fun keeps => stored.len ▸ room inside keeps
    rw [edited] at now
    rw [← readAll_concat, ← typed] at commands stopped from_ now
    have readyNow : next.system.main = .ready := by
      rw [system]
      exact ready
    refine ⟨?_, ?_, ?_, fun _ _ => ⟨moved, still, ?_⟩, fun away => absurd readyNow away, fun null => ?_⟩
    · rw [system]
      exact ⟨registry.trans reads.guarded.registry, reads.guarded.other⟩
    · refine ⟨?_, ?_⟩
      · rw [spawned, commands]
        exact reads.follows.1
      · rw [system, stopped, ← reads.follows.2, going]
    · rw [system]
      exact operations
    · rw [system]
      exact now
    · rcases from_ 0 null with before | same
      · exact reads.solid before
      · exact notNull same.symm
  · cases ran.symm.trans spawns

private theorem enter_line (reader : Reader) : reader.enter.line = [] := by
  unfold Reader.enter
  split
  · rfl
  · split <;> rfl

/-- What the reader makes of the end of a line, by the tokens of what is stored. -/
private theorem enter_cases (reader : Reader) (blank : ∀ byte ∈ blanks, isSpace byte = true) :
    (words (blanks ++ reader.line) = [] → reader.enter = { reader with line := [] }) ∧
      ∀ first args, words (blanks ++ reader.line) = first :: args →
        (first = exitName → reader.enter = { reader with line := [], stopped := true }) ∧
        (first ≠ exitName →
          reader.enter = { reader with line := [], commands := reader.commands ++ [first :: args] }) := by
  rw [words_behind_blanks blank, Reader.enter]
  refine ⟨fun none_ => by rw [none_], fun first args some_ => ?_⟩
  simp only [some_]
  exact ⟨fun exits => if_pos exits, fun other => if_neg other⟩

private theorem reads_end (reads : Reads state) (ends : endsLine b = true)
    (usual : Usual state (.input b alloc)) (taken : step state (.input b alloc) = some next) : Reads next := by
  obtain ⟨ready, going, typed, outcome⟩ := step_input taken
  obtain ⟨blanks, blank, stored⟩ := reads.stored ready going
  have solid : 0 ∉ blanks ++ (readAll state.typed).line := by
    intro null
    rcases List.mem_append.mp null with before | behind
    · cases blank 0 before
    · exact reads.solid behind
  have text := cString_line stored.contents stored.ended (Nat.lt_succ_of_le stored.bounded)
  rw [(takeWhile_line _).mpr solid] at text
  have called : shellInputByte state.system.shell b alloc = shellCbExecuteDefault state.system.shell alloc := by
    unfold shellInputByte
    rw [reads.operations]
    simp only [endsLine_iff.mp ends, ↓reduceIte]
  rw [called] at outcome
  have read : readAll next.typed = (readAll state.typed).enter := by
    rw [typed, readAll_concat, Reader.read, if_pos ends]
  have cleared : (readAll next.typed).line = [] := by
    rw [read]
    exact enter_line _
  have nothing : 0 ∉ (readAll next.typed).line := by
    rw [cleared]
    exact List.not_mem_nil
  obtain ⟨onBlank, onCommand⟩ := enter_cases (readAll state.typed) blank
  rcases outcome with ⟨shell, stop, actions, returned, spawned, system⟩ | ⟨shell, list, actions, spawns, spawned, system⟩
  · have readyNow : next.system.main = .ready := by
      rw [system]
      exact ready
    rcases execute_words (usual.2.1 ends) text returned with
      ⟨none_, _, same⟩ | ⟨first, args, some_, ⟨exits, _, same⟩ | ⟨_, _, _, _, _, same⟩⟩
    · cases same
      refine ⟨?_, ⟨?_, ?_⟩, ?_, fun _ _ => ⟨blanks ++ (readAll state.typed).line, ?_, ?_⟩,
        fun away => absurd readyNow away, nothing⟩
      · rw [system]
        exact ⟨reads.guarded.registry, reads.guarded.other⟩
      · rw [spawned, read, onBlank none_]
        exact reads.follows.1
      · rw [system, read, onBlank none_, ← going]
        exact reads.follows.2
      · rw [system]
        exact reads.operations
      · exact blank_of_words none_
      · rw [cleared, List.append_nil, system]
        exact stored
    · cases same
      refine ⟨?_, ⟨?_, ?_⟩, ?_, fun _ still => ?_, fun away => absurd readyNow away, nothing⟩
      · rw [system]
        exact ⟨reads.guarded.registry, reads.guarded.other⟩
      · rw [spawned, read, (onCommand first args some_).1 exits]
        exact reads.follows.1
      · rw [system, read, (onCommand first args some_).1 exits]
      · rw [system]
        exact reads.operations
      · rw [system] at still
        cases still
    · cases same
  · have away : next.system.main ≠ .ready := by
      rw [system]
      exact MainPc.noConfusion
    rcases execute_words (usual.2.1 ends) text spawns with
      ⟨_, _, same⟩ | ⟨first, args, some_, ⟨_, _, same⟩ | ⟨other, _, _, tokens, head, same⟩⟩
    · cases same
    · cases same
    · cases same
      refine ⟨?_, ⟨?_, ?_⟩, ?_, fun readyNow => absurd readyNow away, fun _ => cleared, nothing⟩
      · rw [system]
        refine ⟨reads.guarded.registry, ?_⟩
        rintro _ ⟨⟩
        rw [head]
        exact fun same => other (Option.some.inj same)
      · rw [spawned, tokens, read, (onCommand first args some_).2 other, reads.follows.1]
      · rw [system, read, (onCommand first args some_).2 other]
        exact reads.follows.2
      · rw [system]
        exact reads.operations

/-! ## Runs -/

theorem step_reads (reads : Reads state) (usual : Usual state event) (taken : step state event = some next) :
    Reads next := by
  by_cases typed : ∃ b alloc, event = .input b alloc
  · obtain ⟨b, alloc, rfl⟩ := typed
    cases ends : endsLine b with
    | true => exact reads_end reads ends usual taken
    | false => exact reads_byte reads ends usual taken
  · exact reads_other reads (fun b alloc same => typed ⟨b, alloc, same⟩) taken

/-- Whatever is typed, and however the commands and the read threads interleave with it:
the commands handed to `shell_executer_spawn` are those of the lines, in their order, and
the shell stops exactly when `exit` is one, without the handler that the registry has
for it. -/
theorem session_spawns_typed (usual : EachStep step Usual start events) :
    Throughout step (fun state => Follows state ∧ ∀ list, state.system.main = .dispatch list →
      findBuiltin state.system.shell list ≠ some .shellBuiltinExit) start events := by
  apply throughout_mono (fun state reads => ?_)
    (throughout_of_each_step (fun _ _ _ reads usual taken => step_reads reads usual taken) reads_start usual)
  exact ⟨reads.follows, fun list pc found => reads.guarded.other list (by rw [pc]; rfl)
    (exit_found reads.guarded.registry found)⟩

/-- A blank line and `a` behind it: the blank stays in the buffer, and `a` is spawned. -/
theorem spawned_behind_blank :
    let events := [.input 0x20 always, .input 0x0d always, .input 0x61 always, .input 0x0d always]
    ∃ state, exec step start events = some state ∧ state.system.shell.commandLineLen = 2 ∧
      state.spawned = [[[0x61]]] := by
  have room (b : UInt8) (state : State) (short : state.system.shell.commandLineLen < 1023) (there : b ≠ 0) :
      Usual state (.input b always) := ⟨there, fun _ _ => rfl, fun _ _ => short⟩
  have usual : EachStep step Usual start
      [.input 0x20 always, .input 0x0d always, .input 0x61 always, .input 0x0d always] := by
    intro first taken
    obtain rfl := Option.some.inj taken
    refine ⟨room _ _ (by decide) (by decide), fun second taken => ?_⟩
    obtain rfl := Option.some.inj taken
    refine ⟨room _ _ (by decide) (by decide), fun third taken => ?_⟩
    obtain rfl := Option.some.inj taken
    refine ⟨room _ _ (by decide) (by decide), fun fourth taken => ?_⟩
    obtain rfl := Option.some.inj taken
    exact ⟨room _ _ (by decide) (by decide), trivial⟩
  have ran : ∃ state, exec step start
      [.input 0x20 always, .input 0x0d always, .input 0x61 always, .input 0x0d always] = some state ∧
      state.system.shell.commandLineLen = 2 ∧
      (readAll state.typed).commands = [[[0x61]]] := ⟨_, rfl, rfl, by decide⟩
  obtain ⟨state, reached, len, commands⟩ := ran
  exact ⟨state, reached, len, (throughout_final (session_spawns_typed usual) reached).1.1.trans commands⟩

end ShapeQuake.ShellSession
