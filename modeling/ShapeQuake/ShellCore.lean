import ShapeQuake.Library.Bytes
import ShapeQuake.Status
import ShapeQuake.Tokenizer

/-! The shell of `shell.h` and the handlers of `shell.c`, `callbacks.c`,
`context.c` and `builtin.c` that run to their end within one input byte. The
back pointer of the executer is untyped in the source, so a context pointer
says which bytes of the shell it points at: whoever casts the shell itself to a
context writes into the command line buffer. -/
namespace ShapeQuake.ShellCore
open Library.Bytes Tokenizer

/-! ## Data -/

/-- `shell_state_t`. -/
inductive ShellState where
  | idle | executing | exiting
  deriving DecidableEq, Repr

def ShellState.raw : ShellState → Nat
  | .idle => 0
  | .executing => 1
  | .exiting => 2

/-- `shell_context_t`, without the fields that nothing here reads. -/
structure ShellContext where
  state : ShellState
  foregroundPid : Int
  deriving DecidableEq, Repr

/-- Where a pointer into the shell points: at its start, which is the start of
the command line buffer, or at its `ctx` member. -/
inductive ShellPtr where
  | base | ctx
  deriving DecidableEq, Repr

/-- `shell_executer_t`, without the history buffer and the callback that is
stored and never called. -/
structure ShellExecuter where
  masterFd : Int
  slaveFd : Int
  readThread : Nat
  spawnedPid : Nat
  isThreadRunning : Bool
  shellContext : Option ShellPtr
  deriving DecidableEq, Repr

/-- The built-in handlers the repository registers. -/
inductive Handler where
  | shellBuiltinCd | shellBuiltinExit
  deriving DecidableEq, Repr

/-- `shell_builtin_cmd_t`: the name is a C string. -/
structure ShellBuiltinCmd where
  name : List UInt8
  handler : Handler
  deriving DecidableEq, Repr

/-- `shell_ops_t` is only ever the default table. -/
inductive ShellOps where
  | gDefaultShellOps
  deriving DecidableEq, Repr

/-- `shell_t`. The buffer's contents are the first `commandLineBufSize` bytes
of the store. -/
structure Shell where
  commandLineBuffer : Store
  commandLineLen : Nat
  operations : Option ShellOps
  ctx : ShellContext
  exec : ShellExecuter
  builtinRegistry : List ShellBuiltinCmd

/-- `SHELL_COMMAND_LINE_BUF_SIZE`. -/
def commandLineBufSize : Nat := 1024

/-- `SHELL_BUILTIN_MAX`. -/
def builtinMax : Nat := 128

/-- What the shell does that its own fields do not show: calls into the
tokenizer, the terminal, the working directory and the debug log. -/
inductive Action where
  | tokenize (line : List UInt8)
  | dispatchChar (char : UInt8)
  | flush
  | blankline
  | carriageReturn
  | prompt
  | chdir (path : List UInt8)
  | complain
  | debug (status : Status)
  deriving DecidableEq, Repr

/-! ## Context -/

/-- `shell_context_init`. -/
def shellContextInit : ShellContext := ⟨.idle, -1⟩

/-- `shell_context_set_state`: the state is the first member of the context, a
four-byte enumeration, and it is stored wherever the pointer points. -/
def shellContextSetState (shell : Shell) (ctx : Option ShellPtr) (state : ShellState) : Shell :=
  match ctx with
  | none => shell
  | some .ctx => { shell with ctx := { shell.ctx with state := state } }
  | some .base =>
    { shell with commandLineBuffer := writeBytes shell.commandLineBuffer 0 (toBytes 4 state.raw) }

/-- `shell_context_get_state` of the `ctx` member. -/
def shellContextGetState (shell : Shell) : ShellState := shell.ctx.state

/-- `&shell->ctx` for a `shell_t *` that points at the shell. -/
def memberCtx : Option ShellPtr → Option ShellPtr
  | some .base => some .ctx
  | other => other

/-! ## Initialisation -/

/-- `shell_executer_init`. -/
def shellExecuterInit (shellPtr : Option ShellPtr) : ShellExecuter :=
  { masterFd := -1
    slaveFd := 0
    readThread := 0
    spawnedPid := 0
    isThreadRunning := false
    shellContext := shellPtr }

/-- `shell_init`. -/
def shellInit : Shell :=
  { commandLineBuffer := zeros
    commandLineLen := 0
    operations := some .gDefaultShellOps
    ctx := shellContextInit
    exec := shellExecuterInit (some .base)
    builtinRegistry := [] }

/-- `shell_builtin_register`, for a name and a handler that are not null. -/
def shellBuiltinRegister (shell : Shell) (cmd : ShellBuiltinCmd) : Shell × Bool :=
  if shell.builtinRegistry.length ≥ builtinMax then (shell, false)
  else ({ shell with builtinRegistry := shell.builtinRegistry ++ [cmd] }, true)

/-- `"cd"`. -/
def cdName : List UInt8 := [0x63, 0x64]

/-- `"exit"`. -/
def exitName : List UInt8 := [0x65, 0x78, 0x69, 0x74]

/-- `shell_builtin_init_regystry`. -/
def shellBuiltinInitRegystry (shell : Shell) : Shell :=
  let shell := { shell with builtinRegistry := [] }
  let (shell, _) := shellBuiltinRegister shell ⟨cdName, .shellBuiltinCd⟩
  let (shell, _) := shellBuiltinRegister shell ⟨exitName, .shellBuiltinExit⟩
  shell

/-! ## Terminal output -/

/-- `shell_ui_put_prompt`, for a shell that is not null. -/
def shellUiPutPrompt (shell : Shell) (requireNewline : Bool) : List Action :=
  if shellContextGetState shell = .idle then
    [if requireNewline then .blankline else .carriageReturn, .prompt]
  else []

/-- `shell_cb_output_str`. -/
def shellCbOutputStr (str : List UInt8) : List Action :=
  str.flatMap fun char => [.dispatchChar char, .flush]

/-! ## Handlers of a byte -/

/-- `shell_cb_handle_char_default`. -/
def shellCbHandleCharDefault (shell : Shell) (b : UInt8) : Shell × List Action :=
  if shell.commandLineLen < commandLineBufSize - 1 then
    let stored := writeBytes shell.commandLineBuffer shell.commandLineLen [b]
    let len := shell.commandLineLen + 1
    ({ shell with commandLineBuffer := writeBytes stored len [0], commandLineLen := len },
      [.dispatchChar b, .flush])
  else (shell, [])

/-- `shell_cb_handle_backspace_default`. -/
def shellCbHandleBackspaceDefault (shell : Shell) : Shell × List Action :=
  if shell.commandLineLen > 0 then
    let len := shell.commandLineLen - 1
    ({ shell with commandLineBuffer := writeBytes shell.commandLineBuffer len [0],
                  commandLineLen := len },
      shellCbOutputStr [0x08, 0x20, 0x08])
  else (shell, [])

/-- The C string at the start of a buffer, when a null byte ends it there. -/
def cString (store : Store) (size : Nat) : Option (List UInt8) :=
  let bytes := readBytes store 0 size
  if 0 ∈ bytes then some (bytes.takeWhile (· ≠ 0)) else none

/-- How a handler leaves the shell: it returns, or it has handed a command to
`shell_executer_spawn`, which goes on from there. -/
inductive Execution where
  | returned (shell : Shell) (stop : Bool) (actions : List Action)
  | spawns (shell : Shell) (list : TokenList) (actions : List Action)

/-- `list->tokens[index]`, when it is a string. -/
def tokenAt (list : TokenList) (index : Nat) : Option (List UInt8) := list.tokens[index]?.join

/-- `shell_cb_execute_default` up to its call of `shell_executer_spawn`. It has
no result when the buffer holds no C string, a store of the tokenizer is out of
bounds, or the first token is null. -/
def shellCbExecuteDefault (shell : Shell) (alloc : Nat → Bool) : Option Execution := do
  let line ← cString shell.commandLineBuffer commandLineBufSize
  match ← shellTokenize alloc (some line) with
  | none => return .returned shell false (.tokenize line :: shellUiPutPrompt shell true)
  | some list =>
    if list.count = 0 then
      return .returned shell false (.tokenize line :: shellUiPutPrompt shell true)
    else
      let first ← tokenAt list 0
      if first = exitName then return .returned shell true [.tokenize line]
      else
        return .spawns { shell with exec := { shell.exec with shellContext := some .base } }
          list [.tokenize line, .blankline]

/-- `shell_input_byte`, for a shell that is not null. -/
def shellInputByte (shell : Shell) (b : UInt8) (alloc : Nat → Bool) : Option Execution :=
  match shell.operations with
  | none => some (.returned shell false [])
  | some .gDefaultShellOps =>
    if b = 0x0d ∨ b = 0x0a then shellCbExecuteDefault shell alloc
    else if b = 0x7f ∨ b = 0x08 then
      let (shell, actions) := shellCbHandleBackspaceDefault shell
      some (.returned shell false actions)
    else
      let (shell, actions) := shellCbHandleCharDefault shell b
      some (.returned shell false actions)

/-- The end of `shell_cb_execute_default`, after `shell_executer_spawn`. -/
def clearCommandLine (shell : Shell) : Shell :=
  { shell with
    commandLineLen := 0
    commandLineBuffer := clearBytes shell.commandLineBuffer 0 commandLineBufSize }

/-- `shell_builtin_cd`, with the outcome of `chdir` as its second argument. -/
def shellBuiltinCd (args : TokenList) (changed : Bool) : List Action :=
  if args.count < 2 then [.complain]
  else .chdir ((tokenAt args 1).getD []) :: if changed then [] else [.complain]

/-- A built-in handler: whether it asks the shell to stop, and what it does. -/
def runHandler (handler : Handler) (args : TokenList) (changed : Bool) : Bool × List Action :=
  match handler with
  | .shellBuiltinCd => (false, shellBuiltinCd args changed)
  | .shellBuiltinExit => (true, [])

/-- The registry search of `shell_executer_spawn`: the first command of that name. -/
def findBuiltin (shell : Shell) (list : TokenList) : Option Handler :=
  (shell.builtinRegistry.find? fun cmd => tokenAt list 0 == some cmd.name).map (·.handler)

/-! ## Small facts -/

@[simp] theorem setState_len (shell : Shell) (state : ShellState) (ptr : Option ShellPtr) :
    (shellContextSetState shell ptr state).commandLineLen = shell.commandLineLen := by
  rcases ptr with _ | _ | _ <;> rfl

@[simp] theorem setState_exec (shell : Shell) (state : ShellState) (ptr : Option ShellPtr) :
    (shellContextSetState shell ptr state).exec = shell.exec := by
  rcases ptr with _ | _ | _ <;> rfl

private theorem backspace_context (shell : Shell) :
    (shellCbHandleBackspaceDefault shell).1.ctx = shell.ctx ∧
      (shellCbHandleBackspaceDefault shell).1.exec = shell.exec := by
  unfold shellCbHandleBackspaceDefault
  split <;> exact ⟨rfl, rfl⟩

private theorem char_context (shell : Shell) (b : UInt8) :
    (shellCbHandleCharDefault shell b).1.ctx = shell.ctx ∧
      (shellCbHandleCharDefault shell b).1.exec = shell.exec := by
  unfold shellCbHandleCharDefault
  split <;> exact ⟨rfl, rfl⟩

/-- A byte moves neither the state nor the executer's back pointer. -/
theorem shellInputByte_context (ran : shellInputByte shell b alloc = some execution) :
    match execution with
    | .returned after _ _ => after.ctx = shell.ctx ∧ after.exec = shell.exec
    | .spawns after _ _ => after.ctx = shell.ctx ∧ after.exec.shellContext = some .base := by
  unfold shellInputByte at ran
  split at ran
  · cases ran
    exact ⟨rfl, rfl⟩
  · split at ran
    · unfold shellCbExecuteDefault at ran
      obtain ⟨line, _, ran⟩ := Option.bind_eq_some_iff.mp ran
      obtain ⟨result, _, ran⟩ := Option.bind_eq_some_iff.mp ran
      split at ran
      · cases ran
        exact ⟨rfl, rfl⟩
      · split at ran
        · cases ran
          exact ⟨rfl, rfl⟩
        · obtain ⟨first, _, ran⟩ := Option.bind_eq_some_iff.mp ran
          split at ran
          · cases ran
            exact ⟨rfl, rfl⟩
          · cases ran
            exact ⟨rfl, rfl⟩
    · split at ran
      · cases ran
        exact backspace_context shell
      · cases ran
        exact char_context shell b

end ShapeQuake.ShellCore
