import Mathlib.Data.List.Basic

/-! The command line tokenizer of `tokenizer.c`. A pointer into a string is the
list of bytes from there up to the end it is scanned to. The outcomes of the
`malloc` and `realloc` calls are given by their number in the run, and a store
outside the token array has no result. -/
namespace ShapeQuake.Tokenizer

/-- `isspace` in the C locale: space, and tab to carriage return. -/
def isSpace (byte : UInt8) : Bool := byte == 0x20 || (0x09 ≤ byte && byte ≤ 0x0d)

/-- The byte `'|'`. -/
def pipe : UInt8 := 0x7c

/-- `token_list_t`: the slots of the array, of which `count` are in use. -/
structure TokenList where
  tokens : List (Option (List UInt8))
  count : Nat
  capacity : Nat
  deriving DecidableEq, Repr

/-- `initial_token_capacity`. -/
def initialTokenCapacity : Nat := 8

/-- `string_view_t`. -/
structure StringView where
  start : List UInt8
  len : Nat
  deriving DecidableEq, Repr

/-- `while (isspace(*p)) p++`. -/
def skipSpaces : List UInt8 → List UInt8
  | [] => []
  | byte :: rest => if isSpace byte then skipSpaces rest else byte :: rest

/-- `while (end > str && isspace(*end)) end--`, as the distance from `str`. -/
def trimEnd (str : List UInt8) : Nat → Nat
  | 0 => 0
  | last + 1 => if isSpace (str.getD (last + 1) 0) then trimEnd str last else last + 1

/-- `internal_trim_whitespace` of a string that is not null. -/
def internalTrimWhitespace (str : List UInt8) : StringView :=
  let str := skipSpaces str
  if str = [] then ⟨str, 0⟩
  else ⟨str, trimEnd str (str.length - 1) + 1⟩

/-- `list->tokens[index] = token`. -/
def storeToken (list : TokenList) (index : Nat) (token : Option (List UInt8)) :
    Option TokenList :=
  if index < list.tokens.length then some { list with tokens := list.tokens.set index token }
  else none

/-- `internal_add_token`: the word is dropped when memory runs out. The second
component counts the allocation calls made so far. -/
def internalAddToken (alloc : Nat → Bool) (list : TokenList) (calls : Nat)
    (start : List UInt8) (len : Nat) : Option (TokenList × Nat) :=
  if len = 0 then some (list, calls)
  else if alloc calls = false then some (list, calls + 1)
  else
    let word := start.take len
    if list.count + 1 ≥ list.capacity then
      let newCap := list.capacity * 2
      if alloc (calls + 1) = false then some (list, calls + 2)
      else do
        let grown : TokenList :=
          { list with
            tokens := list.tokens ++ List.replicate (newCap - list.capacity) none
            capacity := newCap }
        let stored ← storeToken grown grown.count (some word)
        some ({ stored with count := stored.count + 1 }, calls + 2)
    else do
      let stored ← storeToken list list.count (some word)
      some ({ stored with count := stored.count + 1 }, calls + 1)

/-- How far `while (p < end && !isspace(*p) && *p != '|') p++` runs. -/
def wordLength : List UInt8 → Nat
  | [] => 0
  | byte :: rest => if !isSpace byte && byte ≠ pipe then wordLength rest + 1 else 0

/-- The state of the main loop: what is left before `end`, and the list so far. -/
structure Scan where
  p : List UInt8
  list : TokenList
  calls : Nat
  deriving DecidableEq, Repr

/-- One turn of the main loop. -/
def scanStep (alloc : Nat → Bool) (scan : Scan) : Option Scan :=
  match skipSpaces scan.p with
  | [] => some { scan with p := [] }
  | byte :: rest =>
    if byte = pipe then do
      let (list, calls) ← internalAddToken alloc scan.list scan.calls (byte :: rest) 1
      some ⟨rest, list, calls⟩
    else do
      let len := wordLength (byte :: rest)
      let (list, calls) ← internalAddToken alloc scan.list scan.calls (byte :: rest) len
      some ⟨(byte :: rest).drop len, list, calls⟩

/-- At most this many turns of the loop `while (p < end)`. -/
def scanLoop (alloc : Nat → Bool) : Nat → Scan → Option Scan
  | 0, scan => some scan
  | turns + 1, scan =>
    if scan.p = [] then some scan else (scanStep alloc scan).bind (scanLoop alloc turns)

/-- The state in which the main loop is entered, after the two allocations. -/
def scanStart (view : StringView) : Scan :=
  ⟨view.start.take view.len,
    ⟨List.replicate initialTokenCapacity none, 0, initialTokenCapacity⟩, 2⟩

/-- `shell_tokenize`. The inner option is the returned pointer. Every turn of
the loop moves `p`, so as many turns as the view has bytes are enough. -/
def shellTokenize (alloc : Nat → Bool) (input : Option (List UInt8)) :
    Option (Option TokenList) :=
  match input with
  | none => some none
  | some input =>
    let view := internalTrimWhitespace input
    if view.len < 1 then some none
    else if alloc 0 = false then some none
    else if alloc 1 = false then some none
    else do
      let scan ← scanLoop alloc view.len (scanStart view)
      if scan.list.count ≥ scan.list.capacity then
        if alloc scan.calls = false then some none
        else
          let grown : TokenList :=
            { scan.list with
              tokens := scan.list.tokens ++ [none]
              capacity := scan.list.capacity + 1 }
          return some (← storeToken grown grown.count none)
      else return some (← storeToken scan.list scan.list.count none)

end ShapeQuake.Tokenizer
