import ShapeQuake.CommandLines
import ShapeQuake.Library.Ownership
import ShapeQuake.Library.Runs

/-! The blocks behind a token list: its header, its array, and one for each word, all
from `malloc`, any of which may fail. Whoever tokenizes a line has to give them back on
every path. The shell's handler does; the parser does not on the one path where a list
was made and no word found memory. -/
namespace ShapeQuake.TokenMemory
open Tokenizer TokenizerProofs Library.Ownership Library.Ownership.Ledger Library.Runs
open CommandLines (lexes_iff_words lexes_words tokensOf tokensOf_eq)
open ShellCore (tokenAt exitName)
open ShapeQuake.Parser (text detectPrefix joinTokens SqPayloadExec strncpy)

/-! ## The program -/

/-- A word in memory of its own. -/
structure Word where
  block : Nat
  text : List UInt8
  deriving DecidableEq

/-- `token_list_t`, and the blocks of the structure and of its array. -/
structure OwnedList where
  header : Nat
  array : Nat
  tokens : List (Option Word)
  count : Nat
  capacity : Nat
  deriving DecidableEq

/-- The list without its addresses. -/
def OwnedList.bare (list : OwnedList) : TokenList :=
  ⟨list.tokens.map (Option.map Word.text), list.count, list.capacity⟩

/-- `list->tokens[index] = word`. -/
def storeWord (list : OwnedList) (index : Nat) (word : Option Word) : Option OwnedList :=
  if index < list.tokens.length then some { list with tokens := list.tokens.set index word } else none

/-- The array behind a `realloc` that succeeded. -/
def OwnedList.grown (list : OwnedList) (array newCap : Nat) : OwnedList :=
  { list with
    array
    tokens := list.tokens ++ List.replicate (newCap - list.capacity) none
    capacity := newCap }

/-- `internal_add_token`: a word for which the array cannot grow is given back. -/
def internalAddToken (alloc : Nat → Bool) (list : OwnedList) (ledger : Ledger) (start : List UInt8)
    (len : Nat) : Option (OwnedList × Ledger) :=
  if len = 0 then some (list, ledger)
  else
    match malloc alloc ledger with
    | (none, ledger) => some (list, ledger)
    | (some block, ledger) =>
      let word : Word := ⟨block, start.take len⟩
      if list.count + 1 ≥ list.capacity then
        match realloc alloc ledger list.array with
        | (none, ledger) => some (list, ledger.free block)
        | (some array, ledger) => do
          let list := list.grown array (list.capacity * 2)
          let stored ← storeWord list list.count (some word)
          some ({ stored with count := stored.count + 1 }, ledger)
      else do
        let stored ← storeWord list list.count (some word)
        some ({ stored with count := stored.count + 1 }, ledger)

/-- The state of the main loop. -/
structure Scan where
  p : List UInt8
  list : OwnedList
  ledger : Ledger

/-- One turn of the main loop. -/
def scanStep (alloc : Nat → Bool) (scan : Scan) : Option Scan :=
  match skipSpaces scan.p with
  | [] => some { scan with p := [] }
  | byte :: rest =>
    if byte = pipe then do
      let (list, ledger) ← internalAddToken alloc scan.list scan.ledger (byte :: rest) 1
      some ⟨rest, list, ledger⟩
    else do
      let len := wordLength (byte :: rest)
      let (list, ledger) ← internalAddToken alloc scan.list scan.ledger (byte :: rest) len
      some ⟨(byte :: rest).drop len, list, ledger⟩

/-- At most this many turns of the loop `while (p < end)`. -/
def scanLoop (alloc : Nat → Bool) : Nat → Scan → Option Scan
  | 0, scan => some scan
  | turns + 1, scan =>
    if scan.p = [] then some scan else (scanStep alloc scan).bind (scanLoop alloc turns)

/-- `for (i = 0; i < count; i++) free(tokens[i])`. -/
def freeTokens (ledger : Ledger) (list : OwnedList) : Option Ledger :=
  if list.count ≤ list.tokens.length then
    some (((list.tokens.take list.count).reduceOption.map Word.block).foldl free ledger)
  else none

/-- `shell_destroy_token`. -/
def shellDestroyToken (ledger : Ledger) : Option OwnedList → Option Ledger
  | none => some ledger
  | some list => (freeTokens ledger list).map fun ledger => (ledger.free list.array).free list.header

/-- `shell_tokenize` behind its main loop: the array gets a slot for the null that
ends it where it has none. -/
def terminate (alloc : Nat → Bool) (list : OwnedList) (ledger : Ledger) :
    Option (Option OwnedList × Ledger) :=
  if list.count ≥ list.capacity then
    match realloc alloc ledger list.array with
    | (none, ledger) => (shellDestroyToken ledger (some list)).map fun ledger => (none, ledger)
    | (some array, ledger) =>
      let list := list.grown array (list.capacity + 1)
      (storeWord list list.count none).map fun list => (some list, ledger)
  else (storeWord list list.count none).map fun list => (some list, ledger)

/-- The list in which the main loop starts. -/
def emptyList (header array : Nat) : OwnedList :=
  ⟨header, array, List.replicate initialTokenCapacity none, 0, initialTokenCapacity⟩

/-- The state in which the main loop is entered, after the two allocations. -/
def scanStart (ledger : Ledger) (view : StringView) : Scan :=
  ⟨view.start.take view.len, emptyList ledger.calls ledger.granted.calls, ledger.granted.granted⟩

/-- `shell_tokenize`. -/
def shellTokenize (alloc : Nat → Bool) (ledger : Ledger) (input : Option (List UInt8)) :
    Option (Option OwnedList × Ledger) :=
  match input with
  | none => some (none, ledger)
  | some input =>
    let view := internalTrimWhitespace input
    if view.len < 1 then some (none, ledger)
    else
      match malloc alloc ledger with
      | (none, ledger) => some (none, ledger)
      | (some header, ledger) =>
        match malloc alloc ledger with
        | (none, ledger) => some (none, ledger.free header)
        | (some array, ledger) => do
          let scan ← scanLoop alloc view.len ⟨view.start.take view.len, emptyList header array, ledger⟩
          terminate alloc scan.list scan.ledger

/-- `shell_cb_execute_default`: the list that is handed to `shell_executer_spawn`,
if one is, and the heap when the handler returns. -/
def shellCbExecuteDefault (alloc : Nat → Bool) (ledger : Ledger) (line : List UInt8) :
    Option (Option TokenList × Ledger) := do
  match ← shellTokenize alloc ledger (some line) with
  | (none, ledger) => some (none, ledger)
  | (some list, ledger) =>
    if list.count = 0 then
      let ledger ← shellDestroyToken ledger (some list)
      some (none, ledger)
    else if (← tokenAt list.bare 0) = exitName then
      let ledger ← shellDestroyToken ledger (some list)
      some (none, ledger)
    else
      let ledger ← shellDestroyToken ledger (some list)
      some (some list.bare, ledger)

/-- `parser_create_payload`: the payload's block and what it holds. The list that has
no token is not given back. -/
def parserCreatePayload (alloc : Nat → Bool) (ledger : Ledger) (line : List UInt8) :
    Option (Option (Nat × SqPayloadExec) × Ledger) := do
  match ← shellTokenize alloc ledger (some (text line)) with
  | (none, ledger) => some (none, ledger)
  | (some list, ledger) =>
    if list.count = 0 then some (none, ledger)
    else
      let (flags, shape, cmdStart) := detectPrefix (← tokenAt list.bare 0)
      let cmdBuf ← joinTokens [] ((list.bare.tokens.take list.count).drop cmdStart)
      let (block, ledger) := malloc alloc ledger
      let payload := block.map fun block => (block,
        { flags, shapeHint := strncpy shape 32, cmdLen := cmdBuf.length + 1, commandLine := cmdBuf ++ [0] })
      let ledger ← shellDestroyToken ledger (some list)
      some (payload, ledger)

/-! ## The list without its addresses -/

private theorem storeWord_bare (list : OwnedList) (index : Nat) (word : Option Word) :
    (storeWord list index word).map OwnedList.bare = storeToken list.bare index (word.map Word.text) := by
  have size : list.bare.tokens.length = list.tokens.length := List.length_map ..
  rw [storeWord, storeToken, size]
  split
  · simp [OwnedList.bare, List.map_set]
  · rfl

private theorem grown_bare (list : OwnedList) (array newCap : Nat) :
    (list.grown array newCap).bare =
      { list.bare with
        tokens := list.bare.tokens ++ List.replicate (newCap - list.bare.capacity) none
        capacity := newCap } := by
  simp [OwnedList.grown, OwnedList.bare]

/-- What is added to the list does not depend on where its blocks are. -/
theorem internalAddToken_bare (alloc : Nat → Bool) (list : OwnedList) (ledger : Ledger)
    (start : List UInt8) (len : Nat) :
    (internalAddToken alloc list ledger start len).map (fun (list, ledger) => (list.bare, ledger.calls)) =
      Tokenizer.internalAddToken alloc list.bare ledger.calls start len := by
  have stores (list : OwnedList) (ledger : Ledger) (word : Word) :
      ((storeWord list list.count (some word)).bind fun stored =>
          some ({ stored with count := stored.count + 1 }, ledger)).map
        (fun (list, ledger) => (list.bare, ledger.calls)) =
      (storeToken list.bare list.count (some word.text)).bind fun stored =>
        some ({ stored with count := stored.count + 1 }, ledger.calls) := by
    have same := storeWord_bare list list.count (some word)
    rw [Option.map_some] at same
    rw [← same, Option.map_bind, Option.bind_map]
    rfl
  unfold internalAddToken Tokenizer.internalAddToken
  split
  · rfl
  · cases first : alloc ledger.calls with
    | false => simp [malloc_refused _ first]
    | true =>
      rw [malloc_granted _ first]
      simp only [Bool.true_eq_false, ↓reduceIte]
      have caps : list.bare.capacity = list.capacity ∧ list.bare.count = list.count := ⟨rfl, rfl⟩
      rw [caps.1, caps.2]
      split
      · cases second : alloc (ledger.calls + 1) with
        | false => simp [realloc_refused ledger.granted second]
        | true =>
          rw [realloc_granted ledger.granted second]
          have whole := stores (list.grown ledger.granted.calls (list.capacity * 2))
            (ledger.granted.free list.array).granted ⟨ledger.calls, start.take len⟩
          rw [grown_bare] at whole
          exact whole
      · exact stores list ledger.granted ⟨ledger.calls, start.take len⟩

/-- The scan without its addresses. -/
def Scan.bare (scan : Scan) : Tokenizer.Scan := ⟨scan.p, scan.list.bare, scan.ledger.calls⟩

private theorem scanStep_bare (alloc : Nat → Bool) (scan : Scan) :
    (scanStep alloc scan).map Scan.bare = Tokenizer.scanStep alloc scan.bare := by
  have adds (rest start : List UInt8) (len : Nat) :
      ((internalAddToken alloc scan.list scan.ledger start len).bind fun added =>
          some (⟨rest, added.1, added.2⟩ : Scan)).map Scan.bare =
      (Tokenizer.internalAddToken alloc scan.bare.list scan.bare.calls start len).bind fun added =>
        some ⟨rest, added.1, added.2⟩ := by
    have same := internalAddToken_bare alloc scan.list scan.ledger start len
    rw [show scan.bare.list = scan.list.bare from rfl, show scan.bare.calls = scan.ledger.calls from rfl,
      ← same, Option.map_bind, Option.bind_map]
    rfl
  unfold scanStep Tokenizer.scanStep
  rw [show scan.bare.p = scan.p from rfl]
  cases skipSpaces scan.p with
  | nil => rfl
  | cons byte rest =>
    simp only
    split
    · exact adds rest (byte :: rest) 1
    · exact adds _ (byte :: rest) (wordLength (byte :: rest))

theorem scanLoop_bare (alloc : Nat → Bool) (turns : Nat) (scan : Scan) :
    (scanLoop alloc turns scan).map Scan.bare = Tokenizer.scanLoop alloc turns scan.bare := by
  induction turns generalizing scan with
  | zero => rfl
  | succ turns ih =>
    simp only [scanLoop, Tokenizer.scanLoop]
    rw [show scan.bare.p = scan.p from rfl]
    split
    · rfl
    · rw [← scanStep_bare, Option.map_bind, Option.bind_map]
      exact congrArg _ (funext ih)

/-! ## Calls counted from another one on -/

section
variable (alloc : Nat → Bool) (base : Nat)

/-- The outcomes of the calls from this one on. -/
def behind : Nat → Bool := fun call => alloc (base + call)

/-- The same scan where so many calls were made before. -/
def later (scan : Tokenizer.Scan) : Tokenizer.Scan := { scan with calls := base + scan.calls }

private theorem internalAddToken_later (list : TokenList) (calls : Nat) (start : List UInt8) (len : Nat) :
    Tokenizer.internalAddToken alloc list (base + calls) start len =
      (Tokenizer.internalAddToken (behind alloc base) list calls start len).map fun (list, calls) =>
        (list, base + calls) := by
  unfold Tokenizer.internalAddToken behind
  simp only [Nat.add_assoc]
  split
  · rfl
  · split
    · rfl
    · split
      · split
        · rfl
        · simp only [Option.bind_eq_bind, Option.map_bind]
          rfl
      · simp only [Option.bind_eq_bind, Option.map_bind]
        rfl

private theorem scanStep_later (scan : Tokenizer.Scan) :
    Tokenizer.scanStep alloc (later base scan) =
      (Tokenizer.scanStep (behind alloc base) scan).map (later base) := by
  unfold Tokenizer.scanStep later
  simp only
  cases skipSpaces scan.p with
  | nil => rfl
  | cons byte rest =>
    simp only
    split
    · simp only [Option.bind_eq_bind, internalAddToken_later, Option.map_bind, Option.bind_map]
      rfl
    · simp only [Option.bind_eq_bind, internalAddToken_later, Option.map_bind, Option.bind_map]
      rfl

private theorem scanLoop_later (turns : Nat) (scan : Tokenizer.Scan) :
    Tokenizer.scanLoop alloc turns (later base scan) =
      (Tokenizer.scanLoop (behind alloc base) turns scan).map (later base) := by
  induction turns generalizing scan with
  | zero => rfl
  | succ turns ih =>
    simp only [Tokenizer.scanLoop]
    rw [show (later base scan).p = scan.p from rfl]
    split
    · rfl
    · rw [scanStep_later, Option.map_bind, Option.bind_map]
      exact congrArg _ (funext ih)

end

/-! ## A list and its blocks -/

/-- The list holds these words, with a slot to spare, and what is live are its blocks
beside those of the rest of the process. -/
structure Keeps (list : OwnedList) (ledger : Ledger) (words : List Word) (frame : List Nat) : Prop where
  slots : list.tokens = words.map some ++ List.replicate (list.capacity - words.length) none
  count : list.count = words.length
  room : list.count < list.capacity
  owned : ledger.Owns (list.header :: list.array :: (words.map Word.block ++ frame))

private theorem Keeps.size (kept : Keeps list ledger words frame) : list.tokens.length = list.capacity := by
  have room := kept.room
  rw [kept.count] at room
  rw [kept.slots, List.length_append, List.length_map, List.length_replicate]
  omega

/-- A word in a block of its own finds its slot. -/
private theorem Keeps.store (kept : Keeps list ledger words frame) (word : Word) (beside : List Nat)
    (spare : list.count + 1 < list.capacity)
    (owned : other.Owns (list.header :: list.array :: ((words ++ [word]).map Word.block ++ beside))) :
    ∃ stored, storeWord list list.count (some word) = some stored ∧
      Keeps { stored with count := stored.count + 1 } other (words ++ [word]) beside := by
  refine ⟨{ list with tokens := list.tokens.set list.count (some word) }, ?_, ?_⟩
  · rw [storeWord, if_pos]
    rw [kept.size]
    exact kept.room
  · constructor
    · have count := kept.count
      obtain ⟨more, rest⟩ : ∃ more, list.capacity - words.length = more + 1 :=
        ⟨list.capacity - words.length - 1, by omega⟩
      have fewer : list.capacity - (words ++ [word]).length = more := by
        rw [List.length_append, List.length_singleton]
        omega
      simp only [fewer]
      rw [kept.slots, count, rest, List.set_append_right _ _ (by simp), List.length_map, Nat.sub_self,
        List.replicate_succ]
      simp
    · simp [kept.count]
    · exact spare
    · exact owned

/-- The array is twice as long behind `realloc`, and the old one is gone. -/
private theorem Keeps.grown (kept : Keeps list ledger words frame)
    (owned : other.Owns (list.header :: array :: (words.map Word.block ++ frame))) :
    Keeps (list.grown array (list.capacity * 2)) other words frame where
  slots := by
    have room := kept.room
    rw [kept.count] at room
    simp only [OwnedList.grown]
    rw [kept.slots, List.append_assoc, List.replicate_append_replicate]
    have spare : list.capacity - words.length + (list.capacity * 2 - list.capacity) =
        list.capacity * 2 - words.length := by omega
    rw [spare]
  count := kept.count
  room := by
    have room := kept.room
    simp only [OwnedList.grown]
    omega
  owned := owned

/-- A new block is counted among those behind the header and the array. -/
private theorem Keeps.taken (kept : Keeps list ledger words frame) :
    ledger.granted.Owns (list.header :: list.array :: (words.map Word.block ++ ledger.calls :: frame)) := by
  refine kept.owned.granted.perm ?_
  refine (List.Perm.swap ..).trans (List.Perm.cons _ ((List.Perm.swap ..).trans (List.Perm.cons _ ?_)))
  exact List.perm_middle.symm

/-- Adding a word takes a block for it, or leaves the list as it was. The first word
is lost only if there is no memory for the word itself. -/
theorem internalAddToken_keeps (alloc : Nat → Bool) (start : List UInt8)
    (kept : Keeps list ledger words frame) (nonempty : 0 < len) :
    ∃ next after added, internalAddToken alloc list ledger start len = some (next, after) ∧
      Keeps next after (words ++ added) frame ∧
      (words = [] → list.capacity = initialTokenCapacity →
        (added = [] ↔ alloc ledger.calls = false) ∧
        (added = [] → next = list ∧ after.calls = ledger.calls + 1)) := by
  unfold internalAddToken
  rw [if_neg (Nat.ne_of_gt nonempty)]
  cases first : alloc ledger.calls with
  | false =>
    rw [malloc_refused _ first]
    refine ⟨list, ledger.refused, [], rfl, ?_, fun _ _ => ⟨by simp, fun _ => ⟨rfl, rfl⟩⟩⟩
    rw [List.append_nil]
    exact { kept with owned := kept.owned.refused }
  | true =>
    rw [malloc_granted _ first]
    simp only
    split
    · rename_i full
      have many : words = [] → list.capacity = initialTokenCapacity → False := by
        rintro rfl small
        have none_ : list.count = 0 := kept.count
        rw [none_, small, initialTokenCapacity] at full
        omega
      cases second : alloc (ledger.calls + 1) with
      | false =>
        rw [realloc_refused ledger.granted second]
        refine ⟨list, _, [], rfl, ?_, fun none_ small => (many none_ small).elim⟩
        rw [List.append_nil]
        exact { kept with owned := kept.owned.granted.refused.free }
      | true =>
        rw [realloc_granted ledger.granted second]
        have moved := ((kept.taken.perm (List.Perm.swap ..)).free.granted).perm (List.Perm.swap ..)
        have wider := Keeps.grown { kept with owned := kept.taken } moved
        have wide : list.count + 1 < list.capacity * 2 := by
          have room := kept.room
          omega
        obtain ⟨stored, ran, keeps⟩ := wider.store ⟨ledger.calls, start.take len⟩ frame wide
          (by simpa [OwnedList.grown] using moved)
        simp only [free_calls, granted_calls] at ran
        refine ⟨_, _, _, ?_, keeps, fun none_ small => (many none_ small).elim⟩
        simp only [granted_calls]
        rw [ran]
        rfl
    · rename_i spare
      obtain ⟨stored, ran, keeps⟩ := kept.store ⟨ledger.calls, start.take len⟩ frame (by omega)
        (by simpa using kept.taken)
      exact ⟨_, _, _, by rw [ran]; rfl, keeps, fun _ _ => by simp⟩

/-! ## The main loop -/

private theorem words_skipSpaces (line : List UInt8) :
    CommandLines.words (skipSpaces line) = CommandLines.words line :=
  lexes_iff_words.mp (lexes_skipSpaces (lexes_words _))

/-- A turn of the loop reads one word and adds it, or finds that there is none left. -/
private theorem scanStep_cases (alloc : Nat → Bool) (scan : Scan) (more : scan.p ≠ []) :
    (scanStep alloc scan = some { scan with p := [] } ∧ CommandLines.words scan.p = []) ∨
    ∃ start len rest, 0 < len ∧ rest.length < scan.p.length ∧
      (CommandLines.words scan.p).length = (CommandLines.words rest).length + 1 ∧
      scanStep alloc scan = (internalAddToken alloc scan.list scan.ledger start len).map
        fun (list, ledger) => ⟨rest, list, ledger⟩ := by
  have positive := List.length_pos_of_ne_nil more
  have shrunk := skipSpaces_length scan.p
  have same := words_skipSpaces scan.p
  unfold scanStep
  cases start : skipSpaces scan.p with
  | nil =>
    rw [start] at same
    exact .inl ⟨rfl, same.symm⟩
  | cons byte rest =>
    right
    rw [start, List.length_cons] at shrunk
    rw [start] at same
    by_cases bar : byte = pipe
    · refine ⟨byte :: rest, 1, rest, Nat.one_pos, by omega, ?_, ?_⟩
      · rw [← same, bar, ← lexes_iff_words.mp (.bar (lexes_words rest)), List.length_cons]
      · simp only [bar, ↓reduceIte]
        cases internalAddToken alloc scan.list scan.ledger (pipe :: rest) 1 <;> rfl
    · have solid : isSpace byte = false := by
        rcases skipSpaces_cases scan.p with ⟨empty, _⟩ | ⟨first, tail, again, solid, _⟩
        · rw [start] at empty
          cases empty
        · rw [start] at again
          cases again
          exact solid
      have inside : wordByte byte = true := by simp [wordByte, solid, bar]
      obtain ⟨taken, dropped⟩ := word_split (byte :: rest)
      have nonempty : (byte :: rest).takeWhile wordByte ≠ [] := by simp [inside]
      have advance : 0 < wordLength (byte :: rest) := by
        apply Nat.pos_of_ne_zero
        intro zero
        rw [zero] at taken
        exact nonempty taken.symm
      refine ⟨byte :: rest, wordLength (byte :: rest), (byte :: rest).drop (wordLength (byte :: rest)),
        advance, ?_, ?_, ?_⟩
      · rw [List.length_drop, List.length_cons]
        omega
      · have line := Lexes.word nonempty (fun _ member => List.mem_takeWhile_imp member)
          (head_dropWhile _) (lexes_words ((byte :: rest).dropWhile wordByte))
        rw [List.takeWhile_append_dropWhile] at line
        rw [dropped, ← same, ← lexes_iff_words.mp line, List.length_cons]
      · simp only [bar, ↓reduceIte]
        cases internalAddToken alloc scan.list scan.ledger (byte :: rest) (wordLength (byte :: rest)) <;> rfl

/-- None of the words that are left finds memory. -/
def AllRefused (alloc : Nat → Bool) (scan : Scan) : Prop :=
  ∀ k < (CommandLines.words scan.p).length, alloc (scan.ledger.calls + k) = false

private theorem allRefused_done (alloc : Nat → Bool) (done : CommandLines.words scan.p = []) :
    AllRefused alloc scan := by
  intro k small
  rw [done] at small
  exact absurd small (Nat.not_lt_zero k)

/-- The loop keeps the list and its blocks, and it ends without any word exactly if there
is memory for none. -/
theorem scanLoop_keeps (alloc : Nat → Bool) (turns : Nat) (kept : Keeps scan.list scan.ledger words frame) :
    ∃ final added, scanLoop alloc turns scan = some final ∧
      Keeps final.list final.ledger (words ++ added) frame ∧
      (words = [] → scan.list.capacity = initialTokenCapacity → scan.p.length ≤ turns →
        (added = [] ↔ AllRefused alloc scan)) := by
  induction turns generalizing scan words with
  | zero =>
    refine ⟨scan, [], rfl, by rwa [List.append_nil], fun _ _ short => ?_⟩
    apply iff_of_true rfl (allRefused_done alloc _)
    rw [List.length_eq_zero_iff.mp (Nat.le_zero.mp short)]
    rfl
  | succ turns ih =>
    simp only [scanLoop]
    split
    · rename_i done
      refine ⟨scan, [], rfl, by rwa [List.append_nil], fun _ _ _ => ?_⟩
      apply iff_of_true rfl (allRefused_done alloc _)
      rw [done]
      rfl
    · rename_i more
      rcases scanStep_cases alloc scan more with
        ⟨ran, none_⟩ | ⟨start, len, rest, nonempty, shorter, one, ran⟩
      · rw [ran]
        obtain ⟨final, added, looped, keeps, count⟩ := @ih words { scan with p := [] } kept
        refine ⟨final, added, looped, keeps, fun empty small _ => ?_⟩
        exact (count empty small (Nat.zero_le _)).trans
          (iff_of_true (allRefused_done alloc rfl) (allRefused_done alloc none_))
      · obtain ⟨next, after, added, adds, keeps, first⟩ := internalAddToken_keeps alloc start kept nonempty
        rw [ran, adds, Option.map_some]
        obtain ⟨final, others, looped, held, count⟩ := @ih _ ⟨rest, next, after⟩ keeps
        refine ⟨final, added ++ others, looped, by rwa [← List.append_assoc], fun empty small short => ?_⟩
        obtain ⟨lost, same⟩ := first empty small
        rw [List.append_eq_nil_iff, lost]
        constructor
        · rintro ⟨refused, nothing⟩ k below
          obtain ⟨rfl, calls⟩ := same (lost.mpr refused)
          have left := (count (by rw [empty, lost.mpr refused]; rfl) small (by simp only; omega)).mp nothing
          cases k with
          | zero => exact refused
          | succ k =>
            have one_ := left k (by simp only; omega)
            simp only [calls] at one_
            rwa [Nat.add_assoc, Nat.add_comm 1 k] at one_
        · intro all
          have refused : alloc scan.ledger.calls = false := all 0 (by omega)
          obtain ⟨rfl, calls⟩ := same (lost.mpr refused)
          refine ⟨refused, (count (by rw [empty, lost.mpr refused]; rfl) small (by simp only; omega)).mpr ?_⟩
          intro k below
          simp only at below
          have one_ := all (k + 1) (by omega)
          simp only [calls]
          rwa [Nat.add_assoc, Nat.add_comm 1 k]

private theorem scanStart_keeps (alloc : Nat → Bool) (view : StringView) (owned : ledger.Owns frame) :
    ∃ final words, scanLoop alloc view.len (scanStart ledger view) = some final ∧
      Keeps final.list final.ledger words frame ∧
      ((viewed view).length ≤ view.len → (words = [] ↔ AllRefused alloc (scanStart ledger view))) := by
  have kept : Keeps (scanStart ledger view).list (scanStart ledger view).ledger [] frame :=
    ⟨rfl, rfl, Nat.succ_pos _, owned.granted.granted.perm (List.Perm.swap ..)⟩
  obtain ⟨final, words, ran, keeps, count⟩ := scanLoop_keeps alloc view.len kept
  exact ⟨final, words, ran, keeps, count rfl rfl⟩

/-! ## A line and its list -/

/-- The line has words, there is memory for a list and its array, and none for any word. -/
def Starved (alloc : Nat → Bool) (base : Nat) (line : List UInt8) : Prop :=
  0 < (tokensOf line).length ∧ alloc base = true ∧ alloc (base + 1) = true ∧
    ∀ k < (tokensOf line).length, alloc (base + 2 + k) = false

instance (alloc : Nat → Bool) (base : Nat) (line : List UInt8) : Decidable (Starved alloc base line) :=
  inferInstanceAs (Decidable (_ ∧ _))

private theorem Keeps.terminated (kept : Keeps list ledger words frame) :
    storeWord list list.count none = some list := by
  have room := kept.room
  have spare : list.tokens[list.count]? = some none := by
    rw [kept.count] at room
    rw [kept.slots, kept.count, List.getElem?_append_right (by simp), List.length_map,
      List.getElem?_replicate, if_pos (by omega)]
  obtain ⟨inside, null⟩ := List.getElem?_eq_some_iff.mp spare
  rw [storeWord, if_pos inside, ← null, List.set_getElem_self]

private theorem Keeps.blocks (kept : Keeps list ledger words frame) :
    (list.tokens.take list.count).reduceOption.map Word.block = words.map Word.block := by
  rw [kept.slots, kept.count, List.take_left' (by simp)]
  simp [List.reduceOption]

/-- A list that is destroyed gives back all of its blocks, each once. -/
theorem Keeps.destroyed (kept : Keeps list ledger words frame) :
    ∃ after, shellDestroyToken ledger (some list) = some after ∧ after.Owns frame := by
  have inside : list.count ≤ list.tokens.length := by
    rw [kept.size]
    exact Nat.le_of_lt kept.room
  refine ⟨_, by rw [shellDestroyToken, freeTokens, if_pos inside]; rfl, ?_⟩
  rw [kept.blocks]
  have order : (list.header :: list.array :: (words.map Word.block ++ frame)).Perm
      (words.map Word.block ++ list.array :: list.header :: frame) := by
    refine (List.Perm.swap ..).trans ?_
    refine (List.Perm.cons _ List.perm_middle.symm).trans List.perm_middle.symm
  exact (kept.owned.perm order).freeAll.free.free

/-- A line is tokenized to no list, and nothing is kept then, or to a list with its
blocks, which is empty exactly if the line was starved. -/
theorem shellTokenize_keeps (alloc : Nat → Bool) (line : List UInt8) (owned : ledger.Owns frame) :
    (∃ after, shellTokenize alloc ledger (some line) = some (none, after) ∧ after.Owns frame ∧
      ¬ Starved alloc ledger.calls line) ∨
    ∃ list after words, shellTokenize alloc ledger (some line) = some (some list, after) ∧
      Keeps list after words frame ∧ (words = [] ↔ Starved alloc ledger.calls line) := by
  obtain ⟨blankIff, within, untrimmed⟩ := internalTrimWhitespace_spec line
  unfold shellTokenize
  simp only
  split
  · rename_i short
    refine .inl ⟨ledger, rfl, owned, fun starved => ?_⟩
    have none_ : tokensOf line = [] := by
      rw [tokensOf, shellTokenize_blank _ (blankIff.mp short)]
    have positive := starved.1
    rw [none_] at positive
    exact Nat.lt_irrefl _ positive
  · rename_i long
    cases first : alloc ledger.calls with
    | false =>
      rw [malloc_refused _ first]
      refine .inl ⟨_, rfl, owned.refused, fun starved => ?_⟩
      cases starved.2.1.symm.trans first
    | true =>
      rw [malloc_granted _ first]
      simp only
      cases second : alloc (ledger.calls + 1) with
      | false =>
        rw [malloc_refused ledger.granted second]
        refine .inl ⟨_, rfl, owned.granted.refused.free, fun starved => ?_⟩
        cases starved.2.2.1.symm.trans second
      | true =>
        rw [malloc_granted ledger.granted second]
        obtain ⟨final, words, ran, keeps, count⟩ :=
          scanStart_keeps alloc (internalTrimWhitespace line) owned
        refine .inr ⟨final.list, final.ledger, words, ?_, keeps, ?_⟩
        · simp only [Option.bind_eq_bind]
          rw [← scanStart, ran, Option.bind_some, terminate, if_neg (Nat.not_le.mpr keeps.room),
            keeps.terminated]
          rfl
        · have same : CommandLines.words (viewed (internalTrimWhitespace line)) = tokensOf line := by
            rw [tokensOf_eq]
            exact lexes_iff_words.mp (untrimmed _ (lexes_words _))
          have solid : 0 < (tokensOf line).length := by
            apply List.length_pos_of_ne_nil
            rw [tokensOf_eq]
            intro none_
            exact long (blankIff.mpr (blank_of_lexes_nothing (lexes_words line) none_))
          rw [count within, AllRefused, show (scanStart ledger _).p = viewed _ from rfl, same]
          exact ⟨fun all => ⟨solid, first, second, all⟩, fun starved => starved.2.2.2⟩

/-- The tokenizer returns what it returns where no other call was made before it. -/
theorem shellTokenize_bare (alloc : Nat → Bool) (line : List UInt8) (owned : ledger.Owns frame) :
    (shellTokenize alloc ledger (some line)).map (fun (list, _) => list.map OwnedList.bare) =
      Tokenizer.shellTokenize (behind alloc ledger.calls) (some line) := by
  have zeroth : behind alloc ledger.calls 0 = alloc ledger.calls := rfl
  have next : behind alloc ledger.calls 1 = alloc (ledger.calls + 1) := rfl
  unfold shellTokenize Tokenizer.shellTokenize
  simp only [zeroth, next]
  split
  · rfl
  · cases first : alloc ledger.calls with
    | false =>
      rw [malloc_refused _ first]
      rfl
    | true =>
      rw [malloc_granted _ first]
      cases second : alloc (ledger.calls + 1) with
      | false =>
        simp only [malloc_refused ledger.granted second]
        rfl
      | true =>
        simp only [malloc_granted ledger.granted second, Bool.true_eq_false, ↓reduceIte]
        obtain ⟨final, words, ran, keeps, _⟩ := scanStart_keeps alloc (internalTrimWhitespace line) owned
        have seen := scanLoop_bare alloc (internalTrimWhitespace line).len
          (scanStart ledger (internalTrimWhitespace line))
        have shifted := scanLoop_later alloc ledger.calls (internalTrimWhitespace line).len
          (Tokenizer.scanStart (internalTrimWhitespace line))
        have start : (scanStart ledger (internalTrimWhitespace line)).bare =
            later ledger.calls (Tokenizer.scanStart (internalTrimWhitespace line)) := rfl
        rw [ran, start, shifted, Option.map_some] at seen
        obtain ⟨plain, looped, same⟩ := Option.map_eq_some_iff.mp seen.symm
        have list : plain.list = final.list.bare := congrArg Tokenizer.Scan.list same
        have room : ¬ plain.list.count ≥ plain.list.capacity := by
          rw [list]
          exact Nat.not_le.mpr keeps.room
        have stored := storeWord_bare final.list final.list.count none
        rw [keeps.terminated] at stored
        rw [← scanStart]
        simp only [Option.bind_eq_bind, ran, looped, Option.bind_some, room, ↓reduceIte]
        rw [terminate, if_neg (Nat.not_le.mpr keeps.room), keeps.terminated, list,
          show final.list.bare.count = final.list.count from rfl, ← Option.map_none, ← stored]
        rfl

/-! ## What tokenizes -/

private theorem tokenAt_first (kept : Keeps list ledger (word :: rest) frame) :
    tokenAt list.bare 0 = some word.text := by
  simp [tokenAt, OwnedList.bare, kept.slots]

/-- The handler gives back what it took, whatever it does with the line. -/
theorem shellCbExecuteDefault_owns (alloc : Nat → Bool) (line : List UInt8) (owned : ledger.Owns frame) :
    ∃ spawned after, shellCbExecuteDefault alloc ledger line = some (spawned, after) ∧ after.Owns frame := by
  unfold shellCbExecuteDefault
  rcases shellTokenize_keeps alloc line owned with ⟨after, ran, owns, _⟩ | ⟨list, after, words, ran, kept, _⟩
  · exact ⟨none, after, by rw [ran]; rfl, owns⟩
  · obtain ⟨final, destroyed, owns⟩ := kept.destroyed
    rw [ran]
    simp only [Option.bind_eq_bind, Option.bind_some, destroyed]
    split
    · exact ⟨none, final, rfl, owns⟩
    · rename_i some_
      cases words with
      | nil => exact absurd kept.count some_
      | cons word rest =>
        rw [tokenAt_first kept, Option.bind_some]
        split
        · exact ⟨none, final, rfl, owns⟩
        · exact ⟨some list.bare, final, rfl, owns⟩

/-- The parser gives back all but its payload, unless the line was starved: then the
header and the array stay behind. -/
theorem parserCreatePayload_owns (owned : ledger.Owns frame)
    (ran : parserCreatePayload alloc ledger line = some (payload, after)) :
    (¬ Starved alloc ledger.calls (text line) ∧ after.Owns ((payload.map Prod.fst).toList ++ frame)) ∨
      (Starved alloc ledger.calls (text line) ∧ payload = none ∧
        ∃ header array, after.Owns (header :: array :: frame)) := by
  unfold parserCreatePayload at ran
  rcases shellTokenize_keeps alloc (text line) owned with
    ⟨middle, tokenized, owns, fed⟩ | ⟨list, middle, words, tokenized, kept, starved⟩
  · rw [tokenized] at ran
    cases ran
    exact .inl ⟨fed, owns⟩
  · rw [tokenized] at ran
    simp only [Option.bind_eq_bind, Option.bind_some] at ran
    split at ran
    · rename_i none_
      cases ran
      have empty : words = [] := List.length_eq_zero_iff.mp (kept.count.symm.trans none_)
      refine .inr ⟨starved.mp empty, rfl, list.header, list.array, ?_⟩
      have owns := kept.owned
      rwa [empty] at owns
    · rename_i some_
      have fed : ¬ Starved alloc ledger.calls (text line) := by
        intro starving
        apply some_
        rw [kept.count, starved.mpr starving, List.length_nil]
      obtain ⟨first, _, ran⟩ := Option.bind_eq_some_iff.mp ran
      obtain ⟨cmdBuf, _, ran⟩ := Option.bind_eq_some_iff.mp ran
      left
      cases room : alloc middle.calls with
      | false =>
        rw [malloc_refused _ room] at ran
        obtain ⟨final, destroyed, owns⟩ := Keeps.destroyed { kept with owned := kept.owned.refused }
        simp only [destroyed, Option.bind_some] at ran
        cases ran
        exact ⟨fed, owns⟩
      | true =>
        rw [malloc_granted _ room] at ran
        obtain ⟨final, destroyed, owns⟩ := Keeps.destroyed { kept with owned := kept.taken }
        simp only [destroyed, Option.bind_some] at ran
        cases ran
        exact ⟨fed, owns⟩

/-- The command line that is handed to `shell_executer_spawn`. -/
def spawnedOf : ShellCore.Execution → Option TokenList
  | .returned .. => none
  | .spawns _ list _ => some list

/-- What the handler spawns is what it spawns without regard to its memory. -/
theorem shellCbExecuteDefault_bare (alloc : Nat → Bool) (owned : ledger.Owns frame)
    (typed : ShellCore.cString shell.commandLineBuffer ShellCore.commandLineBufSize = some line) :
    (shellCbExecuteDefault alloc ledger line).map Prod.fst =
      (ShellCore.shellCbExecuteDefault shell (behind alloc ledger.calls)).map spawnedOf := by
  have same := shellTokenize_bare alloc line owned
  unfold shellCbExecuteDefault ShellCore.shellCbExecuteDefault
  rcases shellTokenize_keeps alloc line owned with ⟨after, ran, _⟩ | ⟨list, after, words, ran, kept, _⟩
  · rw [ran] at same
    simp only [typed, Option.bind_eq_bind, Option.bind_some, ran, ← same]
    rfl
  · obtain ⟨final, destroyed, _⟩ := kept.destroyed
    rw [ran] at same
    simp only [typed, Option.bind_eq_bind, Option.bind_some, ran, ← same, Option.map_some, destroyed,
      show list.bare.count = list.count from rfl]
    split
    · rfl
    · cases tokenAt list.bare 0 with
      | none => rfl
      | some first =>
        simp only [Option.bind_some]
        split <;> rfl

/-- The parser returns what it returns without regard to its memory. -/
theorem parserCreatePayload_bare (alloc : Nat → Bool) (line : List UInt8) (outFlags : BitVec 32)
    (owned : ledger.Owns frame) :
    ∃ room, (parserCreatePayload alloc ledger line).map (fun (payload, _) => payload.map Prod.snd) =
      (Parser.parserCreatePayload (behind alloc ledger.calls) room line outFlags).map Prod.fst := by
  have same := shellTokenize_bare alloc (text line) owned
  unfold parserCreatePayload Parser.parserCreatePayload
  rcases shellTokenize_keeps alloc (text line) owned with ⟨after, ran, _⟩ | ⟨list, after, words, ran, kept, _⟩
  · rw [ran] at same
    refine ⟨true, ?_⟩
    simp only [Option.bind_eq_bind, Option.bind_some, ran, ← same]
    rfl
  · refine ⟨alloc after.calls, ?_⟩
    rw [ran] at same
    simp only [Option.bind_eq_bind, Option.bind_some, ran, ← same, Option.map_some,
      show list.bare.count = list.count from rfl]
    split
    · rfl
    · cases tokenAt list.bare 0 with
      | none => rfl
      | some first =>
        simp only [Option.bind_some]
        cases joinTokens [] ((list.bare.tokens.take list.count).drop (detectPrefix first).2.2) with
        | none => rfl
        | some cmdBuf =>
          simp only [Option.bind_some]
          cases room : alloc after.calls with
          | false =>
            obtain ⟨final, destroyed, _⟩ := Keeps.destroyed { kept with owned := kept.owned.refused }
            rw [malloc_refused _ room]
            simp only [destroyed]
            rfl
          | true =>
            obtain ⟨final, destroyed, _⟩ := Keeps.destroyed { kept with owned := kept.taken }
            rw [malloc_granted _ room]
            simp only [destroyed]
            rfl

/-! ## Any number of lines -/

/-- What a line is tokenized for. -/
inductive Use where
  | execute (line : List UInt8)
  | parse (line : List UInt8)
  deriving DecidableEq

/-- What comes of it: the command line that is handed over, or the payload. -/
inductive Result where
  | spawned (list : Option TokenList)
  | payload (payload : Option SqPayloadExec)

/-- A use that is over, with the number of calls before it. -/
structure Done where
  use : Use
  base : Nat
  result : Result

/-- The heap, the payloads that were returned, and what was done. -/
structure State where
  ledger : Ledger
  payloads : List Nat
  uses : List Done

/-- One line. It has no result when a command does not fit the parser's buffer. -/
def step (alloc : Nat → Bool) (state : State) : Use → Option State
  | .execute line =>
    (shellCbExecuteDefault alloc state.ledger line).map fun (spawned, ledger) =>
      { state with
        ledger
        uses := state.uses ++ [⟨.execute line, state.ledger.calls, .spawned spawned⟩] }
  | .parse line =>
    (parserCreatePayload alloc state.ledger line).map fun (payload, ledger) =>
      { ledger
        payloads := (payload.map Prod.fst).toList ++ state.payloads
        uses := state.uses ++ [⟨.parse line, state.ledger.calls, .payload (payload.map Prod.snd)⟩] }

/-- A list without a word that the parser got. -/
def Lost (alloc : Nat → Bool) (done : Done) : Bool :=
  match done.use with
  | .execute _ => false
  | .parse line => decide (Starved alloc done.base (text line))

/-- It is what the handler of any shell with this line, or the parser, comes to without
regard to memory, where the same calls fail. -/
def Returns (alloc : Nat → Bool) (done : Done) : Prop :=
  match done.use, done.result with
  | .execute line, .spawned list =>
    ∀ shell : ShellCore.Shell, ShellCore.cString shell.commandLineBuffer ShellCore.commandLineBufSize = some line →
      (ShellCore.shellCbExecuteDefault shell (behind alloc done.base)).map spawnedOf = some list
  | .parse line, .payload payload =>
    ∀ outFlags, ∃ room, (Parser.parserCreatePayload (behind alloc done.base) room line outFlags).map Prod.fst =
      some payload
  | .execute _, .payload _ | .parse _, .spawned _ => False

/-- What is live are the payloads, two blocks for every list that the parser lost, and
what the process had before. -/
structure Accounted (alloc : Nat → Bool) (frame : List Nat) (state : State) : Prop where
  owned : ∃ lost, state.ledger.Owns (state.payloads ++ lost ++ frame) ∧
    lost.length = 2 * state.uses.countP (Lost alloc)
  returned : ∀ done ∈ state.uses, Returns alloc done

private theorem returned_more (returned : ∀ done ∈ uses, Returns alloc done) (new : Returns alloc done) :
    ∀ other ∈ uses ++ [done], Returns alloc other := by
  intro other member
  rcases List.mem_append.mp member with old | last
  · exact returned other old
  · exact List.mem_singleton.mp last ▸ new

theorem step_accounted (held : Accounted alloc frame state) (taken : step alloc state use = some next) :
    Accounted alloc frame next := by
  obtain ⟨lost, owned, size⟩ := held.owned
  cases use with
  | execute line =>
    obtain ⟨spawned, after, ran, owns⟩ := shellCbExecuteDefault_owns alloc line owned
    have returns : Returns alloc ⟨.execute line, state.ledger.calls, .spawned spawned⟩ := by
      intro shell typed
      rw [← shellCbExecuteDefault_bare alloc owned typed, ran]
      rfl
    rw [step, ran] at taken
    cases taken
    exact ⟨⟨lost, owns, by rw [List.countP_append, size]; rfl⟩, returned_more held.returned returns⟩
  | parse line =>
    obtain ⟨⟨payload, after⟩, ran, rfl⟩ := Option.map_eq_some_iff.mp taken
    have returns : Returns alloc ⟨.parse line, state.ledger.calls, .payload (payload.map Prod.snd)⟩ := by
      intro outFlags
      obtain ⟨room, same⟩ := parserCreatePayload_bare alloc line outFlags owned
      rw [ran] at same
      exact ⟨room, same.symm⟩
    refine ⟨?_, returned_more held.returned returns⟩
    rcases parserCreatePayload_owns owned ran with ⟨fed, owns⟩ | ⟨starved, rfl, header, array, owns⟩
    · refine ⟨lost, by simpa using owns, ?_⟩
      rw [List.countP_append, size]
      simp [Lost, fed]
    · refine ⟨header :: array :: lost, owns.perm ?_, ?_⟩
      · show (header :: array :: (state.payloads ++ lost ++ frame)).Perm
          (state.payloads ++ header :: array :: lost ++ frame)
        rw [List.append_assoc, List.append_assoc]
        exact (List.Perm.cons _ List.perm_middle.symm).trans List.perm_middle.symm
      · rw [List.countP_append, List.length_cons, List.length_cons, size]
        simp [Lost, starved]
        omega

private theorem run_accounted (held : Accounted alloc frame state)
    (ran : exec (step alloc) state uses = some final) :
    Accounted alloc frame final ∧ final.uses.map Done.use = state.uses.map Done.use ++ uses := by
  induction uses generalizing state with
  | nil =>
    cases ran
    exact ⟨held, (List.append_nil _).symm⟩
  | cons use rest ih =>
    obtain ⟨next, taken, after⟩ := exec_cons.mp ran
    obtain ⟨accounted, seen⟩ := ih (step_accounted held taken) after
    refine ⟨accounted, ?_⟩
    have one : next.uses.map Done.use = state.uses.map Done.use ++ [use] := by
      cases use with
      | execute line =>
        obtain ⟨_, _, rfl⟩ := Option.map_eq_some_iff.mp taken
        exact List.map_append
      | parse line =>
        obtain ⟨_, _, rfl⟩ := Option.map_eq_some_iff.mp taken
        exact List.map_append
    rw [seen, one, List.append_assoc]
    rfl

private theorem executes_return (lines : List (List UInt8)) (owned : state.ledger.Owns frame) :
    ∃ final, exec (step alloc) state (lines.map Use.execute) = some final ∧ final.ledger.Owns frame := by
  induction lines generalizing state with
  | nil => exact ⟨state, rfl, owned⟩
  | cons line rest ih =>
    obtain ⟨spawned, after, ran, owns⟩ := shellCbExecuteDefault_owns alloc line owned
    obtain ⟨final, others, kept⟩ := @ih
      { state with
        ledger := after
        uses := state.uses ++ [⟨.execute line, state.ledger.calls, .spawned spawned⟩] } owns
    refine ⟨final, exec_cons.mpr ⟨_, ?_, others⟩, kept⟩
    rw [step, ran]
    rfl

/-- Whatever lines are executed and parsed, and whichever allocations fail: nothing is
freed that is not live, and behind them are live the payloads, two blocks for each list
the parser lost, and what was live before; each line comes to what it comes to without
regard to memory. The handler's lines alone always return, and leave nothing behind. -/
theorem token_blocks_accounted (alloc : Nat → Bool) (owned : ledger.Owns frame) :
    (∀ uses final, exec (step alloc) ⟨ledger, [], []⟩ uses = some final →
      final.uses.map Done.use = uses ∧ (∀ done ∈ final.uses, Returns alloc done) ∧
      ∃ lost, final.ledger.Owns (final.payloads ++ lost ++ frame) ∧
        lost.length = 2 * final.uses.countP (Lost alloc)) ∧
    ∀ lines : List (List UInt8), ∃ final,
      exec (step alloc) ⟨ledger, [], []⟩ (lines.map Use.execute) = some final ∧ final.ledger.Owns frame := by
  refine ⟨fun uses final ran => ?_, fun lines => executes_return lines owned⟩
  obtain ⟨accounted, seen⟩ := run_accounted ⟨⟨[], owned, rfl⟩, List.forall_mem_nil _⟩ ran
  exact ⟨seen, accounted.returned, accounted.owned⟩

/-- One word that finds no memory is enough for the parser to lose two blocks. -/
theorem parser_loses_list :
    ∃ final, exec (step fun call => call ≠ 2) ⟨start, [], []⟩ [.parse [0x61], .execute [0x62]] = some final ∧
      ∃ lost, final.ledger.Owns (final.payloads ++ lost ++ []) ∧ lost.length = 2 := by
  have uses : (exec (step fun call => call ≠ 2) ⟨start, [], []⟩ [.parse [0x61], .execute [0x62]]).map
      (fun final => final.uses.countP (Lost fun call => call ≠ 2)) = some 1 := by decide
  obtain ⟨final, ran, seen⟩ := Option.map_eq_some_iff.mp uses
  obtain ⟨_, _, lost, owned, size⟩ := (token_blocks_accounted _ owns_start).1 _ final ran
  refine ⟨final, ran, lost, owned, size.trans ?_⟩
  rw [seen]

end ShapeQuake.TokenMemory
