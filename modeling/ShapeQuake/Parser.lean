import ShapeQuake.ShellCore
import ShapeQuake.TokenizerProofs

/-! `parser_create_payload` takes a command line apart, drops a leading
`subnode` or `subnode-Iv`, and joins the rest with spaces. What it joins is
taken apart into the same tokens again, whatever bars and blanks the line had. -/
namespace ShapeQuake.Parser
open ShellCore Tokenizer TokenizerProofs

/-! ## The program -/

/-- `sq_payload_exec_t`. -/
structure SqPayloadExec where
  flags : BitVec 32
  shapeHint : List UInt8
  cmdLen : Nat
  commandLine : List UInt8
  deriving DecidableEq, Repr

/-- `sizeof cmd_buf`. -/
def cmdBufSize : Nat := 1024

/-- `"subnode"`. -/
def subnodeName : List UInt8 := [0x73, 0x75, 0x62, 0x6e, 0x6f, 0x64, 0x65]

/-- `"subnode-Iv"`. -/
def subnodeIvName : List UInt8 := subnodeName ++ [0x2d, 0x49, 0x76]

/-- `"default"`. -/
def defaultShape : List UInt8 := [0x64, 0x65, 0x66, 0x61, 0x75, 0x6c, 0x74]

/-- `"hexagon"`. -/
def hexagonShape : List UInt8 := [0x68, 0x65, 0x78, 0x61, 0x67, 0x6f, 0x6e]

/-- The byte `' '`. -/
def space : UInt8 := 0x20

/-- The C string at the start of the bytes. -/
def text (bytes : List UInt8) : List UInt8 := bytes.takeWhile (· ≠ 0)

/-- What `strncpy` of a C string leaves in `size` bytes. -/
def strncpy (src : List UInt8) (size : Nat) : List UInt8 :=
  src.take size ++ List.replicate (size - src.length) 0

/-- `strcat` to the C string in `cmd_buf`, where it fits with its null. -/
def strcat (cmdBuf src : List UInt8) : Option (List UInt8) :=
  if cmdBuf.length + src.length < cmdBufSize then some (cmdBuf ++ src) else none

/-- The flags, the shape and the first token of the command, by the first token. -/
def detectPrefix (first : List UInt8) : BitVec 32 × List UInt8 × Nat :=
  if first = subnodeIvName then (0x01, hexagonShape, 1)
  else if first = subnodeName then (0, defaultShape, 1)
  else (0, defaultShape, 0)

/-- The loop that joins the tokens from `cmd_start` on. -/
def joinTokens (cmdBuf : List UInt8) : List (Option (List UInt8)) → Option (List UInt8)
  | [] => some cmdBuf
  | token :: rest => do
    let cmdBuf ← strcat cmdBuf (← token)
    let cmdBuf ← if rest ≠ [] then strcat cmdBuf [space] else some cmdBuf
    joinTokens cmdBuf rest

/-- `parser_create_payload`: the payload and what `*out_flags` holds then. The
outcomes of the tokenizer's allocations and of the payload's own are arguments.
It has no result when a token is null or the command does not fit in `cmd_buf`. -/
def parserCreatePayload (alloc : Nat → Bool) (room : Bool) (line : List UInt8)
    (outFlags : BitVec 32) : Option (Option SqPayloadExec × BitVec 32) := do
  match ← shellTokenize alloc (some (text line)) with
  | none => return (none, outFlags)
  | some tokens =>
    if tokens.count = 0 then return (none, outFlags)
    else
      let (flags, shape, cmdStart) := detectPrefix (← tokenAt tokens 0)
      let cmdBuf ← joinTokens [] ((tokens.tokens.take tokens.count).drop cmdStart)
      let cmdLen := cmdBuf.length + 1
      if room = false then return (none, outFlags)
      else
        return (some
          { flags
            shapeHint := strncpy shape 32
            cmdLen
            commandLine := cmdBuf ++ [0] }, flags)

/-! ## What the payload should hold -/

/-- `shell_tokenize`, with memory to spare, returns these tokens: null when
there are none. -/
def TokenizesTo (line : List UInt8) (words : List (List UInt8)) : Prop :=
  if words = [] then shellTokenize always (some line) = some none
  else ∃ list, shellTokenize always (some line) = some (some list) ∧
    list.count = words.length ∧ list.tokens.take list.count = words.map some

/-- The tokens after a leading `subnode` or `subnode-Iv`. -/
def withoutPrefix : List (List UInt8) → List (List UInt8)
  | [] => []
  | first :: rest => if first = subnodeName ∨ first = subnodeIvName then rest else first :: rest

/-- The tokens with a space between any two. -/
def rebuilt (words : List (List UInt8)) : List UInt8 := List.intercalate [space] words

/-! ## Joined tokens -/

/-- A bar, or a nonempty run of bytes that are neither blank nor bar. -/
def IsToken (word : List UInt8) : Prop :=
  word = [pipe] ∨ word ≠ [] ∧ ∀ byte ∈ word, wordByte byte = true

/-- The tokens of a line are tokens, of bytes of the line. -/
theorem lexes_tokens (tokens : Lexes line words) :
    ∀ word ∈ words, IsToken word ∧ ∀ byte ∈ word, byte ∈ line := by
  induction tokens with
  | done => simp
  | blank _ _ ih =>
    intro word member
    exact (ih word member).imp_right fun inside byte held => List.mem_cons_of_mem _ (inside byte held)
  | bar _ ih =>
    intro word member
    rcases List.mem_cons.mp member with rfl | later
    · exact ⟨Or.inl rfl, by simp⟩
    · exact (ih word later).imp_right fun inside byte held => List.mem_cons_of_mem _ (inside byte held)
  | word nonempty inside _ _ ih =>
    intro word member
    rcases List.mem_cons.mp member with rfl | later
    · exact ⟨Or.inr ⟨nonempty, inside⟩, fun byte held => List.mem_append_left _ held⟩
    · exact (ih word later).imp_right fun inside byte held => List.mem_append_right _ (inside byte held)

/-- A token in front of an empty line or a blank stays a token of its own. -/
private theorem lexes_token (token : IsToken word) (after : Lexes rest words)
    (apart : ∀ byte ∈ rest.head?, wordByte byte = false) : Lexes (word ++ rest) (word :: words) := by
  rcases token with rfl | ⟨nonempty, inside⟩
  · exact .bar after
  · exact .word nonempty inside apart after

/-- Joined with spaces, tokens are the tokens of the line. -/
theorem lexes_rebuilt (tokens : ∀ word ∈ words, IsToken word) : Lexes (rebuilt words) words := by
  induction words with
  | nil => exact .done
  | cons word rest ih =>
    have others := ih fun other member => tokens other (List.mem_cons_of_mem _ member)
    have token := tokens word (by simp)
    cases rest with
    | nil =>
      have alone := lexes_token token .done (by simp)
      simpa [rebuilt] using alone
    | cons next rest =>
      rw [rebuilt, List.intercalate_cons_cons, List.append_assoc]
      refine lexes_token token (.blank rfl others) ?_
      intro byte first
      cases first
      rfl

theorem lexes_iff_tokenizesTo : Lexes line words ↔ TokenizesTo line words := by
  unfold TokenizesTo
  rcases shellTokenize_lexes line with ⟨null, blank⟩ | ⟨list, found, ran, holds, lexed, solid⟩
  · have nothing : Lexes line [] := lexes_append_blanks .done blank
    rw [null]
    constructor
    · intro tokens
      rw [if_pos (lexes_unique tokens nothing)]
    · intro returned
      split at returned
      · rename_i empty
        exact empty ▸ nothing
      · obtain ⟨_, other, _⟩ := returned
        cases other
  · rw [ran]
    have slots : list.tokens.take list.count = found.map some := by
      rw [holds.slots, holds.count, List.take_left' (List.length_map _)]
    have nonempty : found ≠ [] := fun empty => solid (blank_of_lexes_nothing lexed empty)
    constructor
    · intro tokens
      obtain rfl := lexes_unique tokens lexed
      rw [if_neg nonempty]
      exact ⟨list, rfl, holds.count, slots⟩
    · intro returned
      split at returned
      · cases returned
      · obtain ⟨other, same, _, words_⟩ := returned
        cases same
        rw [slots] at words_
        exact List.map_injective_iff.mpr (Option.some_injective _) words_ ▸ lexed

/-! ## The payload -/

private theorem strcat_of_fits (fits : (cmdBuf ++ src).length < cmdBufSize) :
    strcat cmdBuf src = some (cmdBuf ++ src) := by
  rw [List.length_append] at fits
  rw [strcat, if_pos fits]

theorem joinTokens_cons_cons (cmdBuf word : List UInt8) (next : Option (List UInt8))
    (rest : List (Option (List UInt8))) :
    joinTokens cmdBuf (some word :: next :: rest) = (strcat cmdBuf word).bind fun cmdBuf =>
      (strcat cmdBuf [space]).bind fun cmdBuf => joinTokens cmdBuf (next :: rest) := rfl

theorem joinTokens_rebuilt (fits : (cmdBuf ++ rebuilt words).length < cmdBufSize) :
    joinTokens cmdBuf (words.map some) = some (cmdBuf ++ rebuilt words) := by
  induction words generalizing cmdBuf with
  | nil => simp [joinTokens, rebuilt]
  | cons word rest ih =>
    cases rest with
    | nil =>
      have alone : rebuilt [word] = word := List.intercalate_singleton
      rw [alone] at fits ⊢
      simp [joinTokens, strcat_of_fits fits]
    | cons next rest =>
      have split : rebuilt (word :: next :: rest) = word ++ [space] ++ rebuilt (next :: rest) := by
        rw [rebuilt, List.intercalate_cons_cons, rebuilt]
      rw [split, ← List.append_assoc, ← List.append_assoc] at fits ⊢
      have room := fits
      simp only [List.length_append, List.length_singleton] at room
      have first := strcat_of_fits (show (cmdBuf ++ word).length < cmdBufSize by
        rw [List.length_append]; omega)
      have second := strcat_of_fits (show (cmdBuf ++ word ++ [space]).length < cmdBufSize by
        rw [List.length_append, List.length_append, List.length_singleton]; omega)
      rw [← ih fits, List.map_cons, List.map_cons, joinTokens_cons_cons, first, Option.bind_some,
        second, Option.bind_some]

theorem detectPrefix_start (first : List UInt8) (rest : List (List UInt8)) :
    (first :: rest).drop (detectPrefix first).2.2 = withoutPrefix (first :: rest) := by
  unfold detectPrefix withoutPrefix
  by_cases interactive : first = subnodeIvName
  · simp [interactive]
  · by_cases plain : first = subnodeName
    · simp [plain, subnodeIvName]
    · simp [plain, interactive]

/-- The text of a C string has no null byte. -/
theorem text_of_solid (solid : 0 ∉ bytes) : text (bytes ++ [0]) = bytes := by
  have inside : ∀ byte ∈ bytes, decide (byte ≠ 0) = true := by
    intro byte member
    apply decide_eq_true
    intro zero
    exact solid (zero ▸ member)
  rw [text, List.takeWhile_append_of_pos inside]
  simp

private theorem text_solid (bytes : List UInt8) : 0 ∉ text bytes := by
  intro null
  have kept := List.mem_takeWhile_imp null
  simp at kept

private theorem rebuilt_solid (solid : ∀ word ∈ words, 0 ∉ word) : 0 ∉ rebuilt words := by
  induction words with
  | nil => simp [rebuilt]
  | cons word rest ih =>
    have others := ih fun other member => solid other (List.mem_cons_of_mem _ member)
    have own := solid word (by simp)
    cases rest with
    | nil => simpa [rebuilt] using own
    | cons next rest =>
      rw [rebuilt, List.intercalate_cons_cons]
      simp only [List.mem_append, not_or]
      exact ⟨⟨own, by decide⟩, others⟩

/-- Whatever line with a token is given to `parser_create_payload`, if the command
fits in `cmd_buf` and memory suffices, the payload's command line has the tokens
of the line without the prefix, and `cmd_len` counts it with its null. -/
theorem payload_retokenizes (outFlags : BitVec 32) (tokens : TokenizesTo (text line) words)
    (some_ : words ≠ []) (fits : (rebuilt (withoutPrefix words)).length < cmdBufSize) :
    ∃ payload flags, parserCreatePayload always true line outFlags = some (some payload, flags) ∧
      TokenizesTo (text payload.commandLine) (withoutPrefix words) ∧
      payload.commandLine = text payload.commandLine ++ [0] ∧
      payload.cmdLen = (text payload.commandLine).length + 1 := by
  have spelled := lexes_tokens (lexes_iff_tokenizesTo.mpr tokens)
  have kept : ∀ word ∈ withoutPrefix words, word ∈ words := by
    cases words with
    | nil => exact absurd rfl some_
    | cons first rest =>
      intro word member
      simp only [withoutPrefix] at member
      split at member
      · exact List.mem_cons_of_mem _ member
      · exact member
  have solid : 0 ∉ rebuilt (withoutPrefix words) :=
    rebuilt_solid fun word member null => text_solid line ((spelled word (kept word member)).2 0 null)
  unfold TokenizesTo at tokens
  rw [if_neg some_] at tokens
  obtain ⟨list, ran, count, slots⟩ := tokens
  obtain ⟨first, rest, rfl⟩ := List.exists_cons_of_ne_nil some_
  have head : tokenAt list 0 = some first := by
    have here := congrArg (·[0]?) slots
    simp only [List.map_cons, List.getElem?_cons_zero, List.getElem?_take] at here
    rw [count, List.length_cons, if_pos (Nat.succ_pos _)] at here
    rw [tokenAt, here]
    rfl
  have joined : joinTokens [] ((list.tokens.take list.count).drop (detectPrefix first).2.2) =
      some (rebuilt (withoutPrefix (first :: rest))) := by
    rw [slots, ← List.map_drop, detectPrefix_start]
    exact joinTokens_rebuilt fits
  have nonzero : list.count ≠ 0 := by
    rw [count]
    exact Nat.succ_ne_zero _
  refine ⟨⟨(detectPrefix first).1, strncpy (detectPrefix first).2.1 32,
    (rebuilt (withoutPrefix (first :: rest))).length + 1,
    rebuilt (withoutPrefix (first :: rest)) ++ [0]⟩, (detectPrefix first).1, ?_, ?_, ?_, ?_⟩
  · simp [parserCreatePayload, ran, nonzero, head, joined]
  · rw [text_of_solid solid]
    exact lexes_iff_tokenizesTo.mp (lexes_rebuilt fun word member => (spelled word (kept word member)).1)
  · rw [text_of_solid solid]
  · rw [text_of_solid solid]

/-- A line with a prefix, a bar glued to a word and blanks all around. -/
theorem glued_bar_retokenizes :
    ∃ payload flags, parserCreatePayload always true
        [0x20, 0x73, 0x75, 0x62, 0x6e, 0x6f, 0x64, 0x65, 0x09, 0x61, 0x7c, 0x62, 0x20] 7 =
          some (some payload, flags) ∧
      TokenizesTo (text payload.commandLine) [[0x61], [0x7c], [0x62]] ∧
      payload.commandLine = text payload.commandLine ++ [0] ∧
      payload.cmdLen = (text payload.commandLine).length + 1 :=
  have tokens : TokenizesTo (text [0x20, 0x73, 0x75, 0x62, 0x6e, 0x6f, 0x64, 0x65, 0x09, 0x61, 0x7c,
      0x62, 0x20]) [subnodeName, [0x61], [0x7c], [0x62]] := ⟨⟨_, _, _⟩, rfl, rfl, rfl⟩
  payload_retokenizes 7 tokens nofun (by decide)

end ShapeQuake.Parser
