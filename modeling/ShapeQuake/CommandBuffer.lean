import Mathlib.Algebra.Order.BigOperators.Group.List
import Mathlib.Algebra.Order.Group.Nat
import ShapeQuake.Parser

/-! How much of `cmd_buf` the joined command takes. Blanks vanish in the join and
every token gets a byte behind it, a space or the null, so the room needed can be
read off the line: its bytes that are no blanks, and one for each token. A bar is
a token of its own, and so a line of bars nearly doubles. -/
namespace ShapeQuake.CommandBuffer
open ShellCore Tokenizer TokenizerProofs ShapeQuake.Parser

/-- Whatever memory there is, no `strcat` of the loop writes past `cmd_buf`. -/
def StaysInside (line : List UInt8) : Prop :=
  ∀ alloc room outFlags, parserCreatePayload alloc room line outFlags ≠ none

/-- The tokens that start in a line, behind a word byte or not. -/
def tokenStarts : Bool → List UInt8 → Nat
  | _, [] => 0
  | inWord, byte :: rest =>
    if wordByte byte then (if inWord then 0 else 1) + tokenStarts true rest
    else (if isSpace byte then 0 else 1) + tokenStarts false rest

/-- A line behind its leading blanks and a first word `subnode` or `subnode-Iv`. -/
def commandPart (line : List UInt8) : List UInt8 :=
  let trimmed := line.dropWhile isSpace
  if trimmed.takeWhile wordByte = subnodeName ∨ trimmed.takeWhile wordByte = subnodeIvName then
    trimmed.dropWhile wordByte
  else trimmed

/-- Bytes that are no blanks, and one byte for each token. -/
def roomNeeded (line : List UInt8) : Nat :=
  line.countP (fun byte => !isSpace byte) + tokenStarts false line

/-- The bytes of tokens, and one byte for each. -/
def weight (words : List (List UInt8)) : Nat := (words.map fun word => word.length + 1).sum

/-! ## Lines and tokens -/

private theorem solid_of_word (inside : wordByte byte = true) : isSpace byte = false := by
  simp only [wordByte, Bool.and_eq_true, Bool.not_eq_true'] at inside
  exact inside.1

/-- Behind a word, what starts in the rest of the line is the same as at its start. -/
private theorem tokenStarts_behind {rest : List UInt8}
    (maximal : ∀ byte ∈ rest.head?, wordByte byte = false) :
    tokenStarts true rest = tokenStarts false rest := by
  cases rest with
  | nil => rfl
  | cons byte rest => simp [tokenStarts, maximal byte (by simp)]

private theorem tokenStarts_inside {run : List UInt8} (inside : ∀ byte ∈ run, wordByte byte = true)
    (rest : List UInt8) : tokenStarts true (run ++ rest) = tokenStarts true rest := by
  induction run with
  | nil => rfl
  | cons byte run ih =>
    obtain ⟨first, others⟩ := List.forall_mem_cons.mp inside
    simp [tokenStarts, first, ih others]

private theorem roomNeeded_word {run rest : List UInt8} (nonempty : run ≠ [])
    (inside : ∀ byte ∈ run, wordByte byte = true)
    (maximal : ∀ byte ∈ rest.head?, wordByte byte = false) :
    roomNeeded (run ++ rest) = run.length + 1 + roomNeeded rest := by
  have solid : run.countP (fun byte => !isSpace byte) = run.length := by
    rw [List.countP_eq_length]
    intro byte member
    simp [solid_of_word (inside byte member)]
  have starts : tokenStarts false (run ++ rest) = 1 + tokenStarts false rest := by
    obtain ⟨byte, others, rfl⟩ := List.exists_cons_of_ne_nil nonempty
    obtain ⟨first, later⟩ := List.forall_mem_cons.mp inside
    simp [tokenStarts, first, tokenStarts_inside later, tokenStarts_behind maximal]
  rw [roomNeeded, roomNeeded, List.countP_append, solid, starts]
  omega

/-- The room a line needs is the weight of its tokens. -/
theorem roomNeeded_eq_weight (tokens : Lexes line words) : roomNeeded line = weight words := by
  induction tokens with
  | done => rfl
  | @blank byte rest words space after ih =>
    have notWord : wordByte byte = false := by simp [wordByte, space]
    rw [← ih]
    simp [roomNeeded, tokenStarts, space, notWord]
  | bar after ih =>
    have solid : isSpace pipe = false := rfl
    have notWord : wordByte pipe = false := rfl
    simp only [roomNeeded, weight, tokenStarts, solid, notWord, List.countP_cons, List.map_cons,
      List.sum_cons] at ih ⊢
    simp only [Bool.not_false, if_true, Bool.false_eq_true, if_false, List.length_singleton]
    omega
  | word nonempty inside maximal after ih =>
    rw [roomNeeded_word nonempty inside maximal, ih]
    simp [weight]

private theorem lexes_dropWhile (tokens : Lexes line words) : Lexes (line.dropWhile isSpace) words := by
  induction line generalizing words with
  | nil => exact tokens
  | cons byte rest ih =>
    by_cases space : isSpace byte = true
    · rw [List.dropWhile_cons_of_pos space]
      rcases lexes_cons tokens with ⟨_, after⟩ | ⟨rfl, _⟩ | ⟨inside, _⟩
      · exact ih after
      · cases space
      · rw [solid_of_word inside] at space
        cases space
    · rwa [List.dropWhile_cons_of_neg space]

/-- What is left of the line has the tokens without the prefix. -/
theorem lexes_commandPart (tokens : Lexes line words) :
    Lexes (commandPart line) (withoutPrefix words) := by
  have trimmed := lexes_dropWhile tokens
  have start : ∀ byte ∈ (line.dropWhile isSpace).head?, isSpace byte = false := by
    intro byte first
    have stopped := List.head?_dropWhile_not isSpace line
    rw [Option.mem_def.mp first] at stopped
    simpa using stopped
  unfold commandPart
  generalize line.dropWhile isSpace = rest at *
  cases rest with
  | nil =>
    have nothing := lexes_unique trimmed .done
    subst nothing
    exact .done
  | cons byte rest =>
    rcases lexes_cons trimmed with ⟨space, _⟩ | ⟨rfl, later, rfl, after⟩ | ⟨inside, later, rfl, after⟩
    · rw [start byte rfl] at space
      cases space
    · have noWord : (pipe :: rest).takeWhile wordByte = [] := rfl
      have other : ¬ ([] = subnodeName ∨ [] = subnodeIvName) := by decide
      have bar : ¬ ([pipe] = subnodeName ∨ [pipe] = subnodeIvName) := by decide
      simp only [noWord, if_neg other, withoutPrefix, if_neg bar]
      exact trimmed
    · simp only [withoutPrefix]
      split
      · exact after
      · exact trimmed

/-! ## The join -/

private theorem rebuilt_length (some_ : words ≠ []) : (rebuilt words).length + 1 = weight words := by
  induction words with
  | nil => exact absurd rfl some_
  | cons word rest ih =>
    cases rest with
    | nil => simp [rebuilt, weight]
    | cons next rest =>
      have others := ih (List.cons_ne_nil _ _)
      rw [rebuilt, List.intercalate_cons_cons, ← rebuilt]
      simp only [weight, List.map_cons, List.sum_cons, List.length_append, List.length_singleton]
        at others ⊢
      omega

private theorem strcat_length (ran : strcat cmdBuf src = some after) :
    after = cmdBuf ++ src ∧ after.length < cmdBufSize := by
  unfold strcat at ran
  split at ran
  · rename_i fits
    cases ran
    exact ⟨rfl, by rwa [List.length_append]⟩
  · cases ran

/-- A join that ends has put the tokens where they fit with the null. -/
private theorem joinTokens_fits (some_ : words ≠ [])
    (ran : joinTokens cmdBuf (words.map some) = some after) :
    (cmdBuf ++ rebuilt words).length < cmdBufSize := by
  induction words generalizing cmdBuf with
  | nil => exact absurd rfl some_
  | cons word rest ih =>
    cases rest with
    | nil =>
      have last : strcat cmdBuf word = some after := by simpa [joinTokens] using ran
      obtain ⟨rfl, fits⟩ := strcat_length last
      simpa [rebuilt] using fits
    | cons next rest =>
      rw [List.map_cons, List.map_cons, joinTokens_cons_cons] at ran
      obtain ⟨_, first, spaced⟩ := Option.bind_eq_some_iff.mp ran
      obtain ⟨_, second, joined⟩ := Option.bind_eq_some_iff.mp spaced
      obtain ⟨rfl, _⟩ := strcat_length first
      obtain ⟨rfl, _⟩ := strcat_length second
      have fits := ih (List.cons_ne_nil _ _) joined
      rwa [rebuilt, List.intercalate_cons_cons, ← rebuilt, ← List.append_assoc, ← List.append_assoc]

/-- Tokens fit in `cmd_buf` exactly if their weight is no more than its size. -/
private theorem joinTokens_iff :
    joinTokens [] (words.map some) ≠ none ↔ weight words ≤ cmdBufSize := by
  by_cases empty : words = []
  · subst empty
    exact iff_of_true nofun (Nat.zero_le _)
  · have length := rebuilt_length empty
    constructor
    · intro ends
      obtain ⟨after, ran⟩ := Option.ne_none_iff_exists'.mp ends
      have fits := joinTokens_fits empty ran
      rw [List.nil_append] at fits
      omega
    · intro fits
      rw [joinTokens_rebuilt (by rw [List.nil_append]; omega)]
      exact Option.some_ne_none _

/-- Fewer tokens in the same order leave fewer tokens behind the prefix. -/
private theorem withoutPrefix_sublist (part : List.Sublist words all) :
    List.Sublist (withoutPrefix words) (withoutPrefix all) := by
  have shorter (tokens : List (List UInt8)) : List.Sublist (withoutPrefix tokens) tokens := by
    cases tokens with
    | nil => exact List.Sublist.refl _
    | cons first rest =>
      rw [withoutPrefix]
      split
      · exact List.sublist_cons_self _ _
      · exact List.Sublist.refl _
  cases part with
  | slnil => exact List.Sublist.refl _
  | @cons _ rest first part =>
    have inRest := (shorter words).trans part
    rw [withoutPrefix]
    split
    · exact inRest
    · exact inRest.cons first
  | @cons_cons some_ rest first part =>
    rw [withoutPrefix, withoutPrefix]
    split
    · exact part
    · exact part.cons_cons first

private theorem weight_mono (part : List.Sublist words all) : weight words ≤ weight all :=
  (part.map _).sum_le_sum fun _ _ => Nat.zero_le _

/-! ## The payload -/

/-- On a list of tokens the function ends exactly if the join does. -/
private theorem payload_iff_join (room : Bool) (outFlags : BitVec 32)
    (ran : shellTokenize alloc (some (text line)) = some (some list)) (held : Holds list words)
    (some_ : words ≠ []) :
    parserCreatePayload alloc room line outFlags ≠ none ↔
      joinTokens [] ((withoutPrefix words).map some) ≠ none := by
  have slots : list.tokens.take list.count = words.map some := by
    rw [held.slots, held.count, List.take_left' (List.length_map _)]
  obtain ⟨first, rest, rfl⟩ := List.exists_cons_of_ne_nil some_
  have nonzero : list.count ≠ 0 := by
    rw [held.count]
    exact Nat.succ_ne_zero _
  have head : tokenAt list 0 = some first := by
    rw [tokenAt, held.slots]
    rfl
  have joined : (list.tokens.take list.count).drop (detectPrefix first).2.2 =
      (withoutPrefix (first :: rest)).map some := by
    rw [slots, ← List.map_drop, detectPrefix_start]
  cases ends : joinTokens [] ((withoutPrefix (first :: rest)).map some) with
  | none => simp [parserCreatePayload, ran, nonzero, head, joined, ends]
  | some cmdBuf =>
    cases room <;> simp [parserCreatePayload, ran, nonzero, head, joined, ends]

private theorem room_of_stays (stays : StaysInside line) :
    roomNeeded (commandPart (text line)) ≤ cmdBufSize := by
  rcases shellTokenize_lexes (text line) with ⟨null, blank⟩ | ⟨list, words, ran, holds, lexed, solid⟩
  · have nothing : Lexes (text line) [] := lexes_append_blanks .done blank
    rw [roomNeeded_eq_weight (lexes_commandPart nothing)]
    exact Nat.zero_le _
  · have some_ : words ≠ [] := fun empty => solid (blank_of_lexes_nothing lexed empty)
    rw [roomNeeded_eq_weight (lexes_commandPart lexed), ← joinTokens_iff]
    exact (payload_iff_join true 0 ran holds some_).mp (stays always true 0)

/-- Every `strcat` stays inside `cmd_buf`, whatever memory there is, exactly if
the bytes of the command that are no blanks and one byte for each of its tokens
are no more than its 1024. -/
theorem command_fits_iff (line : List UInt8) :
    StaysInside line ↔ roomNeeded (commandPart (text line)) ≤ cmdBufSize := by
  refine ⟨room_of_stays, fun fits alloc room outFlags => ?_⟩
  obtain ⟨result, ran, tokens⟩ := shellTokenize_returns alloc (text line)
  cases result with
  | none => simp [parserCreatePayload, ran]
  | some list =>
    obtain ⟨words, all, holds, part, lexed⟩ := tokens list rfl
    by_cases empty : words = []
    · have zero : list.count = 0 := by
        rw [holds.count, empty]
        rfl
      simp [parserCreatePayload, ran, zero]
    · rw [payload_iff_join room outFlags ran holds empty, joinTokens_iff]
      rw [roomNeeded_eq_weight (lexes_commandPart lexed)] at fits
      exact Nat.le_trans (weight_mono (withoutPrefix_sublist part)) fits

private theorem lexes_bars (count : Nat) :
    Lexes (List.replicate count pipe) (List.replicate count [pipe]) := by
  induction count with
  | zero => exact .done
  | succ count ih => exact .bar ih

private theorem weight_bars (count : Nat) :
    weight (withoutPrefix (List.replicate (count + 1) [pipe])) = 2 * (count + 1) := by
  have noPrefix : ¬ ([pipe] = subnodeName ∨ [pipe] = subnodeIvName) := by decide
  rw [List.replicate_succ, withoutPrefix, if_neg noPrefix, ← List.replicate_succ, weight,
    List.map_replicate, List.sum_replicate_nat, List.length_singleton]
  omega

/-- A line of 513 bars is rebuilt with a space between any two, and overflows. -/
theorem bars_overflow :
    ¬ ∀ line : List UInt8, 0 ∉ line → line.length ≤ 1023 → StaysInside line := by
  intro always_
  have solid : ∀ byte ∈ List.replicate 513 pipe, byte ≠ 0 := by
    intro byte member
    rw [List.eq_of_mem_replicate member]
    decide
  have whole : text (List.replicate 513 pipe) = List.replicate 513 pipe := by
    rw [text, List.takeWhile_eq_self_iff]
    exact fun byte member => decide_eq_true (solid byte member)
  have room := room_of_stays (always_ (List.replicate 513 pipe) (fun null => solid 0 null rfl)
    (by rw [List.length_replicate]; decide))
  rw [whole, roomNeeded_eq_weight (lexes_commandPart (lexes_bars 513)), weight_bars 512] at room
  exact absurd room (by decide)

end ShapeQuake.CommandBuffer
