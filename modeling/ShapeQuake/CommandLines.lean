import ShapeQuake.Parser
import ShapeQuake.PipelineProofs

/-! Command lines that are put together from others. The tokens of a line can be read
off in one pass, and from that reading follows what a blank or a bar between two lines
comes to: a line is cut into the same commands before it is tokenized and behind it. -/
namespace ShapeQuake.CommandLines
open Tokenizer TokenizerProofs
open ShapeQuake.Parser (TokenizesTo lexes_iff_tokenizesTo lexes_tokens)
open Pipeline (Token bar)
open PipelineProofs (segments)

/-- The tokens that `shell_tokenize` returns, with memory to spare: none for a null. -/
def tokensOf (line : List UInt8) : List Token :=
  match shellTokenize always (some line) with
  | some (some list) => (list.tokens.take list.count).reduceOption
  | _ => []

/-! ## One pass -/

/-- The word that ends here, where one has begun. -/
def ended (run : List UInt8) : List Token := if run = [] then [] else [run]

/-- The tokens of a line, behind a word that has begun. -/
def wordsFrom (run : List UInt8) : List UInt8 → List Token
  | [] => ended run
  | byte :: rest =>
    if byte = pipe then ended run ++ bar :: wordsFrom [] rest
    else if isSpace byte then ended run ++ wordsFrom [] rest
    else wordsFrom (run ++ [byte]) rest

/-- The tokens of a line. -/
def words (line : List UInt8) : List Token := wordsFrom [] line

private theorem lexes_ended (inside : ∀ byte ∈ run, wordByte byte = true)
    (apart : ∀ byte ∈ rest.head?, wordByte byte = false) (after : Lexes rest tokens) :
    Lexes (run ++ rest) (ended run ++ tokens) := by
  unfold ended
  split
  · rename_i none_
    rwa [none_]
  · rename_i begun
    exact .word begun inside apart after

theorem lexes_wordsFrom (inside : ∀ byte ∈ run, wordByte byte = true) (line : List UInt8) :
    Lexes (run ++ line) (wordsFrom run line) := by
  induction line generalizing run with
  | nil =>
    have last := lexes_ended inside (by simp) .done
    rwa [List.append_nil (ended run)] at last
  | cons byte rest ih =>
    have fresh := ih (List.forall_mem_nil _)
    rw [List.nil_append] at fresh
    simp only [wordsFrom]
    split
    · rename_i barred
      rw [barred]
      refine lexes_ended inside ?_ (.bar fresh)
      simp [wordByte]
    · rename_i plain
      split
      · rename_i space
        refine lexes_ended inside ?_ (.blank space fresh)
        simp [wordByte, space]
      · rename_i solid
        rw [List.append_cons]
        apply ih
        intro other member
        rcases List.mem_append.mp member with before | own
        · exact inside other before
        · rw [List.mem_singleton.mp own]
          simp [wordByte, solid, plain]

theorem lexes_words (line : List UInt8) : Lexes line (words line) :=
  lexes_wordsFrom (List.forall_mem_nil _) line

theorem lexes_iff_words : Lexes line tokens ↔ tokens = words line := by
  constructor
  · intro tokens
    exact lexes_unique tokens (lexes_words line)
  · rintro rfl
    exact lexes_words line

/-- What `shell_tokenize` returns is what one pass reads. -/
theorem tokensOf_eq (line : List UInt8) : tokensOf line = words line := by
  have returned := lexes_iff_tokenizesTo.mp (lexes_words line)
  rw [TokenizesTo] at returned
  rw [tokensOf]
  split at returned
  · rename_i none_
    rw [returned, none_]
  · obtain ⟨list, ran, _, slots⟩ := returned
    simp only [ran, slots]
    simp [List.reduceOption, List.filterMap_map]

/-! ## Lines behind each other -/

/-- A byte that belongs to no word ends the word before it. -/
theorem wordsFrom_append (apart : wordByte byte = false) (run front rest : List UInt8) :
    wordsFrom run (front ++ byte :: rest) = wordsFrom run front ++ words (byte :: rest) := by
  induction front generalizing run with
  | nil =>
    simp only [List.nil_append, wordsFrom, words]
    split
    · rfl
    · split
      · rfl
      · simp_all [wordByte]
  | cons first front ih =>
    simp only [List.cons_append, wordsFrom]
    split
    · rw [ih, List.append_assoc, List.cons_append]
    · split
      · rw [ih, List.append_assoc]
      · exact ih _

theorem words_blank (blank : isSpace byte = true) (front rest : List UInt8) :
    words (front ++ byte :: rest) = words front ++ words rest := by
  have solid : byte ≠ pipe := by
    rintro rfl
    cases blank
  rw [words, wordsFrom_append (by simp [wordByte, blank])]
  simp [words, wordsFrom, solid, blank, ended]

theorem words_bar (front rest : List UInt8) :
    words (front ++ pipe :: rest) = words front ++ bar :: words rest := by
  rw [words, wordsFrom_append (by simp [wordByte])]
  simp [words, wordsFrom, ended]

theorem bar_not_mem (solid : pipe ∉ line) : bar ∉ words line := by
  intro member
  obtain ⟨_, inside⟩ := lexes_tokens (lexes_words line) bar member
  exact solid (inside pipe (by simp [bar, pipe]))

/-- Cut at its bars before it is tokenized, a line has the same commands. -/
theorem segments_words (line : List UInt8) : segments (words line) = (line.splitOn pipe).map words := by
  induction measured : line.length using Nat.strongRecOn generalizing line with
  | ind size shorter =>
    by_cases barred : pipe ∈ line
    · obtain ⟨front, rest, rfl, solid⟩ := List.eq_append_cons_of_mem barred
      have next : rest.length < size := by
        rw [← measured, List.length_append, List.length_cons]
        omega
      rw [words_bar, segments, List.splitOn_append_cons_self_of_not_mem (bar_not_mem solid),
        List.splitOn_append_cons_self_of_not_mem solid, List.map_cons, ← segments, shorter _ next rest rfl]
    · rw [segments, List.splitOn_eq_singleton (bar_not_mem barred), List.splitOn_eq_singleton barred]
      rfl

/-- Whatever two lines are put together, and wherever a line is cut: with a blank between
them their tokens follow each other, with a bar there is a bar between these, and the
commands of a line, which `extract_pipe` cuts out of its tokens, are what `shell_tokenize`
returns for what is between its bars. -/
theorem tokens_compose :
    (∀ front blank rest, isSpace blank = true →
      tokensOf (front ++ blank :: rest) = tokensOf front ++ tokensOf rest) ∧
    (∀ front rest, tokensOf (front ++ pipe :: rest) = tokensOf front ++ bar :: tokensOf rest) ∧
    ∀ line, segments (tokensOf line) = (line.splitOn pipe).map tokensOf := by
  refine ⟨fun front blank rest space => ?_, fun front rest => ?_, fun line => ?_⟩
  · simp only [tokensOf_eq, words_blank space]
  · simp only [tokensOf_eq, words_bar]
  · rw [tokensOf_eq, segments_words]
    exact List.map_congr_left fun piece _ => (tokensOf_eq piece).symm

end ShapeQuake.CommandLines
