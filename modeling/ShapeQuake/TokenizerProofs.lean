import Mathlib.Algebra.Group.Nat.Defs
import Mathlib.Data.List.TakeWhile
import Mathlib.Order.Monotone.Basic
import ShapeQuake.Tokenizer

/-! The tokenizer against a grammar of command lines that knows nothing of
trimming, pointers or growing arrays: a bar is a token, and so is every maximal
run of bytes that are neither blank nor bar. -/
namespace ShapeQuake.TokenizerProofs
open Tokenizer

/-! ## The grammar -/

/-- A byte that belongs to a word. -/
def wordByte (byte : UInt8) : Bool := !isSpace byte && byte ≠ pipe

/-- The tokens of a command line, in order. A word ends where the line ends or
where the next byte belongs to no word, so runs are maximal. -/
inductive Lexes : List UInt8 → List (List UInt8) → Prop where
  | done : Lexes [] []
  | blank (space : isSpace byte = true) (after : Lexes rest words) : Lexes (byte :: rest) words
  | bar (after : Lexes rest words) : Lexes (pipe :: rest) ([pipe] :: words)
  | word (nonempty : run ≠ []) (inside : ∀ byte ∈ run, wordByte byte = true)
      (maximal : ∀ byte ∈ rest.head?, wordByte byte = false) (after : Lexes rest words) :
      Lexes (run ++ rest) (run :: words)

private theorem takeWhile_run {run rest : List UInt8} (inside : ∀ byte ∈ run, wordByte byte = true)
    (maximal : ∀ byte ∈ rest.head?, wordByte byte = false) :
    (run ++ rest).takeWhile wordByte = run ∧ (run ++ rest).dropWhile wordByte = rest := by
  have stop : rest.takeWhile wordByte = [] ∧ rest.dropWhile wordByte = rest := by
    cases rest with
    | nil => exact ⟨rfl, rfl⟩
    | cons byte tail => simp [maximal byte (by simp)]
  rw [List.takeWhile_append_of_pos inside, List.dropWhile_append_of_pos inside, stop.1, stop.2]
  exact ⟨List.append_nil _, rfl⟩

/-- What the first byte says about the tokens of a line. -/
theorem lexes_cons (tokens : Lexes (byte :: rest) words) :
    (isSpace byte = true ∧ Lexes rest words) ∨
    (byte = pipe ∧ ∃ later, words = [pipe] :: later ∧ Lexes rest later) ∨
    (wordByte byte = true ∧ ∃ later, words = (byte :: rest).takeWhile wordByte :: later ∧
      Lexes ((byte :: rest).dropWhile wordByte) later) := by
  generalize line : byte :: rest = input at tokens
  cases tokens with
  | done => cases line
  | blank space after =>
    cases line
    exact Or.inl ⟨space, after⟩
  | bar after =>
    cases line
    exact Or.inr (Or.inl ⟨rfl, _, rfl, after⟩)
  | @word run tail later nonempty inside maximal after =>
    obtain ⟨taken, dropped⟩ := takeWhile_run inside maximal
    refine Or.inr (Or.inr ⟨?_, later, by rw [taken], by rw [dropped]; exact after⟩)
    cases run with
    | nil => exact absurd rfl nonempty
    | cons first run =>
      cases line
      exact inside byte (by simp)

private theorem space_not_word (space : isSpace byte = true) : wordByte byte = false := by
  simp [wordByte, space]

private theorem lexes_nil (tokens : Lexes input words) (empty : input = []) : words = [] := by
  cases tokens with
  | done => rfl
  | blank => cases empty
  | bar => cases empty
  | word nonempty => exact absurd (List.append_eq_nil_iff.mp empty).1 nonempty

/-- A command line has one reading. -/
theorem lexes_unique (first : Lexes input words) (second : Lexes input others) :
    words = others := by
  induction measured : input.length using Nat.strongRecOn generalizing input words others with
  | ind size shorter =>
    cases input with
    | nil => rw [lexes_nil first rfl, lexes_nil second rfl]
    | cons byte rest =>
      have next : rest.length < size := by
        rw [← measured]
        exact Nat.lt_succ_self _
      have beyond : wordByte byte = true → ((byte :: rest).dropWhile wordByte).length < size := by
        intro inside
        rw [List.dropWhile_cons_of_pos inside]
        exact Nat.lt_of_le_of_lt (List.dropWhile_suffix _).length_le next
      rcases lexes_cons first with ⟨space, left⟩ | ⟨rfl, later, rfl, left⟩ | ⟨inside, later, rfl, left⟩
      · rcases lexes_cons second with ⟨_, right⟩ | ⟨rfl, _, rfl, _⟩ | ⟨inside, _, rfl, _⟩
        · exact shorter _ next left right rfl
        · cases space
        · rw [space_not_word space] at inside
          cases inside
      · rcases lexes_cons second with ⟨space, _⟩ | ⟨_, other, rfl, right⟩ | ⟨inside, _, rfl, _⟩
        · cases space
        · rw [shorter _ next left right rfl]
        · cases inside
      · rcases lexes_cons second with ⟨space, _⟩ | ⟨rfl, _, rfl, _⟩ | ⟨_, other, rfl, right⟩
        · rw [space_not_word space] at inside
          cases inside
        · cases inside
        · rw [shorter _ (beyond inside) left right rfl]

/-! ## Blanks around a line -/

theorem lexes_skipSpaces (tokens : Lexes (skipSpaces input) words) : Lexes input words := by
  induction input with
  | nil => exact tokens
  | cons byte rest ih =>
    simp only [skipSpaces] at tokens
    split at tokens
    · rename_i space
      exact .blank space (ih tokens)
    · exact tokens

theorem lexes_append_blanks (tokens : Lexes input words)
    (blanks : ∀ byte ∈ tail, isSpace byte = true) : Lexes (input ++ tail) words := by
  induction tokens with
  | done =>
    induction tail with
    | nil => exact .done
    | cons byte tail ih =>
      exact .blank (blanks byte (by simp)) (ih fun byte member => blanks byte (by simp [member]))
  | blank space after ih => exact .blank space ih
  | bar after ih => exact .bar ih
  | @word run rest words nonempty inside maximal after ih =>
    rw [List.append_assoc]
    refine .word nonempty inside (fun byte first => ?_) ih
    cases rest with
    | nil => exact space_not_word (blanks byte (List.mem_of_mem_head? first))
    | cons next rest => exact maximal byte first

/-- The skipped text starts with a byte that is no blank, or is empty because
every byte was one. -/
theorem skipSpaces_cases (input : List UInt8) :
    (skipSpaces input = [] ∧ ∀ byte ∈ input, isSpace byte = true) ∨
      ∃ byte rest, skipSpaces input = byte :: rest ∧ isSpace byte = false ∧ byte ∈ input := by
  induction input with
  | nil => exact Or.inl ⟨rfl, by simp⟩
  | cons byte rest ih =>
    by_cases space : isSpace byte = true
    · simp only [skipSpaces, space, ↓reduceIte]
      rcases ih with ⟨empty, blanks⟩ | ⟨first, tail, start, solid, member⟩
      · exact Or.inl ⟨empty, by simpa [space] using blanks⟩
      · exact Or.inr ⟨first, tail, start, solid, List.mem_cons_of_mem _ member⟩
    · exact Or.inr ⟨byte, rest, by simp [skipSpaces, space], by simpa using space, by simp⟩

/-- Trimming from the end stops at a byte that is no blank, or at the start. -/
theorem trimEnd_spec (str : List UInt8) (last : Nat) :
    trimEnd str last ≤ last ∧
      ∀ index, trimEnd str last < index → index ≤ last → isSpace (str.getD index 0) = true := by
  induction last with
  | zero => exact ⟨Nat.le_refl _, by intro index above below; omega⟩
  | succ last ih =>
    simp only [trimEnd]
    split
    · rename_i space
      refine ⟨Nat.le_succ_of_le ih.1, fun index above below => ?_⟩
      by_cases top : index = last + 1
      · exact top ▸ space
      · exact ih.2 index above (by omega)
    · exact ⟨Nat.le_refl _, by intro index above below; omega⟩

/-- The bytes of a view. -/
def viewed (view : StringView) : List UInt8 := view.start.take view.len

/-- The trimmed view is empty exactly for a blank line, stays inside the line,
and drops nothing but blanks. -/
theorem internalTrimWhitespace_spec (input : List UInt8) :
    ((internalTrimWhitespace input).len < 1 ↔ ∀ byte ∈ input, isSpace byte = true) ∧
      (viewed (internalTrimWhitespace input)).length ≤ (internalTrimWhitespace input).len ∧
      ∀ words, Lexes (viewed (internalTrimWhitespace input)) words → Lexes input words := by
  unfold internalTrimWhitespace viewed
  rcases skipSpaces_cases input with ⟨empty, blanks⟩ | ⟨first, rest, start, solid, member⟩
  · simp only [empty, ↓reduceIte, List.take_nil, List.length_nil, Nat.le_refl, true_and]
    refine ⟨iff_of_true Nat.zero_lt_one blanks, fun words tokens => lexes_skipSpaces ?_⟩
    rwa [empty]
  · have nonempty : ¬ skipSpaces input = [] := by simp [start]
    simp only [nonempty, ↓reduceIte]
    refine ⟨iff_of_false (by omega) fun blanks => ?_, List.length_take_le _ _, fun words tokens => ?_⟩
    · rw [blanks first member] at solid
      cases solid
    · apply lexes_skipSpaces
      obtain ⟨_, trimmed⟩ := trimEnd_spec (skipSpaces input) ((skipSpaces input).length - 1)
      generalize trimEnd (skipSpaces input) ((skipSpaces input).length - 1) = last at *
      rw [← List.take_append_drop (last + 1) (skipSpaces input)]
      apply lexes_append_blanks tokens
      intro byte dropped
      obtain ⟨offset, bound, rfl⟩ := List.mem_iff_getElem.mp dropped
      rw [List.length_drop] at bound
      have space := trimmed (last + 1 + offset) (by omega) (by omega)
      rw [List.getD_eq_getElem?_getD, List.getElem?_eq_getElem (by omega), Option.getD_some] at space
      rwa [List.getElem_drop]

/-! ## The token array -/

/-- The first slots hold these words, the rest are null, and one is spare. -/
structure Holds (list : TokenList) (words : List (List UInt8)) : Prop where
  slots : list.tokens = words.map some ++ List.replicate (list.capacity - words.length) none
  count : list.count = words.length
  room : list.count < list.capacity

private theorem Holds.slots_length (held : Holds list words) :
    list.tokens.length = list.capacity := by
  have room := held.room
  rw [held.count] at room
  rw [held.slots, List.length_append, List.length_map, List.length_replicate]
  omega

private theorem set_spare (words : List (List UInt8)) (word : List UInt8) (positive : 0 < spare) :
    (words.map some ++ List.replicate spare none).set words.length (some word) =
      (words ++ [word]).map some ++ List.replicate (spare - 1) none := by
  obtain ⟨spare, rfl⟩ : ∃ rest, spare = rest + 1 := ⟨spare - 1, by omega⟩
  rw [List.set_append_right _ _ (by simp), List.length_map, Nat.sub_self, List.replicate_succ]
  simp

/-- Storing at index `count` is within the array and appends the word. -/
private theorem store_word (held : Holds list words) (spare : words.length + 1 < list.capacity)
    (word : List UInt8) :
    ∃ stored, storeToken list list.count (some word) = some stored ∧
      Holds { stored with count := stored.count + 1 } (words ++ [word]) ∧ stored.capacity = list.capacity := by
  refine ⟨{ list with tokens := list.tokens.set list.count (some word) }, ?_, ?_, rfl⟩
  · rw [storeToken, if_pos]
    rw [held.slots_length]
    exact held.room
  · constructor
    · simp only [List.length_append, List.length_cons, List.length_nil]
      rw [held.count, held.slots, set_spare words word (by omega), Nat.sub_add_eq]
    · simp [held.count]
    · show list.count + 1 < list.capacity
      rw [held.count]
      exact spare

/-- Doubling the array keeps the words and makes room for one more. -/
private theorem grown_holds (held : Holds list words) :
    Holds
      { list with
        tokens := list.tokens ++ List.replicate (list.capacity * 2 - list.capacity) none
        capacity := list.capacity * 2 } words where
  slots := by
    have room := held.room
    rw [held.count] at room
    rw [held.slots, List.append_assoc, List.replicate_append_replicate]
    have spare : list.capacity - words.length + (list.capacity * 2 - list.capacity) =
        list.capacity * 2 - words.length := by omega
    rw [spare]
  count := held.count
  room := by
    have room := held.room
    show list.count < list.capacity * 2
    omega

/-- How often the array has grown when it holds so many words: at the eighth, the
sixteenth, and so on. -/
def growths (count : Nat) : Nat := count.log2 - 2

/-- The allocations that so many words take. -/
def callsFor (count : Nat) : Nat := count + growths count

/-- The array grows for the next word where it has no slot to spare behind it. -/
theorem growths_succ (count : Nat) : growths (count + 1) =
    growths count + if count + 1 ≥ initialTokenCapacity * 2 ^ growths count then 1 else 0 := by
  rcases Nat.lt_or_ge count 4 with few | many
  · have small : (count + 1).log2 < 3 := (Nat.log2_lt (Nat.succ_ne_zero count)).mpr (by omega)
    have none_ : growths count = 0 := by
      rcases Nat.eq_zero_or_pos count with rfl | positive
      · rfl
      · have smaller : count.log2 < 3 := (Nat.log2_lt (Nat.ne_of_gt positive)).mpr (by omega)
        rw [growths]
        omega
    rw [none_, growths, if_neg (by rw [initialTokenCapacity]; omega)]
    omega
  · have some_ : count ≠ 0 := by omega
    have low : 2 ≤ count.log2 := (Nat.le_log2 some_).mpr many
    have full : initialTokenCapacity * 2 ^ growths count = 2 ^ (count.log2 + 1) := by
      obtain ⟨more, size⟩ : ∃ more, count.log2 = more + 2 := ⟨count.log2 - 2, by omega⟩
      rw [growths, size, Nat.add_sub_cancel, initialTokenCapacity, Nat.pow_succ, Nat.pow_succ, Nat.pow_succ]
      omega
    have below : count.log2 ≤ (count + 1).log2 :=
      (Nat.le_log2 (Nat.succ_ne_zero count)).mpr (Nat.le_succ_of_le (Nat.log2_self_le some_))
    have above : (count + 1).log2 < count.log2 + 2 :=
      (Nat.log2_lt (Nat.succ_ne_zero count)).mpr (by
        have bound := @Nat.lt_log2_self count
        rw [Nat.pow_succ] at bound ⊢
        omega)
    have next : count.log2 + 1 ≤ (count + 1).log2 ↔ 2 ^ (count.log2 + 1) ≤ count + 1 :=
      Nat.le_log2 (Nat.succ_ne_zero count)
    rw [full, growths, growths]
    split
    · rename_i grows
      have more := next.mpr grows
      omega
    · rename_i stays
      have less := mt next.mp stays
      omega

/-- The allocations for the words between these counts all succeed. The first two are
those of the list and of its array. -/
def Supplied (alloc : Nat → Bool) (first last : Nat) : Prop :=
  ∀ call, 2 + callsFor first ≤ call → call < 2 + callsFor last → alloc call = true

/-- With so many words, and nothing refused before. -/
structure Unfailed (list : TokenList) (calls count : Nat) : Prop where
  capacity : list.capacity = initialTokenCapacity * 2 ^ growths count
  calls : calls = 2 + callsFor count

/-- Adding a nonempty word appends it or, for want of memory, nothing. -/
theorem internalAddToken_holds (alloc : Nat → Bool) (calls : Nat) (start : List UInt8)
    (held : Holds list words) (nonempty : 0 < len) :
    ∃ added calls' kept, internalAddToken alloc list calls start len = some (added, calls') ∧
      Holds added (words ++ kept) ∧ kept.Sublist [start.take len] ∧
      (Unfailed list calls words.length →
        (kept = [start.take len] ↔ Supplied alloc words.length (words.length + 1)) ∧
        (kept = [start.take len] → Unfailed added calls' (words.length + 1))) := by
  have room := held.room
  have count := held.count
  have dropped : Holds list (words ++ []) := by
    rwa [List.append_nil]
  have succ := growths_succ words.length
  simp only [internalAddToken, Nat.ne_of_gt nonempty, ↓reduceIte]
  split
  · rename_i refused
    refine ⟨_, _, [], rfl, dropped, List.nil_sublist _, fun unfailed => ⟨iff_of_false nofun ?_, nofun⟩⟩
    intro supplied
    have granted := supplied calls (by rw [unfailed.calls]) (by rw [unfailed.calls, callsFor, callsFor]; omega)
    cases granted.symm.trans refused
  · rename_i granted
    rw [Bool.not_eq_false] at granted
    split
    · rename_i grows
      split
      · rename_i refused
        refine ⟨_, _, [], rfl, dropped, List.nil_sublist _, fun unfailed => ⟨iff_of_false nofun ?_, nofun⟩⟩
        intro supplied
        rw [count, unfailed.capacity] at grows
        rw [if_pos grows] at succ
        have other := supplied (calls + 1) (by rw [unfailed.calls]; omega)
          (by rw [unfailed.calls, callsFor, callsFor]; omega)
        cases other.symm.trans refused
      · rename_i also
        rw [Bool.not_eq_false] at also
        obtain ⟨stored, ran, holds, size⟩ :=
          store_word (grown_holds held) (by simp only; omega) (start.take len)
        refine ⟨_, _, _, by rw [ran]; rfl, holds, List.Sublist.refl _, fun unfailed => ?_⟩
        obtain ⟨capacity, rfl⟩ := unfailed
        rw [count, capacity] at grows
        rw [if_pos grows] at succ
        have next : callsFor (words.length + 1) = callsFor words.length + 2 := by
          rw [callsFor, callsFor, succ]
          omega
        refine ⟨iff_of_true rfl fun call low high => ?_, fun _ => ⟨?_, by rw [next, Nat.add_assoc]⟩⟩
        · rcases Nat.eq_or_lt_of_le low with rfl | behind
          · exact granted
          · obtain rfl : call = 2 + callsFor words.length + 1 := by omega
            exact also
        · rw [succ, Nat.pow_succ]
          simp only [size, capacity]
          exact Nat.mul_assoc _ _ _
    · rename_i stays
      obtain ⟨stored, ran, holds, size⟩ := store_word held (by omega) (start.take len)
      refine ⟨_, _, _, by rw [ran]; rfl, holds, List.Sublist.refl _, fun unfailed => ?_⟩
      obtain ⟨capacity, rfl⟩ := unfailed
      rw [count, capacity] at stays
      rw [if_neg stays] at succ
      have next : callsFor (words.length + 1) = callsFor words.length + 1 := by
        rw [callsFor, callsFor, succ]
        omega
      refine ⟨iff_of_true rfl fun call low high => ?_, fun _ => ⟨?_, by rw [next]; rfl⟩⟩
      · obtain rfl : call = 2 + callsFor words.length := by omega
        exact granted
      · rw [succ]
        exact size.trans capacity

/-! ## The main loop -/

theorem word_split (input : List UInt8) :
    input.take (wordLength input) = input.takeWhile wordByte ∧
      input.drop (wordLength input) = input.dropWhile wordByte := by
  induction input with
  | nil => exact ⟨rfl, rfl⟩
  | cons byte rest ih =>
    by_cases inside : wordByte byte = true
    · have advance : wordLength (byte :: rest) = wordLength rest + 1 := by
        simpa [wordLength, wordByte] using inside
      simp [advance, inside, ih.1, ih.2]
    · have stop : wordLength (byte :: rest) = 0 := by
        simp only [wordLength]
        rw [if_neg (by simpa [wordByte] using inside)]
      simp [stop, inside]

theorem head_dropWhile (input : List UInt8) :
    ∀ byte ∈ (input.dropWhile wordByte).head?, wordByte byte = false := by
  intro byte first
  have stopped := List.head?_dropWhile_not wordByte input
  rw [Option.mem_def.mp first] at stopped
  simpa using stopped

theorem skipSpaces_length (input : List UInt8) :
    (skipSpaces input).length ≤ input.length := by
  induction input with
  | nil => exact Nat.le_refl _
  | cons byte rest ih =>
    simp only [skipSpaces]
    split
    · exact Nat.le_succ_of_le ih
    · exact Nat.le_refl _

theorem callsFor_mono (more : first ≤ last) : callsFor first ≤ callsFor last := by
  have step (count : Nat) : callsFor count ≤ callsFor (count + 1) := by
    rw [callsFor, callsFor, growths_succ]
    omega
  exact monotone_nat_of_le_succ step more

theorem supplied_nil (alloc : Nat → Bool) (count : Nat) : Supplied alloc count count :=
  fun _ low high => absurd (Nat.lt_of_le_of_lt low high) (Nat.lt_irrefl _)

theorem supplied_trans_iff (alloc : Nat → Bool) (lower : first ≤ middle) (upper : middle ≤ last) :
    Supplied alloc first last ↔ Supplied alloc first middle ∧ Supplied alloc middle last := by
  have before := callsFor_mono lower
  have behind := callsFor_mono upper
  constructor
  · exact fun all => ⟨fun call low high => all call low (by omega), fun call low => all call (by omega)⟩
  · rintro ⟨left, right⟩ call low high
    rcases Nat.lt_or_ge call (2 + callsFor middle) with early | late
    · exact left call low early
    · exact right call late high

/-- A turn of the loop consumes some text; the list gains the tokens of the text
consumed, all of them exactly when memory does not run out. -/
theorem scanStep_lexes (alloc : Nat → Bool) (held : Holds scan.list words) (more : scan.p ≠ []) :
    ∃ next added read, scanStep alloc scan = some next ∧ Holds next.list (words ++ added) ∧
      next.p.length < scan.p.length ∧ added.Sublist read ∧
      (Unfailed scan.list scan.calls words.length →
        (added = read ↔ Supplied alloc words.length (words ++ read).length) ∧
        (added = read → Unfailed next.list next.calls (words ++ read).length)) ∧
      ∀ later, Lexes next.p later → Lexes scan.p (read ++ later) := by
  have positive := List.length_pos_of_ne_nil more
  have shrunk := skipSpaces_length scan.p
  unfold scanStep
  cases start : skipSpaces scan.p with
  | nil =>
    refine ⟨{ scan with p := [] }, [], [], rfl, by simpa using held, positive,
      List.Sublist.refl _, fun unfailed => ?_, fun later tokens => ?_⟩
    · rw [List.append_nil]
      exact ⟨iff_of_true rfl (supplied_nil alloc _), fun _ => unfailed⟩
    · apply lexes_skipSpaces
      rwa [start]
  | cons byte rest =>
    rw [start, List.length_cons] at shrunk
    have solid : isSpace byte = false := by
      rcases skipSpaces_cases scan.p with ⟨empty, _⟩ | ⟨first, tail, same, solid, _⟩
      · rw [start] at empty
        cases empty
      · rw [start] at same
        cases same
        exact solid
    by_cases bar : byte = pipe
    · obtain ⟨list, calls, kept, ran, holds, part, whole⟩ :=
        internalAddToken_holds alloc scan.calls (byte :: rest) held Nat.one_pos
      refine ⟨⟨rest, list, calls⟩, kept, _, ?_, holds, by simp only; omega, part, ?_, fun later tokens => ?_⟩
      · simp only [bar, ↓reduceIte]
        rw [← bar, ran]
        rfl
      · simpa using whole
      · apply lexes_skipSpaces
        rw [start, bar]
        exact .bar tokens
    · have inside : wordByte byte = true := by simp [wordByte, solid, bar]
      obtain ⟨taken, dropped⟩ := word_split (byte :: rest)
      have nonempty : (byte :: rest).takeWhile wordByte ≠ [] := by simp [inside]
      have advance : 0 < wordLength (byte :: rest) := by
        apply Nat.pos_of_ne_zero
        intro zero
        rw [zero] at taken
        exact nonempty taken.symm
      obtain ⟨list, calls, kept, ran, holds, part, whole⟩ :=
        internalAddToken_holds alloc scan.calls (byte :: rest) held advance
      refine ⟨⟨(byte :: rest).drop (wordLength (byte :: rest)), list, calls⟩, kept, _, ?_, holds, ?_,
        part, ?_, fun later tokens => ?_⟩
      · simp only [bar, ↓reduceIte]
        rw [ran]
        rfl
      · rw [List.length_drop, List.length_cons]
        omega
      · rw [List.length_append, List.length_singleton]
        exact whole
      · apply lexes_skipSpaces
        rw [dropped] at tokens
        have line := Lexes.word nonempty (fun _ member => List.mem_takeWhile_imp member)
          (head_dropWhile _) tokens
        rw [List.takeWhile_append_dropWhile] at line
        rw [start, taken]
        exact line

/-- Sublists that are together everything are each everything. -/
private theorem sublists_eq {first readFirst rest readRest : List (List UInt8)} (part : first.Sublist readFirst)
    (partRest : rest.Sublist readRest) :
    first ++ rest = readFirst ++ readRest ↔ first = readFirst ∧ rest = readRest := by
  constructor
  · intro same
    have sizes := congrArg List.length same
    rw [List.length_append, List.length_append] at sizes
    have fewer := part.length_le
    have fewerRest := partRest.length_le
    exact ⟨part.eq_of_length (by omega), partRest.eq_of_length (by omega)⟩
  · rintro ⟨rfl, rfl⟩
    rfl

private theorem scanLoop_stays (alloc : Nat → Bool) (held : Holds scan.list words)
    (bound : scan.p.length ≤ turns → scan.p = []) (ran : scanLoop alloc turns scan = some scan) :
    ∃ final added read, scanLoop alloc turns scan = some final ∧
      Holds final.list (words ++ added) ∧ (scan.p.length ≤ turns → final.p = []) ∧
      added.Sublist read ∧
      (Unfailed scan.list scan.calls words.length →
        (added = read ↔ Supplied alloc words.length (words ++ read).length) ∧
        (added = read → Unfailed final.list final.calls (words ++ read).length)) ∧
      ∀ later, Lexes final.p later → Lexes scan.p (read ++ later) := by
  refine ⟨scan, [], [], ran, by simpa using held, bound, List.Sublist.refl _, fun unfailed => ?_,
    fun later tokens => tokens⟩
  rw [List.append_nil]
  exact ⟨iff_of_true rfl (supplied_nil alloc _), fun _ => unfailed⟩

/-- Any number of turns: the list holds tokens of the text consumed so far, all of
them exactly when memory does not run out. Enough turns consume all of it. -/
theorem scanLoop_lexes (alloc : Nat → Bool) (turns : Nat) (held : Holds scan.list words) :
    ∃ final added read, scanLoop alloc turns scan = some final ∧
      Holds final.list (words ++ added) ∧ (scan.p.length ≤ turns → final.p = []) ∧
      added.Sublist read ∧
      (Unfailed scan.list scan.calls words.length →
        (added = read ↔ Supplied alloc words.length (words ++ read).length) ∧
        (added = read → Unfailed final.list final.calls (words ++ read).length)) ∧
      ∀ later, Lexes final.p later → Lexes scan.p (read ++ later) := by
  induction turns generalizing scan words with
  | zero => exact scanLoop_stays alloc held (fun bound => List.eq_nil_of_length_eq_zero (by omega)) rfl
  | succ turns ih =>
    by_cases finished : scan.p = []
    · exact scanLoop_stays alloc held (fun _ => finished) (by simp [scanLoop, finished])
    · obtain ⟨next, first, readFirst, ran, holds, shorter, part, whole, reads⟩ :=
        scanStep_lexes alloc held finished
      obtain ⟨final, rest, readRest, after, holdsAll, enough, partRest, wholeRest, readsRest⟩ :=
        ih holds
      refine ⟨final, first ++ rest, readFirst ++ readRest, ?_, ?_, fun bound => enough (by omega),
        part.append partRest, fun unfailed => ?_, fun later tokens => ?_⟩
      · simp only [scanLoop, finished, ↓reduceIte, ran, Option.bind_some]
        exact after
      · rwa [← List.append_assoc]
      · obtain ⟨here, kept⟩ := whole unfailed
        have lower : words.length ≤ (words ++ readFirst).length := by simp
        have upper : (words ++ readFirst).length ≤ (words ++ (readFirst ++ readRest)).length := by simp
        rw [sublists_eq part partRest, supplied_trans_iff alloc lower upper, ← here]
        constructor
        · refine and_congr_right ?_
          rintro rfl
          rw [← List.append_assoc]
          exact (wholeRest (kept rfl)).1
        · rintro ⟨rfl, all⟩
          rw [← List.append_assoc]
          exact (wholeRest (kept rfl)).2 all
      · rw [List.append_assoc]
        exact reads _ (readsRest _ tokens)

/-- Where an array ends its words there is a null, and storing one there again
changes nothing. -/
private theorem terminator_holds (held : Holds list words) :
    list.tokens[list.count]? = some none ∧ storeToken list list.count none = some list := by
  have inside : list.count < list.tokens.length := by
    rw [held.slots_length]
    exact held.room
  have room := held.room
  rw [held.count] at room
  have null : list.tokens[list.count]? = some none := by
    rw [held.slots, held.count, List.getElem?_append_right (by simp), List.length_map,
      Nat.sub_self, List.getElem?_replicate, if_pos (by omega)]
  refine ⟨null, ?_⟩
  rw [List.getElem?_eq_getElem inside] at null
  rw [storeToken, if_pos inside]
  have same : list.tokens.set list.count none = list.tokens := by
    rw [← Option.some.inj null, List.set_getElem_self]
  rw [same]

theorem scanStart_holds (view : StringView) : Holds (scanStart view).list [] where
  slots := rfl
  count := rfl
  room := Nat.succ_pos _

/-- Whatever memory there is, `shell_tokenize` stays within the array, and the
list it returns has a spare slot and holds tokens of the line. -/
theorem shellTokenize_returns (alloc : Nat → Bool) (input : List UInt8) :
    ∃ result, shellTokenize alloc (some input) = some result ∧
      ∀ list ∈ result, ∃ words all, Holds list words ∧ words.Sublist all ∧ Lexes input all := by
  unfold shellTokenize
  simp only
  split
  · exact ⟨none, rfl, by simp⟩
  · split
    · exact ⟨none, rfl, by simp⟩
    · split
      · exact ⟨none, rfl, by simp⟩
      · obtain ⟨_, within, untrimmed⟩ := internalTrimWhitespace_spec input
        obtain ⟨scan, words, all, looped, holds, consumed, part, _, reads⟩ :=
          scanLoop_lexes alloc (internalTrimWhitespace input).len
            (scanStart_holds (internalTrimWhitespace input))
        refine ⟨some scan.list, ?_, fun list same => ?_⟩
        · simp [looped, (terminator_holds holds).2, Nat.not_le.mpr holds.room]
        · cases same
          have lexed := reads [] (by rw [consumed within]; exact .done)
          rw [List.append_nil] at lexed
          exact ⟨_, all, holds, part, untrimmed all lexed⟩

/-- Every allocation succeeds. -/
def always : Nat → Bool := fun _ => true

/-- Running out of room cannot happen: in every state of the main loop the
count is below the capacity, which is the size of the array. -/
theorem scanLoop_room (turns : Nat) (view : StringView) :
    ∃ scan, scanLoop always turns (scanStart view) = some scan ∧
      scan.list.count < scan.list.capacity ∧ scan.list.tokens.length = scan.list.capacity := by
  obtain ⟨scan, words, _, ran, holds, _⟩ := scanLoop_lexes always turns (scanStart_holds view)
  exact ⟨scan, ran, holds.room, holds.slots_length⟩

private theorem scanStart_unfailed (view : StringView) :
    Unfailed (scanStart view).list (scanStart view).calls 0 := ⟨rfl, rfl⟩

/-- What is returned for a line that is not blank, where there is memory for the list and
its array: all the tokens exactly when there is memory for them. -/
theorem shellTokenize_supplied (solid : ¬ ∀ byte ∈ input, isSpace byte = true) (first : alloc 0 = true)
    (second : alloc 1 = true) :
    ∃ list words all, shellTokenize alloc (some input) = some (some list) ∧ Holds list words ∧
      Lexes input all ∧ words.Sublist all ∧ (words = all ↔ Supplied alloc 0 all.length) ∧
      (words = all → list.capacity = initialTokenCapacity * 2 ^ growths all.length) := by
  obtain ⟨blankIff, within, untrimmed⟩ := internalTrimWhitespace_spec input
  have long := mt blankIff.mp solid
  obtain ⟨scan, words, read, looped, holds, consumed, part, whole, reads⟩ :=
    scanLoop_lexes alloc (internalTrimWhitespace input).len
      (scanStart_holds (internalTrimWhitespace input))
  obtain ⟨all, kept⟩ := whole (scanStart_unfailed _)
  refine ⟨scan.list, words, read, ?_, holds, untrimmed read ?_, part, all, fun same => (kept same).capacity⟩
  · simp only [shellTokenize, long, first, second, ↓reduceIte, Bool.true_eq_false]
    erw [looped]
    simp [(terminator_holds holds).2, Nat.not_le.mpr holds.room]
  · have lexed := reads [] (by rw [consumed within]; exact .done)
    rwa [List.append_nil] at lexed

/-- A blank line is refused. -/
theorem shellTokenize_blank (alloc : Nat → Bool) (blank : ∀ byte ∈ input, isSpace byte = true) :
    shellTokenize alloc (some input) = some none := by
  have short := (internalTrimWhitespace_spec input).1.mpr blank
  simp only [shellTokenize, short, ↓reduceIte]

/-- With memory to spare, a blank line is refused and any other is lexed. -/
theorem shellTokenize_lexes (input : List UInt8) :
    (shellTokenize always (some input) = some none ∧ ∀ byte ∈ input, isSpace byte = true) ∨
      ∃ list words, shellTokenize always (some input) = some (some list) ∧ Holds list words ∧
        Lexes input words ∧ ¬ ∀ byte ∈ input, isSpace byte = true := by
  by_cases blank : ∀ byte ∈ input, isSpace byte = true
  · exact .inl ⟨shellTokenize_blank always blank, blank⟩
  · have granted (call : Nat) : always call = true := rfl
    obtain ⟨list, words, all, ran, holds, lexed, _, whole, _⟩ :=
      shellTokenize_supplied blank (granted 0) (granted 1)
    obtain rfl := whole.mpr fun _ _ _ => rfl
    exact .inr ⟨list, words, ran, holds, lexed, blank⟩

/-- Only a blank line has no tokens. -/
theorem blank_of_lexes_nothing (tokens : Lexes input words) (none_ : words = []) :
    ∀ byte ∈ input, isSpace byte = true := by
  induction tokens with
  | done => simp
  | blank space after ih =>
    intro byte member
    rcases List.mem_cons.mp member with rfl | member
    · exact space
    · exact ih none_ byte member
  | bar | word => cases none_

/-- `shell_tokenize` on any line, when memory does not run out: null exactly
for a blank line, otherwise the tokens of the grammar in order with a null at
index `count`; no store is outside the array, and no state of the loop leaves
the count without a spare slot. -/
theorem tokens_are_lexed (input : List UInt8) :
    (∃ result, shellTokenize always (some input) = some result) ∧
    (shellTokenize always (some input) = some none ↔ ∀ byte ∈ input, isSpace byte = true) ∧
    (∀ list, shellTokenize always (some input) = some (some list) →
      ∃ words, Lexes input words ∧ list.count = words.length ∧ list.count < list.capacity ∧
        list.tokens.length = list.capacity ∧ list.tokens.take list.count = words.map some ∧
        list.tokens[list.count]? = some none) ∧
    ∀ turns, ∃ scan,
      scanLoop always turns (scanStart (internalTrimWhitespace input)) = some scan ∧
        scan.list.count < scan.list.capacity ∧
        scan.list.tokens.length = scan.list.capacity := by
  rcases shellTokenize_lexes input with ⟨null, blank⟩ | ⟨list, words, ran, holds, lexed, solid⟩
  · refine ⟨⟨none, null⟩, iff_of_true null blank, ?_, fun turns => scanLoop_room turns _⟩
    intro list ran
    rw [null] at ran
    cases ran
  · refine ⟨⟨_, ran⟩, iff_of_false ?_ solid, ?_, fun turns => scanLoop_room turns _⟩
    · rw [ran]
      intro null
      cases null
    · intro same returned
      rw [ran] at returned
      cases returned
      refine ⟨words, lexed, holds.count, holds.room, holds.slots_length, ?_,
        (terminator_holds holds).1⟩
      rw [holds.slots, holds.count, List.take_left' (List.length_map _)]

/-! ## Memory that runs out -/

/-- The list returned is the one that is returned when memory does not run out. -/
def NullOrComplete (alloc : Nat → Bool) (line : List UInt8) : Prop :=
  shellTokenize alloc (some line) = some none ∨
    shellTokenize alloc (some line) = shellTokenize always (some line)

/-- A list is determined by its words and its capacity. -/
private theorem holds_unique (held : Holds list words) (other : Holds second words)
    (same : list.capacity = second.capacity) : list = second := by
  obtain ⟨tokens, count, capacity⟩ := list
  obtain ⟨tokens', count', capacity'⟩ := second
  obtain rfl : capacity = capacity' := same
  have slots := held.slots.trans other.slots.symm
  have counts := held.count.trans other.count.symm
  simp only at slots counts
  rw [slots, counts]

/-- All the words and their allocations: what is returned is complete exactly when these
are granted. -/
private theorem complete_iff (solid : ¬ ∀ byte ∈ line, isSpace byte = true) (lexed : Lexes line words)
    (first : alloc 0 = true) (second : alloc 1 = true) :
    NullOrComplete alloc line ↔ Supplied alloc 0 words.length := by
  have granted (call : Nat) : always call = true := rfl
  obtain ⟨list, kept, all, ran, holds, lexes, part, whole, size⟩ := shellTokenize_supplied solid first second
  obtain ⟨full, every, also, ranFull, holdsFull, lexesFull, _, wholeFull, sizeFull⟩ :=
    shellTokenize_supplied solid (granted 0) (granted 1)
  obtain rfl := lexes_unique lexes lexed
  obtain rfl := lexes_unique lexesFull lexed
  obtain rfl := wholeFull.mpr fun _ _ _ => rfl
  rw [NullOrComplete, ran, ranFull, ← whole]
  constructor
  · rintro (null | same)
    · cases null
    · cases same
      have counts := holds.count.symm.trans holdsFull.count
      exact part.eq_of_length counts
  · rintro rfl
    right
    rw [holds_unique holds holdsFull ((size rfl).trans (sizeFull rfl).symm)]

/-- The first allocations, with the two of the list and of its array. -/
private theorem granted_iff (first : alloc 0 = true) (second : alloc 1 = true) (count : Nat) :
    (∀ call, call < 2 + callsFor count → alloc call = true) ↔ Supplied alloc 0 count := by
  refine ⟨fun all call _ high => all call high, fun supplied call high => ?_⟩
  match call with
  | 0 => exact first
  | 1 => exact second
  | call + 2 => exact supplied (call + 2) (by rw [Nat.add_comm]; exact Nat.le_add_left 2 call) high

/-- `shell_tokenize` returns null or all the tokens exactly when there is no memory for the
list or for its array, or there is for all that these tokens take. A line has one reading. -/
theorem null_or_complete_iff (alloc : Nat → Bool) (line : List UInt8) :
    NullOrComplete alloc line ↔ ∀ words, Lexes line words →
      alloc 0 = false ∨ alloc 1 = false ∨ ∀ call, call < 2 + callsFor words.length → alloc call = true := by
  by_cases blank : ∀ byte ∈ line, isSpace byte = true
  · refine iff_of_true (.inl (shellTokenize_blank alloc blank)) fun words lexed => ?_
    obtain rfl : words = [] := lexes_unique lexed (lexes_append_blanks .done blank)
    cases first : alloc 0 with
    | false => exact .inl rfl
    | true =>
      cases second : alloc 1 with
      | false => exact .inr (.inl rfl)
      | true => exact .inr (.inr ((granted_iff first second 0).mpr (supplied_nil alloc 0)))
  · cases first : alloc 0 with
    | false =>
      refine iff_of_true (.inl ?_) fun _ _ => .inl rfl
      simp [shellTokenize, first]
    | true =>
      cases second : alloc 1 with
      | false =>
        refine iff_of_true (.inl ?_) fun _ _ => .inr (.inl rfl)
        simp [shellTokenize, first, second]
      | true =>
        obtain ⟨_, _, all, _, _, lexed, _⟩ := shellTokenize_supplied blank first second
        rw [complete_iff blank lexed first second, ← granted_iff first second]
        constructor
        · intro granted words other
          obtain rfl := lexes_unique lexed other
          exact .inr (.inr granted)
        · intro fine
          exact ((fine all lexed).resolve_left nofun).resolve_left nofun

/-- `a b`, where there is no memory for the `b`. -/
theorem last_word_dropped :
    let alloc : Nat → Bool := fun call => call != 3
    (∃ list, shellTokenize alloc (some [0x61, 0x20, 0x62]) = some (some list) ∧ list.count = 1) ∧
      ¬ NullOrComplete alloc [0x61, 0x20, 0x62] := by
  refine ⟨⟨_, rfl, rfl⟩, ?_⟩
  rintro (null | same)
  · cases null
  · cases same

end ShapeQuake.TokenizerProofs
