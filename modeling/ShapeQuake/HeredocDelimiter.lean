import ShapeQuake.HeredocProofs

/-! Where `sq_heredoc_read_all` stops. It compares what a call of `fgets` reads with the
delimiter; that is a line only where the line fits the buffer, and a carriage return or
a null behind the delimiter is taken for the end of the line. -/
namespace ShapeQuake.HeredocDelimiter
open Library.Bytes Allocator AllocatorInvariants Heredoc HeredocProofs
open ShellCore (commandLineBufSize)

/-! ## Lines of the input -/

/-- The lines, each with its newline; the last may have none. -/
def linesOf : List UInt8 → List (List UInt8)
  | [] => []
  | byte :: rest =>
    if byte = newline then [byte] :: linesOf rest
    else
      match linesOf rest with
      | [] => [[byte]]
      | line :: lines => (byte :: line) :: lines

/-- What is on a line, without its newline. -/
def content (line : List UInt8) : List UInt8 := line.takeWhile (· ≠ newline)

/-- The line says the delimiter, with a carriage return behind it or without. -/
def saysDelimiter (delimiter line : List UInt8) : Bool :=
  content line = delimiter ∨ content line = delimiter ++ [carriageReturn]

/-- Where the reading stops: what was read before, what was read last, what is left. -/
structure Stop where
  before : List UInt8
  line : List UInt8
  rest : List UInt8
  deriving DecidableEq, Repr

/-- The first of these that passes, with what comes before and behind it. -/
def firstWhere (passes : List UInt8 → Bool) (before : List UInt8) : List (List UInt8) → Option Stop
  | [] => none
  | line :: later =>
    if passes line then some ⟨before, line, later.flatten⟩ else firstWhere passes (before ++ line) later

/-! ## The reading loop -/

/-- The reading loop with its place: where it stops, if not at the end of the input. -/
def stopLoop (delimiter : List UInt8) (malloc : Nat → Option Nat) :
    Nat → Nat → Arena → List UInt8 → List UInt8 → Option (Option Stop)
  | 0, _, _, _, _ => some none
  | turns + 1, turn, arena, before, stdin =>
    match fgets commandLineBufSize stdin with
    | none => some none
    | some (line, rest) =>
      if isDelimiter delimiter line then some (some ⟨before, line, rest⟩)
      else
        let text := untilNull line
        match arenaAlloc arena text.length (malloc turn) with
        | none => none
        | some (arena, none) => stopLoop delimiter malloc turns (turn + 1) arena (before ++ line) rest
        | some (arena, some saved) =>
          stopLoop delimiter malloc turns (turn + 1) (arena.write saved text) (before ++ line) rest

private theorem fgets_shorter (read : fgets size stdin = some (line, rest)) (some_ : line ≠ []) :
    rest.length < stdin.length := by
  unfold fgets at read
  split at read
  · cases read
  · rename_i full
    cases read
    have positive := List.length_pos_iff.mpr full
    have taken := List.length_pos_iff.mpr some_
    rw [List.length_drop]
    omega

private theorem throughNewline_ne_nil (full : bytes ≠ []) : throughNewline bytes ≠ [] := by
  cases bytes with
  | nil => exact absurd rfl full
  | cons byte rest =>
    rw [throughNewline]
    split
    · exact List.cons_ne_nil _ _
    · exact List.cons_ne_nil _ _

private theorem fgets_some (read : fgets commandLineBufSize stdin = some (line, rest)) : line ≠ [] := by
  unfold fgets at read
  split at read
  · cases read
  · rename_i full
    cases read
    apply throughNewline_ne_nil
    cases stdin with
    | nil => exact absurd rfl full
    | cons byte rest => exact nofun

/-- It is the loop of `sq_heredoc_read_all`: one ends where the other does, with the
same left to read. -/
theorem stopLoop_readLoop (delimiter : List UInt8) (malloc : Nat → Option Nat)
    (enough : stdin.length ≤ turns) (turn : Nat) (arena : Arena) (total : Nat) (before : List UInt8) :
    (readLoop delimiter malloc turns turn arena total stdin).map (·.2.2) =
      (stopLoop delimiter malloc turns turn arena before stdin).map fun stop =>
        (stop.map Stop.rest).getD [] := by
  induction turns generalizing turn arena total before stdin with
  | zero =>
    obtain rfl := List.length_eq_zero_iff.mp (Nat.le_zero.mp enough)
    rfl
  | succ turns ih =>
    rw [readLoop, stopLoop]
    cases read : fgets commandLineBufSize stdin with
    | none =>
      have over_ : stdin = [] := by
        unfold fgets at read
        split at read
        · assumption
        · cases read
      rw [over_]
      rfl
    | some both =>
      obtain ⟨line, rest⟩ := both
      have fewer : rest.length ≤ turns := by
        have shorter := fgets_shorter read (fgets_some read)
        omega
      simp only
      by_cases passes : isDelimiter delimiter line
      · rw [if_pos passes, if_pos passes]
        rfl
      · rw [if_neg passes, if_neg passes]
        cases arenaAlloc arena (untilNull line).length (malloc turn) with
        | none => rfl
        | some answer =>
          obtain ⟨arena, saved⟩ := answer
          cases saved with
          | none => exact ih fewer _ _ _ _
          | some saved => exact ih fewer _ _ _ _

/-- What the calls of `fgets` read, one behind the other. -/
def Reads : List (List UInt8) → Prop
  | [] => True
  | chunk :: later =>
    fgets commandLineBufSize (chunk ++ later.flatten) = some (chunk, later.flatten) ∧ Reads later

/-- There is room for each of these, with so much left in the last block, or memory for
another block. The last may be refused, but none behind one that was. -/
def Granted (malloc : Nat → Option Nat) : Nat → Nat → List (List UInt8) → Prop
  | _, _, [] => True
  | room, turn, chunk :: later =>
    let size := align (untilNull chunk).length
    if size ≤ room then Granted malloc (room - size) (turn + 1) later
    else if malloc turn = none then later = []
    else Granted malloc (commandLineBufSize - size) (turn + 1) later

/-- The call can save these. With the lock of the arena lost it can save nothing. -/
def CanSave (malloc : Nat → Option Nat) (turn : Nat) (arena : Arena) (chunks : List (List UInt8)) : Prop :=
  if arena.mutex = true then chunks = [] else Granted malloc (space arena) turn chunks

private theorem text_short (read : fgets commandLineBufSize stdin = some (line, rest)) :
    (untilNull line).length < commandLineBufSize :=
  Nat.lt_of_le_of_lt (untilNull_length line) (fgets_short read)

private theorem canSave_nil (malloc : Nat → Option Nat) (turn : Nat) (arena : Arena) :
    CanSave malloc turn arena [] := by
  rw [CanSave]
  split
  · rfl
  · trivial

/-- The loop stops at the first read that passes for the delimiter, if those before it
can be saved, and otherwise never. -/
theorem stopLoop_iff (sound : Sound arena total) (answers : Answers arena.blocks malloc turn)
    (reads : Reads chunks) (enough : chunks.flatten.length ≤ turns) (before : List UInt8) :
    stopLoop delimiter malloc turns turn arena before chunks.flatten = some stop ↔
      CanSave malloc turn arena (chunks.takeWhile fun chunk => !isDelimiter delimiter chunk) ∧
        firstWhere (isDelimiter delimiter) before chunks = stop := by
  induction chunks generalizing turns turn arena total before with
  | nil =>
    have ended : stopLoop delimiter malloc turns turn arena before [] = some none := by
      cases turns with
      | zero => rfl
      | succ turns => rfl
    rw [List.flatten_nil, ended, List.takeWhile_nil, and_iff_right (canSave_nil malloc turn arena),
      Option.some.injEq, firstWhere]
  | cons chunk later ih =>
    obtain ⟨read, readsLater⟩ := reads
    have positive := List.length_pos_iff.mpr (fgets_some read)
    rw [List.flatten_cons, List.length_append] at enough
    obtain ⟨turns, rfl⟩ := Nat.exists_eq_succ_of_ne_zero (show turns ≠ 0 by omega)
    have fewer : later.flatten.length ≤ turns := by omega
    rw [List.flatten_cons, stopLoop, read, firstWhere]
    simp only
    by_cases passes : isDelimiter delimiter chunk
    · rw [if_pos passes, if_pos passes, List.takeWhile_cons_of_neg (by simp [passes]),
        and_iff_right (canSave_nil malloc turn arena), Option.some.injEq]
    · rw [if_neg passes, if_neg passes, List.takeWhile_cons_of_pos (by simp [passes]), CanSave]
      cases locked : arena.mutex with
      | true => simp [arenaAlloc, arenaAllocateRaw, locked]
      | false =>
        rw [if_neg Bool.false_ne_true, Granted]
        rcases save_cases sound locked (text_short read) fun address answered =>
            (answers turn address (Nat.le_refl _) answered).1 with
          ⟨saved, pointer, allocated, saves, granted⟩ | ⟨refused, allocated, refuses, crowded, none_⟩
        · rw [allocated]
          have after := ih saves.sound (answers_later answers saves.places) readsLater fewer (before ++ chunk)
          rw [CanSave, saves.unlocked, if_neg Bool.false_ne_true, saves.left] at after
          by_cases fits : align (untilNull chunk).length ≤ space arena
          · rw [if_pos fits] at after ⊢
            exact after
          · rw [if_neg fits] at after
            rw [if_neg fits, if_neg (granted.resolve_left fits)]
            exact after
        · rw [allocated, if_neg (Nat.not_le.mpr crowded), if_pos none_]
          have same : Answers refused.blocks malloc (turn + 1) :=
            answers_later answers fun address member => .inl (refuses.places ▸ member)
          have after := ih refuses.sound same readsLater fewer (before ++ chunk)
          rw [CanSave, refuses.locked, if_pos rfl] at after
          exact after

/-! ## The reads of a line -/

private theorem linesOf_flatten (stdin : List UInt8) : (linesOf stdin).flatten = stdin := by
  induction stdin with
  | nil => rfl
  | cons byte rest ih =>
    rw [linesOf]
    split
    · rw [List.flatten_cons, ih]
      rfl
    · split
      · rename_i none_
        rw [none_] at ih
        rw [← ih]
        rfl
      · rename_i line lines split_
        rw [split_] at ih
        rw [← ih]
        rfl

/-- Each line is complete, with the lines behind it. -/
def AllComplete : List (List UInt8) → Prop
  | [] => True
  | line :: later => Complete line later.flatten ∧ AllComplete later

private theorem linesOf_complete (stdin : List UInt8) : AllComplete (linesOf stdin) := by
  induction stdin with
  | nil => trivial
  | cons byte rest ih =>
    rw [linesOf]
    split
    · rename_i ends
      exact ⟨⟨List.cons_ne_nil _ _, by rw [ends]; rfl⟩, ih⟩
    · rename_i inside
      split
      · refine ⟨⟨List.cons_ne_nil _ _, ?_⟩, trivial⟩
        rw [List.flatten_nil, List.append_nil, throughNewline, if_neg inside]
        rfl
      · rename_i line lines split_
        rw [split_] at ih
        refine ⟨⟨List.cons_ne_nil _ _, ?_⟩, ih.2⟩
        rw [List.cons_append, throughNewline, if_neg inside, ih.1.2]

/-- What is behind the first bytes of a line is the rest of that line. -/
private theorem complete_drop (complete : Complete line rest) (count : Nat) (left : line.drop count ≠ []) :
    Complete (line.drop count) rest := by
  induction count generalizing line with
  | zero => exact complete
  | succ count ih =>
    cases line with
    | nil => exact absurd rfl complete.1
    | cons byte line =>
      rw [List.drop_succ_cons] at left ⊢
      have some_ : line ≠ [] := by
        rintro rfl
        simp at left
      refine ih ⟨some_, ?_⟩ left
      have through := complete.2
      rw [List.cons_append, throughNewline] at through
      split at through
      · cases through
        exact absurd rfl some_
      · exact (List.cons.inj through).2

/-- The pieces that a line is read in. -/
def pieces (line : List UInt8) : List (List UInt8) :=
  if line = [] then []
  else line.take (commandLineBufSize - 1) :: pieces (line.drop (commandLineBufSize - 1))
termination_by line.length
decreasing_by
  rename_i full
  have positive := List.length_pos_iff.mpr full
  rw [List.length_drop, commandLineBufSize]
  omega

private theorem pieces_flatten (line : List UInt8) : (pieces line).flatten = line := by
  fun_induction pieces line with
  | case1 => rfl
  | case2 line full ih => rw [List.flatten_cons, ih, List.take_append_drop]

private theorem pieces_reads (complete : Complete line later.flatten ∨ line = []) (reads : Reads later) :
    Reads (pieces line ++ later) := by
  fun_induction pieces line with
  | case1 => exact reads
  | case2 line full ih =>
    have here := complete.resolve_right full
    refine ⟨?_, ih ?_⟩
    · have behind : (pieces (line.drop (commandLineBufSize - 1)) ++ later).flatten =
          line.drop (commandLineBufSize - 1) ++ later.flatten := by
        rw [List.flatten_append, pieces_flatten]
      have read := fgets_complete here
      conv at read => lhs; rw [← List.take_append_drop (commandLineBufSize - 1) line, List.append_assoc]
      rw [← behind] at read
      exact read
    · by_cases left : line.drop (commandLineBufSize - 1) = []
      · exact .inr left
      · exact .inl (complete_drop here _ left)

/-- All that the calls read. -/
def readsOf (lines : List (List UInt8)) : List (List UInt8) := lines.flatMap pieces

private theorem readsOf_flatten (lines : List (List UInt8)) : (readsOf lines).flatten = lines.flatten := by
  induction lines with
  | nil => rfl
  | cons line later ih =>
    rw [readsOf, List.flatMap_cons, List.flatten_append, pieces_flatten, List.flatten_cons, ← ih, readsOf]

private theorem lines_read (complete : AllComplete lines) : Reads (readsOf lines) := by
  induction lines with
  | nil => trivial
  | cons line later ih =>
    obtain ⟨here, others⟩ := complete
    rw [← readsOf_flatten] at here
    exact pieces_reads (.inl here) (ih others)

private theorem piece_short (member : piece ∈ pieces line) :
    piece ≠ [] ∧ piece.length < commandLineBufSize := by
  fun_induction pieces line with
  | case1 => cases member
  | case2 line full ih =>
    rcases List.mem_cons.mp member with rfl | later
    · constructor
      · rw [ne_eq, List.take_eq_nil_iff, commandLineBufSize]
        simp [full]
      · rw [List.length_take, commandLineBufSize]
        omega
    · exact ih later

private theorem pieces_whole (full : line ≠ []) (short : line.length < commandLineBufSize) :
    pieces line = [line] := by
  have bound : line.length ≤ commandLineBufSize - 1 := Nat.le_sub_one_of_lt short
  rw [pieces, if_neg full, List.take_of_length_le bound, List.drop_eq_nil_of_le bound, pieces, if_pos rfl]

/-! ## Passing for the delimiter -/

private theorem line_content (through : throughNewline (line ++ rest) = line) :
    line = content line ∨ line = content line ++ [newline] := by
  induction line with
  | nil => exact .inl rfl
  | cons byte line ih =>
    rw [List.cons_append, throughNewline] at through
    split at through
    · rename_i ends
      cases through
      exact .inr (by simp [content, ends])
    · rename_i inside
      have same : content (byte :: line) = byte :: content line := by simp [content, inside]
      rw [same]
      exact (ih (List.cons.inj through).2).imp (congrArg (byte :: ·)) (congrArg (byte :: ·))

private theorem passes_append (solid : 0 ∉ delimiter) (short : 0 ∉ tail)
    (next : tail.getD 0 0 ∈ [newline, carriageReturn, 0]) :
    isDelimiter delimiter (delimiter ++ tail) = true := by
  have text : untilNull (delimiter ++ tail) = delimiter ++ tail :=
    untilNull_of_solid fun null => (List.mem_append.mp null).elim solid short
  have behind : (delimiter ++ tail).getD delimiter.length 0 = tail.getD 0 0 := by
    rw [List.getD_eq_getElem?_getD, List.getElem?_append_right (Nat.le_refl _), Nat.sub_self,
      List.getD_eq_getElem?_getD]
  rw [isDelimiter, text, behind, Bool.and_eq_true]
  exact ⟨List.isPrefixOf_iff_prefix.mpr (List.prefix_append _ _), List.contains_iff_mem.mpr next⟩

/-- A line that says the delimiter passes for it. -/
private theorem agrees_passes (complete : Complete line rest) (solid : 0 ∉ delimiter)
    (agrees : saysDelimiter delimiter line = true) : isDelimiter delimiter line = true := by
  rw [saysDelimiter, decide_eq_true_eq] at agrees
  rcases line_content complete.2 with bare | ended
  · rw [bare]
    rcases agrees with same | same
    · have passes : isDelimiter delimiter (delimiter ++ []) = true :=
        passes_append solid List.not_mem_nil (by simp)
      rw [List.append_nil] at passes
      rwa [same]
    · rw [same]
      exact passes_append solid (by simp [carriageReturn]) (by simp)
  · rw [ended]
    rcases agrees with same | same
    · rw [same]
      exact passes_append solid (by simp [newline]) (by simp)
    · rw [same, List.append_assoc]
      exact passes_append solid (by simp [newline, carriageReturn]) (by simp)

private theorem firstWhere_before (found : firstWhere passes before lines = some stop) :
    before.length ≤ stop.before.length ∧ stop.line ∈ lines := by
  induction lines generalizing before with
  | nil => cases found
  | cons line later ih =>
    rw [firstWhere] at found
    split at found
    · cases found
      exact ⟨Nat.le_refl _, List.mem_cons_self⟩
    · obtain ⟨longer, member⟩ := ih found
      rw [List.length_append] at longer
      exact ⟨by omega, List.mem_cons_of_mem _ member⟩

/-- The reading goes on over what does not pass. -/
private theorem firstWhere_over (quiet : ∀ piece ∈ front, passes piece = false) (before : List UInt8)
    (later : List (List UInt8)) :
    firstWhere passes before (front ++ later) = firstWhere passes (before ++ front.flatten) later := by
  induction front generalizing before with
  | nil => simp
  | cons piece front ih =>
    obtain ⟨here, others⟩ := List.forall_mem_cons.mp quiet
    rw [List.cons_append, firstWhere, here, if_neg Bool.false_ne_true, ih others, List.flatten_cons,
      List.append_assoc]

/-- It stops inside what holds a piece that passes. -/
private theorem firstWhere_inside (found : ∃ piece ∈ front, passes piece = true)
    (full : ∀ piece ∈ front, piece ≠ []) (before : List UInt8) (later : List (List UInt8)) :
    ∃ stop, firstWhere passes before (front ++ later) = some stop ∧
      stop.before.length < before.length + front.flatten.length := by
  induction front generalizing before with
  | nil =>
    obtain ⟨piece, member, _⟩ := found
    cases member
  | cons piece front ih =>
    have positive := List.length_pos_iff.mpr (full piece List.mem_cons_self)
    rw [List.cons_append, firstWhere, List.flatten_cons, List.length_append]
    by_cases here : passes piece = true
    · rw [if_pos here]
      exact ⟨_, rfl, by simp only; omega⟩
    · rw [if_neg here]
      have others : ∃ piece ∈ front, passes piece = true := by
        obtain ⟨other, member, passes_⟩ := found
        rcases List.mem_cons.mp member with rfl | behind
        · exact absurd passes_ here
        · exact ⟨other, behind, passes_⟩
      obtain ⟨stop, stops, inside⟩ :=
        ih others (fun other member => full other (List.mem_cons_of_mem _ member)) (before ++ piece)
      rw [List.length_append] at inside
      exact ⟨stop, stops, by omega⟩

/-- No read before the first line that says the delimiter passes for it, and that line
fits the buffer. -/
def Quiet (delimiter : List UInt8) : List (List UInt8) → Prop
  | [] => True
  | line :: later =>
    if saysDelimiter delimiter line then line.length < commandLineBufSize
    else (∀ piece ∈ pieces line, isDelimiter delimiter piece = false) ∧ Quiet delimiter later

/-- The lines up to there. -/
def linesBefore (delimiter : List UInt8) (lines : List (List UInt8)) : List (List UInt8) :=
  lines.takeWhile fun line => !saysDelimiter delimiter line

private theorem stops_iff_quiet (complete : AllComplete lines) (solid : 0 ∉ delimiter) (before : List UInt8) :
    firstWhere (isDelimiter delimiter) before (readsOf lines) =
        firstWhere (saysDelimiter delimiter) before lines ↔ Quiet delimiter lines := by
  induction lines generalizing before with
  | nil => exact iff_of_true rfl trivial
  | cons line later ih =>
    obtain ⟨here, others⟩ := complete
    rw [readsOf, List.flatMap_cons, ← readsOf, firstWhere, Quiet]
    by_cases agrees : saysDelimiter delimiter line = true
    · rw [if_pos agrees, if_pos agrees]
      constructor
      · intro stops
        rcases List.mem_append.mp (firstWhere_before stops).2 with here | behind
        · exact (piece_short here).2
        · obtain ⟨_, _, other⟩ := List.mem_flatMap.mp behind
          exact (piece_short other).2
      · intro short
        rw [pieces_whole here.1 short, List.singleton_append, firstWhere,
          if_pos (agrees_passes here solid agrees), readsOf_flatten]
    · rw [if_neg agrees, if_neg agrees]
      by_cases quiet : ∀ piece ∈ pieces line, isDelimiter delimiter piece = false
      · rw [and_iff_right quiet, firstWhere_over quiet, pieces_flatten]
        exact ih others (before ++ line)
      · refine iff_of_false (fun stops => ?_) fun both => quiet both.1
        have found : ∃ piece ∈ pieces line, isDelimiter delimiter piece = true := by simpa using quiet
        obtain ⟨stop, inside, less⟩ :=
          firstWhere_inside found (fun piece member => (piece_short member).1) before (readsOf later)
        rw [stops] at inside
        have more := (firstWhere_before inside).1
        rw [pieces_flatten] at less
        rw [List.length_append] at more
        omega

/-- What the call has to save is what comes before the delimiter. -/
private theorem saved_of_quiet (complete : AllComplete lines) (solid : 0 ∉ delimiter)
    (quiet : Quiet delimiter lines) :
    (readsOf lines).takeWhile (fun chunk => !isDelimiter delimiter chunk) =
      readsOf (linesBefore delimiter lines) := by
  induction lines with
  | nil => rfl
  | cons line later ih =>
    obtain ⟨here, others⟩ := complete
    rw [Quiet] at quiet
    rw [readsOf, List.flatMap_cons, ← readsOf, linesBefore]
    by_cases agrees : saysDelimiter delimiter line = true
    · rw [if_pos agrees] at quiet
      have passes := agrees_passes here solid agrees
      rw [pieces_whole here.1 quiet, List.singleton_append, List.takeWhile_cons_of_neg (by simp [passes]),
        List.takeWhile_cons_of_neg (by simp [agrees])]
      rfl
    · rw [if_neg agrees] at quiet
      rw [List.takeWhile_append_of_pos fun piece member => by simp [quiet.1 piece member], ih others quiet.2,
        List.takeWhile_cons_of_pos (by simp [agrees])]
      rfl

/-- The context has the delimiter, and the reading stops where it should: at the first
line that says the delimiter, with that line read and nothing behind it, or at the end of
the input. -/
def StopsAtDelimiter (hd : SqHeredoc) (delimiter : List UInt8) (malloc : Nat → Option Nat)
    (stdin : List UInt8) : Prop :=
  hd.delimiter = some delimiter ∧ ∃ arena ∈ hd.arena, stopLoop delimiter malloc stdin.length 0 arena [] stdin =
    some (firstWhere (saysDelimiter delimiter) [] (linesOf stdin))

/-- It does so exactly if the delimiter was copied, no other read before that line passes for
it, the line fits the buffer, and what comes before it can be saved. -/
theorem stops_iff (reached : Reached hd) (solid : 0 ∉ delimiter)
    (answers : ∀ arena ∈ hd.arena, Answers arena.blocks malloc 0) (stdin : List UInt8) :
    StopsAtDelimiter hd delimiter malloc stdin ↔
      hd.delimiter = some delimiter ∧ Quiet delimiter (linesOf stdin) ∧
        ∃ arena ∈ hd.arena, CanSave malloc 0 arena (readsOf (linesBefore delimiter (linesOf stdin))) := by
  have complete := linesOf_complete stdin
  have same : (readsOf (linesOf stdin)).flatten = stdin := by rw [readsOf_flatten, linesOf_flatten]
  have ends (arena : Arena) (there : arena ∈ hd.arena) (stop : Option Stop) :
      stopLoop delimiter malloc stdin.length 0 arena [] stdin = some stop ↔
        CanSave malloc 0 arena
            ((readsOf (linesOf stdin)).takeWhile fun chunk => !isDelimiter delimiter chunk) ∧
          firstWhere (isDelimiter delimiter) [] (readsOf (linesOf stdin)) = stop := by
    conv_lhs => rw [← same]
    exact stopLoop_iff (reached_sound reached arena there) (answers arena there) (lines_read complete)
      (Nat.le_refl _) []
  refine and_congr_right fun _ => ⟨?_, ?_⟩
  · rintro ⟨arena, there, stops⟩
    obtain ⟨saves, where_⟩ := (ends arena there _).mp stops
    have quiet := (stops_iff_quiet complete solid []).mp where_
    rw [saved_of_quiet complete solid quiet] at saves
    exact ⟨quiet, arena, there, saves⟩
  · rintro ⟨quiet, arena, there, saves⟩
    refine ⟨arena, there, (ends arena there _).mpr ⟨?_, (stops_iff_quiet complete solid []).mpr quiet⟩⟩
    rwa [saved_of_quiet complete solid quiet]

/-- A line, the delimiter `EOF` and one more byte. -/
theorem delimiter_line_stops :
    let stdin := [97, newline, 69, 79, 70, newline, 98]
    StopsAtDelimiter fresh [69, 79, 70] (fun _ => none) stdin ∧ Quiet [69, 79, 70] (linesOf stdin) := by
  intro stdin
  have first : firstWhere (saysDelimiter [69, 79, 70]) [] (linesOf stdin) =
      some ⟨[97, newline], [69, 79, 70, newline], [98]⟩ := rfl
  have runs : ∀ arena ∈ fresh.arena,
      stopLoop [69, 79, 70] (fun _ => none) 7 0 arena [] [97, newline, 69, 79, 70, newline, 98] =
        some (some ⟨[97, newline], [69, 79, 70, newline], [98]⟩) := by
    rintro arena ⟨⟩
    rfl
  have stops : StopsAtDelimiter fresh [69, 79, 70] (fun _ => none) stdin := by
    rw [StopsAtDelimiter, first]
    exact ⟨rfl, _, rfl, runs _ rfl⟩
  refine ⟨stops, ((stops_iff fresh_reached (by simp) ?_ stdin).mp stops).2.1⟩
  rintro _ _ _ _ _ ⟨⟩

/-- The line `EOF`, a carriage return and an `x` ends the reading. -/
theorem return_inside_stops :
    let line := [69, 79, 70, carriageReturn, 120, newline]
    (∀ arena ∈ fresh.arena, stopLoop [69, 79, 70] (fun _ => none) line.length 0 arena [] line =
        some (some ⟨[], line, []⟩)) ∧
      ¬ StopsAtDelimiter fresh [69, 79, 70] (fun _ => none) line := by
  intro line
  have stops : ∀ arena ∈ fresh.arena, stopLoop [69, 79, 70] (fun _ => none) line.length 0 arena [] line =
      some (some ⟨[], line, []⟩) := by
    rintro arena ⟨⟩
    rfl
  refine ⟨stops, ?_⟩
  rintro ⟨_, arena, there, other⟩
  cases (stops arena there).symm.trans other

end ShapeQuake.HeredocDelimiter
