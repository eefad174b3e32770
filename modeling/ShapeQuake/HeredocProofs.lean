import ShapeQuake.AllocatorInvariants
import ShapeQuake.Heredoc

/-! What `sq_heredoc_read_all` gives back. A line takes a whole number of units of
sixteen bytes in the arena, and the flattening copies the units, while the size of
the buffer and the place of its null count the bytes of the lines. -/
namespace ShapeQuake.HeredocProofs
open Library.Bytes Allocator AllocatorInvariants Heredoc
open ShellCore (commandLineBufSize)

/-! ## The arena of a context -/

/-- What the blocks have handed out, in the order of the chain. -/
def heldBy (blocks : Blocks) : List UInt8 :=
  blocks.chain.flatMap fun block => readBytes block.data 0 block.offset

/-- The bytes left behind what `current` has handed out. -/
def space (arena : Arena) : Nat := commandLineBufSize - arena.blocks.current.offset

/-- Where the blocks are. -/
def places (blocks : Blocks) : List Nat := blocks.chain.map ArenaBlock.address

/-- Blocks of one size at different places, the last of them in use. -/
structure Lined (blocks : Blocks) : Prop where
  last : blocks.after = []
  sized : ∀ block ∈ blocks.chain, block.capacity = commandLineBufSize ∧
    block.offset ≤ commandLineBufSize ∧ 16 ∣ block.offset
  once : (places blocks).Nodup

/-- The arena of a context between two lines. Its lock is lost only where a line
did not fit, so behind something it holds. -/
structure Sound (arena : Arena) (total : Nat) : Prop where
  lined : Lined arena.blocks
  unit : arena.blockSize = commandLineBufSize
  covered : total ≤ (heldBy arena.blocks).length
  locked : arena.mutex = true → heldBy arena.blocks ≠ []

/-- From this turn on `malloc` answers with places where there is no block, and
with each of them once. -/
def Answers (blocks : Blocks) (malloc : Nat → Option Nat) (from_ : Nat) : Prop :=
  ∀ turn address, from_ ≤ turn → malloc turn = some address → address ∉ places blocks ∧
    ∀ other, from_ ≤ other → malloc other = some address → other = turn

theorem align_small (short : size < commandLineBufSize) :
    size ≤ align size ∧ align size ≤ commandLineBufSize ∧ (align size = size ↔ 16 ∣ size) := by
  rw [commandLineBufSize] at short
  rw [align, roundUp16_eq, wrap64_of_lt (by omega), commandLineBufSize]
  omega

/-- What a line that is saved does to the arena. -/
structure Saves (arena : Arena) (total : Nat) (text : List UInt8) (malloc : Option Nat)
    (after : Arena) : Prop where
  sound : Sound after (total + text.length)
  unlocked : after.mutex = false
  longer : (heldBy after.blocks).length = (heldBy arena.blocks).length + align text.length
  content : 16 ∣ text.length → heldBy after.blocks = heldBy arena.blocks ++ text
  left : space after =
    (if align text.length ≤ space arena then space arena else commandLineBufSize) - align text.length
  places : ∀ address ∈ places after.blocks, address ∈ places arena.blocks ∨ malloc = some address

/-- What a line that is refused does to it. -/
structure Refuses (arena : Arena) (total : Nat) (after : Arena) : Prop where
  sound : Sound after total
  locked : after.mutex = true
  same : heldBy after.blocks = heldBy arena.blocks
  places : places after.blocks = places arena.blocks

/-- Handing out room in the last block and storing the line there. -/
private theorem stored_last {base : Blocks} (lined : Lined base) (text : List UInt8)
    (fits : base.current.offset + align text.length ≤ commandLineBufSize)
    (short : text.length < commandLineBufSize) (arena : Arena)
    (bumped : arena.blocks = { base with
      current := { base.current with offset := base.current.offset + align text.length } }) :
    Lined (arena.write ⟨base.current.address, base.current.offset⟩ text).blocks ∧
      (heldBy (arena.write ⟨base.current.address, base.current.offset⟩ text).blocks).length =
        (heldBy base).length + align text.length ∧
      (16 ∣ text.length →
        heldBy (arena.write ⟨base.current.address, base.current.offset⟩ text).blocks =
          heldBy base ++ text) ∧
      (arena.write ⟨base.current.address, base.current.offset⟩ text).blocks.current.offset =
        base.current.offset + align text.length ∧
      places (arena.write ⟨base.current.address, base.current.offset⟩ text).blocks = places base := by
  obtain ⟨before, current, after⟩ := base
  obtain rfl : after = [] := lined.last
  have same : places arena.blocks = places ⟨before, current, []⟩ := by
    rw [bumped]
    simp [places, Blocks.chain]
  have written : (arena.write ⟨current.address, current.offset⟩ text).blocks =
      ⟨before, { current with
        offset := current.offset + align text.length
        data := writeBytes current.data current.offset text }, []⟩ := by
    have stored := write_current (same ▸ lined.once : (places arena.blocks).Nodup) current.offset text
    rw [bumped] at stored
    exact stored
  rw [written]
  have held : ∀ blocks : Blocks, blocks.after = [] → heldBy blocks =
      (blocks.before.flatMap fun block => readBytes block.data 0 block.offset) ++
        readBytes blocks.current.data 0 blocks.current.offset := by
    intro blocks none_
    simp [heldBy, Blocks.chain, none_]
  refine ⟨⟨rfl, ?_, ?_⟩, ?_, fun whole => ?_, rfl, ?_⟩
  · intro block member
    simp only [chain_mk, List.mem_append, List.mem_singleton] at member
    rcases member with old | rfl
    · exact lined.sized block (by simp [Blocks.chain, old])
    · obtain ⟨capacity, _, handed⟩ := lined.sized current (current_mem_chain _)
      exact ⟨capacity, fits, Nat.dvd_add handed (align_dvd _)⟩
  · simpa [places, Blocks.chain] using lined.once
  · rw [held _ rfl, held _ rfl]
    simp only [List.length_append, readBytes_length]
    omega
  · have exact_ := (align_small short).2.2.mpr whole
    rw [held _ rfl, held _ rfl]
    simp only [exact_, readBytes_writeBytes_end, List.append_assoc]
  · simp [places, Blocks.chain]

/-- Wherever the room was found, at the end of the last block the line is saved. -/
private theorem saves_last {base : Blocks} (sound : Sound arena total) (unlocked : arena.mutex = false)
    (lined : Lined base) (short : text.length < commandLineBufSize)
    (fits : base.current.offset + align text.length ≤ commandLineBufSize)
    (held : heldBy base = heldBy arena.blocks)
    (left : commandLineBufSize - base.current.offset =
      if align text.length ≤ space arena then space arena else commandLineBufSize)
    (where_ : ∀ address ∈ places base, address ∈ places arena.blocks ∨ malloc = some address) :
    Saves arena total text malloc
      (Arena.write { arena with
        blocks := { base with
          current := { base.current with offset := base.current.offset + align text.length } }
        isReset := false } ⟨base.current.address, base.current.offset⟩ text) := by
  obtain ⟨enough, _, _⟩ := align_small short
  obtain ⟨linedAfter, longer, content, offset, same⟩ := stored_last lined text fits short
    { arena with
      blocks := { base with
        current := { base.current with offset := base.current.offset + align text.length } }
      isReset := false } rfl
  rw [held] at longer content
  refine ⟨⟨linedAfter, sound.unit, ?_, ?_⟩, unlocked, longer, content, ?_, ?_⟩
  · rw [longer]
    exact Nat.add_le_add sound.covered enough
  · exact fun locked => absurd (unlocked.symm.trans locked) Bool.false_ne_true
  · rw [space, offset, Nat.sub_add_eq, left]
  · rw [same]
    exact where_

/-- A fresh block behind the last one. -/
private theorem lined_added {before : List ArenaBlock} (lined : Lined ⟨before, current, []⟩)
    (new : address ∉ places ⟨before, current, []⟩) (id : Nat) (prev : Option Nat) :
    Lined ⟨before ++ [current], ⟨address, id, false, prev, 0, commandLineBufSize, zeros⟩, []⟩ := by
  refine ⟨rfl, fun block member => ?_, ?_⟩
  · simp only [chain_mk, List.mem_append, List.mem_singleton] at member
    rcases member with old | rfl
    · exact lined.sized block (by simpa [Blocks.chain] using old)
    · exact ⟨rfl, Nat.zero_le _, Nat.dvd_zero 16⟩
  · have apart : (places ⟨before, current, []⟩ ++ [address]).Nodup :=
      List.nodup_append.mpr ⟨lined.once, List.nodup_singleton _, by
        rintro held member other last rfl
        exact new (List.mem_singleton.mp last ▸ member)⟩
    simpa [places, Blocks.chain] using apart

/-- The first line fits into an empty block, so one that does not fit follows others. -/
private theorem held_of_crowded {before : List ArenaBlock} {text : List UInt8}
    (short : text.length < commandLineBufSize)
    (crowded : ¬ align text.length ≤ commandLineBufSize - current.offset) :
    heldBy ⟨before, current, []⟩ ≠ [] := by
  obtain ⟨_, unitFits, _⟩ := align_small short
  intro nothing
  have none_ := congrArg List.length nothing
  simp only [heldBy, Blocks.chain, List.flatMap_append, List.flatMap_cons, List.length_append,
    readBytes_length, List.length_nil] at none_
  omega

/-- An unlocked arena saves a line, or it has no room and there is no memory. -/
theorem save_cases (sound : Sound arena total) (unlocked : arena.mutex = false)
    (short : text.length < commandLineBufSize)
    (free : ∀ address, malloc = some address → address ∉ places arena.blocks) :
    (∃ after saved, arenaAlloc arena text.length malloc = some (after, some saved) ∧
      Saves arena total text malloc (after.write saved text) ∧
      (align text.length ≤ space arena ∨ malloc ≠ none)) ∨
    (∃ after, arenaAlloc arena text.length malloc = some (after, none) ∧
      Refuses arena total after ∧ space arena < align text.length ∧ malloc = none) := by
  have lined := sound.lined
  obtain ⟨mutex, ⟨before, current, behind⟩, blockSize, fd, db, reset⟩ := arena
  obtain rfl : behind = [] := lined.last
  obtain rfl : blockSize = commandLineBufSize := sound.unit
  obtain rfl : mutex = false := unlocked
  obtain ⟨capacity, within, _⟩ := lined.sized current (current_mem_chain _)
  obtain ⟨_, unitFits, _⟩ := align_small short
  have noWrap : wrap64 (current.offset + align text.length) = current.offset + align text.length :=
    wrap64_of_lt (by rw [commandLineBufSize] at *; omega)
  have ran : arenaAlloc ⟨false, ⟨before, current, []⟩, commandLineBufSize, fd, db, reset⟩ text.length
      malloc =
      arenaAllocateRaw ⟨false, ⟨before, current, []⟩, commandLineBufSize, fd, db, reset⟩ text.length
        malloc := rfl
  rw [ran, arenaAllocateRaw]
  by_cases fits : current.offset + align text.length ≤ commandLineBufSize
  · left
    have here : ¬ current.offset + align text.length > current.capacity := by
      rw [capacity]
      omega
    have roomy : align text.length ≤ commandLineBufSize - current.offset := by omega
    simp only [Bool.false_eq_true, if_false, findRoom, if_neg here, noWrap]
    refine ⟨_, _, rfl, saves_last sound rfl lined short fits rfl (if_pos roomy).symm ?_, .inl roomy⟩
    exact fun _ member => .inl member
  · have beyond : wrap64 (current.offset + align text.length) > current.capacity := by
      rw [noWrap, capacity]
      omega
    have crowded : ¬ align text.length ≤ commandLineBufSize - current.offset := by omega
    have one : (if align text.length > commandLineBufSize then align text.length else commandLineBufSize) =
        commandLineBufSize := if_neg (by omega)
    simp only [Bool.false_eq_true, if_false, findRoom, if_pos beyond, one]
    cases malloc with
    | none =>
      right
      refine ⟨_, rfl, ⟨⟨lined, rfl, sound.covered, fun _ => ?_⟩, rfl, rfl, rfl⟩, ?_, rfl⟩
      · exact held_of_crowded short crowded
      · exact Nat.not_le.mp crowded
    | some address =>
      left
      have unit : align commandLineBufSize = commandLineBufSize := by decide
      have empty : wrap64 (0 + align text.length) = 0 + align text.length :=
        wrap64_of_lt (by rw [commandLineBufSize] at *; omega)
      simp only [arenaNewBlock, Option.map_some, unit, empty]
      have added := lined_added lined (free address rfl)
      refine ⟨_, _, rfl, saves_last sound rfl (added _ _) short ?_ ?_ ?_ ?_, .inr (by simp)⟩
      · simpa using unitFits
      · simp [heldBy, Blocks.chain, readBytes]
      · exact (if_neg crowded).symm
      · intro other member
        simp only [places, chain_mk, List.map_append, List.mem_append, List.map_cons, List.map_nil,
          List.mem_singleton] at member
        rcases member with (old | old) | rfl
        · exact .inl (by simp only [places, chain_mk, List.map_append, List.mem_append]; exact .inl old)
        · exact .inl (by simp [places, Blocks.chain, old])
        · exact .inr rfl

/-! ## Lines -/

/-- A line of the input: no null, and a newline at its end only. -/
def IsLine (line : List UInt8) : Prop :=
  ∃ body, line = body ++ [newline] ∧ newline ∉ body ∧ 0 ∉ body

/-- The lines come before the delimiter, or before the end of the input. -/
structure Precede (delimiter : List UInt8) (lines : List (List UInt8)) (tail : List UInt8) : Prop where
  lines : ∀ line ∈ lines, IsLine line ∧ isDelimiter delimiter line = false
  ended : tail = [] ∨ ∃ line rest, fgets commandLineBufSize tail = some (line, rest) ∧
    isDelimiter delimiter line = true

private theorem throughNewline_body (body rest : List UInt8) (inside : newline ∉ body) :
    throughNewline (body ++ rest) = body ++ throughNewline rest := by
  induction body with
  | nil => rfl
  | cons byte body ih =>
    rw [List.mem_cons, not_or] at inside
    rw [List.cons_append, throughNewline, if_neg (Ne.symm inside.1), ih inside.2, List.cons_append]

private theorem throughNewline_starts (bytes : List UInt8) : throughNewline bytes <+: bytes := by
  induction bytes with
  | nil => exact List.prefix_refl _
  | cons byte rest ih =>
    rw [throughNewline]
    split
    · exact ⟨rest, rfl⟩
    · exact List.cons_prefix_cons.mpr ⟨rfl, ih⟩

private theorem throughNewline_take (bytes : List UInt8) (count : Nat) :
    throughNewline (bytes.take count) = (throughNewline bytes).take count := by
  induction bytes generalizing count with
  | nil => simp [throughNewline]
  | cons byte rest ih =>
    cases count with
    | zero => simp [throughNewline]
    | succ count =>
      rw [List.take_succ_cons, throughNewline, throughNewline]
      split
      · simp
      · rw [ih, List.take_succ_cons]

/-- The first line of what is to be read, with its newline if there is one. -/
def Complete (line rest : List UInt8) : Prop := line ≠ [] ∧ throughNewline (line ++ rest) = line

/-- A call reads a line, or as much of it as the buffer takes. -/
theorem fgets_complete (complete : Complete line rest) :
    fgets commandLineBufSize (line ++ rest) =
      some (line.take (commandLineBufSize - 1), line.drop (commandLineBufSize - 1) ++ rest) := by
  obtain ⟨full, through⟩ := complete
  have some_ : ¬ line ++ rest = [] := by simp [full]
  simp only [fgets, if_neg some_, throughNewline_take, through, Option.some.injEq, Prod.mk.injEq, true_and]
  rw [List.length_take, List.drop_append_of_le_length (Nat.min_le_right _ _)]
  rcases Nat.le_total (commandLineBufSize - 1) line.length with long | short
  · rw [Nat.min_eq_left long]
  · rw [Nat.min_eq_right short, List.drop_length, List.drop_eq_nil_of_le short]

theorem fgets_line (line : IsLine whole) (rest : List UInt8) :
    fgets commandLineBufSize (whole ++ rest) =
      some (whole.take (commandLineBufSize - 1), whole.drop (commandLineBufSize - 1) ++ rest) := by
  obtain ⟨body, rfl, inside, _⟩ := line
  apply fgets_complete
  refine ⟨by simp, ?_⟩
  rw [List.append_assoc, throughNewline_body _ _ inside]
  simp [throughNewline]

theorem fgets_short (read : fgets commandLineBufSize stdin = some (line, rest)) :
    line.length < commandLineBufSize := by
  unfold fgets at read
  split at read
  · cases read
  · cases read
    have inside := (throughNewline_starts (stdin.take (commandLineBufSize - 1))).length_le
    rw [List.length_take] at inside
    have positive : 0 < commandLineBufSize := by decide
    omega

theorem untilNull_length (bytes : List UInt8) : (untilNull bytes).length ≤ bytes.length :=
  (List.takeWhile_sublist _).length_le

/-! ## The reading loop -/

theorem answers_later {blocks : Blocks} (answers : Answers before malloc turn)
    (places_ : ∀ address ∈ places blocks, address ∈ places before ∨ malloc turn = some address) :
    Answers blocks malloc (turn + 1) := by
  intro later address behind answered
  obtain ⟨fresh, once⟩ := answers later address (Nat.le_of_succ_le behind) answered
  refine ⟨fun member => ?_, fun other after => once other (Nat.le_of_succ_le after)⟩
  rcases places_ address member with old | taken
  · exact fresh old
  · have same := once turn (Nat.le_refl _) taken
    omega

/-- Whatever is read, the arena stays sound and never gets closer to the bytes that
are counted; once its lock is lost nothing changes. -/
theorem read_keeps (sound : Sound arena total) (answers : Answers arena.blocks malloc turn)
    (ran : readLoop delimiter malloc turns turn arena total stdin = some (after, totalAfter, rest)) :
    Sound after totalAfter ∧
      (heldBy arena.blocks).length + totalAfter ≤ (heldBy after.blocks).length + total ∧
      (arena.mutex = true → after = arena ∧ totalAfter = total) := by
  induction turns generalizing turn arena total stdin with
  | zero =>
    cases ran
    exact ⟨sound, Nat.le_refl _, fun _ => ⟨rfl, rfl⟩⟩
  | succ turns ih =>
    simp only [readLoop] at ran
    split at ran
    · cases ran
      exact ⟨sound, Nat.le_refl _, fun _ => ⟨rfl, rfl⟩⟩
    · rename_i line left read
      split at ran
      · cases ran
        exact ⟨sound, Nat.le_refl _, fun _ => ⟨rfl, rfl⟩⟩
      · have short := Nat.lt_of_le_of_lt (untilNull_length line) (fgets_short read)
        cases locked : arena.mutex with
        | true =>
          simp [arenaAlloc, arenaAllocateRaw, locked] at ran
        | false =>
          rcases save_cases sound locked short fun address answered =>
              (answers turn address (Nat.le_refl _) answered).1 with
            ⟨saved, pointer, allocated, saves, _⟩ | ⟨refused, allocated, refuses, _⟩
          · rw [allocated] at ran
            obtain ⟨soundAfter, closer, _⟩ := ih saves.sound (answers_later answers saves.places) ran
            refine ⟨soundAfter, ?_, by simp⟩
            have longer := saves.longer
            have enough := (align_small short).1
            omega
          · rw [allocated] at ran
            have same : Answers refused.blocks malloc (turn + 1) :=
              answers_later answers fun address member => .inl (refuses.places ▸ member)
            obtain ⟨soundAfter, closer, _⟩ := ih refuses.sound same ran
            rw [refuses.same] at closer
            exact ⟨soundAfter, closer, by simp⟩

/-- A line that takes whole units. -/
def Whole (line : List UInt8) : Prop := 16 ∣ line.length ∧ line.length < commandLineBufSize

/-- There is memory for each block that lines of whole units need, with so much
room left in the last one. -/
def Provided (malloc : Nat → Option Nat) : Nat → Nat → List (List UInt8) → Prop
  | _, _, [] => True
  | room, turn, line :: rest =>
    if line.length ≤ room then Provided malloc (room - line.length) (turn + 1) rest
    else malloc turn ≠ none ∧ Provided malloc (commandLineBufSize - line.length) (turn + 1) rest

/-- What the first call reads of a line. -/
def chunk (line : List UInt8) : List UInt8 := line.take (commandLineBufSize - 1)

/-- What later calls read of it. -/
def behind (line : List UInt8) : List UInt8 := line.drop (commandLineBufSize - 1)

/-- Nothing more can be read: the input is over, or the delimiter comes next. -/
def Stops (delimiter stdin : List UInt8) : Prop :=
  ∀ line rest, fgets commandLineBufSize stdin = some (line, rest) → isDelimiter delimiter line = true

/-- The loop ends at this line: what is read of it first passes for the delimiter,
or is refused memory and nothing can be read behind that. -/
def Halts (delimiter line more : List UInt8) (granted : Prop) : Prop :=
  isDelimiter delimiter (chunk line) = true ∨ ¬ granted ∧ Stops delimiter (behind line ++ more)

section
variable {delimiter tail : List UInt8} {lines earlier more : List (List UInt8)}

private theorem line_pos (line : IsLine whole) : 0 < whole.length := by
  obtain ⟨body, rfl, _⟩ := line
  simp

/-- The text a turn saves of a line. -/
private theorem untilNull_line (line : IsLine whole) (count : Nat) :
    untilNull (whole.take count) = whole.take count := by
  obtain ⟨body, rfl, _, solid⟩ := line
  refine untilNull_of_solid fun null => ?_
  have member := List.mem_of_mem_take null
  rcases List.mem_append.mp member with inside | last
  · exact solid inside
  · exact absurd (List.mem_singleton.mp last) (by decide)

private theorem stops_tail (precede : Precede delimiter [] tail) : Stops delimiter tail := by
  rintro line rest read
  rcases precede.ended with rfl | ⟨last, left, same, ends⟩
  · cases read
  · cases read.symm.trans same
    exact ends

private theorem loop_stops (stops : Stops delimiter stdin) (malloc : Nat → Option Nat)
    (turns turn : Nat) (arena : Arena) (total : Nat) :
    ∃ rest, readLoop delimiter malloc turns turn arena total stdin = some (arena, total, rest) := by
  cases turns with
  | zero => exact ⟨stdin, rfl⟩
  | succ turns =>
    cases read : fgets commandLineBufSize stdin with
    | none => exact ⟨stdin, by simp only [readLoop, read]⟩
    | some both =>
      refine ⟨both.2, ?_⟩
      simp only [readLoop, read, stops both.1 both.2 read, if_true]

/-- A loop that starts with the lock lost ends only where there is nothing to read. -/
private theorem locked_stops (locked : arena.mutex = true) (enough : stdin.length ≤ turns)
    (ran : readLoop delimiter malloc turns turn arena total stdin = some result) :
    Stops delimiter stdin := by
  rintro line rest read
  cases turns with
  | zero =>
    obtain rfl := List.length_eq_zero_iff.mp (Nat.le_zero.mp enough)
    cases read
  | succ turns =>
    cases ends : isDelimiter delimiter line with
    | true => rfl
    | false =>
      simp [readLoop, read, ends, arenaAlloc, arenaAllocateRaw, locked] at ran

/-- One turn of the loop, at a line. -/
private theorem loop_line (isLine : IsLine line) (other : isDelimiter delimiter (chunk line) = false)
    (malloc : Nat → Option Nat) (turns turn : Nat) (arena : Arena) (total : Nat) (rest : List UInt8) :
    readLoop delimiter malloc (turns + 1) turn arena total (line ++ rest) =
      match arenaAlloc arena (chunk line).length (malloc turn) with
      | none => none
      | some (arena, none) => readLoop delimiter malloc turns (turn + 1) arena total (behind line ++ rest)
      | some (arena, some saved) => readLoop delimiter malloc turns (turn + 1)
          (arena.write saved (chunk line)) (total + (chunk line).length) (behind line ++ rest) := by
  rw [chunk] at other
  simp only [readLoop, fgets_line isLine, other, Bool.false_eq_true, if_false, untilNull_line isLine]
  rfl

private theorem precede_rest (precede : Precede delimiter (line :: lines) tail) :
    Precede delimiter lines tail :=
  ⟨fun later member => precede.lines later (List.mem_cons_of_mem _ member), precede.ended⟩

/-- There is a turn for each byte, so one more for a line, and then still enough. -/
private theorem turn_left (isLine : IsLine line) (enough : (line ++ rest).length ≤ turns) :
    ∃ left, turns = left + 1 ∧ (behind line ++ rest).length ≤ left := by
  have positive := line_pos isLine
  simp only [behind, List.length_append, List.length_drop] at enough ⊢
  rw [commandLineBufSize]
  exact ⟨turns - 1, by omega, by omega⟩

private theorem whole_chunk (whole : Whole line) : chunk line = line ∧ behind line = [] := by
  have size := whole.2
  rw [chunk, behind]
  rw [commandLineBufSize] at *
  exact ⟨List.take_of_length_le (by omega), List.drop_eq_nil_of_le (by omega)⟩

private theorem chunk_short (line : List UInt8) : (chunk line).length < commandLineBufSize := by
  rw [chunk, List.length_take, commandLineBufSize]
  omega

private theorem flatten_cons_append (line : List UInt8) (lines : List (List UInt8)) (tail : List UInt8) :
    (line :: lines).flatten ++ tail = line ++ (lines.flatten ++ tail) := by
  rw [List.flatten_cons, List.append_assoc]

/-- Room for a line of whole units is what `Provided` takes it for. -/
private theorem provided_cons {arena after : Arena} (lines : List (List UInt8)) (whole : Whole line)
    (left : space after =
      (if align line.length ≤ space arena then space arena else commandLineBufSize) - align line.length)
    (granted : align line.length ≤ space arena ∨ malloc turn ≠ none) :
    Provided malloc (space arena) turn (line :: lines) ↔
      Provided malloc (space after) (turn + 1) lines := by
  rw [(align_small whole.2).2.2.mpr whole.1] at left granted
  rw [Provided, left]
  by_cases fits : line.length ≤ space arena
  · rw [if_pos fits, if_pos fits]
  · rw [if_neg fits, if_neg fits]
    exact and_iff_right (granted.resolve_left fits)

/-- The room left is a whole number of units, so a line has it if its units do. -/
private theorem provided_single (sound : Sound arena total) (short : text.length < commandLineBufSize) :
    Provided malloc (space arena) turn [text] ↔ align text.length ≤ space arena ∨ malloc turn ≠ none := by
  obtain ⟨_, within, handed⟩ := sound.lined.sized _ (current_mem_chain _)
  have units : text.length ≤ space arena ↔ align text.length ≤ space arena := by
    rw [align, roundUp16_eq, wrap64_of_lt (by rw [commandLineBufSize] at short; omega), space]
    rw [commandLineBufSize] at *
    omega
  rw [Provided, ← units]
  by_cases fits : text.length ≤ space arena
  · simp [fits, Provided]
  · simp [fits, Provided]

/-- Lines of whole units that are given memory are held as they are, and the loop
goes on behind them. -/
theorem whole_read (sound : Sound arena total) (unlocked : arena.mutex = false)
    (answers : Answers arena.blocks malloc turn) (precede : Precede delimiter (earlier ++ more) tail)
    (whole : ∀ line ∈ earlier, Whole line) (provided : Provided malloc (space arena) turn earlier)
    (enough : ((earlier ++ more).flatten ++ tail).length ≤ turns) :
    ∃ after left, Sound after (total + earlier.flatten.length) ∧ after.mutex = false ∧
      Answers after.blocks malloc (turn + earlier.length) ∧
      (more.flatten ++ tail).length ≤ left ∧
      readLoop delimiter malloc turns turn arena total ((earlier ++ more).flatten ++ tail) =
        readLoop delimiter malloc left (turn + earlier.length) after (total + earlier.flatten.length)
          (more.flatten ++ tail) ∧
      heldBy after.blocks = heldBy arena.blocks ++ earlier.flatten ∧
      ∀ later, Provided malloc (space arena) turn (earlier ++ later) ↔
        Provided malloc (space after) (turn + earlier.length) later := by
  induction earlier generalizing turns turn arena total with
  | nil =>
    exact ⟨arena, turns, sound, unlocked, answers, enough, rfl, by simp, fun later => Iff.rfl⟩
  | cons line earlier ih =>
    obtain ⟨here, others⟩ := List.forall_mem_cons.mp whole
    obtain ⟨taken, dropped⟩ := whole_chunk here
    rw [List.cons_append] at precede
    rw [List.cons_append, flatten_cons_append] at enough ⊢
    obtain ⟨isLine, other⟩ := precede.lines line List.mem_cons_self
    obtain ⟨turns, rfl, fewer⟩ := turn_left isLine enough
    rw [dropped, List.nil_append] at fewer
    rw [loop_line isLine (taken.symm ▸ other), taken, dropped, List.nil_append]
    rcases save_cases sound unlocked here.2 fun address answered =>
        (answers turn address (Nat.le_refl _) answered).1 with
      ⟨saved, pointer, allocated, saves, granted⟩ | ⟨_, _, _, crowded, refused⟩
    · rw [allocated]
      rw [provided_cons _ here saves.left granted] at provided
      obtain ⟨after, left, soundAfter, unlockedAfter, answersAfter, turnsLeft, ran, held, same⟩ :=
        ih saves.sound saves.unlocked (answers_later answers saves.places) (precede_rest precede)
          others provided fewer
      have bytes : total + line.length + earlier.flatten.length =
          total + (line :: earlier).flatten.length := by
        rw [List.flatten_cons, List.length_append, Nat.add_assoc]
      have count : turn + 1 + earlier.length = turn + (line :: earlier).length := by
        rw [List.length_cons, Nat.add_assoc, Nat.add_comm 1]
      rw [bytes] at soundAfter ran
      rw [count] at answersAfter ran
      refine ⟨after, left, soundAfter, unlockedAfter, answersAfter, turnsLeft, ran, ?_, fun later => ?_⟩
      · rw [held, saves.content here.1, List.append_assoc, List.flatten_cons]
      · rw [List.cons_append, provided_cons _ here saves.left granted, ← count]
        exact same later
    · rw [(align_small here.2).2.2.mpr here.1] at crowded
      rw [Provided, if_neg (Nat.not_le.mpr crowded)] at provided
      exact absurd refused provided.1

/-- A line that passes for the delimiter, or is lost with the lock, leaves what is
held, and the loop ends only if it ends there. -/
theorem halted_read (sound : Sound arena total) (unlocked : arena.mutex = false)
    (answers : Answers arena.blocks malloc turn) (isLine : IsLine line)
    (unsaved : isDelimiter delimiter (chunk line) = true ∨
      ¬ Provided malloc (space arena) turn [chunk line])
    (enough : (line ++ rest).length ≤ turns) :
    ∃ after, heldBy after.blocks = heldBy arena.blocks ∧
      (∀ result, readLoop delimiter malloc turns turn arena total (line ++ rest) = some result →
        Halts delimiter line rest (Provided malloc (space arena) turn [chunk line])) ∧
      (Halts delimiter line rest (Provided malloc (space arena) turn [chunk line]) →
        ∃ left, readLoop delimiter malloc turns turn arena total (line ++ rest) =
          some (after, total, left)) := by
  obtain ⟨turns, rfl, fewer⟩ := turn_left isLine enough
  cases passes : isDelimiter delimiter (chunk line) with
  | true =>
    refine ⟨arena, rfl, fun _ _ => .inl passes, fun _ => ⟨behind line ++ rest, ?_⟩⟩
    rw [chunk] at passes
    simp only [readLoop, fgets_line isLine, passes, if_true, behind]
  | false =>
    have refused := unsaved.resolve_left (passes ▸ Bool.false_ne_true)
    have denied := refused
    rw [provided_single sound (chunk_short line)] at denied
    rcases save_cases sound unlocked (chunk_short line) fun address answered =>
        (answers turn address (Nat.le_refl _) answered).1 with
      ⟨_, _, _, _, granted⟩ | ⟨after, allocated, refuses, _⟩
    · exact absurd granted denied
    · refine ⟨after, refuses.same, fun result ran => .inr ⟨refused, ?_⟩, fun halts => ?_⟩
      · rw [loop_line isLine passes, allocated] at ran
        exact locked_stops refuses.locked fewer ran
      · rw [loop_line isLine passes, allocated]
        have stops := (halts.resolve_left (passes ▸ Bool.false_ne_true)).2
        exact loop_stops stops malloc turns (turn + 1) after total

/-- All the lines, where none is refused memory. -/
theorem whole_ended (sound : Sound arena total) (unlocked : arena.mutex = false)
    (answers : Answers arena.blocks malloc turn) (precede : Precede delimiter lines tail)
    (whole : ∀ line ∈ lines, Whole line) (provided : Provided malloc (space arena) turn lines)
    (enough : (lines.flatten ++ tail).length ≤ turns) :
    ∃ after rest, readLoop delimiter malloc turns turn arena total (lines.flatten ++ tail) =
        some (after, total + lines.flatten.length, rest) ∧
      heldBy after.blocks = heldBy arena.blocks ++ lines.flatten := by
  rw [← List.append_nil lines] at precede enough
  obtain ⟨after, left, _, _, _, _, ran, held, _⟩ :=
    whole_read sound unlocked answers precede whole provided enough
  obtain ⟨rest, ended⟩ := loop_stops (stops_tail ⟨nofun, precede.ended⟩) malloc left
    (turn + lines.length) after (total + lines.flatten.length)
  rw [List.append_nil] at ran
  exact ⟨after, rest, ran.trans ended, held⟩

/-- The lines up to one that is not saved. -/
theorem halted_ended (sound : Sound arena total) (unlocked : arena.mutex = false)
    (answers : Answers arena.blocks malloc turn)
    (precede : Precede delimiter (earlier ++ line :: more) tail)
    (whole : ∀ line ∈ earlier, Whole line) (provided : Provided malloc (space arena) turn earlier)
    (unsaved : isDelimiter delimiter (chunk line) = true ∨
      ¬ Provided malloc (space arena) turn (earlier ++ [chunk line]))
    (enough : ((earlier ++ line :: more).flatten ++ tail).length ≤ turns) :
    ∃ after, heldBy after.blocks = heldBy arena.blocks ++ earlier.flatten ∧
      (∀ result, readLoop delimiter malloc turns turn arena total
          ((earlier ++ line :: more).flatten ++ tail) = some result →
        Halts delimiter line (more.flatten ++ tail)
          (Provided malloc (space arena) turn (earlier ++ [chunk line]))) ∧
      (Halts delimiter line (more.flatten ++ tail)
          (Provided malloc (space arena) turn (earlier ++ [chunk line])) →
        ∃ rest, readLoop delimiter malloc turns turn arena total
            ((earlier ++ line :: more).flatten ++ tail) =
          some (after, total + earlier.flatten.length, rest)) := by
  obtain ⟨before, left, soundBefore, unlockedBefore, answersBefore, turnsLeft, ran, heldBefore, same⟩ :=
    whole_read sound unlocked answers precede whole provided enough
  have isLine := (precede.lines line (List.mem_append_right _ List.mem_cons_self)).1
  rw [flatten_cons_append] at turnsLeft ran
  rw [ran]
  rw [same] at unsaved ⊢
  obtain ⟨after, held, only, ended⟩ :=
    halted_read soundBefore unlockedBefore answersBefore isLine unsaved turnsLeft
  exact ⟨after, held.trans heldBefore, only, ended⟩

/-- Where no byte more is held than counted, the lines took whole units and all of
them are held, or all before one that is not saved. -/
theorem whole_of_exact (sound : Sound arena total) (unlocked : arena.mutex = false)
    (answers : Answers arena.blocks malloc turn) (precede : Precede delimiter lines tail)
    (enough : (lines.flatten ++ tail).length ≤ turns)
    (ran : readLoop delimiter malloc turns turn arena total (lines.flatten ++ tail) =
      some (after, totalAfter, rest))
    (exact_ : (heldBy after.blocks).length = totalAfter) :
    (∀ line ∈ lines, Whole line) ∧ Provided malloc (space arena) turn lines ∨
      ∃ earlier line more, lines = earlier ++ line :: more ∧ (∀ line ∈ earlier, Whole line) ∧
        Provided malloc (space arena) turn earlier ∧
        (isDelimiter delimiter (chunk line) = true ∨
          ¬ Provided malloc (space arena) turn (earlier ++ [chunk line])) := by
  induction lines generalizing turns turn arena total with
  | nil => exact .inl ⟨nofun, trivial⟩
  | cons line lines ih =>
    by_cases unsaved : isDelimiter delimiter (chunk line) = true ∨
        ¬ Provided malloc (space arena) turn [chunk line]
    · exact .inr ⟨[], line, lines, rfl, nofun, trivial, unsaved⟩
    · obtain ⟨other, granted⟩ := not_or.mp unsaved
      rw [Bool.not_eq_true] at other
      rw [not_not, provided_single sound (chunk_short line)] at granted
      have isLine := (precede.lines line List.mem_cons_self).1
      rw [flatten_cons_append] at enough ran
      obtain ⟨turns, rfl, fewer⟩ := turn_left isLine enough
      rw [loop_line isLine other] at ran
      rcases save_cases sound unlocked (chunk_short line) fun address answered =>
          (answers turn address (Nat.le_refl _) answered).1 with
        ⟨saved, pointer, allocated, saves, _⟩ | ⟨_, _, _, crowded, none_⟩
      · rw [allocated] at ran
        simp only at ran
        -- what is held stays ahead of the count by what a line was rounded up
        have closer := (read_keeps saves.sound (answers_later answers saves.places) ran).2.1
        have covered := sound.covered
        have longer := saves.longer
        obtain ⟨up, _, unit⟩ := align_small (chunk_short line)
        have here : Whole line := by
          have aligned := unit.mp (by omega)
          rw [chunk, List.length_take, commandLineBufSize] at aligned
          refine ⟨?_, ?_⟩ <;> rw [commandLineBufSize] at * <;> omega
        obtain ⟨taken, dropped⟩ := whole_chunk here
        rw [taken] at saves granted ran
        rw [dropped, List.nil_append] at ran fewer
        have same (later : List (List UInt8)) := provided_cons later here saves.left granted
        rcases ih saves.sound saves.unlocked (answers_later answers saves.places) (precede_rest precede)
            fewer ran with ⟨whole, provided⟩ | ⟨earlier, last, more, rfl, whole, provided, unsaved⟩
        · exact .inl ⟨List.forall_mem_cons.mpr ⟨here, whole⟩, (same _).mpr provided⟩
        · exact .inr ⟨line :: earlier, last, more, rfl, List.forall_mem_cons.mpr ⟨here, whole⟩,
            (same _).mpr provided, unsaved.imp_right fun denied all => denied ((same _).mp all)⟩
      · exact absurd granted (not_or.mpr ⟨Nat.not_le.mpr crowded, not_not.mpr none_⟩)

end

/-! ## The buffer -/

/-- The flattening copies what the blocks hold, one behind the other. -/
theorem flattenLoop_eq (chain : List ArenaBlock) (within : currentPos ≤ size) (flat : Store) :
    flattenLoop size flat currentPos chain =
      if currentPos + (chain.flatMap fun block => readBytes block.data 0 block.offset).length ≤ size then
        some (writeBytes flat currentPos (chain.flatMap fun block => readBytes block.data 0 block.offset),
          currentPos + (chain.flatMap fun block => readBytes block.data 0 block.offset).length)
      else none := by
  induction chain generalizing currentPos flat with
  | nil =>
    have nothing : writeBytes flat currentPos [] = flat := by
      funext i
      exact writeBytes_outside (by simp only [List.length_nil]; omega)
    simp [flattenLoop, within, nothing]
  | cons b next ih =>
    rw [flattenLoop, List.flatMap_cons]
    by_cases some_ : b.offset > 0
    · rw [if_pos some_]
      by_cases fits : currentPos + b.offset ≤ size
      · rw [if_pos fits, ih fits]
        have behind := writeBytes_append flat currentPos (readBytes b.data 0 b.offset)
          (next.flatMap fun block => readBytes block.data 0 block.offset)
        rw [readBytes_length] at behind
        rw [behind, List.length_append, readBytes_length, Nat.add_assoc]
      · rw [if_neg fits, if_neg]
        rw [List.length_append, readBytes_length]
        omega
    · have empty : b.offset = 0 := by omega
      rw [if_neg some_, ih within, empty]
      rfl

/-- The call returns a buffer that holds the lines and a null, and copied as many
bytes into it as were counted. -/
def Flattens (hd : SqHeredoc) (lines : List (List UInt8)) (tail : List UInt8)
    (malloc : Nat → Option Nat) (room : Bool) (junk : Store) : Prop :=
  ∃ flat copied after rest,
    sqHeredocReadAll hd (lines.flatten ++ tail) malloc room junk = some ⟨some (flat, copied), after, rest⟩ ∧
      readBytes flat 0 (after.totalSize + 1) = lines.flatten ++ [0] ∧ copied = after.totalSize

/-- Nothing was held before, the lines take whole units, and there is memory for
the blocks they need. -/
def Fits (hd : SqHeredoc) (lines : List (List UInt8)) (malloc : Nat → Option Nat) : Prop :=
  ∃ arena ∈ hd.arena, heldBy arena.blocks = [] ∧ (∀ line ∈ lines, Whole line) ∧
    Provided malloc commandLineBufSize 0 lines

/-- The call ends at a line that it does not save, and what was held before, as many
bytes as were counted, with the lines before that one reads like all the lines. -/
def Repeats (hd : SqHeredoc) (delimiter : List UInt8) (lines : List (List UInt8)) (tail : List UInt8)
    (malloc : Nat → Option Nat) : Prop :=
  ∃ arena ∈ hd.arena, (heldBy arena.blocks).length = hd.totalSize ∧
    ∃ earlier line more, lines = earlier ++ line :: more ∧
      heldBy arena.blocks ++ earlier.flatten = lines.flatten ∧
      (arena.mutex = true → earlier = [] ∧ isDelimiter delimiter (chunk line) = true) ∧
      (∀ line ∈ earlier, Whole line) ∧ Provided malloc (space arena) 0 earlier ∧
      Halts delimiter line (more.flatten ++ tail)
        (Provided malloc (space arena) 0 (earlier ++ [chunk line]))

/-- A context as `sq_heredoc_init` makes it and earlier calls leave it, whatever
they read and whatever memory there was. -/
inductive Reached : SqHeredoc → Prop
  | init (made : sqHeredocInit delimiter room arenaRoom arenaBlock copied = some hd) : Reached hd
  | read (before : Reached hd) (answers : ∀ arena ∈ hd.arena, Answers arena.blocks malloc 0)
      (ran : sqHeredocReadAll hd stdin malloc room junk = some result) : Reached result.hd

/-- What the reading and the flattening of a call come to. -/
theorem readAll_iff (hd : SqHeredoc) (arena_ : hd.arena = some arena)
    (named : hd.delimiter = some delimiter) :
    sqHeredocReadAll hd stdin malloc room junk = some result ↔
      ∃ after totalAfter rest,
        readLoop delimiter malloc stdin.length 0 arena hd.totalSize stdin = some (after, totalAfter, rest) ∧
        (room = false ∧ result.flat = none ∨
          room = true ∧ (heldBy after.blocks).length ≤ totalAfter + 1 ∧
            result.flat = some (writeBytes (writeBytes junk 0 (heldBy after.blocks)) totalAfter [0],
              (heldBy after.blocks).length)) ∧
        result.hd = ⟨some after, some delimiter, totalAfter⟩ ∧ result.stdin = rest := by
  obtain ⟨flat, left, stdinLeft⟩ := result
  simp only [sqHeredocReadAll, arena_, named]
  cases ran : readLoop delimiter malloc stdin.length 0 arena hd.totalSize stdin with
  | none => simp
  | some both =>
    obtain ⟨after, totalAfter, rest⟩ := both
    have copies := flattenLoop_eq after.blocks.chain (Nat.zero_le (totalAfter + 1)) junk
    rw [← heldBy, Nat.zero_add] at copies
    cases room with
    | false => simpa [eq_comm] using and_rotate.symm
    | true =>
      by_cases fits : (heldBy after.blocks).length ≤ totalAfter + 1
      · rw [if_pos fits] at copies
        simpa [copies, fits, eq_comm] using and_rotate.symm
      · rw [if_neg fits] at copies
        simp [copies, fits]

/-- The arena of a context is sound between any two calls. -/
theorem reached_sound (reached : Reached hd) : ∀ arena ∈ hd.arena, Sound arena hd.totalSize := by
  induction reached with
  | @init delimiter room arenaRoom arenaBlock copied _ made =>
    unfold sqHeredocInit at made
    split at made
    · cases made
      intro arena there
      simp only [arenaInit, Option.mem_def] at there
      split at there
      · obtain ⟨block, granted, rfl⟩ := Option.map_eq_some_iff.mp there
        obtain ⟨address, rfl, rfl⟩ := Option.map_eq_some_iff.mp granted
        refine ⟨⟨rfl, fun block member => ?_, List.nodup_singleton _⟩, rfl, Nat.zero_le _, nofun⟩
        obtain rfl := List.mem_singleton.mp member
        exact ⟨show align (align commandLineBufSize) = commandLineBufSize by decide, Nat.zero_le _,
          Nat.dvd_zero 16⟩
      · cases there
    · cases made
  | @read before malloc stdin room junk result _ answers ran ih =>
    rcases arena_ : before.arena with _ | arena
    · simp [sqHeredocReadAll, arena_] at ran
    rcases named : before.delimiter with _ | delimiter
    · simp [sqHeredocReadAll, arena_, named] at ran
    obtain ⟨after, totalAfter, rest, read, _, same, _⟩ := (readAll_iff before arena_ named).mp ran
    rw [same]
    rintro _ ⟨⟩
    exact (read_keeps (ih arena arena_) (answers arena arena_) read).1

private theorem readBytes_terminated (junk : Store) (held : List UInt8) :
    readBytes (writeBytes (writeBytes junk 0 held) held.length [0]) 0 (held.length + 1) = held ++ [0] := by
  have both := writeBytes_append junk 0 held [0]
  rw [Nat.zero_add] at both
  rw [both]
  have written := readBytes_written junk 0 (held ++ [0])
  rwa [List.length_append, List.length_singleton] at written

/-- Where nothing is held nothing is counted, and a whole block is left. -/
private theorem empty_space (sound : Sound arena total) (nothing : heldBy arena.blocks = []) :
    total = 0 ∧ arena.mutex = false ∧ space arena = commandLineBufSize := by
  have covered := sound.covered
  rw [nothing] at covered
  refine ⟨Nat.le_zero.mp covered, ?_, ?_⟩
  · cases locked : arena.mutex with
    | false => rfl
    | true => exact absurd nothing (sound.locked locked)
  · have none_ := congrArg List.length nothing
    simp only [heldBy, Blocks.chain, List.flatMap_append, List.flatMap_cons, List.length_append,
      readBytes_length, List.length_nil] at none_
    rw [space]
    omega

/-- The loop reads to the end, with the arena holding just the lines. -/
private def Returned (hd : SqHeredoc) (delimiter : List UInt8) (lines : List (List UInt8))
    (tail : List UInt8) (malloc : Nat → Option Nat) : Prop :=
  ∃ arena ∈ hd.arena, ∃ after rest,
    readLoop delimiter malloc (lines.flatten ++ tail).length 0 arena hd.totalSize (lines.flatten ++ tail) =
      some (after, lines.flatten.length, rest) ∧ heldBy after.blocks = lines.flatten

/-- The lines come back where there is a buffer and the arena holds just them. -/
private theorem flattens_iff_read (named : hd.delimiter = some delimiter) :
    Flattens hd lines tail malloc room junk ↔
      room = true ∧ Returned hd delimiter lines tail malloc := by
  constructor
  · rintro ⟨flat, copied, left, stdin, ran, content, all⟩
    rcases arena_ : hd.arena with _ | arena
    · simp [sqHeredocReadAll, arena_] at ran
    obtain ⟨after, totalAfter, rest, read, filled, rfl, -⟩ := (readAll_iff hd arena_ named).mp ran
    rcases filled with ⟨_, none_⟩ | ⟨ready, _, same⟩
    · cases none_
    cases same
    simp only at all content
    rw [← all, readBytes_terminated] at content
    have held := List.append_cancel_right content
    rw [← all, held] at read
    exact ⟨ready, arena, arena_, after, rest, read, held⟩
  · rintro ⟨rfl, arena, arena_, after, rest, read, held⟩
    refine ⟨_, _, _, rest, (readAll_iff hd arena_ named).mpr ⟨after, _, rest, read, .inr
      ⟨rfl, ?_, rfl⟩, rfl, rfl⟩, ?_, congrArg List.length held⟩
    · rw [held]
      exact Nat.le_succ _
    · rw [held]
      exact readBytes_terminated junk lines.flatten

section
variable (reached : Reached hd) (precede : Precede delimiter lines tail)
  (answers : ∀ arena ∈ hd.arena, Answers arena.blocks malloc 0)
include reached precede answers

private theorem fits_returned (fits : Fits hd lines malloc) : Returned hd delimiter lines tail malloc := by
  obtain ⟨arena, arena_, nothing, whole, provided⟩ := fits
  have sound := reached_sound reached arena arena_
  obtain ⟨none_, unlocked, free⟩ := empty_space sound nothing
  obtain ⟨after, rest, read, held⟩ := whole_ended sound unlocked (answers arena arena_) precede whole
    (by rwa [free]) (Nat.le_refl _)
  rw [none_, Nat.zero_add] at read
  exact ⟨arena, arena_, after, rest, none_ ▸ read, by rw [held, nothing, List.nil_append]⟩

private theorem repeats_returned (repeats : Repeats hd delimiter lines tail malloc) :
    Returned hd delimiter lines tail malloc := by
  obtain ⟨arena, arena_, counted, earlier, line, more, rfl, same, locked, whole, provided, halts⟩ := repeats
  cases mutex : arena.mutex with
  | true =>
    obtain ⟨rfl, passes⟩ := locked mutex
    have isLine := (precede.lines line List.mem_cons_self).1
    rw [List.flatten_nil, List.append_nil] at same
    have stops : Stops delimiter (([] ++ line :: more).flatten ++ tail) := by
      intro first rest read
      rw [List.nil_append, flatten_cons_append, fgets_line isLine] at read
      cases read
      exact passes
    obtain ⟨rest, read⟩ := loop_stops stops malloc (([] ++ line :: more).flatten ++ tail).length 0
      arena hd.totalSize
    exact ⟨arena, arena_, arena, rest, by rw [read, ← counted, same], same⟩
  | false =>
    obtain ⟨after, part, _, ended⟩ := halted_ended (reached_sound reached arena arena_) mutex
      (answers arena arena_) precede whole provided (halts.imp_right (·.1)) (Nat.le_refl _)
    obtain ⟨rest, read⟩ := ended halts
    rw [← counted, ← List.length_append, same] at read
    exact ⟨arena, arena_, after, rest, counted ▸ read, part.trans same⟩

private theorem returned_only (returned : Returned hd delimiter lines tail malloc) :
    Fits hd lines malloc ∨ Repeats hd delimiter lines tail malloc := by
  obtain ⟨arena, arena_, after, rest, read, held⟩ := returned
  have sound := reached_sound reached arena arena_
  cases locked : arena.mutex with
  | true =>
    -- nothing can be saved, so the call ended at its first line
    obtain ⟨rfl, counted⟩ := (read_keeps sound (answers arena arena_) read).2.2 locked
    have stops := locked_stops locked (Nat.le_refl _) read
    cases lines with
    | nil => exact absurd held (sound.locked locked)
    | cons line lines =>
      have isLine := (precede.lines line List.mem_cons_self).1
      rw [flatten_cons_append] at stops
      have passes := stops _ _ (fgets_line isLine _)
      exact .inr ⟨after, arena_, held ▸ counted, [], line, lines, rfl, by rw [held]; simp,
        fun _ => ⟨rfl, passes⟩, nofun, trivial, .inl passes⟩
  | false =>
    rcases whole_of_exact sound locked (answers arena arena_) precede (Nat.le_refl _) read
        (congrArg List.length held) with
      ⟨whole, provided⟩ | ⟨earlier, line, more, rfl, whole, provided, unsaved⟩
    · obtain ⟨last, _, ran, all⟩ := whole_ended sound locked (answers arena arena_) precede whole
        provided (Nat.le_refl _)
      obtain rfl : after = last := congrArg Prod.fst (Option.some.inj (read.symm.trans ran))
      have nothing : heldBy arena.blocks = [] := List.append_left_eq_self.mp (all.symm.trans held)
      rw [(empty_space sound nothing).2.2] at provided
      exact .inl ⟨arena, arena_, nothing, whole, provided⟩
    · obtain ⟨last, part, only, ended⟩ := halted_ended sound locked (answers arena arena_) precede
        whole provided unsaved (Nat.le_refl _)
      have halts := only _ read
      obtain ⟨_, ran⟩ := ended halts
      obtain ⟨rfl, counted⟩ : after = last ∧
          (earlier ++ line :: more).flatten.length = hd.totalSize + earlier.flatten.length := by
        have same := Option.some.inj (read.symm.trans ran)
        exact ⟨congrArg Prod.fst same, congrArg (·.2.1) same⟩
      have all := part.symm.trans held
      refine .inr ⟨arena, arena_, ?_, earlier, line, more, rfl, all, by simp [locked], whole,
        provided, halts⟩
      rw [← all, List.length_append] at counted
      exact Nat.add_right_cancel counted

end

/-- A context gives the lines back exactly when nothing was held before, every line
takes whole units and none is refused memory, or by chance, when it ends at a line
that it does not save; and there is memory for the buffer. -/
theorem flattens_iff (reached : Reached hd) (named : hd.delimiter = some delimiter)
    (precede : Precede delimiter lines tail)
    (answers : ∀ arena ∈ hd.arena, Answers arena.blocks malloc 0) (room : Bool) (junk : Store) :
    Flattens hd lines tail malloc room junk ↔
      room = true ∧ (Fits hd lines malloc ∨ Repeats hd delimiter lines tail malloc) := by
  rw [flattens_iff_read named]
  refine and_congr_right fun _ => ⟨returned_only reached precede answers, ?_⟩
  rintro (fits | repeats)
  · exact fits_returned reached precede answers fits
  · exact repeats_returned reached precede answers repeats

/-- A context for the delimiter `EOF`, as it is made. -/
def fresh : SqHeredoc := ⟨arenaInit commandLineBufSize true (some 4096), some [69, 79, 70], 0⟩

theorem fresh_reached : Reached fresh :=
  .init (show sqHeredocInit [69, 79, 70] true true (some 4096) true = some fresh by rfl)

/-- A line of so many letters. -/
def letters (count : Nat) : List UInt8 := List.replicate count 97 ++ [newline]

private theorem letters_length (count : Nat) : (letters count).length = count + 1 := by
  simp [letters]

private theorem letters_line (count : Nat) :
    IsLine (letters count) ∧ isDelimiter [69, 79, 70] (letters count) = false := by
  refine ⟨⟨_, rfl, by simp [newline], by simp⟩, ?_⟩
  cases count with
  | zero => rfl
  | succ count => simp [isDelimiter, letters, untilNull, List.replicate_succ, List.takeWhile_cons]

private theorem letters_whole (unit : 16 ∣ count + 1) (short : count + 1 < commandLineBufSize) :
    Whole (letters count) := by
  rw [Whole, letters_length]
  exact ⟨unit, short⟩

/-- Three lines of whole units come back, the last from a block of its own. -/
theorem unit_lines_returned :
    Flattens fresh [letters 15, letters 1007, letters 31] [69, 79, 70, newline]
      (fun turn => if turn = 2 then some 8192 else none) true zeros := by
  have precede : Precede [69, 79, 70] [letters 15, letters 1007, letters 31] [69, 79, 70, newline] := by
    refine ⟨fun line member => ?_, .inr ⟨_, _, rfl, by decide⟩⟩
    simp only [List.mem_cons, List.not_mem_nil, or_false] at member
    rcases member with rfl | rfl | rfl <;> exact letters_line _
  have whole : ∀ line ∈ [letters 15, letters 1007, letters 31], Whole line := by
    intro line member
    simp only [List.mem_cons, List.not_mem_nil, or_false] at member
    rcases member with rfl | rfl | rfl <;> exact letters_whole (by decide) (by decide)
  refine (flattens_iff fresh_reached rfl precede ?_ true zeros).mpr ⟨rfl, .inl ⟨_, rfl, rfl, whole, ?_⟩⟩
  · rintro _ ⟨⟩ turn address _ answered
    obtain ⟨rfl, rfl⟩ : turn = 2 ∧ 8192 = address := by simpa using answered
    refine ⟨by decide, fun other _ again => ?_⟩
    simpa using again
  · simp [Provided, letters_length, commandLineBufSize]

/-- One letter and the newline take sixteen bytes of the arena, and the copy runs
over the three bytes there are for them. -/
theorem short_line_overflows :
    Reached fresh ∧ Precede [69, 79, 70] [[97, newline]] [69, 79, 70, newline] ∧
      ∀ malloc junk,
        sqHeredocReadAll fresh ([[97, newline]].flatten ++ [69, 79, 70, newline]) malloc true junk = none ∧
          ¬ Flattens fresh [[97, newline]] [69, 79, 70, newline] malloc true junk := by
  refine ⟨fresh_reached, ⟨?_, .inr ⟨_, _, rfl, by decide⟩⟩, fun malloc junk => ?_⟩
  · exact List.forall_mem_singleton.mpr ⟨⟨[97], rfl, by decide, by decide⟩, by decide⟩
  · have overflows : sqHeredocReadAll fresh ([[97, newline]].flatten ++ [69, 79, 70, newline]) malloc
        true junk = none := rfl
    refine ⟨overflows, ?_⟩
    rintro ⟨flat, copied, after, rest, ran, _⟩
    rw [overflows] at ran
    cases ran

end ShapeQuake.HeredocProofs
