import ShapeQuake.Library.Waiting
import ShapeQuake.PipelineData

/-! That the commands of a line are one pipeline. Every byte a command writes to the next
comes to it once and in order; the end of its input is told to a command exactly when the
one before it can write no more; and who waits, waits for a neighbour only, so that not all
of them wait at once. This needs that no copy of an end is left anywhere else. -/
namespace ShapeQuake.PipelineFlow
open Library.Runs PipelineData
open Pipeline (Token Descriptors File Child Call bar inherited stdin stdout stderr)
open PipelineProofs (StdOpen AllForked segments segments_length)
open PipelineCommands (Session)

/-! ## What was read and written -/

/-- What a child has read from pipes. -/
def readBy (state : State) (k : Nat) : List UInt8 := (state.commands[k]?).elim [] Command.read

/-- What it has written to them. -/
def writtenBy (state : State) (k : Nat) : List UInt8 := (state.commands[k]?).elim [] Command.written

/-- A child that has not ended has the file open. -/
def Keeps (state : State) (k : Nat) (file : File) : Prop :=
  ∃ child command fd, state.session.pipeline.children[k]? = some child ∧
    state.commands[k]? = some command ∧ child.exited = false ∧
    tableOf child command fd = some (.before file)

/-- What is on its way, and what was told. -/
structure Flowing (state : State) : Prop where
  flow : ∀ (pipe : Nat) content, state.contents[pipe]? = some content →
    readBy state (pipe + 1) ++ content = writtenBy state pipe
  told : ∀ (k : Nat) command, state.commands[k]? = some command → command.told = true →
    ∃ pipe, k = pipe + 1 ∧ state.contents[pipe]? = some [] ∧ ¬ Holds state (.writeEnd pipe)
  killed : ∀ (k : Nat) command, state.commands[k]? = some command → command.killed = true →
    k + 1 < state.commands.length ∧ k < state.contents.length ∧ ¬ Holds state (.readEnd k)

theorem Keeps.holds (keeps : Keeps state k file) : Holds state file := by
  obtain ⟨child, command, fd, found, own, runs, leads⟩ := keeps
  exact ⟨_, fd, .child found own runs, leads⟩

/-- An end that nobody holds stays so. -/
private theorem unheld_stays (sound : Sound envPath argv base limit state) (room : stderr < limit)
    (successful : Succeeds event) (taken : step envPath limit state event = some next)
    (end_ : pipeOf file = some pipe) (inside : pipe < state.contents.length) (nobody : ¬ Holds state file) :
    ¬ Holds next file := by
  rintro ⟨table, fd, lives, leads⟩
  obtain ⟨_, holds | ⟨new, _⟩⟩ := live_table sound room successful taken lives leads end_
  · exact nobody holds
  · omega

/-- A command behind a step of the shell's code: as it was but for its descriptors, or new. -/
private theorem follow_command {k : Nat} {now : Command}
    (own : (follow state session event).commands[k]? = some now) :
    (∃ fds, ∃ command, state.commands[k]? = some command ∧ now = { command with fds }) ∨
      state.commands[k]? = none ∧ now = ⟨none, [], [], false, false⟩ := by
  have same (there : state.commands[k]? = some now) :
      ∃ fds, ∃ command, state.commands[k]? = some command ∧ now = { command with fds } :=
    ⟨now.fds, now, there, rfl⟩
  unfold follow at own
  split at own
  · exact .inl (same own)
  · simp only [List.getElem?_append] at own
    split at own
    · exact .inl (same own)
    · rename_i behind
      rw [List.getElem?_singleton] at own
      split at own
      · cases own
        exact .inr ⟨List.getElem?_eq_none (not_lt.mp behind), rfl⟩
      · cases own
  · obtain ⟨command, was, ⟨_, rfl⟩ | ⟨_, rfl⟩⟩ := modify_cases own
    · exact .inl ⟨_, command, was, rfl⟩
    · exact .inl (same was)
  · exact .inl (same own)

private theorem follow_same {k : Nat} (own : (follow state session event).commands[k]? = none) :
    state.commands[k]? = none := by
  unfold follow at own
  split at own
  · exact own
  · rw [List.getElem?_eq_none_iff, List.length_append] at own
    rw [List.getElem?_eq_none_iff]
    omega
  · rw [List.getElem?_modify] at own
    exact Option.map_eq_none_iff.mp own
  · exact own

/-- A step of the shell's code reads and writes nothing. -/
private theorem follow_transcripts (state : State) (session : Session) (event : PipelineCommands.Event)
    (k : Nat) : readBy (follow state session event) k = readBy state k ∧
      writtenBy (follow state session event) k = writtenBy state k := by
  rw [readBy, readBy, writtenBy, writtenBy]
  cases own : (follow state session event).commands[k]? with
  | none => simp [follow_same own]
  | some now =>
    rcases follow_command own with ⟨fds, command, was, rfl⟩ | ⟨was, rfl⟩ <;> simp [was]

/-- Who has read or written more. -/
private theorem readBy_modify (state : State) (contents : List (List UInt8)) (k j : Nat)
    (change : Command → Command) (own : state.commands[k]? = some command) :
    readBy { state with contents, commands := state.commands.modify k change } j =
      if j = k then (change command).read else readBy state j := by
  simp only [readBy, List.getElem?_modify]
  split
  · rename_i same
    subst same
    rw [if_pos rfl, own]
    rfl
  · rename_i other
    rw [if_neg (Ne.symm other)]
    simp

private theorem writtenBy_modify (state : State) (contents : List (List UInt8)) (k j : Nat)
    (change : Command → Command) (own : state.commands[k]? = some command) :
    writtenBy { state with contents, commands := state.commands.modify k change } j =
      if j = k then (change command).written else writtenBy state j := by
  simp only [writtenBy, List.getElem?_modify]
  split
  · rename_i same
    subst same
    rw [if_pos rfl, own]
    rfl
  · rename_i other
    rw [if_neg (Ne.symm other)]
    simp

/-! ## One step -/

private theorem flowing_start (argv : List Token) (files : Nat → Option Nat) : Flowing (start argv files) where
  flow := by simp [start]
  told := by simp [start]
  killed := by simp [start]

/-- The last pipe is made before its writer is forked. -/
private theorem piped_fresh (sound : Sound envPath argv base limit state)
    (taken : PipelineCommands.step envPath state.session (.moved (.piped (some answer))) = some session) :
    state.commands.length = state.contents.length := by
  obtain ⟨place, _, _⟩ := PipelineProofs.pipe_cases (session_cases taken)
  have here := sound.session.inv.2
  rw [place] at here
  obtain ⟨_, _, _, _, _, _, _, _, _, pipes⟩ := here
  rw [sound.commands, sound.contents, pipes]

private theorem moved_flow (sound : Sound envPath argv base limit state)
    (ran : PipelineCommands.step envPath state.session event = some session) (pipe : Nat)
    (content : List UInt8) (there : (follow state session event).contents[pipe]? = some content) :
    state.contents[pipe]? = some content ∨
      content = [] ∧ state.commands.length ≤ pipe := by
  unfold follow at there
  split at there
  · simp only [List.getElem?_append] at there
    split at there
    · exact .inl there
    · rename_i behind
      rw [List.getElem?_singleton] at there
      split at there
      · cases there
        exact .inr ⟨rfl, (piped_fresh sound ran).le.trans (not_lt.mp behind)⟩
      · cases there
  · exact .inl there
  · exact .inl there
  · exact .inl there

private theorem follow_contents {pipe : Nat} (there : state.contents[pipe]? = some content) :
    (follow state session event).contents[pipe]? = some content := by
  have inside := (List.getElem?_eq_some_iff.mp there).1
  unfold follow
  split
  · simp only [List.getElem?_append_left inside, there]
  · exact there
  · exact there
  · exact there

private theorem follow_length (state : State) (session : Session) (event : PipelineCommands.Event) :
    state.commands.length ≤ (follow state session event).commands.length := by
  unfold follow
  split
  · exact le_rfl
  · simp
  · simp
  · exact le_rfl

private theorem moved_flowing (sound : Sound envPath argv base limit state) (room : stderr < limit)
    (successful : Succeeds (.moved event)) (flowing : Flowing state)
    (taken : step envPath limit state (.moved event) = some next) : Flowing next := by
  have stays {file : File} {pipe : Nat} := @unheld_stays _ _ _ _ _ _ _ file pipe sound room successful taken
  obtain ⟨session, _, ran, rfl⟩ := moved_cases taken
  refine ⟨?_, ?_, ?_⟩
  · intro pipe content there
    rw [(follow_transcripts state session event _).1, (follow_transcripts state session event _).2]
    rcases moved_flow sound ran pipe content there with old | ⟨rfl, behind⟩
    · exact flowing.flow pipe content old
    · rw [readBy, writtenBy, List.getElem?_eq_none behind, List.getElem?_eq_none (by omega)]
      rfl
  · intro k now own told
    rcases follow_command own with ⟨fds, command, was, rfl⟩ | ⟨_, rfl⟩
    · obtain ⟨pipe, same, empty, nobody⟩ := flowing.told k command was told
      exact ⟨pipe, same, follow_contents empty, stays rfl (List.getElem?_eq_some_iff.mp empty).1 nobody⟩
    · cases told
  · intro k now own killed
    rcases follow_command own with ⟨fds, command, was, rfl⟩ | ⟨_, rfl⟩
    · obtain ⟨reader, made, nobody⟩ := flowing.killed k command was killed
      refine ⟨reader.trans_le (follow_length state session event), ?_, stays rfl made nobody⟩
      exact (List.getElem?_eq_some_iff.mp (follow_contents (List.getElem?_eq_getElem made))).1
    · cases killed

/-- The ends that the program of a child has are those of its own input and output. -/
private theorem end_mine (sound : Sound envPath argv base limit state)
    (leads : endAt limit state k fd = some file) (end_ : pipeOf file = some pipe) :
    (file = .readEnd pipe ∧ pipe + 1 = k ∨ file = .writeEnd pipe ∧ pipe = k ∧ k < argv.count bar) ∧
      Keeps state k file ∧ pipe < state.contents.length := by
  obtain ⟨child, command, found, own, runs, _, came, table⟩ := endAt_cases leads
  refine ⟨?_, ⟨child, command, fd, found, own, runs, table⟩,
    (sound.valid _ (.child found own runs) fd file pipe table end_).2⟩
  rcases sound.mine k child command found own fd file pipe table end_ with reads | ⟨same, strict⟩
  · exact .inl reads
  · exact .inr ⟨(strict came).1, same, (strict came).2⟩

/-- Where nobody can read what a child writes, its reader is forked all the same. -/
private theorem reader_there (sound : Sound envPath argv base limit state) (keeps : Keeps state k (.writeEnd k))
    (made : k < state.contents.length) (more : k < argv.count bar) (nobody : ¬ Holds state (.readEnd k)) :
    k + 1 < state.commands.length := by
  obtain ⟨child, _, _, found, _⟩ := keeps
  have inside := (List.getElem?_eq_some_iff.mp found).1
  rw [sound.commands]
  by_contra last
  have latest : state.session.pipeline.children.length = k + 1 := by omega
  rw [sound.contents] at made
  obtain ⟨fd, reads⟩ := manager_reads sound.session.inv made latest more
  refine nobody ⟨_, fd, .manager ?_, by rw [RedirectProofs.before, reads]; rfl⟩
  intro code place
  have here := sound.session.inv.2
  rw [place] at here
  have total := congrArg List.length here.1.pieces
  rw [List.length_map, segments_length, latest] at total
  omega

/-- What a step of one program has to keep. -/
private theorem flowing_modify (sound : Sound envPath argv base limit state) (room : stderr < limit)
    (flowing : Flowing state) (successful : Succeeds event) (own : state.commands[k]? = some command)
    (taken : step envPath limit state event =
      some { state with contents, commands := state.commands.modify k change })
    (length : contents.length = state.contents.length)
    (flow : ∀ (pipe : Nat) content, contents[pipe]? = some content →
      (if pipe + 1 = k then (change command).read else readBy state (pipe + 1)) ++ content =
        if pipe = k then (change command).written else writtenBy state pipe)
    (ended : ∀ pipe, state.contents[pipe]? = some [] → ¬ Holds state (.writeEnd pipe) →
      contents[pipe]? = some [])
    (told : (change command).told = true → command.told = true ∨
      ∃ pipe, k = pipe + 1 ∧ state.contents[pipe]? = some [] ∧ ¬ Holds state (.writeEnd pipe))
    (killed : (change command).killed = true → command.killed = true ∨
      k + 1 < state.commands.length ∧ k < state.contents.length ∧ ¬ Holds state (.readEnd k)) :
    Flowing { state with contents, commands := state.commands.modify k change } := by
  have stays {file : File} {pipe : Nat} := @unheld_stays _ _ _ _ _ _ _ file pipe sound room successful taken
  refine ⟨?_, ?_, ?_⟩
  · intro pipe content there
    rw [readBy_modify state _ k _ _ own, writtenBy_modify state _ k _ _ own]
    exact flow pipe content there
  · intro j now there was
    have before_ : ∃ pipe, j = pipe + 1 ∧ state.contents[pipe]? = some [] ∧ ¬ Holds state (.writeEnd pipe) := by
      obtain ⟨old, found, ⟨same, rfl⟩ | ⟨_, rfl⟩⟩ := modify_cases there
      · subst same
        cases own.symm.trans found
        rcases told was with earlier | now
        · exact flowing.told j _ found earlier
        · exact now
      · exact flowing.told j _ found was
    obtain ⟨pipe, same, empty, nobody⟩ := before_
    exact ⟨pipe, same, ended pipe empty nobody, stays rfl (List.getElem?_eq_some_iff.mp empty).1 nobody⟩
  · intro j now there was
    have before_ : j + 1 < state.commands.length ∧ j < state.contents.length ∧ ¬ Holds state (.readEnd j) := by
      obtain ⟨old, found, ⟨same, rfl⟩ | ⟨_, rfl⟩⟩ := modify_cases there
      · subst same
        cases own.symm.trans found
        rcases killed was with earlier | now
        · exact flowing.killed j _ found earlier
        · exact now
      · exact flowing.killed j _ found was
    obtain ⟨reader, made, nobody⟩ := before_
    refine ⟨?_, ?_, stays rfl made nobody⟩
    · rw [List.length_modify]
      exact reader
    · rw [length]
      exact made

/-- What a command that changes nothing of it has read and written. -/
private theorem flow_same {now : Command} (flowing : Flowing state) (own : state.commands[k]? = some command)
    (read : now.read = command.read) (written : now.written = command.written)
    (there : state.contents[pipe]? = some content) :
    (if pipe + 1 = k then now.read else readBy state (pipe + 1)) ++ content =
      if pipe = k then now.written else writtenBy state pipe := by
  have reads : (if pipe + 1 = k then now.read else readBy state (pipe + 1)) = readBy state (pipe + 1) := by
    split
    · rename_i same
      rw [same, readBy, own, read]
      rfl
    · rfl
  have writes : (if pipe = k then now.written else writtenBy state pipe) = writtenBy state pipe := by
    split
    · rename_i same
      rw [same, writtenBy, own, written]
      rfl
    · rfl
  rw [reads, writes]
  exact flowing.flow pipe content there

private theorem reads_flowing (sound : Sound envPath argv base limit state) (room : stderr < limit)
    (flowing : Flowing state) (taken : step envPath limit state (.reads k fd count) = some next) :
    Flowing next := by
  have fine : Succeeds (.reads k fd count) := trivial
  obtain ⟨pipe, content, leads, there, change⟩ := reads_cases taken
  obtain ⟨_, command, _, own, _⟩ := endAt_cases leads
  obtain ⟨⟨_, same⟩ | ⟨other, _⟩, _, made⟩ := end_mine sound leads rfl
  · rcases change with rfl | ⟨rfl, unheld, rfl⟩
    · refine flowing_modify sound room flowing fine own taken List.length_set ?_ ?_ .inl .inl
      · intro other rest_ found
        rw [List.getElem?_set] at found
        split at found
        · rename_i here
          subst here
          cases found
          have was := flow_same flowing own rfl rfl there
          rw [if_pos same] at was ⊢
          rw [List.append_assoc, List.take_append_drop]
          exact was
        · rename_i different
          have was := flow_same flowing own rfl rfl found
          rw [if_neg (by omega)] at was ⊢
          exact was
      · intro other empty _
        rw [List.getElem?_set]
        split
        · rename_i here
          subst here
          cases there.symm.trans empty
          rw [List.drop_nil]
        · exact empty
    · have nobody : ¬ Holds state (.writeEnd pipe) := fun holds =>
        Bool.eq_false_iff.mp unheld ((held_iff sound.valid rfl).mpr holds)
      exact flowing_modify sound room flowing fine own taken rfl
        (fun _ _ found => flow_same flowing own rfl rfl found)
        (fun _ empty _ => empty) (fun _ => .inr ⟨pipe, same.symm, there, nobody⟩) .inl
  · cases other

private theorem writes_flowing (sound : Sound envPath argv base limit state) (room : stderr < limit)
    (flowing : Flowing state) (taken : step envPath limit state (.writes k fd bytes) = some next) :
    Flowing next := by
  have fine : Succeeds (.writes k fd bytes) := trivial
  obtain ⟨pipe, content, leads, there, change⟩ := writes_cases taken
  obtain ⟨_, command, _, own, _⟩ := endAt_cases leads
  obtain ⟨⟨other, _⟩ | ⟨_, rfl, more⟩, keeps, made⟩ := end_mine sound leads rfl
  · cases other
  · rcases change with rfl | ⟨unheld, rfl⟩
    · refine flowing_modify sound room flowing fine own taken List.length_set ?_ ?_ .inl .inl
      · intro other rest_ found
        rw [List.getElem?_set] at found
        split at found
        · rename_i here
          subst here
          cases found
          have was := flow_same flowing own rfl rfl there
          rw [if_neg (by omega), if_pos rfl] at was ⊢
          rw [← List.append_assoc, was]
        · rename_i different
          have was := flow_same flowing own rfl rfl found
          rw [if_neg (Ne.symm different)] at was ⊢
          exact was
      · intro other empty nobody
        rw [List.getElem?_set]
        split
        · rename_i here
          subst here
          exact absurd keeps.holds nobody
        · exact empty
    · have nobody : ¬ Holds state (.readEnd pipe) := fun holds =>
        Bool.eq_false_iff.mp unheld ((held_iff sound.valid rfl).mpr holds)
      exact flowing_modify sound room flowing fine own taken rfl
        (fun _ _ found => flow_same flowing own rfl rfl found)
        (fun _ empty _ => empty) .inl fun _ => .inr ⟨reader_there sound keeps made more nobody, made, nobody⟩

/-- Every step, as long as `pipe` and `fork` succeed. -/
theorem flowing_step (sound : Sound envPath argv base limit state) (room : stderr < limit)
    (flowing : Flowing state) (successful : Succeeds event)
    (taken : step envPath limit state event = some next) : Flowing next := by
  cases event with
  | moved event => exact moved_flowing sound room successful flowing taken
  | reads k fd count => exact reads_flowing sound room flowing taken
  | writes k fd bytes => exact writes_flowing sound room flowing taken
  | calls k call =>
    have fine : Succeeds (.calls k call) := successful
    obtain ⟨fds, runs, rfl⟩ := calls_cases taken
    obtain ⟨_, command, _, own, _⟩ := running_cases runs
    exact flowing_modify sound room flowing fine own taken rfl
        (fun _ _ found => flow_same flowing own rfl rfl found)
      (fun _ empty _ => empty) .inl .inl

/-! ## Runs -/

/-- How what the commands read and write joins them, in any state of a run. -/
structure OnePipeline (envPath : Option Token) (limit : Nat) (state : State) : Prop where
  /-- What a command wrote is what the next one has read, and what is on its way to it. -/
  inOrder : ∀ (pipe : Nat) content, state.contents[pipe]? = some content →
    readBy state (pipe + 1) ++ content = writtenBy state pipe
  /-- Who was told the end has read all, and the command before it can write no more. -/
  atEnd : ∀ (k : Nat) command, state.commands[k]? = some command → command.told = true →
    ∃ pipe, k = pipe + 1 ∧ command.read = writtenBy state pipe ∧ ¬ Keeps state pipe (.writeEnd pipe)
  /-- Who was killed for its output has a command behind it, which can read no more. -/
  broken : ∀ (k : Nat) command, state.commands[k]? = some command → command.killed = true →
    k + 1 < state.commands.length ∧ ¬ Keeps state (k + 1) (.readEnd k)
  /-- Who waits for input waits for the command before it. -/
  reader : ∀ k fd count pipe, endAt limit state k fd = some (.readEnd pipe) → 0 < count →
    step envPath limit state (.reads k fd count) = none →
      k = pipe + 1 ∧ state.contents[pipe]? = some [] ∧ Keeps state pipe (.writeEnd pipe)
  /-- Who waits to write waits for the command behind it, or for the manager that forks it. -/
  writer : ∀ k fd bytes pipe, endAt limit state k fd = some (.writeEnd pipe) →
    step envPath limit state (.writes k fd bytes) = none →
      k = pipe ∧ (∃ content, state.contents[pipe]? = some content ∧ capacity < content.length + bytes.length) ∧
        (Keeps state (k + 1) (.readEnd k) ∨ ∃ fd, state.session.pipeline.manager.fds fd = some (.readEnd k))

private theorem reached (open_ : (files stdin).isSome ∧ (files stdout).isSome ∧ (files stderr).isSome)
    (room : stderr < limit) (successful : ∀ event ∈ events, Succeeds event)
    (ran : exec (step envPath limit) (start argv files) events = some state) :
    Sound envPath argv (inherited files) limit state ∧ Flowing state := by
  have stdOpen : StdOpen (inherited files) := by
    obtain ⟨input, output, error⟩ := open_
    refine ⟨?_, ?_, ?_⟩ <;> simp only [inherited, ne_eq, Option.map_eq_none_iff]
    · exact Option.isSome_iff_ne_none.mp input
    · exact Option.isSome_iff_ne_none.mp output
    · exact Option.isSome_iff_ne_none.mp error
  have kept (before : State) (event : Event) (next : State)
      (both : Sound envPath argv (inherited files) limit before ∧ Flowing before) (success : Succeeds event)
      (taken : step envPath limit before event = some next) :
      Sound envPath argv (inherited files) limit next ∧ Flowing next :=
    ⟨sound_step stdOpen room (fun _ _ => inherited_plain files) both.1 success taken,
      flowing_step both.1 room both.2 success taken⟩
  have all := exec_invariant_of_allowed kept ⟨sound_start envPath argv files limit, flowing_start argv files⟩ ran
    successful
  exact all

/-- Who waits for input finds its pipe empty, with an end to write to it held. -/
private theorem reads_wait (made : pipe < state.contents.length)
    (leads : endAt limit state k fd = some (.readEnd pipe)) (some_ : 0 < count)
    (waits : step envPath limit state (.reads k fd count) = none) :
    state.contents[pipe]? = some [] ∧ held limit state (.writeEnd pipe) = true := by
  have there := List.getElem?_eq_getElem made
  simp only [step, leads, there, Option.bind_eq_bind, Option.bind_some] at waits
  rw [if_neg (Nat.ne_of_gt some_)] at waits
  split at waits
  · cases waits
  · rename_i empty
    split at waits
    · rename_i holds
      exact ⟨by rw [there, not_not.mp empty], holds⟩
    · cases waits

/-- And who waits to write finds it full, with an end to read it held. -/
private theorem writes_wait (made : pipe < state.contents.length)
    (leads : endAt limit state k fd = some (.writeEnd pipe))
    (waits : step envPath limit state (.writes k fd bytes) = none) :
    (∃ content, state.contents[pipe]? = some content ∧ capacity < content.length + bytes.length) ∧
      held limit state (.readEnd pipe) = true := by
  have there := List.getElem?_eq_getElem made
  simp only [step, leads, there, Option.bind_eq_bind, Option.bind_some] at waits
  split at waits
  · rename_i holds
    split at waits
    · cases waits
    · rename_i full
      exact ⟨⟨_, there, not_le.mp full⟩, holds⟩
  · cases waits

/-- Only the writer of a pipe holds the end to write to it, once its reader is forked. -/
private theorem writer_keeps (plain : ∀ fd file, base fd = some file → pipeOf file = none)
    (sound : Sound envPath argv base limit state) (reader : pipe + 1 < state.session.pipeline.children.length)
    (holds : Holds state (.writeEnd pipe)) : Keeps state pipe (.writeEnd pipe) := by
  obtain ⟨_, fd, goes | ⟨found, own, runs⟩, leads⟩ := holds
  · obtain ⟨other, lead, same⟩ := Option.map_eq_some_iff.mp leads
    cases same
    have latest := manager_writes sound.session.inv plain lead
    omega
  · rcases sound.mine _ _ _ found own fd _ pipe leads rfl with ⟨other, _⟩ | ⟨rfl, _⟩
    · cases other
    · exact ⟨_, _, fd, found, own, runs, leads⟩

/-- And only its reader the end to read it, once its writer runs a program. -/
private theorem reader_keeps (sound : Sound envPath argv base limit state)
    (leads : endAt limit state k fd = some file) (holds : Holds state (.readEnd k)) :
    Keeps state (k + 1) (.readEnd k) ∨ ∃ fd, state.session.pipeline.manager.fds fd = some (.readEnd k) := by
  obtain ⟨_, command, _, mine, _, _, came, _⟩ := endAt_cases leads
  obtain ⟨_, fd, goes | ⟨found, own, runs⟩, lead⟩ := holds
  · obtain ⟨other, there, same⟩ := Option.map_eq_some_iff.mp lead
    cases same
    exact .inr ⟨fd, there⟩
  · rcases sound.mine _ _ _ found own fd _ k lead rfl with ⟨_, rfl⟩ | ⟨rfl, strict⟩
    · exact .inl ⟨_, _, fd, found, own, runs, lead⟩
    · cases mine.symm.trans own
      cases (strict came).1

private theorem onePipeline_of (plain : ∀ fd file, base fd = some file → pipeOf file = none)
    (sound : Sound envPath argv base limit state) (flowing : Flowing state) :
    OnePipeline envPath limit state := by
  refine ⟨flowing.flow, ?_, ?_, ?_, ?_⟩
  · intro k command own told
    obtain ⟨pipe, rfl, empty, nobody⟩ := flowing.told k command own told
    refine ⟨pipe, rfl, ?_, fun keeps => nobody keeps.holds⟩
    have all := flowing.flow pipe [] empty
    rwa [List.append_nil, readBy, own] at all
  · intro k command own killed
    obtain ⟨reader, _, nobody⟩ := flowing.killed k command own killed
    exact ⟨reader, fun keeps => nobody keeps.holds⟩
  · intro k fd count pipe leads some_ waits
    obtain ⟨⟨_, rfl⟩ | ⟨other, _⟩, keeps, made⟩ := end_mine sound leads rfl
    · obtain ⟨empty, holds⟩ := reads_wait made leads some_ waits
      obtain ⟨_, _, _, found, _⟩ := keeps
      exact ⟨rfl, empty, writer_keeps plain sound (List.getElem?_eq_some_iff.mp found).1
        ((held_iff sound.valid rfl).mp holds)⟩
    · cases other
  · intro k fd bytes pipe leads waits
    obtain ⟨⟨other, _⟩ | ⟨_, rfl, _⟩, _, made⟩ := end_mine sound leads rfl
    · cases other
    · obtain ⟨full, holds⟩ := writes_wait made leads waits
      exact ⟨rfl, full, reader_keeps sound leads ((held_iff sound.valid rfl).mp holds)⟩

/-- However the manager and the commands of a line interleave and whatever the commands do
with their descriptors, as long as `pipe` and `fork` succeed. -/
theorem one_pipeline (open_ : (files stdin).isSome ∧ (files stdout).isSome ∧ (files stderr).isSome)
    (room : stderr < limit) (successful : ∀ event ∈ events, Succeeds event)
    (ran : exec (step envPath limit) (start argv files) events = some state) :
    OnePipeline envPath limit state := by
  obtain ⟨sound, flowing⟩ := reached open_ room successful ran
  exact onePipeline_of (fun _ _ => inherited_plain files) sound flowing

/-- Both commands of `a|b` are forked and run. -/
def bothRun : List Event :=
  (PipelineProofs.forkTwo.map (.moved ∘ .moved)) ++
    [.moved (.moved (.called 0)), .moved (.moved (.called 0)), .moved (.moved (.called 0)),
      .moved (.goesOn 0 PipelineCommands.granted), .moved (.moved (.called 1)), .moved (.moved (.called 1)),
      .moved (.goesOn 1 PipelineCommands.granted)]

/-- The first writes and ends, and the second reads all of it, and the end. -/
def readToEnd : List Event :=
  bothRun ++ [.writes 0 1 [104, 105], .reads 1 0 1, .moved (.moved (.ended 0)), .reads 1 0 9, .reads 1 0 9]

private theorem readToEnd_succeeds : ∀ event ∈ readToEnd, Succeeds event := by
  simp [readToEnd, bothRun, PipelineProofs.forkTwo, Succeeds, PipelineCommands.Succeeds, Pipeline.Succeeds]

/-- A run of `a|b` in which the second is told the end of what the first wrote. -/
theorem second_read_all :
    ∃ state command, exec (step (some [0x2f]) 16) (start [[97], bar, [98]] PipelineProofs.threeFiles) readToEnd =
        some state ∧
      state.commands[1]? = some command ∧ command.told = true ∧ writtenBy state 0 = [104, 105] ∧
      command.read = [104, 105] := by
  have reached : ∃ state command,
      exec (step (some [0x2f]) 16) (start [[97], bar, [98]] PipelineProofs.threeFiles) readToEnd = some state ∧
        state.commands[1]? = some command ∧ command.told = true ∧ writtenBy state 0 = [104, 105] :=
    ⟨_, _, rfl, rfl, rfl, rfl⟩
  obtain ⟨state, command, ran, own, told, wrote⟩ := reached
  obtain ⟨pipe, same, all, _⟩ := (one_pipeline ⟨rfl, rfl, rfl⟩ (by decide) readToEnd_succeeds ran).atEnd 1 command
    own told
  obtain rfl : pipe = 0 := by omega
  exact ⟨state, command, ran, own, told, wrote, all.trans wrote⟩

/-- A child that has not ended. -/
def Alive (state : State) (k : Nat) : Prop :=
  ∃ child, state.session.pipeline.children[k]? = some child ∧ child.exited = false

theorem Keeps.alive (keeps : Keeps state k file) : Alive state k := by
  obtain ⟨child, _, _, found, _, runs, _⟩ := keeps
  exact ⟨child, found, runs⟩

/-- The program in a child wants some bytes from its pipe, or one more byte into it. -/
def Wants (limit : Nat) (state : State) (k : Nat) : Event → Prop
  | .reads j fd count => j = k ∧ 0 < count ∧ ∃ pipe, endAt limit state k fd = some (.readEnd pipe)
  | .writes j fd bytes => j = k ∧ bytes.length = 1 ∧ ∃ pipe, endAt limit state k fd = some (.writeEnd pipe)
  | .moved _ | .calls _ _ => False

/-- What a command waits for that wants something. -/
private theorem waits_for (pipeline : OnePipeline envPath limit state)
    (plain : ∀ fd file, state.session.pipeline.manager.fds fd = some file → pipeOf file = none)
    (wants : Wants limit state k wish) :
    (∃ next, step envPath limit state wish = some next) ∨
      (∃ j, k = j + 1 ∧ Alive state j ∧ state.contents[j]? = some []) ∨
      (Alive state (k + 1) ∧ state.contents[k]? ≠ some []) := by
  cases taken : step envPath limit state wish with
  | some next => exact .inl ⟨next, rfl⟩
  | none =>
    right
    cases wish with
    | reads j fd count =>
      obtain ⟨rfl, some_, pipe, leads⟩ := wants
      obtain ⟨same, empty, keeps⟩ := pipeline.reader _ _ _ _ leads some_ taken
      exact .inl ⟨pipe, same, keeps.alive, empty⟩
    | writes j fd bytes =>
      obtain ⟨rfl, one, pipe, leads⟩ := wants
      obtain ⟨rfl, ⟨content, there, full⟩, keeps | ⟨fd, reads⟩⟩ := pipeline.writer _ _ _ _ leads taken
      · refine .inr ⟨keeps.alive, ?_⟩
        rw [there]
        rintro ⟨⟩
        rw [one, List.length_nil] at full
        exact absurd full (by decide)
      · cases plain fd _ reads
    | moved event => exact wants.elim
    | calls j call => exact wants.elim

/-- Once all commands are forked they cannot all wait for each other: of those that have not
ended, if each wants to read or to write, one can. -/
theorem someone_proceeds (open_ : (files stdin).isSome ∧ (files stdout).isSome ∧ (files stderr).isSome)
    (room : stderr < limit) (successful : ∀ event ∈ events, Succeeds event)
    (ran : exec (step envPath limit) (start argv files) events = some state)
    (waiting : state.session.pipeline.manager.place = .waiting waited)
    (there : Alive state some_) (wish : Nat → Event)
    (wants : ∀ k, Alive state k → Wants limit state k (wish k)) :
    ∃ k next, Alive state k ∧ step envPath limit state (wish k) = some next := by
  obtain ⟨sound, flowing⟩ := reached open_ room successful ran
  have pipeline := onePipeline_of (fun _ _ => inherited_plain files) sound flowing
  have here := sound.session.inv.2
  rw [waiting] at here
  have plain (fd : Nat) (file : File) (leads : state.session.pipeline.manager.fds fd = some file) :
      pipeOf file = none := by
    rw [here.1.fds] at leads
    exact inherited_plain files leads
  have each (k : Nat) (alive : Alive state k) := waits_for pipeline plain (wants k alive)
  have ends (k : Nat) (alive : Alive state k) : k ≤ state.session.pipeline.children.length := by
    obtain ⟨_, found, _⟩ := alive
    exact (List.getElem?_eq_some_iff.mp found).1.le
  obtain ⟨k, alive, next, taken⟩ := Library.Waiting.someone_goes_on each ends there
  exact ⟨k, next, alive, taken⟩

/-- In `a|b` the second waits for what the first wants to write. -/
theorem first_proceeds :
    ∃ state, exec (step (some [0x2f]) 16) (start [[97], bar, [98]] PipelineProofs.threeFiles) bothRun = some state ∧
      ∃ k next, Alive state k ∧
        step (some [0x2f]) 16 state (if k = 0 then .writes 0 1 [104] else .reads 1 0 9) = some next := by
  have reached : ∃ state, exec (step (some [0x2f]) 16) (start [[97], bar, [98]] PipelineProofs.threeFiles) bothRun =
      some state ∧ state.session.pipeline.manager.place = .waiting 0 ∧
      state.session.pipeline.children.length = 2 ∧ endAt 16 state 0 1 = some (.writeEnd 0) ∧
      endAt 16 state 1 0 = some (.readEnd 0) := ⟨_, rfl, rfl, rfl, rfl, rfl⟩
  obtain ⟨state, ran, waiting, two, writes, reads⟩ := reached
  have successful : ∀ event ∈ bothRun, Succeeds event := fun event member =>
    readToEnd_succeeds event (List.mem_append_left _ member)
  have there : Alive state 0 := by
    obtain ⟨child, _, found, _, runs, _⟩ := endAt_cases writes
    exact ⟨child, found, runs⟩
  refine ⟨state, ran, someone_proceeds ⟨rfl, rfl, rfl⟩ (by decide) successful ran waiting there _ ?_⟩
  rintro k ⟨_, found, _⟩
  have inside := (List.getElem?_eq_some_iff.mp found).1
  rw [two] at inside
  obtain rfl | rfl : k = 0 ∨ k = 1 := by omega
  · exact ⟨rfl, rfl, 0, writes⟩
  · exact ⟨rfl, by decide, 0, reads⟩

/-! ## Filters -/

/-- What the command with this number reads of a source, where those between are filters. -/
def through (filters : Nat → List UInt8 → List UInt8) (source : List UInt8) : Nat → List UInt8
  | 0 => source
  | k + 1 => filters (k + 1) (through filters source k)

/-- Every command was told the end, and those with one behind them have written all that
their filter makes of what they read. -/
structure Finished (filters : Nat → List UInt8 → List UInt8) (source : List UInt8) (state : State) : Prop where
  first : writtenBy state 0 = source
  told : ∀ (k : Nat) command, state.commands[k + 1]? = some command → command.told = true
  whole : ∀ k, k + 1 < state.commands.length → 0 < k → writtenBy state k = filters k (readBy state k)

/-- A line of filters is their composition: at any time a command has read a part of what
those before it make of the source, from its start, and all of it when they are finished. -/
theorem filters_compose (open_ : (files stdin).isSome ∧ (files stdout).isSome ∧ (files stderr).isSome)
    (room : stderr < limit) (successful : ∀ event ∈ events, Succeeds event)
    (ran : exec (step envPath limit) (start argv files) events = some state)
    (monotone : ∀ k less more, less <+: more → filters k less <+: filters k more)
    (first : writtenBy state 0 <+: source)
    (rest : ∀ k, writtenBy state (k + 1) <+: filters (k + 1) (readBy state (k + 1))) :
    (∀ k < state.contents.length, readBy state (k + 1) <+: through filters source k) ∧
      (Finished filters source state → ∀ k, k + 1 < state.commands.length →
        readBy state (k + 1) = through filters source k) := by
  obtain ⟨_, flowing⟩ := reached open_ room successful ran
  constructor
  · intro k made
    have arrived (k : Nat) (made : k < state.contents.length) : readBy state (k + 1) <+: writtenBy state k :=
      ⟨_, flowing.flow k _ (List.getElem?_eq_getElem made)⟩
    induction k with
    | zero => exact (arrived 0 made).trans first
    | succ k ih =>
      have before_ := ih (by omega)
      exact (arrived (k + 1) made).trans ((rest k).trans (monotone _ _ _ before_))
  · intro finished k inside
    have all (k : Nat) (inside : k + 1 < state.commands.length) : readBy state (k + 1) = writtenBy state k := by
      have own := List.getElem?_eq_getElem inside
      obtain ⟨pipe, same, empty, _⟩ := flowing.told (k + 1) _ own (finished.told k _ own)
      obtain rfl := Nat.add_right_cancel same
      have flow := flowing.flow k [] empty
      rwa [List.append_nil] at flow
    induction k with
    | zero => exact (all 0 inside).trans finished.first
    | succ k ih =>
      rw [all (k + 1) inside, finished.whole (k + 1) inside (Nat.succ_pos k), ih (by omega)]
      rfl

/-- The calls of a child before its program, and the program. -/
def toProgram (k calls : Nat) : List PipelineCommands.Event :=
  List.replicate calls (.moved (.called k)) ++ [.goesOn k PipelineCommands.granted]

/-- The three commands of `a|b|c` are forked and run. -/
def threeRun : List PipelineCommands.Event :=
  [.run, .run, .piped (some (3, 4)), .forked true, .run, .run, .run, .run, .piped (some (4, 5)), .forked true, .run,
    .run, .run, .run, .forked true, .run].map .moved ++ toProgram 0 3 ++ toProgram 1 5 ++ toProgram 2 2

/-- The first writes two bytes, the second adds one to each byte it reads, and the third
reads them, before and behind the end of the second. -/
def filtered : List Event :=
  threeRun.map .moved ++
    [.writes 0 1 [104], .reads 1 0 1, .writes 1 1 [105], .writes 0 1 [105], .moved (.moved (.ended 0)),
      .reads 1 0 9, .reads 1 0 9, .reads 2 0 1, .writes 1 1 [106], .moved (.moved (.ended 1)), .reads 2 0 9,
      .reads 2 0 9]

private theorem filtered_succeeds : ∀ event ∈ filtered, Succeeds event := by
  simp [filtered, threeRun, toProgram, Succeeds, PipelineCommands.Succeeds, Pipeline.Succeeds]

/-- In that run the third has read what the filter in the middle makes of the source. -/
theorem third_read_filtered :
    ∃ state, exec (step (some [0x2f]) 16) (start [[97], bar, [98], bar, [99]] PipelineProofs.threeFiles) filtered =
        some state ∧
      readBy state 2 = through (fun _ => List.map (· + 1)) [104, 105] 1 ∧
      through (fun _ => List.map (· + 1)) [104, 105] 1 = [105, 106] := by
  have reached : ∃ state first second third,
      exec (step (some [0x2f]) 16) (start [[97], bar, [98], bar, [99]] PipelineProofs.threeFiles) filtered =
          some state ∧
        state.commands = [⟨first, [], [104, 105], false, false⟩, ⟨second, [104, 105], [105, 106], true, false⟩,
          ⟨third, [105, 106], [], true, false⟩] := ⟨_, _, _, _, rfl, rfl⟩
  obtain ⟨state, _, _, _, ran, commands⟩ := reached
  have finished : Finished (fun _ => List.map (· + 1)) [104, 105] state := by
    refine ⟨by simp [writtenBy, commands], ?_, ?_⟩
    · rintro (_ | _ | k) command own
      all_goals
        rw [commands] at own
        cases own <;> rfl
    · intro k inside positive
      rw [commands] at inside
      obtain rfl : k = 1 := by simp at inside; omega
      simp [writtenBy, readBy, commands]
  refine ⟨state, ran, (filters_compose ⟨rfl, rfl, rfl⟩ (by decide) filtered_succeeds ran
    (fun _ _ _ part => part.map _) ?_ ?_).2 finished 1 ?_, by decide⟩
  · simp [writtenBy, commands]
  · rintro (_ | _ | k) <;> simp [writtenBy, readBy, commands]
  · simp [commands]

end ShapeQuake.PipelineFlow
