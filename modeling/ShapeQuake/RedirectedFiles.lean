import ShapeQuake.RedirectProofs

/-! What redirections do to the files they name. Every file that is opened for output is
there behind `handle_redirection`, and empty if any `>` named it, whichever of them the
output ends up on; what the command then writes is added to that one, and what it reads
is what is in its input file at the time, its own output not excepted. -/
namespace ShapeQuake.RedirectedFiles
open Library.Runs Redirect RedirectProofs
open Pipeline (Token stdin stdout terminated)
open PipelineProofs (StdOpen threeFiles)

variable {Place : Type} [DecidableEq Place]

/-! ## The files -/

/-- What is in the files, at the places that names lead to; nothing where there is no file. -/
abbrev Contents (Place : Type) := Place → Option (List UInt8)

/-- A call of `open` that succeeds. -/
def openFile (contents : Contents Place) (file : Place) : Flags → Contents Place
  | .input => contents
  | .truncate => Function.update contents file (some [])
  | .append => Function.update contents file (some ((contents file).getD []))

/-- The calls of `open`, where the answers are ones it can give: without `O_CREAT` the file
has to be there. -/
def openAll (place : Token → Place) : Contents Place → List Opening → Option (Contents Place)
  | contents, [] => some contents
  | contents, ⟨_, none⟩ :: rest => openAll place contents rest
  | contents, ⟨request, some _⟩ :: rest =>
    if request.flags = .input ∧ contents (place request.filename) = none then none
    else openAll place (openFile contents (place request.filename) request.flags) rest

/-- The file that a descriptor leads to, and how it was opened. -/
def fileAt (place : Token → Place) (openings : List Opening) (fds : Descriptors) (fd : Nat) :
    Option (Place × Flags) :=
  match fds fd with
  | some (.opened call) =>
    (openings[call]?).map fun opening => (place opening.request.filename, opening.request.flags)
  | _ => none

/-- A command that runs on them: where it is in its input and its output, and what it has
read and written. -/
structure Running (Place : Type) where
  contents : Contents Place
  inOffset : Nat
  outOffset : Nat
  read : List UInt8
  written : List UInt8

inductive Event where
  | reads (count : Nat)
  | writes (bytes : List UInt8)
  deriving DecidableEq, Repr

/-- Bytes stored into a file from an offset on, behind zeros where it is shorter. -/
def overwrite (content : List UInt8) (offset : Nat) (bytes : List UInt8) : List UInt8 :=
  content.take offset ++ List.replicate (offset - content.length) 0 ++ bytes ++
    content.drop (offset + bytes.length)

/-- `read` from the input and `write` to the output. With `O_APPEND` a write starts at the
end of the file. -/
def step (input output : Option (Place × Flags)) (state : Running Place) : Event → Option (Running Place)
  | .reads count => do
    let (file, _) ← input
    let content ← state.contents file
    let bytes := (content.drop state.inOffset).take count
    some { state with inOffset := state.inOffset + bytes.length, read := state.read ++ bytes }
  | .writes bytes => do
    let (file, flags) ← output
    let content ← state.contents file
    let offset := if flags = .append then content.length else state.outOffset
    some { state with
      contents := Function.update state.contents file (some (overwrite content offset bytes))
      outOffset := offset + bytes.length
      written := state.written ++ bytes }

/-! ## What should become of them -/

/-- A call succeeded in opening this file so. -/
def opens (place : Token → Place) (flags : Flags) (file : Place) (opening : Opening) : Bool :=
  opening.fd.isSome ∧ opening.request.flags = flags ∧ place opening.request.filename = file

/-- A file behind the redirections: empty if one of them truncated it, and there if one of
them appends to it. -/
def shaped (place : Token → Place) (openings : List Opening) (contents : Contents Place) : Contents Place :=
  fun file =>
    if openings.any (opens place .truncate file) then some []
    else if openings.any (opens place .append file) then some ((contents file).getD [])
    else contents file

/-- The last call that succeeded for a descriptor. -/
def lastFor (target : Nat) (openings : List Opening) : Option Opening :=
  (openings.filter fun opening => opening.fd.isSome ∧ opening.request.flags.target = target).getLast?

section
variable {contents after : Contents Place}

theorem openFile_there (there : (contents file).isSome) : (openFile contents other flags file).isSome := by
  cases flags with
  | input => exact there
  | truncate | append =>
    simp only [openFile, Function.update_apply]
    split
    · rfl
    · exact there

theorem shaped_cons (place : Token → Place) (request : Request) (fd : Nat) (rest : List Opening)
    (contents : Contents Place) :
    shaped place (⟨request, some fd⟩ :: rest) contents =
      shaped place rest (openFile contents (place request.filename) request.flags) := by
  funext file
  by_cases here : place request.filename = file
  · subst here
    cases flags : request.flags <;> simp [shaped, opens, openFile, flags]
  · have same : openFile contents (place request.filename) request.flags file = contents file := by
      cases request.flags with
      | input => rfl
      | truncate | append => exact Function.update_of_ne (Ne.symm here) _ _
    simp [shaped, opens, here, same]

/-- What the calls make of the files. -/
theorem openAll_shaped (ran : openAll place contents openings = some after) :
    after = shaped place openings contents := by
  induction openings generalizing contents with
  | nil =>
    cases ran
    funext file
    simp [shaped]
  | cons opening rest ih =>
    obtain ⟨request, fd⟩ := opening
    cases fd with
    | none =>
      rw [ih ran]
      funext file
      simp [shaped, opens]
    | some fd =>
      rw [openAll] at ran
      split at ran
      · cases ran
      · rw [shaped_cons]
        exact ih ran

private theorem openAll_keeps (ran : openAll place contents openings = some after)
    (there : (contents file).isSome) : (after file).isSome := by
  induction openings generalizing contents with
  | nil =>
    cases ran
    exact there
  | cons opening rest ih =>
    obtain ⟨request, fd⟩ := opening
    cases fd with
    | none => exact ih ran there
    | some fd =>
      rw [openAll] at ran
      split at ran
      · cases ran
      · exact ih ran (openFile_there there)

/-- A file that was opened is there. -/
theorem openAll_there (ran : openAll place contents openings = some after)
    (member : opening ∈ openings) (succeeded : opening.fd.isSome) :
    (after (place opening.request.filename)).isSome := by
  induction openings generalizing contents with
  | nil => cases member
  | cons first rest ih =>
    obtain ⟨request, fd⟩ := first
    cases fd with
    | none =>
      rcases List.mem_cons.mp member with rfl | later
      · cases succeeded
      · exact ih ran later
    | some fd =>
      rw [openAll] at ran
      split at ran
      · cases ran
      · rename_i possible
        rcases List.mem_cons.mp member with rfl | later
        · apply openAll_keeps ran
          cases flags : request.flags with
          | input =>
            have there : contents (place request.filename) ≠ none := fun none_ => possible ⟨flags, none_⟩
            exact Option.isSome_iff_ne_none.mpr there
          | truncate | append => simp [openFile]
        · exact ih ran later

end

/-! ## Where the descriptors lead -/

theorem failsFor_iff (target : Nat) (opening : Opening) :
    FailsFor target opening ↔ ¬ (opening.fd.isSome ∧ opening.request.flags.target = target) := by
  simp only [FailsFor, not_and, Option.isSome_iff_ne_none]
  constructor
  · exact fun fails there same => there (fails same)
  · intro other same
    by_contra there
    exact other there same

private theorem lastFor_split (found : lastFor target openings = some opening) :
    ∃ earlier later, openings = earlier ++ opening :: later ∧ ¬ FailsFor target opening ∧
      ∀ after ∈ later, FailsFor target after := by
  induction openings using List.reverseRecOn with
  | nil => cases found
  | append_singleton openings final ih =>
    rw [lastFor, List.filter_append] at found
    by_cases fails : FailsFor target final
    · have dropped := (failsFor_iff target final).mp fails
      rw [List.filter_singleton, decide_eq_false dropped, cond_false, List.append_nil] at found
      obtain ⟨earlier, later, rfl, succeeds, failing⟩ := ih found
      refine ⟨earlier, later ++ [final], by simp, succeeds, ?_⟩
      intro after member
      rcases List.mem_append.mp member with old | last
      · exact failing after old
      · rw [List.mem_singleton.mp last]
        exact fails
    · have kept := not_not.mp (mt (failsFor_iff target final).mpr fails)
      rw [List.filter_singleton, decide_eq_true kept, cond_true, List.getLast?_concat] at found
      cases found
      exact ⟨openings, [], rfl, fails, fun _ member => by cases member⟩

private theorem lastFor_none (nothing : lastFor target openings = none) :
    ∀ opening ∈ openings, FailsFor target opening := by
  intro opening member
  rw [lastFor, List.getLast?_eq_none_iff, List.filter_eq_nil_iff] at nothing
  rw [failsFor_iff]
  simpa using nothing opening member

omit [DecidableEq Place] in
/-- A descriptor leads to the file of the last call for it that succeeded. -/
theorem fileAt_last (place : Token → Place) (leads : Leads openings target was (fds target))
    (elsewhere : ∀ call, was ≠ some (.opened call)) :
    fileAt place openings fds target =
      (lastFor target openings).map fun opening => (place opening.request.filename, opening.request.flags) := by
  cases found : lastFor target openings with
  | none =>
    rw [fileAt, leads.unmoved (lastFor_none found)]
    split
    · rename_i call
      exact absurd rfl (elsewhere call)
    · rfl
  | some opening =>
    obtain ⟨earlier, later, whole, succeeds, failing⟩ := lastFor_split found
    rw [fileAt, leads.last earlier opening later whole succeeds failing]
    simp [whole]

theorem lastFor_opened (found : lastFor target openings = some opening) :
    opening ∈ openings ∧ opening.fd.isSome ∧ opening.request.flags.target = target := by
  obtain ⟨earlier, later, rfl, succeeds, _⟩ := lastFor_split found
  refine ⟨by simp, ?_⟩
  exact not_not.mp (mt (failsFor_iff target opening).mpr succeeds)

/-! ## A command that runs on them -/

@[simp] theorem overwrite_end (content bytes : List UInt8) :
    overwrite content content.length bytes = content ++ bytes := by
  simp [overwrite]

/-- What a command has done to the files that were there, where its output starts behind
what was in its file. -/
structure Wrote (input output : Option (Place × Flags)) (after : Contents Place) (state : Running Place) :
    Prop where
  contents : ∀ file, state.contents file =
    if output.map Prod.fst = some file then (after file).map (· ++ state.written) else after file
  offset : ∀ file flags, output = some (file, flags) → flags ≠ .append →
    after file = some [] ∧ state.outOffset = state.written.length
  read : ∀ file flags, input = some (file, flags) → ∃ content, state.contents file = some content ∧
    state.read <+: content ∧ state.inOffset = state.read.length

section
variable {input output : Option (Place × Flags)} {after : Contents Place} {state next : Running Place}

private theorem reads_wrote (wrote : Wrote input output after state)
    (taken : step input output state (.reads count) = some next) : Wrote input output after next := by
  obtain ⟨⟨file, flags⟩, reading, more⟩ := Option.bind_eq_some_iff.mp taken
  obtain ⟨content, there, done⟩ := Option.bind_eq_some_iff.mp more
  cases done
  refine ⟨wrote.contents, wrote.offset, ?_⟩
  intro other others same
  cases reading.symm.trans same
  obtain ⟨found, held, ⟨rest, rfl⟩, offset⟩ := wrote.read file flags reading
  cases there.symm.trans held
  refine ⟨_, held, ?_, ?_⟩
  · rw [offset, List.drop_left]
    exact (List.prefix_append_right_inj _).mpr (List.take_prefix _ _)
  · simp [offset]

private theorem writes_wrote (wrote : Wrote input output after state)
    (taken : step input output state (.writes bytes) = some next) : Wrote input output after next := by
  obtain ⟨⟨file, flags⟩, writing, more⟩ := Option.bind_eq_some_iff.mp taken
  obtain ⟨content, there, done⟩ := Option.bind_eq_some_iff.mp more
  have was := wrote.contents file
  rw [writing, Option.map_some, if_pos rfl, there] at was
  obtain ⟨base, held, rfl⟩ := Option.map_eq_some_iff.mp was.symm
  -- Both ways of opening write at the end, since nothing else writes to the file.
  have stored : overwrite (base ++ state.written)
      (if flags = .append then (base ++ state.written).length else state.outOffset) bytes =
        base ++ (state.written ++ bytes) := by
    split
    · rw [overwrite_end, List.append_assoc]
    · rename_i truncated
      obtain ⟨empty, offset⟩ := wrote.offset file flags writing truncated
      cases held.symm.trans empty
      rw [offset, List.nil_append, overwrite_end, List.nil_append]
  simp only [stored] at done
  cases done
  refine ⟨?_, ?_, ?_⟩
  · intro other
    simp only [Function.update_apply, writing, Option.map_some]
    split
    · rename_i same
      subst same
      rw [if_pos rfl, held]
      rfl
    · rename_i different
      rw [wrote.contents other, writing, Option.map_some, if_neg (by simpa using Ne.symm different),
        if_neg (by simpa using Ne.symm different)]
  · intro other others same truncated
    cases writing.symm.trans same
    obtain ⟨empty, offset⟩ := wrote.offset file flags writing truncated
    refine ⟨empty, ?_⟩
    rw [if_neg truncated, offset, List.length_append]
  · intro other others reading
    obtain ⟨found, holds, part, offset⟩ := wrote.read other others reading
    simp only [Function.update_apply]
    split
    · rename_i same
      subst same
      cases there.symm.trans holds
      refine ⟨_, rfl, part.trans ?_, offset⟩
      rw [← List.append_assoc]
      exact List.prefix_append _ _
    · exact ⟨found, holds, part, offset⟩

theorem step_wrote (wrote : Wrote input output after state)
    (taken : step input output state event = some next) : Wrote input output after next := by
  cases event with
  | reads count => exact reads_wrote wrote taken
  | writes bytes => exact writes_wrote wrote taken

end

/-! ## The whole -/

/-- The file of the last call that succeeded for a descriptor. -/
def lastFile (place : Token → Place) (target : Nat) (openings : List Opening) : Option Place :=
  (lastFor target openings).map fun opening => place opening.request.filename

private theorem lastFor_flags (found : lastFor stdout openings = some opening)
    (truncated : opening.request.flags ≠ .append) : opening.request.flags = .truncate := by
  have target := (lastFor_opened found).2.2
  cases flags : opening.request.flags with
  | input =>
    rw [flags] at target
    cases target
  | truncate => rfl
  | append => exact absurd flags truncated

/-- A command that has not begun has done nothing, with its output opened for a write at
the end and its input there. -/
private theorem wrote_start {contents after : Contents Place}
    (opened : openAll place contents openings = some after)
    (output : fileAt place openings fds stdout =
      (lastFor stdout openings).map fun opening => (place opening.request.filename, opening.request.flags))
    (input : fileAt place openings fds stdin =
      (lastFor stdin openings).map fun opening => (place opening.request.filename, opening.request.flags)) :
    Wrote (fileAt place openings fds stdin) (fileAt place openings fds stdout) after ⟨after, 0, 0, [], []⟩ := by
  refine ⟨?_, ?_, ?_⟩
  · intro file
    simp
  · intro file flags writes truncated
    rw [output] at writes
    obtain ⟨opening, found, same⟩ := Option.map_eq_some_iff.mp writes
    cases same
    obtain ⟨member, succeeded, _⟩ := lastFor_opened found
    refine ⟨?_, rfl⟩
    rw [openAll_shaped opened, shaped, if_pos]
    apply List.any_eq_true.mpr
    exact ⟨opening, member, by simp [opens, succeeded, lastFor_flags found truncated]⟩
  · intro file flags reads
    rw [input] at reads
    obtain ⟨opening, found, same⟩ := Option.map_eq_some_iff.mp reads
    cases same
    obtain ⟨member, succeeded, _⟩ := lastFor_opened found
    obtain ⟨content, held⟩ := Option.isSome_iff_exists.mp (openAll_there opened member succeeded)
    exact ⟨content, held, List.nil_prefix, rfl⟩

/-- From an argument vector and the files to the files behind the command, whichever calls of
`open` succeed and however the command reads and writes: what is asked for is read off
`argv`, every file named by a `>` that was opened starts empty and every one named by a `>>`
is there, what the command writes is added to the file of the last of them and to no other,
and what it reads is the start of what is in the file of the last `<`. -/
theorem files_redirected (argv : List Token) (beyond : List (Option Token)) (files : Pipeline.Descriptors)
    (stdOpen : StdOpen files) (free : ∀ call fd, answers call = some fd → files fd = none)
    (handled : handleRedirection answers (terminated argv ++ beyond) (before files) = some scan)
    (place : Token → Place) (contents : Contents Place)
    (opened : openAll place contents scan.openings = some after)
    (ran : exec (step (fileAt place scan.openings scan.fds stdin) (fileAt place scan.openings scan.fds stdout))
      ⟨after, 0, 0, [], []⟩ events = some final) :
    scan.openings = opensFor answers (requests takenFor argv) ∧
    (∀ file, final.contents file =
      if lastFile place stdout scan.openings = some file then
        (shaped place scan.openings contents file).map (· ++ final.written)
      else shaped place scan.openings contents file) ∧
    (∀ file, lastFile place stdin scan.openings = some file →
      ∃ content, final.contents file = some content ∧ final.read <+: content) := by
  obtain ⟨stale, _, walked⟩ := handleRedirection_reads answers argv beyond (before files)
  cases handled.symm.trans walked
  have unused (call fd : Nat) (answer : answers call = some fd) : before files fd = none := by
    rw [before, free call fd answer]
    rfl
  have there (fd : Nat) (taken : files fd ≠ none) : before files fd ≠ none := by
    simpa [before] using taken
  have elsewhere (fd call : Nat) : before files fd ≠ some (.opened call) := by
    simp [before]
  have output := fileAt_last place (fdsAfter_leads unused (requests takenFor argv) (there stdout stdOpen.2.1))
    (elsewhere stdout)
  have input := fileAt_last place (fdsAfter_leads unused (requests takenFor argv) (there stdin stdOpen.1))
    (elsewhere stdin)
  have start := wrote_start opened output input
  have wrote := exec_invariant (fun _ _ _ wrote taken => step_wrote wrote taken) start ran
  have shape := openAll_shaped opened
  refine ⟨rfl, ?_, ?_⟩
  · intro file
    have files_ := wrote.contents file
    rwa [output, Option.map_map, shape] at files_
  · intro file last
    obtain ⟨opening, found, rfl⟩ := Option.map_eq_some_iff.mp last
    rw [found] at input
    obtain ⟨content, held, part, _⟩ := wrote.read _ _ input
    exact ⟨content, held, part⟩

/-- `a > f >> g`, with files at both names. -/
def twoOutputs : List Token := [[0x61], [greater], [0x66], [greater, greater], [0x67]]

def twoFiles (file : Token) : Option (List UInt8) :=
  if file = [0x66] then some [1, 2, 3] else if file = [0x67] then some [4] else none

/-- What is written goes to the second; the first is emptied all the same. -/
theorem second_written_first_emptied :
    ∃ scan after final, handleRedirection (fun _ => some 3) (terminated twoOutputs)
        (before (Pipeline.inherited threeFiles)) = some scan ∧
      openAll id twoFiles scan.openings = some after ∧
      exec (step (fileAt id scan.openings scan.fds stdin) (fileAt id scan.openings scan.fds stdout))
        ⟨after, 0, 0, [], []⟩ [.writes [5], .writes [6, 7]] = some final ∧
      final.contents [0x66] = some [] ∧ final.contents [0x67] = some [4, 5, 6, 7] := by
  have reached : ∃ scan after final, handleRedirection (fun _ => some 3) (terminated twoOutputs)
        (before (Pipeline.inherited threeFiles)) = some scan ∧
      openAll id twoFiles scan.openings = some after ∧
      exec (step (fileAt id scan.openings scan.fds stdin) (fileAt id scan.openings scan.fds stdout))
        ⟨after, 0, 0, [], []⟩ [.writes [5], .writes [6, 7]] = some final ∧ final.written = [5, 6, 7] :=
    ⟨_, _, _, rfl, rfl, rfl, rfl⟩
  obtain ⟨scan, after, final, handled, opened, ran, written⟩ := reached
  have stdOpen : StdOpen (Pipeline.inherited threeFiles) := by
    simp [StdOpen, Pipeline.inherited, threeFiles, stdin, stdout, Pipeline.stderr]
  obtain ⟨openings, contents, _⟩ := @files_redirected Token _ (fun _ => some 3) scan after _ final twoOutputs []
    (Pipeline.inherited threeFiles) stdOpen (fun call fd answer => by cases answer; rfl)
    ((List.append_nil _).symm ▸ handled) id twoFiles opened ran
  refine ⟨scan, after, final, handled, opened, ran, ?_, ?_⟩
  · rw [contents, openings]
    rfl
  · rw [contents, openings, written]
    rfl

end ShapeQuake.RedirectedFiles
