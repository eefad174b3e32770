import ShapeQuake.CommandLines
import ShapeQuake.CommandPath
import ShapeQuake.RedirectProofs

/-! From a command line to the programs that it runs. A child of `extract_pipe` goes on
from its calls through `handle_redirection` and `resolve_path` to `execve`, while the
manager and the other children go on as well. -/
namespace ShapeQuake.PipelineCommands
open Library.Runs Pipeline PipelineProofs RedirectProofs CommandLines
open Redirect (handleRedirection cell elements)
open CommandPath (resolvePath)
open Tokenizer (pipe)

/-! ## The program -/

/-- What the system answers a child: `open` and `strdup` by the number of the call, `access`
by the path, and whether `execve` succeeds. -/
structure Answers where
  opens : Nat → Option Nat
  memory : Nat → Bool
  access : Token → Bool
  execs : Bool

/-- What a child comes to. -/
inductive Outcome where
  /-- `execve` runs a program, with these arguments and descriptors. -/
  | runs (path : Token) (args : List Token) (fds : Redirect.Descriptors)
  /-- `_exit(127)`, behind a message that names the command. -/
  | notFound (cmd : Token) (fds : Redirect.Descriptors)
  /-- A null is read through. -/
  | crashed

/-- What a child does behind its calls, where that has a result. -/
def goOn (envPath : Option Token) (answers : Answers) (currentArgv : List (Option Token))
    (fds : Redirect.Descriptors) : Option Outcome := do
  let scan ← handleRedirection answers.opens currentArgv fds
  let cmd ← (← cell scan.argv 0)
  let resolution ← resolvePath answers.access answers.memory envPath cmd
  match resolution.resolved with
  | some path =>
    if answers.execs then some (.runs path (elements scan.argv) scan.fds) else some (.notFound cmd scan.fds)
  | none => some (.notFound cmd scan.fds)

/-- A child behind its calls: `current_argv` with the memory behind it, and what the child
came to, with the answers it got. -/
structure Program where
  currentArgv : List (Option Token)
  fate : Option (Answers × Outcome)

/-- The processes of a pipeline with the programs of its children. -/
structure Session where
  pipeline : State
  programs : List Program

/-- A step of `extract_pipe`, or a child that goes on from its calls. -/
inductive Event where
  | moved (event : Pipeline.Event)
  | goesOn (child : Nat) (answers : Answers)

/-- The call of `extract_pipe`. -/
def start (argv : List Token) (files : Nat → Option Nat) : Session := ⟨Pipeline.start argv files, []⟩

/-- The programs behind a step of `extract_pipe`: a fork copies the memory, and a child
does not end before it came to something. -/
def programsAfter (session : Session) : Pipeline.Event → Option (List Program)
  | .forked true =>
    let manager := session.pipeline.manager
    some (session.programs ++ [⟨manager.argv.drop manager.cmdStart, none⟩])
  | .ended k => do
    let program ← session.programs[k]?
    if program.fate.isSome then some session.programs else none
  | _ => some session.programs

/-- One step of one of the processes. -/
def step (envPath : Option Token) (session : Session) : Event → Option Session
  | .moved event => do
    let pipeline ← Pipeline.step session.pipeline event
    let programs ← programsAfter session event
    some ⟨pipeline, programs⟩
  | .goesOn k answers => do
    let child ← session.pipeline.children[k]?
    let program ← session.programs[k]?
    if child.calls = [] ∧ program.fate.isNone then
      let outcome := (goOn envPath answers program.currentArgv (before child.fds)).getD .crashed
      some { session with programs := session.programs.set k { program with fate := some (answers, outcome) } }
    else none

/-- `pipe` and `fork` succeed. -/
def Succeeds : Event → Prop
  | .moved event => Pipeline.Succeeds event
  | .goesOn _ _ => True

/-! ## What a child should come to -/

/-- What a command comes to, by itself. -/
def outcomeOf (envPath : Option Token) (answers : Answers) (command : List Token)
    (fds : Redirect.Descriptors) : Outcome :=
  match kept takenFor command with
  | [] => .crashed
  | cmd :: args =>
    let after := fdsAfter answers.opens fds (requests takenFor command)
    match resolvePath answers.access answers.memory envPath cmd with
    | none => .crashed
    | some resolution =>
      match resolution.resolved with
      | some path => if answers.execs then .runs path (cmd :: args) after else .notFound cmd after
      | none => .notFound cmd after

/-- What it comes to is decided by the command and the descriptors it is handed. -/
theorem goOn_outcome (envPath : Option Token) (answers : Answers) (command : List Token)
    (beyond : List (Option Token)) (fds : Redirect.Descriptors) :
    (goOn envPath answers (terminated command ++ beyond) fds).getD .crashed =
      outcomeOf envPath answers command fds := by
  obtain ⟨stale, _, ran⟩ := handleRedirection_reads answers.opens command beyond fds
  rw [goOn, ran, outcomeOf]
  cases left : kept takenFor command with
  | nil => rfl
  | cons cmd args =>
    have first : cell (terminated (cmd :: args) ++ (stale ++ beyond)) 0 = some (some cmd) := rfl
    simp only [Option.bind_eq_bind, Option.bind_some, first, elements_terminated]
    cases resolvePath answers.access answers.memory envPath cmd with
    | none => rfl
    | some resolution =>
      simp only [Option.bind_some]
      cases resolution.resolved with
      | none => rfl
      | some path => cases answers.execs <;> rfl

/-! ## One step -/

/-- A fork finds the piece in memory, up to its null. -/
theorem memory_cut (piece : Piece argv manager done scanned rest) (cut : Cut argv manager rest) :
    ∃ beyond, manager.argv.drop manager.cmdStart = terminated scanned ++ beyond := by
  obtain ⟨front, rfl, start, index⟩ := piece.whole
  have spot : manager.i = (front.map some ++ scanned.map some : List (Option Token)).length := by
    simp [index]
  have shape : terminated (front ++ scanned ++ rest) =
      (front.map some ++ scanned.map some) ++ terminated rest := by
    simp [terminated]
  have behind : front.length = (front.map some : List (Option Token)).length := (List.length_map _).symm
  refine ⟨(terminated rest).tail, ?_⟩
  rw [cut.memory, shape, spot, List.set_append_right _ _ (Nat.le_refl _), Nat.sub_self, start, List.append_assoc,
    behind, List.drop_left]
  cases rest <;> simp [terminated]

/-- What holds of a child and its program: the memory holds the piece, and what the child
came to is what its piece comes to, on the descriptors it was to be handed. -/
structure Fated (envPath : Option Token) (base : Descriptors) (last j : Nat) (child : Child)
    (program : Program) : Prop where
  memory : ∃ beyond, program.currentArgv = terminated child.argv ++ beyond
  fate : ∀ answers outcome, program.fate = some (answers, outcome) →
    outcome = outcomeOf envPath answers child.argv (before (handedOver base last j))
  ended : child.exited = true → program.fate.isSome

/-- What holds between any two steps. -/
structure Sound (envPath : Option Token) (argv : List Token) (base : Descriptors) (session : Session) :
    Prop where
  inv : Inv argv base session.pipeline
  programs : session.programs.length = session.pipeline.children.length
  fated : ∀ j child program, session.pipeline.children[j]? = some child → session.programs[j]? = some program →
    Fated envPath base (argv.count bar) j child program

theorem sound_start (envPath : Option Token) (argv : List Token) (files : Nat → Option Nat) :
    Sound envPath argv (inherited files) (start argv files) where
  inv := inv_start argv files
  programs := rfl
  fated := by simp [start, Pipeline.start]

/-- Children that keep their pieces, and end where their programs came to something, stay
with their programs. -/
private theorem fated_set (sound : Sound envPath argv base session) {old new : Child}
    (found : session.pipeline.children[k]? = some old) (inv : Inv argv base next)
    (children : next.children = session.pipeline.children.set k new) (same : new.argv = old.argv)
    (ended : new.exited = true → old.exited = true ∨
      ∀ program, session.programs[k]? = some program → program.fate.isSome) :
    Sound envPath argv base ⟨next, session.programs⟩ := by
  refine ⟨inv, ?_, ?_⟩
  · rw [children, List.length_set]
    exact sound.programs
  · intro j child program here own
    rw [children, List.getElem?_set] at here
    split at here
    · rename_i at_
      subst at_
      split at here
      · cases here
        obtain ⟨memory, fate, before_⟩ := sound.fated k old program found own
        rw [← same] at memory fate
        refine ⟨memory, fate, fun gone => ?_⟩
        rcases ended gone with was | came
        · exact before_ was
        · exact came program own
      · cases here
    · exact sound.fated j child program here own

private theorem fork_sound (stdOpen : StdOpen base) (sound : Sound envPath argv base session)
    (ran : forkReturns session.pipeline true = some next) :
    Sound envPath argv base
      ⟨next, session.programs ++
        [⟨session.pipeline.manager.argv.drop session.pipeline.manager.cmdStart, none⟩]⟩ := by
  have inv := fork_keeps stdOpen sound.inv ran
  obtain ⟨place, rfl⟩ := fork_cases ran
  have here := sound.inv.2
  rw [place] at here
  obtain ⟨_, scanned, rest, piece, cut, _⟩ := here
  refine ⟨inv, by simp [sound.programs], ?_⟩
  intro j child program found own
  rw [List.getElem?_append] at found own
  rw [sound.programs] at own
  split at found
  · rename_i inside
    rw [if_pos inside] at own
    exact sound.fated j child program found own
  · rename_i behind
    rw [if_neg behind] at own
    rw [List.getElem?_singleton] at found own
    split at found
    · rename_i only
      rw [if_pos only] at own
      cases found
      cases own
      refine ⟨?_, by simp, by simp⟩
      rw [currentArgv_cut piece cut]
      exact memory_cut piece cut
    · cases found

/-- The manager alone does not touch the children. -/
private theorem run_children (taken : Pipeline.step state .run = some next) :
    next.children = state.children := by
  obtain ⟨manager, _, rfl⟩ := Option.map_eq_some_iff.mp taken
  rfl

private theorem moved_sound (stdOpen : StdOpen base) (sound : Sound envPath argv base session)
    (successful : Pipeline.Succeeds event) (taken : Pipeline.step session.pipeline event = some next)
    (carried : programsAfter session event = some programs) :
    Sound envPath argv base ⟨next, programs⟩ := by
  have inv := step_keeps stdOpen sound.inv successful taken
  cases event with
  | run =>
    cases carried
    have same := run_children taken
    exact ⟨inv, same ▸ sound.programs, fun j child program found => sound.fated j child program (same ▸ found)⟩
  | piped answer =>
    cases carried
    cases answer with
    | none => exact successful.elim
    | some answer =>
      obtain ⟨_, _, rfl⟩ := pipe_cases taken
      exact ⟨inv, sound.programs, sound.fated⟩
  | forked success =>
    cases success with
    | false => exact successful.elim
    | true =>
      cases carried
      exact fork_sound stdOpen sound taken
  | waited answer =>
    cases carried
    obtain ⟨k, child, _, _, _, found, exited, _, rfl⟩ := wait_cases sound.inv taken
    exact fated_set sound found inv rfl rfl fun _ => .inl exited
  | called k =>
    cases carried
    obtain ⟨child, call, calls, found, _, rfl⟩ := called_cases taken
    exact fated_set sound found inv rfl rfl .inl
  | ended k =>
    obtain ⟨program, own, came⟩ := Option.bind_eq_some_iff.mp carried
    obtain ⟨child, found, _, _, rfl⟩ := ended_cases taken
    split at came
    · rename_i there
      cases came
      refine fated_set sound found inv rfl rfl fun _ => .inr fun other same => ?_
      cases own.symm.trans same
      exact there
    · cases came

/-- What a child comes to. -/
theorem goesOn_cases (taken : step envPath session (.goesOn k answers) = some next) :
    ∃ child program, session.pipeline.children[k]? = some child ∧ session.programs[k]? = some program ∧
      child.calls = [] ∧ next = { session with
        programs := session.programs.set k { program with
          fate := some (answers,
            (goOn envPath answers program.currentArgv (before child.fds)).getD .crashed) } } := by
  obtain ⟨child, found, more⟩ := Option.bind_eq_some_iff.mp taken
  obtain ⟨program, own, done⟩ := Option.bind_eq_some_iff.mp more
  split at done
  · rename_i ready
    cases done
    exact ⟨child, program, found, own, ready.1, rfl⟩
  · cases done

private theorem goesOn_sound (sound : Sound envPath argv base session)
    (taken : step envPath session (.goesOn k answers) = some next) : Sound envPath argv base next := by
  obtain ⟨child, program, found, own, handed, rfl⟩ := goesOn_cases taken
  refine ⟨sound.inv, ?_, ?_⟩
  · simp only [List.length_set]
    exact sound.programs
  · intro j other now here there
    obtain ⟨⟨beyond, memory⟩, fate, ended⟩ := sound.fated k child program found own
    simp only [List.getElem?_set] at there
    split at there
    · rename_i at_
      subst at_
      split at there
      · cases there
        cases found.symm.trans here
        refine ⟨⟨beyond, memory⟩, ?_, fun _ => rfl⟩
        rintro _ _ ⟨⟩
        have result := sound.inv.1.calls k child found
        rw [handed, List.foldl_nil] at result
        rw [memory, goOn_outcome, result]
      · cases there
    · exact sound.fated j other now here there

theorem step_sound (stdOpen : StdOpen base) (sound : Sound envPath argv base session)
    (successful : Succeeds event) (taken : step envPath session event = some next) :
    Sound envPath argv base next := by
  cases event with
  | moved event =>
    obtain ⟨pipeline, ran, more⟩ := Option.bind_eq_some_iff.mp taken
    obtain ⟨programs, carried, done⟩ := Option.bind_eq_some_iff.mp more
    cases done
    exact moved_sound stdOpen sound successful ran carried
  | goesOn k answers => exact goesOn_sound sound taken

/-! ## Runs -/

/-- Where the input of a child leads that makes no redirection. -/
def inputOf (files : Nat → Option Nat) (j : Nat) : Option File :=
  if j = 0 then inherited files stdin else some (.readEnd (j - 1))

/-- And its output. -/
def outputOf (files : Nat → Option Nat) (last j : Nat) : Option File :=
  if j = last then inherited files stdout else some (.writeEnd j)

/-- What the child for the piece with this number comes to: where the piece names a program
that can be found and run, that is run without the redirections, on the ends of its pipes
and on the files that it was redirected to. -/
def ComesTo (envPath : Option Token) (files : Nat → Option Nat) (last j : Nat) (command : List Token)
    (answers : Answers) : Outcome → Prop
  | .runs path args fds =>
    args = kept takenFor command ∧ args ≠ [] ∧ answers.execs = true ∧
    (∃ resolution, resolvePath answers.access answers.memory envPath (args.headD []) = some resolution ∧
      resolution.resolved = some path) ∧
    Leads (opensFor answers.opens (requests takenFor command)) stdin ((inputOf files j).map .before) (fds stdin) ∧
    Leads (opensFor answers.opens (requests takenFor command)) stdout ((outputOf files last j).map .before)
      (fds stdout) ∧
    ∀ fd, fd ≠ stdin → fd ≠ stdout → fds fd = (inherited files fd).map .before
  | .notFound cmd _ =>
    (kept takenFor command).head? = some cmd ∧
    ∃ resolution, resolvePath answers.access answers.memory envPath cmd = some resolution ∧
      (resolution.resolved.isSome → answers.execs = false)
  | .crashed =>
    ∀ cmd, (kept takenFor command).head? = some cmd →
      resolvePath answers.access answers.memory envPath cmd = none

/-- The descriptors that are free in the caller are free in a child. -/
private theorem handedOver_free (stdOpen : StdOpen (inherited files)) (free : inherited files fd = none) :
    handedOver (inherited files) last j fd = none := by
  have input : fd ≠ stdin := fun same => stdOpen.1 (same ▸ free)
  have output : fd ≠ stdout := fun same => stdOpen.2.1 (same ▸ free)
  rw [handedOver, if_neg (by simp [input]), if_neg (by simp [output]), free]

theorem handedOver_input (files : Nat → Option Nat) (last j : Nat) :
    handedOver (inherited files) last j stdin = inputOf files j := by
  by_cases first : j = 0
  · simp [handedOver, inputOf, first, stdin, stdout]
  · rw [handedOver, if_pos ⟨rfl, Nat.pos_of_ne_zero first⟩, inputOf, if_neg first]

theorem handedOver_output (files : Nat → Option Nat) (inside : j ≤ last) :
    handedOver (inherited files) last j stdout = outputOf files last j := by
  rw [handedOver, if_neg (by simp [stdin, stdout]), outputOf]
  by_cases final : j = last
  · rw [if_neg (by omega), if_pos final]
  · rw [if_pos ⟨rfl, by omega⟩, if_neg final]

/-- What a command comes to on what it is handed is what it should. -/
theorem comesTo_outcome (stdOpen : StdOpen (inherited files))
    (free : ∀ call fd, answers.opens call = some fd → files fd = none) (inside : j ≤ last) :
    ComesTo envPath files last j command answers
      (outcomeOf envPath answers command (before (handedOver (inherited files) last j))) := by
  have unused (call fd : Nat) (answer : answers.opens call = some fd) :
      before (handedOver (inherited files) last j) fd = none := by
    rw [before, handedOver_free stdOpen (by rw [inherited, free call fd answer]; rfl)]
    rfl
  have input := handedOver_input files last j
  have output := handedOver_output files inside
  have reads : before (handedOver (inherited files) last j) stdin ≠ none := by
    rw [before, input, inputOf]
    split
    · simpa using stdOpen.1
    · simp
  have writes : before (handedOver (inherited files) last j) stdout ≠ none := by
    rw [before, output, outputOf]
    split
    · simpa using stdOpen.2.1
    · simp
  unfold outcomeOf
  cases left : kept takenFor command with
  | nil => simp [ComesTo, left]
  | cons cmd args =>
    simp only
    cases found : resolvePath answers.access answers.memory envPath cmd with
    | none => simp [ComesTo, left, found]
    | some resolution =>
      simp only
      cases path : resolution.resolved with
      | none => exact ⟨by rw [left]; rfl, resolution, found, by simp [path]⟩
      | some path =>
        simp only
        cases execs : answers.execs with
        | false => exact ⟨by rw [left]; rfl, resolution, found, fun _ => execs⟩
        | true =>
          refine ⟨left.symm, List.cons_ne_nil cmd args, execs, ⟨resolution, found, path⟩, ?_, ?_,
            fun fd input output => ?_⟩
          · rw [← input]
            exact fdsAfter_leads unused _ reads
          · rw [← output]
            exact fdsAfter_leads unused _ writes
          · refine (fdsAfter_others unused _ input output).trans ?_
            rw [before, handedOver, if_neg (by simp [input]), if_neg (by simp [output])]

private theorem sound_reached (stdOpen : StdOpen (inherited files)) (successful : ∀ event ∈ events, Succeeds event)
    (ran : exec (step envPath) (start argv files) events = some session) :
    Sound envPath argv (inherited files) session :=
  exec_invariant_of_allowed (fun _ _ _ sound success taken => step_sound stdOpen sound success taken)
    (sound_start envPath argv files) ran successful

/-- When the manager has exited, every child came to something. -/
private theorem all_came (sound : Sound envPath argv base session)
    (exited : session.pipeline.manager.place = .exited code) :
    code = 0 ∧ session.programs.length = (segments argv).length ∧
      ∀ program ∈ session.programs, program.fate.isSome := by
  have here := sound.inv.2
  rw [exited] at here
  obtain ⟨all, success, waited⟩ := here
  have reaped : session.pipeline.children.countP (·.reaped) = session.pipeline.children.length :=
    all.waits.trans waited
  refine ⟨success, ?_, fun program member => ?_⟩
  · rw [sound.programs, ← all.pieces, List.length_map]
  · obtain ⟨j, inside, rfl⟩ := List.getElem_of_mem member
    have within : j < session.pipeline.children.length := sound.programs ▸ inside
    have own := List.getElem?_eq_getElem within
    have taken := List.countP_eq_length.mp reaped _ (List.getElem_mem within)
    exact (sound.fated j _ _ own (List.getElem?_eq_getElem inside)).ended
      ((sound.inv.1.ended _ (List.getElem_mem within)).1 taken)

/-- However the manager and the children of a line interleave, as long as `pipe` and `fork`
succeed: each child comes to what the piece of the line between its bars comes to, whatever
the others do, and when the manager exits every piece came to something. -/
theorem pieces_come_to_programs
    (open_ : (files stdin).isSome ∧ (files stdout).isSome ∧ (files stderr).isSome)
    (successful : ∀ event ∈ events, Succeeds event)
    (ran : exec (step envPath) (start (tokensOf line) files) events = some session) :
    (∀ (j : Nat) (program : Program) (answers : Answers) (outcome : Outcome),
      session.programs[j]? = some program → program.fate = some (answers, outcome) →
      (∀ call fd, answers.opens call = some fd → files fd = none) →
      ∃ piece, (line.splitOn pipe)[j]? = some piece ∧
        ComesTo envPath files ((line.splitOn pipe).length - 1) j (tokensOf piece) answers outcome) ∧
    ∀ code, session.pipeline.manager.place = .exited code →
      code = 0 ∧ session.programs.length = (line.splitOn pipe).length ∧
        ∀ program ∈ session.programs, program.fate.isSome := by
  have stdOpen : StdOpen (inherited files) := by
    obtain ⟨input, output, error⟩ := open_
    refine ⟨?_, ?_, ?_⟩ <;> simp only [inherited, ne_eq, Option.map_eq_none_iff]
    · exact Option.isSome_iff_ne_none.mp input
    · exact Option.isSome_iff_ne_none.mp output
    · exact Option.isSome_iff_ne_none.mp error
  have sound := sound_reached stdOpen successful ran
  have pieces : segments (tokensOf line) = (line.splitOn pipe).map tokensOf := by
    rw [tokensOf_eq, segments_words]
    exact List.map_congr_left fun piece _ => (tokensOf_eq piece).symm
  have sizes := congrArg List.length pieces
  rw [List.length_map] at sizes
  have bars : (tokensOf line).count bar = (line.splitOn pipe).length - 1 := by
    rw [← sizes, segments_length, Nat.add_sub_cancel]
  constructor
  · intro j program answers outcome own came free
    have inside : j < session.pipeline.children.length := by
      rw [← sound.programs]
      exact (List.getElem?_eq_some_iff.mp own).1
    have found := List.getElem?_eq_getElem inside
    have commands := commands_of_at sound.inv.2
    have command : (segments (tokensOf line))[j]? = some session.pipeline.children[j].argv := by
      have listed : (session.pipeline.children.map Child.argv)[j]? = some session.pipeline.children[j].argv := by
        rw [List.getElem?_map, found]
        rfl
      have within : j < (session.pipeline.children.map Child.argv).length := by
        rwa [List.length_map]
      obtain ⟨more, whole⟩ := commands
      rw [← whole, List.getElem?_append_left within, listed]
    rw [pieces, List.getElem?_map] at command
    obtain ⟨piece, there, same⟩ := Option.map_eq_some_iff.mp command
    refine ⟨piece, there, ?_⟩
    have last : j ≤ (line.splitOn pipe).length - 1 := by
      have bound := (List.getElem?_eq_some_iff.mp there).1
      omega
    rw [(sound.fated j _ program found own).fate answers outcome came, same, bars]
    exact comesTo_outcome stdOpen free last
  · intro code exited
    obtain ⟨success, count, came⟩ := all_came sound exited
    exact ⟨success, count.trans sizes, came⟩

/-- Answers to a child: the first free descriptor, memory, and every file executable. -/
def granted : Answers := ⟨fun _ => some 3, fun _ => true, fun _ => true, true⟩

/-- The steps for a line with one bar: both children come to something before they end. -/
def joinAndRun : List Event :=
  forkTwo.map .moved ++
    [.moved (.called 0), .moved (.called 0), .moved (.called 0), .goesOn 0 granted, .moved (.called 1),
      .moved (.called 1), .goesOn 1 granted, .moved (.ended 1), .moved (.ended 0), .moved (.waited (some 1)),
      .moved (.waited (some 0)), .moved .run]

/-- A run of `a|b` where `PATH` is the root: its second command runs `/b`, which reads
from the pipe. -/
theorem second_reads_from_pipe :
    ∃ session program fds, exec (step (some [0x2f])) (start (tokensOf [0x61, 0x7c, 0x62]) threeFiles) joinAndRun =
        some session ∧
      session.pipeline.manager.place = .exited 0 ∧ session.programs[1]? = some program ∧
      program.fate = some (granted, .runs [0x2f, 0x2f, 0x62] [[0x62]] fds) ∧
      fds stdin = some (.before (.readEnd 0)) := by
  have reached : ∃ session program fds,
      exec (step (some [0x2f])) (start (tokensOf [0x61, 0x7c, 0x62]) threeFiles) joinAndRun = some session ∧
        session.pipeline.manager.place = .exited 0 ∧ session.programs[1]? = some program ∧
        program.fate = some (granted, .runs [0x2f, 0x2f, 0x62] [[0x62]] fds) := ⟨_, _, _, rfl, rfl, rfl, rfl⟩
  obtain ⟨session, program, fds, ran, exited, own, came⟩ := reached
  have successful : ∀ event ∈ joinAndRun, Succeeds event := by
    simp [joinAndRun, forkTwo, Succeeds, Pipeline.Succeeds]
  obtain ⟨piece, there, result⟩ := (pieces_come_to_programs ⟨rfl, rfl, rfl⟩ successful ran).1 1 program granted _ own
    came (by
      intro call fd answer
      cases answer
      rfl)
  refine ⟨session, program, fds, ran, exited, own, came, ?_⟩
  cases there
  exact result.2.2.2.2.1.unmoved (List.forall_mem_nil _)

end ShapeQuake.PipelineCommands
