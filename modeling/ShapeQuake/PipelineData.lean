import ShapeQuake.PipelineCommands

/-! What flows between the commands of a line. They read, write, duplicate and close as
they please, while the manager and the children that are behind them still get there.
A pipe is the kernel's: it holds so many bytes, first in first out; who reads it when it
is empty waits, unless nobody can write to it any more, and who writes to it when nobody
can read it is killed. -/
namespace ShapeQuake.PipelineData
open Library.Runs Pipeline PipelineProofs RedirectProofs
open PipelineCommands (Session Program Outcome Answers goOn goesOn_cases step_sound)

/-! ## The program -/

/-- What a pipe holds. -/
def capacity : Nat := 65536

/-- A child as the kernel sees it: its descriptors once it came to something, what it read
from pipes and wrote to pipes, whether a read told it the end, and whether a write killed it. -/
structure Command where
  fds : Option Redirect.Descriptors
  read : List UInt8
  written : List UInt8
  told : Bool
  killed : Bool

/-- The processes of a line, what is in their pipes, and their children once more. -/
structure State where
  session : Session
  contents : List (List UInt8)
  commands : List Command

/-- A step of the shell's own code, or of the program in a child: `read`, `write` of as
many bytes as are taken, `dup2` and `close`. -/
inductive Event where
  | moved (event : PipelineCommands.Event)
  | reads (child fd count : Nat)
  | writes (child fd : Nat) (bytes : List UInt8)
  | calls (child : Nat) (call : Call)

/-- The call of `extract_pipe`. -/
def start (argv : List Token) (files : Nat → Option Nat) : State :=
  ⟨PipelineCommands.start argv files, [], []⟩

/-- The descriptors a child is left with by what it came to. -/
def leftWith : Outcome → Option Redirect.Descriptors
  | .runs _ _ fds | .notFound _ fds => some fds
  | .crashed => none

/-- The descriptors of a child. -/
def tableOf (child : Child) (command : Command) : Redirect.Descriptors :=
  command.fds.getD (before child.fds)

/-- The descriptors of the processes that have not ended. -/
def tables (state : State) : List Redirect.Descriptors :=
  (match state.session.pipeline.manager.place with
    | .exited _ => []
    | _ => [before state.session.pipeline.manager.fds]) ++
  (state.session.pipeline.children.zip state.commands).filterMap fun (child, command) =>
    if child.exited then none else some (tableOf child command)

/-- Whether some process has this end of a pipe open. Descriptors are below a limit. -/
def held (limit : Nat) (state : State) (file : File) : Bool :=
  (tables state).any fun table => (List.range limit).any fun fd => table fd = some (.before file)

/-- The descriptors of the program that runs in a child. -/
def running (state : State) (k : Nat) : Option Redirect.Descriptors := do
  let child ← state.session.pipeline.children[k]?
  let program ← state.session.programs[k]?
  let command ← state.commands[k]?
  match program.fate with
  | some (_, .runs _ _ _) => if child.exited ∨ command.killed then none else command.fds
  | _ => none

/-- The end of a pipe that a descriptor of that program leads to. -/
def endAt (limit : Nat) (state : State) (k fd : Nat) : Option File := do
  let fds ← running state k
  match fds fd with
  | some (.before file) => if fd < limit then some file else none
  | _ => none

/-- `dup2` and `close` of a program. -/
def callRun (limit : Nat) (fds : Redirect.Descriptors) : Call → Redirect.Descriptors
  | .dup2 oldFd newFd =>
    if oldFd < limit ∧ newFd < limit ∧ (fds oldFd).isSome then Function.update fds newFd (fds oldFd) else fds
  | .close fd => Function.update fds fd none

/-- `pipe` answers with descriptors below the limit. -/
def fits (limit : Nat) : PipelineCommands.Event → Bool
  | .moved (.piped (some (readFd, writeFd))) => readFd < limit ∧ writeFd < limit
  | _ => true

/-- What a step of the shell's code is to the pipes: `pipe` makes one, `fork` a child that
has read and written nothing, and one that comes to something has its descriptors from that. -/
def follow (state : State) (session : Session) : PipelineCommands.Event → State
  | .moved (.piped (some _)) => { state with session, contents := state.contents ++ [[]] }
  | .moved (.forked true) =>
    { state with session, commands := state.commands ++ [⟨none, [], [], false, false⟩] }
  | .goesOn k _ =>
    let fate := (session.programs[k]?).bind Program.fate
    { state with
      session
      commands := state.commands.modify k fun command =>
        { command with fds := fate.bind fun came => leftWith came.2 } }
  | .moved _ => { state with session }

/-- One step of one of the processes. -/
def step (envPath : Option Token) (limit : Nat) (state : State) : Event → Option State
  | .moved event =>
    if fits limit event then
      (PipelineCommands.step envPath state.session event).map fun session => follow state session event
    else none
  | .reads k fd count =>
    match endAt limit state k fd with
    | some (.readEnd pipe) => do
      let content ← state.contents[pipe]?
      if count = 0 then none
      else if content ≠ [] then
        some { state with
          contents := state.contents.set pipe (content.drop count)
          commands := state.commands.modify k fun command =>
            { command with read := command.read ++ content.take count } }
      else if held limit state (.writeEnd pipe) then none
      else
        some { state with
          commands := state.commands.modify k fun command => { command with told := true } }
    | _ => none
  | .writes k fd bytes =>
    match endAt limit state k fd with
    | some (.writeEnd pipe) => do
      let content ← state.contents[pipe]?
      if held limit state (.readEnd pipe) then
        if content.length + bytes.length ≤ capacity then
          some { state with
            contents := state.contents.set pipe (content ++ bytes)
            commands := state.commands.modify k fun command =>
              { command with written := command.written ++ bytes } }
        else none
      else
        some { state with
          commands := state.commands.modify k fun command => { command with killed := true } }
    | _ => none
  | .calls k call => do
    let fds ← running state k
    some { state with
      commands := state.commands.modify k fun command =>
        { command with fds := some (callRun limit fds call) } }

/-! ## Who holds what -/

/-- The pipe that a file is an end of. -/
def pipeOf : File → Option Nat
  | .readEnd pipe | .writeEnd pipe => some pipe
  | .other _ => none

/-- The descriptors of a process that has not ended. -/
inductive Lives (state : State) : Redirect.Descriptors → Prop
  | manager (goes : ∀ code, state.session.pipeline.manager.place ≠ .exited code) :
      Lives state (before state.session.pipeline.manager.fds)
  | child {k : Nat} {child : Child} {command : Command}
      (found : state.session.pipeline.children[k]? = some child)
      (own : state.commands[k]? = some command) (runs : child.exited = false) :
      Lives state (tableOf child command)

/-- Some process has the file open. -/
def Holds (state : State) (file : File) : Prop :=
  ∃ table fd, Lives state table ∧ table fd = some (.before file)

/-- The ends of pipes in it are those of pipes made so far, below the limit. -/
def Valid (limit pipes : Nat) (table : Redirect.Descriptors) : Prop :=
  ∀ fd file pipe, table fd = some (.before file) → pipeOf file = some pipe → fd < limit ∧ pipe < pipes

/-- What was open before in the later one was in the earlier one. -/
def Drops (limit : Nat) (was now : Redirect.Descriptors) : Prop :=
  ∀ fd file, now fd = some (.before file) →
    (∃ old, was old = some (.before file)) ∧ (was fd = some (.before file) ∨ fd < limit)

theorem mem_tables : table ∈ tables state ↔ Lives state table := by
  simp only [tables, List.mem_append, List.mem_filterMap]
  constructor
  · rintro (managing | ⟨⟨child, command⟩, member, lives⟩)
    · split at managing
      · cases managing
      · rename_i goes
        obtain rfl := List.mem_singleton.mp managing
        exact .manager goes
    · obtain ⟨k, inside, same⟩ := List.getElem_of_mem member
      have paired := List.getElem?_eq_some_iff.mpr ⟨inside, same⟩
      rw [List.getElem?_zip_eq_some] at paired
      split at lives
      · cases lives
      · rename_i runs
        cases lives
        exact .child paired.1 paired.2 (Bool.eq_false_iff.mpr runs)
  · rintro (goes | ⟨found, own, runs⟩)
    · left
      split
      · rename_i code place
        exact absurd place (goes code)
      · exact List.mem_singleton_self _
    · refine .inr ⟨(_, _), List.mem_of_getElem? (List.getElem?_zip_eq_some.mpr ⟨found, own⟩), ?_⟩
      rw [if_neg (by simp [runs])]

/-- Where descriptors are below the limit, it shows whether an end is held. -/
theorem held_iff (valid : ∀ table, Lives state table → Valid limit pipes table)
    (end_ : pipeOf file = some pipe) : held limit state file = true ↔ Holds state file := by
  simp only [held, List.any_eq_true, decide_eq_true_eq, List.mem_range, mem_tables]
  constructor
  · rintro ⟨table, lives, fd, _, leads⟩
    exact ⟨table, fd, lives, leads⟩
  · rintro ⟨table, fd, lives, leads⟩
    exact ⟨table, lives, fd, (valid table lives fd file pipe leads end_).1, leads⟩

theorem Drops.refl (limit : Nat) (table : Redirect.Descriptors) : Drops limit table table :=
  fun fd _ leads => ⟨⟨fd, leads⟩, .inl leads⟩

theorem Drops.valid (drops : Drops limit was now) (valid : Valid limit pipes was) : Valid limit pipes now := by
  intro fd file pipe leads end_
  obtain ⟨⟨old, there⟩, here⟩ := drops fd file leads
  refine ⟨?_, (valid old file pipe there end_).2⟩
  rcases here with same | below
  · exact (valid fd file pipe same end_).1
  · exact below

/-- `dup2` and `close` of a program open nothing that was not. -/
theorem drops_callRun (limit : Nat) (fds : Redirect.Descriptors) (call : Call) :
    Drops limit fds (callRun limit fds call) := by
  intro fd file leads
  cases call with
  | dup2 oldFd newFd =>
    rw [callRun] at leads
    split at leads
    · rename_i fine
      rw [Function.update_apply] at leads
      split at leads
      · rename_i same
        exact ⟨⟨oldFd, leads⟩, .inr (same ▸ fine.2.1)⟩
      · exact ⟨⟨fd, leads⟩, .inl leads⟩
    · exact ⟨⟨fd, leads⟩, .inl leads⟩
  | close closed =>
    rw [callRun, Function.update_apply] at leads
    split at leads
    · cases leads
    · exact ⟨⟨fd, leads⟩, .inl leads⟩

/-- Nor do those of a child before `handle_redirection`, which only move descriptors down to
the input and the output. -/
theorem drops_run (fds : Descriptors) (call : Call) (room : stderr < limit)
    (low : ∀ oldFd newFd, call = .dup2 oldFd newFd → newFd ≤ stdout) :
    Drops limit (before fds) (before (call.run fds)) := by
  intro fd file leads
  cases call with
  | dup2 oldFd newFd =>
    rw [Call.run] at leads
    split at leads
    · rename_i moved there
      simp only [before, Function.update_apply] at leads
      split at leads
      · rename_i same
        refine ⟨⟨oldFd, ?_⟩, .inr ?_⟩
        · rw [before, there]
          exact leads
        · have below := low oldFd newFd rfl
          simp only [stdout, stderr] at below room
          omega
      · exact ⟨⟨fd, leads⟩, .inl leads⟩
    · exact ⟨⟨fd, leads⟩, .inl leads⟩
  | close closed =>
    simp only [Call.run, before, Function.update_apply] at leads
    split at leads
    · cases leads
    · exact ⟨⟨fd, leads⟩, .inl leads⟩

/-- Nor does `handle_redirection`. -/
theorem fdsAfter_before (leads : fdsAfter answers fds asked fd = some (.before file)) :
    fds fd = some (.before file) := by
  induction asked using List.reverseRecOn with
  | nil => exact leads
  | append_singleton asked request ih =>
    rw [fdsAfter_concat] at leads
    split at leads
    · exact ih leads
    · rw [Function.update_apply, Function.update_apply] at leads
      split at leads
      · cases leads
      · split at leads
        · cases leads
        · exact ih leads

theorem leftWith_before (left : leftWith (PipelineCommands.outcomeOf envPath answers command fds) = some after)
    (leads : after fd = some (.before file)) : fds fd = some (.before file) := by
  unfold PipelineCommands.outcomeOf at left
  split at left
  · cases left
  · simp only at left
    split at left
    · cases left
    · split at left
      · split at left
        · cases left
          exact fdsAfter_before leads
        · cases left
          exact fdsAfter_before leads
      · cases left
        exact fdsAfter_before leads

/-! ## The manager and a fork -/

/-- The caller holds no ends of pipes. -/
theorem inherited_plain (files : Nat → Option Nat) (leads : inherited files fd = some file) :
    pipeOf file = none := by
  obtain ⟨number, _, rfl⟩ := Option.map_eq_some_iff.mp leads
  rfl

private theorem carried_leads (plain : ∀ fd file, base fd = some file → pipeOf file = none)
    (previous : Previous base prevFd count) (leads : carried base prevFd count fd = some file)
    (end_ : pipeOf file = some pipe) : 0 < count ∧ file = .readEnd (count - 1) := by
  have there := previous.there
  cases prevFd with
  | none =>
    rw [plain fd file leads] at end_
    cases end_
  | some prev =>
    refine ⟨of_decide_eq_true there.symm, ?_⟩
    rw [carried, Function.update_apply] at leads
    split at leads
    · exact (Option.some.inj leads).symm
    · rw [plain fd file leads] at end_
      cases end_

private theorem opened_leads (leads : opened fds pFds hasNext count fd = some file) :
    fds fd = some file ∨ (fd = pFds.1 ∨ fd = pFds.2) ∧ (file = .readEnd count ∨ file = .writeEnd count) := by
  rw [opened] at leads
  split at leads
  · rw [Function.update_apply, Function.update_apply] at leads
    split at leads
    · rename_i same
      exact .inr ⟨.inr same, .inr (Option.some.inj leads).symm⟩
    · split at leads
      · rename_i same
        exact .inr ⟨.inl same, .inl (Option.some.inj leads).symm⟩
      · exact .inl leads
  · exact .inl leads

/-- The ends that a child is forked with: of the pipe before it, and of the one behind it. -/
theorem forking_ends (inv : Inv argv base state) (place : state.manager.place = .forking)
    (plain : ∀ fd file, base fd = some file → pipeOf file = none)
    (leads : state.manager.fds fd = some file) (end_ : pipeOf file = some pipe) :
    file = .readEnd pipe ∧ pipe + 1 = state.children.length ∨ pipe = state.children.length := by
  have here := inv.2
  rw [place] at here
  obtain ⟨_, _, _, _, _, ends⟩ := here
  rw [ends.fds] at leads
  rcases opened_leads leads with before_ | ⟨_, rfl | rfl⟩
  · obtain ⟨positive, rfl⟩ := carried_leads plain ends.previous before_ end_
    cases end_
    exact .inl ⟨rfl, by omega⟩
  · exact .inr (Option.some.inj end_).symm
  · exact .inr (Option.some.inj end_).symm

/-- The manager can write to the last pipe only, and not once the reader is forked. -/
theorem manager_writes (inv : Inv argv base state)
    (plain : ∀ fd file, base fd = some file → pipeOf file = none)
    (leads : state.manager.fds fd = some (.writeEnd pipe)) : state.children.length ≤ pipe + 1 := by
  have here := inv.2
  have not_carried (prevFd : Option Nat) (count : Nat) (previous : Previous base prevFd count) :
      carried base prevFd count fd ≠ some (.writeEnd pipe) := by
    intro carries
    cases (carried_leads plain previous carries rfl).2
  cases place : state.manager.place with
  | scan =>
    rw [place] at here
    obtain ⟨_, _, _, _, _, previous, _, fds, _⟩ := here
    exact absurd (fds ▸ leads) (not_carried _ _ previous)
  | piping =>
    rw [place] at here
    obtain ⟨_, _, _, _, _, _, _, previous, fds, _⟩ := here
    exact absurd (fds ▸ leads) (not_carried _ _ previous)
  | forking =>
    rcases forking_ends inv place plain leads rfl with ⟨other, _⟩ | last
    · cases other
    · omega
  | forked =>
    rw [place] at here
    obtain ⟨_, done, scanned, _, children, _, _, ends⟩ := here
    have length := congrArg List.length children
    rw [List.length_map, List.length_append, List.length_singleton] at length
    rw [ends.fds] at leads
    rcases opened_leads leads with before_ | ⟨_, other | same⟩
    · exact absurd before_ (not_carried _ _ ends.previous)
    · cases other
    · cases same
      exact length.le
  | closing =>
    rw [place] at here
    obtain ⟨_, done, scanned, _, children, _, _, _, _, _, fds, _⟩ := here
    have length := congrArg List.length children
    rw [List.length_map, List.length_append, List.length_singleton] at length
    rw [fds] at leads
    rcases opened_leads leads with before_ | ⟨_, other | same⟩
    · cases plain _ _ before_
    · cases other
    · cases same
      exact length.le
  | waiting _ | exited _ =>
    rw [place] at here
    rw [here.1.fds] at leads
    cases plain _ _ leads

private theorem carried_reads (previous : Previous base prevFd (pipe + 1)) :
    ∃ fd, prevFd = some fd ∧ carried base prevFd (pipe + 1) fd = some (.readEnd pipe) := by
  obtain ⟨fd, rfl⟩ := Option.isSome_iff_exists.mp (previous.there.trans (decide_eq_true (Nat.succ_pos pipe)))
  exact ⟨fd, rfl, Function.update_self _ _ _⟩

/-- Until the reader of a pipe is forked, the manager can read it. -/
theorem manager_reads (inv : Inv argv base state) (made : pipe < state.pipes)
    (latest : state.children.length = pipe + 1) (more : pipe < argv.count bar) :
    ∃ fd, state.manager.fds fd = some (.readEnd pipe) := by
  have here := inv.2
  have unfinished (all : AllForked argv base state) : False := by
    have total := congrArg List.length all.pieces
    rw [List.length_map, segments_length, latest] at total
    omega
  have last (done : List (List Token)) (scanned : List Token)
      (children : state.children.map Child.argv = done ++ [scanned]) : done.length = pipe := by
    have length := congrArg List.length children
    rw [List.length_map, List.length_append, List.length_singleton, latest] at length
    exact (Nat.add_right_cancel length).symm
  cases place : state.manager.place with
  | scan =>
    rw [place] at here
    obtain ⟨_, _, _, _, _, previous, _, fds, _⟩ := here
    rw [latest] at previous
    obtain ⟨fd, _, reads⟩ := carried_reads previous
    exact ⟨fd, by rw [fds, latest, reads]⟩
  | piping =>
    rw [place] at here
    obtain ⟨_, _, _, _, _, _, _, previous, fds, _⟩ := here
    rw [latest] at previous
    obtain ⟨fd, _, reads⟩ := carried_reads previous
    exact ⟨fd, by rw [fds, latest, reads]⟩
  | forking =>
    rw [place] at here
    obtain ⟨_, _, _, _, _, _, previous, fresh, fds, _⟩ := here
    rw [latest] at previous fresh fds
    obtain ⟨fd, _, reads⟩ := carried_reads previous
    refine ⟨fd, ?_⟩
    rw [fds, opened]
    split
    · rename_i next
      have free := fresh next
      rw [Function.update_of_ne, Function.update_of_ne, reads]
      · intro same
        rw [same, free.reading] at reads
        cases reads
      · intro same
        rw [same, free.writing] at reads
        cases reads
    · exact reads
  | forked =>
    rw [place] at here
    obtain ⟨_, done, scanned, _, children, _, _, _, _, fresh, fds, pipes⟩ := here
    have count := last done scanned children
    subst count
    have next : state.manager.hasNext = true := by
      cases next : state.manager.hasNext with
      | true => rfl
      | false =>
        rw [next] at pipes
        simp only [Bool.toNat_false] at pipes
        omega
    have free := fresh next
    refine ⟨state.manager.pFds.1, ?_⟩
    rw [fds, opened, if_pos next, Function.update_of_ne free.distinct, Function.update_self]
  | closing =>
    rw [place] at here
    obtain ⟨_, done, scanned, _, children, _, _, _, _, free, fds, _⟩ := here
    have count := last done scanned children
    subst count
    refine ⟨state.manager.pFds.1, ?_⟩
    rw [fds, opened, if_pos rfl, Function.update_of_ne free.distinct, Function.update_self]
  | waiting _ | exited _ =>
    rw [place] at here
    exact absurd here.1 unfinished

/-! ## One step of the shell's code -/

/-- What a step is to a child: its next call, or nothing but its end; or its fork. -/
inductive ChildStep (state : Pipeline.State) (event : Pipeline.Event) (j : Nat) (after : Child) : Prop
  | keeps (child : Child) (found : state.children[j]? = some child)
      (runs : after.exited = false → child.exited = false) (fds : after.fds = child.fds)
      (calls : after.calls = child.calls)
  | called (child : Child) (found : state.children[j]? = some child) (runs : child.exited = after.exited)
      (call : Call) (left : child.calls = call :: after.calls) (fds : after.fds = call.run child.fds)
  | forked (event_ : event = .forked true) (last : j = state.children.length)
      (place : state.manager.place = .forking) (fds : after.fds = state.manager.fds)
      (calls : after.calls = state.manager.childCalls)

private theorem child_set {child new : Child} (found : state.children[k]? = some child)
    (after_ : (state.children.set k new)[j]? = some after) (kept : new.exited = false → child.exited = false)
    (fds : new.fds = child.fds) (calls : new.calls = child.calls) : ChildStep state event j after := by
  rw [List.getElem?_set] at after_
  split at after_
  · rename_i same
    subst same
    split at after_
    · cases after_
      exact .keeps child found kept fds calls
    · cases after_
  · exact .keeps after after_ id rfl rfl

theorem child_step (inv : Inv argv base state) (successful : Pipeline.Succeeds event)
    (taken : Pipeline.step state event = some next) (after_ : next.children[j]? = some after) :
    ChildStep state event j after := by
  cases event with
  | run =>
    obtain ⟨manager, _, rfl⟩ := Option.map_eq_some_iff.mp taken
    exact .keeps after after_ id rfl rfl
  | piped answer =>
    cases answer with
    | none => exact successful.elim
    | some answer =>
      obtain ⟨_, _, rfl⟩ := pipe_cases taken
      exact .keeps after after_ id rfl rfl
  | forked success =>
    cases success with
    | false => exact successful.elim
    | true =>
      obtain ⟨place, rfl⟩ := fork_cases taken
      simp only [List.getElem?_append] at after_
      split at after_
      · exact .keeps after after_ id rfl rfl
      · rename_i behind
        rw [List.getElem?_singleton] at after_
        split at after_
        · cases after_
          exact .forked rfl (by omega) place rfl rfl
        · cases after_
  | waited answer =>
    obtain ⟨k, child, _, _, _, found, exited, _, rfl⟩ := wait_cases inv taken
    exact child_set found after_ id rfl rfl
  | called k =>
    obtain ⟨child, call, calls, found, left, rfl⟩ := called_cases taken
    rw [List.getElem?_set] at after_
    split at after_
    · rename_i same
      subst same
      split at after_
      · cases after_
        exact .called child found rfl call left rfl
      · cases after_
    · exact .keeps after after_ id rfl rfl
  | ended k =>
    obtain ⟨child, found, _, _, rfl⟩ := ended_cases taken
    exact child_set found after_ nofun rfl rfl

private theorem run_fds (ran : runManager manager = some next) (leads : next.fds fd = some file) :
    manager.fds fd = some file := by
  unfold runManager at ran
  split at ran
  · simp only at ran
    split at ran
    · cases ran
      exact leads
    · cases ran
      exact leads
  · cases ran
    rw [closePrev] at leads
    cases prev : manager.prevFd with
    | none =>
      rw [prev] at leads
      exact leads
    | some closed =>
      rw [prev] at leads
      simp only [Function.update_apply] at leads
      split at leads
      · cases leads
      · exact leads
  · cases ran
    simp only [Function.update_apply] at leads
    split at leads
    · cases leads
    · exact leads
  · split at ran
    · cases ran
    · cases ran
      exact leads
  · cases ran

/-- A step gives the manager nothing but the ends of a new pipe. -/
theorem manager_step (inv : Inv argv base state) (successful : Pipeline.Succeeds event)
    (taken : Pipeline.step state event = some next) (leads : next.manager.fds fd = some file) :
    state.manager.fds fd = some file ∨ ∃ readFd writeFd, event = .piped (some (readFd, writeFd)) ∧
      (fd = readFd ∨ fd = writeFd) ∧ (file = .readEnd state.pipes ∨ file = .writeEnd state.pipes) := by
  cases event with
  | run =>
    obtain ⟨manager, ran, rfl⟩ := Option.map_eq_some_iff.mp taken
    exact .inl (run_fds ran leads)
  | piped answer =>
    cases answer with
    | none => exact successful.elim
    | some answer =>
      obtain ⟨_, _, rfl⟩ := pipe_cases taken
      have found : opened state.manager.fds (answer.1, answer.2) true state.pipes fd = some file := leads
      rcases opened_leads found with before_ | ⟨which, new⟩
      · exact .inl before_
      · exact .inr ⟨_, _, rfl, which, new⟩
  | forked success =>
    cases success with
    | false => exact successful.elim
    | true =>
      obtain ⟨_, rfl⟩ := fork_cases taken
      exact .inl leads
  | waited answer =>
    obtain ⟨_, _, _, _, _, _, _, _, rfl⟩ := wait_cases inv taken
    exact .inl leads
  | called k =>
    obtain ⟨_, _, _, _, _, rfl⟩ := called_cases taken
    exact .inl leads
  | ended k =>
    obtain ⟨_, _, _, _, rfl⟩ := ended_cases taken
    exact .inl leads

private theorem run_goes (ran : runManager manager = some next) (code : Nat) :
    manager.place ≠ .exited code := by
  intro place
  rw [runManager, place] at ran
  cases ran

/-- An exit of the manager is for good. -/
theorem manager_goes (inv : Inv argv base state) (successful : Pipeline.Succeeds event)
    (taken : Pipeline.step state event = some next)
    (goes : ∀ code, next.manager.place ≠ .exited code) (code : Nat) : state.manager.place ≠ .exited code := by
  cases event with
  | run =>
    obtain ⟨manager, ran, rfl⟩ := Option.map_eq_some_iff.mp taken
    exact run_goes ran code
  | piped answer =>
    cases answer with
    | none => exact successful.elim
    | some answer =>
      obtain ⟨place, _, _⟩ := pipe_cases taken
      simp [place]
  | forked success =>
    cases success with
    | false => exact successful.elim
    | true =>
      obtain ⟨place, _⟩ := fork_cases taken
      simp [place]
  | waited answer =>
    obtain ⟨_, _, _, place, _⟩ := wait_cases inv taken
    simp [place]
  | called k =>
    obtain ⟨_, _, _, _, _, rfl⟩ := called_cases taken
    exact goes code
  | ended k =>
    obtain ⟨_, _, _, _, rfl⟩ := ended_cases taken
    exact goes code

/-! ## One step of all of it -/

/-- `pipe` and `fork` succeed. -/
def Succeeds : Event → Prop
  | .moved event => PipelineCommands.Succeeds event
  | .reads _ _ _ | .writes _ _ _ | .calls _ _ => True

theorem running_cases (runs : running state k = some fds) :
    ∃ child command, state.session.pipeline.children[k]? = some child ∧ state.commands[k]? = some command ∧
      child.exited = false ∧ command.killed = false ∧ command.fds = some fds := by
  obtain ⟨child, found, more⟩ := Option.bind_eq_some_iff.mp runs
  obtain ⟨program, _, more⟩ := Option.bind_eq_some_iff.mp more
  obtain ⟨command, own, done⟩ := Option.bind_eq_some_iff.mp more
  split at done
  · split at done
    · cases done
    · rename_i goes
      simp only [not_or, Bool.not_eq_true] at goes
      exact ⟨child, command, found, own, goes.1, goes.2, done⟩
  · cases done

/-- A descriptor of a program that leads to a pipe. -/
theorem endAt_cases (leads : endAt limit state k fd = some file) :
    ∃ child command, state.session.pipeline.children[k]? = some child ∧ state.commands[k]? = some command ∧
      child.exited = false ∧ command.killed = false ∧ command.fds.isSome ∧
      tableOf child command fd = some (.before file) := by
  obtain ⟨fds, runs, done⟩ := Option.bind_eq_some_iff.mp leads
  obtain ⟨child, command, found, own, goes, lives, table⟩ := running_cases runs
  refine ⟨child, command, found, own, goes, lives, by rw [table]; rfl, ?_⟩
  rw [tableOf, table, Option.getD_some]
  split at done
  · rename_i other leads
    split at done
    · cases done
      exact leads
    · cases done
  · cases done

/-- A read takes what is there, or tells the end. -/
theorem reads_cases (taken : step envPath limit state (.reads k fd count) = some next) :
    ∃ pipe content, endAt limit state k fd = some (.readEnd pipe) ∧ state.contents[pipe]? = some content ∧
      (next = { state with
          contents := state.contents.set pipe (content.drop count)
          commands := state.commands.modify k fun command =>
            { command with read := command.read ++ content.take count } } ∨
        content = [] ∧ held limit state (.writeEnd pipe) = false ∧
          next = { state with
            commands := state.commands.modify k fun command => { command with told := true } }) := by
  rw [step] at taken
  split at taken
  · rename_i pipe leads
    obtain ⟨content, there, done⟩ := Option.bind_eq_some_iff.mp taken
    refine ⟨pipe, content, leads, there, ?_⟩
    split at done
    · cases done
    · split at done
      · cases done
        exact .inl rfl
      · rename_i empty
        split at done
        · cases done
        · rename_i nobody
          cases done
          exact .inr ⟨not_not.mp empty, Bool.eq_false_iff.mpr nobody, rfl⟩
  · cases taken

/-- A write is taken, or kills. -/
theorem writes_cases (taken : step envPath limit state (.writes k fd bytes) = some next) :
    ∃ pipe content, endAt limit state k fd = some (.writeEnd pipe) ∧ state.contents[pipe]? = some content ∧
      (next = { state with
          contents := state.contents.set pipe (content ++ bytes)
          commands := state.commands.modify k fun command =>
            { command with written := command.written ++ bytes } } ∨
        held limit state (.readEnd pipe) = false ∧
          next = { state with
            commands := state.commands.modify k fun command => { command with killed := true } }) := by
  rw [step] at taken
  split at taken
  · rename_i pipe leads
    obtain ⟨content, there, done⟩ := Option.bind_eq_some_iff.mp taken
    refine ⟨pipe, content, leads, there, ?_⟩
    split at done
    · split at done
      · cases done
        exact .inl rfl
      · cases done
    · rename_i nobody
      cases done
      exact .inr ⟨Bool.eq_false_iff.mpr nobody, rfl⟩
  · cases taken

theorem calls_cases (taken : step envPath limit state (.calls k call) = some next) :
    ∃ fds, running state k = some fds ∧
      next = { state with
        commands := state.commands.modify k fun command =>
          { command with fds := some (callRun limit fds call) } } := by
  obtain ⟨fds, runs, done⟩ := Option.bind_eq_some_iff.mp taken
  exact ⟨fds, runs, (Option.some.inj done).symm⟩

theorem moved_cases (taken : step envPath limit state (.moved event) = some next) :
    ∃ session, fits limit event = true ∧ PipelineCommands.step envPath state.session event = some session ∧
      next = follow state session event := by
  rw [step] at taken
  split at taken
  · rename_i fine
    obtain ⟨session, ran, rfl⟩ := Option.map_eq_some_iff.mp taken
    exact ⟨session, fine, ran, rfl⟩
  · cases taken

theorem session_cases (taken : PipelineCommands.step envPath session (.moved event) = some next) :
    Pipeline.step session.pipeline event = some next.pipeline := by
  obtain ⟨pipeline, ran, more⟩ := Option.bind_eq_some_iff.mp taken
  obtain ⟨programs, _, done⟩ := Option.bind_eq_some_iff.mp more
  cases done
  exact ran

theorem goesOn_ready (taken : PipelineCommands.step envPath session (.goesOn k answers) = some next) :
    ∃ child program, session.pipeline.children[k]? = some child ∧ session.programs[k]? = some program ∧
      child.calls = [] ∧ program.fate = none ∧ next = { session with
        programs := session.programs.set k { program with
          fate := some (answers,
            (goOn envPath answers program.currentArgv (before child.fds)).getD .crashed) } } := by
  obtain ⟨child, found, more⟩ := Option.bind_eq_some_iff.mp taken
  obtain ⟨program, own, done⟩ := Option.bind_eq_some_iff.mp more
  split at done
  · rename_i ready
    cases done
    exact ⟨child, program, found, own, ready.1, Option.isNone_iff_eq_none.mp ready.2, rfl⟩
  · cases done

/-- A command behind a change to one of them. -/
theorem modify_cases {commands : List Command} {change : Command → Command}
    (own : (commands.modify k change)[j]? = some after) :
    ∃ command, commands[j]? = some command ∧ (j = k ∧ after = change command ∨ j ≠ k ∧ after = command) := by
  rw [List.getElem?_modify] at own
  obtain ⟨command, there, done⟩ := Option.map_eq_some_iff.mp own
  refine ⟨command, there, ?_⟩
  split at done
  · rename_i same
    exact .inl ⟨same.symm, done.symm⟩
  · rename_i other
    exact .inr ⟨fun same => other same.symm, done.symm⟩

/-! ## What holds between any two steps -/

/-- The ends a child may have: those it is forked with, and where it came to something
those of its own input and output. -/
def Mine (last k : Nat) (child : Child) (command : Command) : Prop :=
  ∀ fd file pipe, tableOf child command fd = some (.before file) → pipeOf file = some pipe →
    file = .readEnd pipe ∧ pipe + 1 = k ∨
      pipe = k ∧ (command.fds.isSome → file = .writeEnd pipe ∧ k < last)

/-- The processes and their descriptors. -/
structure Sound (envPath : Option Token) (argv : List Token) (base : Descriptors) (limit : Nat)
    (state : State) : Prop where
  session : PipelineCommands.Sound envPath argv base state.session
  contents : state.contents.length = state.session.pipeline.pipes
  commands : state.commands.length = state.session.pipeline.children.length
  low : ∀ (k : Nat) child, state.session.pipeline.children[k]? = some child →
    ∀ oldFd newFd, Call.dup2 oldFd newFd ∈ child.calls → newFd ≤ stdout
  valid : ∀ table, Lives state table → Valid limit state.contents.length table
  mine : ∀ (k : Nat) child command, state.session.pipeline.children[k]? = some child →
    state.commands[k]? = some command → Mine (argv.count bar) k child command
  early : ∀ (k : Nat) (program : Program) command, state.session.programs[k]? = some program →
    state.commands[k]? = some command → program.fate = none → command.fds = none

theorem sound_start (envPath : Option Token) (argv : List Token) (files : Nat → Option Nat) (limit : Nat) :
    Sound envPath argv (inherited files) limit (start argv files) where
  session := PipelineCommands.sound_start envPath argv files
  contents := rfl
  commands := rfl
  low := by simp [start, PipelineCommands.start, Pipeline.start]
  valid := by
    rintro _ (_ | ⟨found, _, _⟩) fd file pipe leads end_
    · obtain ⟨other, there, same⟩ := Option.map_eq_some_iff.mp leads
      cases same
      rw [inherited_plain files there] at end_
      cases end_
    · simp [start, PipelineCommands.start, Pipeline.start] at found
  mine := by simp [start]
  early := by simp [start]

/-- What a step is to the descriptors of a child: some go; or it is forked with those of
the manager. -/
inductive TableStep (argv : List Token) (base : Descriptors) (limit : Nat) (state : State) (k : Nat)
    (after : Child) (now : Command) : Prop
  | drops (child : Child) (command : Command) (found : state.session.pipeline.children[k]? = some child)
      (own : state.commands[k]? = some command) (runs : after.exited = false → child.exited = false)
      (fewer : Drops limit (tableOf child command) (tableOf after now))
      (kept : command.fds.isSome → now.fds.isSome)
      (handed : command.fds = none → now.fds.isSome → child.fds = handedOver base (argv.count bar) k)
  | forked (last : k = state.session.pipeline.children.length)
      (place : state.session.pipeline.manager.place = .forking)
      (table : tableOf after now = before state.session.pipeline.manager.fds) (fresh : now.fds = none)

@[simp] theorem follow_session (state : State) (session : Session) (event : PipelineCommands.Event) :
    (follow state session event).session = session := by
  unfold follow
  split <;> rfl

/-- A child that is there has its command, also behind a step of `extract_pipe`. -/
private theorem follow_own (sound : Sound envPath argv base limit state) (session : Session)
    (own : (follow state session (.moved event)).commands[j]? = some now)
    (inside : j < state.session.pipeline.children.length) : state.commands[j]? = some now := by
  rw [← sound.commands] at inside
  unfold follow at own
  split at own
  · exact own
  · simp only [List.getElem?_append_left inside] at own
    exact own
  · rename_i heq
    cases heq
  · exact own

private theorem moved_table (sound : Sound envPath argv base limit state) (room : stderr < limit)
    (successful : Pipeline.Succeeds event)
    (taken : PipelineCommands.step envPath state.session (.moved event) = some session)
    (found : session.pipeline.children[j]? = some after)
    (own : (follow state session (.moved event)).commands[j]? = some now) :
    TableStep argv base limit state j after now := by
  cases child_step sound.session.inv successful (session_cases taken) found with
  | keeps child was runs fds calls =>
    have own := follow_own sound session own (List.getElem?_eq_some_iff.mp was).1
    refine .drops child now was own runs ?_ id ?_
    · rw [tableOf, tableOf, fds]
      exact .refl limit _
    · intro none_ some_
      rw [none_] at some_
      cases some_
  | called child was runs call left fds =>
    have own := follow_own sound session own (List.getElem?_eq_some_iff.mp was).1
    refine .drops child now was own (fun goes => runs.trans goes) ?_ id ?_
    · rw [tableOf, tableOf, fds]
      cases now.fds with
      | some table => exact .refl limit _
      | none =>
        apply drops_run _ _ room
        intro oldFd newFd same
        apply sound.low j child was oldFd newFd
        rw [left, same]
        exact List.mem_cons_self
    · intro none_ some_
      rw [none_] at some_
      cases some_
  | forked event_ last place fds _ =>
    subst event_ last
    have new : now = ⟨none, [], [], false, false⟩ := by
      have at_end : (state.commands ++ [⟨none, [], [], false, false⟩])[state.session.pipeline.children.length]? =
          some now := own
      rw [← sound.commands, List.getElem?_concat_length] at at_end
      exact (Option.some.inj at_end).symm
    subst new
    exact .forked rfl place (by rw [tableOf, fds]; rfl) rfl

private theorem goesOn_table (sound : Sound envPath argv base limit state)
    (taken : PipelineCommands.step envPath state.session (.goesOn k answers) = some session)
    (found : session.pipeline.children[j]? = some after)
    (own : (follow state session (.goesOn k answers)).commands[j]? = some now) :
    TableStep argv base limit state j after now := by
  obtain ⟨child, program, there, had, handed, fresh, rfl⟩ := goesOn_ready taken
  obtain ⟨command, was, ⟨same, rfl⟩ | ⟨_, rfl⟩⟩ := modify_cases own
  · subst same
    cases there.symm.trans found
    have result := sound.session.inv.1.calls j after found
    rw [handed, List.foldl_nil] at result
    have none_ := sound.early j program command had was fresh
    refine .drops after command found was id ?_ (by simp [none_]) fun _ _ => result
    obtain ⟨⟨beyond, memory⟩, _, _⟩ := sound.session.fated j after program found had
    have inside := (List.getElem?_eq_some_iff.mp had).1
    simp only [List.getElem?_set_self inside, Option.bind_some, tableOf, none_, Option.getD_none, memory,
      PipelineCommands.goOn_outcome]
    cases left : leftWith (PipelineCommands.outcomeOf envPath answers after.argv (before after.fds)) with
    | none => exact .refl limit _
    | some fds =>
      intro fd file leads
      have there := leftWith_before left leads
      exact ⟨⟨fd, there⟩, .inl there⟩
  · refine .drops after now found was id (.refl limit _) id fun none_ some_ => ?_
    rw [none_] at some_
    cases some_

/-- What a program does leaves the shell's own code where it is, and of the descriptors
those that it does not change itself. -/
structure ByProgram (limit : Nat) (state next : State) : Prop where
  session : next.session = state.session
  contents : next.contents.length = state.contents.length
  commands : next.commands.length = state.commands.length
  changed : ∀ (k : Nat) now, next.commands[k]? = some now → ∃ command, state.commands[k]? = some command ∧
    (now.fds = command.fds ∨ ∃ fds call, command.fds = some fds ∧ now.fds = some (callRun limit fds call))

/-- A read or a write changes no descriptors. -/
private theorem byProgram_modify {contents : List (List UInt8)} (same : contents.length = state.contents.length)
    (kept : ∀ command : Command, (change command).fds = command.fds) :
    ByProgram limit state { state with contents, commands := state.commands.modify k change } where
  session := rfl
  contents := same
  commands := List.length_modify _ _ _
  changed := by
    intro j now own
    obtain ⟨command, was, ⟨_, rfl⟩ | ⟨_, rfl⟩⟩ := modify_cases own
    · exact ⟨command, was, .inl (kept command)⟩
    · exact ⟨_, was, .inl rfl⟩

theorem step_byProgram (taken : step envPath limit state event = some next) :
    (∃ moved, event = .moved moved) ∨ ByProgram limit state next := by
  cases event with
  | moved event => exact .inl ⟨event, rfl⟩
  | reads k fd count =>
    obtain ⟨pipe, content, _, _, rfl | ⟨_, _, rfl⟩⟩ := reads_cases taken
    · exact .inr (byProgram_modify List.length_set fun _ => rfl)
    · exact .inr (byProgram_modify rfl fun _ => rfl)
  | writes k fd bytes =>
    obtain ⟨pipe, content, _, _, rfl | ⟨_, rfl⟩⟩ := writes_cases taken
    · exact .inr (byProgram_modify List.length_set fun _ => rfl)
    · exact .inr (byProgram_modify rfl fun _ => rfl)
  | calls k call =>
    obtain ⟨fds, runs, rfl⟩ := calls_cases taken
    refine .inr ⟨rfl, rfl, List.length_modify _ _ _, fun j now own => ?_⟩
    obtain ⟨command, was, ⟨same, rfl⟩ | ⟨_, rfl⟩⟩ := modify_cases own
    · subst same
      obtain ⟨_, other, _, there, _, _, had⟩ := running_cases runs
      cases there.symm.trans was
      exact ⟨command, was, .inr ⟨fds, call, had, rfl⟩⟩
    · exact ⟨_, was, .inl rfl⟩

/-- Every step. -/
theorem table_step (sound : Sound envPath argv base limit state) (room : stderr < limit)
    (successful : Succeeds event) (taken : step envPath limit state event = some next)
    (found : next.session.pipeline.children[j]? = some after) (own : next.commands[j]? = some now) :
    TableStep argv base limit state j after now := by
  rcases step_byProgram taken with ⟨event, rfl⟩ | program
  · obtain ⟨session, _, ran, rfl⟩ := moved_cases taken
    rw [follow_session] at found
    cases event with
    | moved event => exact moved_table sound room successful ran found own
    | goesOn k answers => exact goesOn_table sound ran found own
  · rw [program.session] at found
    obtain ⟨command, was, same | ⟨fds, call, had, has⟩⟩ := program.changed j now own
    · refine .drops after command found was id ?_ (by rw [same]; exact id) ?_
      · rw [tableOf, tableOf, same]
        exact .refl limit _
      · rw [same]
        intro none_ some_
        rw [none_] at some_
        cases some_
    · refine .drops after command found was id ?_ (by simp [has]) (by simp [had])
      rw [tableOf, tableOf, had, has]
      exact drops_callRun limit fds call

/-- The manager's descriptors behind a step. -/
theorem manager_table (sound : Sound envPath argv base limit state) (successful : Succeeds event)
    (taken : step envPath limit state event = some next)
    (leads : before next.session.pipeline.manager.fds fd = some (.before file)) :
    before state.session.pipeline.manager.fds fd = some (.before file) ∨
      fd < limit ∧ (file = .readEnd state.contents.length ∨ file = .writeEnd state.contents.length) ∧
        next.contents.length = state.contents.length + 1 := by
  rcases step_byProgram taken with ⟨event, rfl⟩ | program
  · obtain ⟨session, fine, ran, rfl⟩ := moved_cases taken
    rw [follow_session] at leads
    cases event with
    | moved event =>
      obtain ⟨other, there, same⟩ := Option.map_eq_some_iff.mp leads
      cases same
      rcases manager_step sound.session.inv successful (session_cases ran) there with
        was | ⟨readFd, writeFd, rfl, which, new⟩
      · exact .inl (by rw [before, was]; rfl)
      · rw [← sound.contents] at new
        simp only [fits, decide_eq_true_eq] at fine
        refine .inr ⟨?_, new, List.length_append⟩
        rcases which with rfl | rfl
        · exact fine.1
        · exact fine.2
    | goesOn k answers =>
      obtain ⟨_, _, _, _, _, _, rfl⟩ := goesOn_ready ran
      exact .inl leads
  · rw [program.session] at leads
    exact .inl leads

theorem manager_stays (sound : Sound envPath argv base limit state) (successful : Succeeds event)
    (taken : step envPath limit state event = some next)
    (goes : ∀ code, next.session.pipeline.manager.place ≠ .exited code) (code : Nat) :
    state.session.pipeline.manager.place ≠ .exited code := by
  rcases step_byProgram taken with ⟨event, rfl⟩ | program
  · obtain ⟨session, _, ran, rfl⟩ := moved_cases taken
    rw [follow_session] at goes
    cases event with
    | moved event => exact manager_goes sound.session.inv successful (session_cases ran) goes code
    | goesOn k answers =>
      obtain ⟨_, _, _, _, _, _, rfl⟩ := goesOn_ready ran
      exact goes code
  · rw [program.session] at goes
    exact goes code

/-- How many pipes and children there are behind a step of `extract_pipe`, and what a program
of a child has come to. -/
private theorem moved_counts (sound : Sound envPath argv base limit state)
    (successful : Pipeline.Succeeds event)
    (taken : PipelineCommands.step envPath state.session (.moved event) = some session) :
    (follow state session (.moved event)).contents.length = session.pipeline.pipes ∧
      state.contents.length ≤ session.pipeline.pipes ∧
      (follow state session (.moved event)).commands.length = session.pipeline.children.length ∧
      ∀ (k : Nat) (program : Program) command, session.programs[k]? = some program →
        (follow state session (.moved event)).commands[k]? = some command → program.fate = none →
          command.fds = none := by
  obtain ⟨pipeline, ran, more⟩ := Option.bind_eq_some_iff.mp taken
  obtain ⟨programs, carried, done⟩ := Option.bind_eq_some_iff.mp more
  cases done
  have contents := sound.contents
  have commands := sound.commands
  cases event with
  | run =>
    obtain ⟨manager, _, rfl⟩ := Option.map_eq_some_iff.mp ran
    cases carried
    exact ⟨contents, contents.le, commands, sound.early⟩
  | piped answer =>
    cases answer with
    | none => exact successful.elim
    | some answer =>
      obtain ⟨_, _, rfl⟩ := pipe_cases ran
      cases carried
      refine ⟨?_, ?_, commands, sound.early⟩
      · simp only [follow, List.length_append, List.length_singleton, contents]
      · simp only [contents]
        omega
  | forked success =>
    cases success with
    | false => exact successful.elim
    | true =>
      obtain ⟨_, rfl⟩ := fork_cases ran
      cases carried
      refine ⟨contents, contents.le, ?_, ?_⟩
      · simp only [follow, List.length_append, List.length_singleton, commands]
      · intro k program command own there fresh
        simp only [follow, List.getElem?_append, sound.session.programs, ← commands] at own there
        split at own
        · rename_i inside
          rw [if_pos inside] at there
          exact sound.early k program command own there fresh
        · rename_i behind
          rw [if_neg behind, List.getElem?_singleton] at there
          split at there
          · cases there
            rfl
          · cases there
  | waited answer =>
    obtain ⟨_, _, _, _, _, _, _, _, rfl⟩ := wait_cases sound.session.inv ran
    cases carried
    exact ⟨contents, contents.le, commands.trans List.length_set.symm, sound.early⟩
  | called k =>
    obtain ⟨_, _, _, _, _, rfl⟩ := called_cases ran
    cases carried
    exact ⟨contents, contents.le, commands.trans List.length_set.symm, sound.early⟩
  | ended k =>
    obtain ⟨_, _, _, _, rfl⟩ := ended_cases ran
    obtain ⟨_, _, came⟩ := Option.bind_eq_some_iff.mp carried
    split at came
    · cases came
      exact ⟨contents, contents.le, commands.trans List.length_set.symm, sound.early⟩
    · cases came

/-- An end of a pipe that is held was held before, or is one of a new pipe. -/
theorem live_table (sound : Sound envPath argv base limit state) (room : stderr < limit)
    (successful : Succeeds event) (taken : step envPath limit state event = some next)
    (lives : Lives next table) (leads : table fd = some (.before file)) (end_ : pipeOf file = some pipe) :
    fd < limit ∧ (Holds state file ∨ pipe = state.contents.length ∧ pipe < next.contents.length) := by
  cases lives with
  | manager goes =>
    have lived : Lives state _ := .manager (manager_stays sound successful taken goes)
    rcases manager_table sound successful taken leads with was | ⟨below, new, grown⟩
    · exact ⟨(sound.valid _ lived fd file pipe was end_).1, .inl ⟨_, fd, lived, was⟩⟩
    · refine ⟨below, .inr ?_⟩
      rcases new with rfl | rfl <;> cases end_ <;> exact ⟨rfl, by omega⟩
  | child found own runs =>
    cases table_step sound room successful taken found own with
    | drops child command there was still fewer _ _ =>
      have lived : Lives state _ := .child there was (still runs)
      obtain ⟨⟨old, held⟩, here⟩ := fewer fd file leads
      refine ⟨?_, .inl ⟨_, old, lived, held⟩⟩
      rcases here with same | below
      · exact (sound.valid _ lived fd file pipe same end_).1
      · exact below
    | forked _ place table _ =>
      have lived : Lives state _ := .manager (by simp [place])
      rw [table] at leads
      exact ⟨(sound.valid _ lived fd file pipe leads end_).1, .inl ⟨_, fd, lived, leads⟩⟩

/-- The calls before `handle_redirection` only fill the input and the output. -/
private theorem childCalls_low (manager : Manager) (member : Call.dup2 oldFd newFd ∈ manager.childCalls) :
    newFd ≤ stdout := by
  rcases List.mem_append.mp member with input | output
  · unfold Manager.inputCalls at input
    split at input
    · simp only [List.mem_cons, Call.dup2.injEq, reduceCtorEq, or_false, List.not_mem_nil] at input
      rw [input.2]
      exact Nat.zero_le _
    · cases input
  · unfold Manager.outputCalls at output
    split at output
    · simp only [List.mem_cons, Call.dup2.injEq, reduceCtorEq, or_false, false_or, List.not_mem_nil] at output
      rw [output.2]
    · cases output

private theorem step_low (sound : Sound envPath argv base limit state) (successful : Succeeds event)
    (taken : step envPath limit state event = some next) (k : Nat) (after : Child)
    (found : next.session.pipeline.children[k]? = some after) (oldFd newFd : Nat)
    (member : Call.dup2 oldFd newFd ∈ after.calls) : newFd ≤ stdout := by
  rcases step_byProgram taken with ⟨event, rfl⟩ | program
  · obtain ⟨session, _, ran, rfl⟩ := moved_cases taken
    rw [follow_session] at found
    cases event with
    | moved event =>
      cases child_step sound.session.inv successful (session_cases ran) found with
      | keeps child was _ _ calls => exact sound.low k child was oldFd newFd (calls ▸ member)
      | called child was _ call left _ =>
        apply sound.low k child was oldFd newFd
        rw [left]
        exact List.mem_cons_of_mem _ member
      | forked _ _ _ _ calls =>
        rw [calls] at member
        exact childCalls_low _ member
    | goesOn j answers =>
      obtain ⟨_, _, _, _, _, _, rfl⟩ := goesOn_ready ran
      exact sound.low k after found oldFd newFd member
  · rw [program.session] at found
    exact sound.low k after found oldFd newFd member

private theorem step_mine (sound : Sound envPath argv base limit state) (room : stderr < limit)
    (plain : ∀ fd file, base fd = some file → pipeOf file = none) (successful : Succeeds event)
    (taken : step envPath limit state event = some next) (k : Nat) (after : Child) (now : Command)
    (found : next.session.pipeline.children[k]? = some after) (own : next.commands[k]? = some now) :
    Mine (argv.count bar) k after now := by
  intro fd file pipe leads end_
  cases table_step sound room successful taken found own with
  | drops child command there was _ fewer _ handed =>
    obtain ⟨⟨old, held⟩, _⟩ := fewer fd file leads
    have mine := sound.mine k child command there was old file pipe held end_
    cases had : command.fds with
    | some fds =>
      rw [had] at mine
      refine mine.imp_right ?_
      rintro ⟨same, strict⟩
      exact ⟨same, fun _ => strict rfl⟩
    | none =>
      by_cases came : now.fds.isSome
      · rw [tableOf, had, Option.getD_none, handed had came, before, handedOver] at held
        obtain ⟨other, lead, same⟩ := Option.map_eq_some_iff.mp held
        cases same
        split at lead
        · rename_i input
          cases lead
          cases end_
          exact .inl ⟨rfl, Nat.sub_add_cancel input.2⟩
        · split at lead
          · rename_i output
            cases lead
            cases end_
            exact .inr ⟨rfl, fun _ => ⟨rfl, output.2⟩⟩
          · rw [plain _ _ lead] at end_
            cases end_
      · refine mine.imp_right ?_
        rintro ⟨same, _⟩
        exact ⟨same, fun some_ => absurd some_ came⟩
  | forked last place table fresh =>
    rw [table] at leads
    obtain ⟨other, lead, same⟩ := Option.map_eq_some_iff.mp leads
    cases same
    rw [last]
    refine (forking_ends sound.session.inv place plain lead end_).imp_right fun same => ⟨same, ?_⟩
    rw [fresh]
    intro some_
    cases some_

/-- Every step, as long as `pipe` and `fork` succeed. -/
theorem sound_step (stdOpen : StdOpen base) (room : stderr < limit)
    (plain : ∀ fd file, base fd = some file → pipeOf file = none)
    (sound : Sound envPath argv base limit state) (successful : Succeeds event)
    (taken : step envPath limit state event = some next) : Sound envPath argv base limit next := by
  have low := step_low sound successful taken
  have mine := step_mine sound room plain successful taken
  have valid (held : state.contents.length ≤ next.contents.length) (table : Redirect.Descriptors)
      (lives : Lives next table) : Valid limit next.contents.length table := by
    intro fd file pipe leads end_
    obtain ⟨below, source⟩ := live_table sound room successful taken lives leads end_
    rcases source with ⟨old, there, lived, held_⟩ | ⟨_, inside⟩
    · exact ⟨below, (sound.valid old lived there file pipe held_ end_).2.trans_le held⟩
    · exact ⟨below, inside⟩
  rcases step_byProgram taken with ⟨event, rfl⟩ | program
  · obtain ⟨session, _, ran, rfl⟩ := moved_cases taken
    have inner := step_sound stdOpen sound.session successful ran
    cases event with
    | moved event =>
      obtain ⟨contents, grown, commands, early⟩ := moved_counts sound successful ran
      refine ⟨?_, ?_, ?_, low, valid (contents ▸ grown), mine, ?_⟩ <;> rw [follow_session]
      · exact inner
      · exact contents
      · exact commands
      · exact early
    | goesOn k answers =>
      obtain ⟨_, program, _, own, _, _, rfl⟩ := goesOn_ready ran
      refine ⟨inner, sound.contents, ?_, low, valid le_rfl, mine, ?_⟩
      · simp only [follow, List.length_modify]
        exact sound.commands
      · intro j other command there was fresh
        obtain ⟨old, had, ⟨same, rfl⟩ | ⟨different, rfl⟩⟩ := modify_cases was
        · subst same
          rw [follow_session] at there
          simp only [List.getElem?_set_self (List.getElem?_eq_some_iff.mp own).1] at there
          cases there
          cases fresh
        · rw [follow_session] at there
          simp only [List.getElem?_set_ne (Ne.symm different)] at there
          exact sound.early j other _ there had fresh
  · refine ⟨?_, ?_, ?_, low, valid program.contents.ge, mine, ?_⟩ <;> rw [program.session]
    · exact sound.session
    · exact program.contents.trans sound.contents
    · exact program.commands.trans sound.commands
    · intro k other now there own fresh
      obtain ⟨command, was, same | ⟨fds, call, had, _⟩⟩ := program.changed k now own
      · rw [same]
        exact sound.early k other command there was fresh
      · rw [sound.early k other command there was fresh] at had
        cases had

end ShapeQuake.PipelineData
