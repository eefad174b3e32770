import Mathlib.Algebra.GroupWithZero.Nat
import ShapeQuake.Pipeline

/-! How the processes of a pipeline end up connected. Whatever the order of their
steps, a child that gets to `handle_redirection` has the ends of its two pipes as its
input and output and no others, and the manager waits without any. Before that a
child that was not scheduled yet still has the ends it was forked with. -/
namespace ShapeQuake.PipelineProofs
open Library.Runs Pipeline

/-! ## The pieces -/

/-- The commands of a pipeline. -/
def segments (argv : List Token) : List (List Token) := argv.splitOn bar

/-- There is one command more than there are bars. -/
theorem segments_length (argv : List Token) : (segments argv).length = argv.count bar + 1 := by
  induction argv with
  | nil => rfl
  | cons token rest ih =>
    rw [segments] at ih ⊢
    rw [List.splitOn_cons_eq_if_modifyHead, List.count_cons]
    by_cases here : token = bar
    · simp [here, ih]
    · simp [here, ih]

private theorem segments_single (solid : bar ∉ piece) : segments piece = [piece] :=
  List.splitOn_eq_singleton solid

/-- Memory behind an index of it. -/
private theorem getD_terminated (front rest : List Token) :
    (terminated (front ++ rest)).getD front.length none = rest.head? := by
  cases rest with
  | nil => simp [terminated, List.getD_eq_getElem?_getD]
  | cons token rest => simp [terminated, List.getD_eq_getElem?_getD]

/-! ## The descriptors -/

/-- The descriptors between two pieces: those inherited, and `prev_fd`. -/
def carried (base : Descriptors) (prevFd : Option Nat) (count : Nat) : Descriptors :=
  match prevFd with
  | some fd => Function.update base fd (some (.readEnd (count - 1)))
  | none => base

/-- The descriptors with those of a new pipe, if there is one. -/
def opened (fds : Descriptors) (pFds : Nat × Nat) (hasNext : Bool) (count : Nat) : Descriptors :=
  if hasNext then
    Function.update (Function.update fds pFds.1 (some (.readEnd count))) pFds.2 (some (.writeEnd count))
  else fds

/-- The descriptors a child hands over: those inherited, but for its input if there
is a child before it and its output if there is one behind. -/
def handedOver (base : Descriptors) (last j : Nat) : Descriptors := fun fd =>
  if fd = stdin ∧ 0 < j then some (.readEnd (j - 1))
  else if fd = stdout ∧ j < last then some (.writeEnd j)
  else base fd

/-- The caller has its input, its output and its error output. -/
def StdOpen (base : Descriptors) : Prop :=
  base stdin ≠ none ∧ base stdout ≠ none ∧ base stderr ≠ none

/-- `prev_fd` is there behind the first piece, and was free. -/
structure Previous (base : Descriptors) (prevFd : Option Nat) (count : Nat) : Prop where
  there : prevFd.isSome = decide (0 < count)
  free : ∀ fd ∈ prevFd, base fd = none

/-- The descriptors of the new pipe were free. -/
structure Fresh (fds : Descriptors) (pFds : Nat × Nat) : Prop where
  reading : fds pFds.1 = none
  writing : fds pFds.2 = none
  distinct : pFds.1 ≠ pFds.2

private theorem ne_of_free {fds : Descriptors} (free : fds fd = none) (taken : fds other ≠ none) :
    fd ≠ other :=
  fun same => taken (same ▸ free)

/-- The calls about `prev_fd` make its file the input and leave all else. -/
private theorem input_moved {fds base : Descriptors} (there : fds fd = some file) (apart : fd ≠ stdin)
    (same : ∀ d, d ≠ fd → fds d = base d) (free : base fd = none) :
    [Call.dup2 fd stdin, .close fd].foldl Call.run fds = Function.update base stdin (some file) := by
  have ran : [Call.dup2 fd stdin, .close fd].foldl Call.run fds =
      Function.update (Function.update fds stdin (some file)) fd none := by
    simp [Call.run, there]
  rw [ran]
  funext d
  by_cases here : d = fd
  · subst here
    rw [Function.update_self, Function.update_of_ne apart, free]
  · rw [Function.update_of_ne here, Function.update_apply, Function.update_apply, same d here]

/-- The calls about a new pipe make its write end the output and leave all else. -/
private theorem output_moved {base : Descriptors} (fresh : Fresh base pFds) (apart : pFds.2 ≠ stdout)
    (apartRead : pFds.1 ≠ stdout) (count : Nat) :
    [Call.close pFds.1, .dup2 pFds.2 stdout, .close pFds.2].foldl Call.run (opened base pFds true count) =
      Function.update base stdout (some (.writeEnd count)) := by
  have ran : [Call.close pFds.1, .dup2 pFds.2 stdout, .close pFds.2].foldl Call.run
      (opened base pFds true count) =
        Function.update (Function.update (Function.update (opened base pFds true count) pFds.1 none)
          stdout (some (.writeEnd count))) pFds.2 none := by
    simp [Call.run, opened, Ne.symm fresh.distinct]
  rw [ran]
  funext d
  by_cases writing : d = pFds.2
  · subst writing
    rw [Function.update_self, Function.update_of_ne apart, fresh.writing]
  · by_cases reading : d = pFds.1
    · subst reading
      rw [Function.update_of_ne writing, Function.update_of_ne apartRead, Function.update_self,
        Function.update_of_ne apartRead, fresh.reading]
    · simp [opened, Function.update_apply, writing, reading]

/-- The descriptors inherited, with the input replaced where a child comes before. -/
private def withInput (base : Descriptors) (count : Nat) : Descriptors := fun fd =>
  if fd = stdin ∧ 0 < count then some (.readEnd (count - 1)) else base fd

private theorem opened_apart {fds base : Descriptors} (fresh : hasNext = true → Fresh fds pFds)
    (there : fds fd ≠ none) : opened base pFds hasNext count fd = base fd := by
  cases hasNext with
  | false => rfl
  | true =>
    have reading := ne_of_free (fresh rfl).reading there
    have writing := ne_of_free (fresh rfl).writing there
    simp [opened, Ne.symm reading, Ne.symm writing]

private theorem opened_congr {first second : Descriptors} (same : first fd = second fd) :
    opened first pFds hasNext count fd = opened second pFds hasNext count fd := by
  cases hasNext with
  | false => exact same
  | true => simp [opened, Function.update_apply, same]

private theorem carried_free (free : carried base prevFd count fd = none) : base fd = none := by
  cases prevFd with
  | none => exact free
  | some prev =>
    by_cases same : fd = prev
    · simp [carried, same] at free
    · simpa [carried, same] using free

private theorem carried_other (other : ∀ prev ∈ prevFd, fd ≠ prev) :
    carried base prevFd count fd = base fd := by
  cases prevFd with
  | none => rfl
  | some prev => exact Function.update_of_ne (other prev rfl) _ _

private theorem input_result {manager : Manager} (stdOpen : StdOpen base)
    (previous : Previous base manager.prevFd count)
    (fresh : manager.hasNext = true → Fresh (carried base manager.prevFd count) manager.pFds) :
    manager.inputCalls.foldl Call.run
        (opened (carried base manager.prevFd count) manager.pFds manager.hasNext count) =
      opened (withInput base count) manager.pFds manager.hasNext count := by
  obtain ⟨there, free⟩ := previous
  rw [Manager.inputCalls]
  cases prev : manager.prevFd with
  | none =>
    rw [prev] at there
    have first : ¬ 0 < count := by simpa using there.symm
    have same : withInput base count = base := by
      funext fd
      simp [withInput, first]
    rw [same]
    rfl
  | some fd =>
    rw [prev] at there fresh free
    have later : 0 < count := by simpa using there.symm
    have unused := free fd rfl
    have held : carried base (some fd) count fd = some (.readEnd (count - 1)) := Function.update_self _ _ _
    have taken : carried base (some fd) count fd ≠ none := by rw [held]; exact Option.some_ne_none _
    have std : carried base (some fd) count stdin ≠ none := by
      rw [carried, Function.update_of_ne (Ne.symm (ne_of_free unused stdOpen.1))]
      exact stdOpen.1
    have same (d : Nat) (other : d ≠ fd) :
        opened (carried base (some fd) count) manager.pFds manager.hasNext count d =
          opened base manager.pFds manager.hasNext count d :=
      opened_congr (Function.update_of_ne other _ _)
    refine (input_moved ((opened_apart fresh taken).trans held) (ne_of_free unused stdOpen.1) same ?_).trans ?_
    · exact (opened_apart fresh taken).trans unused
    · funext d
      by_cases input : d = stdin
      · subst input
        rw [Function.update_self, opened_apart fresh std]
        simp [withInput, later]
      · rw [Function.update_of_ne input]
        exact opened_congr (by simp [withInput, input])

/-- The calls of a child leave it what it hands over. -/
theorem calls_result {manager : Manager} (stdOpen : StdOpen base)
    (previous : Previous base manager.prevFd count)
    (fresh : manager.hasNext = true → Fresh (carried base manager.prevFd count) manager.pFds)
    (more : manager.hasNext = decide (count < last)) :
    manager.childCalls.foldl Call.run
        (opened (carried base manager.prevFd count) manager.pFds manager.hasNext count) =
      handedOver base last count := by
  rw [Manager.childCalls, List.foldl_append, input_result stdOpen previous fresh, Manager.outputCalls]
  cases next : manager.hasNext with
  | false =>
    rw [next] at more
    have final : ¬ count < last := by simpa using more.symm
    funext fd
    simp [opened, withInput, handedOver, final]
  | true =>
    rw [next] at more
    have inner : count < last := by simpa using more.symm
    obtain ⟨reading, writing, distinct⟩ := fresh next
    have readFree := carried_free reading
    have writeFree := carried_free writing
    have unmoved (fd : Nat) (free : base fd = none) : withInput base count fd = none := by
      simp [withInput, ne_of_free free stdOpen.1, free]
    simp only [if_true]
    rw [output_moved ⟨unmoved _ readFree, unmoved _ writeFree, distinct⟩ (ne_of_free writeFree stdOpen.2.1)
      (ne_of_free readFree stdOpen.2.1)]
    funext fd
    by_cases output : fd = stdout
    · subst output
      simp [handedOver, inner, stdin, stdout]
    · simp [withInput, handedOver, output]

/-- The manager closes `prev_fd`, which leaves what was inherited and the new pipe. -/
private theorem closePrev_opened {manager : Manager} (previous : Previous base manager.prevFd count)
    (fresh : manager.hasNext = true → Fresh (carried base manager.prevFd count) manager.pFds)
    (now : manager.fds = opened (carried base manager.prevFd count) manager.pFds manager.hasNext count) :
    closePrev manager = opened base manager.pFds manager.hasNext count := by
  rw [closePrev, now]
  cases prev : manager.prevFd with
  | none => rfl
  | some fd =>
    rw [prev] at fresh
    have taken : carried base (some fd) count fd ≠ none := by simp [carried]
    funext d
    by_cases same : d = fd
    · subst same
      simp only [Function.update_self]
      exact ((opened_apart fresh taken).trans (previous.free d prev)).symm
    · simp only [Function.update_of_ne same]
      exact opened_congr (Function.update_of_ne same _ _)

/-! ## The manager -/

/-- The piece that the manager is at: what it has scanned of it and what is left. -/
structure Piece (argv : List Token) (manager : Manager) (done : List (List Token))
    (scanned rest : List Token) : Prop where
  whole : ∃ front, argv = front ++ scanned ++ rest ∧ manager.cmdStart = front.length ∧
    manager.i = (front ++ scanned).length
  solid : bar ∉ scanned
  pieces : segments argv = done ++ segments (scanned ++ rest)

/-- `argv` is cut behind the piece, and the token there is kept. -/
structure Cut (argv : List Token) (manager : Manager) (rest : List Token) : Prop where
  memory : manager.argv = (terminated argv).set manager.i none
  saved : manager.savedToken = rest.head?
  next : manager.hasNext = decide (rest.head? = some bar)
  ended : rest = [] ∨ rest.head? = some bar

private theorem terminated_append (front rest : List Token) :
    terminated (front ++ rest) = front.map some ++ terminated rest := by
  simp [terminated]

/-- The manager reads the first token that is left. -/
theorem token_read (piece : Piece argv manager done scanned rest)
    (memory : manager.argv = terminated argv) : manager.argv.getD manager.i none = rest.head? := by
  obtain ⟨front, rfl, _, index⟩ := piece.whole
  rw [memory, index]
  exact getD_terminated (front ++ scanned) rest

/-- The child reads the piece. -/
theorem currentArgv_cut (piece : Piece argv manager done scanned rest)
    (cut : Cut argv manager rest) : manager.currentArgv = scanned := by
  obtain ⟨front, rfl, start, index⟩ := piece.whole
  have memory := cut.memory
  have spot : (front ++ scanned).length = ((front ++ scanned).map some : List (Option Token)).length := by
    simp
  rw [terminated_append, index, spot, List.set_append_right _ _ (Nat.le_refl _), Nat.sub_self] at memory
  have shape : ∃ more, manager.argv = front.map some ++ (scanned.map some ++ none :: more) := by
    rw [memory, List.map_append, List.append_assoc]
    cases rest with
    | nil => exact ⟨[], rfl⟩
    | cons token rest => exact ⟨terminated rest, rfl⟩
  obtain ⟨more, same⟩ := shape
  have front_ : front.length = (front.map some : List (Option Token)).length := by simp
  rw [Manager.currentArgv, same, start, front_, List.drop_left,
    List.takeWhile_append_of_pos (by simp)]
  simp [List.reduceOption, List.filterMap_map]

/-- Putting the token back restores `argv`. -/
theorem restored (piece : Piece argv manager done scanned rest) (cut : Cut argv manager rest) :
    manager.argv.set manager.i rest.head? = terminated argv := by
  obtain ⟨front, rfl, _, index⟩ := piece.whole
  have spot : (front ++ scanned).length = ((front ++ scanned).map some : List (Option Token)).length := by
    simp
  rw [cut.memory, List.set_set, terminated_append, index, spot,
    List.set_append_right _ _ (Nat.le_refl _), Nat.sub_self]
  cases rest with
  | nil => rfl
  | cons token rest => rfl

/-! ## All processes -/

/-- Nobody has waited yet. -/
def Unwaited (state : State) : Prop := state.waits = 0 ∧ ∀ child ∈ state.children, child.reaped = false

/-- Before the piece is cut. -/
def Scanning (argv : List Token) (base : Descriptors) (state : State) : Prop :=
  ∃ scanned rest, Piece argv state.manager (state.children.map Child.argv) scanned rest ∧
    state.manager.childCount = state.children.length ∧
    Previous base state.manager.prevFd state.children.length ∧
    state.manager.argv = terminated argv ∧
    state.manager.fds = carried base state.manager.prevFd state.children.length ∧
    state.pipes = state.children.length

/-- Cut, before the pipe to the next piece. -/
def Piping (argv : List Token) (base : Descriptors) (state : State) : Prop :=
  ∃ scanned rest, Piece argv state.manager (state.children.map Child.argv) scanned rest ∧
    Cut argv state.manager rest ∧ state.manager.hasNext = true ∧
    state.manager.childCount = state.children.length ∧
    Previous base state.manager.prevFd state.children.length ∧
    state.manager.fds = carried base state.manager.prevFd state.children.length ∧
    state.pipes = state.children.length

/-- The descriptors while the child of the piece with this number is forked. -/
structure Ends (base : Descriptors) (state : State) (count : Nat) : Prop where
  forks : state.manager.childCount = count
  previous : Previous base state.manager.prevFd count
  fresh : state.manager.hasNext = true → Fresh (carried base state.manager.prevFd count) state.manager.pFds
  fds : state.manager.fds =
    opened (carried base state.manager.prevFd count) state.manager.pFds state.manager.hasNext count
  pipes : state.pipes = count + state.manager.hasNext.toNat

/-- With its pipe, before the fork. -/
def Forking (argv : List Token) (base : Descriptors) (state : State) : Prop :=
  ∃ scanned rest, Piece argv state.manager (state.children.map Child.argv) scanned rest ∧
    Cut argv state.manager rest ∧ Ends base state state.children.length

/-- Behind the fork. -/
def Forked (argv : List Token) (base : Descriptors) (state : State) : Prop :=
  ∃ done scanned rest, state.children.map Child.argv = done ++ [scanned] ∧
    Piece argv state.manager done scanned rest ∧ Cut argv state.manager rest ∧
    Ends base state done.length

/-- Behind the closing of `prev_fd`. -/
def Closing (argv : List Token) (base : Descriptors) (state : State) : Prop :=
  ∃ done scanned rest, state.children.map Child.argv = done ++ [scanned] ∧
    Piece argv state.manager done scanned rest ∧ Cut argv state.manager rest ∧
    state.manager.hasNext = true ∧ state.manager.childCount = done.length + 1 ∧
    Fresh base state.manager.pFds ∧
    state.manager.fds = opened base state.manager.pFds true done.length ∧
    state.pipes = done.length + 1

/-- All children are forked, and the manager is as it was called. -/
structure AllForked (argv : List Token) (base : Descriptors) (state : State) : Prop where
  pieces : state.children.map Child.argv = segments argv
  forks : state.manager.childCount = state.children.length
  memory : state.manager.argv = terminated argv
  fds : state.manager.fds = base
  waits : state.children.countP (·.reaped) = state.waits

/-- What holds of the manager at each place. -/
def At (argv : List Token) (base : Descriptors) (state : State) : Place → Prop
  | .scan => Unwaited state ∧ Scanning argv base state
  | .piping => Unwaited state ∧ Piping argv base state
  | .forking => Unwaited state ∧ Forking argv base state
  | .forked => Unwaited state ∧ Forked argv base state
  | .closing => Unwaited state ∧ Closing argv base state
  | .waiting j => AllForked argv base state ∧ j = state.waits ∧ j ≤ state.children.length
  | .exited code => AllForked argv base state ∧ code = 0 ∧ state.waits = state.children.length

/-- What holds of the children: the calls they have left leave them what they hand
over, and only those that ended were waited for. -/
structure Children (argv : List Token) (base : Descriptors) (state : State) : Prop where
  calls : ∀ j child, state.children[j]? = some child →
    child.calls.foldl Call.run child.fds = handedOver base (argv.count bar) j
  ended : ∀ child ∈ state.children, (child.reaped = true → child.exited = true) ∧
    (child.exited = true → child.calls = [])

/-- What holds between any two steps. -/
def Inv (argv : List Token) (base : Descriptors) (state : State) : Prop :=
  Children argv base state ∧ At argv base state state.manager.place

theorem inv_start (argv : List Token) (files : Nat → Option Nat) :
    Inv argv (inherited files) (start argv files) := by
  exact ⟨⟨nofun, nofun⟩, ⟨rfl, nofun⟩, [], argv, ⟨⟨[], rfl, rfl, rfl⟩, nofun, rfl⟩, rfl, ⟨rfl, nofun⟩, rfl,
    rfl, rfl⟩

/-! ## Steps of the manager -/

/-- What is left in front of a cut: nothing, or a bar and the pieces behind it. -/
theorem cut_cases (piece : Piece argv manager done scanned rest) (cut : Cut argv manager rest) :
    manager.hasNext = false ∧ rest = [] ∧ segments argv = done ++ [scanned] ∨
      manager.hasNext = true ∧ ∃ more, rest = bar :: more ∧
        segments argv = done ++ [scanned] ++ segments more := by
  have pieces := piece.pieces
  rcases cut.ended with rfl | ahead
  · left
    rw [List.append_nil, segments_single piece.solid] at pieces
    exact ⟨by simpa using cut.next, rfl, pieces⟩
  · right
    obtain ⟨more, rfl⟩ := List.head?_eq_some_iff.mp ahead
    have split_ : segments (scanned ++ bar :: more) = scanned :: segments more :=
      List.splitOn_append_cons_self_of_not_mem piece.solid more
    rw [split_] at pieces
    exact ⟨by simpa using cut.next, more, rfl, by simpa using pieces⟩

/-- There is a next piece exactly if this is not the last. -/
private theorem more_pieces (piece : Piece argv manager done scanned rest) (cut : Cut argv manager rest) :
    manager.hasNext = decide (done.length < argv.count bar) := by
  have total := segments_length argv
  rcases cut_cases piece cut with ⟨next, _, pieces⟩ | ⟨next, more, _, pieces⟩
  · rw [pieces, List.length_append, List.length_singleton] at total
    rw [next, eq_comm, decide_eq_false_iff_not]
    omega
  · have others := segments_length more
    rw [pieces, List.length_append, List.length_append, List.length_singleton, others] at total
    rw [next, eq_comm, decide_eq_true_iff]
    omega

/-- What the manager does about the next token: at the end and at a bar it cuts the piece
off, any other token belongs to the piece. -/
theorem scan_cases (piece : Piece argv manager done scanned rest) (memory : manager.argv = terminated argv)
    (place : manager.place = .scan) (ran : runManager manager = some next) :
    (Piece argv next done scanned rest ∧ Cut argv next rest ∧
      next = { manager with
        hasNext := decide (rest.head? = some bar), savedToken := rest.head?
        argv := manager.argv.set manager.i none
        place := if rest.head? = some bar then .piping else .forking }) ∨
    ∃ token more, Piece argv next done (scanned ++ [token]) more ∧ next = { manager with i := manager.i + 1 } := by
  simp only [runManager, place, token_read piece memory] at ran
  split at ran
  · rename_i ended
    simp only [decide_eq_true_eq, Option.some.injEq] at ran
    subst ran
    left
    refine ⟨⟨piece.whole, piece.solid, piece.pieces⟩, ⟨?_, rfl, rfl, ended.imp_left List.head?_eq_none_iff.mp⟩,
      rfl⟩
    rw [memory]
  · rename_i other
    cases ran
    right
    obtain ⟨notEnded, notBar⟩ := not_or.mp other
    obtain ⟨front, whole, begin_, index⟩ := piece.whole
    have pieces := piece.pieces
    cases rest with
    | nil => exact absurd rfl notEnded
    | cons token more =>
      rw [List.append_cons] at pieces whole
      refine ⟨token, more, ⟨⟨front, ?_, begin_, ?_⟩, ?_, pieces⟩, by rw [memory, place]⟩
      · rw [whole, List.append_assoc front]
      · simp only [index, List.length_append, List.length_singleton, Nat.add_assoc]
      · intro member
        rcases List.mem_append.mp member with earlier | here
        · exact piece.solid earlier
        · exact notBar (congrArg some (List.mem_singleton.mp here).symm)

private theorem run_scan (unwaited : Unwaited state) (scanning : Scanning argv base state)
    (place : state.manager.place = .scan) (ran : runManager state.manager = some next) :
    At argv base { state with manager := next } next.place := by
  obtain ⟨scanned, rest, piece, forks, previous, memory, fds, pipes⟩ := scanning
  rcases scan_cases piece memory place ran with ⟨same, cut, rfl⟩ | ⟨token, more, longer, rfl⟩
  · by_cases ahead : rest.head? = some bar
    · simp only [ahead, decide_true, if_true] at same cut ⊢
      exact ⟨unwaited, scanned, rest, same, cut, rfl, forks, previous, fds, pipes⟩
    · simp only [ahead, decide_false, if_false] at same cut ⊢
      exact ⟨unwaited, scanned, rest, same, cut, forks, previous, nofun, fds, pipes⟩
  · simp only [place] at longer ⊢
    exact ⟨unwaited, scanned ++ [token], more, longer, forks, previous, memory, fds, pipes⟩

private theorem run_forked (unwaited : Unwaited state) (forked : Forked argv base state)
    (place : state.manager.place = .forked) (ran : runManager state.manager = some next) :
    At argv base { state with manager := next } next.place := by
  obtain ⟨done, scanned, rest, children, piece, cut, forks, previous, fresh, fds, pipes⟩ := forked
  have closed := closePrev_opened previous fresh fds
  have count : state.children.length = done.length + 1 := by
    have sizes := congrArg List.length children
    simpa using sizes
  simp only [runManager, place] at ran
  rcases cut_cases piece cut with ⟨last, rfl, pieces⟩ | ⟨more, _⟩
  · simp only [last, Bool.false_eq_true, if_false] at ran
    cases ran
    obtain ⟨waits, unreaped⟩ := unwaited
    have none_ : state.children.countP (·.reaped) = 0 :=
      List.countP_eq_zero.mpr fun child member => by simp [unreaped child member]
    have memory := restored piece cut
    refine ⟨⟨children.trans pieces.symm, ?_, ?_, ?_, none_.trans waits.symm⟩, waits.symm, Nat.zero_le _⟩
    · rw [count, forks]
    · -- the null at the end is what the last piece was cut with
      have same := cut.memory
      rw [same, List.set_set] at memory
      exact same.trans memory
    · simpa [opened, last] using closed
  · simp only [more, if_true] at ran
    cases ran
    refine ⟨unwaited, done, scanned, rest, children, ⟨piece.whole, piece.solid, piece.pieces⟩,
      ⟨cut.memory, cut.saved, more ▸ cut.next, cut.ended⟩, rfl, by rw [forks], ?_, ?_, ?_⟩
    · obtain ⟨reading, writing, distinct⟩ := fresh more
      exact ⟨carried_free reading, carried_free writing, distinct⟩
    · rwa [more] at closed
    · rw [pipes, more]
      rfl

/-- What the manager goes on with behind a bar: the next piece, with `argv` as it was. -/
theorem closing_cases (piece : Piece argv manager done scanned rest) (cut : Cut argv manager rest)
    (more : manager.hasNext = true) (place : manager.place = .closing) (ran : runManager manager = some next) :
    (∃ behind, Piece argv next (done ++ [scanned]) [] behind) ∧ next.argv = terminated argv ∧
      next = { manager with
        fds := Function.update manager.fds manager.pFds.2 none, prevFd := some manager.pFds.1
        argv := manager.argv.set manager.i manager.savedToken
        cmdStart := manager.i + 1, i := manager.i + 1, place := .scan } := by
  simp only [runManager, place, Option.some.injEq] at ran
  subst ran
  refine ⟨?_, ?_, rfl⟩
  · rcases cut_cases piece cut with ⟨last, _⟩ | ⟨_, behind, rfl, pieces⟩
    · exact absurd (more.symm.trans last) nofun
    · obtain ⟨front, whole, begin_, index⟩ := piece.whole
      refine ⟨behind, ⟨front ++ scanned ++ [bar], ?_, ?_, ?_⟩, nofun, ?_⟩
      · simp [whole]
      · simp [index, Nat.add_assoc]
      · simp [index, Nat.add_assoc]
      · rw [pieces, List.nil_append]
  · rw [cut.saved]
    exact restored piece cut

private theorem run_closing (unwaited : Unwaited state) (closing : Closing argv base state)
    (place : state.manager.place = .closing) (ran : runManager state.manager = some next) :
    At argv base { state with manager := next } next.place := by
  obtain ⟨done, scanned, rest, children, piece, cut, more, forks, fresh, fds, pipes⟩ := closing
  have count : state.children.length = done.length + 1 := by
    have sizes := congrArg List.length children
    simpa using sizes
  obtain ⟨⟨behind, following⟩, memory, rfl⟩ := closing_cases piece cut more place ran
  rw [← children] at following
  refine ⟨unwaited, [], behind, following, ?_, ⟨?_, ?_⟩, memory, ?_, ?_⟩
  · rw [count, forks]
  · simp [count]
  · rintro _ ⟨⟩
    exact fresh.reading
  · -- what is left of the new pipe is its read end, now `prev_fd`
    rw [fds, count]
    funext d
    by_cases writing : d = state.manager.pFds.2
    · subst writing
      simp [carried, Ne.symm fresh.distinct, fresh.writing]
    · simp [carried, opened, Function.update_apply, writing]
  · rw [pipes, count]

private theorem run_waiting (all : AllForked argv base state) (counted : j = state.waits)
    (within : j ≤ state.children.length) (place : state.manager.place = .waiting j)
    (ran : runManager state.manager = some next) :
    At argv base { state with manager := next } next.place := by
  simp only [runManager, place] at ran
  split at ran
  · cases ran
  · rename_i over_
    cases ran
    obtain ⟨pieces, forks, memory, fds, waits⟩ := all
    rw [forks] at over_
    refine ⟨⟨pieces, forks, memory, fds, waits⟩, rfl, ?_⟩
    show state.waits = state.children.length
    omega

/-- A step of the manager alone. -/
theorem run_keeps (inv : Inv argv base state) (ran : runManager state.manager = some next) :
    Inv argv base { state with manager := next } := by
  obtain ⟨⟨calls, ended⟩, here⟩ := inv
  refine ⟨⟨calls, ended⟩, ?_⟩
  cases place : state.manager.place with
  | scan =>
    rw [place] at here
    exact run_scan here.1 here.2 place ran
  | forked =>
    rw [place] at here
    exact run_forked here.1 here.2 place ran
  | closing =>
    rw [place] at here
    exact run_closing here.1 here.2 place ran
  | waiting j =>
    rw [place] at here
    exact run_waiting here.1 here.2.1 here.2.2 place ran
  | piping | forking | exited _ => simp [runManager, place] at ran

/-! ## Calls of the manager -/

theorem pipe_cases (ran : pipeReturns state (some (readFd, writeFd)) = some next) :
    state.manager.place = .piping ∧ Fresh state.manager.fds (readFd, writeFd) ∧
      next = { state with
        manager := { state.manager with
          pFds := (readFd, writeFd), fds := opened state.manager.fds (readFd, writeFd) true state.pipes
          place := .forking }
        pipes := state.pipes + 1 } := by
  simp only [pipeReturns] at ran
  split at ran
  · rename_i place
    split at ran
    · rename_i free
      cases ran
      exact ⟨place, ⟨free.1, free.2.1, free.2.2⟩, rfl⟩
    · cases ran
  · cases ran

/-- `pipe` succeeds. -/
theorem pipe_keeps (inv : Inv argv base state) (ran : pipeReturns state (some answer) = some next) :
    Inv argv base next := by
  obtain ⟨⟨calls, ended⟩, here⟩ := inv
  obtain ⟨place, fresh, rfl⟩ := pipe_cases ran
  rw [place] at here
  obtain ⟨unwaited, scanned, rest, piece, cut, more, forks, previous, fds, pipes⟩ := here
  rw [fds] at fresh
  refine ⟨⟨calls, ended⟩, unwaited, scanned, rest, ⟨piece.whole, piece.solid, piece.pieces⟩,
    ⟨cut.memory, cut.saved, cut.next, cut.ended⟩, forks, previous, fun _ => fresh, ?_, ?_⟩
  · simp only [more, fds, pipes]
  · simp only [more, pipes]
    rfl

theorem fork_cases (ran : forkReturns state true = some next) :
    state.manager.place = .forking ∧
      next = { state with
        manager := { state.manager with place := .forked }
        children := state.children ++
          [⟨state.manager.currentArgv, state.manager.fds, state.manager.childCalls, false, false⟩] } := by
  simp only [forkReturns] at ran
  split at ran
  · rename_i place
    cases ran
    exact ⟨place, rfl⟩
  · cases ran

/-- `fork` succeeds, and the child has before it what leaves it the ends it hands over. -/
theorem fork_keeps (stdOpen : StdOpen base) (inv : Inv argv base state)
    (ran : forkReturns state true = some next) : Inv argv base next := by
  obtain ⟨⟨calls, ended⟩, here⟩ := inv
  obtain ⟨place, rfl⟩ := fork_cases ran
  rw [place] at here
  obtain ⟨⟨waits, unreaped⟩, scanned, rest, piece, cut, forks, previous, fresh, fds, pipes⟩ := here
  have more := more_pieces piece cut
  rw [List.length_map] at more
  have result := calls_result stdOpen previous fresh more
  rw [← fds] at result
  refine ⟨⟨?_, ?_⟩, ⟨waits, ?_⟩, state.children.map Child.argv, scanned, rest, ?_,
    ⟨piece.whole, piece.solid, piece.pieces⟩, ⟨cut.memory, cut.saved, cut.next, cut.ended⟩, ?_⟩
  · intro j child found
    simp only [List.getElem?_append] at found
    split at found
    · exact calls j child found
    · rename_i behind
      rw [List.getElem?_singleton] at found
      split at found
      · cases found
        obtain rfl : j = state.children.length := by omega
        exact result
      · cases found
  · intro child member
    rcases List.mem_append.mp member with old | new
    · exact ended child old
    · obtain rfl := List.mem_singleton.mp new
      exact ⟨nofun, nofun⟩
  · intro child member
    rcases List.mem_append.mp member with old | new
    · exact unreaped child old
    · obtain rfl := List.mem_singleton.mp new
      rfl
  · simp [currentArgv_cut piece cut]
  · rw [List.length_map]
    exact ⟨forks, previous, fresh, fds, pipes⟩

/-! ## Steps of the children -/

private theorem map_set {old new : Child} {children : List Child} {k : Nat}
    (found : children[k]? = some old) (part : Child → α) (same : part new = part old) :
    (children.set k new).map part = children.map part := by
  apply List.ext_getElem?
  intro j
  rw [List.map_set, List.getElem?_set]
  split
  · rename_i here
    subst here
    split
    · rw [List.getElem?_map, found, same]
      rfl
    · rename_i beyond
      rw [List.getElem?_eq_none (Nat.not_lt.mp beyond)]
  · rfl

private theorem unwaited_congr {children : List Child}
    (reaped : children.map Child.reaped = state.children.map Child.reaped) (unwaited : Unwaited state) :
    Unwaited { state with children } := by
  refine ⟨unwaited.1, fun child member => ?_⟩
  have there : child.reaped ∈ state.children.map Child.reaped := reaped ▸ List.mem_map_of_mem member
  obtain ⟨other, held, same⟩ := List.mem_map.mp there
  rw [← same]
  exact unwaited.2 other held

private theorem countP_congr {children others : List Child}
    (reaped : children.map Child.reaped = others.map Child.reaped) :
    children.countP (·.reaped) = others.countP (·.reaped) := by
  have counts := congrArg (List.countP id) reaped
  simpa [List.countP_map, Function.comp_def] using counts

/-- What holds of the manager does not depend on what the children do with their
descriptors. -/
private theorem at_congr {children : List Child} (place : Place)
    (argvs : children.map Child.argv = state.children.map Child.argv)
    (reaped : children.map Child.reaped = state.children.map Child.reaped)
    (here : At argv base state place) : At argv base { state with children } place := by
  have size : children.length = state.children.length := by
    have sizes := congrArg List.length argvs
    simpa using sizes
  cases place with
  | scan =>
    refine ⟨unwaited_congr reaped here.1, ?_⟩
    simp only [Scanning, argvs, size]
    exact here.2
  | piping =>
    refine ⟨unwaited_congr reaped here.1, ?_⟩
    simp only [Piping, argvs, size]
    exact here.2
  | forking =>
    refine ⟨unwaited_congr reaped here.1, ?_⟩
    obtain ⟨scanned, rest, piece, cut, ends⟩ := here.2
    simp only [Forking, argvs, size]
    exact ⟨scanned, rest, piece, cut, ends.forks, ends.previous, ends.fresh, ends.fds, ends.pipes⟩
  | forked =>
    refine ⟨unwaited_congr reaped here.1, ?_⟩
    obtain ⟨done, scanned, rest, pieces, piece, cut, ends⟩ := here.2
    exact ⟨done, scanned, rest, argvs.trans pieces, piece, cut, ends.forks, ends.previous, ends.fresh,
      ends.fds, ends.pipes⟩
  | closing =>
    refine ⟨unwaited_congr reaped here.1, ?_⟩
    obtain ⟨done, scanned, rest, pieces, others⟩ := here.2
    exact ⟨done, scanned, rest, argvs.trans pieces, others⟩
  | waiting j =>
    obtain ⟨all, counted, within⟩ := here
    exact ⟨⟨argvs.trans all.pieces, all.forks.trans size.symm, all.memory, all.fds,
      (countP_congr reaped).trans all.waits⟩, counted, Nat.le_trans within (Nat.le_of_eq size.symm)⟩
  | exited code =>
    obtain ⟨all, success, counted⟩ := here
    exact ⟨⟨argvs.trans all.pieces, all.forks.trans size.symm, all.memory, all.fds,
      (countP_congr reaped).trans all.waits⟩, success, counted.trans size.symm⟩

/-- A change of one child, to another that is as good. -/
private theorem children_set {old new : Child} (sound : Children argv base state)
    (found : state.children[k]? = some old)
    (calls : new.calls.foldl Call.run new.fds = old.calls.foldl Call.run old.fds)
    (ended : (new.reaped = true → new.exited = true) ∧ (new.exited = true → new.calls = [])) :
    Children argv base { state with children := state.children.set k new } := by
  refine ⟨fun j child there => ?_, fun child member => ?_⟩
  · simp only [List.getElem?_set] at there
    split at there
    · rename_i here
      subst here
      split at there
      · cases there
        exact calls.trans (sound.calls _ old found)
      · cases there
    · exact sound.calls j child there
  · rcases List.mem_or_eq_of_mem_set member with before | rfl
    · exact sound.ended child before
    · exact ended

theorem called_cases (ran : childCalled state k = some next) :
    ∃ child call calls, state.children[k]? = some child ∧ child.calls = call :: calls ∧
      next = { state with
        children := state.children.set k { child with fds := call.run child.fds, calls } } := by
  simp only [childCalled] at ran
  split at ran
  · rename_i child found
    split at ran
    · rename_i call calls left
      cases ran
      exact ⟨child, call, calls, found, left, rfl⟩
    · cases ran
  · cases ran

theorem called_keeps (inv : Inv argv base state) (ran : childCalled state k = some next) :
    Inv argv base next := by
  obtain ⟨child, call, calls, found, left, rfl⟩ := called_cases ran
  have sound := inv.1.ended child (List.mem_of_getElem? found)
  refine ⟨children_set inv.1 found (by rw [left]; rfl) ⟨sound.1, fun exited => ?_⟩,
    at_congr _ (map_set found _ rfl) (map_set found _ rfl) inv.2⟩
  have none_ := sound.2 exited
  rw [left] at none_
  cases none_

theorem ended_cases (ran : childEnded state k = some next) :
    ∃ child, state.children[k]? = some child ∧ child.calls = [] ∧ child.exited = false ∧
      next = { state with children := state.children.set k { child with exited := true } } := by
  simp only [childEnded] at ran
  split at ran
  · rename_i child found
    split at ran
    · rename_i ready
      cases ran
      exact ⟨child, found, ready.1, ready.2, rfl⟩
    · cases ran
  · cases ran

theorem ended_keeps (inv : Inv argv base state) (ran : childEnded state k = some next) :
    Inv argv base next := by
  obtain ⟨child, found, handed, _, rfl⟩ := ended_cases ran
  exact ⟨children_set inv.1 found rfl ⟨fun _ => rfl, fun _ => handed⟩,
    at_congr _ (map_set found _ rfl) (map_set found _ rfl) inv.2⟩

/-- `wait` takes a child that ended, and cannot fail before all are taken. -/
theorem wait_cases (inv : Inv argv base state) (ran : waitReturns state answer = some next) :
    ∃ k child, AllForked argv base state ∧ state.manager.place = .waiting state.waits ∧
      state.waits < state.children.length ∧ state.children[k]? = some child ∧ child.exited = true ∧
      child.reaped = false ∧
      next = { state with
        manager := { state.manager with place := .waiting (state.waits + 1) }
        children := state.children.set k { child with reaped := true }
        waits := state.waits + 1 } := by
  have here := inv.2
  simp only [waitReturns] at ran
  split at ran
  · rename_i j place
    rw [place] at here
    obtain ⟨all, rfl, _⟩ := here
    split at ran
    · rename_i more
      rw [all.forks] at more
      split at ran
      · split at ran
        · rename_i taken
          have every : state.children.countP (·.reaped) = state.children.length :=
            List.countP_eq_length.mpr (List.all_eq_true.mp taken)
          exact absurd (all.waits.symm.trans every) (Nat.ne_of_lt more)
        · cases ran
      · rename_i k
        split at ran
        · rename_i child found
          split at ran
          · rename_i ready
            cases ran
            exact ⟨k, child, all, place, more, found, ready.1, ready.2, rfl⟩
          · cases ran
        · cases ran
    · cases ran
  · cases ran

theorem wait_keeps (inv : Inv argv base state) (ran : waitReturns state answer = some next) :
    Inv argv base next := by
  obtain ⟨k, child, ⟨pieces, forks, memory, fds, waits⟩, _, more, found, exited, unreaped, rfl⟩ :=
    wait_cases inv ran
  obtain ⟨inside, here⟩ := List.getElem?_eq_some_iff.mp found
  have taken : (state.children.set k { child with reaped := true }).countP (·.reaped) =
      state.children.countP (·.reaped) + 1 := by
    rw [List.countP_set inside, here]
    simp [unreaped]
  have after : Children argv base
      { state with children := state.children.set k { child with reaped := true } } :=
    children_set inv.1 found rfl ⟨fun _ => exited, (inv.1.ended child (List.mem_of_getElem? found)).2⟩
  have argvs : (state.children.set k { child with reaped := true }).map Child.argv =
      state.children.map Child.argv := map_set found _ rfl
  refine ⟨⟨after.calls, after.ended⟩, ⟨argvs.trans pieces, ?_, memory, fds, ?_⟩, rfl, ?_⟩
  · rw [forks, List.length_set]
  · rw [taken, waits]
  · rw [List.length_set]
    exact more

/-- Every step, as long as `pipe` and `fork` succeed. -/
theorem step_keeps (stdOpen : StdOpen base) (inv : Inv argv base state) (successful : Succeeds event)
    (taken : step state event = some next) : Inv argv base next := by
  cases event with
  | run =>
    obtain ⟨manager, ran, rfl⟩ := Option.map_eq_some_iff.mp taken
    exact run_keeps inv ran
  | piped answer =>
    cases answer with
    | none => exact successful.elim
    | some answer => exact pipe_keeps inv taken
  | forked success =>
    cases success with
    | false => exact successful.elim
    | true => exact fork_keeps stdOpen inv taken
  | waited answer => exact wait_keeps inv taken
  | called k => exact called_keeps inv taken
  | ended k => exact ended_keeps inv taken

/-! ## The end of a run -/

/-- The steps that a child has before it, and its wait. -/
def ahead (child : Child) : Nat :=
  child.calls.length + (if child.exited then 0 else 1) + (if child.reaped then 0 else 1)

/-- A bound on the steps of the manager that are no waits, and on those of the
children it has still to fork: sixteen for each token. -/
def toDo (manager : Manager) : Nat :=
  match manager.place with
  | .scan => 16 * (manager.argv.length - manager.i)
  | .piping => 16 * (manager.argv.length - manager.i) - 1
  | .forking => 16 * (manager.argv.length - manager.i) - 2
  | .forked => 16 * (manager.argv.length - manager.i) - 11
  | .closing => 16 * (manager.argv.length - manager.i) - 12
  | .waiting _ => 1
  | .exited _ => 0

/-- How many steps there can still be. -/
def rank (state : State) : Nat := toDo state.manager + (state.children.map ahead).sum

private theorem ahead_set {old : Child} {children : List Child} (found : children[k]? = some old)
    (new : Child) :
    ((children.set k new).map ahead).sum + ahead old = (children.map ahead).sum + ahead new := by
  induction children generalizing k with
  | nil => cases found
  | cons child children ih =>
    cases k with
    | zero =>
      cases found
      simp only [List.set_cons_zero, List.map_cons, List.sum_cons]
      omega
    | succ k =>
      have others := ih found
      simp only [List.set_cons_succ, List.map_cons, List.sum_cons]
      omega

private theorem terminated_length (argv : List Token) : (terminated argv).length = argv.length + 1 := by
  simp [terminated]

private theorem index_le (piece : Piece argv manager done scanned rest) : manager.i ≤ argv.length := by
  obtain ⟨front, rfl, _, index⟩ := piece.whole
  simp only [index, List.length_append]
  omega

private theorem cut_length (cut : Cut argv manager rest) : manager.argv.length = argv.length + 1 := by
  rw [cut.memory, List.length_set, terminated_length]

private theorem childCalls_short (manager : Manager) : manager.childCalls.length ≤ 5 := by
  rw [Manager.childCalls, Manager.inputCalls, Manager.outputCalls]
  cases manager.prevFd <;> cases manager.hasNext <;> simp

/-- The place in `argv` while the manager is at a piece. -/
private theorem index_inside (here : At argv base state state.manager.place)
    (place : state.manager.place = .scan ∨ state.manager.place = .piping ∨ state.manager.place = .forking ∨
      state.manager.place = .forked ∨ state.manager.place = .closing) :
    state.manager.i < state.manager.argv.length := by
  have bound (length : state.manager.argv.length = argv.length + 1)
      (index : state.manager.i ≤ argv.length) :
      state.manager.i < state.manager.argv.length := by omega
  rcases place with place | place | place | place | place
  · rw [place] at here
    obtain ⟨_, _, _, piece, _, _, memory, _⟩ := here
    exact bound (by rw [memory, terminated_length]) (index_le piece)
  · rw [place] at here
    obtain ⟨_, _, _, piece, cut, _⟩ := here
    exact bound (cut_length cut) (index_le piece)
  · rw [place] at here
    obtain ⟨_, _, _, piece, cut, _⟩ := here
    exact bound (cut_length cut) (index_le piece)
  · rw [place] at here
    obtain ⟨_, _, _, _, _, piece, cut, _⟩ := here
    exact bound (cut_length cut) (index_le piece)
  · rw [place] at here
    obtain ⟨_, _, _, _, _, piece, cut, _⟩ := here
    exact bound (cut_length cut) (index_le piece)

private theorem toDo_run (here : At argv base state state.manager.place)
    (ran : runManager state.manager = some next) : toDo next < toDo state.manager := by
  have inside := index_inside here
  cases place : state.manager.place with
  | scan =>
    have inside := inside (.inl place)
    simp only [runManager, place] at ran
    split at ran
    · cases ran
      by_cases more : state.manager.argv.getD state.manager.i none = some bar
      · simp only [toDo, more, decide_true, if_true, place, List.length_set]
        omega
      · simp only [toDo, more, decide_false, Bool.false_eq_true, if_false, place, List.length_set]
        omega
    · cases ran
      simp only [toDo, place]
      omega
  | forked =>
    have inside := inside (.inr (.inr (.inr (.inl place))))
    simp only [runManager, place] at ran
    cases ran
    cases more : state.manager.hasNext with
    | true =>
      simp only [toDo, if_true, place]
      omega
    | false =>
      simp only [toDo, Bool.false_eq_true, if_false, place]
      omega
  | closing =>
    have inside := inside (.inr (.inr (.inr (.inr place))))
    simp only [runManager, place, Option.some.injEq] at ran
    subst ran
    simp only [toDo, place, List.length_set]
    omega
  | waiting j =>
    simp only [runManager, place] at ran
    split at ran
    · cases ran
    · cases ran
      simp [toDo, place]
  | piping | forking | exited _ => simp [runManager, place] at ran

private theorem rank_called (ran : childCalled state k = some next) : rank next < rank state := by
  obtain ⟨child, call, calls, found, left, rfl⟩ := called_cases ran
  have sums := ahead_set found { child with fds := call.run child.fds, calls }
  simp only [ahead, left, List.length_cons] at sums
  simp only [rank]
  omega

private theorem rank_ended (ran : childEnded state k = some next) : rank next < rank state := by
  obtain ⟨child, found, _, unended, rfl⟩ := ended_cases ran
  have sums := ahead_set found { child with exited := true }
  simp only [ahead, unended, Bool.false_eq_true, if_true, if_false] at sums
  simp only [rank]
  omega

private theorem rank_pipe (inv : Inv argv base state) (ran : pipeReturns state (some answer) = some next) :
    rank next < rank state := by
  obtain ⟨place, _, rfl⟩ := pipe_cases ran
  have inside := index_inside inv.2 (.inr (.inl place))
  simp only [rank, toDo, place]
  omega

private theorem rank_fork (inv : Inv argv base state) (ran : forkReturns state true = some next) :
    rank next < rank state := by
  obtain ⟨place, rfl⟩ := fork_cases ran
  have inside := index_inside inv.2 (.inr (.inr (.inl place)))
  have short := childCalls_short state.manager
  simp only [rank, toDo, place, List.map_append, List.map_singleton, List.sum_append, List.sum_singleton,
    ahead, Bool.false_eq_true, if_false]
  omega

private theorem rank_wait (inv : Inv argv base state) (ran : waitReturns state answer = some next) :
    rank next < rank state := by
  obtain ⟨k, child, _, place, _, found, _, unreaped, rfl⟩ := wait_cases inv ran
  have sums := ahead_set found { child with reaped := true }
  simp only [ahead, unreaped, Bool.false_eq_true, if_true, if_false] at sums
  simp only [rank, toDo, place]
  omega

/-- Every step brings the end of the run closer. -/
theorem rank_step (inv : Inv argv base state) (successful : Succeeds event)
    (taken : step state event = some next) : rank next < rank state := by
  cases event with
  | run =>
    obtain ⟨manager, ran, rfl⟩ := Option.map_eq_some_iff.mp taken
    exact Nat.add_lt_add_right (toDo_run inv.2 ran) _
  | piped answer =>
    cases answer with
    | none => exact successful.elim
    | some answer => exact rank_pipe inv taken
  | forked success =>
    cases success with
    | false => exact successful.elim
    | true => exact rank_fork inv taken
  | waited answer => exact rank_wait inv taken
  | called k => exact rank_called taken
  | ended k => exact rank_ended taken

private theorem enabled (successful : Succeeds event) (taken : (step state event).isSome) :
    ∃ event next, Succeeds event ∧ step state event = some next := by
  obtain ⟨next, same⟩ := Option.isSome_iff_exists.mp taken
  exact ⟨event, next, successful, same⟩

/-- A child that was not waited for can go on, or be waited for. -/
private theorem child_goes_on {k : Nat} {child : Child} (place : state.manager.place = .waiting j)
    (more : j < state.manager.childCount) (found : state.children[k]? = some child)
    (unreaped : child.reaped = false) : ∃ event next, Succeeds event ∧ step state event = some next := by
  cases exited : child.exited with
  | true =>
    apply enabled (show Succeeds (.waited (some k)) from trivial)
    simp [step, waitReturns, place, more, found, exited, unreaped]
  | false =>
    cases left : child.calls with
    | nil =>
      apply enabled (show Succeeds (.ended k) from trivial)
      simp [step, childEnded, found, left, exited]
    | cons call calls =>
      apply enabled (show Succeeds (.called k) from trivial)
      simp [step, childCalled, found, left]

/-- With fewer waits than children there is one that was not waited for. -/
private theorem some_unreaped (all : AllForked argv base state)
    (more : state.waits < state.manager.childCount) :
    ∃ (k : Nat) (child : Child), state.children[k]? = some child ∧ child.reaped = false := by
  have behind : ¬ state.children.countP (·.reaped) = state.children.length := by
    rw [all.waits, ← all.forks]
    exact Nat.ne_of_lt more
  simp only [List.countP_eq_length, not_forall, Bool.not_eq_true] at behind
  obtain ⟨child, member, unreaped⟩ := behind
  obtain ⟨k, found⟩ := List.mem_iff_getElem?.mp member
  exact ⟨k, child, found, unreaped⟩

/-- Until the manager exits some process can go on, as long as `pipe` finds free
descriptors. -/
theorem goes_on (inv : Inv argv base state) (finite : ∀ fd, limit ≤ fd → base fd = none) :
    state.manager.place = .exited 0 ∨
      ∃ event next, Succeeds event ∧ step state event = some next := by
  obtain ⟨sound, here⟩ := inv
  cases place : state.manager.place with
  | scan =>
    refine .inr (enabled (show Succeeds .run from trivial) ?_)
    simp only [step, runManager, place]
    split <;> rfl
  | forked =>
    refine .inr (enabled (show Succeeds .run from trivial) ?_)
    simp [step, runManager, place]
  | closing =>
    refine .inr (enabled (show Succeeds .run from trivial) ?_)
    simp [step, runManager, place]
  | piping =>
    rw [place] at here
    obtain ⟨_, _, _, _, _, _, _, _, fds, _⟩ := here
    have free (fd : Nat) (high : limit + state.manager.prevFd.getD 0 < fd) :
        state.manager.fds fd = none := by
      rw [fds, carried_other]
      · exact finite fd (by omega)
      · intro prev same
        rw [Option.mem_def.mp same, Option.getD_some] at high
        omega
    have answered : Succeeds (.piped (some (limit + state.manager.prevFd.getD 0 + 1,
        limit + state.manager.prevFd.getD 0 + 2))) := trivial
    refine .inr (enabled answered ?_)
    simp [step, pipeReturns, place, free]
  | forking =>
    refine .inr (enabled (show Succeeds (.forked true) from trivial) ?_)
    simp [step, forkReturns, place]
  | waiting j =>
    rw [place] at here
    obtain ⟨all, counted, _⟩ := here
    rcases Nat.lt_or_ge j state.manager.childCount with more | over_
    · obtain ⟨k, child, found, unreaped⟩ := some_unreaped all (counted ▸ more)
      exact .inr (child_goes_on place more found unreaped)
    · refine .inr (enabled (show Succeeds .run from trivial) ?_)
      simp [step, runManager, place, Nat.not_lt.mpr over_]
  | exited code =>
    rw [place] at here
    rw [here.2.1]
    exact .inl rfl

/-! ## What a pipeline comes to -/

/-- How the processes are connected, in any state of a run. -/
structure Joined (argv : List Token) (files : Nat → Option Nat) (state : State) : Prop where
  /-- The children are forked in the order of the commands, each with its own. -/
  commands : state.children.map Child.argv <+: segments argv
  /-- A child that gets to `handle_redirection` reads from the child before it, -/
  input : ∀ (j : Nat) (child : Child), state.children[j]? = some child → child.calls = [] →
    child.fds stdin = if j = 0 then inherited files stdin else some (.readEnd (j - 1))
  /-- writes to the one behind it, -/
  output : ∀ (j : Nat) (child : Child), state.children[j]? = some child → child.calls = [] →
    child.fds stdout = if j = argv.count bar then inherited files stdout else some (.writeEnd j)
  /-- and has no other descriptors than those of the caller. -/
  others : ∀ (j : Nat) (child : Child), state.children[j]? = some child → child.calls = [] →
    ∀ fd, fd ≠ stdin → fd ≠ stdout → child.fds fd = inherited files fd
  /-- The manager waits when all are forked, with `argv` and the descriptors of the caller. -/
  waiting : ∀ j, state.manager.place = .waiting j →
    state.children.length = argv.count bar + 1 ∧ state.children.map Child.argv = segments argv ∧
      state.manager.argv = terminated argv ∧ state.manager.fds = inherited files ∧ state.waits = j
  /-- It exits when it has waited for each of them. -/
  exited : ∀ code, state.manager.place = .exited code →
    code = 0 ∧ state.children.length = argv.count bar + 1 ∧ state.children.map Child.argv = segments argv ∧
      state.manager.argv = terminated argv ∧ state.manager.fds = inherited files ∧
      state.waits = argv.count bar + 1

theorem commands_of_at (here : At argv base state state.manager.place) :
    state.children.map Child.argv <+: segments argv := by
  cases place : state.manager.place with
  | scan | piping | forking =>
    rw [place] at here
    obtain ⟨_, _, _, piece, _⟩ := here
    exact ⟨_, piece.pieces.symm⟩
  | forked | closing =>
    rw [place] at here
    obtain ⟨_, done, scanned, rest, children, piece, cut, _⟩ := here
    rw [children]
    rcases cut_cases piece cut with ⟨_, _, pieces⟩ | ⟨_, more, _, pieces⟩
    · exact ⟨[], by rw [pieces, List.append_nil]⟩
    · exact ⟨segments more, pieces.symm⟩
  | waiting j =>
    rw [place] at here
    exact here.1.pieces ▸ List.prefix_refl _
  | exited code =>
    rw [place] at here
    exact here.1.pieces ▸ List.prefix_refl _

private theorem joined_of_inv (inv : Inv argv (inherited files) state) : Joined argv files state := by
  obtain ⟨sound, here⟩ := inv
  have commands := commands_of_at here
  have within (j : Nat) (child : Child) (found : state.children[j]? = some child) : j ≤ argv.count bar := by
    have inside := (List.getElem?_eq_some_iff.mp found).1
    have count := commands.length_le
    rw [List.length_map, segments_length] at count
    omega
  have final (j : Nat) (child : Child) (found : state.children[j]? = some child)
      (none_ : child.calls = []) :
      child.fds = handedOver (inherited files) (argv.count bar) j := by
    have result := sound.calls j child found
    rwa [none_] at result
  have total (all : AllForked argv (inherited files) state) :
      state.children.length = argv.count bar + 1 := by
    rw [← segments_length, ← all.pieces, List.length_map]
  refine ⟨commands, ?_, ?_, ?_, ?_, ?_⟩
  · intro j child found none_
    rw [final j child found none_, handedOver]
    by_cases first : j = 0
    · simp [first, stdin, stdout]
    · rw [if_pos ⟨rfl, Nat.pos_of_ne_zero first⟩, if_neg first]
  · intro j child found none_
    have bound := within j child found
    rw [final j child found none_, handedOver, if_neg (by simp [stdin, stdout])]
    by_cases last : j = argv.count bar
    · rw [if_neg (by omega), if_pos last]
    · rw [if_pos ⟨rfl, by omega⟩, if_neg last]
  · intro j child found none_ fd input output
    rw [final j child found none_, handedOver, if_neg (by simp [input]), if_neg (by simp [output])]
  · intro j place
    rw [place] at here
    obtain ⟨all, counted, _⟩ := here
    exact ⟨total all, all.pieces, all.memory, all.fds, counted.symm⟩
  · intro code place
    rw [place] at here
    obtain ⟨all, success, counted⟩ := here
    exact ⟨success, total all, all.pieces, all.memory, all.fds, counted.trans (total all)⟩

/-- However the steps of the processes interleave, as long as `pipe` and `fork`
succeed: the children and the manager are connected as they should be; and the run
goes on until the manager exits, which it does after so many steps at most. -/
theorem pipeline_joined
    (open_ : (files stdin).isSome ∧ (files stdout).isSome ∧ (files stderr).isSome)
    (finite : ∀ fd, limit ≤ fd → files fd = none)
    (successful : ∀ event ∈ events, Succeeds event)
    (ran : exec step (start argv files) events = some state) :
    Joined argv files state ∧ events.length ≤ 16 * (argv.length + 1) ∧
      (state.manager.place = .exited 0 ∨ ∃ event next, Succeeds event ∧ step state event = some next) := by
  have stdOpen : StdOpen (inherited files) := by
    obtain ⟨input, output, error⟩ := open_
    refine ⟨?_, ?_, ?_⟩ <;> simp only [inherited, ne_eq, Option.map_eq_none_iff]
    · exact Option.isSome_iff_ne_none.mp input
    · exact Option.isSome_iff_ne_none.mp output
    · exact Option.isSome_iff_ne_none.mp error
  have kept (before : State) (event : Event) (next : State) (inv : Inv argv (inherited files) before)
      (success : Succeeds event) (taken : step before event = some next) :
      Inv argv (inherited files) next :=
    step_keeps stdOpen inv success taken
  have inv := exec_invariant_of_allowed kept (inv_start argv files) ran successful
  have high (fd : Nat) (beyond : limit ≤ fd) : inherited files fd = none := by
    rw [inherited, finite fd beyond]
    rfl
  refine ⟨joined_of_inv inv, ?_, goes_on inv high⟩
  have short := exec_length_le kept (fun _ _ _ inv success taken => rank_step inv success taken)
    (inv_start argv files) ran successful
  simpa [rank, toDo, start, terminated] using short

/-- The steps of the manager for `a | b`, up to its first wait. -/
def forkTwo : List Event :=
  [.run, .run, .piped (some (3, 4)), .forked true, .run, .run, .run, .run, .forked true, .run]

/-- A caller with its three standard files. -/
def threeFiles (fd : Nat) : Option Nat := if fd < 3 then some fd else none

/-- Its children, the second and the first by turns, and the waits for them. -/
def joinTwo : List Event :=
  [.called 1, .called 0, .called 0, .called 1, .called 0, .ended 1, .ended 0, .waited (some 1),
    .waited (some 0), .run]

/-- A run of `a | b`. -/
theorem two_commands_joined :
    ∃ state, exec step (start [[97], bar, [98]] threeFiles) (forkTwo ++ joinTwo) = some state ∧
      state.manager.place = .exited 0 ∧ Joined [[97], bar, [98]] threeFiles state := by
  have reached : ∃ state, exec step (start [[97], bar, [98]] threeFiles) (forkTwo ++ joinTwo) = some state ∧
      state.manager.place = .exited 0 := ⟨_, rfl, rfl⟩
  obtain ⟨state, ran, place⟩ := reached
  have successful : ∀ event ∈ forkTwo ++ joinTwo, Succeeds event := by simp [forkTwo, joinTwo, Succeeds]
  exact ⟨state, ran, place, (pipeline_joined ⟨rfl, rfl, rfl⟩
    (fun fd high => if_neg (Nat.not_lt.mpr high)) successful ran).1⟩

/-- The manager waits for `a | b` while the first child, not scheduled yet, has both
ends of the pipe at descriptors of their own. -/
theorem unscheduled_child_holds_ends :
    ∃ state child, exec step (start [[97], bar, [98]] threeFiles) forkTwo = some state ∧
      (∀ event ∈ forkTwo, Succeeds event) ∧ state.manager.place = .waiting 0 ∧ child ∈ state.children ∧
      child.fds 3 = some (.readEnd 0) ∧ child.fds 4 = some (.writeEnd 0) := by
  refine ⟨_, _, rfl, ?_, rfl, List.mem_cons_self, rfl, rfl⟩
  simp [forkTwo, Succeeds]

end ShapeQuake.PipelineProofs
