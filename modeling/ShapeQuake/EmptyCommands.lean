import ShapeQuake.RedirectProofs

/-! The commands that the children of a pipeline come to run. A child passes the first
element of its `argv` to `resolve_path`, which reads through it; where the piece was
empty, or `handle_redirection` took all of it away, that element is a null. -/
namespace ShapeQuake.EmptyCommands
open Library.Runs Pipeline PipelineProofs Redirect RedirectProofs

/-- What a child passes to `resolve_path`: the first element that `handle_redirection`
leaves it. -/
def command (answers : Nat → Option Nat) (currentArgv : List (Option Token))
    (fds : Redirect.Descriptors) : Option (Option Token) := do
  let scan ← handleRedirection answers currentArgv fds
  cell scan.argv 0

/-- In every run, whatever `open` answers, no child has a null for its command. -/
def NamesCommands (argv : List Token) : Prop :=
  ∀ files events state, exec step (start argv files) events = some state → ∀ child ∈ state.children,
    ∀ answers beyond, ∃ cmd,
      command answers (terminated child.argv ++ beyond) (before child.fds) = some (some cmd)

/-- Nothing but operators, each with a file name. -/
def OnlyRedirections : List Token → Prop
  | [] => True
  | [_] => False
  | op :: _ :: rest =>
    (op.getD 0 0 = greater ∨ op.getD 0 0 = less ∧ op.getD 1 0 = 0) ∧ OnlyRedirections rest

private theorem kept_nil_iff (piece : List Token) : kept takenFor piece = [] ↔ OnlyRedirections piece := by
  fun_induction OnlyRedirections piece with
  | case1 => exact iff_of_true rfl trivial
  | case2 t => exact iff_of_false (List.cons_ne_nil _ _) id
  | case3 op file rest ih =>
    rw [kept, ← ih]
    cases taken : takenFor op with
    | some flags =>
      refine (and_iff_right ?_).symm
      by_contra neither
      cases taken.symm.trans (takenFor_none_iff.mpr neither)
    | none => exact iff_of_false (List.cons_ne_nil _ _) fun both => takenFor_none_iff.mp taken both.1

/-- The command is a null exactly if nothing was kept. -/
private theorem command_iff (answers : Nat → Option Nat) (piece : List Token) (beyond : List (Option Token))
    (fds : Redirect.Descriptors) :
    (∃ cmd, command answers (terminated piece ++ beyond) fds = some (some cmd)) ↔
      ¬ OnlyRedirections piece := by
  obtain ⟨stale, _, ran⟩ := handleRedirection_reads answers piece beyond fds
  rw [← kept_nil_iff, command, ran]
  cases kept takenFor piece with
  | nil => simp [cell, terminated]
  | cons cmd rest => simp [cell, terminated]

/-! ## Whatever fails -/

/-- Where the manager is in `argv`. -/
def AtPiece (argv : List Token) (manager : Manager) : Prop :=
  match manager.place with
  | .scan => ∃ done scanned rest, Piece argv manager done scanned rest ∧ manager.argv = terminated argv
  | .piping | .forking | .forked => ∃ done scanned rest, Piece argv manager done scanned rest ∧
      Cut argv manager rest
  | .closing => ∃ done scanned rest, Piece argv manager done scanned rest ∧ Cut argv manager rest ∧
      manager.hasNext = true
  | .waiting _ | .exited _ => True

/-- The children have pieces of `argv`. -/
def HavePieces (argv : List Token) (children : List Child) : Prop :=
  ∀ child ∈ children, child.argv ∈ segments argv

private theorem havePieces_set {old new : Child} (sound : HavePieces argv children)
    (found : children[k]? = some old) (same : new.argv = old.argv) : HavePieces argv (children.set k new) := by
  intro child member
  rcases List.mem_or_eq_of_mem_set member with before | rfl
  · exact sound child before
  · rw [same]
    exact sound old (List.mem_of_getElem? found)

private theorem run_atPiece (here : AtPiece argv manager) (ran : runManager manager = some next) :
    AtPiece argv next := by
  cases place : manager.place with
  | scan =>
    simp only [AtPiece, place] at here
    obtain ⟨done, scanned, rest, piece, memory⟩ := here
    rcases scan_cases piece memory place ran with ⟨same, cut, rfl⟩ | ⟨token, more, longer, rfl⟩
    · by_cases ahead : rest.head? = some bar
      · simp only [AtPiece, ahead, if_true] at same cut ⊢
        exact ⟨done, scanned, rest, same, cut⟩
      · simp only [AtPiece, ahead, if_false] at same cut ⊢
        exact ⟨done, scanned, rest, same, cut⟩
    · simp only [AtPiece, place] at longer ⊢
      exact ⟨done, scanned ++ [token], more, longer, memory⟩
  | forked =>
    simp only [AtPiece, place] at here
    obtain ⟨done, scanned, rest, piece, cut⟩ := here
    simp only [runManager, place, Option.some.injEq] at ran
    subst ran
    cases more : manager.hasNext with
    | true =>
      exact ⟨done, scanned, rest, ⟨piece.whole, piece.solid, piece.pieces⟩,
        ⟨cut.memory, cut.saved, more ▸ cut.next, cut.ended⟩, rfl⟩
    | false => trivial
  | closing =>
    simp only [AtPiece, place] at here
    obtain ⟨done, scanned, rest, piece, cut, more⟩ := here
    obtain ⟨⟨behind, following⟩, memory, rfl⟩ := closing_cases piece cut more place ran
    exact ⟨_, _, _, following, memory⟩
  | waiting j =>
    simp only [runManager, place] at ran
    split at ran
    · cases ran
    · cases ran
      trivial
  | piping | forking | exited _ => simp [runManager, place] at ran

private theorem pipe_atPiece (here : AtPiece argv state.manager)
    (ran : pipeReturns state answer = some next) :
    AtPiece argv next.manager ∧ next.children = state.children := by
  cases answer with
  | none =>
    simp only [pipeReturns] at ran
    split at ran
    · cases ran
      exact ⟨trivial, rfl⟩
    · cases ran
  | some answer =>
    obtain ⟨place, _, rfl⟩ := pipe_cases ran
    simp only [AtPiece, place] at here
    obtain ⟨done, scanned, rest, piece, cut⟩ := here
    exact ⟨⟨done, scanned, rest, ⟨piece.whole, piece.solid, piece.pieces⟩,
      ⟨cut.memory, cut.saved, cut.next, cut.ended⟩⟩, rfl⟩

/-- A child gets the piece that the manager has cut off. -/
private theorem fork_atPiece (here : AtPiece argv state.manager) (sound : HavePieces argv state.children)
    (ran : forkReturns state successful = some next) :
    AtPiece argv next.manager ∧ HavePieces argv next.children := by
  simp only [forkReturns] at ran
  split at ran
  · rename_i place
    cases ran
    simp only [AtPiece, place] at here
    obtain ⟨done, scanned, rest, piece, cut⟩ := here
    refine ⟨⟨done, scanned, rest, ⟨piece.whole, piece.solid, piece.pieces⟩,
      ⟨cut.memory, cut.saved, cut.next, cut.ended⟩⟩, ?_⟩
    cases successful with
    | false => exact sound
    | true =>
      intro child member
      rcases List.mem_append.mp member with old | new
      · exact sound child old
      · obtain rfl := List.mem_singleton.mp new
        change state.manager.currentArgv ∈ segments argv
        rw [currentArgv_cut piece cut]
        rcases cut_cases piece cut with ⟨_, _, pieces⟩ | ⟨_, more, _, pieces⟩
        · simp [pieces]
        · simp [pieces]
  · cases ran

private theorem wait_atPiece (sound : HavePieces argv state.children)
    (ran : waitReturns state answer = some next) :
    AtPiece argv next.manager ∧ HavePieces argv next.children := by
  simp only [waitReturns] at ran
  split at ran
  · split at ran
    · split at ran
      · split at ran
        · cases ran
          exact ⟨trivial, sound⟩
        · cases ran
      · split at ran
        · rename_i child found
          split at ran
          · cases ran
            exact ⟨trivial, havePieces_set sound found rfl⟩
          · cases ran
        · cases ran
    · cases ran
  · cases ran

private theorem step_atPiece (inv : AtPiece argv state.manager ∧ HavePieces argv state.children)
    (taken : step state event = some next) : AtPiece argv next.manager ∧ HavePieces argv next.children := by
  obtain ⟨here, sound⟩ := inv
  cases event with
  | run =>
    obtain ⟨manager, ran, rfl⟩ := Option.map_eq_some_iff.mp taken
    exact ⟨run_atPiece here ran, sound⟩
  | piped answer =>
    obtain ⟨there, same⟩ := pipe_atPiece here taken
    exact ⟨there, same ▸ sound⟩
  | forked successful => exact fork_atPiece here sound taken
  | waited answer => exact wait_atPiece sound taken
  | called k =>
    obtain ⟨child, call, calls, found, _, rfl⟩ := called_cases taken
    exact ⟨here, havePieces_set sound found rfl⟩
  | ended k =>
    obtain ⟨child, found, _, _, rfl⟩ := ended_cases taken
    exact ⟨here, havePieces_set sound found rfl⟩

/-- Every child of every run has a piece of `argv` between bars. -/
theorem children_have_pieces (ran : exec step (start argv files) events = some state) :
    HavePieces argv state.children := by
  have first : AtPiece argv (start argv files).manager ∧ HavePieces argv (start argv files).children :=
    ⟨⟨[], [], argv, ⟨⟨[], rfl, rfl, rfl⟩, nofun, rfl⟩, rfl⟩, nofun⟩
  have kept (before : State) (event : Event) (next : State)
      (inv : AtPiece argv before.manager ∧ HavePieces argv before.children)
      (taken : step before event = some next) : AtPiece argv next.manager ∧ HavePieces argv next.children :=
    step_atPiece inv taken
  exact (exec_invariant kept first ran).2

/-! ## Where nothing fails -/

/-- For each piece of `argv` there is a child in the run of a caller with its three
standard files. -/
theorem pieces_have_children (argv : List Token) :
    ∃ events state, exec step (start argv threeFiles) events = some state ∧
      state.children.map Child.argv = segments argv := by
  have stdOpen : StdOpen (inherited threeFiles) := ⟨nofun, nofun, nofun⟩
  have high (fd : Nat) (beyond : 3 ≤ fd) : inherited threeFiles fd = none := by
    rw [inherited, threeFiles, if_neg (Nat.not_lt.mpr beyond)]
    rfl
  obtain ⟨events, state, ran, inv, place⟩ := exec_reaches
    (fun before event next inv success taken => step_keeps stdOpen inv success taken)
    (fun before event next inv success taken => rank_step inv success taken)
    (fun before inv => goes_on inv high) (inv_start argv threeFiles)
  have here := inv.2
  rw [place] at here
  exact ⟨events, state, ran, here.1.pieces⟩

/-- Every child has a command to run exactly if no piece is empty or made of
redirections alone. -/
theorem names_commands_iff (argv : List Token) :
    NamesCommands argv ↔ ∀ piece ∈ segments argv, ¬ OnlyRedirections piece := by
  constructor
  · intro names piece member
    obtain ⟨events, state, ran, pieces⟩ := pieces_have_children argv
    rw [← pieces] at member
    obtain ⟨child, forked, rfl⟩ := List.mem_map.mp member
    exact (command_iff (fun _ => none) child.argv [] (before child.fds)).mp
      (names threeFiles events state ran child forked (fun _ => none) [])
  · intro fine files events state ran child forked answers beyond
    apply (command_iff answers child.argv beyond (before child.fds)).mpr
    exact fine child.argv (children_have_pieces ran child forked)

/-- `| a`: the first child has no argument at all. -/
theorem leading_bar_names_nothing :
    ∃ state child,
      exec step (start [bar, [0x61]] threeFiles) [.run, .piped (some (3, 4)), .forked true] = some state ∧
      child ∈ state.children ∧
      command (fun _ => none) (terminated child.argv) (before child.fds) = some none ∧
      ¬ NamesCommands [bar, [0x61]] := by
  refine ⟨_, _, rfl, List.mem_singleton_self _, rfl, fun names => ?_⟩
  obtain ⟨cmd, named⟩ := names threeFiles [.run, .piped (some (3, 4)), .forked true] _ rfl _
    (List.mem_singleton_self _) (fun _ => none) []
  cases named

end ShapeQuake.EmptyCommands
