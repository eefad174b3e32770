import ShapeQuake.Library.Bytes
import ShapeQuake.PipelineProofs
import ShapeQuake.Redirect
import Mathlib.Data.List.Induction

/-! What `handle_redirection` makes of `argv`. It reads the elements from the left and
takes an operator with the element behind it away; the place it goes on from is the
same, so what moves up there is read as well. It takes every element that starts with
`>` for an operator, whatever else is in it. -/
namespace ShapeQuake.RedirectProofs
open Library.Bytes Redirect
open Pipeline (Token stdin stdout stderr terminated)
open PipelineProofs (StdOpen)

/-! ## Reading a command -/

section
variable (flagsOf : Token → Option Flags)

/-- What is left of a command when each operator, as `flagsOf` knows them, is taken
away with the element behind it. -/
def kept : List Token → List Token
  | op :: file :: rest =>
    match flagsOf op with
    | some _ => kept rest
    | none => op :: kept (file :: rest)
  | rest => rest

/-- What the operators ask for, in their order. -/
def requests : List Token → List Request
  | op :: file :: rest =>
    match flagsOf op with
    | some flags => ⟨op, file, flags⟩ :: requests rest
    | none => requests (file :: rest)
  | _ => []

end

/-- Some pairs of neighbours taken out of a list, one behind the other. -/
inductive Removed : List Token → List (Token × Token) → List Token → Prop
  | nil : Removed [] [] []
  | keep (t : Token) (later : Removed argv pairs rest) : Removed (t :: argv) pairs (t :: rest)
  | pair (op file : Token) (later : Removed argv pairs rest) :
      Removed (op :: file :: argv) ((op, file) :: pairs) rest

theorem reading_removed (flagsOf : Token → Option Flags) (argv : List Token) :
    Removed argv ((requests flagsOf argv).map fun request => (request.operator, request.filename))
      (kept flagsOf argv) := by
  fun_induction kept flagsOf argv with
  | case1 op file rest flags takes ih =>
    rw [requests, takes]
    exact .pair op file ih
  | case2 op file rest plain ih =>
    rw [requests, plain]
    exact .keep op ih
  | case3 rest short =>
    match rest with
    | [] => exact .nil
    | [t] => exact .keep t .nil
    | op :: file :: rest => exact absurd rfl (short op file rest)

/-- Only operators are taken, for what they ask. -/
theorem requests_flags (flagsOf : Token → Option Flags) (argv : List Token) :
    ∀ request ∈ requests flagsOf argv, flagsOf request.operator = some request.flags := by
  fun_induction requests flagsOf argv with
  | case1 op file rest flags takes ih =>
    intro request member
    rcases List.mem_cons.mp member with rfl | later
    · exact takes
    · exact ih request later
  | case2 op file rest plain ih => exact ih
  | case3 => exact nofun

/-! ## Memory -/

private theorem cell_here (front : List Token) (rest : List (Option Token)) :
    cell (front.map some ++ rest) front.length = rest.head? := by
  have size : front.length = (front.map some).length := (List.length_map _).symm
  rw [cell, size, List.take_left, if_pos (by simp)]
  cases rest <;> simp

private theorem map_concat (front : List Token) (t : Token) (rest : List (Option Token)) :
    front.map some ++ some t :: rest = (front ++ [t]).map some ++ rest := by
  simp

private theorem cell_next (front : List Token) (t : Token) (rest : List (Option Token)) :
    cell (front.map some ++ some t :: rest) (front.length + 1) = rest.head? := by
  have here := cell_here (front ++ [t]) rest
  rwa [← map_concat, List.length_append] at here

private theorem cell_second (front : List Token) (first second : Token) (rest : List (Option Token)) :
    cell (front.map some ++ some first :: some second :: rest) (front.length + 2) = rest.head? := by
  have next := cell_next (front ++ [first]) second rest
  rwa [← map_concat, List.length_append] at next

private theorem set_here (front : List Token) (old new : Option Token) (rest : List (Option Token)) :
    (front.map some ++ old :: rest).set front.length new = front.map some ++ new :: rest := by
  have size : front.length = (front.map some).length := (List.length_map _).symm
  rw [size, List.set_append_right _ _ (Nat.le_refl _), Nat.sub_self]
  rfl

/-- The shift moves what is behind a pair, null included, to the place of the pair. -/
theorem shift_removes (front : List Token) (op file : Token) (rest : List Token)
    (beyond : List (Option Token)) (enough : rest.length < turns) :
    ∃ stale, stale.length = 2 ∧
      shift turns (front.map some ++ some op :: some file :: (rest.map some ++ none :: beyond))
          front.length =
        some (front.map some ++ (rest.map some ++ none :: (stale ++ beyond))) := by
  induction rest generalizing front op file turns with
  | nil =>
    obtain ⟨turns, rfl⟩ := Nat.exists_eq_succ_of_ne_zero (Nat.ne_of_gt enough)
    refine ⟨[some file, none], rfl, ?_⟩
    rw [shift, cell_second]
    exact congrArg some (set_here front (some op) none _)
  | cons next rest ih =>
    obtain ⟨turns, rfl⟩ := Nat.exists_eq_succ_of_ne_zero (Nat.ne_of_gt (Nat.zero_lt_of_lt enough))
    obtain ⟨stale, two, ran⟩ := ih (front ++ [next]) file next (Nat.lt_of_succ_lt_succ enough)
    refine ⟨stale, two, ?_⟩
    rw [List.length_append, List.length_singleton, ← map_concat, ← map_concat] at ran
    rw [shift, cell_second]
    simp only [List.map_cons, List.cons_append, List.head?_cons, Option.bind_eq_bind, Option.bind_some]
    rw [set_here, ran]

/-! ## One turn -/

/-- What `handle_redirection` takes for an operator. -/
def takenFor (t : Token) : Option Flags :=
  if t.getD 0 0 = greater then some (if t.getD 1 0 = greater then .append else .truncate)
  else if t.getD 0 0 = less ∧ t.getD 1 0 = 0 then some .input
  else none

theorem takenFor_none_iff :
    takenFor t = none ↔ ¬ (t.getD 0 0 = greater ∨ t.getD 0 0 = less ∧ t.getD 1 0 = 0) := by
  rw [not_or, takenFor]
  split
  · rename_i output
    exact iff_of_false nofun fun neither => neither.1 output
  · rename_i output
    split
    · rename_i input
      exact iff_of_false nofun fun neither => neither.2 input
    · rename_i input
      exact iff_of_true rfl ⟨output, input⟩

private theorem treat_plain (plain : takenFor t = none) : treat answers scan t = some (scan, false) := by
  obtain ⟨output, input⟩ := not_or.mp (takenFor_none_iff.mp plain)
  rw [treat, if_neg output, if_neg input]
  rfl

private theorem treat_pair (takes : takenFor t = some flags)
    (follower : cell scan.argv (scan.i + 1) = some (some filename)) :
    treat answers scan t = some (redirect answers scan ⟨t, filename, flags⟩, true) := by
  unfold takenFor at takes
  unfold treat
  split at takes
  · rename_i output
    cases takes
    rw [if_pos output, follower]
    rfl
  · rename_i output
    split at takes
    · rename_i input
      cases takes
      rw [if_neg output, if_pos input, follower]
      rfl
    · cases takes

private theorem treat_last (follower : cell scan.argv (scan.i + 1) = some none) :
    treat answers scan t = some (scan, false) := by
  unfold treat
  rw [follower]
  split
  · rfl
  · split <;> rfl

/-- The calls of `open` for some requests, one behind the other. -/
def redirectAll (answers : Nat → Option Nat) (scan : Scan) (asked : List Request) : Scan :=
  asked.foldl (redirect answers) scan

/-- The same files at another place of another `argv`. -/
def at_ (scan : Scan) (argv : List (Option Token)) (i : Nat) : Scan := { scan with argv, i }

private theorem walk_end (front : List Token) (more : List (Option Token)) :
    walk answers (turns + 1) (at_ scan (front.map some ++ none :: more) front.length) =
      some (at_ scan (front.map some ++ none :: more) front.length) := by
  have here := cell_here front (none :: more)
  simp only [walk, at_, here, List.head?_cons, Option.bind_eq_bind, Option.bind_some]
  rfl

/-- An element that is no operator, or has no other behind it, stays. -/
private theorem walk_keeps (front : List Token) (t : Token) (more : List (Option Token))
    (plain : takenFor t = none ∨ more.head? = some none) :
    walk answers (turns + 1) (at_ scan (front.map some ++ some t :: more) front.length) =
      walk answers turns (at_ scan ((front ++ [t]).map some ++ more) (front ++ [t]).length) := by
  have here := cell_here front (some t :: more)
  have treated : treat answers (at_ scan (front.map some ++ some t :: more) front.length) t =
      some (at_ scan (front.map some ++ some t :: more) front.length, false) := by
    rcases plain with plain | last
    · exact treat_plain plain
    · apply treat_last
      exact (cell_next front t more).trans last
  rw [← map_concat front t more, List.length_append, List.length_singleton, walk]
  simp only [at_] at treated ⊢
  simp only [here, treated, List.head?_cons, Option.bind_eq_bind, Option.bind_some, Bool.false_eq_true,
    if_false]

/-- An operator goes, and the element behind it. -/
private theorem walk_removes (front : List Token) (op file : Token) (rest : List Token)
    (beyond : List (Option Token)) (takes : takenFor op = some flags) :
    ∃ gone, gone.length = 2 ∧
      walk answers (turns + 1)
          (at_ scan (front.map some ++ some op :: some file :: (rest.map some ++ none :: beyond)) front.length) =
        walk answers turns
          (at_ (redirect answers scan ⟨op, file, flags⟩)
            (front.map some ++ (rest.map some ++ none :: (gone ++ beyond))) front.length) := by
  have here := cell_here front (some op :: some file :: (rest.map some ++ none :: beyond))
  have next := cell_next front op (some file :: (rest.map some ++ none :: beyond))
  have room : rest.length < (front.map some ++
      some op :: some file :: (rest.map some ++ none :: beyond)).length := by
    simp only [List.length_append, List.length_cons, List.length_map]
    omega
  obtain ⟨gone, two, shifted⟩ := shift_removes front op file rest beyond room
  refine ⟨gone, two, ?_⟩
  have treated : treat answers (at_ scan (front.map some ++ some op :: some file ::
      (rest.map some ++ none :: beyond)) front.length) op = some (_, true) := treat_pair takes next
  rw [walk]
  simp only [at_] at treated ⊢
  simp only [here, treated, List.head?_cons, Option.bind_eq_bind, Option.bind_some, if_true, redirect,
    shifted]

/-- The walk, from any place of the command on. -/
theorem walk_reads (front rest : List Token) (beyond : List (Option Token)) (enough : rest.length < turns) :
    ∃ stale, stale.length = 2 * (requests takenFor rest).length ∧
      walk answers turns (at_ scan (front.map some ++ (rest.map some ++ none :: beyond)) front.length) =
        some (at_ (redirectAll answers scan (requests takenFor rest))
          ((front ++ kept takenFor rest).map some ++ none :: (stale ++ beyond))
          (front ++ kept takenFor rest).length) := by
  obtain ⟨turns, rfl⟩ := Nat.exists_eq_succ_of_ne_zero (Nat.ne_of_gt (Nat.zero_lt_of_lt enough))
  fun_induction kept takenFor rest generalizing front beyond turns scan with
  | case1 op file rest flags takes ih =>
    obtain ⟨left, rfl⟩ : ∃ left, turns = left + 1 := ⟨turns - 1, by simp at enough; omega⟩
    have asked : requests takenFor (op :: file :: rest) =
        ⟨op, file, flags⟩ :: requests takenFor rest := by rw [requests, takes]
    obtain ⟨gone, two, ran⟩ := walk_removes front op file rest beyond takes
    obtain ⟨stale, size, after⟩ := ih front (gone ++ beyond) left (by simp at enough; omega)
    refine ⟨stale ++ gone, ?_, ?_⟩
    · rw [asked, List.length_append, size, two, List.length_cons, Nat.mul_succ]
    · rw [asked, List.append_assoc]
      exact ran.trans after
  | case2 op file rest plain ih =>
    obtain ⟨left, rfl⟩ : ∃ left, turns = left + 1 := ⟨turns - 1, by simp at enough; omega⟩
    have asked : requests takenFor (op :: file :: rest) = requests takenFor (file :: rest) := by
      rw [requests, plain]
    obtain ⟨stale, size, after⟩ := ih (front ++ [op]) beyond left (by simp at enough ⊢; omega)
    rw [List.append_cons front op]
    refine ⟨stale, by rw [asked, size], ?_⟩
    rw [asked]
    exact (walk_keeps front op _ (.inl plain)).trans after
  | case3 rest short =>
    match rest with
    | [] =>
      refine ⟨[], rfl, ?_⟩
      rw [List.append_nil]
      exact walk_end front beyond
    | [t] =>
      obtain ⟨left, rfl⟩ : ∃ left, turns = left + 1 := ⟨turns - 1, by simp at enough; omega⟩
      refine ⟨[], rfl, ?_⟩
      exact (walk_keeps front t (none :: beyond) (.inr rfl)).trans (walk_end (front ++ [t]) beyond)
    | op :: file :: rest => exact absurd rfl (short op file rest)

/-- What the calls of `open` answer. -/
def opensFor (answers : Nat → Option Nat) (asked : List Request) : List Opening :=
  asked.mapIdx fun call request => ⟨request, answers call⟩

/-- The descriptors behind them. -/
def fdsAfter (answers : Nat → Option Nat) (fds : Descriptors) (asked : List Request) : Descriptors :=
  (redirectAll answers ⟨[], 0, fds, []⟩ asked).fds

private theorem opensFor_concat (answers : Nat → Option Nat) (asked : List Request) (request : Request) :
    opensFor answers (asked ++ [request]) = opensFor answers asked ++ [⟨request, answers asked.length⟩] := by
  rw [opensFor, List.mapIdx_concat]
  rfl

private theorem opensFor_requests (answers : Nat → Option Nat) (asked : List Request) :
    (opensFor answers asked).map Opening.request = asked := by
  induction asked using List.reverseRecOn with
  | nil => rfl
  | append_singleton asked request ih =>
    rw [opensFor_concat, List.map_append, ih]
    rfl

private theorem redirectAll_openings (answers : Nat → Option Nat) (fds : Descriptors) (asked : List Request) :
    (redirectAll answers ⟨[], 0, fds, []⟩ asked).openings = opensFor answers asked := by
  induction asked using List.reverseRecOn with
  | nil => rfl
  | append_singleton asked request ih =>
    have size : (opensFor answers asked).length = asked.length := List.length_mapIdx
    rw [opensFor_concat, ← size, ← ih, redirectAll, List.foldl_append]
    rfl

/-- One more call changes the descriptor it is for, where it succeeds. -/
theorem fdsAfter_concat (answers : Nat → Option Nat) (fds : Descriptors) (asked : List Request)
    (request : Request) :
    fdsAfter answers fds (asked ++ [request]) =
      match answers asked.length with
      | none => fdsAfter answers fds asked
      | some fd =>
        Function.update (Function.update (fdsAfter answers fds asked) request.flags.target
          (some (.opened asked.length))) fd none := by
  have size : (redirectAll answers ⟨[], 0, fds, []⟩ asked).openings.length = asked.length := by
    rw [redirectAll_openings, opensFor, List.length_mapIdx]
  rw [fdsAfter, redirectAll, List.foldl_append]
  change (redirect answers (redirectAll answers ⟨[], 0, fds, []⟩ asked) request).fds = _
  rw [redirect, size]
  cases answers asked.length with
  | none => rfl
  | some fd =>
    funext d
    by_cases same : d = fd
    · subst same
      simp only [Function.update_self]
    · simp only [Function.update_of_ne same, Function.update_self, Function.update_apply]
      rfl

/-- The whole call. -/
theorem handleRedirection_reads (answers : Nat → Option Nat) (argv : List Token)
    (beyond : List (Option Token)) (fds : Descriptors) :
    ∃ stale, stale.length = 2 * (requests takenFor argv).length ∧
      handleRedirection answers (terminated argv ++ beyond) fds =
        some ⟨terminated (kept takenFor argv) ++ (stale ++ beyond), (kept takenFor argv).length,
          fdsAfter answers fds (requests takenFor argv), opensFor answers (requests takenFor argv)⟩ := by
  have enough : argv.length < (terminated argv ++ beyond).length := by
    simp only [terminated, List.length_append, List.length_map, List.length_singleton]
    omega
  obtain ⟨stale, size, ran⟩ :=
    @walk_reads _ answers ⟨[], 0, fds, []⟩ [] argv beyond enough
  refine ⟨stale, size, ?_⟩
  have whole (rest : List Token) (more : List (Option Token)) :
      terminated rest ++ more = rest.map some ++ none :: more := by
    rw [terminated, List.append_assoc]
    rfl
  rw [handleRedirection, ← redirectAll_openings answers fds, whole (kept takenFor argv)]
  rw [← whole argv] at ran
  exact ran

/-! ## Where the descriptors lead -/

/-- The descriptors at the start. -/
def before (files : Pipeline.Descriptors) : Descriptors := fun fd => (files fd).map .before

/-- A call of `open` was for this descriptor, and failed. -/
def FailsFor (target : Nat) (opening : Opening) : Prop :=
  opening.request.flags.target = target → opening.fd = none

/-- A descriptor leads to the file of the last call for it that succeeded, and where
there is none to what it led to before. -/
structure Leads (openings : List Opening) (target : Nat) (was now : Option File) : Prop where
  last : ∀ earlier opening later, openings = earlier ++ opening :: later → ¬ FailsFor target opening →
    (∀ after ∈ later, FailsFor target after) → now = some (.opened earlier.length)
  unmoved : (∀ opening ∈ openings, FailsFor target opening) → now = was

private theorem leads_concat (leads : Leads openings target was now)
    (moved : ¬ FailsFor target opening → now' = some (.opened openings.length))
    (kept : FailsFor target opening → now' = now) : Leads (openings ++ [opening]) target was now' where
  last earlier found later whole succeeds failing := by
    rcases List.eq_nil_or_concat later with rfl | ⟨inner, final, rfl⟩
    · obtain ⟨rfl, same⟩ := List.append_inj' whole rfl
      cases same
      exact moved succeeds
    · have split : openings ++ [opening] = (earlier ++ found :: inner) ++ [final] := by
        rw [whole, List.concat_eq_append, List.append_assoc]
        rfl
      obtain ⟨front, same⟩ := List.append_inj' split rfl
      cases same
      have fails : FailsFor target opening := failing opening (by simp)
      rw [kept fails]
      exact leads.last earlier found inner front succeeds fun after member => failing after (by simp [member])
  unmoved failing := by
    have fails : FailsFor target opening := failing opening (by simp)
    rw [kept fails]
    exact leads.unmoved fun earlier member => failing earlier (by simp [member])

/-- What the calls do to the descriptors, where `open` answers with free ones. -/
theorem fdsAfter_leads (free : ∀ call fd, answers call = some fd → fds fd = none)
    (asked : List Request) (there : fds target ≠ none) :
    Leads (opensFor answers asked) target (fds target) (fdsAfter answers fds asked target) := by
  induction asked using List.reverseRecOn with
  | nil => exact ⟨fun earlier opening later whole => by simp [opensFor] at whole, fun _ => rfl⟩
  | append_singleton asked request ih =>
    have size : (opensFor answers asked).length = asked.length := List.length_mapIdx
    rw [opensFor_concat, fdsAfter_concat]
    apply leads_concat ih
    · intro succeeds
      obtain ⟨same, opened⟩ := Classical.not_imp.mp succeeds
      obtain ⟨fd, answer⟩ := Option.ne_none_iff_exists'.mp opened
      have apart : target ≠ fd := fun same => there (same ▸ free _ _ answer)
      simp only at same answer
      rw [answer, size]
      simp only [Function.update_of_ne apart, same, Function.update_self]
    · intro fails
      cases answer : answers asked.length with
      | none => rfl
      | some fd =>
        have apart : target ≠ fd := fun same => there (same ▸ free _ _ answer)
        have other : target ≠ request.flags.target := fun same => by simp [FailsFor, same, answer] at fails
        simp only [Function.update_of_ne apart, Function.update_of_ne other]

theorem fdsAfter_others (free : ∀ call fd, answers call = some fd → fds fd = none)
    (asked : List Request) (input : fd ≠ stdin) (output : fd ≠ stdout) :
    fdsAfter answers fds asked fd = fds fd := by
  induction asked using List.reverseRecOn with
  | nil => rfl
  | append_singleton asked request ih =>
    have other : fd ≠ request.flags.target := by
      cases request.flags with
      | input => exact input
      | truncate => exact output
      | append => exact output
    rw [fdsAfter_concat]
    cases answer : answers asked.length with
    | none => exact ih
    | some opened =>
      by_cases same : fd = opened
      · subst same
        rw [free _ _ answer]
        exact Function.update_self _ _ _
      · simp only [Function.update_of_ne same, Function.update_of_ne other, ih]

/-- `handle_redirection` takes pairs of an operator and a file name out of `argv`, and
its output and its input end up on the files of the last pairs that could be opened. -/
theorem pairs_redirected (argv : List Token) (beyond : List (Option Token)) (files : Pipeline.Descriptors)
    (stdOpen : StdOpen files) (free : ∀ call fd, answers call = some fd → files fd = none) :
    ∃ scan rest stale, handleRedirection answers (terminated argv ++ beyond) (before files) = some scan ∧
      scan.argv = terminated rest ++ (stale ++ beyond) ∧
      Removed argv (scan.openings.map fun opening => (opening.request.operator, opening.request.filename))
        rest ∧
      (∀ opening ∈ scan.openings, takenFor opening.request.operator = some opening.request.flags) ∧
      (∀ call opening, scan.openings[call]? = some opening → opening.fd = answers call) ∧
      Leads scan.openings stdout (before files stdout) (scan.fds stdout) ∧
      Leads scan.openings stdin (before files stdin) (scan.fds stdin) ∧
      ∀ fd, fd ≠ stdin → fd ≠ stdout → scan.fds fd = before files fd := by
  have unused (call fd : Nat) (answer : answers call = some fd) : before files fd = none := by
    rw [before, free call fd answer]
    rfl
  have there (fd : Nat) (taken : files fd ≠ none) : before files fd ≠ none := by
    simpa [before] using taken
  obtain ⟨stale, _, ran⟩ := handleRedirection_reads answers argv beyond (before files)
  refine ⟨_, kept takenFor argv, stale, ran, rfl, ?_, ?_, ?_, ?_, ?_, ?_⟩
  · have pairs := reading_removed takenFor argv
    rw [← opensFor_requests answers (requests takenFor argv), List.map_map] at pairs
    exact pairs
  · intro opening member
    obtain ⟨call, within, rfl⟩ := List.mem_mapIdx.mp member
    exact requests_flags takenFor argv _ (List.getElem_mem within)
  · intro call opening found
    simp only [opensFor, List.getElem?_mapIdx, Option.map_eq_some_iff] at found
    obtain ⟨request, _, rfl⟩ := found
    rfl
  · exact fdsAfter_leads unused _ (there stdout stdOpen.2.1)
  · exact fdsAfter_leads unused _ (there stdin stdOpen.1)
  · exact fun fd input output => fdsAfter_others unused _ input output

/-- `a > b` with a `c` behind it, where the file can be opened. -/
theorem output_redirected :
    let argv : List Token := [[0x61], [greater], [0x62], [0x63]]
    ∃ scan, handleRedirection (fun _ => some 3) (terminated argv)
        (before (Pipeline.inherited PipelineProofs.threeFiles)) = some scan ∧
      elements scan.argv = [[0x61], [0x63]] ∧ scan.fds stdout = some (.opened 0) := by
  intro argv
  obtain ⟨scan, rest, stale, ran, _, _, _, _, output, _⟩ :=
    @pairs_redirected (fun _ => some 3) argv [] (Pipeline.inherited PipelineProofs.threeFiles)
      ⟨nofun, nofun, nofun⟩ (fun call fd answer => by cases answer; rfl)
  rw [List.append_nil] at ran
  refine ⟨scan, ran, ?_⟩
  cases ran
  refine ⟨rfl, output.last [] _ [] rfl ?_ nofun⟩
  exact fun fails => nomatch fails rfl

/-! ## What is an operator -/

/-- The operators, as whole tokens. -/
def wholeOperator (t : Token) : Option Flags :=
  if untilNull t = [greater] then some .truncate
  else if untilNull t = [greater, greater] then some .append
  else if untilNull t = [less] then some .input
  else none

private theorem text_cons (byte : UInt8) (rest : Token) :
    untilNull (byte :: rest) = if byte = 0 then [] else byte :: untilNull rest := by
  by_cases null : byte = 0
  · simp [untilNull, null]
  · simp [untilNull, null]

private theorem text_read (text : untilNull t = byte :: more) :
    t.getD 0 0 = byte ∧ t.getD 1 0 = more.getD 0 0 := by
  have head (list : Token) : (untilNull list).getD 0 0 = list.getD 0 0 := by
    cases list with
    | nil => rfl
    | cons byte rest =>
      rw [text_cons]
      split
      · rename_i null
        exact null.symm
      · rfl
  cases t with
  | nil => cases text
  | cons first rest =>
    rw [text_cons] at text
    split at text
    · cases text
    · cases text
      exact ⟨rfl, (head rest).symm⟩

private theorem text_single (there : byte ≠ 0) (first : t.getD 0 0 = byte) (ended : t.getD 1 0 = 0) :
    untilNull t = [byte] := by
  match t with
  | [] => exact absurd first.symm there
  | [only] =>
    change only = byte at first
    rw [text_cons, first, if_neg there]
    rfl
  | only :: next :: rest =>
    change only = byte at first
    change next = 0 at ended
    rw [text_cons, text_cons, first, if_neg there, if_pos ended]

/-- A whole operator is taken for one. -/
private theorem whole_taken (whole : wholeOperator t = some flags) : takenFor t = some flags := by
  have differ : less ≠ greater ∧ (0 : UInt8) ≠ greater := ⟨nofun, nofun⟩
  unfold wholeOperator at whole
  split at whole
  · rename_i text
    obtain ⟨first, second⟩ : t.getD 0 0 = greater ∧ t.getD 1 0 = 0 := text_read text
    rw [takenFor, if_pos first, second, if_neg differ.2, ← whole]
  · split at whole
    · rename_i text
      obtain ⟨first, second⟩ : t.getD 0 0 = greater ∧ t.getD 1 0 = greater := text_read text
      rw [takenFor, if_pos first, if_pos second, ← whole]
    · split at whole
      · rename_i text
        obtain ⟨first, second⟩ : t.getD 0 0 = less ∧ t.getD 1 0 = 0 := text_read text
        rw [takenFor, first, if_neg differ.1, if_pos ⟨rfl, second⟩, ← whole]
      · cases whole

/-- Any other element is taken for one if it starts with `>`. -/
private theorem taken_iff (word : wholeOperator t = none) :
    takenFor t = none ↔ t.getD 0 0 ≠ greater := by
  rw [takenFor_none_iff, not_or]
  apply and_iff_left
  rintro ⟨first, ended⟩
  have text : untilNull t = [less] := text_single (by simp [less]) first ended
  simp [wholeOperator, text, greater, less] at word

/-- `handle_redirection` keeps every element that is no whole operator with a file name
behind it, and opens the files of those that are. -/
def TreatsExactly (argv : List Token) : Prop :=
  ∀ answers beyond fds, ∃ scan, handleRedirection answers (terminated argv ++ beyond) fds = some scan ∧
    elements scan.argv = kept wholeOperator argv ∧
    scan.openings.map Opening.request = requests wholeOperator argv

/-- Read from the left, no element but `>` and `>>` starts with `>`, the last apart. -/
def NoMisread : List Token → Prop
  | op :: file :: rest =>
    match wholeOperator op with
    | some _ => NoMisread rest
    | none => op.getD 0 0 ≠ greater ∧ NoMisread (file :: rest)
  | _ => True

theorem elements_terminated (argv : List Token) (beyond : List (Option Token)) :
    elements (terminated argv ++ beyond) = argv := by
  rw [elements, terminated, List.append_assoc, List.takeWhile_append_of_pos (by simp)]
  simp [List.reduceOption, List.filterMap_map]

/-- Both readings agree where nothing is misread. -/
private theorem readings_agree (fine : NoMisread argv) :
    kept takenFor argv = kept wholeOperator argv ∧ requests takenFor argv = requests wholeOperator argv := by
  fun_induction NoMisread argv with
  | case1 op file rest flags whole ih =>
    obtain ⟨left, asked⟩ := ih fine
    have taken := whole_taken whole
    simp only [kept, requests, whole, taken, left, asked, and_self]
  | case2 op file rest word ih =>
    obtain ⟨left, asked⟩ := ih fine.2
    have plain := (taken_iff word).mpr fine.1
    simp only [kept, requests, word, plain, left, asked, and_self]
  | case3 rest short =>
    match rest with
    | [] => exact ⟨rfl, rfl⟩
    | [t] => exact ⟨rfl, rfl⟩
    | op :: file :: rest => exact absurd rfl (short op file rest)

/-- An element misread asks for a file that the other reading never asks for. -/
private theorem misread_asks (same : requests takenFor argv = requests wholeOperator argv) :
    NoMisread argv := by
  fun_induction NoMisread argv with
  | case1 op file rest flags whole ih =>
    apply ih
    have taken := whole_taken whole
    simpa only [requests, whole, taken, List.cons.injEq, true_and] using same
  | case2 op file rest word ih =>
    cases taken : takenFor op with
    | none =>
      refine ⟨(taken_iff word).mp taken, ih ?_⟩
      simpa only [requests, word, taken] using same
    | some flags =>
      have asked : ⟨op, file, flags⟩ ∈ requests wholeOperator (op :: file :: rest) := by
        rw [← same, requests, taken]
        exact List.mem_cons_self
      have whole := requests_flags wholeOperator _ _ asked
      rw [word] at whole
      cases whole
  | case3 => trivial

/-- Operators and arguments are told apart unless some other element that starts with
`>` has another one behind it. -/
theorem treats_exactly_iff (argv : List Token) : TreatsExactly argv ↔ NoMisread argv := by
  constructor
  · intro treats
    obtain ⟨scan, ran, _, asked⟩ := treats (fun _ => none) [] (fun _ => none)
    obtain ⟨stale, _, same⟩ := handleRedirection_reads (fun _ => none) argv [] fun _ => none
    rw [ran, Option.some.injEq] at same
    subst same
    apply misread_asks
    rwa [opensFor_requests] at asked
  · intro fine answers beyond fds
    obtain ⟨left, asked⟩ := readings_agree fine
    obtain ⟨stale, _, ran⟩ := handleRedirection_reads answers argv beyond fds
    refine ⟨_, ran, ?_, ?_⟩
    · rw [elements_terminated, left]
    · rw [opensFor_requests, asked]

/-- `>ab` with a `c` behind it: both go, and a file `c` is opened and truncated. -/
theorem word_misread :
    let word : Token := [greater, 0x61, 0x62]
    ∃ scan, handleRedirection (fun _ => some 3) (terminated [word, [0x63]]) (fun _ => none) = some scan ∧
      elements scan.argv = [] ∧ scan.openings.map Opening.request = [⟨word, [0x63], .truncate⟩] ∧
      ¬ TreatsExactly [word, [0x63]] := by
  refine ⟨_, rfl, rfl, rfl, ?_⟩
  intro treats
  obtain ⟨scan, ran, left, _⟩ := treats (fun _ => some 3) [] fun _ => none
  cases ran
  cases left

end ShapeQuake.RedirectProofs
