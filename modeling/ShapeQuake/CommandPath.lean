import ShapeQuake.Pipeline
import ShapeQuake.ShellCore

/-! Command names, in the shell's `path.c`: `resolve_path` looks for an executable file
in the directories of `PATH`. It takes a name for a path by its first byte alone, and
has a buffer of fixed size for what it looks for. -/
namespace ShapeQuake.CommandPath
open Pipeline (Token)
open ShellCore (commandLineBufSize)

/-- The byte `'/'`. -/
def slash : UInt8 := 0x2f

/-- The byte `'.'`. -/
def dot : UInt8 := 0x2e

/-- The byte `':'`. -/
def colon : UInt8 := 0x3a

/-- `strtok` with `":"`: the next piece and what is left behind it. -/
def strtok (text : List UInt8) : Option (Token × List UInt8) :=
  match text.dropWhile (· = colon) with
  | [] => none
  | token => some (token.takeWhile (· ≠ colon), (token.dropWhile (· ≠ colon)).tail)

/-- `strdup`, where there is memory for the calls with these numbers. -/
def strdup (memory : Nat → Bool) (call : Nat) (text : Token) : Option Token :=
  if memory call then some text else none

/-- `snprintf` with `"%s/%s"`, in a buffer of this size. -/
def fullPath (dir cmd : Token) : Token := (dir ++ slash :: cmd).take (commandLineBufSize - 1)

/-- What `resolve_path` returns, and the paths it calls `access` for. -/
structure Resolution where
  tested : List Token
  resolved : Option Token
  deriving DecidableEq, Repr

/-- At most this many turns of the loop, at a place of the copy of `PATH`. -/
def search (access : Token → Bool) (memory : Nat → Bool) (cmd : Token) :
    Nat → List UInt8 → Option Resolution
  | 0, _ => none
  | turns + 1, text =>
    match strtok text with
    | none => some ⟨[], none⟩
    | some (dir, text) =>
      let path := fullPath dir cmd
      if access path then some ⟨[path], strdup memory 1 path⟩
      else (search access memory cmd turns text).map fun later => { later with tested := path :: later.tested }

/-- `resolve_path`. Without memory for a copy of `PATH` it hands a null to `strtok`, which
has no result. -/
def resolvePath (access : Token → Bool) (memory : Nat → Bool) (envPath : Option Token) (cmd : Token) :
    Option Resolution :=
  if cmd.getD 0 0 = slash ∨ cmd.getD 0 0 = dot then some ⟨[], strdup memory 0 cmd⟩
  else
    match envPath with
    | none => some ⟨[], none⟩
    | some text => do
      let pathCopy ← strdup memory 0 text
      search access memory cmd (pathCopy.length + 1) pathCopy

/-! ## Components -/

/-- The components of a search path that are not empty. -/
def components (text : List UInt8) : List Token := (text.splitOn colon).filter (· ≠ [])

/-- A component, and what is behind its colon. -/
private theorem components_append (solid : colon ∉ dir) (full : dir ≠ []) (rest : List UInt8) :
    components (dir ++ colon :: rest) = dir :: components rest := by
  rw [components, List.splitOn_append_cons_self_of_not_mem solid, List.filter_cons_of_pos (by simp [full]),
    components]

private theorem components_last (solid : colon ∉ dir) (full : dir ≠ []) : components dir = [dir] := by
  rw [components, List.splitOn_eq_singleton solid, List.filter_cons_of_pos (by simp [full])]
  rfl

private theorem components_colon (rest : List UInt8) : components (colon :: rest) = components rest := by
  have split := List.splitOn_append_cons_self_of_not_mem (List.not_mem_nil (a := colon)) rest
  rw [List.nil_append] at split
  rw [components, split, components, List.filter_cons_of_neg (by simp)]

/-- `strtok` yields the components, one with each call. -/
theorem strtok_components (text : List UInt8) :
    (strtok text = none ∧ components text = []) ∨
      ∃ dir rest, strtok text = some (dir, rest) ∧ components text = dir :: components rest ∧
        rest.length < text.length := by
  induction text with
  | nil => exact .inl ⟨rfl, rfl⟩
  | cons byte rest ih =>
    by_cases skipped : byte = colon
    · rw [skipped, components_colon, strtok, List.dropWhile_cons_of_pos (by simp), ← strtok]
      rcases ih with ended | ⟨dir, more, found, split, shorter⟩
      · exact .inl ended
      · exact .inr ⟨dir, more, found, split, Nat.lt_succ_of_lt shorter⟩
    · right
      have whole := List.takeWhile_append_dropWhile (p := (· ≠ colon)) (l := byte :: rest)
      have solid : colon ∉ (byte :: rest).takeWhile (· ≠ colon) := fun member => by
        simpa using List.mem_takeWhile_imp member
      have full : (byte :: rest).takeWhile (· ≠ colon) ≠ [] := by simp [skipped]
      refine ⟨_, _, by rw [strtok, List.dropWhile_cons_of_neg (by simp [skipped])], ?_, ?_⟩
      · cases behind : (byte :: rest).dropWhile (· ≠ colon) with
        | nil =>
          rw [behind, List.append_nil] at whole
          conv_lhs => rw [← whole]
          exact components_last solid full
        | cons next more =>
          have next_ : next = colon := by
            have stops := List.head?_dropWhile_not (· ≠ colon) (byte :: rest)
            rw [behind] at stops
            simpa using stops
          rw [behind, next_] at whole
          conv_lhs => rw [← whole]
          exact components_append solid full more
      · have sizes := congrArg List.length whole
        have some_ := List.length_pos_iff.mpr full
        rw [List.length_append] at sizes
        rw [List.length_tail]
        omega

/-! ## The search -/

/-- The file of this name in a directory. -/
def candidate (cmd dir : Token) : Token := dir ++ slash :: cmd

/-- These paths up to the first that is executable. -/
def upToFound (access : Token → Bool) : List Token → List Token
  | [] => []
  | path :: later => path :: if access path then [] else upToFound access later

/-- What `resolve_path` is for: a name with a slash is a path, any other is looked for
in the directories of `PATH`, in their order. -/
def resolution (access : Token → Bool) (envPath : Option Token) (cmd : Token) : Resolution :=
  if slash ∈ cmd then ⟨[], some cmd⟩
  else
    let candidates := (components (envPath.getD [])).map (candidate cmd)
    ⟨upToFound access candidates, candidates.find? access⟩

/-- `resolve_path` does what it is for. -/
def Resolves (access : Token → Bool) (memory : Nat → Bool) (envPath : Option Token) (cmd : Token) : Prop :=
  resolvePath access memory envPath cmd = some (resolution access envPath cmd)

/-- The loop looks for what is in its buffer. -/
private theorem search_result (enough : text.length < turns) :
    search access memory cmd turns text =
      some ⟨upToFound access ((components text).map (fullPath · cmd)),
        (((components text).map (fullPath · cmd)).find? access).bind (strdup memory 1)⟩ := by
  induction turns generalizing text with
  | zero => cases enough
  | succ turns ih =>
    rw [search]
    rcases strtok_components text with ⟨found, split⟩ | ⟨dir, rest, found, split, shorter⟩
    · rw [found, split]
      rfl
    · rw [found, split, List.map_cons]
      by_cases executable : access (fullPath dir cmd)
      · simp only [executable, if_true, upToFound, List.find?_cons_of_pos, Option.bind_some]
      · have later := ih (Nat.lt_of_lt_of_le shorter (Nat.le_of_lt_succ enough))
        simp only [executable, later, Bool.false_eq_true, if_false, Option.map_some, upToFound,
          List.find?_cons_of_neg, not_false_eq_true]

/-- The files looked for fit the buffer, up to the first that is executable. -/
def Fits (access : Token → Bool) (cmd : Token) : List Token → Prop
  | [] => True
  | dir :: later => (candidate cmd dir).length < commandLineBufSize ∧
      (access (candidate cmd dir) = false → Fits access cmd later)

private theorem fullPath_eq_iff : fullPath dir cmd = candidate cmd dir ↔
    (candidate cmd dir).length < commandLineBufSize := by
  constructor
  · intro whole
    have size := congrArg List.length whole
    rw [fullPath, ← candidate, List.length_take, commandLineBufSize] at size
    rw [commandLineBufSize]
    omega
  · intro fits
    exact List.take_of_length_le (Nat.le_sub_one_of_lt fits)

/-- The loop calls `access` for the right paths exactly if they fit. -/
private theorem tested_iff (dirs : List Token) :
    upToFound access (dirs.map (fullPath · cmd)) = upToFound access (dirs.map (candidate cmd)) ↔
      Fits access cmd dirs := by
  induction dirs with
  | nil => exact iff_of_true rfl trivial
  | cons dir later ih =>
    simp only [List.map_cons, upToFound, List.cons.injEq, fullPath_eq_iff, Fits]
    refine and_congr_right fun fits => ?_
    rw [fullPath_eq_iff.mpr fits]
    cases access (candidate cmd dir) with
    | true => simp
    | false => simpa using ih

private theorem found_of_fits (fits : Fits access cmd dirs) :
    (dirs.map (fullPath · cmd)).find? access = (dirs.map (candidate cmd)).find? access := by
  induction dirs with
  | nil => rfl
  | cons dir later ih =>
    rw [List.map_cons, List.map_cons, fullPath_eq_iff.mpr fits.1, List.find?_cons, List.find?_cons]
    cases executable : access (candidate cmd dir) with
    | true => rfl
    | false => exact ih (fits.2 executable)

/-- The search does what it is for: what it tests fits, and there is memory for the two
copies that it makes. -/
structure Searches (access : Token → Bool) (memory : Nat → Bool) (cmd text : Token) : Prop where
  fits : Fits access cmd (components text)
  copied : memory 0 = true
  returned : (∃ dir ∈ components text, access (candidate cmd dir) = true) → memory 1 = true

private theorem search_iff (word : slash ∉ cmd) (bare : ¬ (cmd.getD 0 0 = slash ∨ cmd.getD 0 0 = dot)) :
    Resolves access memory (some text) cmd ↔ Searches access memory cmd text := by
  have found_iff : (((components text).map (candidate cmd)).find? access).isSome ↔
      ∃ dir ∈ components text, access (candidate cmd dir) = true := by
    simp [List.find?_isSome]
  rw [Resolves, resolvePath.eq_def, if_neg bare, resolution, if_neg word]
  constructor
  · intro same
    cases copied : memory 0 with
    | false => simp [strdup, copied] at same
    | true =>
      simp only [strdup, copied, if_true, Option.bind_eq_bind, Option.bind_some,
        search_result (Nat.lt_succ_self _), Option.some.injEq, Resolution.mk.injEq, Option.getD_some] at same
      have fits := (tested_iff _).mp same.1
      refine ⟨fits, copied, fun executable => ?_⟩
      obtain ⟨path, found⟩ := Option.isSome_iff_exists.mp (found_iff.mpr executable)
      have answer := same.2
      rw [found_of_fits fits, found] at answer
      cases kept : memory 1 with
      | true => rfl
      | false => simp [strdup, kept] at answer
  · rintro ⟨fits, copied, returned⟩
    simp only [strdup, copied, if_true, Option.bind_eq_bind, Option.bind_some,
      search_result (Nat.lt_succ_self _), Option.some.injEq, Resolution.mk.injEq, Option.getD_some]
    refine ⟨(tested_iff _).mpr fits, ?_⟩
    rw [found_of_fits fits]
    cases found : ((components text).map (candidate cmd)).find? access with
    | none => rfl
    | some path => simp [strdup, returned (found_iff.mp (by rw [found]; rfl))]

/-- A copy is what a search comes to only where there is nothing to search and no copy. -/
private theorem copied_iff (cmd : Token) (dirs : List Token) :
    some (⟨[], strdup memory 0 cmd⟩ : Resolution) =
        some ⟨upToFound access (dirs.map (candidate cmd)), (dirs.map (candidate cmd)).find? access⟩ ↔
      memory 0 = false ∧ dirs = [] := by
  cases dirs with
  | nil => simp [strdup, upToFound]
  | cons dir later => simp [upToFound]

/-- A name that is looked for is not returned as it is. -/
private theorem path_searched (bare : ¬ (cmd.getD 0 0 = slash ∨ cmd.getD 0 0 = dot)) (path : slash ∈ cmd) :
    ¬ Resolves access memory envPath cmd := by
  rw [Resolves, resolvePath.eq_def, if_neg bare, resolution, if_pos path]
  cases envPath with
  | none => simp
  | some text =>
    cases copied : memory 0 with
    | false => simp [strdup, copied]
    | true =>
      simp only [strdup, copied, if_true, Option.bind_eq_bind, Option.bind_some,
        search_result (Nat.lt_succ_self _), Option.some.injEq, Resolution.mk.injEq]
      cases components text with
      | nil => simp
      | cons dir later => simp [upToFound]

/-- A name that starts with a slash or a dot holds a slash, and there is memory for its
copy; or it should be looked for, but there is neither memory nor a directory to look in.
Any other name holds no slash, and the search does what it is for. -/
def Resolvable (access : Token → Bool) (memory : Nat → Bool) (envPath : Option Token) (cmd : Token) : Prop :=
  if cmd.getD 0 0 = slash ∨ cmd.getD 0 0 = dot then
    if slash ∈ cmd then memory 0 = true else memory 0 = false ∧ components (envPath.getD []) = []
  else slash ∉ cmd ∧ ∀ text, envPath = some text → Searches access memory cmd text

/-- `resolve_path` does what it is for exactly then. -/
theorem resolves_iff (access : Token → Bool) (memory : Nat → Bool) (envPath : Option Token) (cmd : Token) :
    Resolves access memory envPath cmd ↔ Resolvable access memory envPath cmd := by
  by_cases direct : cmd.getD 0 0 = slash ∨ cmd.getD 0 0 = dot
  · rw [Resolves, resolvePath.eq_def, Resolvable, if_pos direct, if_pos direct, resolution]
    by_cases path : slash ∈ cmd
    · simp [path, strdup]
    · rw [if_neg path, if_neg path]
      exact copied_iff cmd _
  · rw [Resolvable, if_neg direct]
    by_cases path : slash ∈ cmd
    · exact iff_of_false (path_searched direct path) fun fine => fine.1 path
    · rw [and_iff_right path]
      cases envPath with
      | none =>
        refine iff_of_true ?_ nofun
        rw [Resolves, resolvePath.eq_def, if_neg direct, resolution, if_neg path]
        rfl
      | some text =>
        rw [search_iff path direct]
        exact ⟨fun searches _ same => Option.some.inj same ▸ searches, fun every => every text rfl⟩

/-- `a/b` is looked for in the directory `/`, though it holds a slash. -/
theorem inner_slash_searched :
    let cmd : Token := [0x61, slash, 0x62]
    resolvePath (fun _ => true) (fun _ => true) (some [slash]) cmd =
        some ⟨[[slash, slash] ++ cmd], some ([slash, slash] ++ cmd)⟩ ∧
      ¬ Resolves (fun _ => true) (fun _ => true) (some [slash]) cmd := by
  refine ⟨rfl, ?_⟩
  intro same
  cases same

end ShapeQuake.CommandPath
