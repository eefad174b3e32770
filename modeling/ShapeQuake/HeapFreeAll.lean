import ShapeQuake.HeapTrackerProofs

/-! `heap_free_all` looks at as many entries of the table as there are live blocks, from
the first on. Frees in another order than that of the allocations leave blocks behind
these entries, and entries written over, which it does not see. -/
namespace ShapeQuake.HeapFreeAll
open Heap Library.Runs
open HeapTrackerProofs (Call State start Entered entered_start entered_granted entered_freed mem_filterMap_id)

/-- `malloc` answers with an address where no live block starts, whatever is asked. -/
def Fresh (memory : Memory) : Call → Prop
  | .alloc _ malloc => ∀ raw ∈ malloc, ∀ span ∈ memory.blocks, span.start ≠ raw
  | .free _ => True

instance (memory : Memory) (call : Call) : Decidable (Fresh memory call) :=
  match call with
  | .alloc _ malloc => inferInstanceAs (Decidable (∀ raw ∈ malloc, _))
  | .free _ => isTrue trivial

/-- One call, with any size. It has no successor when it waits for the lock for ever. -/
def step (state : State) (call : Call) : Option State :=
  if Fresh state.memory call then
    match call with
    | .alloc size malloc =>
      match heapAlloc (some state.tracker) state.memory size malloc with
      | some (some tracker, memory, ptr) => some ⟨tracker, memory, ptr.toList ++ state.handed⟩
      | _ => none
    | .free ptr =>
      match heapFree (some state.tracker) state.memory ptr with
      | some (some tracker, memory, status) =>
        some ⟨tracker, memory,
          if getCnd status = Cnd.success.raw then ptr.elim state.handed state.handed.erase
          else state.handed⟩
      | _ => none
  else none

theorem entered_step (entered : Entered state) (taken : step state call = some next) : Entered next := by
  simp only [step] at taken
  split at taken
  · rename_i fresh
    cases call with
    | alloc size malloc =>
      simp only at taken
      split at taken
      · rename_i tracker memory ptr ran
        obtain ⟨_, ⟨rfl, same, rfl, _⟩ | ⟨raw, rfl, _, room, rfl, granted, rfl⟩⟩ := heapAlloc_cases ran
        · cases same
          cases taken
          exact { entered with }
        · cases granted
          cases taken
          exact entered_granted entered room (fresh raw rfl) _ _ _
      · cases taken
    | free ptr =>
      cases ptr with
      | none =>
        simp only [heapFree, getCnd_asStatus, ↓reduceIte, Option.elim_none, Option.some.injEq] at taken
        subst taken
        exact entered
      | some user =>
        simp only at taken
        split at taken
        · rename_i tracker memory status ran
          obtain ⟨_, freed⟩ := heapFree_freed ran
          cases freed with
          | refused failed _ =>
            rw [if_neg failed] at taken
            cases taken
            exact { entered with }
          | cleared success before after table =>
            rw [if_pos success] at taken
            cases taken
            exact entered_freed entered table _ _
        · cases taken
  · cases taken

/-! ## The loop -/

/-- The pointers in the first entries. -/
def firstEntries (table : List (Option Nat)) (count : Nat) : List Nat := (table.take count).filterMap id

/-- After so many turns these entries are null, and their pointers were given to `free`. -/
private theorem loop_result (tracker : HeapTracker) (memory : Memory) (within : count ≤ tracker.ptr.length) :
    ∃ sizeWord, (List.range count).foldl freeEntry ⟨tracker, memory, []⟩ =
      { tracker := { tracker with ptr := List.replicate count none ++ tracker.ptr.drop count }
        memory :=
          { sizeWord
            blocks := memory.blocks.filter fun span =>
              (firstEntries tracker.ptr count).all fun user => span.start ≠ user - 16 }
        freed := firstEntries tracker.ptr count } := by
  induction count with
  | zero => exact ⟨memory.sizeWord, by simp [firstEntries]⟩
  | succ count ih =>
    obtain ⟨sizeWord, ran⟩ := ih (Nat.le_of_succ_le within)
    have bound : count < tracker.ptr.length := Nat.lt_of_succ_le within
    have ahead := List.drop_eq_getElem_cons bound
    have entry : (List.replicate count none ++ tracker.ptr.drop count).getD count none =
        tracker.ptr[count] := by
      rw [ahead, List.getD_append_right _ _ _ _ (by simp), List.length_replicate, Nat.sub_self]
      rfl
    have cleared : List.replicate count none ++ none :: tracker.ptr.drop (count + 1) =
        List.replicate (count + 1) none ++ tracker.ptr.drop (count + 1) := by
      rw [List.replicate_succ', List.append_assoc]
      rfl
    have more : firstEntries tracker.ptr (count + 1) =
        firstEntries tracker.ptr count ++ tracker.ptr[count].toList := by
      rw [firstEntries, firstEntries, List.take_succ_eq_append_getElem bound, List.filterMap_append]
      cases tracker.ptr[count] <;> rfl
    rw [List.range_succ, List.foldl_append, ran, List.foldl_cons, List.foldl_nil, freeEntry]
    simp only [entry, more]
    cases held : tracker.ptr[count] with
    | none =>
      rw [held] at ahead
      refine ⟨sizeWord, ?_⟩
      simp only [ahead, cleared, Option.toList_none, List.append_nil]
    | some user =>
      rw [held] at ahead
      have emptied : (List.replicate count none ++ some user :: tracker.ptr.drop (count + 1)).set count none =
          List.replicate (count + 1) none ++ tracker.ptr.drop (count + 1) := by
        rw [← cleared, List.set_append_right _ _ (by simp), List.length_replicate, Nat.sub_self]
        rfl
      have left : (memory.blocks.filter fun span =>
            (firstEntries tracker.ptr count).all fun user => span.start ≠ user - 16).filter
              (·.start ≠ user - 16) =
          memory.blocks.filter fun span =>
            (firstEntries tracker.ptr count ++ [user]).all fun user => span.start ≠ user - 16 := by
        rw [List.filter_filter]
        apply List.filter_congr
        intro span _
        rw [List.all_append, Bool.and_comm]
        simp
      refine ⟨Function.update sizeWord (user - 16) 0, ?_⟩
      simp only [ahead, Option.toList_some, emptied, left]

/-- Every live block is given to `free`, each once and nothing else, and the tracker is
left empty. -/
def FreesAll (state : State) : Prop :=
  let after := heapFreeAll state.tracker state.memory
  after.freed.Perm state.handed ∧ after.memory.blocks = [] ∧
    after.tracker = { zeroTracker with mutex := state.tracker.mutex }

/-- The entries that the loop looks at all hold a pointer. -/
def Gapless (state : State) : Prop := none ∉ state.tracker.ptr.take state.tracker.active

/-- The first entries are pointers handed out, each once, and no more than that. -/
private theorem firstEntries_sound (entered : Entered state) :
    (firstEntries state.tracker.ptr state.tracker.active).Nodup ∧
      ∀ user ∈ firstEntries state.tracker.ptr state.tracker.active, user ∈ state.handed := by
  have part := (List.take_sublist state.tracker.active state.tracker.ptr).filterMap id
  refine ⟨entered.once.sublist part, fun user member => entered.owned user ?_⟩
  exact (mem_filterMap_id _ _).mp (part.subset member)

private theorem filterMap_length_iff (entries : List (Option Nat)) :
    (entries.filterMap id).length = entries.length ↔ none ∉ entries := by
  induction entries with
  | nil => simp
  | cons entry rest ih =>
    cases entry with
    | none =>
      have fewer := List.length_filterMap_le id rest
      refine iff_of_false (fun same => ?_) fun absent => absent List.mem_cons_self
      rw [List.filterMap_cons_none rfl, List.length_cons] at same
      omega
    | some user => simpa using ih

/-- They are all of them exactly if none of these entries is null. -/
private theorem firstEntries_perm_iff (entered : Entered state) :
    (firstEntries state.tracker.ptr state.tracker.active).Perm state.handed ↔ Gapless state := by
  have size : (state.tracker.ptr.take state.tracker.active).length = state.handed.length := by
    rw [List.length_take, entered.entries, Nat.min_eq_left entered.room, entered.count]
  rw [Gapless, ← filterMap_length_iff, size]
  constructor
  · exact fun all => all.length_eq
  · intro same
    obtain ⟨once, owned⟩ := firstEntries_sound entered
    exact (List.subperm_of_subset once owned).perm_of_length_le (Nat.le_of_eq same.symm)

/-- Where they are all of them, the entries behind them are null. -/
private theorem rest_null (entered : Entered state)
    (all : (firstEntries state.tracker.ptr state.tracker.active).Perm state.handed) :
    List.replicate state.tracker.active none ++ state.tracker.ptr.drop state.tracker.active =
      List.replicate maxHeaps none := by
  have once := entered.once
  rw [← List.take_append_drop state.tracker.active state.tracker.ptr, List.filterMap_append] at once
  have apart := (List.nodup_append.mp once).2.2
  rw [List.eq_replicate_iff]
  constructor
  · rw [List.length_append, List.length_replicate, List.length_drop, entered.entries,
      Nat.add_sub_cancel' entered.room]
  · intro entry member
    rcases List.mem_append.mp member with front | behind
    · exact List.eq_of_mem_replicate front
    · cases entry with
      | none => rfl
      | some user =>
        have held := entered.owned user (List.mem_of_mem_drop behind)
        have first := all.mem_iff.mpr held
        exact absurd rfl (apart user first user ((mem_filterMap_id _ _).mpr behind))

private theorem frees_all_iff (entered : Entered state) : FreesAll state ↔ Gapless state := by
  rw [← firstEntries_perm_iff entered]
  have within : state.tracker.active ≤ state.tracker.ptr.length := entered.entries ▸ entered.room
  obtain ⟨sizeWord, ran⟩ := loop_result state.tracker state.memory within
  rw [FreesAll, heapFreeAll, ran]
  refine ⟨fun whole => whole.1, fun all => ⟨all, ?_, ?_⟩⟩
  · rw [List.filter_eq_nil_iff]
    intro span live
    have there : span.start ∈ state.handed.map (· - 16) := entered.starts ▸ List.mem_map_of_mem live
    obtain ⟨user, held, same⟩ := List.mem_map.mp there
    simp only [List.all_eq_true, decide_eq_true_eq, not_forall]
    exact ⟨user, all.mem_iff.mpr held, fun differ => differ same.symm⟩
  · simp only [rest_null entered all]
    rfl

/-- In every state that is reached, `heap_free_all` frees what is live exactly if none of
the first `active` entries is null. -/
theorem frees_all_iff_gapless (words : Nat → Nat) (calls : List Call) :
    Throughout step (fun state => FreesAll state ↔ Gapless state) (start words) calls :=
  throughout_mono (fun _ entered => frees_all_iff entered)
    (throughout_invariant (fun _ _ _ entered taken => entered_step entered taken)
      (entered_start words) calls)

/-- Two blocks, the older one freed: the other stays behind. -/
theorem older_freed_leaves_other :
    ∃ state, exec step (start fun _ => 0)
        [.alloc 16 (some 4096), .alloc 16 (some 8192), .free (some 4112)] = some state ∧
      state.handed = [8208] ∧ (heapFreeAll state.tracker state.memory).freed = [] ∧ ¬ FreesAll state := by
  refine ⟨_, rfl, rfl, rfl, ?_⟩
  rintro ⟨all, _⟩
  cases all.length_eq

end ShapeQuake.HeapFreeAll
