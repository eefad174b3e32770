import ShapeQuake.HeapTrackerProofs

/-! The two counters of the tracker against the history of its calls. They come from
different places, `active` from the calls and `allocated` from the headers of the
blocks, and agree all the same, whatever has become of the table. -/
namespace ShapeQuake.HeapCounters
open Heap Library.Bytes Library.Runs
open HeapTrackerProofs

/-- The tracker, its memory and what was noted of the calls so far: how many allocations
and frees succeeded, and of each block not freed its pointer and its rounded size. A free
of null frees no block. -/
structure Account where
  tracker : HeapTracker
  memory : Memory
  allocs : Nat
  frees : Nat
  live : List (Nat × Nat)

/-- A zeroed tracker, before any call. -/
def opened (words : Nat → Nat) : Account := ⟨zeroTracker, ⟨words, []⟩, 0, 0, []⟩

/-- A size rounded up to a multiple of sixteen. -/
def rounded (size : Nat) : Nat := (size + 15) / 16 * 16

/-- One call, and the note taken of it. -/
def note (account : Account) (call : Call) : Option Account :=
  if Possible account.memory call then
    match call with
    | .alloc size malloc =>
      match heapAlloc (some account.tracker) account.memory size malloc with
      | some (some tracker, memory, some user) =>
        some { account with
          tracker, memory
          allocs := account.allocs + 1
          live := (user, rounded size) :: account.live }
      | some (some tracker, memory, none) => some { account with tracker, memory }
      | _ => none
    | .free none => some account
    | .free (some user) =>
      match heapFree (some account.tracker) account.memory (some user) with
      | some (some tracker, memory, status) =>
        if getCnd status = Cnd.success.raw then
          some { account with
            tracker, memory
            frees := account.frees + 1
            live := account.live.eraseP fun block => block.1 = user }
        else some { account with tracker, memory }
      | _ => none
  else none

/-- The state without the notes. -/
def Account.state (account : Account) : State :=
  ⟨account.tracker, account.memory, account.live.map Prod.fst⟩

/-- Both counters say what was noted, and the tracker is healthy. -/
structure Agrees (account : Account) : Prop where
  active : account.tracker.active + account.frees = account.allocs
  bounded : account.tracker.active ≤ maxHeaps
  allocated : account.tracker.allocated = (account.live.map Prod.snd).sum
  health : trackingHealth (some account.tracker) = asStatus .heapTracker .success .calculation

private theorem erased (live : List (Nat × Nat)) (user : Nat) :
    (live.eraseP fun block => block.1 = user).map Prod.fst = (live.map Prod.fst).erase user := by
  induction live with
  | nil => rfl
  | cons block live ih =>
    by_cases same : block.1 = user
    · simp [same]
    · simp [same, ih]

/-- A call that is noted is a step of the tracker. -/
theorem note_step (taken : note account call = some next) : step account.state call = some next.state := by
  simp only [note] at taken
  split at taken
  · rename_i possible
    rw [step.eq_def, if_pos (show Possible account.state.memory call from possible)]
    cases call with
    | alloc size malloc =>
      simp only [Account.state] at taken ⊢
      split at taken
      · rename_i ran
        cases taken
        simp only [ran, List.map_cons]
        rfl
      · rename_i ran
        cases taken
        simp only [ran]
        rfl
      · cases taken
    | free ptr =>
      cases ptr with
      | none =>
        cases taken
        simp [heapFree, Account.state]
      | some user =>
        simp only [Account.state] at taken ⊢
        rcases ran : heapFree (some account.tracker) account.memory (some user) with
          _ | ⟨_ | tracker, memory, status⟩
        · simp only [ran] at taken
          cases taken
        · simp only [ran] at taken
          cases taken
        · simp only [ran] at taken ⊢
          split at taken
          · rename_i success
            cases taken
            simp only [success, if_true, erased, Option.elim_some]
          · rename_i failure
            cases taken
            simp only [failure, if_false]
  · cases taken

/-- What can be noted of a call: nothing, an allocation, or a free. -/
inductive Noting (account : Account) : Account → Prop where
  | nothing (tracker : HeapTracker) : Noting account { account with tracker }
  | granted (raw size : Nat) (tracker : HeapTracker) (blocks : List Library.Spans.Span) (asked : 1 ≤ size)
      (possible : Possible account.memory (.alloc size (some raw))) :
      Noting account
        { account with
          tracker
          memory := ⟨Function.update account.memory.sizeWord raw (alignHeap size), blocks⟩
          allocs := account.allocs + 1
          live := (raw + 16, rounded size) :: account.live }
  | freed (user : Nat) (tracker : HeapTracker) (blocks : List Library.Spans.Span)
      (entry : some user ∈ account.tracker.ptr) :
      Noting account
        { account with
          tracker
          memory := ⟨Function.update account.memory.sizeWord (user - 16) 0, blocks⟩
          frees := account.frees + 1
          live := account.live.eraseP fun block => block.1 = user }

theorem note_cases (taken : note account call = some next) : Noting account next := by
  simp only [note] at taken
  split at taken
  · rename_i possible
    cases call with
    | alloc size malloc =>
      simp only at taken
      split at taken
      · rename_i ran
        cases taken
        obtain ⟨_, ⟨none_, _⟩ | ⟨raw, rfl, asked, _, given, granted, rfl⟩⟩ := heapAlloc_cases ran
        · cases none_
        · cases given
          exact .granted raw size _ _ asked possible
      · rename_i ran
        cases taken
        obtain ⟨_, ⟨_, _, rfl, _⟩ | ⟨raw, _, _, _, given, _⟩⟩ := heapAlloc_cases ran
        · exact .nothing _
        · cases given
      · cases taken
    | free ptr =>
      cases ptr with
      | none =>
        cases taken
        exact .nothing _
      | some user =>
        simp only at taken
        split at taken
        · rename_i tracker memory status ran
          obtain ⟨_, freed⟩ := heapFree_freed ran
          cases freed with
          | refused failed _ =>
            rw [if_neg failed] at taken
            cases taken
            exact .nothing _
          | cleared success before after table =>
            rw [if_pos success] at taken
            cases taken
            exact .freed user _ _ (by simp [table])
        · cases taken
  · cases taken

/-- The notes are right: they are of what the tracker has handed out, with the sizes in the
headers. -/
structure Noted (account : Account) : Prop where
  tracked : Tracked account.state
  balance : account.frees + account.live.length = account.allocs
  sizes : ∀ block ∈ account.live, account.memory.sizeWord (block.1 - 16) = block.2 ∧ 0 < block.2

private theorem noted_opened (words : Nat → Nat) : Noted (opened words) :=
  ⟨tracked_start words, rfl, nofun⟩

/-- A size that does not wrap is rounded up as such. -/
private theorem alignHeap_rounded (size : Nat) (noWrap : size + 15 < 2 ^ 64) :
    alignHeap size = rounded size := by
  rw [alignHeap, roundUp16_eq, wrap64_of_lt noWrap, rounded]

private theorem held_noted (noted : Noted account) (entry : some user ∈ account.tracker.ptr) :
    ∃ block ∈ account.live, block.1 = user :=
  List.mem_map.mp (noted.tracked.owned user entry)

private theorem length_freed (noted : Noted account) (entry : some user ∈ account.tracker.ptr) :
    (account.live.eraseP fun block => block.1 = user).length + 1 = account.live.length := by
  obtain ⟨block, member, same⟩ := held_noted noted entry
  have shorter := List.length_eraseP_of_mem member (p := fun block => block.1 = user) (by simp [same])
  have positive := List.length_pos_of_mem member
  omega

/-- The blocks that are left when one is freed have other headers. -/
private theorem headers_apart (noted : Noted account) (entry : some user ∈ account.tracker.ptr)
    (left : block ∈ account.live.eraseP fun block => block.1 = user) :
    block ∈ account.live ∧ block.1 - 16 ≠ user - 16 := by
  have other : block.1 ∈ account.state.handed.erase user := by
    rw [Account.state, ← erased]
    exact List.mem_map_of_mem left
  obtain ⟨_, apart⟩ := blocks_keep_others noted.tracked (noted.tracked.owned user entry) _ other
  exact ⟨List.mem_of_mem_eraseP left, apart⟩

theorem noted_step (noted : Noted account) (taken : note account call = some next) : Noted next := by
  have tracked := tracked_step noted.tracked (note_step taken)
  have balance := noted.balance
  refine ⟨tracked, ?_, ?_⟩
  · cases note_cases taken with
    | nothing tracker => exact balance
    | granted raw size tracker blocks asked possible =>
      simp only [List.length_cons]
      omega
    | freed user tracker blocks entry =>
      have shorter := length_freed noted entry
      simp only
      omega
  · cases note_cases taken with
    | nothing tracker => exact noted.sizes
    | granted raw size tracker blocks asked possible =>
      have fresh := granted_fresh noted.tracked possible
      intro block member
      rcases List.mem_cons.mp member with rfl | old
      · have header := alignHeap_rounded size possible.1
        refine ⟨by simp [header], ?_⟩
        simp only [rounded]
        omega
      · have apart := fresh block.1 (List.mem_map_of_mem old)
        simp only [Function.update_of_ne apart]
        exact noted.sizes block old
    | freed user tracker blocks entry =>
      intro block member
      obtain ⟨old, apart⟩ := headers_apart noted entry member
      simp only [Function.update_of_ne apart]
      exact noted.sizes block old

/-- There is a block exactly if there is a size, since no size is zero. -/
private theorem sum_eq_zero {live : List (Nat × Nat)} (positive : ∀ block ∈ live, 0 < block.2) :
    (live.map Prod.snd).sum = 0 ↔ live.length = 0 := by
  cases live with
  | nil => simp
  | cons block rest =>
    have first := positive block List.mem_cons_self
    simp only [List.map_cons, List.sum_cons, List.length_cons]
    omega

theorem noted_agrees (noted : Noted account) : Agrees account := by
  obtain ⟨tracked, balance, sizes⟩ := noted
  have active : account.tracker.active = account.live.length := by
    have count := tracked.count
    rwa [Account.state, List.length_map] at count
  have allocated : account.tracker.allocated = (account.live.map Prod.snd).sum := by
    have total := tracked.total
    simp only [Account.state, List.map_map] at total
    rw [total]
    congr 1
    exact List.map_congr_left fun block member => (sizes block member).1
  have both : account.tracker.allocated = 0 ↔ account.tracker.active = 0 := by
    rw [active, allocated]
    exact sum_eq_zero fun block member => (sizes block member).2
  refine ⟨by rw [active, Nat.add_comm, balance], tracked.room, allocated, ?_⟩
  rw [trackingHealth, if_neg (by omega)]

/-- After any calls both counters agree with their history, and the tracker is healthy. -/
theorem counters_agree (words : Nat → Nat) (calls : List Call) :
    Throughout note Agrees (opened words) calls :=
  throughout_mono (fun _ noted => noted_agrees noted)
    (throughout_invariant (fun _ _ _ noted taken => noted_step noted taken) (noted_opened words) calls)

end ShapeQuake.HeapCounters
