import ShapeQuake.PoolTeardown

/-! What becomes of the shared zones of a pool. A setter counts up and nothing
counts down, an initialisation forgets the zone before it, and a destructor does
nothing while the counter stands above zero; so a zone is destroyed with its pool
when it was the first and last of its kind and nothing was ever stored in it. -/
namespace ShapeQuake.PoolZones
open Library.Spans Library.Runs Heap HeapTrackerProofs Pools PoolConstruction PoolTeardown
open SharedData

variable {tracking : Tracking} {handed : List Nat} {pool : Pool}

/-- A call that makes a zone of a pool or stores a value in one. -/
inductive SharedCall where
  | init (kind : Kind) (shmname : Option (List UInt8)) (answers : Vma.Answers)
  | set (kind : Kind) (call : SetCall kind)

/-- One call. It has no successor when it does not return. -/
def sharedStep (shared : Kind → Shared) : SharedCall → Option (Kind → Shared)
  | .init kind shmname answers =>
    some (Function.update shared kind (initShared kind (shared kind) shmname answers))
  | .set kind call => (setShared kind (shared kind) call).map (Function.update shared kind)

/-- A zone that a call has made. -/
structure Made where
  kind : Kind
  name : List UInt8
  span : Span
  deriving DecidableEq, Repr

/-- What there is to destroy of a zone. -/
def zoneMade (kind : Kind) (zone : Vma.VmaZone) : Made :=
  ⟨kind, zone.name, ⟨zone.baseAddr, zone.capacity⟩⟩

/-- The zone that the call makes, if the system lets it. -/
def SharedCall.made : SharedCall → Option Made
  | .init kind (some shmname) answers =>
    (Vma.vmaCreate (some (Vma.storedName shmname)) (kind.size * maxSharedData) answers).1.map
      (zoneMade kind)
  | .init _ none _ | .set _ _ => none

/-- The call makes a zone of the kind anew or wants to store a value in it. -/
def SharedCall.touches (kind : Kind) : SharedCall → Prop
  | .init other shmname _ => other = kind ∧ shmname.isSome = true
  | .set other call => other = kind ∧ accepts other call.sharedId = true

/-- The zones that were made. -/
def allMade (calls : List SharedCall) : List Made := calls.filterMap SharedCall.made

/-- Neither the names nor the addresses of the zones have anything in common. -/
def Fresh (first second : Made) : Prop :=
  first.name ≠ second.name ∧ Apart first.span second.span

instance : Std.Symm Fresh := ⟨fun _ _ fresh => ⟨fresh.1.symm, apart_symm fresh.2⟩⟩

/-- What `shm_open` and `mmap` promise: a name that is in use is not opened with
`O_EXCL`, and memory is mapped where there is none yet. -/
structure Promised (calls : List SharedCall) : Prop where
  mapped : ∀ made ∈ allMade calls, made.span.start ≠ 0 ∧ made.span.start ≠ Vma.mapFailed
  fresh : (allMade calls).Pairwise Fresh

/-- No zone that was made is followed by a call that makes it anew or stores
something in it. -/
def Tidy (calls : List SharedCall) : Prop :=
  calls.Pairwise fun call next => ∀ made, call.made = some made → ¬ next.touches made.kind

/-- `destroy_pool` returns, and every zone that was made is unlinked and unmapped
exactly once. -/
def ZonesDestroyed (tracking : Tracking) (pool : Pool) (calls : List SharedCall) : Prop :=
  ∃ after effects, destroyPool tracking pool = some (after, effects) ∧
    ∀ made ∈ allMade calls, effects.count (.zone (.unlinked made.name)) = 1 ∧
      effects.count (.zone (.unmapped made.span)) = 1

/-! ## What one call does to the zone of a kind -/

/-- The outcomes of a call for the zone of one kind. -/
inductive Turned (kind : Kind) (call : SharedCall) (before : Shared) : Shared → Prop where
  | untouched (quiet : ¬ call.touches kind) (others : ∀ made, call.made = some made → made.kind ≠ kind) :
      Turned kind call before before
  | lost (touched : call.touches kind) (none_ : call.made = none) :
      Turned kind call before ⟨none, before.count⟩
  | created (touched : call.touches kind) (held : SharedZone) (master : held.zone.isMaster = true)
      (made : call.made = some (zoneMade kind held.zone)) :
      Turned kind call before ⟨some held, before.count⟩
  | ignored (touched : call.touches kind) (none_ : call.made = none) (empty : before.zone = none) :
      Turned kind call before before
  | stored (touched : call.touches kind) (none_ : call.made = none) (old new : SharedZone)
      (zone : before.zone = some old) (master : new.zone.isMaster = old.zone.isMaster)
      (same : zoneMade kind new.zone = zoneMade kind old.zone) :
      Turned kind call before ⟨some new, before.count + 1⟩

/-- The kind of call that makes a zone is the kind of the zone. -/
private theorem made_kind {kind : Kind} (made : (SharedCall.init kind shmname answers).made = some zone) :
    zone.kind = kind := by
  cases shmname with
  | none => cases made
  | some shmname =>
    obtain ⟨_, _, rfl⟩ := Option.map_eq_some_iff.mp made
    rfl

/-- A zone that is initialised. -/
private theorem init_turned (kind : Kind) (shared : Shared) (shmname : List UInt8)
    (answers : Vma.Answers) :
    Turned kind (.init kind (some shmname) answers) shared
      (initShared kind shared (some shmname) answers) := by
  have touched : (SharedCall.init kind (some shmname) answers).touches kind := ⟨rfl, rfl⟩
  cases created : (Vma.vmaCreate (some (Vma.storedName shmname)) (kind.size * maxSharedData)
      answers).1 with
  | none =>
    have lost : initShared kind shared (some shmname) answers = ⟨none, shared.count⟩ := by
      simp only [initShared, created]
    rw [lost]
    exact .lost touched (by simp [SharedCall.made, created])
  | some zone =>
    obtain ⟨held, zone_⟩ : ∃ held, (initShared kind shared (some shmname) answers).zone = some held := by
      simp only [initShared, created]
      exact ⟨_, rfl⟩
    obtain ⟨fd, base, opened, mapped, same, count⟩ := initShared_made rfl zone_
    obtain ⟨_, _, _, openedToo, mappedToo, header⟩ := Vma.vmaCreate_cases created
    obtain rfl := Option.some.inj (opened.symm.trans openedToo)
    obtain rfl := Option.some.inj (mapped.symm.trans mappedToo)
    have made : zoneMade kind zone = zoneMade kind held.zone := by
      rw [same, header]
      rfl
    have result : initShared kind shared (some shmname) answers = ⟨some held, shared.count⟩ := by
      rw [← zone_, ← count]
    rw [result]
    exact .created touched held (by rw [same]; rfl) (by rw [SharedCall.made, created, ← made]; rfl)

/-- A setter whose zone is mapped. -/
private theorem set_turned {kind : Kind} {call : SetCall kind} {shared next : Shared}
    (mapped : ∀ held, shared.zone = some held → held.zone.baseAddr ≠ 0)
    (ran : setShared kind shared call = some next) : Turned kind (.set kind call) shared next := by
  cases zone : shared.zone with
  | none =>
    have same : setShared kind shared call = some shared := by
      cases kind <;> simp [setShared, setSharedTaskData, setSharedJobData, zone]
    obtain rfl := Option.some.inj (same.symm.trans ran)
    by_cases accepted : accepts kind call.sharedId = true
    · exact .ignored ⟨rfl, accepted⟩ rfl zone
    · exact .untouched (fun touched => accepted touched.2) (by simp [SharedCall.made])
  | some held =>
    have address := mapped held zone
    cases accepted : accepts kind call.sharedId with
    | false =>
      obtain rfl := Option.some.inj ((setShared_refused zone address call accepted).symm.trans ran)
      exact .untouched (fun touched => Bool.noConfusion (accepted.symm.trans touched.2))
        (by simp [SharedCall.made])
    | true =>
      have touched : (SharedCall.set kind call).touches kind := ⟨rfl, accepted⟩
      rw [setShared_accepted zone address call accepted, storeShared] at ran
      generalize allocated : Vma.vmaAlloc held.zone.baseAddr held.zone kind.size = outcome at ran
      obtain ⟨header, sd, _⟩ := outcome
      obtain ⟨place, _, rfl⟩ := Option.map_eq_some_iff.mp ran
      obtain ⟨offset, moved⟩ := Vma.internalVmaAlloc_header held.zone.baseAddr held.zone kind.size
      obtain rfl : { held.zone with offset } = header :=
        moved.symm.trans (congrArg Prod.fst allocated)
      exact .stored touched rfl held _ zone rfl rfl

/-- Every call has one of these outcomes. -/
theorem sharedStep_turned {shared next : Kind → Shared} (kind : Kind)
    (mapped : ∀ held, (shared kind).zone = some held → held.zone.baseAddr ≠ 0)
    (taken : sharedStep shared call = some next) : Turned kind call (shared kind) (next kind) := by
  cases call with
  | init other shmname answers =>
    obtain rfl := Option.some.inj taken
    by_cases same : other = kind
    · subst same
      rw [Function.update_self]
      cases shmname with
      | none => exact .untouched (fun touched => nomatch touched.2) nofun
      | some shmname => exact init_turned other _ shmname answers
    · rw [Function.update_of_ne (Ne.symm same)]
      exact .untouched (fun touched => same touched.1) fun made here => made_kind here ▸ same
  | set other call =>
    obtain ⟨after, ran, rfl⟩ := Option.map_eq_some_iff.mp taken
    by_cases same : other = kind
    · subst same
      rw [Function.update_self]
      exact set_turned mapped ran
    · rw [Function.update_of_ne (Ne.symm same)]
      exact .untouched (fun touched => same touched.1) nofun

/-! ## What the calls so far leave of a kind -/

/-- The zones of the kind that were made. -/
def madeOf (kind : Kind) (calls : List SharedCall) : List Made :=
  (allMade calls).filter (·.kind = kind)

/-- The calls are tidy as far as this kind goes. -/
def TidyFor (kind : Kind) (calls : List SharedCall) : Prop :=
  calls.Pairwise fun call next =>
    ∀ made, call.made = some made → made.kind = kind → ¬ next.touches kind

theorem tidy_iff : Tidy calls ↔ ∀ kind, TidyFor kind calls := by
  simp only [Tidy, TidyFor, List.pairwise_iff_forall_sublist]
  constructor
  · rintro tidy kind call next order made here rfl
    exact tidy order made here
  · intro tidy call next order made here
    exact tidy made.kind order made here rfl

theorem allMade_append (calls : List SharedCall) (call : SharedCall) :
    allMade (calls ++ [call]) = allMade calls ++ call.made.toList := by
  simp only [allMade, List.filterMap_append]
  cases made : call.made <;> simp [made]

theorem madeOf_append (kind : Kind) (calls : List SharedCall) (call : SharedCall) :
    madeOf kind (calls ++ [call]) =
      madeOf kind calls ++ call.made.toList.filter (·.kind = kind) := by
  rw [madeOf, allMade_append, List.filter_append]
  rfl

theorem mem_madeOf : made ∈ madeOf kind calls ↔ made ∈ allMade calls ∧ made.kind = kind := by
  simp [madeOf]

/-- One more call keeps the calls tidy unless it touches what was made. -/
theorem tidyFor_append (kind : Kind) (calls : List SharedCall) (call : SharedCall) :
    TidyFor kind (calls ++ [call]) ↔
      TidyFor kind calls ∧ (call.touches kind → madeOf kind calls = []) := by
  rw [TidyFor, List.pairwise_append]
  simp only [List.pairwise_singleton, true_and, List.mem_singleton, forall_eq]
  refine and_congr_right fun _ => ?_
  rw [List.eq_nil_iff_forall_not_mem]
  constructor
  · intro tidy touched made member
    obtain ⟨among, kind_⟩ := mem_madeOf.mp member
    obtain ⟨earlier, here, same⟩ := List.mem_filterMap.mp among
    exact tidy earlier here made same kind_ touched
  · intro none_ earlier here made same kind_ touched
    exact none_ touched made (mem_madeOf.mpr ⟨List.mem_filterMap.mpr ⟨earlier, here, same⟩, kind_⟩)

theorem tidyFor_of_none (none_ : madeOf kind calls = []) : TidyFor kind calls := by
  refine List.pairwise_of_forall_mem_list fun call here next _ made same kind_ => ?_
  have member : made ∈ madeOf kind calls :=
    mem_madeOf.mpr ⟨List.mem_filterMap.mpr ⟨call, here, same⟩, kind_⟩
  rw [none_] at member
  cases member

/-- The zone that the pool holds is all that was made, and nothing counted up. -/
structure Whole (kind : Kind) (calls : List SharedCall) (shared : Shared) : Prop where
  unused : shared.count = 0
  only : madeOf kind calls = shared.zone.toList.map fun held => zoneMade kind held.zone

/-- A zone was made that no destructor can reach: the counter stands above zero,
or the pool does not hold a zone of this name. -/
def Broken (kind : Kind) (calls : List SharedCall) (shared : Shared) : Prop :=
  ∃ made ∈ madeOf kind calls,
    0 < shared.count ∨ ∀ held, shared.zone = some held → held.zone.name ≠ made.name

/-- What holds of the zone of a kind after any calls. -/
structure Standing (kind : Kind) (calls : List SharedCall) (shared : Shared) : Prop where
  counts : 0 ≤ shared.count
  held : ∀ held, shared.zone = some held →
    zoneMade kind held.zone ∈ madeOf kind calls ∧ held.zone.isMaster = true
  whole : TidyFor kind calls → Whole kind calls shared
  broken : ¬ TidyFor kind calls → Broken kind calls shared

/-- A call that touches the kind breaks it exactly if a zone had been made. -/
private theorem standing_touched (touched : call.touches kind) (counts : 0 ≤ after.count)
    (held : ∀ held, after.zone = some held →
      zoneMade kind held.zone ∈ madeOf kind (calls ++ [call]) ∧ held.zone.isMaster = true)
    (whole : madeOf kind calls = [] → Whole kind (calls ++ [call]) after)
    (broken : ∀ made ∈ madeOf kind calls,
      0 < after.count ∨ ∀ held, after.zone = some held → held.zone.name ≠ made.name) :
    Standing kind (calls ++ [call]) after where
  counts := counts
  held := held
  whole := fun tidy => whole (((tidyFor_append kind calls call).mp tidy).2 touched)
  broken := by
    intro untidy
    have some_ : madeOf kind calls ≠ [] := fun none_ =>
      untidy ((tidyFor_append kind calls call).mpr ⟨tidyFor_of_none none_, fun _ => none_⟩)
    obtain ⟨made, member⟩ := List.exists_mem_of_ne_nil _ some_
    rw [Broken, madeOf_append]
    exact ⟨made, List.mem_append_left _ member, broken made member⟩

/-- A call that makes nothing of the kind leaves what was made of it. -/
private theorem madeOf_same (others : ∀ made, call.made = some made → made.kind ≠ kind) :
    madeOf kind (calls ++ [call]) = madeOf kind calls := by
  rw [madeOf_append]
  cases made : call.made with
  | none => simp
  | some zone => simp [others zone made]

/-- One more call. When it touches a kind of which a zone was made, the zone is
lost, or another is held in its place, or the counter goes up. -/
private theorem standing_step (standing : Standing kind calls before)
    (promised : Promised (calls ++ [call])) (turned : Turned kind call before after) :
    Standing kind (calls ++ [call]) after := by
  obtain ⟨counts, own, whole, broken⟩ := standing
  have unused : madeOf kind calls = [] → before.count = 0 := fun none_ =>
    (whole (tidyFor_of_none none_)).unused
  cases turned with
  | untouched quiet others =>
    have same : madeOf kind (calls ++ [call]) = madeOf kind calls := madeOf_same others
    have tidy : TidyFor kind (calls ++ [call]) ↔ TidyFor kind calls := by
      rw [tidyFor_append]
      exact and_iff_left fun touched => absurd touched quiet
    refine ⟨counts, by rwa [same], fun clean => ?_, fun untidy => ?_⟩
    · obtain ⟨unused, only⟩ := whole (tidy.mp clean)
      exact ⟨unused, same.trans only⟩
    · rw [Broken, same]
      exact broken fun clean => untidy (tidy.mpr clean)
  | lost touched none_ =>
    have same : madeOf kind (calls ++ [call]) = madeOf kind calls := madeOf_same (by simp [none_])
    exact standing_touched touched counts nofun (fun empty => ⟨unused empty, same.trans empty⟩)
      fun _ _ => Or.inr nofun
  | created touched held master made =>
    have more : madeOf kind (calls ++ [call]) = madeOf kind calls ++ [zoneMade kind held.zone] := by
      rw [madeOf_append, made]
      simp [zoneMade]
    refine standing_touched touched counts ?_ (fun empty => ⟨unused empty, by simp [more, empty]⟩) ?_
    · rintro _ ⟨⟩
      exact ⟨by simp [more], master⟩
    · rintro earlier member
      refine Or.inr ?_
      rintro _ ⟨⟩ same
      -- the name of the zone before it is still in use
      have fresh := promised.fresh
      rw [allMade_append, made, List.pairwise_append] at fresh
      exact (fresh.2.2 earlier (mem_madeOf.mp member).1 (zoneMade kind held.zone) (by simp)).1 same.symm
  | ignored touched none_ empty =>
    have same : madeOf kind (calls ++ [call]) = madeOf kind calls := madeOf_same (by simp [none_])
    refine standing_touched touched counts (by simp [empty])
      (fun nothing => ⟨unused nothing, by simp [same, nothing, empty]⟩) fun _ _ => ?_
    exact Or.inr (by simp [empty])
  | stored touched none_ old new zone master samePlace =>
    have same : madeOf kind (calls ++ [call]) = madeOf kind calls := madeOf_same (by simp [none_])
    obtain ⟨member, oldMaster⟩ := own old zone
    refine standing_touched touched (Int.le_add_one counts) ?_ ?_ fun _ _ => ?_
    · rintro _ ⟨⟩
      rw [same, samePlace]
      exact ⟨member, master.trans oldMaster⟩
    · intro nothing
      rw [nothing] at member
      cases member
    · exact Or.inl (Int.lt_add_one_iff.mpr counts)

/-- After any calls that return, from a pool that had no zones. -/
theorem standing_exec (promised : Promised calls)
    (ran : exec sharedStep (fun _ => ⟨none, 0⟩) calls = some shared) (kind : Kind) :
    Standing kind calls (shared kind) := by
  induction calls using List.reverseRecOn generalizing shared with
  | nil =>
    obtain rfl := Option.some.inj ran
    exact ⟨Int.le_refl 0, nofun, fun _ => ⟨rfl, rfl⟩, fun untidy => absurd List.Pairwise.nil untidy⟩
  | append_singleton calls call ih =>
    obtain ⟨middle, before, last⟩ := exec_append.mp ran
    obtain ⟨after, taken, same⟩ := exec_cons.mp last
    obtain rfl := Option.some.inj same
    have earlier : Promised calls := by
      obtain ⟨mapped, fresh⟩ := promised
      rw [allMade_append] at mapped fresh
      exact ⟨fun made member => mapped made (List.mem_append_left _ member),
        (List.pairwise_append.mp fresh).1⟩
    have standing := ih earlier before
    refine standing_step standing promised (sharedStep_turned kind (fun held zone => ?_) taken)
    exact (earlier.mapped _ (mem_madeOf.mp (standing.held held zone).1).1).1

/-! ## What is destroyed -/

/-- The kind is passed over when its counter stands above zero, and jobs also
when the pool has no descriptor. -/
def passedOver (pool : Pool) : Kind → Bool
  | .job => pool.poolingMode = .pureThreadPool ∨ (pool.shared .job).count > sharedIdProtectedZone
  | .task => (pool.shared .task).count > sharedIdProtectedZone

/-- The zone of a kind that `destroy_pool` destroys. -/
def destroyed (pool : Pool) (kind : Kind) : Option SharedZone :=
  if passedOver pool kind then none else (pool.shared kind).zone

private theorem destroyZone_unless (skipped : Prop) [Decidable skipped] (zone : Option SharedZone) :
    (if skipped then [] else destroyZone zone) =
      destroyZone (if decide skipped = true then none else zone) := by
  by_cases held : skipped <;> simp [held, destroyZone]

/-- Only destroying the zones has effects on zones. -/
private theorem farewell_count (pool : Pool) (effect : Vma.Effect) :
    (farewell pool).count (.zone effect) =
      (destroyZone (destroyed pool .job)).count (.zone effect) +
        (destroyZone (destroyed pool .task)).count (.zone effect) := by
  have zones : zoneEffects pool =
      destroyZone (destroyed pool .job) ++ destroyZone (destroyed pool .task) := by
    rw [zoneEffects, destroyZone_unless, destroyZone_unless]
    rfl
  have close : (if pool.poolingMode = .reactorEpoll ∧ pool.epollfd ≠ -1 then
      [Effect.closed pool.epollfd] else []).count (.zone effect) = 0 := by
    split <;> simp
  have jobs : (if pool.poolingMode = .pureThreadPool then []
      else (pool.jobs.present.filter (·.pid > 0)).map (Effect.killed ·.pid) ++
        (pool.jobs.present.filter (·.pid > 0)).map (.waited ·.pid)).count (.zone effect) = 0 := by
    split <;> simp [List.count_eq_zero]
  have workers : ((pool.workers.present.filterMap (·.tid)).map Effect.joined).count
      (.zone effect) = 0 := by
    simp [List.count_eq_zero]
  rw [farewell, List.count_append, List.count_append, List.count_append, close, jobs, workers, zones,
    List.count_append, Nat.zero_add, Nat.zero_add]

/-- Destroying a mapped zone unlinks its name and unmaps its memory, once each. -/
private theorem destroyZone_count {held : SharedZone} (master : held.zone.isMaster = true)
    (mapped : held.zone.baseAddr ≠ 0 ∧ held.zone.baseAddr ≠ Vma.mapFailed) (name : List UInt8)
    (span : Span) :
    (destroyZone (some held)).count (.zone (.unlinked name)) =
        (if held.zone.name = name then 1 else 0) ∧
      (destroyZone (some held)).count (.zone (.unmapped span)) =
        if (⟨held.zone.baseAddr, held.zone.capacity⟩ : Span) = span then 1 else 0 := by
  by_cases closes : held.zone.fd = -1 <;>
    simp [destroyZone, Vma.vmaDestroy, Vma.vmaUnmap, master, mapped.1, mapped.2, closes,
      List.count_cons]

/-- A zone that was made is destroyed: its name unlinked and its memory unmapped,
exactly once. -/
def DestroyedOnce (pool : Pool) (made : Made) : Prop :=
  (farewell pool).count (.zone (.unlinked made.name)) = 1 ∧
    (farewell pool).count (.zone (.unmapped made.span)) = 1

/-- The zones of the pool after any calls that return. -/
structure Known (pool : Pool) (calls : List SharedCall) : Prop where
  promised : Promised calls
  standing : ∀ kind, Standing kind calls (pool.shared kind)

private theorem made_size (member : made ∈ allMade calls) : 0 < made.span.size := by
  obtain ⟨call, _, same⟩ := List.mem_filterMap.mp member
  cases call with
  | set kind call => cases same
  | init kind shmname answers =>
    cases shmname with
    | none => cases same
    | some shmname =>
      obtain ⟨zone, created, rfl⟩ := Option.map_eq_some_iff.mp same
      obtain ⟨positive, _, _, _, _, header⟩ := Vma.vmaCreate_cases created
      rw [header]
      exact positive

/-- What is destroyed is a zone that was made and is mapped. -/
private theorem destroyed_known (known : Known pool calls) (here : destroyed pool kind = some held) :
    (pool.shared kind).zone = some held ∧ zoneMade kind held.zone ∈ madeOf kind calls ∧
      held.zone.isMaster = true ∧ held.zone.baseAddr ≠ 0 ∧ held.zone.baseAddr ≠ Vma.mapFailed := by
  have zone : (pool.shared kind).zone = some held := by
    unfold destroyed at here
    split at here
    · cases here
    · exact here
  obtain ⟨member, master⟩ := (known.standing kind).held held zone
  exact ⟨zone, member, master, known.promised.mapped _ (mem_madeOf.mp member).1⟩

/-- A zone of another kind has neither this name nor these addresses. -/
private theorem others_count (known : Known pool calls) (member : made ∈ allMade calls)
    (other : kind ≠ made.kind) :
    (destroyZone (destroyed pool kind)).count (.zone (.unlinked made.name)) = 0 ∧
      (destroyZone (destroyed pool kind)).count (.zone (.unmapped made.span)) = 0 := by
  cases here : destroyed pool kind with
  | none => exact ⟨rfl, rfl⟩
  | some held =>
    obtain ⟨_, among, master, mapped⟩ := destroyed_known known here
    obtain ⟨unlinks, unmaps⟩ := destroyZone_count master mapped made.name made.span
    have different : zoneMade kind held.zone ≠ made := fun same => other (congrArg Made.kind same)
    obtain ⟨name, apart⟩ :=
      known.promised.fresh.forall (mem_madeOf.mp among).1 member different
    have span : (zoneMade kind held.zone).span ≠ made.span := by
      intro same
      rw [same] at apart
      have positive := made_size member
      simp only [Apart] at apart
      omega
    rw [unlinks, unmaps]
    exact ⟨if_neg name, if_neg span⟩

/-- Only destroying the zone of its kind counts for a zone. -/
private theorem own_count (known : Known pool calls) (member : made ∈ allMade calls) :
    (farewell pool).count (.zone (.unlinked made.name)) =
        (destroyZone (destroyed pool made.kind)).count (.zone (.unlinked made.name)) ∧
      (farewell pool).count (.zone (.unmapped made.span)) =
        (destroyZone (destroyed pool made.kind)).count (.zone (.unmapped made.span)) := by
  rw [farewell_count, farewell_count]
  cases kind : made.kind with
  | task =>
    have other : Kind.job ≠ made.kind := by simp [kind]
    obtain ⟨unlinks, unmaps⟩ := others_count known member other
    exact ⟨by rw [unlinks, Nat.zero_add], by rw [unmaps, Nat.zero_add]⟩
  | job =>
    have other : Kind.task ≠ made.kind := by simp [kind]
    obtain ⟨unlinks, unmaps⟩ := others_count known member other
    exact ⟨by rw [unlinks, Nat.add_zero], by rw [unmaps, Nat.add_zero]⟩

/-- A zone is destroyed when the pool holds it and its kind is not passed over. -/
private theorem destroyed_once (known : Known pool calls) (zone : (pool.shared kind).zone = some held)
    (reached : passedOver pool kind = false) : DestroyedOnce pool (zoneMade kind held.zone) := by
  have here : destroyed pool kind = some held := by rw [destroyed, reached, zone]; rfl
  obtain ⟨_, member, master, mapped⟩ := destroyed_known known here
  obtain ⟨unlinks, unmaps⟩ := own_count known (mem_madeOf.mp member).1
  obtain ⟨one, other⟩ := destroyZone_count master mapped held.zone.name (zoneMade kind held.zone).span
  rw [DestroyedOnce, unlinks, unmaps, show (zoneMade kind held.zone).kind = kind from rfl, here]
  exact ⟨one.trans (if_pos rfl), other.trans (if_pos rfl)⟩

/-- A zone is not destroyed when its kind is passed over, or the pool holds no
zone of its name. -/
private theorem not_destroyed (known : Known pool calls) (member : made ∈ allMade calls)
    (unreached : passedOver pool made.kind = true ∨
      ∀ held, (pool.shared made.kind).zone = some held → held.zone.name ≠ made.name) :
    ¬ DestroyedOnce pool made := by
  rintro ⟨once, _⟩
  rw [(own_count known member).1] at once
  cases here : destroyed pool made.kind with
  | none =>
    rw [here] at once
    cases once
  | some held =>
    obtain ⟨zone, _, master, mapped⟩ := destroyed_known known here
    have different : held.zone.name ≠ made.name := by
      rcases unreached with skipped | different
      · simp [destroyed, skipped] at here
      · exact different held zone
    rw [here, (destroyZone_count master mapped made.name made.span).1, if_neg different] at once
    cases once

/-- The zones of a kind are destroyed exactly if the calls are tidy for it and its
destructor does not turn back for want of a descriptor. -/
private theorem destroyedOnce_iff (known : Known pool calls) (kind : Kind) :
    (∀ made ∈ madeOf kind calls, DestroyedOnce pool made) ↔
      TidyFor kind calls ∧
        (kind = .job → pool.poolingMode = .pureThreadPool → madeOf kind calls = []) := by
  obtain ⟨_, _, whole, broken⟩ := known.standing kind
  constructor
  · intro all
    refine ⟨?_, ?_⟩
    · by_contra untidy
      obtain ⟨made, member, why⟩ := broken untidy
      obtain ⟨among, rfl⟩ := mem_madeOf.mp member
      refine not_destroyed known among (why.imp_left fun counted => ?_) (all made member)
      cases kind : made.kind <;> simp [passedOver, sharedIdProtectedZone, ← kind, counted]
    · rintro rfl mode
      refine List.eq_nil_iff_forall_not_mem.mpr fun made member => ?_
      obtain ⟨among, kind⟩ := mem_madeOf.mp member
      exact not_destroyed known among (Or.inl (by simp [kind, passedOver, mode])) (all made member)
  · rintro ⟨tidy, mode⟩ made member
    obtain ⟨unused, only⟩ := whole tidy
    have some_ : madeOf kind calls ≠ [] := List.ne_nil_of_mem member
    rw [only] at member
    obtain ⟨held, zone, rfl⟩ := List.mem_map.mp member
    refine destroyed_once known (Option.mem_toList.mp zone) ?_
    cases kind with
    | task => simp [passedOver, unused, sharedIdProtectedZone]
    | job =>
      have other : pool.poolingMode ≠ .pureThreadPool := fun pure_ => some_ (mode rfl pure_)
      simp [passedOver, unused, sharedIdProtectedZone, other]

/-- The pool is one of those that the clients of the tracker hold. -/
structure Live (tracking : Tracking) (handed : List Nat) (pool : Pool) : Prop where
  keeps : Keeps tracking handed
  owns : ∃ rest, handed.Perm (freedFirst pool ++ [pool.address] ++ rest)
  formed : WellFormed pool

/-- A pool is live when its constructor returns it. -/
theorem live_constructed {after : Tracking} (keeps : Keeps tracking handed)
    (unlocked : tracking.tracker.mutex = false) (placed : Placed tracking.memory (askedAll init outcomes))
    (obtained : initPool tracking outcomes init = some (after, some pool)) :
    (∃ all, Live after all pool) ∧ pool.shared = fun _ => ⟨none, 0⟩ := by
  cases accepted : init.accepted with
  | false => cases (initPool_refused accepted).symm.trans obtained
  | true =>
    rw [initPool_accepted accepted] at obtained
    have assembled := initMode_assembled keeps unlocked (pshared_of_accepted accepted) placed obtained
    obtain ⟨added, extended, owns⟩ := assembled_owns assembled
    have all := owns.append_right handed
    rw [List.append_assoc] at all
    refine ⟨⟨_, extended.keeps, ⟨_, all⟩, assembled_formed assembled⟩, ?_⟩
    rw [assembled.fresh]
    rfl

/-- It stays so as long as the other clients keep their hands off its blocks. -/
theorem live_step (live : Live tracking handed pool)
    (others : ∀ user, call = .free (some user) → user ∉ freedFirst pool ++ [pool.address])
    (taken : step ⟨tracking.tracker, tracking.memory, handed⟩ call = some next) :
    Live ⟨next.tracker, next.memory⟩ next.handed pool := by
  obtain ⟨keeps, ⟨rest, owns⟩, formed⟩ := live
  refine ⟨keeps_step keeps taken, ?_, formed⟩
  cases step_outcome taken with
  | refused unlocked why => exact ⟨rest, owns⟩
  | granted raw unlocked asked room possible =>
    exact ⟨(raw + 16) :: rest, (owns.cons _).trans List.perm_middle.symm⟩
  | null => exact ⟨rest, owns⟩
  | aborted unlocked why => exact ⟨rest, owns⟩
  | @freed user unlocked before after table =>
    refine ⟨rest.erase user, ?_⟩
    rw [← List.erase_append_right _ (others user rfl)]
    exact owns.erase user

/-- Its shared data does not matter to that. -/
theorem live_shared (live : Live tracking handed pool) (shared : Kind → Shared) :
    Live tracking handed { pool with shared } :=
  ⟨live.keeps, live.owns, live.formed.jobs, live.formed.workers, live.formed.quiet⟩

/-- Every zone that was made for a pool is destroyed with it exactly if
`destroy_pool` gets to the end, no zone was followed by another of its kind or by
a value stored in it, and a pool without descriptor has none for jobs. -/
theorem zones_destroyed_iff (live : Live tracking handed pool) (promised : Promised calls)
    (ran : exec sharedStep (fun _ => ⟨none, 0⟩) calls = some pool.shared) :
    ZonesDestroyed tracking pool calls ↔
      (tracking.tracker.mutex = false ∧
        (∀ user ∈ freedFirst pool, some user ∈ tracking.tracker.ptr) ∧
        ∀ worker ∈ pool.workers.present, Stoppable worker) ∧
      Tidy calls ∧
        (pool.poolingMode = .pureThreadPool → ∀ made ∈ allMade calls, made.kind ≠ .job) := by
  obtain ⟨keeps, ⟨rest, held⟩, formed⟩ := live
  have known : Known pool calls := ⟨promised, fun kind => standing_exec promised ran kind⟩
  rw [List.append_assoc] at held
  have ends := freeAll_returns_iff pool.address keeps held
  have zones : (∀ made ∈ allMade calls, DestroyedOnce pool made) ↔ Tidy calls ∧
      (pool.poolingMode = .pureThreadPool → ∀ made ∈ allMade calls, made.kind ≠ .job) := by
    have kinds : (∀ made ∈ allMade calls, DestroyedOnce pool made) ↔
        ∀ kind, ∀ made ∈ madeOf kind calls, DestroyedOnce pool made :=
      ⟨fun all kind made member => all made (mem_madeOf.mp member).1,
        fun all made member => all made.kind made (mem_madeOf.mpr ⟨member, rfl⟩)⟩
    have jobs : madeOf .job calls = [] ↔ ∀ made ∈ allMade calls, made.kind ≠ .job := by
      simp [madeOf]
    rw [kinds, tidy_iff, ← jobs]
    simp only [destroyedOnce_iff known, forall_and, forall_eq]
  rw [← zones]
  constructor
  · rintro ⟨after, effects, returned, once⟩
    obtain ⟨stoppable, freed, rfl⟩ := (destroyPool_iff keeps formed).mp returned
    obtain ⟨unlocked, listed⟩ := ends.mp ⟨after, freed⟩
    exact ⟨⟨unlocked, listed, stoppable⟩, once⟩
  · rintro ⟨⟨unlocked, listed, stoppable⟩, once⟩
    obtain ⟨after, freed⟩ := ends.mpr ⟨unlocked, listed⟩
    exact ⟨after, _, (destroyPool_iff keeps formed).mpr ⟨stoppable, freed, rfl⟩, once⟩

/-- The system lets the pool make a zone for tasks. -/
def oneZone : SharedCall := .init .task (some [47, 116]) ⟨some 3, true, some 65536⟩

private theorem oneZone_promised (sets : List (SetCall .task)) :
    Promised (oneZone :: sets.map (.set .task)) := by
  have all : allMade (oneZone :: sets.map (.set .task)) = [⟨.task, [47, 116], ⟨65536, 33024⟩⟩] := by
    have sets_ : (sets.map (SharedCall.set .task)).filterMap SharedCall.made = [] := by
      simp [List.filterMap_map, SharedCall.made, Function.comp_def]
    rw [allMade, List.filterMap_cons, sets_]
    rfl
  exact ⟨by rw [all]; decide, by rw [all]; exact List.pairwise_singleton _ _⟩

/-- A pool of one worker, whatever becomes of its shared data. -/
private theorem oneWorker_live : ∃ tracking handed pool,
    (∀ shared, Live tracking handed { pool with shared }) ∧ tracking.tracker.mutex = false ∧
      (∀ user ∈ freedFirst pool, some user ∈ tracking.tracker.ptr) ∧
      ∀ worker ∈ pool.workers.present, Stoppable worker := by
  have none_ : Keeps ⟨zeroTracker, ⟨fun _ => 0, []⟩⟩ [] :=
    keeps_reached (show exec step (start fun _ => 0) [] = some (start fun _ => 0) from rfl)
  obtain ⟨tracking, pool, obtained, ends⟩ : ∃ tracking pool,
      initPool ⟨zeroTracker, ⟨fun _ => 0, []⟩⟩ (oneWorker (some 7)) (.threading 1 (-1) 0) =
        some (tracking, some pool) ∧ tracking.tracker.mutex = false ∧
      (∀ user ∈ freedFirst pool, some user ∈ tracking.tracker.ptr) ∧
      ∀ worker ∈ pool.workers.present, Stoppable worker := by
    refine ⟨_, _, rfl, rfl, by decide, fun worker member => ?_⟩
    obtain rfl := List.mem_singleton.mp member
    exact ⟨rfl, _, rfl, rfl⟩
  obtain ⟨⟨handed, live⟩, _⟩ := live_constructed none_ rfl (oneWorker_placed (some 7)) obtained
  exact ⟨tracking, handed, pool, live_shared live, ends⟩

/-- A zone in which nothing was stored is destroyed with its pool. -/
theorem unused_zone_destroyed : ∃ tracking pool, ZonesDestroyed tracking pool [oneZone] := by
  obtain ⟨tracking, handed, pool, live, unlocked, listed, workers⟩ := oneWorker_live
  obtain ⟨shared, ran⟩ : ∃ shared,
      exec sharedStep (fun _ => ⟨none, 0⟩) [oneZone] = some shared := ⟨_, rfl⟩
  refine ⟨tracking, { pool with shared }, (zones_destroyed_iff (live shared)
    (oneZone_promised []) ran).mpr ⟨⟨unlocked, listed, workers⟩, List.pairwise_singleton _ _, ?_⟩⟩
  intro _ made member
  obtain rfl : made = ⟨.task, [47, 116], ⟨65536, 33024⟩⟩ := List.mem_singleton.mp member
  decide

/-- Once a value is stored in it, the zone outlives its pool. -/
theorem used_zone_survives :
    ¬ ∀ tracking handed pool calls, Live tracking handed pool → Promised calls →
      exec sharedStep (fun _ => ⟨none, 0⟩) calls = some pool.shared →
        ZonesDestroyed tracking pool calls := by
  intro always
  obtain ⟨tracking, handed, pool, live, -⟩ := oneWorker_live
  have promised := oneZone_promised [⟨1, .zero⟩]
  obtain ⟨shared, ran, counted⟩ : ∃ shared, exec sharedStep (fun _ => ⟨none, 0⟩)
      [oneZone, .set .task ⟨1, .zero⟩] = some shared ∧ (shared .task).count = 1 := ⟨_, rfl, rfl⟩
  obtain ⟨after, effects, returned, once⟩ := always tracking handed _ _ (live shared) promised ran
  obtain ⟨_, _, rfl⟩ := (destroyPool_iff (live shared).keeps (live shared).formed).mp returned
  have member : (⟨.task, [47, 116], ⟨65536, 33024⟩⟩ : Made) ∈
      allMade [oneZone, .set .task ⟨1, .zero⟩] := List.mem_singleton.mpr rfl
  have skipped : passedOver { pool with shared } .task = true := by
    simp [passedOver, counted, sharedIdProtectedZone]
  exact not_destroyed ⟨promised, fun kind => standing_exec promised ran kind⟩ member (Or.inl skipped)
    (once _ member)

end ShapeQuake.PoolZones
