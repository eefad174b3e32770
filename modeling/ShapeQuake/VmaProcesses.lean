import ShapeQuake.Vma
import ShapeQuake.Library.Runs
import Mathlib.Logic.Function.Basic

/-! Several processes that map one zone, each at an address of its own. A call
finds the zone through its pointer, but resets, unmaps and closes by what the
creator stored in the header, so what it does is right only where both agree. -/
namespace ShapeQuake.VmaProcesses
open Library.Bytes Library.Spans Library.Runs Vma

/-- How a zone was created: by whom, under which name, how large, and what
`shm_open` and `mmap` answered. -/
structure Creation where
  process : Nat
  name : List UInt8
  size : Nat
  fd : Nat
  base : Nat

/-- What `mmap` maps in. -/
def pageSize : Nat := 4096

/-- The bytes of the pages that hold this many. -/
def paged (size : Nat) : Nat := (size + (pageSize - 1)) / pageSize * pageSize

/-- The addresses at which a process has the zone, and the descriptor it opened
for it as long as that is open. -/
structure Mapping where
  span : Span
  fd : Option Nat
  deriving DecidableEq, Repr

/-- Something a process did, with what it had mapped at that time. -/
structure Entry where
  process : Nat
  own : Mapping
  effect : Effect
  deriving DecidableEq, Repr

/-- The zone, whether its name still leads to it, who maps it where, and what
was done so far, latest entry first. -/
structure System where
  zone : VmaZone
  linked : Bool
  mappings : Nat → Option Mapping
  log : List Entry

/-- A call by one process. -/
inductive Event where
  | attach (process size : Nat) (answers : Answers)
  | alloc (process size : Nat)
  | reset (process : Nat)
  | unmap (process : Nat)
  | destroy (process : Nat)
  deriving Repr

/-- An address that `mmap` may answer with. -/
def MmapAnswers (base : Nat) : Prop := pageSize ∣ base ∧ 0 < base ∧ base ≠ mapFailed

instance : Decidable (MmapAnswers base) := inferInstanceAs (Decidable (_ ∧ _))

/-- What an effect leaves of a mapping. A process without the first page of the
zone has lost it; of a mapping cut later, the part before the cut is left. -/
def Mapping.lose (own : Mapping) : Effect → Option Mapping
  | .unmapped span =>
    if own.span.start < span.start then
      some { own with span.size := min own.span.size (span.start - own.span.start) }
    else if own.span.start < span.start + span.size then none
    else some own
  | .closed fd => some { own with fd := own.fd.filter fun held => (held : Int) ≠ fd }
  | .accessed _ | .unlinked _ => some own

/-- A call of a process that maps the zone, with what it left in the header. -/
def called (creation : Creation) (system : System) (process : Nat) (own : Mapping)
    (zone : VmaZone) (effects : List Effect) : System :=
  { zone
    linked := system.linked && .unlinked creation.name ∉ effects
    mappings := Function.update system.mappings process (effects.foldlM Mapping.lose own)
    log := (effects.map fun effect => ⟨process, own, effect⟩).reverse ++ system.log }

/-- One call. Only `vma_attach` is for a process that does not map the zone, and
`shm_open` finds it as long as its name is linked. -/
def step (creation : Creation) (system : System) : Event → Option System
  | .attach process size answers =>
    if system.mappings process = none ∧ (answers.shmOpen.isSome → system.linked) ∧
        ∀ base ∈ answers.mmap, MmapAnswers base then
      match vmaAttach (some creation.name) size answers with
      | (some (base, fd), _) =>
        some { system with
          mappings := Function.update system.mappings process
            (some ⟨⟨base, paged size⟩, some fd⟩) }
      | (none, _) => some system
    else none
  | .alloc process size => (system.mappings process).map fun own =>
    let (zone, _, effects) := vmaAlloc own.span.start system.zone size
    called creation system process own zone effects
  | .reset process => (system.mappings process).map fun own =>
    let (zone, effects) := vmaReset own.span.start system.zone
    called creation system process own zone effects
  | .unmap process => (system.mappings process).map fun own =>
    called creation system process own system.zone (vmaUnmap own.span.start system.zone)
  | .destroy process => (system.mappings process).map fun own =>
    called creation system process own system.zone (vmaDestroy own.span.start system.zone)

/-- The system right after a `vma_create` that succeeded. -/
def created (creation : Creation) : Option System :=
  (vmaCreate (some creation.name) creation.size
      ⟨some creation.fd, true, some creation.base⟩).1.map fun zone =>
    { zone
      linked := true
      mappings := Function.update (fun _ => none) creation.process
        (some ⟨⟨creation.base, paged creation.size⟩, some creation.fd⟩)
      log := [] }

/-- The process stayed inside its own mapping, closed its own descriptor, and
unlinked the shared name only if it created the zone. -/
def Own (creation : Creation) (entry : Entry) : Prop :=
  match entry.effect with
  | .accessed span | .unmapped span => Within span entry.own.span
  | .closed fd => ∃ held ∈ entry.own.fd, (held : Int) = fd
  | .unlinked name => name = creation.name → entry.process = creation.process

/-- Every process has kept to what is its own. -/
def KeptToOwn (creation : Creation) (system : System) : Prop :=
  ∀ entry ∈ system.log, Own creation entry

/-- The caller's mapping covers the addresses at which the creator has the zone
behind its header, if there are any. -/
def CoversData (creation : Creation) (own : Mapping) : Prop :=
  creation.size ≤ sizeofVmaZone ∨
    Within ⟨creation.base + sizeofVmaZone, creation.size - sizeofVmaZone⟩ own.span

/-- The caller's mapping covers the addresses at which the creator has the zone,
and its descriptor is open and has the number of the creator's. -/
def SharesPlace (creation : Creation) (own : Mapping) : Prop :=
  Within ⟨creation.base, creation.size⟩ own.span ∧ own.fd = some creation.fd

/-- What a call must meet: a reset, that its caller has the data where the
creator has it; an unmap, that it has all of it there and a descriptor of the
same number; a destroy, that also the caller is the creator, unless the header
holds only the start of a longer name. -/
def Proper (creation : Creation) (system : System) : Event → Prop
  | .attach _ _ _ | .alloc _ _ => True
  | .reset process => ∀ own ∈ system.mappings process, CoversData creation own
  | .unmap process => ∀ own ∈ system.mappings process, SharesPlace creation own
  | .destroy process => ∀ own ∈ system.mappings process, SharesPlace creation own ∧
    (process = creation.process ∨ maxShmName ≤ creation.name.length)

/-! ## What stays -/

/-- What the header says as long as nobody writes into it but through a call. -/
def headerOf (creation : Creation) (offset : Nat) : VmaZone :=
  { fd := creation.fd, baseAddr := creation.base, capacity := creation.size, offset
    isMaster := true, name := storedName creation.name }

/-- A mapping starts with a page of its own that holds the header. -/
def HoldsHeader (mapping : Mapping) : Prop :=
  pageSize ∣ mapping.span.start ∧ sizeofVmaZone ≤ mapping.span.size

/-- What every call keeps, whoever makes it. -/
structure Sound (creation : Creation) (system : System) : Prop where
  header : ∃ offset, system.zone = headerOf creation offset
  mapped : ∀ process own, system.mappings process = some own → HoldsHeader own

theorem paged_holds (some_ : 0 < size) : sizeofVmaZone ≤ paged size := by
  simp only [sizeofVmaZone, paged, pageSize]
  omega

private theorem holds_lose (aligned : ∀ span, effect = .unmapped span → pageSize ∣ span.start)
    (holds : HoldsHeader own) (left : own.lose effect = some mapping) : HoldsHeader mapping := by
  cases effect with
  | unmapped span =>
    simp only [Mapping.lose] at left
    split at left
    · rename_i later
      obtain rfl := Option.some.inj left
      have whole := aligned span rfl
      obtain ⟨start, size⟩ := holds
      refine ⟨start, ?_⟩
      simp only [pageSize, sizeofVmaZone] at whole start size ⊢
      omega
    · split at left
      · cases left
      · exact Option.some.inj left ▸ holds
  | closed fd =>
    obtain rfl := Option.some.inj left
    exact holds
  | accessed span => exact Option.some.inj left ▸ holds
  | unlinked name => exact Option.some.inj left ▸ holds

private theorem holds_left {effects : List Effect}
    (aligned : ∀ span, .unmapped span ∈ effects → pageSize ∣ span.start)
    (holds : HoldsHeader own) (left : effects.foldlM Mapping.lose own = some mapping) :
    HoldsHeader mapping := by
  induction effects generalizing own with
  | nil => exact Option.some.inj left ▸ holds
  | cons effect rest ih =>
    rw [List.foldlM_cons] at left
    obtain ⟨middle, first, others⟩ := Option.bind_eq_some_iff.mp left
    exact ih (fun span later => aligned span (List.mem_cons_of_mem _ later))
      (holds_lose (fun span same => aligned span (same ▸ List.mem_cons_self)) holds first) others

/-- A call that leaves the header and unmaps whole pages keeps the system sound. -/
private theorem sound_called {creation : Creation} {system : System} {effects : List Effect}
    (sound : Sound creation system) (held : system.mappings process = some own)
    (header : ∃ offset, zone = headerOf creation offset)
    (aligned : ∀ span, .unmapped span ∈ effects → pageSize ∣ span.start) :
    Sound creation (called creation system process own zone effects) := by
  refine ⟨header, fun other mapping maps => ?_⟩
  simp only [called] at maps
  by_cases same : other = process
  · subst same
    rw [Function.update_self] at maps
    exact holds_left aligned (sound.mapped _ _ held) maps
  · rw [Function.update_of_ne same] at maps
    exact sound.mapped _ _ maps

/-- A call keeps to what is its own if each of its effects does. -/
private theorem kept_called {creation : Creation} {system : System} (kept : KeptToOwn creation system) :
    KeptToOwn creation (called creation system process own zone effects) ↔
      ∀ effect ∈ effects, Own creation ⟨process, own, effect⟩ := by
  simp only [KeptToOwn, called, List.mem_append, List.mem_reverse, List.mem_map]
  constructor
  · exact fun all effect member => all _ (.inl ⟨effect, member, rfl⟩)
  · rintro all entry (⟨effect, member, rfl⟩ | old)
    · exact all effect member
    · exact kept entry old

/-! ## What each call does -/

private theorem own_header (holds : HoldsHeader own) :
    Own creation ⟨process, own, .accessed (headerAt own.span.start)⟩ :=
  ⟨Nat.le_refl _, Nat.add_le_add_left holds.2 _⟩

private theorem reset_effects :
    (vmaReset pointer (headerOf creation offset)).2 = .accessed (headerAt pointer) ::
      if sizeofVmaZone < creation.size then
        [.accessed ⟨creation.base + sizeofVmaZone, creation.size - sizeofVmaZone⟩]
      else [] := by
  simp only [vmaReset, headerOf]
  by_cases more : sizeofVmaZone < creation.size
  · exact (if_pos more).trans (by rw [if_pos more]; rfl)
  · exact (if_neg more).trans (by rw [if_neg more])

private theorem own_reset (holds : HoldsHeader own) :
    (∀ effect ∈ (vmaReset own.span.start (headerOf creation offset)).2,
      Own creation ⟨process, own, effect⟩) ↔ CoversData creation own := by
  rw [reset_effects, List.forall_mem_cons, and_iff_right (own_header holds)]
  unfold CoversData
  split
  · rename_i more
    rw [List.forall_mem_singleton]
    exact ⟨.inr, fun covers => covers.resolve_left (Nat.not_le.mpr more)⟩
  · rename_i less
    exact iff_of_true nofun (.inl (Nat.not_lt.mp less))

private theorem unmap_effects (mapped : MmapAnswers creation.base) :
    vmaUnmap pointer (headerOf creation offset) =
      [.accessed (headerAt pointer), .unmapped ⟨creation.base, creation.size⟩,
        .closed creation.fd] := by
  have address : (headerOf creation offset).baseAddr ≠ 0 ∧
      (headerOf creation offset).baseAddr ≠ mapFailed := ⟨Nat.ne_of_gt mapped.2.1, mapped.2.2⟩
  have descriptor : (headerOf creation offset).fd ≠ -1 := by
    simp only [headerOf]
    omega
  simp only [vmaUnmap, if_pos address, if_pos descriptor]
  rfl

private theorem destroy_effects (mapped : MmapAnswers creation.base) :
    vmaDestroy pointer (headerOf creation offset) =
      [.accessed (headerAt pointer), .unlinked (storedName creation.name),
        .accessed (headerAt pointer), .unmapped ⟨creation.base, creation.size⟩,
        .closed creation.fd] := by
  rw [vmaDestroy, unmap_effects mapped]
  rfl

private theorem own_closed :
    Own creation ⟨process, own, .closed creation.fd⟩ ↔ own.fd = some creation.fd := by
  constructor
  · rintro ⟨held, open_, same⟩
    exact open_.trans (congrArg some (Int.ofNat.inj same))
  · exact fun same => ⟨creation.fd, same, rfl⟩

/-- The stored name is the shared one unless that is too long for the header. -/
private theorem own_unlinked :
    Own creation ⟨process, own, .unlinked (storedName creation.name)⟩ ↔
      process = creation.process ∨ maxShmName ≤ creation.name.length := by
  have stored : storedName creation.name = creation.name ↔ creation.name.length ≤ maxShmName - 1 :=
    List.take_eq_self_iff _
  simp only [Own, stored, maxShmName]
  omega

private theorem aligned_unmap (mapped : MmapAnswers creation.base) (span : Span)
    (member : .unmapped span ∈ vmaUnmap pointer (headerOf creation offset)) :
    pageSize ∣ span.start := by
  rw [unmap_effects mapped] at member
  simp only [List.mem_cons, reduceCtorEq, false_or, List.not_mem_nil, or_false] at member
  exact Effect.unmapped.inj member ▸ mapped.1

private theorem sound_step {creation : Creation} {system : System} (mapped : MmapAnswers creation.base)
    (sound : Sound creation system) (taken : step creation system event = some next) :
    Sound creation next := by
  obtain ⟨offset, header⟩ := sound.header
  cases event with
  | attach process size answers =>
    simp only [step, Option.ite_none_right_eq_some] at taken
    obtain ⟨⟨_, _, answered⟩, returned⟩ := taken
    split at returned
    · rename_i base fd _ attached
      obtain ⟨positive, _, address⟩ := vmaAttach_cases attached
      obtain rfl := Option.some.inj returned
      refine ⟨sound.header, fun other mapping maps => ?_⟩
      dsimp only at maps
      by_cases same : other = process
      · rw [same, Function.update_self] at maps
        obtain rfl := Option.some.inj maps
        exact ⟨(answered base address).1, paged_holds positive⟩
      · rw [Function.update_of_ne same] at maps
        exact sound.mapped other mapping maps
    · exact Option.some.inj returned ▸ sound
  | alloc process size =>
    obtain ⟨own, held, rfl⟩ := Option.map_eq_some_iff.mp taken
    refine sound_called sound held ?_ fun span member => nomatch List.mem_singleton.mp member
    obtain ⟨after, moved⟩ := internalVmaAlloc_header own.span.start system.zone size
    exact ⟨after, moved.trans (by rw [header]; rfl)⟩
  | reset process =>
    obtain ⟨own, held, rfl⟩ := Option.map_eq_some_iff.mp taken
    have aligned : ∀ span, .unmapped span ∈ (vmaReset own.span.start system.zone).2 →
        pageSize ∣ span.start := by
      intro span member
      rw [header, reset_effects] at member
      split at member
      · simp at member
      · simp at member
    exact sound_called sound held ⟨alignVma sizeofVmaZone, by rw [header]; rfl⟩ aligned
  | unmap process =>
    obtain ⟨own, held, rfl⟩ := Option.map_eq_some_iff.mp taken
    refine sound_called sound held ⟨offset, header⟩ fun span member => ?_
    exact aligned_unmap mapped span (header ▸ member)
  | destroy process =>
    obtain ⟨own, held, rfl⟩ := Option.map_eq_some_iff.mp taken
    refine sound_called sound held ⟨offset, header⟩ fun span member => ?_
    rw [header] at member
    simp only [vmaDestroy, headerOf, if_true, List.singleton_append, List.mem_cons, reduceCtorEq,
      false_or] at member
    exact aligned_unmap mapped span member

/-- A call keeps to what is its own exactly if it is a proper one. -/
private theorem kept_step {creation : Creation} {system : System} (mapped : MmapAnswers creation.base)
    (sound : Sound creation system) (kept : KeptToOwn creation system)
    (taken : step creation system event = some next) :
    KeptToOwn creation next ↔ Proper creation system event := by
  obtain ⟨offset, header⟩ := sound.header
  cases event with
  | attach process size answers =>
    simp only [step, Option.ite_none_right_eq_some] at taken
    obtain ⟨_, returned⟩ := taken
    split at returned
    · obtain rfl := Option.some.inj returned
      exact iff_of_true kept trivial
    · exact iff_of_true (Option.some.inj returned ▸ kept) trivial
  | alloc process size =>
    obtain ⟨own, held, rfl⟩ := Option.map_eq_some_iff.mp taken
    refine iff_of_true ((kept_called kept).mpr ?_) trivial
    exact List.forall_mem_singleton.mpr (own_header (sound.mapped _ _ held))
  | reset process =>
    obtain ⟨own, held, rfl⟩ := Option.map_eq_some_iff.mp taken
    simp only [Proper, held, Option.mem_some_iff, forall_eq']
    rw [kept_called kept, header]
    exact own_reset (sound.mapped _ _ held)
  | unmap process =>
    obtain ⟨own, held, rfl⟩ := Option.map_eq_some_iff.mp taken
    simp only [Proper, held, Option.mem_some_iff, forall_eq']
    rw [kept_called kept, header, unmap_effects mapped]
    simp only [List.forall_mem_cons, List.not_mem_nil, false_imp_iff, implies_true, and_true, own_closed,
      own_header (sound.mapped _ _ held), true_and]
    rfl
  | destroy process =>
    obtain ⟨own, held, rfl⟩ := Option.map_eq_some_iff.mp taken
    simp only [Proper, held, Option.mem_some_iff, forall_eq']
    rw [kept_called kept, header, destroy_effects mapped]
    simp only [List.forall_mem_cons, List.not_mem_nil, false_imp_iff, implies_true, and_true,
      own_closed, own_unlinked, own_header (sound.mapped _ _ held), true_and]
    exact and_comm.trans (and_congr_left' Iff.rfl)

private theorem created_sound (mapped : MmapAnswers creation.base)
    (made : created creation = some system) : Sound creation system ∧ system.log = [] := by
  obtain ⟨zone, returned, rfl⟩ := Option.map_eq_some_iff.mp made
  obtain ⟨positive, fd, base, opened, answered, rfl⟩ := vmaCreate_cases returned
  obtain rfl := Option.some.inj opened
  obtain rfl := Option.some.inj answered
  refine ⟨⟨⟨alignVma sizeofVmaZone, rfl⟩, fun process own maps => ?_⟩, rfl⟩
  dsimp only at maps
  by_cases same : process = creation.process
  · rw [same, Function.update_self] at maps
    obtain rfl := Option.some.inj maps
    exact ⟨mapped.1, paged_holds positive⟩
  · rw [Function.update_of_ne same] at maps
    cases maps

/-- Whoever attaches where and whatever is called in which order, all processes
keep to what is their own exactly if all resets, unmaps and destroys are proper:
made by a process that has the zone where its creator has it, under a descriptor
of the same number. -/
theorem keeps_to_own_iff (mapped : MmapAnswers creation.base) (made : created creation = some system)
    (events : List Event) :
    Throughout (step creation) (KeptToOwn creation) system events ↔
      EachStep (step creation) (Proper creation) system events := by
  obtain ⟨sound, quiet⟩ := created_sound mapped made
  have start : KeptToOwn creation system := by simp [KeptToOwn, quiet]
  exact throughout_iff_each_step (fun _ _ _ sound _ _ taken => sound_step mapped sound taken)
    (fun _ _ _ sound kept taken => kept_step mapped sound kept taken) sound start

instance : Decidable (Proper creation system event) := by
  unfold Proper CoversData SharesPlace
  cases event <;> infer_instance

/-- A zone of one page. -/
def onePage : Creation := ⟨0, [47, 113], 4096, 3, 65536⟩

/-- One process attaches elsewhere and only allocates; another one has the zone
where its creator has it, with a descriptor of the same number. -/
theorem same_place_stays_proper :
    ∃ system, created onePage = some system ∧
      Throughout (step onePage) (KeptToOwn onePage) system
        [.attach 1 4096 ⟨some 5, true, some 131072⟩, .alloc 1 100,
          .attach 2 8192 ⟨some 3, true, some 65536⟩, .reset 2, .alloc 1 48, .unmap 2, .destroy 0] :=
  ⟨_, rfl, (keeps_to_own_iff (show MmapAnswers 65536 by decide) rfl _).mpr (by decide)⟩

/-- A process that attached elsewhere resets the zone: it clears memory that is
not the zone's. -/
theorem attached_reset_strays :
    ∃ system, created onePage = some system ∧
      ¬ Throughout (step onePage) (KeptToOwn onePage) system
        [.attach 1 4096 ⟨some 5, true, some 131072⟩, .reset 1] := by
  refine ⟨_, rfl, fun throughout => ?_⟩
  have kept := (throughout.2 _ rfl).2 _ rfl
  have strayed : Within ⟨65648, 3984⟩ ⟨131072, 4096⟩ :=
    kept ⟨1, ⟨⟨131072, 4096⟩, some 5⟩, .accessed ⟨65648, 3984⟩⟩ (by decide)
  exact absurd strayed (by decide)

end ShapeQuake.VmaProcesses
