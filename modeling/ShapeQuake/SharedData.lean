import ShapeQuake.Vma
import ShapeQuake.Library.Runs

/-! The shared data of a pool, one zone for tasks and one for jobs. A slot is
found by indexing from the base of the zone, but a value is stored wherever the
zone's next free bytes are, so a slot shows parts of the values that two
successive calls stored, whatever ids they were given. -/
namespace ShapeQuake.SharedData
open Library.Bytes Library.Spans Library.Runs Vma

/-- `SHARED_ID_START_AT`. -/
def sharedIdStartAt : Int := 1

/-- `SHARED_ID_PROTECTED_ZONE`. -/
def sharedIdProtectedZone : Int := 0

/-- `MAX_SHARED_TASK_DATA`, which is also `MAX_SHARED_JOB_DATA`. -/
def maxSharedData : Nat := 16

/-- What a zone holds: data of tasks or of jobs. -/
inductive Kind where
  | task
  | job
  deriving DecidableEq, Repr

/-- `sizeof(shared_task_data_t)` and `sizeof(shared_job_data_t)`. -/
def Kind.size : Kind → Nat
  | .task => 2064
  | .job => 2072

/-- The bytes of one shared value. -/
structure Value (kind : Kind) where
  bytes : List UInt8
  whole : bytes.length = kind.size

/-- The value of memory nobody wrote to. -/
def Value.zero : Value kind := ⟨List.replicate kind.size 0, List.length_replicate⟩

/-- A zone of a pool: its header and what lies at each distance from its base. -/
structure SharedZone where
  zone : VmaZone
  data : Store

/-- The fields of `pool_t` about one zone: the pointer and the counter. -/
structure Shared where
  zone : Option SharedZone
  count : Int

/-- `init_shared_task_data` and `init_shared_job_data`. -/
def initShared (kind : Kind) (shared : Shared) (shmname : Option (List UInt8)) (answers : Answers) :
    Shared :=
  match shmname with
  | none => shared
  | some shmname =>
    let totalSize := kind.size * maxSharedData
    match (vmaCreate (some (storedName shmname)) totalSize answers).1 with
    | none => { shared with zone := none }
    | some zone =>
      let (zone, arrayRack, _) := vmaAlloc zone.baseAddr zone totalSize
      { zone := some ⟨zone, zeros⟩
        count := if arrayRack.isSome then sharedIdStartAt else shared.count }

/-- `init_shared_task_data`. -/
def initSharedTaskData := initShared .task

/-- `init_shared_job_data`. -/
def initSharedJobData := initShared .job

/-- `get_shared_task_slot` and `get_shared_job_slot`: the address of the slot. -/
def getSharedSlot (kind : Kind) (shared : Shared) (sharedId : Int) : Option Nat :=
  match shared.zone with
  | none => none
  | some held =>
    if held.zone.baseAddr = 0 then none
    else if sharedIdStartAt > sharedId ∨ sharedId > maxSharedData then none
    else some (held.zone.baseAddr + kind.size * sharedId.toNat)

/-- `get_shared_task_slot`. -/
def getSharedTaskSlot := getSharedSlot .task

/-- `get_shared_job_slot`. -/
def getSharedJobSlot := getSharedSlot .job

/-- What a setter does once it accepts its arguments. A zone that is used up
answers with a null pointer, which `memcpy` does not survive. -/
def storeShared (shared : Shared) (held : SharedZone) (value : Value kind) : Option Shared :=
  let (zone, sd, _) := vmaAlloc held.zone.baseAddr held.zone kind.size
  sd.map fun sd =>
    { zone := some ⟨zone, writeBytes held.data (sd - held.zone.baseAddr) value.bytes⟩
      count := shared.count + 1 }

/-- `set_shared_task_data`. -/
def setSharedTaskData (shared : Shared) (sharedId : Int) (value : Value .task) : Option Shared :=
  match shared.zone with
  | none => some shared
  | some held =>
    if held.zone.baseAddr = 0 then some shared
    else if sharedIdStartAt > sharedId ∨ sharedId > maxSharedData then some shared
    else storeShared shared held value

/-- `set_shared_job_data`, which looks at no id. -/
def setSharedJobData (shared : Shared) (_sharedId : Int) (value : Value .job) : Option Shared :=
  match shared.zone with
  | none => some shared
  | some held => if held.zone.baseAddr = 0 then some shared else storeShared shared held value

/-- A call of a setter. -/
structure SetCall (kind : Kind) where
  sharedId : Int
  value : Value kind

/-- The setter for a kind of data. -/
def setShared : (kind : Kind) → Shared → SetCall kind → Option Shared
  | .task, shared, set => setSharedTaskData shared set.sharedId set.value
  | .job, shared, set => setSharedJobData shared set.sharedId set.value

/-! ## What the slots promise -/

/-- The value last set for an id, or zeros. -/
def lastSet (sets : List (SetCall kind)) (sharedId : Int) : Value kind :=
  ((sets.reverse.find? (·.sharedId = sharedId)).map SetCall.value).getD .zero

/-- The addresses of the slot for an id. -/
def slotAt (kind : Kind) (address : Nat) : Span := ⟨address, kind.size⟩

/-- All calls return; then the slot of the id lies in the zone behind its header,
shares no byte with another slot, and holds what was last set for the id. -/
def SlotSound (kind : Kind) (start : Shared) (sets : List (SetCall kind)) (sharedId : Int) : Prop :=
  ∃ final held slot, exec (setShared kind) start sets = some final ∧ final.zone = some held ∧
    getSharedSlot kind final sharedId = some slot ∧
    Within (slotAt kind slot) ⟨held.zone.baseAddr, held.zone.capacity⟩ ∧
    Apart (headerAt held.zone.baseAddr) (slotAt kind slot) ∧
    (∀ other place, other ≠ sharedId → getSharedSlot kind final other = some place →
      Apart (slotAt kind place) (slotAt kind slot)) ∧
    readBytes held.data (slot - held.zone.baseAddr) kind.size = (lastSet sets sharedId).bytes

/-- How far apart a zone hands out values of this kind. -/
def Kind.stride (kind : Kind) : Nat := alignVma kind.size

/-- The setter for this kind stores something for the id. -/
def accepts : Kind → Int → Bool
  | .task, sharedId => sharedIdStartAt ≤ sharedId ∧ sharedId ≤ maxSharedData
  | .job, _ => true

/-- The values that are stored, in the order of the calls. -/
def stored (sets : List (SetCall kind)) : List (Value kind) :=
  (sets.filter fun set => accepts kind set.sharedId).map SetCall.value

/-- How many bytes of the value before it a slot does not show. -/
def hidden (kind : Kind) (sharedId : Nat) : Nat :=
  kind.size * sharedId - alignVma sizeofVmaZone - kind.stride * (sharedId - 1)

/-- The slot for an id as it comes out: the end of one stored value, the bytes
between values, and the start of the next one. -/
def pieced (values : List (Value kind)) (sharedId : Nat) : List UInt8 :=
  (values.getD (sharedId - 1) .zero).bytes.drop (hidden kind sharedId) ++
    (List.replicate (kind.stride - kind.size) 0 ++
      (values.getD sharedId .zero).bytes.take
        (hidden kind sharedId - (kind.stride - kind.size)))

/-! ## How values are laid out -/

@[simp] theorem stride_task : Kind.stride .task = 2064 := by decide

@[simp] theorem stride_job : Kind.stride .job = 2080 := by decide

theorem size_le_stride (kind : Kind) : kind.size ≤ kind.stride := by
  cases kind <;> decide

/-- How many values fit into a zone. -/
def roomFor : Nat := 15

/-- A zone into which these values were stored, one after the other. -/
structure Laid (shared : Shared) (base : Nat) (values : List (Value kind)) : Prop where
  fits : values.length ≤ roomFor
  held : ∃ held, shared.zone = some held ∧ held.zone.baseAddr = base ∧
    held.zone.capacity = kind.size * maxSharedData ∧
    held.zone.offset = alignVma sizeofVmaZone + kind.stride * values.length ∧
    ∀ k j, j < kind.stride → held.data (alignVma sizeofVmaZone + kind.stride * k + j) =
      (values.getD k .zero).bytes.getD j 0

@[simp] private theorem zero_getD (j : Nat) : (Value.zero : Value kind).bytes.getD j 0 = 0 := by
  simp [Value.zero]

/-- The header of a zone that was just made. -/
def freshHeader (kind : Kind) (shmname : List UInt8) (fd base : Nat) : VmaZone :=
  { fd, baseAddr := base, capacity := kind.size * maxSharedData, offset := alignVma sizeofVmaZone
    isMaster := true, name := storedName (storedName shmname) }

/-- The first allocation asks for as much as the zone has, and is refused. -/
private theorem rack_refused (kind : Kind) :
    internalVmaAlloc base (freshHeader kind shmname fd base) (kind.size * maxSharedData) =
      (freshHeader kind shmname fd base, none) := by
  simp only [internalVmaAlloc, freshHeader]
  exact if_pos (by cases kind <;> decide)

/-- An initialisation that finds its memory leaves an untouched zone, and the
counter as it was. -/
theorem initShared_made {shared : Shared}
    (made : initShared kind shared (some shmname) answers = start) (held : start.zone = some zone) :
    ∃ fd base, answers.shmOpen = some fd ∧ answers.mmap = some base ∧
      zone = ⟨freshHeader kind shmname fd base, zeros⟩ ∧ start.count = shared.count := by
  simp only [initShared] at made
  split at made
  · rw [← made] at held
    cases held
  · rename_i header created
    obtain ⟨_, fd, base, opened, mapped, same⟩ := vmaCreate_cases created
    have fresh : header = freshHeader kind shmname fd base := same
    rw [fresh, vmaAlloc, show (freshHeader kind shmname fd base).baseAddr = base from rfl,
      rack_refused kind] at made
    subst made
    exact ⟨fd, base, opened, mapped, (Option.some.inj held).symm, rfl⟩

/-- Nothing is stored in a zone that was just made. -/
theorem laid_init {shared : Shared} (made : initShared kind shared (some shmname) answers = start)
    (held : start.zone = some zone) : Laid start zone.zone.baseAddr ([] : List (Value kind)) := by
  obtain ⟨fd, base, _, _, rfl, _⟩ := initShared_made made held
  refine ⟨Nat.zero_le _, _, held, rfl, rfl, by simp [freshHeader],
    fun k j _ => (zero_getD j).symm⟩

/-- Nothing of a value of a zone is at the place of another one. -/
private theorem place_apart {first second : Nat} (different : first ≠ second) (inside : j < stride)
    (size : length ≤ stride) :
    base + stride * first + j < base + stride * second ∨
      base + stride * second + length ≤ base + stride * first + j := by
  rcases Nat.lt_or_gt_of_ne different with less | more
  · have := Nat.mul_le_mul_left stride (Nat.succ_le_of_lt less)
    rw [Nat.mul_succ] at this
    omega
  · have := Nat.mul_le_mul_left stride (Nat.succ_le_of_lt more)
    rw [Nat.mul_succ] at this
    omega

/-- The sum for the next value does not wrap. -/
private theorem next_offset (kind : Kind) (count : Nat) (fits : count ≤ roomFor) :
    wrap64 (alignVma sizeofVmaZone + kind.stride * count + kind.stride) =
      alignVma sizeofVmaZone + kind.stride * (count + 1) := by
  simp only [roomFor] at fits
  rw [wrap64_of_lt (by cases kind <;> simp <;> omega), Nat.mul_succ, Nat.add_assoc]

/-- Whether the next value still fits. -/
private theorem room_iff (kind : Kind) (count : Nat) :
    alignVma sizeofVmaZone + kind.stride * (count + 1) ≤ kind.size * maxSharedData ↔
      count < roomFor := by
  cases kind <;> simp [Kind.size, maxSharedData, roomFor] <;> omega

/-- A setter that stores puts the value behind those that were stored, as long
as the zone has room, and does not return once it is used up. -/
theorem laid_store {shared : Shared} {values : List (Value kind)} (laid : Laid shared base values)
    (value : Value kind) (zone : shared.zone = some held) :
    if values.length < roomFor then
      ∃ next, storeShared shared held value = some next ∧ Laid next base (values ++ [value])
    else storeShared shared held value = none := by
  obtain ⟨fits, other, same, rfl, capacity, offset, data⟩ := laid
  obtain rfl := Option.some.inj (zone.symm.trans same)
  have room := room_iff kind values.length
  have moved : wrap64 (held.zone.offset + alignVma kind.size) =
      alignVma sizeofVmaZone + kind.stride * (values.length + 1) :=
    offset ▸ next_offset kind values.length fits
  simp only [storeShared, vmaAlloc]
  generalize allocated : internalVmaAlloc held.zone.baseAddr held.zone kind.size = outcome
  obtain ⟨after, sd⟩ := outcome
  rcases internalVmaAlloc_cases allocated with ⟨rfl, rfl, full⟩ | ⟨rfl, rfl, inside⟩
  · rw [moved, capacity] at full
    rw [if_neg (fun less => Nat.not_lt.mpr (room.mpr less) full)]
    rfl
  · rw [moved, capacity] at inside
    have less := room.mp inside
    rw [if_pos less]
    refine ⟨_, rfl, by simpa using Nat.succ_le_of_lt less, _, rfl, rfl, capacity, ?_, ?_⟩
    · simpa using moved
    · intro k j place
      simp only [Nat.add_sub_cancel_left, offset]
      have whole : value.bytes.length ≤ kind.stride := value.whole ▸ size_le_stride kind
      by_cases last : k = values.length
      · subst last
        rw [List.getD_append_right _ _ _ _ (Nat.le_refl _), Nat.sub_self, List.getD_cons_zero]
        by_cases inBytes : j < value.bytes.length
        · simp only [writeBytes, Nat.add_sub_cancel_left]
          exact if_pos (by omega)
        · rw [writeBytes_outside (by omega), data _ _ place,
            List.getD_eq_default _ _ (Nat.le_refl _), zero_getD,
            List.getD_eq_default _ _ (Nat.not_lt.mp inBytes)]
      · rw [writeBytes_outside (place_apart last place whole), data k j place]
        congr 2
        rcases Nat.lt_or_gt_of_ne last with old | later
        · rw [List.getD_append _ _ _ _ old]
        · rw [List.getD_eq_default _ _ (by omega), List.getD_eq_default _ _ (by simp; omega)]

/-- A call that stores nothing leaves the zone as it is. -/
theorem setShared_refused {shared : Shared} (zone : shared.zone = some held)
    (address : held.zone.baseAddr ≠ 0) (set : SetCall kind)
    (refused : accepts kind set.sharedId = false) : setShared kind shared set = some shared := by
  cases kind with
  | task =>
    simp only [accepts, decide_eq_false_iff_not] at refused
    simp only [setShared, setSharedTaskData, zone]
    rw [if_neg address, if_pos (by omega)]
  | job => cases refused

/-- A call that stores something stores it in the zone. -/
theorem setShared_accepted {shared : Shared} (zone : shared.zone = some held)
    (address : held.zone.baseAddr ≠ 0) (set : SetCall kind)
    (accepted : accepts kind set.sharedId = true) :
    setShared kind shared set = storeShared shared held set.value := by
  cases kind with
  | task =>
    simp only [accepts, decide_eq_true_eq] at accepted
    simp only [setShared, setSharedTaskData, zone]
    rw [if_neg address, if_neg (by omega)]
  | job =>
    simp only [setShared, setSharedJobData, zone]
    rw [if_neg address]

/-- A run of calls returns exactly if all it stores fits, and then it has stored
just that. -/
theorem laid_exec {shared : Shared} {values : List (Value kind)}
    (laid : Laid shared base values) (address : base ≠ 0) (sets : List (SetCall kind)) :
    if (values ++ stored sets).length ≤ roomFor then
      ∃ final, exec (setShared kind) shared sets = some final ∧ Laid final base (values ++ stored sets)
    else exec (setShared kind) shared sets = none := by
  induction sets generalizing shared values with
  | nil =>
    have none_ : values ++ stored ([] : List (SetCall kind)) = values := by simp [stored]
    rw [none_, if_pos laid.fits]
    exact ⟨shared, rfl, laid⟩
  | cons set rest ih =>
    cases accepted : accepts kind set.sharedId with
    | false =>
      have same : stored (set :: rest) = stored rest := by simp [stored, accepted]
      obtain ⟨held, zone, base, _⟩ := laid.held
      simp only [exec, setShared_refused zone (base ▸ address) set accepted, Option.bind_some, same]
      exact ih laid
    | true =>
      have more : values ++ stored (set :: rest) = values ++ [set.value] ++ stored rest := by
        simp [stored, accepted]
      obtain ⟨held, zone, base, _⟩ := laid.held
      have step := laid_store laid set.value zone
      rw [← setShared_accepted zone (base ▸ address) set accepted] at step
      split at step
      · obtain ⟨next, taken, after⟩ := step
        simp only [exec, taken, Option.bind_some, more]
        exact ih after
      · rename_i full
        rw [if_neg (by rw [more]; simp; omega)]
        simp [exec, step]

/-! ## What a slot shows -/

/-- Where the slot of an id starts among the places for values. -/
private theorem slot_start (kind : Kind) (first : 1 ≤ sharedId) (last : sharedId ≤ maxSharedData) :
    kind.size * sharedId =
      alignVma sizeofVmaZone + kind.stride * (sharedId - 1) + hidden kind sharedId ∧
    kind.stride * sharedId = kind.stride * (sharedId - 1) + kind.stride ∧
    hidden kind sharedId ≤ kind.size ∧ kind.stride - kind.size ≤ hidden kind sharedId := by
  simp only [maxSharedData] at last
  cases kind <;> simp [hidden, Kind.size] <;> omega

/-- A slot shows the end of one stored value and the start of the next one. -/
theorem slot_pieced {values : List (Value kind)} {data : Store}
    (laid : ∀ k j, j < kind.stride → data (alignVma sizeofVmaZone + kind.stride * k + j) =
      (values.getD k .zero).bytes.getD j 0)
    (first : 1 ≤ sharedId) (last : sharedId ≤ maxSharedData) :
    readBytes data (kind.size * sharedId) kind.size = pieced values sharedId := by
  obtain ⟨start, next, most, least⟩ := slot_start kind first last
  have size := size_le_stride kind
  have before := laid (sharedId - 1)
  have behind := laid sharedId
  unfold pieced
  generalize values.getD (sharedId - 1) .zero = earlier at before
  generalize values.getD sharedId .zero = later at behind
  have whole := earlier.whole
  have wholeLater := later.whole
  have ends : (earlier.bytes.drop (hidden kind sharedId)).length = kind.size - hidden kind sharedId := by
    rw [List.length_drop, whole]
  generalize shown : earlier.bytes.drop (hidden kind sharedId) ++
    (List.replicate (kind.stride - kind.size) 0 ++
      later.bytes.take (hidden kind sharedId - (kind.stride - kind.size))) = pieces
  have count : pieces.length = kind.size := by
    rw [← shown, List.length_append, ends, List.length_append, List.length_replicate,
      List.length_take, wholeLater]
    omega
  rw [← count]
  apply readBytes_eq
  intro i inside
  rw [count] at inside
  rw [count, start, ← shown]
  by_cases inEarlier : i < kind.size - hidden kind sharedId
  · rw [Nat.add_assoc, before _ (by omega), List.getD_append _ _ _ _ (by omega)]
    simp
  rw [List.getD_append_right _ _ _ _ (by omega), ends]
  by_cases between : i < kind.stride - hidden kind sharedId
  · rw [Nat.add_assoc, before _ (by omega), List.getD_eq_default _ _ (by omega),
      List.getD_append _ _ _ _ (by rw [List.length_replicate]; omega)]
    simp
  · -- behind the bytes between values the next value starts
    have place : alignVma sizeofVmaZone + kind.stride * (sharedId - 1) + hidden kind sharedId + i =
        alignVma sizeofVmaZone + kind.stride * sharedId +
          (hidden kind sharedId + i - kind.stride) := by omega
    rw [place, behind _ (by omega),
      List.getD_append_right _ _ _ _ (by rw [List.length_replicate]; omega), List.length_replicate]
    have index : i - (kind.size - hidden kind sharedId) - (kind.stride - kind.size) =
        hidden kind sharedId + i - kind.stride := by omega
    rw [index, List.getD_eq_getElem?_getD, List.getD_eq_getElem?_getD,
      List.getElem?_take_of_lt (by omega)]

/-- A slot for a task misses the header's length of one value and shows the next
value up to there. -/
theorem pieced_task (values : List (Value .task)) (first : 1 ≤ sharedId) :
    pieced values sharedId = (values.getD (sharedId - 1) .zero).bytes.drop 1952 ++
      (values.getD sharedId .zero).bytes.take 1952 := by
  have hides : hidden .task sharedId = 1952 := by
    simp [hidden, Kind.size]
    omega
  rw [pieced, hides]
  rfl

/-- An id that a getter accepts, and the slot it returns. -/
theorem getSharedSlot_eq_some : getSharedSlot kind shared sharedId = some slot ↔
    ∃ held, shared.zone = some held ∧ held.zone.baseAddr ≠ 0 ∧ sharedIdStartAt ≤ sharedId ∧
      sharedId ≤ maxSharedData ∧ slot = held.zone.baseAddr + kind.size * sharedId.toNat := by
  unfold getSharedSlot
  cases shared.zone with
  | none => simp
  | some held =>
    simp only [Option.some.injEq, exists_eq_left']
    split
    · simp_all
    · split
      · simp only [reduceCtorEq, false_iff]
        omega
      · simp only [Option.some.injEq]
        constructor
        · rintro rfl
          exact ⟨‹_›, by omega, by omega, rfl⟩
        · exact fun found => found.2.2.2.symm

/-- Different elements of an array share no byte. -/
private theorem elements_apart (kind : Kind) {first second : Nat} (different : first ≠ second) :
    Apart (slotAt kind (base + kind.size * first)) (slotAt kind (base + kind.size * second)) := by
  simp only [Apart, slotAt]
  rcases Nat.lt_or_gt_of_ne different with less | more
  · have := Nat.mul_le_mul_left kind.size (Nat.succ_le_of_lt less)
    rw [Nat.mul_succ] at this
    omega
  · have := Nat.mul_le_mul_left kind.size (Nat.succ_le_of_lt more)
    rw [Nat.mul_succ] at this
    omega

/-- The slot that a getter returns stays the same, and after calls that all
return it shows the pieces of what they stored. -/
theorem exec_shows {shared : Shared} (made : initShared kind shared (some shmname) answers = start)
    (found : getSharedSlot kind start sharedId = some slot) (sets : List (SetCall kind)) :
    if (stored sets).length ≤ roomFor then
      ∃ final held, exec (setShared kind) start sets = some final ∧ final.zone = some held ∧
        getSharedSlot kind final sharedId = some slot ∧
        held.zone.capacity = kind.size * maxSharedData ∧
        readBytes held.data (slot - held.zone.baseAddr) kind.size =
          pieced (stored sets) sharedId.toNat
    else exec (setShared kind) start sets = none := by
  obtain ⟨zone, held, address, first, last, rfl⟩ := getSharedSlot_eq_some.mp found
  have run := laid_exec (laid_init made held) address sets
  rw [List.nil_append] at run
  split at run
  · rename_i fits
    rw [if_pos fits]
    obtain ⟨final, ran, _, after, zoneAfter, base, capacity, _, data⟩ := run
    refine ⟨final, after, ran, zoneAfter,
      getSharedSlot_eq_some.mpr ⟨after, zoneAfter, base ▸ address, first, last, by rw [base]⟩,
      capacity, ?_⟩
    rw [base, Nat.add_sub_cancel_left]
    simp only [sharedIdStartAt] at first
    exact slot_pieced data (by omega) (by omega)
  · rename_i full
    rwa [if_neg full]

/-- Whatever was set, a slot is sound exactly if no more values were stored than
fit, the id is not the last one, and the pieces of values that lie there happen
to be what was last set for the id. -/
theorem slot_sound_iff {shared : Shared} (made : initShared kind shared (some shmname) answers = start)
    (accepted : (getSharedSlot kind start sharedId).isSome) (sets : List (SetCall kind)) :
    SlotSound kind start sets sharedId ↔
      (stored sets).length ≤ roomFor ∧ sharedId < maxSharedData ∧
        pieced (stored sets) sharedId.toNat = (lastSet sets sharedId).bytes := by
  obtain ⟨slot, found⟩ := Option.isSome_iff_exists.mp accepted
  have run := exec_shows made found sets
  split at run
  case isFalse full =>
    refine iff_of_false ?_ fun fits => full fits.1
    rintro ⟨final, _, _, ran, _⟩
    exact nomatch run.symm.trans ran
  case isTrue fits =>
    obtain ⟨final, held, ran, zone, foundAfter, capacity, shown⟩ := run
    obtain ⟨other, zoneOther, _, first, last, rfl⟩ := getSharedSlot_eq_some.mp foundAfter
    obtain rfl := Option.some.inj (zone.symm.trans zoneOther)
    simp only [sharedIdStartAt] at first
    have inZone : kind.size * sharedId.toNat + kind.size ≤ kind.size * maxSharedData ↔
        sharedId < maxSharedData := by
      rw [← Nat.mul_succ, Nat.mul_le_mul_left_iff (by cases kind <;> decide)]
      omega
    constructor
    · rintro ⟨final, other, place, ranOther, zoneOther, foundOther, inside, _, _, value⟩
      obtain rfl := Option.some.inj (ran.symm.trans ranOther)
      obtain rfl := Option.some.inj (zone.symm.trans zoneOther)
      obtain rfl := Option.some.inj (foundAfter.symm.trans foundOther)
      simp only [Within, slotAt, capacity] at inside
      exact ⟨fits, inZone.mp (by omega), shown.symm.trans value⟩
    · rintro ⟨_, less, value⟩
      refine ⟨final, held, _, ran, zone, foundAfter, ?_, ?_, ?_, shown.trans value⟩
      · have := inZone.mpr less
        exact ⟨Nat.le_add_right _ _, by simp only [slotAt, capacity]; omega⟩
      · have behind : kind.size * 1 ≤ kind.size * sharedId.toNat :=
          Nat.mul_le_mul_left _ (by omega)
        apply Or.inl
        simp only [headerAt, slotAt, sizeofVmaZone]
        cases kind <;> simp only [Kind.size] at behind ⊢ <;> omega
      · intro other place different foundOther
        obtain ⟨_, zoneOther, _, firstOther, _, rfl⟩ := getSharedSlot_eq_some.mp foundOther
        obtain rfl := Option.some.inj (zone.symm.trans zoneOther)
        simp only [sharedIdStartAt] at firstOther
        exact elements_apart kind (by omega)

/-- A value all of whose bytes are the same. -/
def Value.filled (kind : Kind) (byte : UInt8) : Value kind :=
  ⟨List.replicate kind.size byte, List.length_replicate⟩

/-- The zone of a pool for tasks, just made. -/
def someTaskZone : Shared :=
  initSharedTaskData ⟨none, 0⟩ (some [47, 116]) ⟨some 3, true, some 65536⟩

private theorem someTaskZone_made :
    initShared .task ⟨none, 0⟩ (some [47, 116]) ⟨some 3, true, some 65536⟩ = someTaskZone := rfl

/-- One value of equal bytes, set twice. -/
theorem same_value_twice_sound :
    SlotSound .task someTaskZone [⟨1, .filled .task 7⟩, ⟨1, .filled .task 7⟩] 1 := by
  have pieces : pieced [Value.filled .task 7, Value.filled .task 7] 1 =
      (Value.filled .task 7).bytes := by
    rw [pieced_task _ (Nat.le_refl 1)]
    simp only [Nat.sub_self, List.getD_cons_zero, List.getD_cons_succ, Value.filled,
      List.drop_replicate, List.take_replicate, List.replicate_append_replicate]
    congr 1
  exact (slot_sound_iff someTaskZone_made (by decide) _).mpr ⟨by decide, by decide, pieces⟩

/-- The first value that is set for a task is not where its slot is. -/
theorem first_value_misplaced :
    ¬ SlotSound .task someTaskZone [⟨1, .filled .task 7⟩] 1 := by
  rintro ⟨final, held, slot, ran, zone, found, _, _, _, value⟩
  have slot_one : getSharedSlot .task someTaskZone 1 = some 67600 := rfl
  have run := exec_shows someTaskZone_made slot_one [⟨1, .filled .task 7⟩]
  rw [if_pos (by decide)] at run
  obtain ⟨other, otherHeld, ranOther, zoneOther, foundOther, _, shown⟩ := run
  obtain rfl := Option.some.inj (ran.symm.trans ranOther)
  obtain rfl := Option.some.inj (zone.symm.trans zoneOther)
  obtain rfl := Option.some.inj (found.symm.trans foundOther)
  have behind : ([Value.filled .task 7].getD 1 .zero).bytes.take 1952 = List.replicate 1952 0 := by
    simp only [List.getD_cons_succ, List.getD_nil, Value.zero, List.take_replicate]
    congr 1
  have zero : (0 : UInt8) ∈ pieced [Value.filled .task 7] 1 := by
    rw [pieced_task _ (Nat.le_refl 1), behind]
    exact List.mem_append_right _ (List.mem_replicate.mpr ⟨by decide, rfl⟩)
  have seven : (0 : UInt8) ∈ (Value.filled .task 7).bytes := (shown.symm.trans value) ▸ zero
  exact absurd (List.mem_replicate.mp seven).2 (by decide)

end ShapeQuake.SharedData
