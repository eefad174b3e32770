import ShapeQuake.Library.Runs
import ShapeQuake.Vma

/-! The bytes of a zone, where the process that created it has them. The header is part of
the memory that is handed out behind it, and `vma_reset` finds what it clears through the
address and the capacity that the header holds. -/
namespace ShapeQuake.VmaZones
open Library.Bytes Library.Spans Library.Runs Vma

/-! ## The header in memory -/

/-- Where the fields of a `vma_zone_t` are in it. -/
def fdField : Nat := 0
def baseAddrField : Nat := 8
def capacityField : Nat := 16
def offsetField : Nat := 24
def isMasterField : Nat := 32
def nameField : Nat := 33
def mutexField : Nat := 72

/-- What is reserved for the header. -/
def metaReserved : Nat := alignVma sizeofVmaZone

@[simp] theorem metaReserved_eq : metaReserved = 112 := alignVma_sizeofVmaZone

def baseAddrAt (memory : Store) (zone : Nat) : Nat := readWord memory (zone + baseAddrField) 8

def capacityAt (memory : Store) (zone : Nat) : Nat := readWord memory (zone + capacityField) 8

def offsetAt (memory : Store) (zone : Nat) : Nat := readWord memory (zone + offsetField) 8

def setOffset (memory : Store) (zone offset : Nat) : Store :=
  writeWord memory (zone + offsetField) 8 offset

/-- The header that a pointer to a zone points to. -/
def zoneAt (memory : Store) (zone : Nat) : VmaZone :=
  { fd := (BitVec.ofNat 32 (readWord memory (zone + fdField) 4)).toInt
    baseAddr := baseAddrAt memory zone
    capacity := capacityAt memory zone
    offset := offsetAt memory zone
    isMaster := readWord memory (zone + isMasterField) 1 ≠ 0
    name := untilNull (readBytes memory (zone + nameField) maxShmName) }

/-- What `strncpy` stores of a name in `size` bytes. -/
def strncpyBytes (name : List UInt8) (size : Nat) : List UInt8 :=
  name.take size ++ List.replicate (size - name.length) 0

/-- What `vma_create` stores at the address that `mmap` has answered. With `pshared` set,
`vma_init` stores a mutex, whose bytes are given. -/
def createIn (memory : Store) (name : List UInt8) (size fd base : Nat) (mutex : Option (List UInt8)) :
    Store :=
  let memory := clearBytes memory base size
  let memory := writeWord memory (base + fdField) 4 fd
  let memory := writeWord memory (base + baseAddrField) 8 base
  let memory := writeWord memory (base + capacityField) 8 size
  let memory := setOffset memory base metaReserved
  let memory := writeWord memory (base + isMasterField) 1 1
  let memory := writeBytes memory (base + mutexField) (mutex.getD [])
  let memory := writeBytes memory (base + nameField) (strncpyBytes name (maxShmName - 1))
  writeBytes memory (base + nameField + (maxShmName - 1)) [0]

/-- `vma_alloc`. The mutex is released as it was taken. -/
def allocIn (memory : Store) (zone size : Nat) : Store × Option Nat :=
  let aligned := alignVma size
  if wrap64 (offsetAt memory zone + aligned) > capacityAt memory zone then (memory, none)
  else
    (setOffset memory zone (wrap64 (offsetAt memory zone + aligned)),
      some (zone + offsetAt memory zone))

/-- `vma_reset`. -/
def resetIn (memory : Store) (zone : Nat) : Store :=
  let cleared :=
    if capacityAt memory zone > metaReserved then
      clearBytes memory (baseAddrAt memory zone + metaReserved) (capacityAt memory zone - metaReserved)
    else memory
  setOffset cleared zone metaReserved

/-! ## Calls -/

/-- The memory, and the regions returned since the last reset, latest first. -/
structure State where
  memory : Store
  regions : List Span

/-- A call on the zone, or a client's store. -/
inductive Event where
  | alloc (size : Nat)
  | reset
  | store (address : Nat) (bytes : List UInt8)
  deriving DecidableEq, Repr

/-- Neither rounding the size nor adding it to the offset wraps. -/
def NoWrap (memory : Store) (zone size : Nat) : Prop :=
  size + 15 < 2 ^ 64 ∧ offsetAt memory zone + alignVma size < 2 ^ 64

instance : Decidable (NoWrap memory zone size) := inferInstanceAs (Decidable (_ ∧ _))

/-- One event. Clients do not store in the header. -/
def step (zone : Nat) (state : State) : Event → Option State
  | .alloc size =>
    if NoWrap state.memory zone size then
      match allocIn state.memory zone size with
      | (memory, none) => some { state with memory }
      | (memory, some pointer) => some ⟨memory, ⟨pointer, alignVma size⟩ :: state.regions⟩
    else none
  | .reset => some ⟨resetIn state.memory zone, []⟩
  | .store address bytes =>
    if Apart ⟨address, bytes.length⟩ (headerAt zone) then
      some { state with memory := writeBytes state.memory address bytes }
    else none

/-- Every byte of the header but those of `offset` is the same. -/
def HeaderKept (before after : Store) (zone : Nat) : Prop :=
  ∀ i, zone ≤ i → i < zone + metaReserved →
    (i < zone + offsetField ∨ zone + offsetField + 8 ≤ i) → after i = before i

/-- The bytes of a zone behind its header. -/
def dataSpan (zone capacity : Nat) : Span := ⟨zone + metaReserved, capacity - metaReserved⟩

/-- The regions lie aligned behind the header, each inside the zone and apart from the
others. -/
structure RegionsSound (zone capacity : Nat) (regions : List Span) : Prop where
  aligned : ∀ region ∈ regions, 16 ∣ region.start - zone
  inside : ∀ region ∈ regions, Within region (dataSpan zone capacity)
  header : ∀ region ∈ regions, Apart region (headerAt zone)
  apart : regions.Pairwise Apart

/-- A request whose sums do not wrap is refused exactly if it is larger than what is left,
and a refusal changes nothing. -/
def RefusalExact (memory : Store) (zone capacity : Nat) : Prop :=
  ∀ size, NoWrap memory zone size →
    ((allocIn memory zone size).2 = none ↔ capacity - offsetAt memory zone < alignVma size) ∧
    ((allocIn memory zone size).2 = none → (allocIn memory zone size).1 = memory)

/-- A reset makes the data zero, and leaves the header but for the offset. -/
structure ResetSound (memory : Store) (zone capacity : Nat) : Prop where
  zeroed : ∀ i, zone + metaReserved ≤ i → i < zone + capacity → resetIn memory zone i = 0
  kept : HeaderKept memory (resetIn memory zone) zone
  rewound : offsetAt (resetIn memory zone) zone = metaReserved

/-! ## Reading the header -/

theorem offsetAt_setOffset (fits : offset < 2 ^ 64) (memory : Store) (zone : Nat) :
    offsetAt (setOffset memory zone offset) zone = offset :=
  readWord_written fits memory (zone + offsetField)

theorem setOffset_outside (outside : i < zone + offsetField ∨ zone + offsetField + 8 ≤ i) :
    setOffset memory zone offset i = memory i :=
  writeBytes_outside (by rwa [toBytes_length])

theorem headerKept_setOffset (memory : Store) (zone offset : Nat) :
    HeaderKept memory (setOffset memory zone offset) zone :=
  fun _ _ _ outside => setOffset_outside outside

theorem headerKept_trans (first : HeaderKept before middle zone) (second : HeaderKept middle after zone) :
    HeaderKept before after zone :=
  fun i lower upper outside =>
    (second i lower upper outside).trans (first i lower upper outside)

/-- A field other than the offset is read as before. -/
theorem readWord_kept (kept : HeaderKept before after zone) (inside : field + width ≤ metaReserved)
    (other : field + width ≤ offsetField ∨ offsetField + 8 ≤ field) :
    readWord after (zone + field) width = readWord before (zone + field) width := by
  apply readWord_congr
  intro i lower upper
  exact kept i (by omega) (by omega) (by omega)

theorem capacityAt_kept (kept : HeaderKept before after zone) :
    capacityAt after zone = capacityAt before zone :=
  readWord_kept kept (by simp [capacityField]) (.inl (Nat.le_refl 24))

theorem baseAddrAt_kept (kept : HeaderKept before after zone) :
    baseAddrAt after zone = baseAddrAt before zone :=
  readWord_kept kept (by simp [baseAddrField]) (.inl (show 16 ≤ 24 by omega))

/-- The header is as before but for the offset. -/
theorem zoneAt_kept (kept : HeaderKept before after zone) :
    zoneAt after zone = { zoneAt before zone with offset := offsetAt after zone } := by
  have name : readBytes after (zone + nameField) maxShmName =
      readBytes before (zone + nameField) maxShmName := by
    apply readBytes_congr
    intro i lower upper
    simp only [nameField, maxShmName] at lower upper
    exact kept i (by omega) (by simp only [metaReserved_eq]; omega)
      (.inr (by simp only [offsetField]; omega))
  have fd : readWord after (zone + fdField) 4 = readWord before (zone + fdField) 4 :=
    readWord_kept kept (by simp [fdField]) (.inl (show 4 ≤ 24 by omega))
  have isMaster : readWord after (zone + isMasterField) 1 = readWord before (zone + isMasterField) 1 :=
    readWord_kept kept (by simp [isMasterField]) (.inr (Nat.le_refl 32))
  simp only [zoneAt, name, fd, isMaster, capacityAt_kept kept, baseAddrAt_kept kept]

/-! ## A new zone -/

@[simp] theorem strncpyBytes_length (name : List UInt8) (size : Nat) :
    (strncpyBytes name size).length = size := by
  simp only [strncpyBytes, List.length_append, List.length_take, List.length_replicate]
  omega

/-- What is stored last does not touch the words in front. -/
private theorem readWord_behind (early : field + width ≤ isMasterField)
    (words : Store) (base : Nat) (mutex name : List UInt8) :
    readWord (writeBytes (writeBytes (writeBytes (writeWord words (base + isMasterField) 1 1)
      (base + mutexField) mutex) (base + nameField) name) (base + nameField + (maxShmName - 1)) [0])
      (base + field) width = readWord words (base + field) width := by
  simp only [isMasterField] at early
  rw [readWord_apart (.inl (by simp only [nameField]; omega)),
    readWord_apart (.inl (by simp only [nameField]; omega)),
    readWord_apart (.inl (by simp only [mutexField]; omega)),
    readWord_writeWord_apart (.inl (by simp only [isMasterField]; omega))]

theorem offsetAt_created (memory : Store) (name : List UInt8) (size fd base : Nat)
    (mutex : Option (List UInt8)) :
    offsetAt (createIn memory name size fd base mutex) base = metaReserved := by
  have early : offsetField + 8 ≤ isMasterField := Nat.le_refl 32
  simp only [createIn, offsetAt]
  rw [readWord_behind early]
  exact offsetAt_setOffset (by simp) _ base

theorem capacityAt_created (fits : size < 2 ^ 64) (memory : Store) (name : List UInt8) (fd base : Nat)
    (mutex : Option (List UInt8)) :
    capacityAt (createIn memory name size fd base mutex) base = size := by
  have early : capacityField + 8 ≤ isMasterField := by decide
  simp only [createIn, capacityAt]
  rw [readWord_behind early, setOffset,
    readWord_writeWord_apart (.inl (by simp only [offsetField, capacityField]; omega))]
  exact readWord_written fits _ _

theorem baseAddrAt_created (fits : base < 2 ^ 64) (memory : Store) (name : List UInt8) (size fd : Nat)
    (mutex : Option (List UInt8)) :
    baseAddrAt (createIn memory name size fd base mutex) base = base := by
  have early : baseAddrField + 8 ≤ isMasterField := by decide
  simp only [createIn, baseAddrAt]
  rw [readWord_behind early, setOffset,
    readWord_writeWord_apart (.inl (by simp only [offsetField, baseAddrField]; omega)),
    readWord_writeWord_apart (.inl (by simp only [capacityField, baseAddrField]; omega))]
  exact readWord_written fits _ _

private theorem fd_created (answered : fd < 2 ^ 31) (memory : Store) (name : List UInt8) (size base : Nat)
    (mutex : Option (List UInt8)) :
    (BitVec.ofNat 32 (readWord (createIn memory name size fd base mutex) (base + fdField) 4)).toInt = fd := by
  have early : fdField + 4 ≤ isMasterField := by decide
  have stored : readWord (createIn memory name size fd base mutex) (base + fdField) 4 = fd := by
    simp only [createIn]
    rw [readWord_behind early, setOffset,
      readWord_writeWord_apart (.inl (by simp only [offsetField, fdField]; omega)),
      readWord_writeWord_apart (.inl (by simp only [capacityField, fdField]; omega)),
      readWord_writeWord_apart (.inl (by simp only [baseAddrField, fdField]; omega))]
    exact readWord_written (Nat.lt_trans answered (by decide)) _ _
  have word : (BitVec.ofNat 32 fd).toNat = fd := by
    rw [BitVec.toNat_ofNat]
    exact Nat.mod_eq_of_lt (by omega)
  rw [stored, BitVec.toInt_eq_toNat_of_lt (by omega), word]

private theorem isMaster_created (memory : Store) (name : List UInt8) (size fd base : Nat)
    (mutex : Option (List UInt8)) :
    readWord (createIn memory name size fd base mutex) (base + isMasterField) 1 = 1 := by
  simp only [createIn]
  rw [readWord_apart (.inl (by simp only [nameField, isMasterField]; omega)),
    readWord_apart (.inl (by simp only [nameField, isMasterField]; omega)),
    readWord_apart (.inl (by simp only [mutexField, isMasterField]; omega))]
  exact readWord_written (by decide) _ _

private theorem name_created (solid : 0 ∉ name) (memory : Store) (size fd base : Nat)
    (mutex : Option (List UInt8)) :
    untilNull (readBytes (createIn memory name size fd base mutex) (base + nameField) maxShmName) =
      storedName name := by
  have length : (strncpyBytes name (maxShmName - 1) ++ [0]).length = maxShmName := by
    rw [List.length_append, strncpyBytes_length]
    rfl
  have whole (before : Store) :
      writeBytes (writeBytes before (base + nameField) (strncpyBytes name (maxShmName - 1)))
        (base + nameField + (maxShmName - 1)) [0] =
      writeBytes before (base + nameField) (strncpyBytes name (maxShmName - 1) ++ [0]) := by
    have joined := writeBytes_append before (base + nameField) (strncpyBytes name (maxShmName - 1)) [0]
    rwa [strncpyBytes_length] at joined
  have stored (before : Store) :
      readBytes (writeBytes before (base + nameField) (strncpyBytes name (maxShmName - 1) ++ [0]))
        (base + nameField) maxShmName = strncpyBytes name (maxShmName - 1) ++ [0] := by
    have read := readBytes_written before (base + nameField) (strncpyBytes name (maxShmName - 1) ++ [0])
    rwa [length] at read
  have text : strncpyBytes name (maxShmName - 1) ++ [0] =
      storedName name ++ [0] ++ List.replicate (maxShmName - 1 - name.length) 0 := by
    rw [strncpyBytes, List.append_assoc, ← List.replicate_succ', List.replicate_succ, storedName]
    simp
  have solidStored : 0 ∉ storedName name := fun member => solid (List.mem_of_mem_take member)
  simp only [createIn]
  rw [whole, stored, text, untilNull_terminated solidStored]

/-- `vma_create` stores the header that its callers are given. -/
theorem zoneAt_created (answered : fd < 2 ^ 31) (solid : 0 ∉ name) (positive : 0 < size)
    (small : size < 2 ^ 64) (mapped : base < 2 ^ 64) (memory : Store) (mutex : Option (List UInt8)) :
    (vmaCreate (some name) size ⟨some fd, true, some base⟩).1 =
      some (zoneAt (createIn memory name size fd base mutex) base) := by
  simp only [vmaCreate, if_neg (Nat.ne_of_gt positive), if_true, zoneAt, fd_created answered,
    isMaster_created, name_created solid, offsetAt_created, capacityAt_created small,
    baseAddrAt_created mapped]
  rfl

/-! ## One call -/

/-- An allocation moves the offset of a zone, and nothing else of its header. -/
theorem allocIn_kept (memory : Store) (zone size : Nat) :
    HeaderKept memory (allocIn memory zone size).1 zone := by
  simp only [allocIn]
  split
  · exact fun _ _ _ _ => rfl
  · exact headerKept_setOffset memory zone _

/-- On the header in memory an allocation does what it does to a header. -/
theorem allocIn_decodes (memory : Store) (zone size : Nat) :
    internalVmaAlloc zone (zoneAt memory zone) size =
      (zoneAt (allocIn memory zone size).1 zone, (allocIn memory zone size).2) := by
  rw [zoneAt_kept (allocIn_kept memory zone size)]
  by_cases full : wrap64 (offsetAt memory zone + alignVma size) > capacityAt memory zone
  · simp only [internalVmaAlloc, allocIn, zoneAt, if_pos full]
    exact if_pos full
  · simp only [internalVmaAlloc, allocIn, zoneAt, if_neg full, offsetAt_setOffset (wrap64_lt _)]
    exact if_neg full

private theorem resetIn_kept (base : baseAddrAt memory zone = zone) :
    HeaderKept memory (resetIn memory zone) zone := by
  apply headerKept_trans _ (headerKept_setOffset _ zone metaReserved)
  intro i _ upper _
  split
  · exact clearBytes_outside (.inl (by omega))
  · rfl

theorem resetIn_decodes (base : baseAddrAt memory zone = zone) :
    (vmaReset zone (zoneAt memory zone)).1 = zoneAt (resetIn memory zone) zone := by
  rw [zoneAt_kept (resetIn_kept base), resetIn, offsetAt_setOffset (by simp)]
  rfl

/-- What a request gets whose sums do not wrap. -/
theorem allocIn_cases (noWrap : NoWrap memory zone size) :
    allocIn memory zone size = (memory, none) ∧
        capacityAt memory zone < offsetAt memory zone + alignVma size ∨
      allocIn memory zone size = (setOffset memory zone (offsetAt memory zone + alignVma size),
          some (zone + offsetAt memory zone)) ∧
        offsetAt memory zone + alignVma size ≤ capacityAt memory zone := by
  have sum : wrap64 (offsetAt memory zone + alignVma size) = offsetAt memory zone + alignVma size :=
    wrap64_of_lt noWrap.2
  simp only [allocIn, sum]
  split
  · exact .inl ⟨rfl, by assumption⟩
  · exact .inr ⟨rfl, by omega⟩

/-! ## Runs -/

/-- Between calls: the header has the address and the size of the zone, the offset is
whole and inside the zone, and the regions lie in front of it. -/
structure Sound (zone capacity : Nat) (state : State) : Prop where
  place : baseAddrAt state.memory zone = zone
  size : capacityAt state.memory zone = capacity
  whole : 16 ∣ offsetAt state.memory zone
  lower : metaReserved ≤ offsetAt state.memory zone
  upper : offsetAt state.memory zone ≤ capacity
  aligned : ∀ region ∈ state.regions, 16 ∣ region.start - zone
  front : ∀ region ∈ state.regions,
    Within region ⟨zone + metaReserved, offsetAt state.memory zone - metaReserved⟩
  apart : state.regions.Pairwise Apart

theorem sound_created (room : metaReserved ≤ size) (small : size < 2 ^ 64) (mapped : base + size ≤ 2 ^ 64)
    (memory : Store) (name : List UInt8) (fd : Nat) (mutex : Option (List UInt8)) :
    Sound base size ⟨createIn memory name size fd base mutex, []⟩ := by
  have offset := offsetAt_created memory name size fd base mutex
  simp only [metaReserved_eq] at offset room
  refine ⟨baseAddrAt_created (by omega) memory name size fd mutex,
    capacityAt_created small memory name fd base mutex, ?_, ?_, ?_, nofun, nofun, .nil⟩
  · exact offset ▸ (by decide)
  · rw [offset]
    exact Nat.le_refl 112
  · rw [offset]
    exact room

private theorem sound_alloc (sound : Sound zone capacity state) (noWrap : NoWrap state.memory zone size)
    (fits : offsetAt state.memory zone + alignVma size ≤ capacityAt state.memory zone) :
    Sound zone capacity
      ⟨setOffset state.memory zone (offsetAt state.memory zone + alignVma size),
        ⟨zone + offsetAt state.memory zone, alignVma size⟩ :: state.regions⟩ := by
  have kept := headerKept_setOffset state.memory zone (offsetAt state.memory zone + alignVma size)
  have offset := offsetAt_setOffset noWrap.2 state.memory zone
  have lower := sound.lower
  refine ⟨(baseAddrAt_kept kept).trans sound.place, (capacityAt_kept kept).trans sound.size, ?_, ?_, ?_,
    ?_, ?_, ?_⟩
  · rw [offset]
    exact Nat.dvd_add sound.whole (roundUp16_dvd size)
  · rw [offset]
    omega
  · rw [offset]
    exact sound.size ▸ fits
  · refine List.forall_mem_cons.mpr ⟨?_, sound.aligned⟩
    rw [Nat.add_sub_cancel_left]
    exact sound.whole
  · simp only [offset]
    refine List.forall_mem_cons.mpr ⟨⟨by simp only; omega, by simp only; omega⟩, fun region member => ?_⟩
    obtain ⟨low, high⟩ := sound.front region member
    exact ⟨low, by simp only at high ⊢; omega⟩
  · refine List.pairwise_cons.mpr ⟨fun region member => .inr ?_, sound.apart⟩
    obtain ⟨_, high⟩ := sound.front region member
    simp only at high ⊢
    omega

private theorem sound_reset (sound : Sound zone capacity state) :
    Sound zone capacity ⟨resetIn state.memory zone, []⟩ := by
  have kept := resetIn_kept sound.place
  have offset : offsetAt (resetIn state.memory zone) zone = metaReserved :=
    offsetAt_setOffset (by simp) _ zone
  have room := Nat.le_trans sound.lower sound.upper
  refine ⟨(baseAddrAt_kept kept).trans sound.place, (capacityAt_kept kept).trans sound.size, ?_, ?_, ?_,
    nofun, nofun, .nil⟩
  · rw [offset]
    exact roundUp16_dvd sizeofVmaZone
  · rw [offset]
  · rw [offset]
    exact room

private theorem sound_store (sound : Sound zone capacity state)
    (clear_ : Apart ⟨address, bytes.length⟩ (headerAt zone)) :
    Sound zone capacity { state with memory := writeBytes state.memory address bytes } := by
  have word (field : Nat) (inside : field + 8 ≤ 112) :
      readWord (writeBytes state.memory address bytes) (zone + field) 8 =
        readWord state.memory (zone + field) 8 := by
    apply readWord_apart
    rcases clear_ with before | behind
    · simp only [headerAt] at before
      omega
    · simp only [headerAt, sizeofVmaZone] at behind
      omega
  have place : baseAddrAt (writeBytes state.memory address bytes) zone = baseAddrAt state.memory zone :=
    word baseAddrField (by decide)
  have size : capacityAt (writeBytes state.memory address bytes) zone = capacityAt state.memory zone :=
    word capacityField (by decide)
  have offset : offsetAt (writeBytes state.memory address bytes) zone = offsetAt state.memory zone :=
    word offsetField (by decide)
  exact ⟨place.trans sound.place, size.trans sound.size, offset.symm ▸ sound.whole, offset.symm ▸ sound.lower,
    offset.symm ▸ sound.upper, sound.aligned, offset.symm ▸ sound.front, sound.apart⟩

theorem sound_step (sound : Sound zone capacity state) (taken : step zone state event = some next) :
    Sound zone capacity next := by
  cases event with
  | alloc size =>
    simp only [step] at taken
    split at taken
    case isTrue noWrap =>
      rcases allocIn_cases noWrap with ⟨same, _⟩ | ⟨same, fits⟩
      · rw [same] at taken
        exact Option.some.inj taken ▸ sound
      · rw [same] at taken
        exact Option.some.inj taken ▸ sound_alloc sound noWrap fits
    case isFalse => cases taken
  | reset => exact Option.some.inj taken ▸ sound_reset sound
  | store address bytes =>
    simp only [step] at taken
    split at taken
    case isTrue clear_ => exact Option.some.inj taken ▸ sound_store sound clear_
    case isFalse => cases taken

private theorem regionsSound_of_sound (sound : Sound zone capacity state) :
    RegionsSound zone capacity state.regions := by
  have upper := sound.upper
  refine ⟨sound.aligned, fun region member => ?_, fun region member => .inr ?_, sound.apart⟩
  · obtain ⟨low, high⟩ := sound.front region member
    exact ⟨low, by simp only [dataSpan] at high ⊢; omega⟩
  · exact (sound.front region member).1

private theorem refusalExact_of_sound (sound : Sound zone capacity state) :
    RefusalExact state.memory zone capacity := by
  intro size noWrap
  have upper := sound.upper
  rcases allocIn_cases noWrap with ⟨same, full⟩ | ⟨same, fits⟩
  · rw [same]
    rw [sound.size] at full
    exact ⟨iff_of_true rfl (by omega), fun _ => rfl⟩
  · rw [same]
    rw [sound.size] at fits
    exact ⟨iff_of_false nofun (by omega), nofun⟩

private theorem resetSound_of_sound (sound : Sound zone capacity state) :
    ResetSound state.memory zone capacity := by
  refine ⟨fun i lower upper => ?_, resetIn_kept sound.place, offsetAt_setOffset (by simp) _ zone⟩
  have behind : zone + offsetField + 8 ≤ i := by
    simp only [metaReserved_eq] at lower
    simp only [offsetField]
    omega
  rw [resetIn, setOffset_outside (.inr behind), sound.size, sound.place, if_pos (by omega)]
  exact clearBytes_inside ⟨lower, by omega⟩

/-- However requests, resets and stores of clients follow each other on a zone that has
room for its header, what has been returned since the last reset lies apart behind the
header, requests are refused when they do not fit and only then, and a reset clears the
data and keeps the rest of the header. -/
theorem zone_sound (room : metaReserved ≤ size) (small : size < 2 ^ 64) (mapped : base + size ≤ 2 ^ 64)
    (ran : exec (step base) ⟨createIn memory name size fd base mutex, []⟩ events = some state) :
    RegionsSound base size state.regions ∧ RefusalExact state.memory base size ∧
      ResetSound state.memory base size := by
  have sound : Sound base size state :=
    exec_invariant (fun _ _ _ held taken => sound_step held taken)
      (sound_created room small mapped memory name fd mutex) ran
  exact ⟨regionsSound_of_sound sound, refusalExact_of_sound sound, resetSound_of_sound sound⟩

/-- A zone of 256 bytes in which the second request fits exactly and the third not at all. -/
theorem exact_fit_sound :
    ∃ state, exec (step 4096) ⟨createIn zeros [47, 115] 256 3 4096 none, []⟩
        [.alloc 60, .alloc 80, .alloc 1, .store 4208 [1, 2, 3]] = some state ∧
      state.regions = [⟨4272, 80⟩, ⟨4208, 64⟩] ∧ RegionsSound 4096 256 state.regions ∧
      RefusalExact state.memory 4096 256 ∧ ResetSound state.memory 4096 256 := by
  obtain ⟨state, ran, regions⟩ : ∃ state,
      exec (step 4096) ⟨createIn zeros [47, 115] 256 3 4096 none, []⟩
        [.alloc 60, .alloc 80, .alloc 1, .store 4208 [1, 2, 3]] = some state ∧
      state.regions = [⟨4272, 80⟩, ⟨4208, 64⟩] := ⟨_, rfl, rfl⟩
  have sound := zone_sound (by decide) (by decide) (by decide) ran
  exact ⟨state, ran, regions, sound⟩

end ShapeQuake.VmaZones
