import ShapeQuake.Library.Bytes
import ShapeQuake.Library.Spans

/-! Shared memory zones of `vma.c`. The header of a zone lies in the zone itself,
so every process that maps it reads the address and the descriptor its creator
stored there. What the kernel answers is an argument of each call, and a call
returns what it did to the caller's address space and descriptors. -/
namespace ShapeQuake.Vma
open Library.Bytes Library.Spans

/-- `align_vma`. -/
def alignVma (size : Nat) : Nat := roundUp16 size

/-- `MAX_SHM_NAME`. -/
def maxShmName : Nat := 32

/-- `vma_zone_t`. No call returns with the mutex held, so it has no state here. -/
structure VmaZone where
  fd : Int
  baseAddr : Nat
  capacity : Nat
  offset : Nat
  isMaster : Bool
  name : List UInt8
  deriving DecidableEq, Repr

/-- `sizeof(vma_zone_t)`. -/
def sizeofVmaZone : Nat := 112

/-- `MAP_FAILED`. -/
def mapFailed : Nat := 2 ^ 64 - 1

/-- What a call does outside its own variables. -/
inductive Effect where
  | accessed (span : Span)
  | unmapped (span : Span)
  | closed (fd : Int)
  | unlinked (name : List UInt8)
  deriving DecidableEq, Repr

/-- The zone header as the pointer of the caller has it. -/
def headerAt (zone : Nat) : Span := ⟨zone, sizeofVmaZone⟩

/-- What `shm_open`, `ftruncate` and `mmap` answer. -/
structure Answers where
  shmOpen : Option Nat
  ftruncate : Bool
  mmap : Option Nat
  deriving DecidableEq, Repr

/-- The name as `strncpy` into `char [MAX_SHM_NAME]` keeps it. -/
def storedName (name : List UInt8) : List UInt8 := name.take (maxShmName - 1)

/-- `vma_create`, the pointer being the address that `mmap` answered. -/
def vmaCreate (name : Option (List UInt8)) (size : Nat) (answers : Answers) :
    Option VmaZone × List Effect :=
  match name with
  | none => (none, [])
  | some name =>
    if size = 0 then (none, [])
    else
      match answers.shmOpen with
      | none => (none, [])
      | some fd =>
        if answers.ftruncate then
          match answers.mmap with
          | none => (none, [.closed fd, .unlinked name])
          | some base =>
            (some { fd, baseAddr := base, capacity := size, offset := alignVma sizeofVmaZone
                    isMaster := true, name := storedName name },
              [.accessed ⟨base, size⟩, .accessed (headerAt base)])
        else (none, [.closed fd, .unlinked name])

/-- `vma_attach`: the address, and the descriptor that stays open for it. -/
def vmaAttach (name : Option (List UInt8)) (size : Nat) (answers : Answers) :
    Option (Nat × Nat) × List Effect :=
  match name with
  | none => (none, [])
  | some _ =>
    if size = 0 then (none, [])
    else
      match answers.shmOpen with
      | none => (none, [])
      | some fd =>
        match answers.mmap with
        | none => (none, [.closed fd])
        | some base => (some (base, fd), [])

/-- `internal_vma_alloc`, of the zone a pointer points to. -/
def internalVmaAlloc (pointer : Nat) (zone : VmaZone) (size : Nat) : VmaZone × Option Nat :=
  let aligned := alignVma size
  if wrap64 (zone.offset + aligned) > zone.capacity then (zone, none)
  else ({ zone with offset := wrap64 (zone.offset + aligned) }, some (pointer + zone.offset))

/-- `vma_alloc`. -/
def vmaAlloc (pointer : Nat) (zone : VmaZone) (size : Nat) : VmaZone × Option Nat × List Effect :=
  let (after, ptr) := internalVmaAlloc pointer zone size
  (after, ptr, [.accessed (headerAt pointer)])

/-- `vma_reset`. -/
def vmaReset (pointer : Nat) (zone : VmaZone) : VmaZone × List Effect :=
  let metaReserved := alignVma sizeofVmaZone
  ({ zone with offset := metaReserved },
    if zone.capacity > metaReserved then
      -- cleared through the stored address, not through the pointer
      [.accessed (headerAt pointer),
        .accessed ⟨zone.baseAddr + metaReserved, zone.capacity - metaReserved⟩]
    else [.accessed (headerAt pointer)])

/-- `vma_unmap`. -/
def vmaUnmap (pointer : Nat) (zone : VmaZone) : List Effect :=
  .accessed (headerAt pointer) ::
    ((if zone.baseAddr ≠ 0 ∧ zone.baseAddr ≠ mapFailed then [.unmapped ⟨zone.baseAddr, zone.capacity⟩]
      else []) ++
      if zone.fd ≠ -1 then [.closed zone.fd] else [])

/-- `vma_destroy`. -/
def vmaDestroy (pointer : Nat) (zone : VmaZone) : List Effect :=
  .accessed (headerAt pointer) ::
    ((if zone.isMaster then [.unlinked zone.name] else []) ++ vmaUnmap pointer zone)

@[simp] theorem alignVma_sizeofVmaZone : alignVma sizeofVmaZone = 112 := by decide

/-- A created zone has the address and the descriptor the kernel answered. -/
theorem vmaCreate_cases (made : (vmaCreate (some name) size answers).1 = some zone) :
    0 < size ∧ ∃ fd base, answers.shmOpen = some fd ∧ answers.mmap = some base ∧
      zone = { fd, baseAddr := base, capacity := size, offset := alignVma sizeofVmaZone
               isMaster := true, name := storedName name } := by
  simp only [vmaCreate] at made
  split at made
  · cases made
  rename_i positive
  split at made
  · cases made
  rename_i opened
  split at made
  · split at made
    · cases made
    · rename_i mapped
      exact ⟨Nat.pos_of_ne_zero positive, _, _, opened, mapped, (Option.some.inj made).symm⟩
  · cases made

/-- An attached zone has the address and the descriptor the kernel answered. -/
theorem vmaAttach_cases (attached : vmaAttach name size answers = (some (base, fd), effects)) :
    0 < size ∧ answers.shmOpen = some fd ∧ answers.mmap = some base := by
  unfold vmaAttach at attached
  split at attached
  · cases attached
  split at attached
  · cases attached
  rename_i positive
  split at attached
  · cases attached
  rename_i opened
  split at attached
  · cases attached
  · rename_i mapped
    simp only [Prod.mk.injEq, Option.some.injEq] at attached
    obtain ⟨⟨rfl, rfl⟩, _⟩ := attached
    exact ⟨Nat.pos_of_ne_zero positive, opened, mapped⟩

/-- An allocation moves nothing but the offset. -/
theorem internalVmaAlloc_header (pointer : Nat) (zone : VmaZone) (size : Nat) :
    ∃ offset, (internalVmaAlloc pointer zone size).1 = { zone with offset } := by
  simp only [internalVmaAlloc]
  split
  · exact ⟨zone.offset, rfl⟩
  · exact ⟨_, rfl⟩

/-- Where an allocation succeeds, it hands out what the zone had left. -/
theorem internalVmaAlloc_cases (ran : internalVmaAlloc pointer zone size = (after, ptr)) :
    ptr = none ∧ after = zone ∧ zone.capacity < wrap64 (zone.offset + alignVma size) ∨
      ptr = some (pointer + zone.offset) ∧
        after = { zone with offset := wrap64 (zone.offset + alignVma size) } ∧
        wrap64 (zone.offset + alignVma size) ≤ zone.capacity := by
  simp only [internalVmaAlloc] at ran
  split at ran
  · rename_i full
    obtain ⟨rfl, rfl⟩ := Prod.mk.inj ran
    exact .inl ⟨rfl, rfl, full⟩
  · rename_i fits
    obtain ⟨rfl, rfl⟩ := Prod.mk.inj ran
    exact .inr ⟨rfl, rfl, Nat.not_lt.mp fits⟩

end ShapeQuake.Vma
