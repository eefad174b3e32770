import ShapeQuake.ArenaMemory

/-! What clients may rely on: an arena is a store of arrays. Each region that was
returned is an array of its own until its block is emptied. It starts as zeros or as the
string it was made from, and nothing but a store into it or a shred of its block changes
what is read from it. -/
namespace ShapeQuake.ArenaStore
open Library.Bytes Library.Spans Library.Runs Allocator AllocatorInvariants ArenaContents ArenaMemory
open RegionProofs (Possible)

/-! ## Arrays -/

/-- A region that was returned, and what its client should find there. -/
structure Region where
  pointer : Pointer
  bytes : List UInt8
  deriving DecidableEq, Repr

/-- The bytes from a distance on replaced. -/
def Region.spliced (region : Region) (distance : Nat) (bytes : List UInt8) : Region :=
  { region with
    bytes := region.bytes.take distance ++ bytes ++ region.bytes.drop (distance + bytes.length) }

/-- One more array, if a pointer came back. -/
def issue (bytes : List UInt8) (regions : List Region) : Option Pointer → List Region
  | none => regions
  | some pointer => ⟨pointer, bytes⟩ :: regions

/-- The arrays in these blocks become zeros. -/
def wipe (blocks : List Nat) (regions : List Region) : List Region :=
  regions.map fun region =>
    if region.pointer.block ∈ blocks then { region with bytes := List.replicate region.bytes.length 0 }
    else region

/-- The arrays in these blocks are given up. -/
def drop (blocks : List Nat) (regions : List Region) : List Region :=
  regions.filter (·.pointer.block ∉ blocks)

/-! ## Arena and arrays -/

/-- A call on the arena, or a client's store at a distance into one of the regions it has. -/
inductive Operation where
  | alloc (size : Nat) (malloc : Option Nat)
  | strdup (src : List UInt8) (malloc : Option Nat)
  | store (index distance : Nat) (bytes : List UInt8)
  | shred (id : Int) (requestResetOffset : Bool)
  | reset
  deriving Repr

/-- An arena, and the arrays its clients have. -/
structure State where
  arena : Arena
  regions : List Region

/-- The text that `arena_strdup` copies, with its null. -/
def copied (src : List UInt8) : List UInt8 := src.takeWhile (· ≠ 0) ++ [0]

/-- One operation. Clients store into regions they have, and no farther than these go. -/
def step (state : State) : Operation → Option State
  | .alloc size malloc =>
    if Possible state.arena (.alloc size malloc) then
      (arenaAlloc state.arena size malloc).map fun (arena, ptr) =>
        ⟨arena, issue (List.replicate size 0) state.regions ptr⟩
    else none
  | .strdup src malloc =>
    if Possible state.arena (.strdup (some src) malloc) then
      (arenaStrdup state.arena (some src) malloc).map fun (arena, dest) =>
        ⟨arena, issue (copied src) state.regions dest⟩
    else none
  | .store index distance bytes =>
    match state.regions[index]? with
    | none => none
    | some region =>
      if distance + bytes.length ≤ region.bytes.length then
        some
          ⟨state.arena.write { region.pointer with offset := region.pointer.offset + distance } bytes,
            state.regions.set index (region.spliced distance bytes)⟩
      else none
  | .shred id request =>
    let targets := shredTargets state.arena.blocks id
    (arenaShred (some state.arena) id request).bind fun (arena, _) =>
      arena.map (⟨·, if request then drop targets state.regions else wipe targets state.regions⟩)
  | .reset => (arenaReset (some state.arena)).bind fun arena => arena.map (⟨·, []⟩)

/-- What is read from there: so many bytes of the block at the pointer's. -/
def read (arena : Arena) (pointer : Pointer) (count : Nat) : Option (List UInt8) :=
  (arena.blocks.chain.find? (·.address = pointer.block)).map fun block =>
    readBytes block.data pointer.offset count

/-- Where an array is, and how long. -/
def Region.extent (region : Region) : Pointer × Nat := (region.pointer, region.bytes.length)

/-- Two arrays share no byte. -/
def ClearOf (first second : Pointer × Nat) : Prop := Clear first.1 first.2 second.1 second.2

/-- The arena holds every array, and each in memory of its own. -/
structure Sound (state : State) : Prop where
  formed : WellFormed state.arena.blocks state.arena.blockSize
  clean : ∀ block ∈ state.arena.blocks.chain, Clean block
  holds : ∀ region ∈ state.regions, Holds state.arena region.pointer region.bytes
  apart : (state.regions.map Region.extent).Pairwise ClearOf

/-! ## Reading -/

/-- What is held is what is read. -/
theorem read_of_holds (formed : WellFormed arena.blocks arena.blockSize)
    (held : Holds arena pointer bytes) : read arena pointer bytes.length = some bytes := by
  obtain ⟨block, member, address, _, same⟩ := held
  have found : arena.blocks.chain.find? (·.address = pointer.block) = some block := by
    cases search : arena.blocks.chain.find? (·.address = pointer.block) with
    | none => exact absurd address (by simpa using List.find?_eq_none.mp search block member)
    | some other =>
      have there : other.address = pointer.block := by simpa using List.find?_some search
      rw [same_block formed (List.mem_of_find?_eq_some search) member (there.trans address.symm)]
  rw [read, found, Option.map_some, same]

/-- Two pieces, one behind the other. -/
theorem holds_append (formed : WellFormed arena.blocks arena.blockSize) (first : Holds arena pointer front)
    (second : Holds arena { pointer with offset := pointer.offset + front.length } rest) :
    Holds arena pointer (front ++ rest) := by
  obtain ⟨block, member, address, _, same⟩ := first
  obtain ⟨other, held, place, below, also⟩ := second
  obtain rfl := same_block formed held member (place.trans address.symm)
  refine ⟨other, member, address, ?_, ?_⟩
  · rw [List.length_append, ← Nat.add_assoc]
    exact below
  · rw [List.length_append, readBytes_append, same, also]

theorem clearOf_symm (clear : ClearOf first second) : ClearOf second first :=
  fun same => (clear same.symm).symm

/-! ## Allocations -/

/-- Only the blocks matter for what is held. -/
private theorem sound_of_blocks (sound : Sound state) (blocks : arena.blocks.chain = state.arena.blocks.chain)
    (formed : WellFormed arena.blocks arena.blockSize) : Sound ⟨arena, state.regions⟩ where
  formed := formed
  clean := fun block member => sound.clean block (blocks ▸ member)
  holds := fun region member => by
    obtain ⟨block, there, rest⟩ := sound.holds region member
    exact ⟨block, blocks.symm ▸ there, rest⟩
  apart := sound.apart

/-- A region that is returned is one array more, of zeros. -/
theorem alloc_sound (sound : Sound state)
    (grantable : Grantable state.arena.blocks state.arena.blockSize size malloc)
    (ran : arenaAlloc state.arena size malloc = some (arena, pointer)) :
    Sound ⟨arena, issue (List.replicate size 0) state.regions pointer⟩ := by
  obtain ⟨unlocked, _⟩ := arenaAllocateRaw_cases ran
  have ready : Ready state.arena := ⟨sound.formed, unlocked, sound.clean⟩
  cases pointer with
  | none =>
    obtain ⟨found, where_, formed, granted⟩ := alloc_granted sound.formed grantable ran
    cases granted
    cases where_ with
    | exhausted _ same _ _ => exact sound_of_blocks sound same formed
  | some pointer =>
    obtain ⟨after, zeroed, others⟩ := alloc_holds ready grantable ran
    refine ⟨after.formed, after.clean, ?_, ?_⟩
    · intro region member
      rcases List.mem_cons.mp member with rfl | older
      · exact zeroed
      · exact (others _ _ (sound.holds region older)).1
    · refine List.pairwise_cons.mpr ⟨fun extent member => ?_, sound.apart⟩
      obtain ⟨region, older, rfl⟩ := List.mem_map.mp member
      exact fun same => .inr ((others _ _ (sound.holds region older)).2 same.symm)

/-! ## Stores -/

private theorem spliced_length {region : Region} {bytes : List UInt8}
    (inside : distance + bytes.length ≤ region.bytes.length) :
    (region.spliced distance bytes).bytes.length = region.bytes.length := by
  simp only [Region.spliced, List.length_append, List.length_take, List.length_drop]
  omega

private theorem spliced_extent {region : Region} {bytes : List UInt8}
    (inside : distance + bytes.length ≤ region.bytes.length) :
    (region.spliced distance bytes).extent = region.extent := by
  rw [Region.extent, spliced_length inside]
  rfl

/-- Whether the lock is held makes no difference to a store. -/
private theorem write_keeps (formed : WellFormed arena.blocks arena.blockSize)
    (clean : ∀ block ∈ arena.blocks.chain, Clean block) (room : Room arena pointer bytes.length) :
    WellFormed (arena.write pointer bytes).blocks arena.blockSize ∧
      (∀ block ∈ (arena.write pointer bytes).blocks.chain, Clean block) ∧
      Holds (arena.write pointer bytes) pointer bytes ∧
      ∀ older kept, Holds arena older kept → Clear older kept.length pointer bytes.length →
        Holds (arena.write pointer bytes) older kept := by
  have ready : Ready { arena with mutex := false } := ⟨formed, rfl, clean⟩
  obtain ⟨after, stored, others⟩ := write_holds ready room
  exact ⟨after.formed, after.clean, stored, others⟩

private theorem room_inside {region : Region} {bytes : List UInt8}
    (held : Holds arena region.pointer region.bytes)
    (inside : distance + bytes.length ≤ region.bytes.length) :
    Room arena { region.pointer with offset := region.pointer.offset + distance } bytes.length := by
  obtain ⟨block, member, address, below, _⟩ := held
  exact ⟨block, member, address, by simp only; omega⟩

/-- A store puts its bytes into the array, between what was in front of them and behind. -/
private theorem spliced_holds {region : Region} {bytes : List UInt8}
    (formed : WellFormed arena.blocks arena.blockSize) (clean : ∀ block ∈ arena.blocks.chain, Clean block)
    (held : Holds arena region.pointer region.bytes)
    (inside : distance + bytes.length ≤ region.bytes.length) :
    Holds (arena.write { region.pointer with offset := region.pointer.offset + distance } bytes)
      region.pointer (region.spliced distance bytes).bytes := by
  have whole : region.bytes = region.bytes.take distance ++ (region.bytes.drop distance).take bytes.length ++
      region.bytes.drop (distance + bytes.length) := by
    rw [List.append_assoc, ← List.drop_drop, List.take_append_drop, List.take_append_drop]
  have size : (region.bytes.take distance).length = distance := by
    rw [List.length_take]
    omega
  have width : (region.bytes.take distance ++ (region.bytes.drop distance).take bytes.length).length =
      distance + bytes.length := by
    rw [List.length_append, size, List.length_take, List.length_drop]
    omega
  have front : Holds arena region.pointer (region.bytes.take distance) := by
    rw [whole, List.append_assoc, ← List.nil_append (region.bytes.take distance)] at held
    exact holds_part held
  have back : Holds arena { region.pointer with offset := region.pointer.offset + distance + bytes.length }
      (region.bytes.drop (distance + bytes.length)) := by
    rw [whole, ← List.append_nil (_ ++ region.bytes.drop (distance + bytes.length))] at held
    have last := holds_part held
    rwa [width, ← Nat.add_assoc] at last
  obtain ⟨after, _, stored, others⟩ := write_keeps formed clean (room_inside held inside)
  apply holds_append after
  · apply holds_append after
    · exact others _ _ front fun _ => .inl (by simp only [size]; exact Nat.le_refl _)
    · rwa [size]
  · rw [List.length_append, size, ← Nat.add_assoc]
    exact others _ _ back fun _ => .inr (Nat.le_refl _)

/-- A store changes the array it goes to, and no other. -/
theorem store_sound (sound : Sound state) (there : state.regions[index]? = some region)
    (inside : distance + bytes.length ≤ region.bytes.length) :
    Sound
      ⟨state.arena.write { region.pointer with offset := region.pointer.offset + distance } bytes,
        state.regions.set index (region.spliced distance bytes)⟩ := by
  obtain ⟨bound, at_⟩ := List.getElem?_eq_some_iff.mp there
  obtain ⟨before, after, split, changed⟩ : ∃ before after, state.regions = before ++ region :: after ∧
      state.regions.set index (region.spliced distance bytes) =
        before ++ region.spliced distance bytes :: after := by
    obtain ⟨before, after, split, _, changed⟩ := List.exists_of_set bound
    exact ⟨before, after, at_ ▸ split, changed⟩
  have held : Holds state.arena region.pointer region.bytes :=
    sound.holds region (List.mem_of_getElem? there)
  obtain ⟨formed, clean, _, others⟩ := write_keeps sound.formed sound.clean (room_inside held inside)
  have apart := sound.apart
  rw [split, List.map_append, List.map_cons] at apart
  have clear : ∀ other ∈ before ++ after, ClearOf other.extent region.extent := by
    obtain ⟨_, later, across⟩ := List.pairwise_append.mp apart
    intro other member
    rcases List.mem_append.mp member with first | last
    · exact across _ (List.mem_map_of_mem first) _ (List.mem_cons_self ..)
    · exact clearOf_symm ((List.pairwise_cons.mp later).1 _ (List.mem_map_of_mem last))
  have kept : ∀ other ∈ before ++ after,
      Holds (state.arena.write { region.pointer with offset := region.pointer.offset + distance } bytes)
        other.pointer other.bytes := by
    intro other member
    have held : Holds state.arena other.pointer other.bytes := by
      apply sound.holds
      rw [split]
      rcases List.mem_append.mp member with first | last
      · exact List.mem_append_left _ first
      · exact List.mem_append_right _ (List.mem_cons_of_mem _ last)
    refine others _ _ held fun same => ?_
    rcases clear other member same with below | above
    · exact .inl (Nat.le_trans below (Nat.le_add_right _ _))
    · refine .inr (Nat.le_trans ?_ above)
      simp only [Region.extent]
      omega
  rw [changed]
  refine ⟨formed, clean, ?_, ?_⟩
  · intro other member
    rcases List.mem_append.mp member with first | rest
    · exact kept other (List.mem_append_left _ first)
    · rcases List.mem_cons.mp rest with rfl | last
      · exact spliced_holds sound.formed sound.clean held inside
      · exact kept other (List.mem_append_right _ last)
  · rw [List.map_append, List.map_cons, spliced_extent inside]
    exact apart

/-- A string that is copied is an array that holds it. -/
theorem strdup_sound (sound : Sound state)
    (possible : Possible state.arena (.strdup (some src) malloc))
    (ran : arenaStrdup state.arena (some src) malloc = some (arena, dest)) :
    Sound ⟨arena, issue (copied src) state.regions dest⟩ := by
  obtain ⟨⟨granted, pointer⟩, allocated, same⟩ := Option.map_eq_some_iff.mp ran
  have asked := alloc_sound sound possible allocated
  cases pointer with
  | none =>
    obtain ⟨rfl, rfl⟩ := Prod.mk.inj same
    exact asked
  | some pointer =>
    obtain ⟨rfl, rfl⟩ := Prod.mk.inj same
    have size : (copied src).length = (src.takeWhile (· ≠ 0)).length + 1 := List.length_append
    have first : (issue (List.replicate (copied src).length 0) state.regions (some pointer))[0]? =
        some ⟨pointer, List.replicate (copied src).length 0⟩ := rfl
    have fits : 0 + (copied src).length ≤ (List.replicate (copied src).length (0 : UInt8)).length := by
      rw [List.length_replicate, Nat.zero_add]
    have all : Region.spliced ⟨pointer, List.replicate (copied src).length 0⟩ 0 (copied src) =
        ⟨pointer, copied src⟩ := by
      simp [Region.spliced]
    have zeroed : Sound
        ⟨granted, issue (List.replicate (copied src).length 0) state.regions (some pointer)⟩ := by
      rw [size]
      exact asked
    have written := store_sound zeroed first fits
    rwa [issue, List.set_cons_zero, all] at written

/-! ## Shredding -/

private theorem clearOf_wipe (blocks : List Nat) (regions : List Region) :
    (wipe blocks regions).map Region.extent = regions.map Region.extent := by
  rw [wipe, List.map_map]
  apply List.map_congr_left
  intro region _
  simp only [Function.comp_apply]
  split
  · simp [Region.extent]
  · rfl

private theorem shredded_zeros {block : ArenaBlock} (inside : offset + count ≤ block.capacity) :
    readBytes (internalBlockShred request block).data offset count = List.replicate count 0 := by
  have zero : readBytes (internalBlockShred request block).data offset count = readBytes zeros offset count :=
    readBytes_congr fun i _ below => Library.Bytes.clearBytes_inside ⟨Nat.zero_le _, by omega⟩
  rw [zero]
  have all := readBytes_eq (fun i below => ?_ : ∀ i < (List.replicate count (0 : UInt8)).length,
    zeros (offset + i) = (List.replicate count 0).getD i 0)
  · rwa [List.length_replicate] at all
  · rw [List.length_replicate] at below
    simp [zeros, below]

/-- The blocks that are shredded lose their contents, and their arrays if their offset
is reset. -/
theorem shred_sound (sound : Sound state) (targets : List Nat) (request : Bool)
    (formed : WellFormed next.blocks next.blockSize)
    (blocks : next.blocks.chain = state.arena.blocks.chain.map (shredAmong targets request)) :
    Sound ⟨next, if request then drop targets state.regions else wipe targets state.regions⟩ := by
  have untouched (region : Region) (member : region ∈ state.regions)
      (apart : region.pointer.block ∉ targets) : Holds next region.pointer region.bytes := by
    obtain ⟨block, there, address, below, same⟩ := sound.holds region member
    have stays : shredAmong targets request block = block := if_neg (address ▸ apart)
    refine ⟨block, ?_, address, below, same⟩
    rw [blocks]
    exact List.mem_map.mpr ⟨block, there, stays⟩
  have clean : ∀ block ∈ next.blocks.chain, Clean block := by
    intro block member
    rw [blocks] at member
    obtain ⟨old, held, rfl⟩ := List.mem_map.mp member
    exact clean_shredAmong (sound.clean old held) targets request
  cases request with
  | true =>
    show Sound ⟨next, drop targets state.regions⟩
    refine ⟨formed, clean, fun region member => ?_, ?_⟩
    · obtain ⟨held, apart⟩ := List.mem_filter.mp member
      exact untouched region held (of_decide_eq_true apart)
    · exact sound.apart.sublist (List.filter_sublist.map _)
  | false =>
    show Sound ⟨next, wipe targets state.regions⟩
    refine ⟨formed, clean, fun wiped member => ?_, ?_⟩
    · obtain ⟨region, held, rfl⟩ := List.mem_map.mp member
      by_cases target : region.pointer.block ∈ targets
      · obtain ⟨block, there, address, below, _⟩ := sound.holds region held
        have shredded : shredAmong targets false block = internalBlockShred false block :=
          if_pos (address ▸ target)
        have handed := (sound.formed.placed block there).handed
        rw [if_pos target]
        refine ⟨internalBlockShred false block, ?_, address, ?_, ?_⟩
        · rw [blocks]
          exact List.mem_map.mpr ⟨block, there, shredded⟩
        · rw [List.length_replicate]
          exact below
        · rw [List.length_replicate]
          exact shredded_zeros (Nat.le_trans below handed)
      · rw [if_neg target]
        exact untouched region held target
    · show ((wipe targets state.regions).map Region.extent).Pairwise ClearOf
      rw [clearOf_wipe]
      exact sound.apart

/-! ## Runs -/

theorem step_sound (sound : Sound state) (taken : step state operation = some next) : Sound next := by
  cases operation with
  | alloc size malloc =>
    simp only [step, Option.ite_none_right_eq_some] at taken
    obtain ⟨possible, returned⟩ := taken
    obtain ⟨⟨arena, ptr⟩, ran, rfl⟩ := Option.map_eq_some_iff.mp returned
    exact alloc_sound sound possible ran
  | strdup src malloc =>
    simp only [step, Option.ite_none_right_eq_some] at taken
    obtain ⟨possible, returned⟩ := taken
    obtain ⟨⟨arena, dest⟩, ran, rfl⟩ := Option.map_eq_some_iff.mp returned
    exact strdup_sound sound possible ran
  | store index distance bytes =>
    simp only [step] at taken
    split at taken
    · cases taken
    · rename_i region there
      obtain ⟨inside, same⟩ := Option.ite_none_right_eq_some.mp taken
      cases same
      exact store_sound sound there inside
  | shred id request =>
    obtain ⟨⟨arena, status⟩, ran, same⟩ := Option.bind_eq_some_iff.mp taken
    obtain ⟨_, rfl, _⟩ := arenaShred_cases ran
    cases same
    have shredded := internalArenaShred_eq (addresses_nodup sound.formed) id request
    refine shred_sound sound _ request (wellFormed_shred sound.formed id request) ?_
    rw [shredded, chain_map]
  | reset =>
    obtain ⟨arena, ran, same⟩ := Option.bind_eq_some_iff.mp taken
    obtain ⟨_, rfl⟩ := arenaReset_cases ran
    cases same
    refine ⟨wellFormed_reset sound.formed, fun block member => ?_, List.forall_mem_nil _, List.Pairwise.nil⟩
    have emptied : block ∈ state.arena.blocks.chain.map (internalBlockShred true) := by
      rwa [← chain_map, ← rewind_chain]
    obtain ⟨old, _, rfl⟩ := List.mem_map.mp emptied
    exact fun i _ inside => Library.Bytes.clearBytes_inside ⟨Nat.zero_le _, by rwa [Nat.zero_add]⟩

/-- Whatever clients do with an arena that `arena_init` made, and whatever `malloc`
answers, every array they have can be read back as they left it: from the zeros or the
string that it started as, their own stores into it, and the shreds of its block. No two
of them share a byte. -/
theorem arrays_read_back (initial : Initial blockSize address)
    (made : arenaInit blockSize true (some address) = some arena)
    (ran : exec step ⟨arena, []⟩ operations = some final) :
    (∀ region ∈ final.regions,
      read final.arena region.pointer region.bytes.length = some region.bytes) ∧
    (final.regions.map Region.extent).Pairwise ClearOf := by
  have start : Sound ⟨arena, []⟩ := by
    refine ⟨wellFormed_init initial made, ?_, List.forall_mem_nil _, List.Pairwise.nil⟩
    obtain rfl := Option.some.inj made
    intro block member
    obtain rfl := List.mem_singleton.mp member
    exact fun _ _ _ => rfl
  have sound : Sound final := exec_invariant (fun _ _ _ => step_sound) start ran
  exact ⟨fun region member => read_of_holds sound.formed (sound.holds region member), sound.apart⟩

/-- Two arrays in one block, which is shredded, and one in another. -/
theorem shredded_and_stored :
    ∃ final, exec step ⟨⟨false, ⟨[], ⟨4096, 0, false, none, 0, 32, zeros⟩, []⟩, 32, false, false, false⟩, []⟩
        [.strdup [0x61, 0x62, 0, 0x63] none, .alloc 3 none, .alloc 2 (some 8192), .store 1 1 [7, 8],
          .shred 0 false, .store 2 1 [9], .store 0 0 [0x7a]] = some final ∧
      final.regions = [⟨⟨8192, 0⟩, [0x7a, 0]⟩, ⟨⟨4096, 16⟩, [0, 0, 0]⟩, ⟨⟨4096, 0⟩, [0, 9, 0]⟩] ∧
      ∀ region ∈ final.regions, read final.arena region.pointer region.bytes.length = some region.bytes := by
  have regions : (exec step
      ⟨⟨false, ⟨[], ⟨4096, 0, false, none, 0, 32, zeros⟩, []⟩, 32, false, false, false⟩, []⟩
      [.strdup [0x61, 0x62, 0, 0x63] none, .alloc 3 none, .alloc 2 (some 8192), .store 1 1 [7, 8],
        .shred 0 false, .store 2 1 [9], .store 0 0 [0x7a]]).map State.regions =
      some [⟨⟨8192, 0⟩, [0x7a, 0]⟩, ⟨⟨4096, 16⟩, [0, 0, 0]⟩, ⟨⟨4096, 0⟩, [0, 9, 0]⟩] := by decide
  obtain ⟨final, ran, same⟩ := Option.map_eq_some_iff.mp regions
  exact ⟨final, ran, same, (arrays_read_back (show Initial 20 4096 by decide) rfl ran).1⟩

end ShapeQuake.ArenaStore
