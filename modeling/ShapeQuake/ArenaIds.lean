import ShapeQuake.ArenaCalls

/-! Which block an id designates. A new block gets the id of the last one plus one, in
sixteen bits, and a shred looks for the low sixteen bits of the id it is given: in a long
chain ids come twice, and an id that no block ever got may find one. -/
namespace ShapeQuake.ArenaIds
open Library.Bytes Library.Runs Allocator
open ArenaCalls

/-- The ids count up from zero in sixteen bits, and no address comes twice. -/
structure Numbered (named : List (Nat × Nat)) : Prop where
  nonempty : named ≠ []
  ids : named.map Prod.snd = (List.range named.length).map (· % 2 ^ 16)
  addresses : (named.map Prod.fst).Nodup

private theorem last_id (numbered : Numbered named) (last : named.getLast? = some name) :
    (name.2 + 1) % 2 ^ 16 = named.length % 2 ^ 16 := by
  have positive := List.length_pos_of_ne_nil numbered.nonempty
  have ends := congrArg List.getLast? numbered.ids
  rw [List.getLast?_map, List.getLast?_map, last, List.getLast?_range, if_neg (by omega)] at ends
  have same : name.2 = (named.length - 1) % 2 ^ 16 := Option.some.inj ends
  omega

private theorem numbered_grown (numbered : Numbered named) (grown : Grown malloc named after)
    (fresh : ∀ address ∈ malloc, address ∉ named.map Prod.fst) : Numbered after := by
  rcases grown with rfl | ⟨address, last, answered, ends, rfl⟩
  · exact numbered
  · constructor
    · simp
    · rw [List.map_append, numbered.ids, List.length_append, List.length_singleton, List.range_succ,
        List.map_append, List.map_singleton, List.map_singleton, last_id numbered ends]
    · rw [List.map_append, List.map_singleton, List.nodup_append]
      refine ⟨numbered.addresses, List.nodup_singleton _, ?_⟩
      intro other member new single
      obtain rfl := List.mem_singleton.mp single
      exact fun same => fresh _ answered (same ▸ member)

theorem numbered_step (numbered : Numbered (names arena.blocks.chain)) (taken : step arena call = some next) :
    Numbered (names next.blocks.chain) := by
  obtain ⟨malloc, fresh, _, grown, _⟩ := step_extends taken
  apply numbered_grown numbered grown
  intro address answered member
  obtain ⟨name, there, same⟩ := List.mem_map.mp member
  obtain ⟨block, held, rfl⟩ := List.mem_map.mp there
  exact fresh address answered block held same

theorem numbered_init (made : arenaInit blockSize room malloc = some arena) :
    Numbered (names arena.blocks.chain) := by
  unfold arenaInit at made
  split at made
  · obtain ⟨head, new, rfl⟩ := Option.map_eq_some_iff.mp made
    obtain ⟨address, _, rfl⟩ := Option.map_eq_some_iff.mp new
    exact ⟨by simp [names], rfl, by simp [names]⟩
  · cases made

/-! ## Ids and blocks -/

/-- The ids of the blocks are numbered as their places are. -/
private theorem chain_ids (numbered : Numbered (names chain)) :
    chain.map ArenaBlock.id = (List.range chain.length).map (· % 2 ^ 16) := by
  have ids := numbered.ids
  simpa only [names, List.map_map, List.length_map, Function.comp_def] using ids

private theorem addresses_once (numbered : Numbered (names chain)) :
    (chain.map ArenaBlock.address).Nodup := by
  simpa only [names, List.map_map, Function.comp_def] using numbered.addresses

private theorem id_lt (numbered : Numbered (names chain)) (member : block ∈ chain) : block.id < 2 ^ 16 := by
  have id : block.id ∈ chain.map ArenaBlock.id := List.mem_map_of_mem member
  rw [chain_ids numbered] at id
  obtain ⟨place, _, same⟩ := List.mem_map.mp id
  omega

/-- Ids differ as long as there are no more blocks than ids. -/
private theorem ids_nodup_iff (numbered : Numbered (names chain)) :
    (chain.map ArenaBlock.id).Nodup ↔ chain.length ≤ 2 ^ 16 := by
  rw [chain_ids numbered]
  constructor
  · intro once
    by_contra long
    have same := List.nodup_map_iff_inj_on List.nodup_range |>.mp once 0 (List.mem_range.mpr (by omega))
      (2 ^ 16) (List.mem_range.mpr (by omega)) rfl
    cases same
  · intro short
    have plain : (List.range chain.length).map (· % 2 ^ 16) = List.range chain.length := by
      refine (List.map_congr_left fun place member => ?_).trans (List.map_id _)
      have := List.mem_range.mp member
      exact Nat.mod_eq_of_lt (by omega)
    rw [plain]
    exact List.nodup_range

/-- Which numbers are ids, as long as there are no more blocks than ids. -/
private theorem id_used_iff (numbered : Numbered (names chain)) (short : chain.length ≤ 2 ^ 16) (id : Nat) :
    (∃ block ∈ chain, block.id = id) ↔ id < chain.length := by
  have used : (∃ block ∈ chain, block.id = id) ↔ id ∈ chain.map ArenaBlock.id := List.mem_map.symm
  rw [used, chain_ids numbered, List.mem_map]
  constructor
  · rintro ⟨place, member, rfl⟩
    have := List.mem_range.mp member
    omega
  · exact fun small => ⟨id, List.mem_range.mpr small, Nat.mod_eq_of_lt (by omega)⟩

/-- The block at this place of the chain is zeroed and marked, and nothing else changes. -/
def WipesOne (arena next : Arena) (id : Int) : Prop :=
  ∃ before block after wiped, arena.blocks.chain = before ++ block :: after ∧ (block.id : Int) = id ∧
    next.blocks.chain = before ++ wiped :: after ∧ wiped.isWiped = true ∧
    wiped.address = block.address ∧ wiped.capacity = block.capacity ∧ ∀ i < wiped.capacity, wiped.data i = 0

/-- Ids are distinct, and a shred of an id wipes the one block that has it, or aborts and
changes nothing where none has it. -/
def ShredsNamed (arena : Arena) (id : Int) (request : Bool) : Prop :=
  (arena.blocks.chain.map ArenaBlock.id).Nodup ∧
    ∃ next status, arenaShred (some arena) id request = some (some next, status) ∧
      ((∃ block ∈ arena.blocks.chain, (block.id : Int) = id) →
        getCnd status = Cnd.success.raw ∧ WipesOne arena next id) ∧
      ((∀ block ∈ arena.blocks.chain, (block.id : Int) ≠ id) →
        getCnd status = Cnd.abort.raw ∧ next = arena)

/-- The mutex is free, there are no more blocks than ids, and the id is one of sixteen
bits or its low sixteen bits are no id. -/
def PlainId (arena : Arena) (id : Int) : Prop :=
  arena.mutex = false ∧ arena.blocks.chain.length ≤ 2 ^ 16 ∧
    (0 ≤ id ∧ id < 2 ^ 16 ∨ (arena.blocks.chain.length : Int) ≤ id % 2 ^ 16)

/-- The status and the arena of a shred, where the lock is free. -/
private theorem shred_ran (unlocked : arena.mutex = false) (id : Int) (request : Bool) :
    arenaShred (some arena) id request =
      some (some { arena with blocks := (internalArenaShred arena.blocks id request).1 },
        (internalArenaShred arena.blocks id request).2) := by
  simp [arenaShred, unlocked]

/-- No block has the low bits of the id: the shred aborts. -/
private theorem shred_absent {id : Int} (current : id ≠ arenaIdCurrent) (entire : id ≠ arenaIdEntire)
    (absent : getArena blocks.chain (id % 2 ^ 16).toNat = none) :
    internalArenaShred blocks id request = (blocks, asStatus .arena .abort .alloc) := by
  rw [internalArenaShred, if_neg entire, if_neg current, absent]

/-- A block has the low bits of the id: it is shredded, at its place. -/
private theorem shred_found {id : Int} (request : Bool) (current : id ≠ arenaIdCurrent)
    (entire : id ≠ arenaIdEntire) (once : (blocks.chain.map ArenaBlock.address).Nodup)
    (found : getArena blocks.chain (id % 2 ^ 16).toNat = some target) :
    (internalArenaShred blocks id request).2 = asStatus .arena .success .clear ∧
      ∃ before after, blocks.chain = before ++ target :: after ∧
        (internalArenaShred blocks id request).1.chain =
          before ++ internalBlockShred request target :: after := by
  rw [internalArenaShred, if_neg entire, if_neg current, found]
  refine ⟨rfl, ?_⟩
  obtain ⟨before, after, chain⟩ := List.append_of_mem (List.mem_of_find?_eq_some found)
  refine ⟨before, after, chain, ?_⟩
  rw [chain, List.map_append, List.map_cons] at once
  have absent := (List.nodup_middle.mp once).notMem
  rw [List.mem_append, not_or] at absent
  have others {part : List ArenaBlock} (none_ : target.address ∉ part.map ArenaBlock.address) :
      (part.map fun block =>
        if block.address = target.address then internalBlockShred request block else block) = part := by
    refine (List.map_congr_left fun block member => ?_).trans (List.map_id _)
    have apart : block.address ≠ target.address := fun same => none_ (same ▸ List.mem_map_of_mem member)
    exact if_neg apart
  simp only [chain_map, chain, List.map_append, List.map_cons, others absent.1, others absent.2, if_true]

private theorem success_ne_abort : ¬ Cnd.success.raw = Cnd.abort.raw := fun same =>
  nomatch Cnd.raw_injective same

/-- The low bits of an id that is not plain are the id of a block that does not have it. -/
private theorem plain_of_shreds {id : Int} (numbered : Numbered (names arena.blocks.chain))
    (current : id ≠ arenaIdCurrent) (entire : id ≠ arenaIdEntire) (shreds : ShredsNamed arena id request) :
    PlainId arena id := by
  obtain ⟨distinct, next, status, ran, _, absent⟩ := shreds
  have short := (ids_nodup_iff numbered).mp distinct
  obtain ⟨unlocked, _, rfl⟩ := arenaShred_cases ran
  refine ⟨unlocked, short, ?_⟩
  by_contra other
  obtain ⟨wide, low⟩ := not_or.mp other
  obtain ⟨block, member, same⟩ := (id_used_iff numbered short (id % 2 ^ 16).toNat).mpr (by omega)
  have none_ : ∀ block ∈ arena.blocks.chain, (block.id : Int) ≠ id := by
    intro other held same
    have := id_lt numbered held
    omega
  cases search : getArena arena.blocks.chain (id % 2 ^ 16).toNat with
  | none =>
    have missed := List.find?_eq_none.mp search block member
    simp [same] at missed
  | some target =>
    have success := (shred_found request current entire (addresses_once numbered) search).1
    rw [success] at absent
    exact success_ne_abort ((getCnd_asStatus _ _ _).symm.trans (absent none_).1)

/-- A plain id is looked for as it is, or finds nothing. -/
private theorem shreds_of_plain {id : Int} (numbered : Numbered (names arena.blocks.chain))
    (current : id ≠ arenaIdCurrent) (entire : id ≠ arenaIdEntire) (plain : PlainId arena id)
    (request : Bool) : ShredsNamed arena id request := by
  obtain ⟨unlocked, short, narrow⟩ := plain
  refine ⟨(ids_nodup_iff numbered).mpr short, _, _, shred_ran unlocked id request, ?_, ?_⟩
  · rintro ⟨block, member, same⟩
    have small := id_lt numbered member
    cases search : getArena arena.blocks.chain (id % 2 ^ 16).toNat with
    | none =>
      have missed := List.find?_eq_none.mp search block member
      simp only [decide_eq_true_eq] at missed
      omega
    | some target =>
      have low : target.id = (id % 2 ^ 16).toNat := by simpa using List.find?_some search
      obtain ⟨status, before, after, chain, shredded⟩ :=
        shred_found request current entire (addresses_once numbered) search
      refine ⟨by rw [status, getCnd_asStatus], before, target, after, _, chain, by omega, shredded,
        rfl, rfl, rfl, ?_⟩
      intro i inside
      have cleared : 0 ≤ i ∧ i < 0 + target.capacity := ⟨Nat.zero_le i, by rwa [Nat.zero_add]⟩
      exact if_pos cleared
  · intro none_
    cases search : getArena arena.blocks.chain (id % 2 ^ 16).toNat with
    | none =>
      rw [shred_absent current entire search]
      exact ⟨getCnd_asStatus _ _ _, rfl⟩
    | some target =>
      have low : target.id = (id % 2 ^ 16).toNat := by simpa using List.find?_some search
      have member := List.mem_of_find?_eq_some search
      have used := (id_used_iff numbered short target.id).mp ⟨target, member, rfl⟩
      have other := none_ target member
      omega

/-- In every arena that is reached, a shred of an id wipes the block that has it, and no
block if none has it, exactly if the mutex is free, there are no more blocks than ids and
the id loses nothing, or finds nothing, in sixteen bits. -/
theorem shreds_named_iff_plain (made : arenaInit blockSize room malloc = some arena) (calls : List Call) :
    Throughout step
      (fun arena => ∀ id request, id ≠ arenaIdCurrent → id ≠ arenaIdEntire →
        (ShredsNamed arena id request ↔ PlainId arena id)) arena calls :=
  throughout_mono
    (fun _ numbered _ request current entire =>
      ⟨plain_of_shreds numbered current entire,
        fun plain => shreds_of_plain numbered current entire plain request⟩)
    (throughout_invariant (fun _ _ _ numbered taken => numbered_step numbered taken)
      (numbered_init made) calls)

/-- A second block behind the first: any id is wiped, or refused, as it should be, exactly
if it is plain. -/
theorem two_blocks_named :
    Throughout step
      (fun arena => ∀ id request, id ≠ arenaIdCurrent → id ≠ arenaIdEntire →
        (ShredsNamed arena id request ↔ PlainId arena id))
      ⟨false, ⟨[], ⟨4096, 0, false, none, 0, 16, zeros⟩, []⟩, 16, false, false, false⟩
      [.alloc 17 (some 8192), .shred 1 true, .reset] :=
  shreds_named_iff_plain (show arenaInit 16 true (some 4096) = some _ from rfl) _

/-- An arena of one block, whose id is zero: a shred of 65536 wipes it. -/
theorem id_truncated :
    ∃ arena, arenaInit 16 true (some 4096) = some arena ∧
      arena.blocks.chain.map ArenaBlock.id = [0] ∧
      (∃ next, arenaShred (some arena) 65536 true = some (some next, asStatus .arena .success .clear) ∧
        next.blocks.chain.map ArenaBlock.isWiped = [true]) ∧
      ¬ ShredsNamed arena 65536 true := by
  refine ⟨_, rfl, rfl, ⟨_, rfl, rfl⟩, ?_⟩
  rintro ⟨_, next, status, ran, _, absent⟩
  have none_ : ∀ block ∈ [(⟨4096, 0, false, none, 0, 16, zeros⟩ : ArenaBlock)], (block.id : Int) ≠ 65536 := by
    simp
  have wiped := (arenaShred_cases ran).2.2
  rw [wiped] at absent
  exact success_ne_abort ((getCnd_asStatus _ _ _).symm.trans (absent none_).1)

end ShapeQuake.ArenaIds
