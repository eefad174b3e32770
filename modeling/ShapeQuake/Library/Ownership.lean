import Mathlib.Data.List.Nodup

/-! What a program owes its heap. A block is named by the call that returned it, so
no name comes back, and whether a call is refused is an argument. Ownership of some
blocks is stated with everything else that is live beside them, so a rule about one
operation is a rule about it in every context. -/
namespace ShapeQuake.Library.Ownership

/-- The calls of `malloc` and `realloc` so far, the blocks that are live, and
whether every block given back was. -/
structure Ledger where
  calls : Nat
  live : List Nat
  sound : Bool
  distinct : live.Nodup
  fresh : ∀ block ∈ live, block < calls
  deriving DecidableEq

namespace Ledger

/-- Nothing has been asked for. -/
def start : Ledger := ⟨0, [], true, List.nodup_nil, List.forall_mem_nil _⟩

/-- A call that returns null. -/
def refused (ledger : Ledger) : Ledger where
  calls := ledger.calls + 1
  live := ledger.live
  sound := ledger.sound
  distinct := ledger.distinct
  fresh := fun block member => Nat.lt_succ_of_lt (ledger.fresh block member)

/-- A call that returns a block. -/
def granted (ledger : Ledger) : Ledger where
  calls := ledger.calls + 1
  live := ledger.calls :: ledger.live
  sound := ledger.sound
  distinct := List.nodup_cons.mpr
    ⟨fun member => Nat.lt_irrefl _ (ledger.fresh _ member), ledger.distinct⟩
  fresh := fun block member => by
    rcases List.mem_cons.mp member with rfl | older
    · exact Nat.lt_succ_self _
    · exact Nat.lt_succ_of_lt (ledger.fresh block older)

/-- `free` of a block. -/
def free (ledger : Ledger) (block : Nat) : Ledger where
  calls := ledger.calls
  live := ledger.live.erase block
  sound := ledger.sound && decide (block ∈ ledger.live)
  distinct := ledger.distinct.erase block
  fresh := fun other member => ledger.fresh other (List.mem_of_mem_erase member)

/-- `malloc`. -/
def malloc (alloc : Nat → Bool) (ledger : Ledger) : Option Nat × Ledger :=
  if alloc ledger.calls = true then (some ledger.calls, ledger.granted) else (none, ledger.refused)

/-- `realloc` of a block: the old one is gone when it succeeds, and stays otherwise. -/
def realloc (alloc : Nat → Bool) (ledger : Ledger) (block : Nat) : Option Nat × Ledger :=
  if alloc ledger.calls = true then (some ledger.calls, (ledger.free block).granted)
  else (none, ledger.refused)

/-- Nothing was freed that was not live, and what is live are these blocks, each once. -/
structure Owns (ledger : Ledger) (blocks : List Nat) : Prop where
  sound : ledger.sound = true
  live : ledger.live.Perm blocks

@[simp] theorem refused_calls (ledger : Ledger) : ledger.refused.calls = ledger.calls + 1 := rfl

@[simp] theorem granted_calls (ledger : Ledger) : ledger.granted.calls = ledger.calls + 1 := rfl

@[simp] theorem free_calls (ledger : Ledger) (block : Nat) : (ledger.free block).calls = ledger.calls :=
  rfl

variable {ledger : Ledger} {block : Nat} {blocks others frame : List Nat} {alloc : Nat → Bool}

theorem owns_start : start.Owns [] := ⟨rfl, List.Perm.refl _⟩

theorem Owns.perm (owned : ledger.Owns blocks) (same : blocks.Perm others) : ledger.Owns others :=
  ⟨owned.sound, owned.live.trans same⟩

theorem Owns.refused (owned : ledger.Owns frame) : ledger.refused.Owns frame := ⟨owned.sound, owned.live⟩

theorem Owns.granted (owned : ledger.Owns frame) : ledger.granted.Owns (ledger.calls :: frame) :=
  ⟨owned.sound, owned.live.cons _⟩

/-- A block that is owned can be given back, and is not owned behind that. -/
theorem Owns.free (owned : ledger.Owns (block :: frame)) : (ledger.free block).Owns frame := by
  have live : block ∈ ledger.live := owned.live.mem_iff.mpr (List.mem_cons_self ..)
  constructor
  · simp [Ledger.free, owned.sound, live]
  · have erased := owned.live.erase block
    rwa [List.erase_cons_head] at erased

/-- The blocks of a list are given back one by one. -/
theorem Owns.freeAll (owned : ledger.Owns (blocks ++ frame)) :
    (blocks.foldl Ledger.free ledger).Owns frame := by
  induction blocks generalizing ledger with
  | nil => exact owned
  | cons block rest ih => exact ih owned.free

theorem malloc_refused (ledger : Ledger) (fails : alloc ledger.calls = false) :
    malloc alloc ledger = (none, ledger.refused) := by
  rw [malloc, if_neg (by rw [fails]; exact Bool.false_ne_true)]

theorem malloc_granted (ledger : Ledger) (succeeds : alloc ledger.calls = true) :
    malloc alloc ledger = (some ledger.calls, ledger.granted) := if_pos succeeds

theorem realloc_refused (ledger : Ledger) (fails : alloc ledger.calls = false) :
    realloc alloc ledger block = (none, ledger.refused) := by
  rw [realloc, if_neg (by rw [fails]; exact Bool.false_ne_true)]

theorem realloc_granted (ledger : Ledger) (succeeds : alloc ledger.calls = true) :
    realloc alloc ledger block = (some ledger.calls, (ledger.free block).granted) := if_pos succeeds

end Ledger

end ShapeQuake.Library.Ownership
