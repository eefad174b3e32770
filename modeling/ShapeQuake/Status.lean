import Mathlib.Data.List.Basic

/-! The packed status word of `status.h`: a category, a condition and a code in
disjoint bit ranges of one 64-bit word. Callers only ever test the condition
range, so what matters is that packing never lets one range leak into another.
Printing a status needs its category by name, and not every category has one. -/
namespace ShapeQuake

/-- `cat_t`: bits 48 to 63. -/
inductive Cat where
  | shellExecuter | shellPty | arena | response | value | server | heap | heapTracker | reactor | db
  deriving DecidableEq, Repr

def Cat.raw : Cat → BitVec 64
  | .shellExecuter => 0x0011#64 <<< 48
  | .shellPty => 0x0012#64 <<< 48
  | .arena => 0x00A0#64 <<< 48
  | .response => 0x00B0#64 <<< 48
  | .value => 0x00C0#64 <<< 48
  | .server => 0x00D0#64 <<< 48
  | .heap => 0x0300#64 <<< 48
  | .heapTracker => 0x0310#64 <<< 48
  | .reactor => 0x0500#64 <<< 48
  | .db => 0x0600#64 <<< 48

/-- `cnd_t`: one bit of the bits 32 to 47. -/
inductive Cnd where
  | success | failure | info | fatal | refuse | invalid | abort | dead | retry
  deriving DecidableEq, Repr

def Cnd.raw : Cnd → BitVec 64
  | .success => (1#64 <<< 0) <<< 32
  | .failure => (1#64 <<< 1) <<< 32
  | .info => (1#64 <<< 2) <<< 32
  | .fatal => (1#64 <<< 5) <<< 32
  | .refuse => (1#64 <<< 7) <<< 32
  | .invalid => (1#64 <<< 10) <<< 32
  | .abort => (1#64 <<< 12) <<< 32
  | .dead => (1#64 <<< 14) <<< 32
  | .retry => (1#64 <<< 15) <<< 32

/-- `code_t`: bits 0 to 31. The last is one of the bare arena codes. -/
inductive Code where
  | param | magic | connection | set | value | send | recv | open | alloc | clear | destroy | free
  | calculation | notFound | exit | contains | dbInsert | resourceHeld
  deriving DecidableEq, Repr

def Code.raw : Code → BitVec 64
  | .param => 0x0001#64 <<< 16
  | .magic => 0x0003#64 <<< 16
  | .connection => 0x0004#64 <<< 16
  | .set => 0x0007#64 <<< 16
  | .value => 0x0008#64 <<< 16
  | .send => 0x0009#64 <<< 16
  | .recv => 0x000A#64 <<< 16
  | .open => 0x000B#64 <<< 16
  | .alloc => 0x000F#64 <<< 16
  | .clear => 0x0010#64 <<< 16
  | .destroy => 0x0020#64 <<< 16
  | .free => 0x0030#64 <<< 16
  | .calculation => 0x0040#64 <<< 16
  | .notFound => 0x0061#64 <<< 16
  | .exit => 0x0080#64 <<< 16
  | .contains => 0x00A0#64 <<< 16
  | .dbInsert => 0x00C1#64 <<< 16
  | .resourceHeld => 0x00000020#64

/-- `status_t`. -/
structure Status where
  raw : BitVec 64
  deriving DecidableEq, Repr

def maskCat : BitVec 64 := 0xFFFF#64 <<< 48

def maskCnd : BitVec 64 := 0xFFFF#64 <<< 32

/-- `asstatus`. -/
def asStatus (cat : Cat) (condition : Cnd) (code : Code) : Status :=
  ⟨cat.raw ||| condition.raw ||| code.raw⟩

/-- `get_cat`. -/
def getCat (status : Status) : BitVec 64 := status.raw &&& maskCat

/-- `get_cnd`, as the bits callers compare with a condition. -/
def getCnd (status : Status) : BitVec 64 := status.raw &&& maskCnd

/-- `status_cat_name`, for the categories above. The switch has no case for
`CAT_SHELL_EXECUTER`, `CAT_SHELL_PTY` and `CAT_DB`, and no return behind it. -/
def statusCatName (category : BitVec 64) : Option String :=
  [(Cat.arena, "CAT_ARENA"), (.response, "CAT_RESPONSE"), (.value, "CAT_VALUE"), (.server, "CAT_SERVER"),
    (.heap, "CAT_HEAP"), (.heapTracker, "CAT_HEAP_TRACKER"), (.reactor, "CAT_REACTOR")].findSome?
    fun entry => if entry.1.raw = category then some entry.2 else none

/-- `dbgmsg`, as the name it prints for the category. Without one the `%s` of `prompt_body`
is given a pointer that nothing has set, and the process goes no further. -/
def dbgmsg (status : Status) : Option String := statusCatName (getCat status)

private theorem cat_clear_of_condition (cat : Cat) : cat.raw &&& maskCnd = 0#64 := by
  cases cat <;> rfl

private theorem code_clear_of_condition (code : Code) : code.raw &&& maskCnd = 0#64 := by
  cases code <;> rfl

private theorem condition_within_mask (condition : Cnd) :
    condition.raw &&& maskCnd = condition.raw := by
  cases condition <;> rfl

/-- Packing keeps the condition readable whatever category and code go with it. -/
@[simp] theorem getCnd_asStatus (cat : Cat) (condition : Cnd) (code : Code) :
    getCnd (asStatus cat condition code) = condition.raw := by
  simp only [getCnd, asStatus, BitVec.and_or_distrib_right, cat_clear_of_condition,
    code_clear_of_condition, condition_within_mask, BitVec.zero_or, BitVec.or_zero]

private theorem cat_within_mask (cat : Cat) : cat.raw &&& maskCat = cat.raw := by
  cases cat <;> rfl

private theorem condition_clear_of_cat (condition : Cnd) : condition.raw &&& maskCat = 0#64 := by
  cases condition <;> rfl

private theorem code_clear_of_cat (code : Code) : code.raw &&& maskCat = 0#64 := by
  cases code <;> rfl

/-- Packing keeps the category readable. -/
@[simp] theorem getCat_asStatus (cat : Cat) (condition : Cnd) (code : Code) :
    getCat (asStatus cat condition code) = cat.raw := by
  simp only [getCat, asStatus, BitVec.and_or_distrib_right, cat_within_mask, condition_clear_of_cat,
    code_clear_of_cat, BitVec.or_zero]

/-- Printing a status comes to an end exactly if its category is in the table. -/
theorem dbgmsg_eq_none_iff : dbgmsg (asStatus cat condition code) = none ↔
    cat = .shellExecuter ∨ cat = .shellPty ∨ cat = .db := by
  rw [dbgmsg, getCat_asStatus]
  cases cat <;> decide

theorem Cnd.raw_injective {first second : Cnd} (same : first.raw = second.raw) :
    first = second := by
  cases first <;> cases second <;> first | rfl | exact absurd same (by decide)

/-- A status does not compare equal to a condition it was not packed with. -/
theorem getCnd_ne (different : condition ≠ other) :
    getCnd (asStatus cat condition code) ≠ other.raw := by
  rw [getCnd_asStatus]
  exact fun same => different (Cnd.raw_injective same)

end ShapeQuake
