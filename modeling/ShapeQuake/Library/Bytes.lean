import Mathlib.Data.List.Basic
import Mathlib.Data.List.TakeWhile
import Mathlib.Data.Nat.Bitwise

/-! Fixed-width words and byte stores. Words are naturals whose arithmetic
wraps explicitly; a byte store is a total function from positions to bytes, so
reading and overwriting a span are the only two operations it needs. -/
namespace ShapeQuake.Library.Bytes

/-! ## Words -/

/-- Unsigned 64-bit arithmetic keeps only the low 64 bits. -/
def wrap64 (n : Nat) : Nat := n % 2 ^ 64

theorem wrap64_of_lt (small : n < 2 ^ 64) : wrap64 n = n := Nat.mod_eq_of_lt small

theorem wrap64_lt (n : Nat) : wrap64 n < 2 ^ 64 := Nat.mod_lt _ (Nat.two_pow_pos 64)

/-- `(n + 15) & ~15` on 64-bit words. -/
def roundUp16 (n : Nat) : Nat := wrap64 (n + 15) &&& (2 ^ 64 - 16)

/-- Clearing the low four bits of a 64-bit word drops its remainder by 16. -/
private theorem clear_low_four (small : n < 2 ^ 64) : n &&& (2 ^ 64 - 16) = n / 16 * 16 := by
  have mask : (2 ^ 64 - 16 : Nat) = (2 ^ 60 - 1) * 2 ^ 4 := rfl
  apply Nat.eq_of_testBit_eq
  intro bit
  have shifted := Nat.testBit_mul_two_pow (n / 16) bit 4
  have masked := Nat.testBit_mul_two_pow (2 ^ 60 - 1) bit 4
  have divided := Nat.testBit_div_two_pow (n := 4) n (bit - 4)
  rw [Nat.testBit_two_pow_sub_one] at masked
  rw [Nat.testBit_and, mask, masked, show n / 16 * 16 = n / 16 * 2 ^ 4 by rfl, shifted]
  by_cases low : 4 ≤ bit
  · rw [Nat.sub_add_cancel low] at divided
    rw [show n / 16 = n / 2 ^ 4 by rfl, divided]
    by_cases high : bit - 4 < 60
    · simp [low, high]
    · -- a bit past the sixtieth of the quotient is a bit past the word
      have beyond : n.testBit bit = false :=
        Nat.testBit_lt_two_pow (Nat.lt_of_lt_of_le small
          (Nat.pow_le_pow_right Nat.two_pos (by omega)))
      simp [beyond]
  · simp [low]

theorem roundUp16_eq (n : Nat) : roundUp16 n = wrap64 (n + 15) / 16 * 16 :=
  clear_low_four (wrap64_lt _)

theorem roundUp16_dvd (n : Nat) : 16 ∣ roundUp16 n := by
  rw [roundUp16_eq]
  exact Nat.dvd_mul_left 16 _

/-- A sum of multiples of 16 is one, also where it wraps. -/
theorem wrap64_dvd (first : 16 ∣ m) (second : 16 ∣ n) : 16 ∣ wrap64 (m + n) := by
  have unit : 16 ∣ 2 ^ 64 := by decide
  exact (Nat.dvd_mod_iff unit).mpr (Nat.dvd_add first second)

theorem roundUp16_le (small : n + 15 < 2 ^ 64) : n ≤ roundUp16 n := by
  rw [roundUp16_eq, wrap64_of_lt small]
  omega

/-- A number can be rounded up behind an offset without a wrapped sum exactly if there is
room for it and sixteen more. -/
theorem add_roundUp16_lt_iff (whole : 16 ∣ offset) :
    n + 15 < 2 ^ 64 ∧ offset + roundUp16 n < 2 ^ 64 ↔ offset + n + 16 ≤ 2 ^ 64 := by
  constructor
  · rintro ⟨small, fits⟩
    rw [roundUp16_eq, wrap64_of_lt small] at fits
    omega
  · intro room
    have small : n + 15 < 2 ^ 64 := by omega
    refine ⟨small, ?_⟩
    rw [roundUp16_eq, wrap64_of_lt small]
    omega

/-- Rounding is idempotent: a multiple of 16 is its own rounding. -/
theorem roundUp16_of_dvd (whole : 16 ∣ n) (small : n + 15 < 2 ^ 64) : roundUp16 n = n := by
  rw [roundUp16_eq, wrap64_of_lt small]
  omega

/-! ## Little-endian words -/

/-- The `width` little-endian bytes of a word. -/
def toBytes : Nat → Nat → List UInt8
  | 0, _ => []
  | width + 1, n => UInt8.ofNat n :: toBytes width (n / 256)

/-- The word with these little-endian bytes. -/
def ofBytes : List UInt8 → Nat
  | [] => 0
  | byte :: rest => byte.toNat + 256 * ofBytes rest

@[simp] theorem toBytes_length (width n : Nat) : (toBytes width n).length = width := by
  induction width generalizing n with
  | zero => rfl
  | succ width ih => simp [toBytes, ih]

/-- A word that fits its width is read back exactly. -/
theorem ofBytes_toBytes (fits : n < 256 ^ width) : ofBytes (toBytes width n) = n := by
  induction width generalizing n with
  | zero => simp only [Nat.pow_zero] at fits; simp [toBytes, ofBytes]; omega
  | succ width ih =>
    have quotient : n / 256 < 256 ^ width := by
      rw [Nat.pow_succ] at fits
      exact Nat.div_lt_of_lt_mul (by omega)
    simp only [toBytes, ofBytes, ih quotient, UInt8.toNat_ofNat']
    omega

/-- A word is below the bound of its width. -/
theorem ofBytes_lt (bytes : List UInt8) : ofBytes bytes < 256 ^ bytes.length := by
  induction bytes with
  | nil => exact Nat.one_pos
  | cons byte rest ih =>
    have small := byte.toNat_lt
    rw [ofBytes, List.length_cons, Nat.pow_succ]
    omega

/-! ## C strings -/

/-- The C string at the start of the bytes. -/
def untilNull (bytes : List UInt8) : List UInt8 := bytes.takeWhile (· ≠ 0)

theorem untilNull_of_solid (solid : 0 ∉ bytes) : untilNull bytes = bytes := by
  have kept : (bytes ++ []).takeWhile (· ≠ 0) = bytes ++ [].takeWhile (· ≠ 0) :=
    List.takeWhile_append_of_pos fun byte member => decide_eq_true fun zero => solid (zero ▸ member)
  simpa [untilNull] using kept

/-- A C string holds no null. -/
theorem untilNull_solid (bytes : List UInt8) : 0 ∉ untilNull bytes := by
  intro null
  simpa using List.mem_takeWhile_imp null

/-- A C string ends at the first null. -/
theorem untilNull_terminated (solid : 0 ∉ text) (rest : List UInt8) :
    untilNull (text ++ [0] ++ rest) = text := by
  rw [List.append_assoc]
  refine (List.takeWhile_append_of_pos fun byte member => ?_).trans (by simp)
  exact decide_eq_true fun zero => solid (zero ▸ member)

/-! ## Byte stores -/

/-- The contents of a span of memory, by position. -/
abbrev Store := Nat → UInt8

/-- Fresh zeroed memory. -/
def zeros : Store := fun _ => 0

/-- The `count` bytes from position `offset` on. -/
def readBytes (store : Store) : Nat → Nat → List UInt8
  | _, 0 => []
  | offset, count + 1 => store offset :: readBytes store (offset + 1) count

/-- Overwrites the bytes from position `offset` on. -/
def writeBytes (store : Store) (offset : Nat) (bytes : List UInt8) : Store :=
  fun i => if offset ≤ i ∧ i < offset + bytes.length then bytes.getD (i - offset) 0 else store i

/-- `memset(_, 0, count)` at position `offset`. -/
def clearBytes (store : Store) (offset count : Nat) : Store :=
  fun i => if offset ≤ i ∧ i < offset + count then 0 else store i

@[simp] theorem readBytes_length (store : Store) (offset count : Nat) :
    (readBytes store offset count).length = count := by
  induction count generalizing offset with
  | zero => rfl
  | succ count ih => simp [readBytes, ih]

theorem readBytes_congr (same : ∀ i, offset ≤ i → i < offset + count → first i = second i) :
    readBytes first offset count = readBytes second offset count := by
  induction count generalizing offset with
  | zero => rfl
  | succ count ih =>
    simp only [readBytes]
    rw [same offset (Nat.le_refl _) (by omega),
      ih (fun i lower upper => same i (by omega) (by omega))]

theorem readBytes_append (store : Store) (offset first second : Nat) :
    readBytes store offset (first + second) =
      readBytes store offset first ++ readBytes store (offset + first) second := by
  induction first generalizing offset with
  | zero => simp [readBytes]
  | succ first ih =>
    rw [Nat.succ_add]
    simp only [readBytes, List.cons_append, ih, Nat.add_assoc, Nat.add_comm 1 first]

theorem writeBytes_outside (outside : i < offset ∨ offset + bytes.length ≤ i) :
    writeBytes store offset bytes i = store i := by
  simp only [writeBytes]
  rw [if_neg (by omega)]

/-- Bytes just written are read back, from any point inside the span. -/
theorem readBytes_writeBytes (within : skip + count ≤ bytes.length) :
    readBytes (writeBytes store offset bytes) (offset + skip) count =
      (bytes.drop skip).take count := by
  induction count generalizing skip with
  | zero => simp [readBytes]
  | succ count ih =>
    have held : skip < bytes.length := by omega
    have step : readBytes (writeBytes store offset bytes) (offset + (skip + 1)) count =
        (bytes.drop (skip + 1)).take count := ih (by omega)
    rw [List.drop_eq_getElem_cons held, List.take_succ_cons]
    simp only [readBytes]
    rw [Nat.add_assoc, step]
    congr 1
    simp only [writeBytes, Nat.add_sub_cancel_left]
    rw [if_pos (by omega)]
    simp [held]

/-- A span clear of the written one keeps its bytes. -/
theorem readBytes_writeBytes_apart
    (apart : from_ + count ≤ offset ∨ offset + bytes.length ≤ from_) :
    readBytes (writeBytes store offset bytes) from_ count = readBytes store from_ count :=
  readBytes_congr (fun _ _ _ => writeBytes_outside (by omega))

/-- What was just written is read back. -/
theorem readBytes_written (store : Store) (offset : Nat) (bytes : List UInt8) :
    readBytes (writeBytes store offset bytes) offset bytes.length = bytes := by
  have whole : readBytes (writeBytes store offset bytes) (offset + 0) bytes.length =
      (bytes.drop 0).take bytes.length := readBytes_writeBytes (by omega)
  simpa using whole

/-- Bytes stored behind others are read back behind them. -/
theorem readBytes_writeBytes_end (store : Store) (count : Nat) (bytes : List UInt8) :
    readBytes (writeBytes store count bytes) 0 (count + bytes.length) =
      readBytes store 0 count ++ bytes := by
  rw [readBytes_append, readBytes_writeBytes_apart (Or.inl (by omega)), Nat.zero_add,
    readBytes_written]

/-- Bytes written one behind the other are written as a whole. -/
theorem writeBytes_append (store : Store) (offset : Nat) (first second : List UInt8) :
    writeBytes (writeBytes store offset first) (offset + first.length) second =
      writeBytes store offset (first ++ second) := by
  funext i
  simp only [writeBytes, List.length_append]
  by_cases later : offset + first.length ≤ i ∧ i < offset + first.length + second.length
  · rw [if_pos later, if_pos (by omega), List.getD_append_right _ _ _ _ (by omega)]
    congr 1
    omega
  · rw [if_neg later]
    by_cases earlier : offset ≤ i ∧ i < offset + first.length
    · rw [if_pos earlier, if_pos (by omega), List.getD_append _ _ _ _ (by omega)]
    · rw [if_neg earlier, if_neg (by omega)]

/-- Bytes that lie in a store one by one are read as a whole. -/
theorem readBytes_eq {bytes : List UInt8} (same : ∀ i < bytes.length, store (offset + i) = bytes.getD i 0) :
    readBytes store offset bytes.length = bytes := by
  induction bytes generalizing offset with
  | nil => rfl
  | cons byte rest ih =>
    have first : store offset = byte := same 0 (Nat.succ_pos _)
    have others : readBytes store (offset + 1) rest.length = rest := by
      apply ih
      intro i held
      have here := same (i + 1) (Nat.succ_lt_succ held)
      rwa [Nat.add_comm i 1, ← Nat.add_assoc, Nat.add_comm 1 i, List.getD_cons_succ] at here
    rw [List.length_cons, readBytes, first, others]

/-- Bytes stored inside a zero span leave it zero exactly if they are zeros. -/
theorem writeBytes_zero_iff (zero : ∀ i < count, store i = 0) (inside : offset + bytes.length ≤ count) :
    (∀ i < count, writeBytes store offset bytes i = 0) ↔ ∀ byte ∈ bytes, byte = 0 := by
  constructor
  · intro after byte member
    obtain ⟨i, held, rfl⟩ := List.mem_iff_getElem.mp member
    have stored := after (offset + i) (by omega)
    simp only [writeBytes] at stored
    rw [if_pos (by omega)] at stored
    simpa [held] using stored
  · intro zeros i within
    simp only [writeBytes]
    split
    · rename_i here
      have held : i - offset < bytes.length := by omega
      rw [List.getD_eq_getElem _ _ held]
      exact zeros _ (List.getElem_mem held)
    · exact zero i within

theorem clearBytes_inside (inside : offset ≤ i ∧ i < offset + count) :
    clearBytes store offset count i = 0 := if_pos inside

theorem clearBytes_outside (outside : i < offset ∨ offset + count ≤ i) :
    clearBytes store offset count i = store i := by
  simp only [clearBytes]
  rw [if_neg (by omega)]

/-! ## Words in a store -/

/-- The little-endian word of this width at a position. -/
def readWord (store : Store) (offset width : Nat) : Nat := ofBytes (readBytes store offset width)

/-- The store with a word of this width at a position. -/
def writeWord (store : Store) (offset width value : Nat) : Store :=
  writeBytes store offset (toBytes width value)

theorem readWord_congr (same : ∀ i, offset ≤ i → i < offset + width → first i = second i) :
    readWord first offset width = readWord second offset width := by
  rw [readWord, readBytes_congr same, readWord]

theorem readWord_written (fits : value < 256 ^ width) (store : Store) (offset : Nat) :
    readWord (writeWord store offset width value) offset width = value := by
  have stored := readBytes_written store offset (toBytes width value)
  rw [toBytes_length] at stored
  rw [readWord, writeWord, stored, ofBytes_toBytes fits]

theorem readWord_apart (apart : from_ + width ≤ offset ∨ offset + bytes.length ≤ from_) :
    readWord (writeBytes store offset bytes) from_ width = readWord store from_ width := by
  rw [readWord, readBytes_writeBytes_apart apart, readWord]

theorem readWord_writeWord_apart (apart : from_ + width ≤ offset ∨ offset + other ≤ from_) :
    readWord (writeWord store offset other value) from_ width = readWord store from_ width :=
  readWord_apart (by rwa [toBytes_length])

/-! ## Records -/

/-- The fields of a record one after the other, each as wide as the layout says. -/
def encodeFields : List Nat → List Nat → List UInt8
  | width :: layout, value :: values => toBytes width value ++ encodeFields layout values
  | _, _ => []

/-- The fields of the record stored at a position. -/
def decodeFields (store : Store) : Nat → List Nat → List Nat
  | _, [] => []
  | offset, width :: layout =>
    ofBytes (readBytes store offset width) :: decodeFields store (offset + width) layout

/-- Each value fits the width of its field. -/
def FieldsFit (layout values : List Nat) : Prop :=
  List.Forall₂ (fun width value => value < 256 ^ width) layout values

theorem encodeFields_length (fit : FieldsFit layout values) :
    (encodeFields layout values).length = layout.sum := by
  induction fit with
  | nil => rfl
  | cons _ _ ih => simp [encodeFields, ih]

/-- A record depends on no bytes but its own. -/
theorem decodeFields_congr
    (same : readBytes first offset layout.sum = readBytes second offset layout.sum) :
    decodeFields first offset layout = decodeFields second offset layout := by
  induction layout generalizing offset with
  | nil => rfl
  | cons width layout ih =>
    rw [List.sum_cons, readBytes_append, readBytes_append] at same
    obtain ⟨here, others⟩ := List.append_inj same (by simp)
    rw [decodeFields, decodeFields, here, ih others]

/-- A record is read back from wherever its bytes are stored. -/
theorem decodeFields_stored (fit : FieldsFit layout values)
    (stored : readBytes store offset layout.sum = encodeFields layout values) :
    decodeFields store offset layout = values := by
  induction fit generalizing offset with
  | nil => rfl
  | @cons width value layout values here rest ih =>
    rw [List.sum_cons, readBytes_append, encodeFields] at stored
    obtain ⟨first, others⟩ := List.append_inj stored (by simp)
    rw [decodeFields, first, ofBytes_toBytes here, ih others]

end ShapeQuake.Library.Bytes
