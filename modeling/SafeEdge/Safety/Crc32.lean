import SafeEdge.Library.ShiftRegister

/-! The table-driven CRC-32/AUTOSAR of the safety telegrams, and its agreement with the bitwise
feedback register. -/
namespace SafeEdge.Safety
open Library

/-- A running checksum. -/
structure Crc32 where
  state : UInt32 := 0xFFFFFFFF
deriving DecidableEq, Repr

namespace Crc32

def kReflectedPolynomial : UInt32 := 0xC8DF352F

def kInitial : UInt32 := 0xFFFFFFFF

def kFinalXor : UInt32 := 0xFFFFFFFF

/-- The checksum of the ASCII text `123456789`. -/
def kCheckValue : UInt32 := 0x1697D06A

/-- The body of the inner loop of the table construction. -/
def tableStep (remainder : UInt32) : UInt32 :=
  if remainder &&& 1 ≠ 0 then (remainder >>> 1) ^^^ kReflectedPolynomial else remainder >>> 1

def buildTable : Vector UInt32 256 :=
  Vector.ofFn fun index => tableStep^[8] (UInt32.ofNat index.val)

def kTable : Vector UInt32 256 := buildTable

def updateByte (crc : Crc32) (byte : UInt8) : Crc32 :=
  let index := (crc.state ^^^ byte.toUInt32).toUInt8
  { state := (crc.state >>> 8) ^^^ kTable.get index.toFin }

def update (crc : Crc32) (data : List UInt8) : Crc32 :=
  data.foldl updateByte crc

def updateUint16 (crc : Crc32) (value : UInt16) : Crc32 :=
  (crc.updateByte (value &&& 0xFF).toUInt8).updateByte ((value >>> 8) &&& 0xFF).toUInt8

def updateUint32 (crc : Crc32) (value : UInt32) : Crc32 :=
  (((crc.updateByte (value &&& 0xFF).toUInt8).updateByte
    ((value >>> 8) &&& 0xFF).toUInt8).updateByte
      ((value >>> 16) &&& 0xFF).toUInt8).updateByte ((value >>> 24) &&& 0xFF).toUInt8

def value (crc : Crc32) : UInt32 := crc.state ^^^ kFinalXor

def compute (data : List UInt8) : UInt32 := (({} : Crc32).update data).value

/-- The feedback polynomial of the register the checksum runs. -/
def polynomial : BitVec 32 := kReflectedPolynomial.toBitVec

theorem and_one_ne_zero_iff (x : UInt32) : x &&& 1 ≠ 0 ↔ x.toBitVec.getLsbD 0 = true := by
  rw [ne_eq, ← UInt32.toBitVec_inj, UInt32.toBitVec_and]
  change ¬ x.toBitVec &&& 1#32 = 0#32 ↔ _
  rw [BitVec.and_one_eq_setWidth_ofBool_getLsbD]
  cases x.toBitVec.getLsbD 0 <;> decide

theorem tableStep_toBitVec (remainder : UInt32) :
    (tableStep remainder).toBitVec = shift polynomial remainder.toBitVec := by
  unfold tableStep shift
  by_cases h : remainder &&& 1 ≠ 0
  · rw [if_pos h, if_pos ((and_one_ne_zero_iff _).mp h)]
    rfl
  · rw [if_neg h, if_neg (fun hb => h ((and_one_ne_zero_iff _).mpr hb))]
    rfl

theorem tableStep_iterate_toBitVec (n : ℕ) (remainder : UInt32) :
    (tableStep^[n] remainder).toBitVec = (shift polynomial)^[n] remainder.toBitVec := by
  induction n generalizing remainder with
  | zero => rfl
  | succ n ih => rw [Function.iterate_succ_apply, ih, tableStep_toBitVec]; rfl

/-- The table entry of a byte is that byte after eight steps of the register. -/
theorem kTable_toBitVec (index : UInt8) :
    (kTable.get index.toFin).toBitVec =
      (shift polynomial)^[8] (index.toBitVec.setWidth 32) := by
  have hentry : kTable.get index.toFin = tableStep^[8] (UInt32.ofNat index.toNat) :=
    Vector.getElem_ofFn index.toNat_lt
  have hword : UInt32.ofNat index.toNat = index.toUInt32 := by simp
  rw [hentry, tableStep_iterate_toBitVec, hword]
  rfl

/-- One table lookup is eight steps of the register on the state with the byte mixed in. -/
theorem updateByte_state (crc : Crc32) (byte : UInt8) :
    (crc.updateByte byte).state.toBitVec =
      (shift polynomial)^[8] (crc.state.toBitVec ^^^ byte.toBitVec.setWidth 32) := by
  have hindex : (crc.state ^^^ byte.toUInt32).toUInt8.toBitVec =
      (crc.state.toBitVec ^^^ byte.toBitVec.setWidth 32).setWidth 8 := rfl
  have hmoved : (crc.state.toBitVec ^^^ byte.toBitVec.setWidth 32) >>> 8 =
      crc.state.toBitVec >>> 8 := by
    ext i hi
    simp
  rw [shift_iterate_split, hmoved, ← hindex, ← kTable_toBitVec]
  rfl

/-- Feeding a span through the table is feeding its bytes to the register. -/
theorem update_state (crc : Crc32) (data : List UInt8) :
    (crc.update data).state.toBitVec =
      feed polynomial crc.state.toBitVec (data.map UInt8.toBitVec) := by
  induction data generalizing crc with
  | nil => rfl
  | cons byte data ih =>
    rw [List.map_cons, feed_cons, ← updateByte_state]
    exact ih (crc.updateByte byte)

example : (compute [0x31, 0x32, 0x33, 0x34, 0x35, 0x36, 0x37, 0x38, 0x39]) = kCheckValue := by
  decide +kernel

end Crc32
end SafeEdge.Safety
