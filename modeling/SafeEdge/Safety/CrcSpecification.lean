import SafeEdge.Library.SerialDivision
import SafeEdge.Safety.TelegramCodec

/-! The checksum is CRC-32/AUTOSAR: however its input is split into calls, the table-driven
register agrees with the division by the unreflected polynomial. -/
namespace SafeEdge.Safety
open Library

namespace Crc32

def kPolynomial : UInt32 := 0xF4ACFB13

/-- The checksum by its parameters: bits of the reflected bytes, most significant first, are
divided by `kPolynomial` from the initial register; the result is reflected and inverted. -/
def autosar (data : List UInt8) : UInt32 :=
  let bits := data.flatMap fun byte => msbFirst byte.toBitVec.reverse
  let remainder := divideBits kPolynomial.toBitVec kInitial.toBitVec bits
  UInt32.ofBitVec remainder.reverse ^^^ kFinalXor

end Crc32

/-- A call made to a running checksum. -/
inductive Crc32Call where
  | span (data : List UInt8)
  | byte (octet : UInt8)
  | uint16 (word : UInt16)
  | uint32 (word : UInt32)
  | value

/-- The bytes a call stands for. -/
def Crc32Call.bytes : Crc32Call → List UInt8
  | .span data => data
  | .byte octet => [octet]
  | .uint16 word => uint16Le word
  | .uint32 word => uint32Le word
  | .value => []

namespace Crc32

/-- The checksum after one call, and what the call returns. -/
def call (crc : Crc32) : Crc32Call → Crc32 × Option UInt32
  | .span data => (crc.update data, none)
  | .byte octet => (crc.updateByte octet, none)
  | .uint16 word => (crc.updateUint16 word, none)
  | .uint32 word => (crc.updateUint32 word, none)
  | .value => (crc, some crc.value)

/-- A fresh checksum after the given calls. -/
def after (calls : List Crc32Call) : Crc32 :=
  calls.foldl (fun crc c => (crc.call c).1) {}

theorem update_append (crc : Crc32) (xs ys : List UInt8) :
    crc.update (xs ++ ys) = (crc.update xs).update ys := List.foldl_append

/-- Every call is an update by its bytes. -/
theorem call_fst (crc : Crc32) (c : Crc32Call) : (crc.call c).1 = crc.update c.bytes := by
  cases c <;> rfl

theorem after_eq_update (calls : List Crc32Call) :
    after calls = ({} : Crc32).update (calls.flatMap Crc32Call.bytes) := by
  induction calls using List.reverseRecOn with
  | nil => rfl
  | append_singleton calls c ih =>
    rw [after, List.foldl_append, ← after, ih, List.flatMap_append, update_append]
    simp only [List.foldl_cons, List.foldl_nil, List.flatMap_singleton, call_fst]

/-- One pass over the bytes is the division of their bits. -/
theorem value_update (data : List UInt8) : (({} : Crc32).update data).value = autosar data := by
  have hpoly : polynomial.reverse = kPolynomial.toBitVec := by decide +kernel
  have hinit : (({} : Crc32).state.toBitVec).reverse = kInitial.toBitVec := by decide +kernel
  have hfeed := congrArg BitVec.reverse (update_state {} data)
  rw [reverse_feed (by decide) (by decide), hpoly, hinit, List.flatMap_map] at hfeed
  rw [value, autosar, ← hfeed, BitVec.reverse_reverse_eq]

/-- However a byte sequence is split into spans, bytes and little-endian words, and wherever
the value is asked for, the checksum is that of the bytes fed so far. -/
theorem checksum_is_autosar (calls : List Crc32Call) :
    (after calls).value = autosar (calls.flatMap Crc32Call.bytes) ∧
      (∀ n, ((after (calls.take n)).call .value).2 =
        some (autosar ((calls.take n).flatMap Crc32Call.bytes))) ∧
      compute (calls.flatMap Crc32Call.bytes) = autosar (calls.flatMap Crc32Call.bytes) := by
  have hvalue : ∀ cs : List Crc32Call,
      (after cs).value = autosar (cs.flatMap Crc32Call.bytes) := by
    intro cs
    rw [after_eq_update, value_update]
  refine ⟨hvalue calls, ?_, value_update _⟩
  intro n
  exact congrArg some (hvalue (calls.take n))

end Crc32
end SafeEdge.Safety
