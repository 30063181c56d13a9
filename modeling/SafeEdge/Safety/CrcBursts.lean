import SafeEdge.Library.BurstErrors
import SafeEdge.Safety.TelegramChecksum

/-! Bursts under the bare checksum: messages of one length that differ only inside a window of 32
bits have different checksums, so a trailing word and the checksum after it determine each
other. -/
namespace SafeEdge.Safety
open Library

namespace Crc32

theorem value_inj {a b : Crc32} (h : a.value = b.value) : a.state = b.state := by
  rw [value, value, ← UInt32.toBitVec_inj, UInt32.toBitVec_xor, UInt32.toBitVec_xor,
    BitVec.xor_left_inj] at h
  exact UInt32.toBitVec_inj.mp h

/-- From any running state, messages that differ only inside a window of 32 bits and give one
checksum are equal. -/
theorem eq_of_update_burst (crc : Crc32) {xs ys : List UInt8} (hlength : xs.length = ys.length)
    {start : ℕ} (hburst : ∀ p ∈ flippedBits xs ys, start ≤ p ∧ p < start + 32)
    (h : (crc.update xs).value = (crc.update ys).value) : xs = ys := by
  have hstate := congrArg UInt32.toBitVec (value_inj h)
  rw [update_state, update_state] at hstate
  apply toBitVec_map_injective
  exact eq_of_burst polynomial_shift_injective (by decide) (by simpa using hlength) hburst hstate

theorem uint32Le_injective : Function.Injective uint32Le := by
  intro a b h
  have hsymbols := congrArg (List.map UInt8.toBitVec) h
  rw [uint32Le_map_toBitVec, uint32Le_map_toBitVec] at hsymbols
  have hjoined := congrArg (joined 32) hsymbols
  rw [joined_symbols (by decide), joined_symbols (by decide)] at hjoined
  exact UInt32.toBitVec_inj.mp hjoined

theorem updateUint32_eq_update (crc : Crc32) (value : UInt32) :
    crc.updateUint32 value = crc.update (uint32Le value) := rfl

/-- A word is a burst of its own, so it can be told from the checksum after it. -/
theorem updateUint32_value_injective (crc : Crc32) :
    Function.Injective fun value => (crc.updateUint32 value).value := by
  intro a b h
  simp only [updateUint32_eq_update] at h
  have hwindow : ∀ p ∈ flippedBits (uint32Le a) (uint32Le b), 0 ≤ p ∧ p < 0 + 32 := by
    intro p hp
    have hin := (mem_differingBits.mp hp).1
    rw [List.length_map, length_uint32Le] at hin
    omega
  exact uint32Le_injective (eq_of_update_burst crc rfl hwindow h)

/-- The checksum separates messages of one length that differ, and do so only inside a window of
32 bits. From any running state the last word and the checksum after it determine each other. -/
theorem bursts_separated :
    (∀ xs ys : List UInt8, xs.length = ys.length → xs ≠ ys →
      (∃ start, ∀ p ∈ flippedBits xs ys, start ≤ p ∧ p < start + 32) →
      compute xs ≠ compute ys) ∧
    ∀ crc : Crc32, Function.Bijective fun value => (crc.updateUint32 value).value := by
  constructor
  · rintro xs ys hlength hne ⟨start, hburst⟩ hsame
    exact hne (eq_of_update_burst {} hlength hburst hsame)
  · intro crc
    have : Finite UInt32 := Finite.of_injective UInt32.toFin fun _ _ => UInt32.toFin_inj.mp
    exact Finite.injective_iff_bijective.mp (updateUint32_value_injective crc)

end Crc32
end SafeEdge.Safety
