import SafeEdge.Safety.CrcDistance
import SafeEdge.Safety.ReceiverStep

/-! The checksum of whole telegrams: the register over data, address and checksum field ends
in one residue exactly on authentic frames, so up to five flipped bits are always caught. -/
namespace SafeEdge.Safety
open Library

/-- The checksum register after the given bytes, from its initial value. -/
def register (bytes : List UInt8) : BitVec 32 :=
  feed Crc32.polynomial (BitVec.allOnes 32) (bytes.map UInt8.toBitVec)

theorem computeTelegramCrc_eq_update (address : SafetyAddress) (payload : List UInt8)
    (status : UInt8) (number : UInt32) :
    computeTelegramCrc address payload status number =
      (({} : Crc32).update (dataBytes payload status number ++ addressBytes address)).value := by
  simp only [Crc32.update, dataBytes, List.foldl_append]
  rfl

theorem computeTelegramCrc_toBitVec (address : SafetyAddress) (payload : List UInt8)
    (status : UInt8) (number : UInt32) :
    (computeTelegramCrc address payload status number).toBitVec =
      register (dataBytes payload status number ++ addressBytes address) ^^^
        BitVec.allOnes 32 := by
  rw [computeTelegramCrc_eq_update, Crc32.value, UInt32.toBitVec_xor, Crc32.update_state]
  rfl

theorem register_append_uint32Le (bytes : List UInt8) (value : UInt32) :
    register (bytes ++ uint32Le value) =
      (shift Crc32.polynomial)^[32] (register bytes ^^^ value.toBitVec) := by
  rw [register, List.map_append, feed_append, uint32Le_map_toBitVec,
    feed_eq_joined _ _ _ (by simp), joined_symbols (by decide), length_symbols]
  rfl

theorem polynomial_shift_injective : Function.Injective (shift Crc32.polynomial) :=
  shift_injective (by decide)

/-- The state of the register after any authentic frame. -/
def residue : BitVec 32 := (shift Crc32.polynomial)^[32] (BitVec.allOnes 32)

/-- The transmitted data, the address in its place, and the checksum field. -/
def checkedBytes (address : SafetyAddress) (payload : List UInt8) (status : UInt8)
    (number crc : UInt32) : List UInt8 :=
  dataBytes payload status number ++ addressBytes address ++ uint32Le crc

/-- A checksum field is right exactly when it leaves the register in the residue. -/
theorem crc_eq_iff_residue (address : SafetyAddress) (payload : List UInt8) (status : UInt8)
    (number crc : UInt32) :
    crc = computeTelegramCrc address payload status number ↔
      register (checkedBytes address payload status number crc) = residue := by
  rw [checkedBytes, register_append_uint32Le, residue,
    (polynomial_shift_injective.iterate 32).eq_iff, ← UInt32.toBitVec_inj,
    computeTelegramCrc_toBitVec]
  constructor
  · intro h
    rw [h, ← BitVec.xor_assoc, BitVec.xor_self, BitVec.zero_xor]
  · intro h
    rw [← h, ← BitVec.xor_assoc, BitVec.xor_self, BitVec.zero_xor]

/-- The bit positions, least significant bit of the first byte first, at which a received
frame differs from the one sent. -/
def flippedBits (sent received : List UInt8) : Finset ℕ :=
  differingBits (sent.map UInt8.toBitVec) (received.map UInt8.toBitVec)

theorem card_flippedBits_append {sent received : List UInt8}
    (h : sent.length = received.length) (sent' received' : List UInt8) :
    (flippedBits (sent ++ sent') (received ++ received')).card =
      (flippedBits sent received).card + (flippedBits sent' received').card := by
  rw [flippedBits, List.map_append, List.map_append,
    card_differingBits_append (by rw [List.length_map, List.length_map, h])]
  rfl

/-- The untransmitted address adds no flipped bit. -/
theorem card_flippedBits_checkedBytes (address : SafetyAddress) {payload payload' : List UInt8}
    (h : payload.length = payload'.length) (status status' : UInt8)
    (number number' crc crc' : UInt32) :
    (flippedBits (checkedBytes address payload status number crc)
        (checkedBytes address payload' status' number' crc')).card =
      (flippedBits (wire payload status number crc)
        (wire payload' status' number' crc')).card := by
  have hdata : (dataBytes payload status number).length =
      (dataBytes payload' status' number').length := by simp [h]
  have haddress : flippedBits (addressBytes address) (addressBytes address) = ∅ :=
    differingBits_self _
  rw [checkedBytes, checkedBytes, card_flippedBits_append (by simp [h]),
    card_flippedBits_append hdata, haddress, Finset.card_empty, Nat.add_zero, wire, wire,
    card_flippedBits_append hdata]

/-- A frame that differs from an authentic one of its length in one to five bits is not
authentic. -/
theorem crc_ne_of_few_flips (address : SafetyAddress) {payload payload' : List UInt8}
    (hlength : payload.length = payload'.length) (hshort : payload.length ≤ kMaxPayloadBytes)
    (status status' : UInt8) (number number' crc' : UInt32)
    (hone : 1 ≤ (flippedBits (frame address payload status number)
      (wire payload' status' number' crc')).card)
    (hfive : (flippedBits (frame address payload status number)
      (wire payload' status' number' crc')).card ≤ 5) :
    crc' ≠ computeTelegramCrc address payload' status' number' := by
  intro hcrc
  rw [frame, ← card_flippedBits_checkedBytes address hlength] at hone hfive
  have hsent := (crc_eq_iff_residue address payload status number _).mp rfl
  have hreceived := (crc_eq_iff_residue address payload' status' number' crc').mp hcrc
  have hbits : 8 * (payload.length + 17) ≤ 32767 := by
    have h64 : payload.length ≤ 64 := hshort
    omega
  have hsix := Crc32.six_le_card_of_feed_eq (by simp [checkedBytes, hlength])
    (by simpa [checkedBytes] using hbits) (hsent.trans hreceived.symm)
    (Finset.card_pos.mp hone)
  exact absurd (hsix.trans hfive) (by decide)

namespace SafetyReceiver

/-- One to five flipped bits anywhere in an encoded telegram are reported as a checksum
mismatch: the receiver latches and hands nothing to its caller. -/
theorem few_flips_rejected (sender : SafetySender) (receiver : SafetyReceiver)
    (haddress : receiver.address = sender.address) (hclear : receiver.safeState = false)
    (payload : List UInt8) (hpayload : payload.length ≤ kMaxPayloadBytes) (status : UInt8)
    (out : Telegram) (raw : List UInt8)
    (hlength : raw.length = (sender.encode payload status out).2.2.view.length)
    (hone : 1 ≤ (flippedBits (sender.encode payload status out).2.2.view raw).card)
    (hfive : (flippedBits (sender.encode payload status out).2.2.view raw).card ≤ 5)
    (nowNs : ℤ) (payloadOut : List UInt8) (hbuffer : payload.length ≤ payloadOut.length) :
    (receiver.receive raw nowNs payloadOut).2 =
        { status := .crcMismatch, payloadOut, payloadSize := 0, statusOut := 0 } ∧
      (receiver.receive raw nowNs payloadOut).1.safeState = true := by
  rw [encode_view sender hpayload status out] at hlength hone hfive
  rw [frame, length_wire] at hlength
  have hsize := wellSized_of_length hlength hpayload hbuffer
  have hsame : payload.length = (receivedPayload raw).length := by
    rw [length_receivedPayload, hlength, Nat.add_sub_cancel]
  have hcrc : ¬ receiver.Authentic raw := by
    rw [eq_wire_received hsize.1] at hone hfive
    rw [Authentic, haddress, expectedCrc]
    exact crc_ne_of_few_flips sender.address hsame hpayload status _ _ _ _ hone hfive
  rw [receive_of_crcMismatch hclear hsize hcrc]
  exact ⟨rfl, rfl⟩

/-- A telegram with five bits flipped, in the payload, the status, the consecutive number and
the checksum. -/
def flippedFrame : List UInt8 :=
  [0xA4, 0xDA, 0x04, 0x01, 0x02, 0x00, 0x00, 0x50, 0x1B, 0xA1, 0xFB]

theorem few_flips_rejected_flippedFrame :
    let address : SafetyAddress :=
      { source := 0x0011, destination := 0x2200, parameterSignature := 0xCAFEF00D }
    let telegram := (SafetySender.encode { address } [0xA5, 0x5A] 0 {}).2.2
    (flippedBits telegram.view flippedFrame).card = 5 ∧
      (receive { address, watchdogNs := 50 } flippedFrame 0 [0, 0]).2 =
        { status := .crcMismatch, payloadOut := [0, 0], payloadSize := 0, statusOut := 0 } ∧
      (receive { address, watchdogNs := 50 } flippedFrame 0 [0, 0]).1.safeState = true := by
  intro address telegram
  have hview : telegram.view =
      [0xA5, 0x5A, 0x00, 0x01, 0x00, 0x00, 0x00, 0x50, 0x0B, 0xA1, 0xFB] := by decide +kernel
  have hflips : (flippedBits telegram.view flippedFrame).card = 5 := by
    rw [hview]
    decide +kernel
  refine ⟨hflips, few_flips_rejected { address } _ rfl rfl [0xA5, 0x5A] (by decide) 0 {}
    flippedFrame ?_ ?_ ?_ 0 [0, 0] le_rfl⟩
  · exact (congrArg List.length hview).symm
  · exact (by decide : 1 ≤ 5).trans hflips.ge
  · exact hflips.le

end SafetyReceiver
end SafeEdge.Safety
