import SafeEdge.Safety.ReceiverRun

/-! Frames that bear the reserved consecutive number zero, an all-zeroes frame of a dead
transport among them: the receiver does not look for the number itself, so before its first
telegram only the checksum stands in their way. -/
namespace SafeEdge.Safety

section Zeroes
variable (length : ℕ)

theorem getD_replicate_zero (index : ℕ) :
    (List.replicate length (0 : UInt8)).getD index 0 = 0 := by
  rw [List.getD_eq_getElem?_getD, List.getElem?_replicate]
  split_ifs <;> rfl

theorem readUint32Le_replicate_zero (offset : ℕ) :
    readUint32Le (List.replicate length 0) offset = 0 := by
  simp only [readUint32Le, getD_replicate_zero]
  rfl

@[simp] theorem receivedPayload_replicate_zero :
    receivedPayload (List.replicate length 0) = List.replicate (length - kOverheadBytes) 0 := by
  rw [receivedPayload, List.length_replicate, List.take_replicate,
    Nat.min_eq_left (Nat.sub_le _ _)]

@[simp] theorem receivedStatus_replicate_zero :
    receivedStatus (List.replicate length 0) = 0 :=
  getD_replicate_zero length _

@[simp] theorem receivedNumber_replicate_zero :
    receivedNumber (List.replicate length 0) = 0 :=
  readUint32Le_replicate_zero length _

@[simp] theorem receivedCrc_replicate_zero : receivedCrc (List.replicate length 0) = 0 :=
  readUint32Le_replicate_zero length _

end Zeroes

namespace SafetyReceiver

/-- Once synchronised, a receiver never expects the number zero. -/
theorem inSequence_zero_iff {receiver : SafetyReceiver} {raw : List UInt8}
    (hzero : receivedNumber raw = 0) :
    receiver.InSequence raw ↔ ¬ receiver.synchronised = true := by
  constructor
  · intro hseq hsync
    exact following_ne_zero _ ((hseq hsync).symm.trans hzero)
  · intro hfresh hsync
    exact absurd hsync hfresh

/-- A frame numbered zero is accepted exactly by an unlatched receiver without a running
relationship that finds it well sized and authentic. -/
theorem receive_zero_valid_iff (receiver : SafetyReceiver) {raw : List UInt8}
    (hzero : receivedNumber raw = 0) (nowNs : ℤ) (payloadOut : List UInt8) :
    (receiver.receive raw nowNs payloadOut).2.status = .valid ↔
      receiver.safeState = false ∧ ¬ receiver.synchronised = true ∧ WellSized raw payloadOut ∧
        receiver.Authentic raw := by
  rw [receive_valid_iff, inSequence_zero_iff hzero]
  constructor
  · rintro ⟨hclear, hsize, hcrc, _, hfresh⟩
    exact ⟨hclear, hfresh, hsize, hcrc⟩
  · rintro ⟨hclear, hfresh, hsize, hcrc⟩
    exact ⟨hclear, hsize, hcrc, fun hsync => absurd hsync hfresh, hfresh⟩

theorem receiverAt_zero_rejected_iff (address : SafetyAddress) (watchdogNs : ℤ)
    (calls : ℕ → ReceiverCall) (n : ℕ) (nowNs : ℤ) (payloadOut : List UInt8) {raw : List UInt8}
    (hzero : receivedNumber raw = 0) :
    (((construct address watchdogNs).receiverAt calls n).receive raw nowNs
        payloadOut).2.status ≠ .valid ↔
      ((construct address watchdogNs).receiverAt calls n).safeState = true ∨
      (construct address watchdogNs).RunningAt calls n ∨ ¬ WellSized raw payloadOut ∨
      receivedCrc raw ≠
        computeTelegramCrc address (receivedPayload raw) (receivedStatus raw) 0 := by
  have hsync : ((construct address watchdogNs).receiverAt calls n).synchronised = true ↔
      (construct address watchdogNs).RunningAt calls n := synchronised_iff_runningAt rfl n
  have haddress : ((construct address watchdogNs).receiverAt calls n).address = address :=
    receiverAt_address n
  rw [ne_eq, receive_zero_valid_iff _ hzero, hsync, Authentic, expectedCrc, haddress, hzero]
  simp only [not_and_or, not_not, Bool.not_eq_false]

/-- A frame numbered zero is refused exactly by a receiver that is latched or has accepted a
telegram since its last acknowledgement, or for its size or its checksum. Of an all-zeroes
frame the checksum is right exactly when that of its data and the address is zero. -/
theorem zero_number_rejected_iff (address : SafetyAddress) (watchdogNs : ℤ)
    (calls : ℕ → ReceiverCall) (n : ℕ) (nowNs : ℤ) (payloadOut : List UInt8) :
    (∀ raw, receivedNumber raw = 0 →
      ((((construct address watchdogNs).receiverAt calls n).receive raw nowNs
          payloadOut).2.status ≠ .valid ↔
        ((construct address watchdogNs).receiverAt calls n).safeState = true ∨
        (construct address watchdogNs).RunningAt calls n ∨ ¬ WellSized raw payloadOut ∨
        receivedCrc raw ≠
          computeTelegramCrc address (receivedPayload raw) (receivedStatus raw) 0)) ∧
    ∀ length,
      ((((construct address watchdogNs).receiverAt calls n).receive (List.replicate length 0)
          nowNs payloadOut).2.status ≠ .valid ↔
        ((construct address watchdogNs).receiverAt calls n).safeState = true ∨
        (construct address watchdogNs).RunningAt calls n ∨
        ¬ WellSized (List.replicate length 0) payloadOut ∨
        computeTelegramCrc address (List.replicate (length - kOverheadBytes) 0) 0 0 ≠ 0) := by
  constructor
  · intro raw hzero
    exact receiverAt_zero_rejected_iff address watchdogNs calls n nowNs payloadOut hzero
  · intro length
    rw [receiverAt_zero_rejected_iff address watchdogNs calls n nowNs payloadOut
      (receivedNumber_replicate_zero length), receivedPayload_replicate_zero,
      receivedStatus_replicate_zero, receivedCrc_replicate_zero, ne_comm]

/-- The identity for which the checksum of eight zero bytes, status and number is zero. -/
def silentAddress : SafetyAddress :=
  { source := 0x0011, destination := 0x2200, parameterSignature := 0x6FB191D9 }

theorem zero_number_rejected_iff_neighbour :
    (((construct { silentAddress with source := 0x0012 } 10).receiverAt (fun _ => .poll 0)
      0).receive (List.replicate 17 0) 0 (List.replicate 8 0)).2.status ≠ .valid := by
  refine ((zero_number_rejected_iff { silentAddress with source := 0x0012 } 10 (fun _ => .poll 0) 0
    0 (List.replicate 8 0)).1 (List.replicate 17 0) (receivedNumber_replicate_zero 17)).mpr ?_
  exact .inr (.inr (.inr (by decide +kernel)))

/-- A fresh receiver takes seventeen zero bytes for a telegram. -/
theorem dead_transport_accepted :
    receivedNumber (List.replicate 17 0) = 0 ∧
      ((construct silentAddress 10).receive (List.replicate 17 0) 0 (List.replicate 8 1)).2 =
        { status := .valid, payloadOut := List.replicate 8 0, payloadSize := 8, statusOut := 0 } :=
  ⟨receivedNumber_replicate_zero 17, by decide +kernel⟩

end SafetyReceiver
end SafeEdge.Safety
