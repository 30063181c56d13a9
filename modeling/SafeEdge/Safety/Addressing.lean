import SafeEdge.Safety.ReceiverRun
import SafeEdge.Safety.TelegramChecksum

/-! Which foreign telegrams a receiver rejects: the 64 bits of an address enter the checksum
only through a word of 32 bits. -/
namespace SafeEdge.Safety
open Library

/-- Source and destination as the checksum register takes them. -/
def endpointWord (address : SafetyAddress) : BitVec 32 :=
  address.destination.toBitVec ++ address.source.toBitVec

/-- The word through which an address enters the checksum. -/
def identityWord (address : SafetyAddress) : BitVec 32 :=
  (shift Crc32.polynomial)^[32] (endpointWord address) ^^^ address.parameterSignature.toBitVec

theorem joined_endpoints (address : SafetyAddress) :
    joined 32 ((uint16Le address.source ++ uint16Le address.destination).map UInt8.toBitVec) =
      endpointWord address := by
  rw [List.map_append, uint16Le_map_toBitVec, uint16Le_map_toBitVec]
  apply BitVec.eq_of_getLsbD_eq
  intro i hi
  simp only [symbols, List.cons_append, List.nil_append, joined, endpointWord,
    BitVec.getLsbD_xor, BitVec.getLsbD_setWidth, BitVec.getLsbD_shiftLeft,
    BitVec.getLsbD_ushiftRight, BitVec.getLsbD_append]
  interval_cases i <;> simp

/-- The register after data and address: the address contributes its identity word. -/
theorem register_append_addressBytes (bytes : List UInt8) (address : SafetyAddress) :
    register (bytes ++ addressBytes address) =
      (shift Crc32.polynomial)^[32]
        ((shift Crc32.polynomial)^[32] (register bytes) ^^^ identityWord address) := by
  have hendpoints : register (bytes ++ (uint16Le address.source ++ uint16Le address.destination)) =
      (shift Crc32.polynomial)^[32] (register bytes ^^^ endpointWord address) := by
    rw [register, List.map_append, feed_append, feed_eq_joined _ _ _ (by simp [uint16Le]),
      joined_endpoints]
    rfl
  rw [addressBytes, ← List.append_assoc, register_append_uint32Le, hendpoints,
    shift_iterate_xor _ 32 (register bytes), identityWord, BitVec.xor_assoc]

/-- Telegrams of two addresses carry the same checksum exactly when the identity words
agree, whatever their contents. -/
theorem computeTelegramCrc_eq_iff (A B : SafetyAddress) (payload : List UInt8) (status : UInt8)
    (number : UInt32) :
    computeTelegramCrc A payload status number = computeTelegramCrc B payload status number ↔
      identityWord A = identityWord B := by
  rw [← UInt32.toBitVec_inj, computeTelegramCrc_toBitVec, computeTelegramCrc_toBitVec,
    register_append_addressBytes, register_append_addressBytes, BitVec.xor_left_inj,
    (polynomial_shift_injective.iterate 32).eq_iff, BitVec.xor_right_inj]

namespace SafetyReceiver

/-- A receiver finds a foreign telegram authentic exactly when the identity words agree. -/
theorem authentic_frame_iff (receiver : SafetyReceiver) (B : SafetyAddress)
    (payload : List UInt8) (status : UInt8) (number : UInt32) :
    receiver.Authentic (frame B payload status number) ↔
      identityWord receiver.address = identityWord B := by
  rw [Authentic, frame, receivedCrc_wire, expectedCrc_wire, eq_comm, computeTelegramCrc_eq_iff]

theorem wellSized_frame (address : SafetyAddress) {payload payloadOut : List UInt8}
    (hpayload : payload.length ≤ kMaxPayloadBytes)
    (hbuffer : payload.length ≤ payloadOut.length) (status : UInt8) (number : UInt32) :
    WellSized (frame address payload status number) payloadOut :=
  wellSized_of_length (length_wire ..) hpayload hbuffer

/-- A genuine telegram that arrives in time and in sequence is accepted as it was encoded. -/
theorem receive_frame {receiver : SafetyReceiver} {payload payloadOut : List UInt8}
    (hpayload : payload.length ≤ kMaxPayloadBytes)
    (hbuffer : payload.length ≤ payloadOut.length) (status : UInt8) {number : UInt32} {nowNs : ℤ}
    (hclear : receiver.safeState = false) (htime : receiver.Timely nowNs)
    (hseq : receiver.synchronised = true → number = following receiver.lastConsecutiveNumber) :
    receiver.receive (frame receiver.address payload status number) nowNs payloadOut =
      (receiver.accept number nowNs,
        { status := .valid
          payloadOut := copyTo payload payloadOut
          payloadSize := payload.length
          statusOut := status }) := by
  have hvalid : (receiver.receive (frame receiver.address payload status number) nowNs
      payloadOut).2.status = .valid := by
    rw [receive_valid_iff]
    refine ⟨hclear, wellSized_frame _ hpayload hbuffer _ _, ?_, htime, ?_⟩
    · rw [authentic_frame_iff]
    · intro hsync
      rw [frame, receivedNumber_wire]
      exact hseq hsync
  rw [receive_of_valid hvalid]
  simp only [frame, receivedNumber_wire, receivedPayload_wire, receivedStatus_wire, length_wire,
    Nat.add_sub_cancel]

/-- Every reachable receiver of one address rejects every telegram of another exactly when
their identity words differ. -/
theorem foreign_rejected_iff (A B : SafetyAddress) :
    (∀ (watchdogNs : ℤ) (calls : ℕ → ReceiverCall) (n : ℕ) (sender : SafetySender),
      sender.address = B → ∀ payload : List UInt8, payload.length ≤ kMaxPayloadBytes →
      ∀ (status : UInt8) (out : Telegram) (nowNs : ℤ) (payloadOut : List UInt8),
      (((construct A watchdogNs).receiverAt calls n).receive
        (sender.encode payload status out).2.2.view nowNs payloadOut).2.status ≠ .valid) ↔
    identityWord A ≠ identityWord B := by
  constructor
  · intro hrejected hsame
    refine hrejected 0 (fun _ => .poll 0) 0 { address := B } rfl [] (Nat.zero_le _) 0 {} 0 [] ?_
    rw [encode_view _ (Nat.zero_le _), receive_valid_iff]
    refine ⟨rfl, wellSized_frame B (Nat.zero_le _) le_rfl 0 1, ?_, ?_, ?_⟩
    · rw [authentic_frame_iff]
      exact hsame
    · intro hsync
      exact absurd hsync Bool.false_ne_true
    · intro hsync
      exact absurd hsync Bool.false_ne_true
  · intro hdiffer watchdogNs calls n sender hB payload hpayload status out nowNs payloadOut hvalid
    rw [encode_view sender hpayload status out, hB] at hvalid
    have hauthentic := ((receive_valid_iff _ _ _ _).mp hvalid).2.2.1
    rw [authentic_frame_iff, receiverAt_address] at hauthentic
    exact hdiffer hauthentic

/-- Two relationships that differ in source and signature, the difference of the signatures
cancelling that of the sources. -/
theorem foreign_accepted :
    let A : SafetyAddress :=
      { source := 0x0011, destination := 0x2200, parameterSignature := 0xDEADBEEF }
    let B : SafetyAddress :=
      { source := 0x0010, destination := 0x2200, parameterSignature := 0xFFC6B270 }
    A ≠ B ∧ ((construct A 10).receive
      (SafetySender.encode { address := B } [0x2A] 0 {}).2.2.view 0 [0]).2 =
        { status := .valid, payloadOut := [0x2A], payloadSize := 1, statusOut := 0 } := by
  refine ⟨by decide, by decide +kernel⟩

/-- A telegram a sender of address `B` can have encoded. -/
def EncodedUnder (B : SafetyAddress) (telegram : Telegram) : Prop :=
  ∃ (sender : SafetySender) (payload : List UInt8) (status : UInt8) (out : Telegram),
    sender.address = B ∧ payload.length ≤ kMaxPayloadBytes ∧
      telegram = (sender.encode payload status out).2.2

/-- The telegram is checked: the receiver of address `A` is not latched and the buffer holds the
payload. -/
structure ChecksTelegram (A : SafetyAddress) (telegram : Telegram) (receiver : SafetyReceiver)
    (payloadOut : List UInt8) : Prop where
  address : receiver.address = A
  clear : receiver.safeState = false
  buffer : telegram.view.length - kOverheadBytes ≤ payloadOut.length

/-- Every receiver of address `A` that checks the telegram reports a checksum mismatch. -/
def FailsCrcCheck (A : SafetyAddress) (telegram : Telegram) : Prop :=
  ∀ receiver payloadOut, ChecksTelegram A telegram receiver payloadOut → ∀ nowNs,
    (receiver.receive telegram.view nowNs payloadOut).2.status = .crcMismatch

/-- No receiver of address `A` that checks the telegram reports a checksum mismatch. -/
def PassesCrcCheck (A : SafetyAddress) (telegram : Telegram) : Prop :=
  ∀ receiver payloadOut, ChecksTelegram A telegram receiver payloadOut → ∀ nowNs,
    (receiver.receive telegram.view nowNs payloadOut).2.status ≠ .crcMismatch

/-- A telegram of `B` fails the check of `A` exactly when the identity words differ. -/
theorem receive_encodedUnder {A B : SafetyAddress} {telegram : Telegram}
    (htelegram : EncodedUnder B telegram) {receiver : SafetyReceiver} {payloadOut : List UInt8}
    (hchecks : ChecksTelegram A telegram receiver payloadOut) (nowNs : ℤ) :
    (receiver.receive telegram.view nowNs payloadOut).2.status = .crcMismatch ↔
      identityWord A ≠ identityWord B := by
  obtain ⟨sender, payload, status, out, hB, hpayload, rfl⟩ := htelegram
  have hbuffer := hchecks.buffer
  rw [encode_view sender hpayload status out, hB] at hbuffer ⊢
  rw [frame, length_wire, Nat.add_sub_cancel] at hbuffer
  rw [receive_crcMismatch_iff hchecks.clear (wellSized_frame B hpayload hbuffer status _),
    authentic_frame_iff, hchecks.address]

theorem identityWord_ne_of_endpoints {A B : SafetyAddress} (hne : A ≠ B)
    (hsignature : A.parameterSignature = B.parameterSignature) :
    identityWord A ≠ identityWord B := by
  intro hsame
  rw [identityWord, identityWord, hsignature, BitVec.xor_left_inj,
    (polynomial_shift_injective.iterate 32).eq_iff] at hsame
  have hsource : A.source.toBitVec = B.source.toBitVec := by
    have hlow := congrArg (BitVec.setWidth 16) hsame
    rwa [endpointWord, endpointWord, BitVec.setWidth_append_eq_right,
      BitVec.setWidth_append_eq_right] at hlow
  rw [endpointWord, endpointWord, hsource, BitVec.append_left_inj] at hsame
  apply hne
  cases A
  cases B
  simp_all [UInt16.toBitVec_inj]

theorem identityWord_ne_of_signature {A B : SafetyAddress} (hne : A ≠ B)
    (hsource : A.source = B.source) (hdestination : A.destination = B.destination) :
    identityWord A ≠ identityWord B := by
  intro hsame
  rw [identityWord, identityWord, endpointWord, endpointWord, hsource, hdestination,
    BitVec.xor_right_inj] at hsame
  apply hne
  cases A
  cases B
  simp_all [UInt32.toBitVec_inj]

/-- The check of an address against another is all or nothing, and it never passes between
addresses that differ only in their endpoints or only in their signature. -/
theorem identity_check_uniform (A B : SafetyAddress) :
    ((∀ telegram, EncodedUnder B telegram → FailsCrcCheck A telegram) ∨
      ∀ telegram, EncodedUnder B telegram → PassesCrcCheck A telegram) ∧
    (A ≠ B → A.parameterSignature = B.parameterSignature ∨
        A.source = B.source ∧ A.destination = B.destination →
      ∀ telegram, EncodedUnder B telegram → FailsCrcCheck A telegram) := by
  have hfails (hne : identityWord A ≠ identityWord B) (telegram : Telegram)
      (htelegram : EncodedUnder B telegram) : FailsCrcCheck A telegram :=
    fun _ _ hchecks nowNs => (receive_encodedUnder htelegram hchecks nowNs).mpr hne
  constructor
  · by_cases hsame : identityWord A = identityWord B
    · right
      intro telegram htelegram receiver payloadOut hchecks nowNs hmismatch
      exact (receive_encodedUnder htelegram hchecks nowNs).mp hmismatch hsame
    · exact .inl (hfails hsame)
  · rintro hne (hsignature | ⟨hsource, hdestination⟩)
    · exact hfails (identityWord_ne_of_endpoints hne hsignature)
    · exact hfails (identityWord_ne_of_signature hne hsource hdestination)

/-- A relationship and the one in the opposite direction. -/
theorem identity_check_uniform_reversed :
    let A : SafetyAddress :=
      { source := 0x0011, destination := 0x2200, parameterSignature := 0xDEADBEEF }
    let B : SafetyAddress :=
      { source := 0x2200, destination := 0x0011, parameterSignature := 0xDEADBEEF }
    ∀ telegram, EncodedUnder B telegram → FailsCrcCheck A telegram :=
  (identity_check_uniform _ _).2 (by decide) (.inl rfl)

end SafetyReceiver
end SafeEdge.Safety
