import SafeEdge.Safety.Addressing

/-! The receiver decodes exactly what the sender encodes: in every history, the frames it
accepts are the image of `encode` that continues the relationship. -/
namespace SafeEdge.Safety
open Library

/-- The consecutive number of the frame a call hands to the receiver. -/
def ReceiverCall.number : ReceiverCall → UInt32
  | .receive raw _ _ => receivedNumber raw
  | _ => 0

namespace SafetyReceiver

/-- The frame is what `encode` lays out for an admissible payload under a consecutive number,
whatever the telegram buffer held before. -/
def Encodes (address : SafetyAddress) (payload : List UInt8) (status : UInt8) (number : UInt32)
    (raw : List UInt8) : Prop :=
  payload.length ≤ kMaxPayloadBytes ∧ ∀ out,
    (SafetySender.encode { address, consecutiveNumber := number } payload status out).2.2.view =
      raw

theorem encodes_iff (address : SafetyAddress) (payload : List UInt8) (status : UInt8)
    (number : UInt32) (raw : List UInt8) : Encodes address payload status number raw ↔
      payload.length ≤ kMaxPayloadBytes ∧ raw = frame address payload status number := by
  constructor
  · rintro ⟨hpayload, hview⟩
    have hfresh := hview {}
    rw [encode_view _ hpayload] at hfresh
    exact ⟨hpayload, hfresh.symm⟩
  · rintro ⟨hpayload, rfl⟩
    exact ⟨hpayload, fun out => encode_view _ hpayload status out⟩

section History
variable (receiver : SafetyReceiver) (calls : ℕ → ReceiverCall)

/-- Call `k` accepted a telegram and is the last one before call `n` that did. -/
def LastAcceptance (n k : ℕ) : Prop :=
  k < n ∧ (receiver.receiverAt calls k).Accepts (calls k) ∧
    ∀ j, k < j → j < n → ¬ (receiver.receiverAt calls j).Accepts (calls j)

/-- A telegram numbered `number` at `nowNs` follows the last one accepted, within the
watchdog window. -/
def Continues (n : ℕ) (nowNs : ℤ) (number : UInt32) : Prop :=
  ∃ k, receiver.LastAcceptance calls n k ∧ nowNs - (calls k).nowNs ≤ receiver.watchdogNs ∧
    number = following (calls k).number

/-- The frame carries the given fields under the receiver's address, they fit the caller's
buffer, and they open or continue the relationship as it stands before call `n`. -/
def Admits (n : ℕ) (nowNs : ℤ) (payloadOut raw payload : List UInt8) (status : UInt8)
    (number : UInt32) : Prop :=
  Encodes receiver.address payload status number raw ∧ payload.length ≤ payloadOut.length ∧
    ((receiver.receiverAt calls n).synchronised = false ∨
      receiver.Continues calls n nowNs number)

variable {receiver calls}

theorem LastAcceptance.unique {n k k' : ℕ} (h : receiver.LastAcceptance calls n k)
    (h' : receiver.LastAcceptance calls n k') : k = k' := by
  obtain ⟨hk, haccept, hlast⟩ := h
  obtain ⟨hk', haccept', hlast'⟩ := h'
  rcases lt_trichotomy k k' with hlt | heq | hgt
  · exact absurd haccept' (hlast k' hlt hk')
  · exact heq
  · exact absurd haccept (hlast' k hgt hk)

theorem LastAcceptance.succ {n k : ℕ} (h : receiver.LastAcceptance calls n k)
    (hquiet : ¬ (receiver.receiverAt calls n).Accepts (calls n)) :
    receiver.LastAcceptance calls (n + 1) k := by
  obtain ⟨hk, haccept, hlast⟩ := h
  refine ⟨by omega, haccept, fun j hj hjn => ?_⟩
  rcases Nat.lt_succ_iff_lt_or_eq.mp hjn with hlt | rfl
  · exact hlast j hj hlt
  · exact hquiet

theorem call_number_of_accepts {r : SafetyReceiver} {c : ReceiverCall} (h : r.Accepts c) :
    (r.call c).lastConsecutiveNumber = c.number := by
  cases c with
  | receive raw nowNs payloadOut =>
    rw [call, receive_of_valid h]
    rfl
  | poll nowNs => exact h.elim
  | acknowledgeAndReset nowNs => exact h.elim

theorem call_number_of_neither {r : SafetyReceiver} {c : ReceiverCall}
    (haccept : ¬ r.Accepts c) (hack : ¬ c.IsAcknowledgement) :
    (r.call c).lastConsecutiveNumber = r.lastConsecutiveNumber := by
  cases c with
  | receive raw nowNs payloadOut => exact (receive_of_not_valid haccept).2.2
  | poll nowNs => exact poll_lastConsecutiveNumber r nowNs
  | acknowledgeAndReset nowNs => exact absurd trivial hack

/-- A synchronised receiver remembers the time and the number of its last acceptance. -/
theorem lastAcceptance_of_synchronised (hfresh : receiver.synchronised = false) {n : ℕ}
    (hsync : (receiver.receiverAt calls n).synchronised = true) :
    ∃ k, receiver.LastAcceptance calls n k ∧
      (receiver.receiverAt calls n).lastValidNs = (calls k).nowNs ∧
      (receiver.receiverAt calls n).lastConsecutiveNumber = (calls k).number := by
  induction n with
  | zero => exact absurd (hfresh.symm.trans hsync) Bool.false_ne_true
  | succ n ih =>
    rw [receiverAt_succ] at hsync ⊢
    by_cases haccept : (receiver.receiverAt calls n).Accepts (calls n)
    · refine ⟨n, ⟨Nat.lt_succ_self n, haccept, fun j hj hjn => absurd hjn (by omega)⟩, ?_, ?_⟩
      · exact (call_of_accepts haccept).1
      · exact call_number_of_accepts haccept
    · by_cases hack : (calls n).IsAcknowledgement
      · rw [(call_of_acknowledgement hack).2] at hsync
        exact absurd hsync Bool.false_ne_true
      · obtain ⟨htime, hflag⟩ := call_of_neither haccept hack
        rw [hflag] at hsync
        obtain ⟨k, hlast, hthen, hnumber⟩ := ih hsync
        exact ⟨k, hlast.succ haccept, htime.trans hthen,
          (call_number_of_neither haccept hack).trans hnumber⟩

/-- What a relationship continues with is what the receiver's window and sequence checks let
through. -/
theorem continues_iff (hfresh : receiver.synchronised = false) {n : ℕ}
    (hsync : (receiver.receiverAt calls n).synchronised = true) (nowNs : ℤ) (number : UInt32) :
    receiver.Continues calls n nowNs number ↔
      ¬ (receiver.receiverAt calls n).Overdue nowNs ∧
        number = following (receiver.receiverAt calls n).lastConsecutiveNumber := by
  obtain ⟨k, hlast, htime, hnumber⟩ := lastAcceptance_of_synchronised hfresh hsync
  rw [Overdue, htime, hnumber, receiverAt_watchdogNs, not_lt]
  constructor
  · rintro ⟨k', hlast', hwithin, hfollows⟩
    obtain rfl := hlast.unique hlast'
    exact ⟨hwithin, hfollows⟩
  · rintro ⟨hwithin, hfollows⟩
    exact ⟨k, hlast, hwithin, hfollows⟩

/-- The fields of an accepted frame are those the receiver reads from it. -/
theorem Admits.fields {n : ℕ} {nowNs : ℤ} {payloadOut raw payload : List UInt8}
    {status : UInt8} {number : UInt32}
    (h : receiver.Admits calls n nowNs payloadOut raw payload status number) :
    receivedPayload raw = payload ∧ receivedStatus raw = status ∧
      receivedNumber raw = number ∧ raw.length - kOverheadBytes = payload.length := by
  obtain ⟨hencodes, _, _⟩ := h
  obtain ⟨_, rfl⟩ := (encodes_iff _ _ _ _ _).mp hencodes
  refine ⟨receivedPayload_wire .., receivedStatus_wire .., receivedNumber_wire .., ?_⟩
  rw [frame, length_wire, Nat.add_sub_cancel]

theorem valid_of_admits (hfresh : receiver.synchronised = false) {n : ℕ}
    (hclear : (receiver.receiverAt calls n).safeState = false) {nowNs : ℤ}
    {payloadOut raw payload : List UInt8} {status : UInt8} {number : UInt32}
    (h : receiver.Admits calls n nowNs payloadOut raw payload status number) :
    ((receiver.receiverAt calls n).receive raw nowNs payloadOut).2.status = .valid := by
  have hnumber := h.fields.2.2.1
  obtain ⟨hencodes, hbuffer, hopens⟩ := h
  obtain ⟨hpayload, rfl⟩ := (encodes_iff _ _ _ _ _).mp hencodes
  have hcontinues : ∀ hsync : (receiver.receiverAt calls n).synchronised = true,
      ¬ (receiver.receiverAt calls n).Overdue nowNs ∧
        number = following (receiver.receiverAt calls n).lastConsecutiveNumber := by
    intro hsync
    apply (continues_iff hfresh hsync nowNs number).mp
    exact hopens.resolve_left (by simp [hsync])
  refine (receive_valid_iff _ _ _ _).mpr
    ⟨hclear, wellSized_frame _ hpayload hbuffer _ _, ?_, fun hsync => (hcontinues hsync).1, ?_⟩
  · rw [authentic_frame_iff, receiverAt_address]
  · intro hsync
    rw [hnumber]
    exact (hcontinues hsync).2

theorem admits_of_valid (hfresh : receiver.synchronised = false) {n : ℕ} {nowNs : ℤ}
    {payloadOut raw : List UInt8}
    (h : ((receiver.receiverAt calls n).receive raw nowNs payloadOut).2.status = .valid) :
    receiver.Admits calls n nowNs payloadOut raw (receivedPayload raw) (receivedStatus raw)
      (receivedNumber raw) := by
  obtain ⟨_, ⟨hlong, hshort, hbuffer⟩, hcrc, htime, hseq⟩ := (receive_valid_iff _ _ _ _).mp h
  have hlength := length_receivedPayload raw
  refine ⟨(encodes_iff _ _ _ _ _).mpr ⟨?_, ?_⟩, by omega, ?_⟩
  · rw [hlength]
    rw [kMaxTelegramBytes] at hshort
    omega
  · have hlayout := eq_wire_received hlong
    rw [Authentic, expectedCrc, receiverAt_address] at hcrc
    rw [hcrc] at hlayout
    exact hlayout
  · by_cases hsync : (receiver.receiverAt calls n).synchronised = true
    · right
      rw [continues_iff hfresh hsync]
      exact ⟨htime hsync, hseq hsync⟩
    · left
      simpa using hsync

end History

/-- In every history an unlatched receiver accepts exactly the frames `encode` lays out for its
address that fit the caller's buffer and open or continue the relationship. Their fields are
unique and are what the caller is given. -/
theorem decodes_exactly_encoded (address : SafetyAddress) (watchdogNs : ℤ)
    (calls : ℕ → ReceiverCall) (n : ℕ)
    (hclear : ((construct address watchdogNs).receiverAt calls n).safeState = false)
    (raw : List UInt8) (nowNs : ℤ) (payloadOut : List UInt8) :
    let result := (((construct address watchdogNs).receiverAt calls n).receive raw nowNs
      payloadOut).2
    let admits := (construct address watchdogNs).Admits calls n nowNs payloadOut raw
    (result.status = .valid ↔ ∃ payload status number, admits payload status number) ∧
      ∀ payload status number, admits payload status number →
        (∀ payload' status' number', admits payload' status' number' →
          payload' = payload ∧ status' = status ∧ number' = number) ∧
        result =
          { status := .valid
            payloadOut := copyTo payload payloadOut
            payloadSize := payload.length
            statusOut := status } := by
  intro result admits
  have hvalid : ∀ payload status number, admits payload status number →
      result.status = .valid := fun payload status number h => valid_of_admits rfl hclear h
  refine ⟨⟨fun h => ⟨_, _, _, admits_of_valid rfl h⟩, ?_⟩, ?_⟩
  · rintro ⟨payload, status, number, h⟩
    exact hvalid payload status number h
  · intro payload status number h
    obtain ⟨hpayload, hstatus, hnumber, hsize⟩ := h.fields
    refine ⟨?_, ?_⟩
    · intro payload' status' number' h'
      obtain ⟨hpayload', hstatus', hnumber', _⟩ := h'.fields
      exact ⟨hpayload'.symm.trans hpayload, hstatus'.symm.trans hstatus,
        hnumber'.symm.trans hnumber⟩
    · have hresult := congrArg Prod.snd (receive_of_valid (hvalid payload status number h))
      rw [hpayload, hstatus, hsize] at hresult
      exact hresult

/-- The telegram after the first of `silentCalls`, with a payload of one byte. -/
def secondFrame : List UInt8 := [0x2A, 0x07, 0x02, 0x00, 0x00, 0x00, 0xDD, 0x47, 0x0C, 0x0D]

theorem decodes_exactly_encoded_secondFrame :
    (monitored.receiverAt silentCalls 1).safeState = false ∧
      ((monitored.receiverAt silentCalls 1).receive secondFrame 5 [0, 0]).2 =
        { status := .valid, payloadOut := [0x2A, 0], payloadSize := 1, statusOut := 7 } := by
  have hclear : (monitored.receiverAt silentCalls 1).safeState = false :=
    congrArg SafetyReceiver.safeState receiverAt_silentCalls_one
  have hframe : secondFrame = frame monitored.address [0x2A] 7 2 := by decide +kernel
  have hlast : monitored.LastAcceptance silentCalls 1 0 :=
    ⟨by decide, silentCalls_accepts, fun j hj hj1 => absurd hj1 (by omega)⟩
  refine ⟨hclear, ((decodes_exactly_encoded _ 10 silentCalls 1 hclear secondFrame 5 [0, 0]).2
    [0x2A] 7 2 ⟨?_, by decide, .inr ⟨0, hlast, by decide, by decide⟩⟩).2⟩
  exact (encodes_iff _ _ _ _ _).mpr ⟨by decide, hframe⟩

end SafetyReceiver
end SafeEdge.Safety
