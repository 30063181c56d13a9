import SafeEdge.Library.WrappingCounter
import SafeEdge.Safety.DecoderImage
import SafeEdge.Safety.SenderRun

/-! How a running receiver classifies the telegrams of a stream by their distance from the last
one accepted, and when the loss it counts is the number of telegrams it missed. The consecutive
numbers form a ring of `2 ^ 32 - 1` values; their signed differences live on one of `2 ^ 32`. -/
namespace SafeEdge.Safety
open Library

/-- What a sender is given to encode, a payload that fits. -/
structure Message where
  payload : List UInt8
  status : UInt8
  out : Telegram
  fits : payload.length ≤ kMaxPayloadBytes

namespace SafetySender
variable (sender : SafetySender) (messages : ℕ → Message)

/-- The sender after `k` telegrams of a stream. -/
def streamAt (k : ℕ) : SafetySender :=
  stateAt (fun sender message =>
    (sender.encode message.payload message.status message.out).1) sender messages k

/-- Telegram number `k` of a stream. -/
def telegramAt (k : ℕ) : Telegram :=
  ((sender.streamAt messages k).encode (messages k).payload (messages k).status
    (messages k).out).2.2

theorem streamAt_eq (k : ℕ) : sender.streamAt messages k =
    { sender with consecutiveNumber := following^[k] sender.consecutiveNumber } := by
  induction k with
  | zero => rfl
  | succ k ih =>
    have hstep : sender.streamAt messages (k + 1) = ((sender.streamAt messages k).encode
        (messages k).payload (messages k).status (messages k).out).1 := rfl
    rw [hstep, encode_fst _ (messages k).fits, ih, Function.iterate_succ_apply']

theorem telegramAt_view (k : ℕ) : (sender.telegramAt messages k).view =
    frame sender.address (messages k).payload (messages k).status
      (following^[k] sender.consecutiveNumber) := by
  rw [telegramAt, encode_view _ (messages k).fits, streamAt_eq]

theorem receivedNumber_telegramAt (k : ℕ) :
    receivedNumber (sender.telegramAt messages k).view =
      following^[k] sender.consecutiveNumber := by
  rw [telegramAt_view, frame, receivedNumber_wire]

end SafetySender

section Distances
variable {start : UInt32} {i j : ℕ}

/-- Fewer steps than the ring has numbers go up by as much, or once around the ring. -/
theorem following_iterate_add_toNat (hstart : start ≠ 0) (k : ℕ) {steps : ℕ}
    (hsteps : steps < 4294967295) :
    (following^[k + steps] start).toNat = (following^[k] start).toNat + steps ∨
      (following^[k + steps] start).toNat + 4294967295 =
        (following^[k] start).toNat + steps := by
  rw [following_iterate_toNat hstart, following_iterate_toNat hstart, ← Nat.add_assoc]
  generalize start.toNat - 1 + k = position
  omega

theorem following_iterate_ne (hstart : start ≠ 0) (hij : i < j) (hnear : j < i + 4294967295) :
    following^[i] start ≠ following^[j] start := by
  obtain ⟨steps, rfl⟩ := Nat.exists_eq_add_of_le hij.le
  intro hsame
  have hring := following_iterate_add_toNat hstart i (show steps < 4294967295 by omega)
  rw [← hsame] at hring
  omega

theorem following_iterate_pos (hstart : start ≠ 0) (k : ℕ) :
    0 < (following^[k] start).toNat := by
  rw [following_iterate_toNat hstart]
  exact Nat.succ_pos _

/-- The distance ahead of the expected number counts the telegrams in between, and one more when
the numbers have wrapped. -/
theorem following_sub_of_ahead (hstart : start ≠ 0) (hgap : j + 1 ≤ i) (hnear : i < j + 2 ^ 31) :
    (following^[i] start - following^[j + 1] start).toNat =
      if following^[j + 1] start ≤ following^[i] start then i - j - 1 else i - j := by
  obtain ⟨steps, rfl⟩ := Nat.exists_eq_add_of_le hgap
  have hring := following_iterate_add_toNat hstart (j + 1) (show steps < 4294967295 by omega)
  have hexpected := (following^[j + 1] start).toNat_lt
  have hpos := following_iterate_pos hstart (j + 1 + steps)
  rw [UInt32.toNat_sub]
  split_ifs with hle
  · rw [UInt32.le_iff_toNat_le] at hle
    omega
  · rw [UInt32.le_iff_toNat_le] at hle
    omega

/-- A number behind the expected one differs from it by a negative signed distance. -/
theorem following_sub_of_behind (hstart : start ≠ 0) (hbehind : i < j)
    (hnear : j ≤ i + (2 ^ 31 - 2)) :
    2 ^ 31 ≤ (following^[i] start - following^[j + 1] start).toNat := by
  obtain ⟨steps, hsteps⟩ := Nat.exists_eq_add_of_le (show i ≤ j + 1 by omega)
  have hring := following_iterate_add_toNat hstart i (show steps < 4294967295 by omega)
  have hpos := following_iterate_pos hstart (i + steps)
  have hnumber := (following^[i] start).toNat_lt
  rw [hsteps, UInt32.toNat_sub]
  omega

end Distances

namespace SafetyReceiver

section Receive
variable {receiver : SafetyReceiver}

/-- A running receiver that expects another number answers a genuine telegram in time with a
fault of the sequence. -/
theorem receive_frame_unexpected {payload payloadOut : List UInt8}
    (hpayload : payload.length ≤ kMaxPayloadBytes)
    (hbuffer : payload.length ≤ payloadOut.length) (status : UInt8) {number : UInt32} {nowNs : ℤ}
    (hclear : receiver.safeState = false) (hsync : receiver.synchronised = true)
    (htime : ¬ receiver.Overdue nowNs)
    (hother : number ≠ following receiver.lastConsecutiveNumber) :
    receiver.receive (frame receiver.address payload status number) nowNs payloadOut =
      ((receiver.sequenceFault number).1,
        { status := (receiver.sequenceFault number).2, payloadOut }) := by
  obtain ⟨hlow, hhigh, hfits⟩ :=
    wellSized_frame receiver.address hpayload hbuffer status number
  have hcrc : receivedCrc (frame receiver.address payload status number) =
      expectedCrc (frame receiver.address payload status number) receiver.address :=
    (authentic_frame_iff receiver receiver.address payload status number).mpr rfl
  have hnumber : receivedNumber (frame receiver.address payload status number) = number :=
    receivedNumber_wire ..
  rw [receive, if_neg (by simp [hclear]), if_neg (by omega), if_neg (by omega),
    if_neg (not_not.mpr hcrc), if_neg (fun hlate => htime hlate.2),
    if_pos ⟨hsync, hnumber.trans_ne hother⟩, hnumber]

theorem sequenceFault_of_same :
    (receiver.sequenceFault receiver.lastConsecutiveNumber).2 = .repetition := by
  rw [sequenceFault, if_pos rfl]

theorem sequenceFault_of_behind {number : UInt32} (hother : number ≠ receiver.lastConsecutiveNumber)
    (hbehind : 2 ^ 31 ≤ (number - following receiver.lastConsecutiveNumber).toNat) :
    (receiver.sequenceFault number).2 = .outOfOrder := by
  rw [sequenceFault, if_neg hother, if_pos ((toInt32_neg_iff _).mpr hbehind)]

/-- A number ahead of the expected one is a gap, and their distance is added to the loss. -/
theorem sequenceFault_of_ahead {number : UInt32} (hother : number ≠ receiver.lastConsecutiveNumber)
    (hahead : (number - following receiver.lastConsecutiveNumber).toNat < 2 ^ 31) :
    (receiver.sequenceFault number).2 = .sequenceGap ∧
      (receiver.sequenceFault number).1.diagnostics.telegramsLost =
        receiver.diagnostics.telegramsLost +
          UInt64.ofNat (number - following receiver.lastConsecutiveNumber).toNat := by
  have hsign : ¬ (number - following receiver.lastConsecutiveNumber).toInt32 < 0 := by
    rw [toInt32_neg_iff]
    omega
  rw [sequenceFault, if_neg hother, if_neg hsign, toInt32_toUInt64 hahead]
  exact ⟨rfl, rfl⟩

end Receive

/-- An unlatched receiver of the address, inside its watchdog window, whose last accepted
telegram is number `j` of a stream that started at `start`. -/
structure RunsAfter (receiver : SafetyReceiver) (address : SafetyAddress) (start : UInt32) (j : ℕ)
    (nowNs : ℤ) : Prop where
  address : receiver.address = address
  clear : receiver.safeState = false
  synchronised : receiver.synchronised = true
  timely : ¬ receiver.Overdue nowNs
  number : receiver.lastConsecutiveNumber = following^[j] start

section History
variable {address : SafetyAddress} {start : UInt32} {messages : ℕ → Message} {watchdogNs : ℤ}
  {calls : ℕ → ReceiverCall} {n k j : ℕ} {acceptedNs nowNs : ℤ} {buffer : List UInt8}

theorem LastAcceptance.runsAfter (hlast : (construct address watchdogNs).LastAcceptance calls n k)
    (hcall : calls k = .receive
      ((SafetySender.restartSequence { address } start).telegramAt messages j).view acceptedNs
      buffer)
    (hsync : ((construct address watchdogNs).receiverAt calls n).synchronised = true)
    (hclear : ((construct address watchdogNs).receiverAt calls n).safeState = false)
    (hwindow : nowNs - acceptedNs ≤ watchdogNs) :
    ((construct address watchdogNs).receiverAt calls n).RunsAfter address start j nowNs := by
  obtain ⟨k', hlast', htime, hnumber⟩ := lastAcceptance_of_synchronised rfl hsync
  obtain rfl := hlast.unique hlast'
  rw [hcall] at htime hnumber
  refine ⟨receiverAt_address n, hclear, hsync, ?_, ?_⟩
  · rw [Overdue, htime, receiverAt_watchdogNs]
    exact not_lt.mpr hwindow
  · rw [hnumber, ReceiverCall.number, SafetySender.receivedNumber_telegramAt]
    rfl

end History

section Stream
variable {receiver : SafetyReceiver} {address : SafetyAddress} {start : UInt32} {i j : ℕ}
  {nowNs : ℤ} {message : Message} {payloadOut : List UInt8}

theorem RunsAfter.receive_next (h : receiver.RunsAfter address start j nowNs)
    (hbuffer : message.payload.length ≤ payloadOut.length) :
    (receiver.receive (frame address message.payload message.status (following^[j + 1] start)) nowNs
      payloadOut).2.status = .valid := by
  rw [← h.address, receive_frame message.fits hbuffer message.status h.clear (fun _ => h.timely)]
  intro _
  rw [h.number, Function.iterate_succ_apply']

/-- Any other number than the next one is answered with a fault of the sequence. -/
theorem RunsAfter.receive_other (h : receiver.RunsAfter address start j nowNs)
    (hbuffer : message.payload.length ≤ payloadOut.length)
    (hother : following^[i] start ≠ following^[j + 1] start) :
    receiver.receive (frame address message.payload message.status (following^[i] start)) nowNs
        payloadOut =
      ((receiver.sequenceFault (following^[i] start)).1,
        { status := (receiver.sequenceFault (following^[i] start)).2, payloadOut }) := by
  rw [← h.address]
  apply receive_frame_unexpected message.fits hbuffer message.status h.clear h.synchronised h.timely
  rwa [h.number, ← Function.iterate_succ_apply' following]

theorem RunsAfter.receive_same (h : receiver.RunsAfter address start j nowNs) (hstart : start ≠ 0)
    (hbuffer : message.payload.length ≤ payloadOut.length) :
    (receiver.receive (frame address message.payload message.status (following^[j] start)) nowNs
      payloadOut).2.status = .repetition := by
  rw [h.receive_other hbuffer (following_iterate_ne hstart (Nat.lt_succ_self j) (by omega)),
    ← h.number]
  exact sequenceFault_of_same

theorem RunsAfter.receive_behind (h : receiver.RunsAfter address start j nowNs)
    (hstart : start ≠ 0) (hbuffer : message.payload.length ≤ payloadOut.length) (hij : i < j)
    (hnear : j ≤ i + (2 ^ 31 - 2)) :
    (receiver.receive (frame address message.payload message.status (following^[i] start)) nowNs
      payloadOut).2.status = .outOfOrder := by
  rw [h.receive_other hbuffer (following_iterate_ne hstart (by omega) (by omega))]
  apply sequenceFault_of_behind
  · rw [h.number]
    exact following_iterate_ne hstart hij (by omega)
  · rw [h.number, ← Function.iterate_succ_apply' following]
    exact following_sub_of_behind hstart hij hnear

/-- A telegram ahead of the next one is a gap, and the loss counted is the number of telegrams
in between, plus one when the numbers wrap after the next one. -/
theorem RunsAfter.receive_ahead (h : receiver.RunsAfter address start j nowNs)
    (hstart : start ≠ 0) (hbuffer : message.payload.length ≤ payloadOut.length) (hgap : j + 2 ≤ i)
    (hnear : i ≤ j + 2 ^ 31 - 2) :
    (receiver.receive (frame address message.payload message.status (following^[i] start)) nowNs
        payloadOut).2.status = .sequenceGap ∧
      (receiver.receive (frame address message.payload message.status (following^[i] start)) nowNs
          payloadOut).1.diagnostics.telegramsLost =
        receiver.diagnostics.telegramsLost + UInt64.ofNat
          (if following^[j + 1] start ≤ following^[i] start then i - j - 1 else i - j) := by
  have hdistance := following_sub_of_ahead hstart (show j + 1 ≤ i by omega) (by omega)
  rw [h.receive_other hbuffer (following_iterate_ne hstart (by omega) (by omega)).symm,
    ← hdistance]
  have hahead : (following^[i] start - following receiver.lastConsecutiveNumber).toNat <
      2 ^ 31 := by
    rw [h.number, ← Function.iterate_succ_apply' following, hdistance]
    split_ifs <;> omega
  have hother : following^[i] start ≠ receiver.lastConsecutiveNumber := by
    rw [h.number]
    exact (following_iterate_ne hstart (by omega) (by omega)).symm
  rw [Function.iterate_succ_apply', ← h.number]
  exact sequenceFault_of_ahead hother hahead

end Stream

/-- Within the watchdog window a running receiver whose last accepted telegram is number `j` of a
stream tells the next telegram, a repetition, a gap and a telegram out of order apart, up to
nearly half the ring of numbers away and wherever these wrap. -/
theorem sequence_faults_classified (address : SafetyAddress) (start : UInt32) (hstart : start ≠ 0)
    (messages : ℕ → Message) (watchdogNs : ℤ) (calls : ℕ → ReceiverCall) (n k j : ℕ)
    (acceptedNs : ℤ) (buffer : List UInt8)
    (hlast : (construct address watchdogNs).LastAcceptance calls n k)
    (hcall : calls k = .receive
      ((SafetySender.restartSequence { address } start).telegramAt messages j).view acceptedNs
      buffer)
    (hsync : ((construct address watchdogNs).receiverAt calls n).synchronised = true)
    (hclear : ((construct address watchdogNs).receiverAt calls n).safeState = false)
    (i : ℕ) (nowNs : ℤ) (hwindow : nowNs - acceptedNs ≤ watchdogNs) (payloadOut : List UInt8)
    (hbuffer : (messages i).payload.length ≤ payloadOut.length) :
    let status := (((construct address watchdogNs).receiverAt calls n).receive
      ((SafetySender.restartSequence { address } start).telegramAt messages i).view nowNs
      payloadOut).2.status
    (i = j + 1 → status = .valid) ∧ (i = j → status = .repetition) ∧
      (j + 2 ≤ i → i ≤ j + 2 ^ 31 - 2 → status = .sequenceGap) ∧
      (i < j → j ≤ i + (2 ^ 31 - 2) → status = .outOfOrder) := by
  have hruns := hlast.runsAfter hcall hsync hclear hwindow
  have hview : ((SafetySender.restartSequence { address } start).telegramAt messages i).view =
      frame address (messages i).payload (messages i).status (following^[i] start) :=
    SafetySender.telegramAt_view _ messages i
  rw [hview]
  refine ⟨?_, ?_, ?_, ?_⟩
  · rintro rfl
    exact hruns.receive_next hbuffer
  · rintro rfl
    exact hruns.receive_same hstart hbuffer
  · intro hgap hnear
    exact (hruns.receive_ahead hstart hbuffer hgap hnear).1
  · intro hij hnear
    exact hruns.receive_behind hstart hbuffer hij hnear

def emptyMessage : Message :=
  { payload := [], status := 0, out := blankTelegram, fits := Nat.zero_le kMaxPayloadBytes }

/-- A stream of empty telegrams from the given number on. -/
def emptyTelegrams (start : UInt32) (k : ℕ) : Telegram :=
  (SafetySender.restartSequence { address := {} } start).telegramAt (fun _ => emptyMessage) k

/-- A fresh receiver is given the first telegram of the stream. -/
def firstCall (start : UInt32) : ℕ → ReceiverCall
  | 0 => .receive (emptyTelegrams start 0).view 0 []
  | _ => .poll 0

theorem receive_first (start : UInt32) :
    ((construct {} 10).receive (emptyTelegrams start 0).view 0 []).2.status = .valid := by
  have hview : (emptyTelegrams start 0).view = frame {} [] 0 start :=
    SafetySender.telegramAt_view _ _ 0
  rw [hview, receive_valid_iff]
  refine ⟨rfl, wellSized_frame {} (Nat.zero_le _) le_rfl 0 start, ?_, ?_, ?_⟩
  · exact (authentic_frame_iff _ _ _ _ _).mpr rfl
  · exact fun hsync => absurd hsync Bool.false_ne_true
  · exact fun hsync => absurd hsync Bool.false_ne_true

theorem firstCall_accepts (start : UInt32) : (construct {} 10).Accepts (firstCall start 0) :=
  receive_first start

theorem firstCall_lastAcceptance (start : UInt32) :
    (construct {} 10).LastAcceptance (firstCall start) 1 0 :=
  ⟨Nat.one_pos, firstCall_accepts start, fun j hj hj1 => absurd hj1 (by omega)⟩

theorem receiverAt_firstCall (start : UInt32) :
    ((construct {} 10).receiverAt (firstCall start) 1).synchronised = true ∧
      ((construct {} 10).receiverAt (firstCall start) 1).safeState = false ∧
      ((construct {} 10).receiverAt (firstCall start) 1).diagnostics.telegramsLost = 0 := by
  have hfresh : (construct {} 10).receiverAt (firstCall start) 0 = construct {} 10 := rfl
  rw [receiverAt_succ, hfresh, firstCall, call, receive_of_valid (receive_first start)]
  exact ⟨rfl, rfl, rfl⟩

/-- The first telegram bears the last number before the wrap. -/
theorem sequence_faults_classified_wrap :
    (((construct {} 10).receiverAt (firstCall 0xFFFFFFFF) 1).receive
      (emptyTelegrams 0xFFFFFFFF 1).view 10 []).2.status = .valid ∧
    (((construct {} 10).receiverAt (firstCall 0xFFFFFFFF) 1).receive
      (emptyTelegrams 0xFFFFFFFF 2).view 10 []).2.status = .sequenceGap := by
  have hclassified (i : ℕ) := sequence_faults_classified {} 0xFFFFFFFF (by decide)
    (fun _ => emptyMessage) 10 (firstCall 0xFFFFFFFF) 1 0 0 0 []
    (firstCall_lastAcceptance 0xFFFFFFFF) rfl (receiverAt_firstCall 0xFFFFFFFF).1
    (receiverAt_firstCall 0xFFFFFFFF).2.1 i 10 (by decide) [] (Nat.zero_le _)
  unfold emptyTelegrams
  exact ⟨(hclassified 1).1 rfl, (hclassified 2).2.2.1 le_rfl (by decide)⟩

/-- The loss counted at a gap is the number of telegrams missed exactly when the consecutive
numbers do not wrap between the telegram expected and the one received. -/
theorem loss_count_exact_iff (address : SafetyAddress) (start : UInt32) (hstart : start ≠ 0)
    (messages : ℕ → Message) (watchdogNs : ℤ) (calls : ℕ → ReceiverCall) (n k j : ℕ)
    (acceptedNs : ℤ) (buffer : List UInt8)
    (hlast : (construct address watchdogNs).LastAcceptance calls n k)
    (hcall : calls k = .receive
      ((SafetySender.restartSequence { address } start).telegramAt messages j).view acceptedNs
      buffer)
    (hsync : ((construct address watchdogNs).receiverAt calls n).synchronised = true)
    (hclear : ((construct address watchdogNs).receiverAt calls n).safeState = false)
    (i : ℕ) (hgap : j + 2 ≤ i) (hnear : i ≤ j + 2 ^ 31 - 2) (nowNs : ℤ)
    (hwindow : nowNs - acceptedNs ≤ watchdogNs) (payloadOut : List UInt8)
    (hbuffer : (messages i).payload.length ≤ payloadOut.length) :
    (((construct address watchdogNs).receiverAt calls n).receive
        ((SafetySender.restartSequence { address } start).telegramAt messages i).view nowNs
        payloadOut).1.diagnostics.telegramsLost =
      ((construct address watchdogNs).receiverAt calls n).diagnostics.telegramsLost +
        UInt64.ofNat (i - j - 1) ↔
    receivedNumber
        ((SafetySender.restartSequence { address } start).telegramAt messages (j + 1)).view <
      receivedNumber
        ((SafetySender.restartSequence { address } start).telegramAt messages i).view := by
  have hruns := hlast.runsAfter hcall hsync hclear hwindow
  have hview : ((SafetySender.restartSequence { address } start).telegramAt messages i).view =
      frame address (messages i).payload (messages i).status (following^[i] start) :=
    SafetySender.telegramAt_view _ messages i
  have hnumber (k : ℕ) : receivedNumber
      ((SafetySender.restartSequence { address } start).telegramAt messages k).view =
        following^[k] start := SafetySender.receivedNumber_telegramAt _ messages k
  rw [hnumber, hnumber, hview, (hruns.receive_ahead hstart hbuffer hgap hnear).2,
    UInt64.add_right_inj]
  have hother := following_iterate_ne hstart (show j + 1 < i by omega) (by omega)
  split_ifs with hle
  · exact iff_of_true rfl (UInt32.lt_of_le_of_ne hle hother)
  · refine iff_of_false (fun hsame => ?_) fun hlt => hle (UInt32.le_of_lt hlt)
    have hcount := congrArg UInt64.toNat hsame
    rw [UInt64.toNat_ofNat', UInt64.toNat_ofNat'] at hcount
    omega

theorem loss_count_exact_iff_unwrapped :
    (((construct {} 10).receiverAt (firstCall 1) 1).receive (emptyTelegrams 1 8).view 10
        []).1.diagnostics.telegramsLost =
      ((construct {} 10).receiverAt (firstCall 1) 1).diagnostics.telegramsLost + 7 := by
  have hexact := loss_count_exact_iff {} 1 (by decide) (fun _ => emptyMessage) 10 (firstCall 1) 1 0
    0 0 [] (firstCall_lastAcceptance 1) rfl (receiverAt_firstCall 1).1
    (receiverAt_firstCall 1).2.1 8 (by decide) (by decide) 10 (by decide) [] (Nat.zero_le _)
  rw [SafetySender.receivedNumber_telegramAt, SafetySender.receivedNumber_telegramAt] at hexact
  unfold emptyTelegrams
  exact hexact.mpr (by decide)

/-- Only the last telegram before the wrap is missed, and two are counted as lost. -/
theorem loss_overcounted_at_wrap :
    (construct {} 10).LastAcceptance (firstCall 0xFFFFFFFE) 1 0 ∧
      firstCall 0xFFFFFFFE 0 = .receive (emptyTelegrams 0xFFFFFFFE 0).view 0 [] ∧
      ((construct {} 10).receiverAt (firstCall 0xFFFFFFFE) 1).synchronised = true ∧
      ((construct {} 10).receiverAt (firstCall 0xFFFFFFFE) 1).safeState = false ∧
      ((construct {} 10).receiverAt (firstCall 0xFFFFFFFE) 1).diagnostics.telegramsLost = 0 ∧
      (((construct {} 10).receiverAt (firstCall 0xFFFFFFFE) 1).receive
        (emptyTelegrams 0xFFFFFFFE 2).view 10 []).1.diagnostics.telegramsLost = 2 := by
  obtain ⟨hsync, hclear, hnone⟩ := receiverAt_firstCall 0xFFFFFFFE
  have hruns : ((construct {} 10).receiverAt (firstCall 0xFFFFFFFE) 1).RunsAfter {} 0xFFFFFFFE 0
      10 := (firstCall_lastAcceptance 0xFFFFFFFE).runsAfter rfl hsync hclear (by decide)
  have hview : (emptyTelegrams 0xFFFFFFFE 2).view =
      frame {} emptyMessage.payload emptyMessage.status (following^[2] 0xFFFFFFFE) :=
    SafetySender.telegramAt_view _ _ 2
  have hcounted := (@RunsAfter.receive_ahead _ _ _ 2 0 _ emptyMessage [] hruns (by decide)
    (Nat.zero_le _) le_rfl (by decide)).2
  refine ⟨firstCall_lastAcceptance _, rfl, hsync, hclear, hnone, ?_⟩
  rw [hview, hcounted, hnone]
  decide

end SafetyReceiver
end SafeEdge.Safety
