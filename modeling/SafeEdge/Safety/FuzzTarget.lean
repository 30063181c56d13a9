import SafeEdge.Safety.ClockOrigin
import SafeEdge.Safety.DecoderImage
import SafeEdge.Safety.ReceiverAccounting

/-! The fuzz target of the telegram decoder: which inputs trap, and which answers of the receiver
its inputs can reach. -/
namespace SafeEdge.Safety
open Library

def kAddress : SafetyAddress where
  source := 0x0011
  destination := 0x2200
  parameterSignature := 0xDEADBEEF

/-- The check passes, instead of trapping. -/
def checkReceiveOutput (result : ReceiveStatus) (frame : List UInt8) (payloadSize : ℕ) : Bool :=
  if result = .valid then payloadSize + kOverheadBytes == frame.length else payloadSize == 0

/-- What an input that does not trap has made the receiver answer. -/
structure FuzzTrace where
  first : Reception
  second : Reception
  polled : ReceiveStatus
  receiver : SafetyReceiver

namespace FuzzTrace

/-- Everything the target sees of the receiver. -/
def answers (trace : FuzzTrace) : Reception × Reception × ReceiveStatus :=
  (trace.first, trace.second, trace.polled)

/-- The answers to the two deliveries. -/
def statuses (trace : FuzzTrace) : ReceiveStatus × ReceiveStatus :=
  (trace.first.status, trace.second.status)

end FuzzTrace

/-- The arrival time and the frame an input stands for. -/
def steer : List UInt8 → ℤ × List UInt8
  | [] => (0, [])
  | byte :: frame => (byte.toNat * 1000000, frame)

/-- The calls of the target on one input, `none` where a check traps. -/
def llvmFuzzerTestOneInput (data : List UInt8) : Option FuzzTrace :=
  let receiver := SafetyReceiver.construct kAddress 10000000
  let payload := List.replicate kMaxPayloadBytes 0
  let (nowNs, frame) := steer data
  let first := receiver.receive frame nowNs payload
  if checkReceiveOutput first.2.status frame first.2.payloadSize then
    let second := first.1.receive frame (nowNs + 1000000) first.2.payloadOut
    if checkReceiveOutput second.2.status frame second.2.payloadSize then
      let polled := second.1.poll (nowNs + 20000000)
      some { first := first.2, second := second.2, polled := polled.2, receiver := polled.1 }
    else none
  else none

namespace SafetyReceiver
variable (receiver : SafetyReceiver) (raw : List UInt8) (nowNs : ℤ) (payloadOut : List UInt8)

/-- The size a call reports agrees with its frame, in every state of the receiver. -/
theorem checkReceiveOutput_receive :
    checkReceiveOutput (receiver.receive raw nowNs payloadOut).2.status raw
      (receiver.receive raw nowNs payloadOut).2.payloadSize = true := by
  have hout := receive_outcome receiver raw nowNs payloadOut
  generalize receiver.receive raw nowNs payloadOut = result at hout ⊢
  cases hout with
  | inSafeState => rfl
  | rejected _ hrejection => cases hrejection <;> rfl
  | accepted _ hsize =>
    have hlong := hsize.1
    simp only [checkReceiveOutput, if_true, beq_iff_eq]
    omega

end SafetyReceiver

section Target
open SafetyReceiver

/-- The calls made for a frame that arrives at a time. -/
def traceOf (nowNs : ℤ) (frame : List UInt8) : FuzzTrace :=
  let first := (construct kAddress 10000000).receive frame nowNs (List.replicate kMaxPayloadBytes 0)
  let second := first.1.receive frame (nowNs + 1000000) first.2.payloadOut
  let polled := second.1.poll (nowNs + 20000000)
  { first := first.2, second := second.2, polled := polled.2, receiver := polled.1 }

theorem llvmFuzzerTestOneInput_eq (data : List UInt8) :
    llvmFuzzerTestOneInput data = some (traceOf (steer data).1 (steer data).2) := by
  simp only [llvmFuzzerTestOneInput, checkReceiveOutput_receive, if_true]
  rfl

/-- The arrival time is not looked at: the receiver has no other time to compare it with than the
ones derived from it. -/
theorem answers_traceOf (nowNs offset : ℤ) (frame : List UInt8) :
    (traceOf (nowNs + offset) frame).answers = (traceOf nowNs frame).answers := by
  have hfirst := (sameOnClock_construct kAddress 10000000 offset).receive frame nowNs
    (List.replicate kMaxPayloadBytes 0)
  have hsecond := hfirst.1.receive frame (nowNs + 1000000)
    ((construct kAddress 10000000).receive frame nowNs
      (List.replicate kMaxPayloadBytes 0)).2.payloadOut
  have hpolled := hsecond.1.poll (nowNs + 20000000)
  have hlater (delay : ℤ) : nowNs + offset + delay = nowNs + delay + offset := by omega
  simp only [traceOf, FuzzTrace.answers, hlater, hfirst.2, hsecond.2, hpolled.2]

theorem following_ne_self (number : UInt32) : number ≠ following number := by
  unfold following
  split_ifs with hwrap
  · rintro rfl
    exact absurd hwrap (by decide)
  · simp

/-- A frame the fresh receiver has accepted is refused as a repetition when it comes again. -/
theorem receive_again {raw : List UInt8} {nowNs : ℤ} {receiver : SafetyReceiver}
    {payloadOut : List UInt8} (hclear : receiver.safeState = false)
    (hsize : WellSized raw payloadOut) (hcrc : receiver.Authentic raw)
    (hwindow : 1000000 ≤ receiver.watchdogNs) :
    ((receiver.accept (receivedNumber raw) nowNs).receive raw (nowNs + 1000000)
        payloadOut).2.status = .repetition ∧
      ((receiver.accept (receivedNumber raw) nowNs).receive raw (nowNs + 1000000)
        payloadOut).1.safeState = true ∧
      ((receiver.accept (receivedNumber raw) nowNs).receive raw (nowNs + 1000000)
        payloadOut).1.diagnostics.timeouts = receiver.diagnostics.timeouts := by
  have hout := receive_outcome (receiver.accept (receivedNumber raw) nowNs) raw (nowNs + 1000000)
    payloadOut
  generalize (receiver.accept (receivedNumber raw) nowNs).receive raw (nowNs + 1000000)
    payloadOut = result at hout ⊢
  have htimely : (receiver.accept (receivedNumber raw) nowNs).Timely (nowNs + 1000000) := by
    intro _ hoverdue
    change nowNs + 1000000 - nowNs > receiver.watchdogNs at hoverdue
    omega
  cases hout with
  | inSafeState hlatched => exact absurd (hclear.symm.trans hlatched) (by decide)
  | rejected _ hrejection =>
    cases hrejection with
    | malformed hbad => exact absurd hsize hbad
    | crcMismatch _ hbad => exact absurd hcrc hbad
    | late _ _ hlate => exact absurd htimely hlate
    | repetition => exact ⟨rfl, rfl, rfl⟩
    | outOfOrder _ _ _ _ hother => exact absurd rfl hother
    | sequenceGap _ _ _ _ hother => exact absurd rfl hother
  | accepted _ _ _ _ hseq => exact absurd (hseq rfl) (following_ne_self _)

/-- The answers to the two deliveries that the target can get. -/
def reachable : List (ReceiveStatus × ReceiveStatus) :=
  [(.valid, .repetition), (.malformed, .inSafeState), (.crcMismatch, .inSafeState)]

theorem traceOf_statuses (nowNs : ℤ) (frame : List UInt8) :
    (traceOf nowNs frame).statuses ∈ reachable ∧ (traceOf nowNs frame).polled = .inSafeState ∧
      (traceOf nowNs frame).receiver.diagnostics.timeouts = 0 := by
  have hout := receive_outcome (construct kAddress 10000000) frame nowNs
    (List.replicate kMaxPayloadBytes 0)
  simp only [traceOf, FuzzTrace.statuses]
  generalize (construct kAddress 10000000).receive frame nowNs
    (List.replicate kMaxPayloadBytes 0) = first at hout
  cases hout with
  | inSafeState hlatched => exact nomatch hlatched
  | @rejected _ status fault diagnostics hrejection =>
    have hsafe : (({ construct kAddress 10000000 with diagnostics } : SafetyReceiver).latch
      fault).safeState = true := rfl
    simp only [receive_of_latched hsafe, poll_of_latched hsafe]
    cases hrejection with
    | malformed => exact ⟨by decide, trivial, rfl⟩
    | crcMismatch => exact ⟨by decide, trivial, rfl⟩
    | late _ _ hlate => exact absurd (fun hs => nomatch hs) hlate
    | repetition _ _ _ hseq => exact absurd (fun hs => nomatch hs) hseq
    | outOfOrder _ _ _ hseq => exact absurd (fun hs => nomatch hs) hseq
    | sequenceGap _ _ _ hseq => exact absurd (fun hs => nomatch hs) hseq
  | accepted hclear hsize hcrc =>
    have hfits : (receivedPayload frame).length ≤
        (List.replicate kMaxPayloadBytes (0 : UInt8)).length := by
      rw [length_receivedPayload]
      exact hsize.2.2
    have hagain : WellSized frame
        (copyTo (receivedPayload frame) (List.replicate kMaxPayloadBytes 0)) := by
      rw [WellSized, length_copyTo hfits]
      exact hsize
    obtain ⟨hstatus, hlatched, htimeouts⟩ :=
      @receive_again frame nowNs _ _ hclear hagain hcrc (by decide)
    rw [poll_of_latched hlatched, hstatus]
    exact ⟨List.mem_cons_self, rfl, htimeouts⟩

theorem traceOf_valid_iff (nowNs : ℤ) (frame : List UInt8) :
    (traceOf nowNs frame).first.status = .valid ↔
      ∃ payload status number, Encodes kAddress payload status number frame := by
  constructor
  · intro hvalid
    obtain ⟨hencodes, _, _⟩ := @admits_of_valid (construct kAddress 10000000)
      (fun _ => .poll 0) rfl 0 nowNs (List.replicate kMaxPayloadBytes 0) frame hvalid
    exact ⟨_, _, _, hencodes⟩
  · rintro ⟨payload, status, number, hencodes⟩
    exact @valid_of_admits (construct kAddress 10000000) (fun _ => .poll 0) rfl 0 rfl nowNs
      (List.replicate kMaxPayloadBytes 0) frame payload status number
      ⟨hencodes, by rw [List.length_replicate]; exact hencodes.1, Or.inl rfl⟩

theorem statuses_of_valid {nowNs : ℤ} {frame : List UInt8}
    (h : (traceOf nowNs frame).first.status = .valid) :
    (traceOf nowNs frame).statuses = (.valid, .repetition) := by
  have hpair := (traceOf_statuses nowNs frame).1
  simpa [reachable, FuzzTrace.statuses, h] using hpair

/-- A frame that a sender of this relationship encodes, no frame, and one of zeros. -/
theorem reachable_reached {pair : ReceiveStatus × ReceiveStatus} (h : pair ∈ reachable) :
    ∃ frame, (traceOf 0 frame).statuses = pair := by
  simp only [reachable, List.mem_cons, List.not_mem_nil, or_false] at h
  rcases h with rfl | rfl | rfl
  · have hvalid := (traceOf_valid_iff 0 (frame kAddress [] 0 1)).mpr
      ⟨[], 0, 1, (encodes_iff ..).mpr ⟨by decide, rfl⟩⟩
    exact ⟨_, statuses_of_valid hvalid⟩
  · exact ⟨[], by decide⟩
  · exact ⟨List.replicate kOverheadBytes 0, by decide +kernel⟩

/-- No input makes the target trap. The answers to its two deliveries are exactly three pairs: a
frame that a sender of this relationship encodes is accepted and then refused as a repetition, any
other is refused for its size or its checksum and then not looked at. The poll always finds the
latch, so no input reaches a timeout, and the byte that is to steer the arrival time changes no
answer. -/
theorem fuzz_target_reaches :
    (∀ answered, (∃ data, (llvmFuzzerTestOneInput data).map FuzzTrace.statuses = answered) ↔
      ∃ pair ∈ reachable, answered = some pair) ∧
    ∀ data, ∃ trace, llvmFuzzerTestOneInput data = some trace ∧
      (trace.first.status = .valid ↔
        ∃ payload status number, Encodes kAddress payload status number data.tail) ∧
      trace.polled = .inSafeState ∧ trace.receiver.diagnostics.timeouts = 0 ∧
      ∀ byte, (llvmFuzzerTestOneInput (byte :: data.tail)).map FuzzTrace.answers =
        some trace.answers := by
  refine ⟨fun answered => ⟨?_, ?_⟩, fun data => ?_⟩
  · rintro ⟨data, rfl⟩
    rw [llvmFuzzerTestOneInput_eq, Option.map_some]
    exact ⟨_, (traceOf_statuses (steer data).1 (steer data).2).1, rfl⟩
  · rintro ⟨pair, hpair, rfl⟩
    obtain ⟨frame, rfl⟩ := reachable_reached hpair
    exact ⟨0 :: frame, by rw [llvmFuzzerTestOneInput_eq]; rfl⟩
  · have hframe : (steer data).2 = data.tail := by cases data <;> rfl
    obtain ⟨-, hpolled, htimeouts⟩ := traceOf_statuses (steer data).1 data.tail
    refine ⟨traceOf (steer data).1 data.tail, ?_, traceOf_valid_iff _ _, hpolled, htimeouts,
      fun byte => ?_⟩
    · rw [llvmFuzzerTestOneInput_eq, hframe]
    · have hshift := answers_traceOf (steer data).1 (byte.toNat * 1000000 - (steer data).1)
        data.tail
      rw [llvmFuzzerTestOneInput_eq, Option.map_some, ← hshift]
      simp [steer]

end Target
end SafeEdge.Safety
