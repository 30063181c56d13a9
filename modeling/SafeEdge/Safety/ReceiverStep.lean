import SafeEdge.Safety.TelegramCodec

/-! What one call of the receiver can do: the inversion lemmas from which every property of
its histories is derived. -/
namespace SafeEdge.Safety
namespace SafetyReceiver

/-- A frame of admissible length whose payload fits the caller's buffer. -/
def WellSized (raw payloadOut : List UInt8) : Prop :=
  kOverheadBytes ≤ raw.length ∧ raw.length ≤ kMaxTelegramBytes ∧
    raw.length - kOverheadBytes ≤ payloadOut.length

theorem wellSized_of_length {raw payload payloadOut : List UInt8}
    (hlength : raw.length = payload.length + kOverheadBytes)
    (hpayload : payload.length ≤ kMaxPayloadBytes)
    (hbuffer : payload.length ≤ payloadOut.length) : WellSized raw payloadOut := by
  rw [WellSized, hlength, kMaxTelegramBytes]
  omega

/-- The frame carries the checksum of the receiver's relationship. -/
def Authentic (receiver : SafetyReceiver) (raw : List UInt8) : Prop :=
  receivedCrc raw = expectedCrc raw receiver.address

/-- The frame arrives inside the watchdog window of a running relationship. -/
def Timely (receiver : SafetyReceiver) (nowNs : ℤ) : Prop :=
  receiver.synchronised = true → ¬ receiver.Overdue nowNs

/-- The frame continues the sequence of a running relationship. -/
def InSequence (receiver : SafetyReceiver) (raw : List UInt8) : Prop :=
  receiver.synchronised = true →
    receivedNumber raw = following receiver.lastConsecutiveNumber

/-- The ways an unlatched receiver rejects a frame: the status returned, the fault latched and
the diagnostics afterwards. -/
inductive Rejection (receiver : SafetyReceiver) (raw : List UInt8) (nowNs : ℤ)
    (payloadOut : List UInt8) :
    ReceiveStatus → TransmissionFault → ReceiverDiagnostics → Prop
  | malformed (hsize : ¬ WellSized raw payloadOut) :
      Rejection receiver raw nowNs payloadOut .malformed .corruption
        { receiver.diagnostics with
          rejectedMalformed := receiver.diagnostics.rejectedMalformed + 1 }
  | crcMismatch (hsize : WellSized raw payloadOut) (hcrc : ¬ receiver.Authentic raw) :
      Rejection receiver raw nowNs payloadOut .crcMismatch .corruption
        { receiver.diagnostics with rejectedCrc := receiver.diagnostics.rejectedCrc + 1 }
  | late (hsize : WellSized raw payloadOut) (hcrc : receiver.Authentic raw)
      (hlate : ¬ receiver.Timely nowNs) :
      Rejection receiver raw nowNs payloadOut .timeout .unacceptableDelay
        { receiver.diagnostics with timeouts := receiver.diagnostics.timeouts + 1 }
  | repetition (hsize : WellSized raw payloadOut) (hcrc : receiver.Authentic raw)
      (htime : receiver.Timely nowNs) (hseq : ¬ receiver.InSequence raw)
      (hsame : receivedNumber raw = receiver.lastConsecutiveNumber) :
      Rejection receiver raw nowNs payloadOut .repetition .unintendedRepetition
        { receiver.diagnostics with
          rejectedRepetition := receiver.diagnostics.rejectedRepetition + 1 }
  | outOfOrder (hsize : WellSized raw payloadOut) (hcrc : receiver.Authentic raw)
      (htime : receiver.Timely nowNs) (hseq : ¬ receiver.InSequence raw)
      (hother : receivedNumber raw ≠ receiver.lastConsecutiveNumber)
      (hbehind : (receivedNumber raw - following receiver.lastConsecutiveNumber).toInt32 < 0) :
      Rejection receiver raw nowNs payloadOut .outOfOrder .incorrectSequence
        { receiver.diagnostics with
          rejectedOutOfOrder := receiver.diagnostics.rejectedOutOfOrder + 1 }
  | sequenceGap (hsize : WellSized raw payloadOut) (hcrc : receiver.Authentic raw)
      (htime : receiver.Timely nowNs) (hseq : ¬ receiver.InSequence raw)
      (hother : receivedNumber raw ≠ receiver.lastConsecutiveNumber)
      (hahead : ¬ (receivedNumber raw - following receiver.lastConsecutiveNumber).toInt32 < 0) :
      Rejection receiver raw nowNs payloadOut .sequenceGap .loss
        { receiver.diagnostics with
          telegramsLost := receiver.diagnostics.telegramsLost +
            (receivedNumber raw -
              following receiver.lastConsecutiveNumber).toInt32.toInt64.toUInt64
          rejectedSequenceGap := receiver.diagnostics.rejectedSequenceGap + 1 }

/-- The results one call of `receive` can have. -/
inductive Outcome (receiver : SafetyReceiver) (raw : List UInt8) (nowNs : ℤ)
    (payloadOut : List UInt8) : SafetyReceiver × Reception → Prop
  | inSafeState (hlatched : receiver.safeState = true) :
      Outcome receiver raw nowNs payloadOut (receiver, { status := .inSafeState, payloadOut })
  | rejected (hclear : receiver.safeState = false) {status : ReceiveStatus}
      {fault : TransmissionFault} {diagnostics : ReceiverDiagnostics}
      (hrejection : Rejection receiver raw nowNs payloadOut status fault diagnostics) :
      Outcome receiver raw nowNs payloadOut
        ({ receiver with diagnostics }.latch fault, { status, payloadOut })
  | accepted (hclear : receiver.safeState = false) (hsize : WellSized raw payloadOut)
      (hcrc : receiver.Authentic raw) (htime : receiver.Timely nowNs)
      (hseq : receiver.InSequence raw) :
      Outcome receiver raw nowNs payloadOut
        (receiver.accept (receivedNumber raw) nowNs,
          { status := .valid
            payloadOut := copyTo (receivedPayload raw) payloadOut
            payloadSize := raw.length - kOverheadBytes
            statusOut := receivedStatus raw })

variable (receiver : SafetyReceiver) (raw : List UInt8) (nowNs : ℤ) (payloadOut : List UInt8)

theorem receive_outcome :
    Outcome receiver raw nowNs payloadOut (receiver.receive raw nowNs payloadOut) := by
  unfold receive
  by_cases hsafe : receiver.safeState = true
  · rw [if_pos hsafe]
    exact .inSafeState hsafe
  rw [if_neg hsafe]
  rw [Bool.not_eq_true] at hsafe
  split_ifs with hlength hbuffer hcrc hlate hseq
  · exact .rejected hsafe (.malformed fun hsize => by
      obtain ⟨hlow, hhigh, _⟩ := hsize
      omega)
  · exact .rejected hsafe (.malformed fun hsize => by
      obtain ⟨_, _, hfits⟩ := hsize
      omega)
  all_goals
    have hsize : WellSized raw payloadOut := ⟨by omega, by omega, by omega⟩
  · exact .rejected hsafe (.crcMismatch hsize hcrc)
  · exact .rejected hsafe (.late hsize (not_not.mp hcrc) fun htime => htime hlate.1 hlate.2)
  all_goals
    have htime : receiver.Timely nowNs := fun hs ho => hlate ⟨hs, ho⟩
  · have hbroken : ¬ receiver.InSequence raw := fun h => hseq.2 (h hseq.1)
    simp only [sequenceFault]
    split_ifs with hsame hbehind
    · exact .rejected hsafe (.repetition hsize (not_not.mp hcrc) htime hbroken hsame)
    · exact .rejected hsafe (.outOfOrder hsize (not_not.mp hcrc) htime hbroken hsame hbehind)
    · exact .rejected hsafe (.sequenceGap hsize (not_not.mp hcrc) htime hbroken hsame hbehind)
  · exact .accepted hsafe hsize (not_not.mp hcrc) htime fun hs =>
      not_not.mp fun hne => hseq ⟨hs, hne⟩

/-- A frame is accepted exactly by an unlatched receiver that finds it well sized, authentic,
timely and in sequence. -/
theorem receive_valid_iff : (receiver.receive raw nowNs payloadOut).2.status = .valid ↔
    receiver.safeState = false ∧ WellSized raw payloadOut ∧ receiver.Authentic raw ∧
      receiver.Timely nowNs ∧ receiver.InSequence raw := by
  have hout := receive_outcome receiver raw nowNs payloadOut
  generalize receiver.receive raw nowNs payloadOut = result at hout ⊢
  cases hout with
  | inSafeState hlatched => simp [hlatched]
  | rejected hclear hrejection => cases hrejection <;> simp_all
  | accepted hclear hsize hcrc htime hseq => simp [hclear, hsize, hcrc, htime, hseq]

variable {receiver raw nowNs payloadOut}

theorem receive_of_valid
    (h : (receiver.receive raw nowNs payloadOut).2.status = .valid) :
    receiver.receive raw nowNs payloadOut =
      (receiver.accept (receivedNumber raw) nowNs,
        { status := .valid
          payloadOut := copyTo (receivedPayload raw) payloadOut
          payloadSize := raw.length - kOverheadBytes
          statusOut := receivedStatus raw }) := by
  have hout := receive_outcome receiver raw nowNs payloadOut
  generalize receiver.receive raw nowNs payloadOut = result at hout h
  cases hout with
  | inSafeState hlatched => simp at h
  | rejected hclear hrejection => cases hrejection <;> simp at h
  | accepted hclear hsize hcrc htime hseq => rfl

/-- A call that accepts nothing changes only the latch, the fault and the diagnostics. -/
theorem receive_of_not_valid
    (h : (receiver.receive raw nowNs payloadOut).2.status ≠ .valid) :
    (receiver.receive raw nowNs payloadOut).1.lastValidNs = receiver.lastValidNs ∧
      (receiver.receive raw nowNs payloadOut).1.synchronised = receiver.synchronised ∧
      (receiver.receive raw nowNs payloadOut).1.lastConsecutiveNumber =
        receiver.lastConsecutiveNumber := by
  have hout := receive_outcome receiver raw nowNs payloadOut
  generalize receiver.receive raw nowNs payloadOut = result at hout h
  cases hout with
  | inSafeState hlatched => exact ⟨rfl, rfl, rfl⟩
  | rejected hclear hrejection => exact ⟨rfl, rfl, rfl⟩
  | accepted hclear hsize hcrc htime hseq => exact absurd rfl h

/-- An unlatched receiver rejects a well-sized frame with a wrong checksum, latches and leaves
the caller's buffer alone. -/
theorem receive_of_crcMismatch (hclear : receiver.safeState = false)
    (hsize : WellSized raw payloadOut) (hcrc : ¬ receiver.Authentic raw) :
    receiver.receive raw nowNs payloadOut =
      ({ receiver with
          diagnostics.rejectedCrc := receiver.diagnostics.rejectedCrc + 1 }.latch .corruption,
        { status := .crcMismatch, payloadOut }) := by
  have hout := receive_outcome receiver raw nowNs payloadOut
  generalize receiver.receive raw nowNs payloadOut = result at hout
  cases hout with
  | inSafeState hlatched => simp [hclear] at hlatched
  | rejected _ hrejection =>
    cases hrejection with
    | malformed hbad => exact absurd hsize hbad
    | crcMismatch => rfl
    | late _ hgood | repetition _ hgood | outOfOrder _ hgood | sequenceGap _ hgood =>
      exact absurd hgood hcrc
  | accepted _ _ hgood => exact absurd hgood hcrc

theorem receive_crcMismatch_iff (hclear : receiver.safeState = false)
    (hsize : WellSized raw payloadOut) :
    (receiver.receive raw nowNs payloadOut).2.status = .crcMismatch ↔
      ¬ receiver.Authentic raw := by
  constructor
  · intro hstatus
    have hout := receive_outcome receiver raw nowNs payloadOut
    generalize receiver.receive raw nowNs payloadOut = result at hout hstatus
    cases hout with
    | inSafeState hlatched => simp at hstatus
    | rejected _ hrejection =>
      cases hrejection with
      | crcMismatch _ hcrc => exact hcrc
      | _ => simp at hstatus
    | accepted _ _ _ _ _ => simp at hstatus
  · intro hcrc
    rw [receive_of_crcMismatch hclear hsize hcrc]

@[simp] theorem receive_address :
    (receiver.receive raw nowNs payloadOut).1.address = receiver.address := by
  have hout := receive_outcome receiver raw nowNs payloadOut
  generalize receiver.receive raw nowNs payloadOut = result at hout
  cases hout <;> rfl

@[simp] theorem receive_watchdogNs :
    (receiver.receive raw nowNs payloadOut).1.watchdogNs = receiver.watchdogNs := by
  have hout := receive_outcome receiver raw nowNs payloadOut
  generalize receiver.receive raw nowNs payloadOut = result at hout
  cases hout <;> rfl

end SafetyReceiver
end SafeEdge.Safety
