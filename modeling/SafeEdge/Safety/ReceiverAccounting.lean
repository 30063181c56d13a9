import SafeEdge.Library.WrappingCounter
import SafeEdge.Safety.ReceiverRun

/-! A rejected telegram hands nothing to the caller, latches the receiver and is counted once;
along every history the counters tell the latchings and the acceptances. -/
namespace SafeEdge.Safety
open Library

/-- The statuses by which a call reports the fault it has just latched. -/
def faultStatuses : List ReceiveStatus :=
  [.malformed, .crcMismatch, .repetition, .sequenceGap, .outOfOrder, .timeout]

/-- The counter of the faults reported by a status. -/
def ReceiverDiagnostics.faults (diagnostics : ReceiverDiagnostics) : ReceiveStatus → UInt64
  | .malformed => diagnostics.rejectedMalformed
  | .crcMismatch => diagnostics.rejectedCrc
  | .repetition => diagnostics.rejectedRepetition
  | .sequenceGap => diagnostics.rejectedSequenceGap
  | .outOfOrder => diagnostics.rejectedOutOfOrder
  | .timeout => diagnostics.timeouts
  | .valid | .inSafeState => 0

instance (c : ReceiverCall) : Decidable c.IsAcknowledgement :=
  match c with
  | .acknowledgeAndReset _ => inferInstanceAs (Decidable True)
  | .receive _ _ _ | .poll _ => inferInstanceAs (Decidable False)

theorem ne_of_mem_faultStatuses {status : ReceiveStatus} (h : status ∈ faultStatuses) :
    status ≠ .valid ∧ status ≠ .inSafeState := by
  constructor <;> rintro rfl <;> exact absurd h (by decide)

theorem sum_faultStatuses (answer : Option ReceiveStatus) :
    (faultStatuses.map fun status => if answer = some status then 1 else 0).sum =
      if ∃ status ∈ faultStatuses, answer = some status then 1 else 0 := by
  cases answer with
  | none => decide
  | some status => cases status <;> decide

namespace SafetyReceiver

/-- The status a call returns, if it returns one. -/
def returned (receiver : SafetyReceiver) : ReceiverCall → Option ReceiveStatus
  | .receive raw nowNs payloadOut => some (receiver.receive raw nowNs payloadOut).2.status
  | .poll nowNs => some (receiver.poll nowNs).2
  | .acknowledgeAndReset _ => none

/-- The call takes the receiver into its safe state. -/
def Latches (receiver : SafetyReceiver) (c : ReceiverCall) : Prop :=
  receiver.safeState = false ∧ (receiver.call c).safeState = true

instance (receiver : SafetyReceiver) (c : ReceiverCall) : Decidable (receiver.Latches c) :=
  inferInstanceAs (Decidable (_ ∧ _))

/-- A reception hands over the whole payload of its frame, or hands over nothing and leaves the
receiver latched. -/
def AllOrNothing (receiver : SafetyReceiver) (raw : List UInt8) (nowNs : ℤ)
    (payloadOut : List UInt8) : Prop :=
  let result := receiver.receive raw nowNs payloadOut
  (result.2.status = .valid ∧ result.2.payloadSize = raw.length - kOverheadBytes ∧
      result.2.payloadOut.take (raw.length - kOverheadBytes) =
        raw.take (raw.length - kOverheadBytes)) ∨
    (result.2.status ≠ .valid ∧ result.2.payloadSize = 0 ∧ result.2.statusOut = 0 ∧
      result.2.payloadOut = payloadOut ∧ result.1.safeState = true)

/-- The results one call can have: the receiver afterwards and the status returned. -/
inductive CallOutcome (receiver : SafetyReceiver) :
    ReceiverCall → SafetyReceiver → Option ReceiveStatus → Prop
  | ignored {c : ReceiverCall} (hlatched : receiver.safeState = true)
      (hack : ¬ c.IsAcknowledgement) : CallOutcome receiver c receiver (some .inSafeState)
  | faulted {c : ReceiverCall} (hclear : receiver.safeState = false)
      (hack : ¬ c.IsAcknowledgement) {status : ReceiveStatus} {fault : TransmissionFault}
      {diagnostics : ReceiverDiagnostics} (hstatus : status ∈ faultStatuses)
      (hfault : fault ≠ .none) (haccepted : diagnostics.accepted = receiver.diagnostics.accepted)
      (hcounted : ∀ s ∈ faultStatuses, diagnostics.faults s =
        if status = s then receiver.diagnostics.faults s + 1 else receiver.diagnostics.faults s) :
      CallOutcome receiver c ({ receiver with diagnostics }.latch fault) (some status)
  | alive {nowNs : ℤ} (hclear : receiver.safeState = false) :
      CallOutcome receiver (.poll nowNs) receiver (some .valid)
  | accepted {raw payloadOut : List UInt8} {nowNs : ℤ} (hclear : receiver.safeState = false)
      (hvalid : (receiver.receive raw nowNs payloadOut).2.status = .valid) :
      CallOutcome receiver (.receive raw nowNs payloadOut)
        (receiver.accept (receivedNumber raw) nowNs) (some .valid)
  | acknowledged {nowNs : ℤ} :
      CallOutcome receiver (.acknowledgeAndReset nowNs) (receiver.acknowledgeAndReset nowNs) none

section Step
variable {receiver : SafetyReceiver}

/-- Each rejection counts one fault, under the status it returns. -/
theorem Rejection.counted {raw payloadOut : List UInt8} {nowNs : ℤ} {status : ReceiveStatus}
    {fault : TransmissionFault} {diagnostics : ReceiverDiagnostics}
    (h : Rejection receiver raw nowNs payloadOut status fault diagnostics) :
    status ∈ faultStatuses ∧ fault ≠ .none ∧
      diagnostics.accepted = receiver.diagnostics.accepted ∧
      ∀ s ∈ faultStatuses, diagnostics.faults s =
        if status = s then receiver.diagnostics.faults s + 1
        else receiver.diagnostics.faults s := by
  cases h <;> refine ⟨by decide, by decide, rfl, ?_⟩ <;> intro s _ <;> cases s <;> rfl

theorem poll_outcome (receiver : SafetyReceiver) (nowNs : ℤ) :
    CallOutcome receiver (.poll nowNs) (receiver.poll nowNs).1 (some (receiver.poll nowNs).2) := by
  unfold poll
  split_ifs with hlatched hfresh hover
  · exact .ignored hlatched id
  · exact .alive (by simpa using hlatched)
  · have hstatus : ReceiveStatus.timeout ∈ faultStatuses := by decide
    have hfault : TransmissionFault.loss ≠ .none := by decide
    refine .faulted (by simpa using hlatched) id hstatus hfault rfl ?_
    intro s _
    cases s <;> rfl
  · exact .alive (by simpa using hlatched)

/-- Every call has one of the listed outcomes. -/
theorem call_outcome (receiver : SafetyReceiver) (c : ReceiverCall) :
    CallOutcome receiver c (receiver.call c) (receiver.returned c) := by
  cases c with
  | receive raw nowNs payloadOut =>
    have hout := receive_outcome receiver raw nowNs payloadOut
    rw [call, returned]
    generalize hresult : receiver.receive raw nowNs payloadOut = result at hout
    cases hout with
    | inSafeState hlatched => exact .ignored hlatched id
    | rejected hclear hrejection =>
      obtain ⟨hstatus, hfault, haccepted, hcounted⟩ := hrejection.counted
      exact .faulted hclear id hstatus hfault haccepted hcounted
    | accepted hclear => exact .accepted hclear (by rw [hresult])
  | poll nowNs => exact poll_outcome receiver nowNs
  | acknowledgeAndReset nowNs => exact .acknowledged

theorem call_latches_iff (receiver : SafetyReceiver) (c : ReceiverCall) :
    receiver.Latches c ↔ ∃ status ∈ faultStatuses, receiver.returned c = some status := by
  have hout := call_outcome receiver c
  rw [Latches]
  generalize receiver.call c = next at hout
  generalize receiver.returned c = status at hout
  cases hout with
  | ignored hlatched => simp [hlatched, faultStatuses]
  | faulted hclear _ hstatus => exact iff_of_true ⟨hclear, rfl⟩ ⟨_, hstatus, rfl⟩
  | alive hclear => simp [hclear, faultStatuses]
  | accepted hclear => simp [hclear, accept, faultStatuses]
  | acknowledged => simp [acknowledgeAndReset]

/-- A fault counter goes up exactly in the calls that return its status. -/
theorem call_faults (receiver : SafetyReceiver) (c : ReceiverCall) {status : ReceiveStatus}
    (hstatus : status ∈ faultStatuses) : (receiver.call c).diagnostics.faults status =
      if receiver.returned c = some status then receiver.diagnostics.faults status + 1
      else receiver.diagnostics.faults status := by
  have hout := call_outcome receiver c
  generalize receiver.call c = next at hout
  generalize receiver.returned c = answer at hout
  cases hout with
  | faulted _ _ _ _ _ hcounted =>
    simp only [Option.some.injEq]
    exact hcounted status hstatus
  | ignored =>
    exact (if_neg fun hsame =>
      (ne_of_mem_faultStatuses hstatus).2 (Option.some.inj hsame).symm).symm
  | alive | accepted =>
    exact (if_neg fun hsame =>
      (ne_of_mem_faultStatuses hstatus).1 (Option.some.inj hsame).symm).symm
  | acknowledged => rfl

theorem call_accepted (receiver : SafetyReceiver) (c : ReceiverCall) :
    (receiver.call c).diagnostics.accepted =
      if receiver.Accepts c then receiver.diagnostics.accepted + 1
      else receiver.diagnostics.accepted := by
  split_ifs with haccept
  · cases c with
    | receive raw nowNs payloadOut =>
      rw [call, receive_of_valid haccept]
      rfl
    | poll nowNs => exact haccept.elim
    | acknowledgeAndReset nowNs => exact haccept.elim
  · have hout := call_outcome receiver c
    generalize receiver.call c = next at hout
    generalize receiver.returned c = answer at hout
    cases hout with
    | ignored | alive | acknowledged => rfl
    | faulted _ _ _ _ haccepted => exact haccepted
    | accepted _ hvalid => exact absurd hvalid haccept

/-- The safe state is held exactly while a fault is named. -/
theorem call_safeState_iff (h : receiver.safeState = true ↔ receiver.lastFault ≠ .none)
    (c : ReceiverCall) :
    (receiver.call c).safeState = true ↔ (receiver.call c).lastFault ≠ .none := by
  have hout := call_outcome receiver c
  generalize receiver.call c = next at hout
  generalize receiver.returned c = answer at hout
  cases hout with
  | ignored | alive | accepted => exact h
  | faulted _ _ _ hfault => exact iff_of_true rfl hfault
  | acknowledged => exact iff_of_false Bool.false_ne_true (not_not.mpr rfl)

theorem allOrNothing (receiver : SafetyReceiver) (raw : List UInt8) (nowNs : ℤ)
    (payloadOut : List UInt8) : receiver.AllOrNothing raw nowNs payloadOut := by
  have hout := receive_outcome receiver raw nowNs payloadOut
  unfold AllOrNothing
  generalize receiver.receive raw nowNs payloadOut = result at hout
  cases hout with
  | inSafeState hlatched => exact .inr ⟨ReceiveStatus.noConfusion, rfl, rfl, rfl, hlatched⟩
  | rejected hclear hrejection =>
    exact .inr ⟨(ne_of_mem_faultStatuses hrejection.counted.1).1, rfl, rfl, rfl, rfl⟩
  | accepted hclear hsize =>
    refine .inl ⟨rfl, rfl, ?_⟩
    rw [← length_receivedPayload, copyTo, List.take_left, length_receivedPayload, receivedPayload]

theorem receive_of_latched (h : receiver.safeState = true) (raw : List UInt8) (nowNs : ℤ)
    (payloadOut : List UInt8) :
    receiver.receive raw nowNs payloadOut =
      (receiver, { status := .inSafeState, payloadOut }) :=
  if_pos h

theorem poll_of_latched (h : receiver.safeState = true) (nowNs : ℤ) :
    receiver.poll nowNs = (receiver, .inSafeState) :=
  if_pos h

theorem call_of_latched (h : receiver.safeState = true) {c : ReceiverCall}
    (hack : ¬ c.IsAcknowledgement) : receiver.call c = receiver := by
  cases c with
  | receive raw nowNs payloadOut => rw [call, receive_of_latched h]
  | poll nowNs => rw [call, poll_of_latched h]
  | acknowledgeAndReset nowNs => exact absurd trivial hack

/-- A latching enters the safe state and only an acknowledgement leaves it. -/
theorem call_latch_balance (receiver : SafetyReceiver) (c : ReceiverCall) :
    (if receiver.Latches c then 1 else 0) + (if receiver.safeState then 1 else 0) ≤
      (if c.IsAcknowledgement then 1 else 0) + if (receiver.call c).safeState then 1 else 0 := by
  by_cases hlatches : receiver.Latches c
  · obtain ⟨hclear, hlatched⟩ := id hlatches
    rw [if_pos hlatches, hclear, hlatched]
    exact Nat.le_add_left _ _
  · rw [if_neg hlatches, Nat.zero_add]
    by_cases hack : c.IsAcknowledgement
    · rw [if_pos hack]
      split_ifs <;> omega
    · by_cases hlatched : receiver.safeState = true
      · rw [call_of_latched hlatched hack]
        exact Nat.le_add_left _ _
      · rw [if_neg hlatched]
        exact Nat.zero_le _

end Step

section History
variable (receiver : SafetyReceiver) (calls : ℕ → ReceiverCall)

/-- The calls before call `n` that returned the status. -/
def returnsBefore (status : ReceiveStatus) (n : ℕ) : ℕ :=
  Nat.count (fun k => (receiver.receiverAt calls k).returned (calls k) = some status) n

/-- The calls before call `n` that latched the receiver. -/
def latchingsBefore (n : ℕ) : ℕ :=
  Nat.count (fun k => (receiver.receiverAt calls k).Latches (calls k)) n

/-- The receptions before call `n` that accepted their telegram. -/
def acceptancesBefore (n : ℕ) : ℕ :=
  Nat.count (fun k => (receiver.receiverAt calls k).Accepts (calls k)) n

def acknowledgementsBefore (n : ℕ) : ℕ :=
  Nat.count (fun k => (calls k).IsAcknowledgement) n

variable {receiver calls}

theorem receiverAt_faults {status : ReceiveStatus} (hstatus : status ∈ faultStatuses) (n : ℕ) :
    (receiver.receiverAt calls n).diagnostics.faults status =
      counterAt (receiver.diagnostics.faults status) (receiver.returnsBefore calls status n) := by
  have hstep (k : ℕ) := call_faults (receiver.receiverAt calls k) (calls k) hstatus
  exact @counterAt_of_events (fun k => (receiver.receiverAt calls k).diagnostics.faults status) _ _
    hstep n

theorem receiverAt_accepted (n : ℕ) : (receiver.receiverAt calls n).diagnostics.accepted =
    counterAt receiver.diagnostics.accepted (receiver.acceptancesBefore calls n) := by
  have hstep (k : ℕ) := call_accepted (receiver.receiverAt calls k) (calls k)
  exact @counterAt_of_events (fun k => (receiver.receiverAt calls k).diagnostics.accepted) _ _
    hstep n

/-- Each latching is reported by one status. -/
theorem sum_returnsBefore (n : ℕ) :
    (faultStatuses.map fun status => receiver.returnsBefore calls status n).sum =
      receiver.latchingsBefore calls n := by
  induction n with
  | zero => rfl
  | succ n ih =>
    simp only [returnsBefore, latchingsBefore, Nat.count_succ, call_latches_iff] at ih ⊢
    rw [List.sum_map_add, ih, sum_faultStatuses]

/-- Between two latchings lies an acknowledgement. -/
theorem latchingsBefore_le (n : ℕ) :
    receiver.latchingsBefore calls n ≤ acknowledgementsBefore calls n +
      if (receiver.receiverAt calls n).safeState then 1 else 0 := by
  induction n with
  | zero => simp [latchingsBefore]
  | succ n ih =>
    have hbalance := call_latch_balance (receiver.receiverAt calls n) (calls n)
    rw [latchingsBefore, acknowledgementsBefore] at ih ⊢
    rw [Nat.count_succ, Nat.count_succ, receiverAt_succ]
    omega

theorem receiverAt_safeState_iff
    (h : receiver.safeState = true ↔ receiver.lastFault ≠ .none) (n : ℕ) :
    (receiver.receiverAt calls n).safeState = true ↔
      (receiver.receiverAt calls n).lastFault ≠ .none := by
  apply stateAt_invariant (fun _ (r : SafetyReceiver) =>
    r.safeState = true ↔ r.lastFault ≠ .none) h
  intro k hk
  exact call_safeState_iff hk (calls k)

/-- A latched receiver stays as it is until it is acknowledged. -/
theorem receiverAt_of_latched {n m : ℕ} (hnm : n ≤ m)
    (h : (receiver.receiverAt calls n).safeState = true)
    (hquiet : ∀ k, n ≤ k → k < m → ¬ (calls k).IsAcknowledgement) :
    receiver.receiverAt calls m = receiver.receiverAt calls n := by
  induction m, hnm using Nat.le_induction with
  | base => rfl
  | succ m hnm ih =>
    have hsame := ih fun k hnk hkm => hquiet k hnk (by omega)
    rw [receiverAt_succ, hsame]
    exact call_of_latched h (hquiet m hnm (Nat.lt_succ_self m))

end History

/-- Along every history of a receiver: a reception is all or nothing; a latched receiver answers
`inSafeState` and stays as it is until acknowledged; it is latched exactly while it names a
fault; each of the six fault counters has counted the calls that returned its status, these are
together the latchings, and at most one more than the acknowledgements; and the acceptances are
the receptions that returned `valid`. -/
theorem rejection_accounted (address : SafetyAddress) (watchdogNs : ℤ)
    (calls : ℕ → ReceiverCall) (n : ℕ) :
    let receiver := construct address watchdogNs
    let current := receiver.receiverAt calls n
    (∀ raw nowNs payloadOut, current.AllOrNothing raw nowNs payloadOut) ∧
    (current.safeState = true →
      (∀ raw nowNs payloadOut,
        current.receive raw nowNs payloadOut =
          (current, { status := .inSafeState, payloadOut, payloadSize := 0, statusOut := 0 })) ∧
      (∀ nowNs, current.poll nowNs = (current, .inSafeState)) ∧
      ∀ m, n ≤ m → (∀ k, n ≤ k → k < m → ¬ (calls k).IsAcknowledgement) →
        receiver.receiverAt calls m = current) ∧
    (current.safeState = true ↔ current.lastFault ≠ .none) ∧
    (∀ status ∈ faultStatuses, current.diagnostics.faults status =
      counterAt 0 (receiver.returnsBefore calls status n)) ∧
    (faultStatuses.map fun status => receiver.returnsBefore calls status n).sum =
      receiver.latchingsBefore calls n ∧
    receiver.latchingsBefore calls n ≤ acknowledgementsBefore calls n + 1 ∧
    current.diagnostics.accepted = counterAt 0 (receiver.acceptancesBefore calls n) := by
  have hfresh : (construct address watchdogNs).safeState = true ↔
      (construct address watchdogNs).lastFault ≠ .none :=
    iff_of_false Bool.false_ne_true (not_not.mpr rfl)
  refine ⟨allOrNothing _, ?_, receiverAt_safeState_iff hfresh n, ?_, sum_returnsBefore n, ?_,
    receiverAt_accepted n⟩
  · intro hlatched
    exact ⟨receive_of_latched hlatched, poll_of_latched hlatched,
      fun m hnm hquiet => receiverAt_of_latched hnm hlatched hquiet⟩
  · intro status hstatus
    have hzero : (construct address watchdogNs).diagnostics.faults status = 0 := by
      cases status <;> rfl
    rw [receiverAt_faults hstatus, hzero]
  · have hle : (construct address watchdogNs).latchingsBefore calls n ≤ _ :=
      latchingsBefore_le n
    split_ifs at hle <;> omega

/-- Silence has latched the receiver, and a later poll changes nothing. -/
theorem rejection_accounted_silentCalls :
    (monitored.receiverAt silentCalls 2).safeState = true ∧
      (monitored.receiverAt silentCalls 2).poll 25 =
        (monitored.receiverAt silentCalls 2, .inSafeState) := by
  have hlatched : (monitored.receiverAt silentCalls 2).safeState = true := by
    rw [receiverAt_succ, receiverAt_silentCalls_one]
    rfl
  exact ⟨hlatched, ((rejection_accounted monitored.address 10 silentCalls 2).2.1 hlatched).2.1 25⟩

end SafetyReceiver
end SafeEdge.Safety
