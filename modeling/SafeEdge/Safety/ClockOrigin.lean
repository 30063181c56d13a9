import SafeEdge.Safety.Discrepancy
import SafeEdge.Safety.ReceiverRun

/-! Where the clocks start does not matter: the supervisor answers the same way when the clock of
each channel and the clock of the comparison are set to other origins, and so does the receiver. -/
namespace SafeEdge.Safety
open Library

abbrev SafetyInputs.delayed (inputs : SafetyInputs) (offset : ℤ) : SafetyInputs :=
  { inputs with timestampNs := inputs.timestampNs + offset }

/-- The same cycle read from other clocks, one for each channel and one for the comparison. -/
def SupervisorCycle.delayed (c : SupervisorCycle) (offsets : Channel → ℤ) (offset : ℤ) :
    SupervisorCycle where
  channelAInputs := c.channelAInputs.delayed (offsets .a)
  channelBInputs := c.channelBInputs.delayed (offsets .b)
  nowNs := c.nowNs + offset

theorem SupervisorCycle.inputs_delayed (c : SupervisorCycle) (offsets : Channel → ℤ) (offset : ℤ)
    (ch : Channel) : (c.delayed offsets offset).inputs ch = (c.inputs ch).delayed (offsets ch) := by
  cases ch <;> rfl

namespace SafetyStateMachine

abbrev startedAt (m : SafetyStateMachine) (startedNs : ℤ) : SafetyStateMachine :=
  { m with stopStartedNs := startedNs }

/-- The same machine on another clock: a stop under way began at the corresponding time, and
outside a stop the recorded time is not looked at. -/
def SameOnClock (offset : ℤ) (m other : SafetyStateMachine) : Prop :=
  ∃ startedNs, other = m.startedAt startedNs ∧
    (m.state = .stopping → startedNs = m.stopStartedNs + offset)

section Step
variable {m : SafetyStateMachine} {inputs : SafetyInputs} {startedNs offset : ℤ}

theorem stateMonitor_startedAt
    (h : m.state = .stopping → startedNs = m.stopStartedNs + offset) :
    (m.startedAt startedNs).stateMonitor (inputs.delayed offset) =
      (m.stateMonitor inputs).map fun next => next.startedAt startedNs := by
  cases hs : m.state with
  | stopping =>
    have hage : inputs.timestampNs + offset - startedNs =
        inputs.timestampNs - m.stopStartedNs := by
      rw [h hs]
      omega
    simp only [stateMonitor, hs, hage]
    split_ifs <;> rfl
  | selfTest | operatingStop | limitedSpeed =>
    simp only [stateMonitor, hs]
    split_ifs <;> rfl
  | safeTorqueOff | operational =>
    simp only [stateMonitor, hs]
    rfl

theorem positionMonitor_startedAt :
    (m.startedAt startedNs).positionMonitor (inputs.delayed offset) =
      (m.positionMonitor inputs).map fun next => next.startedAt startedNs := by
  unfold positionMonitor
  split_ifs <;> rfl

/-- A monitor that ends the cycle in a stop leaves the machine as it was. -/
theorem stateMonitor_of_stopping {next : SafetyStateMachine}
    (h : m.stateMonitor inputs = some next) (hs : next.state = .stopping) : next = m := by
  unfold stateMonitor at h
  cases hm : m.state with
  | selfTest | limitedSpeed | operatingStop | stopping =>
    simp only [hm] at h
    split_ifs at h <;> cases h <;> first | rfl | nomatch hs
  | safeTorqueOff | operational => simp [hm] at h

theorem positionMonitor_state {next : SafetyStateMachine}
    (h : m.positionMonitor inputs = some next) : next.state = .safeTorqueOff := by
  unfold positionMonitor at h
  split_ifs at h
  cases h
  rfl

theorem sameOnClock_startedAt (h : m.state ≠ .stopping) :
    SameOnClock offset m (m.startedAt startedNs) :=
  ⟨startedNs, rfl, fun hstopping => absurd hstopping h⟩

theorem sameOnClock_enterSafeTorqueOff (reason : FaultReason) :
    SameOnClock offset (m.enterSafeTorqueOff reason)
      ((m.startedAt startedNs).enterSafeTorqueOff reason) :=
  @sameOnClock_startedAt (m.enterSafeTorqueOff reason) startedNs offset
    (by simp [enterSafeTorqueOff])

variable {other : SafetyStateMachine}

theorem SameOnClock.requestedTransition (h : SameOnClock offset m other) :
    SameOnClock offset (m.requestedTransition inputs)
      (other.requestedTransition (inputs.delayed offset)) := by
  have hsame := h
  obtain ⟨startedNs, rfl, hstarted⟩ := h
  simp only [SafetyStateMachine.requestedTransition]
  cases inputs.request with
  | safeTorqueOff => exact sameOnClock_enterSafeTorqueOff .none
  | safeStop1 =>
    dsimp only
    split_ifs
    · exact ⟨inputs.timestampNs + offset, rfl, fun _ => rfl⟩
    · exact @sameOnClock_startedAt { m with state := .safeTorqueOff } _ _
        (fun hstopping => nomatch hstopping)
    · exact hsame
  | safeOperatingStop =>
    dsimp only
    split_ifs
    · exact sameOnClock_enterSafeTorqueOff .invalidRequest
    · exact @sameOnClock_startedAt
        { m with state := .operatingStop, standstillReference := inputs.position } _ _
        (fun hstopping => nomatch hstopping)
    · exact sameOnClock_enterSafeTorqueOff .invalidRequest
    · exact hsame
  | safelyLimitedSpeed =>
    dsimp only
    split_ifs
    · exact sameOnClock_enterSafeTorqueOff .speedLimitExceeded
    · exact @sameOnClock_startedAt { m with state := .limitedSpeed } _ _
        (fun hstopping => nomatch hstopping)
    · exact hsame
  | none =>
    dsimp only
    split_ifs
    · exact @sameOnClock_startedAt { m with state := .operational } _ _
        (fun hstopping => nomatch hstopping)
    · exact hsame

/-- One cycle keeps the correspondence. -/
theorem SameOnClock.advance (h : SameOnClock offset m other) (inputs : SafetyInputs) :
    SameOnClock offset (m.advance inputs) (other.advance (inputs.delayed offset)) := by
  have hsame := h
  obtain ⟨startedNs, rfl, hstarted⟩ := h
  have hmonitor := @stateMonitor_startedAt m inputs startedNs offset hstarted
  have hposition := @positionMonitor_startedAt m inputs startedNs offset
  have hdemand : unconditionalDemandActive (inputs.delayed offset) =
    unconditionalDemandActive inputs := rfl
  simp only [SafetyStateMachine.advance, hmonitor, hposition, hdemand]
  by_cases hactive : unconditionalDemandActive inputs = true
  · rw [if_pos hactive, if_pos hactive]
    exact sameOnClock_enterSafeTorqueOff (unconditionalDemandReason inputs)
  rw [if_neg hactive, if_neg hactive]
  by_cases hfault : m.fault ≠ .none
  · rw [if_pos hfault, if_pos hfault]
    exact @sameOnClock_startedAt { m with fault := _, state := .safeTorqueOff } _ _ (by simp)
  rw [if_neg hfault, if_neg hfault]
  cases hs : m.stateMonitor inputs with
  | some next =>
    refine ⟨startedNs, rfl, fun hstopping => ?_⟩
    have hkept : next = m := stateMonitor_of_stopping hs hstopping
    subst hkept
    exact hstarted hstopping
  | none =>
    cases hp : m.positionMonitor inputs with
    | some next => exact sameOnClock_startedAt (by simp [positionMonitor_state hp])
    | none => exact hsame.requestedTransition

theorem SameOnClock.forceFault (h : SameOnClock offset m other) (reason : FaultReason) :
    SameOnClock offset (m.forceFault reason) (other.forceFault reason) := by
  obtain ⟨startedNs, rfl, _⟩ := h
  exact sameOnClock_enterSafeTorqueOff reason

theorem SameOnClock.state (h : SameOnClock offset m other) : other.state = m.state := by
  obtain ⟨startedNs, rfl, _⟩ := h
  rfl

theorem SameOnClock.faultLatched (h : SameOnClock offset m other) :
    other.faultLatched = m.faultLatched := by
  obtain ⟨startedNs, rfl, _⟩ := h
  rfl

theorem SameOnClock.evaluate_snd (h : SameOnClock offset m other) (inputs : SafetyInputs) :
    (other.evaluate (inputs.delayed offset)).2 = (m.evaluate inputs).2 := by
  obtain ⟨startedNs, hother, _⟩ := h.advance inputs
  rw [SafetyStateMachine.evaluate_snd, SafetyStateMachine.evaluate_snd, hother]
  rfl

end Step
end SafetyStateMachine

namespace DualChannelSupervisor

/-- The latch after a cycle is set if it was set or is raised, over a channel with a fault. -/
theorem evaluate_latched (s : DualChannelSupervisor) (c : SupervisorCycle) :
    (s.evaluate c).1.discrepancyLatched =
      ((s.discrepancyLatched || decide (s.RaisesDiscrepancy c)) &&
        (((s.evaluate c).1.channel .a).faultLatched ||
          ((s.evaluate c).1.channel .b).faultLatched)) := by
  have hlatched : (s.compared c).discrepancyLatched =
      (s.discrepancyLatched || decide (s.RaisesDiscrepancy c)) := by
    by_cases hr : s.RaisesDiscrepancy c
    · simp [compared_of_raises s c hr, hr]
    · simp [compared_latched hr, hr]
  rw [evaluate_fst, hlatched]
  rfl

/-- The same supervisor on other clocks: a disagreement under way began at the corresponding
time. -/
structure SameOnClocks (offsets : Channel → ℤ) (offset : ℤ)
    (s other : DualChannelSupervisor) : Prop where
  config : other.config = s.config
  channel : ∀ ch, SafetyStateMachine.SameOnClock (offsets ch) (s.channel ch) (other.channel ch)
  timer : s.disagreementSinceNs < 0 ∧ other.disagreementSinceNs < 0 ∨
    0 ≤ s.disagreementSinceNs ∧ 0 ≤ other.disagreementSinceNs ∧
      other.disagreementSinceNs = s.disagreementSinceNs + offset
  latched : other.discrepancyLatched = s.discrepancyLatched
  diagnostics : other.diagnostics = s.diagnostics

namespace SameOnClocks
variable {offsets : Channel → ℤ} {offset : ℤ} {s other : DualChannelSupervisor}

theorem disagreementStart (h : SameOnClocks offsets offset s other) (nowNs : ℤ) :
    other.disagreementStart (nowNs + offset) = s.disagreementStart nowNs + offset := by
  unfold DualChannelSupervisor.disagreementStart
  rcases h.timer with ⟨hs, hother⟩ | ⟨hs, hother, hshift⟩
  · rw [if_pos hs, if_pos hother]
  · rw [if_neg (not_lt.mpr hs), if_neg (not_lt.mpr hother), hshift]

theorem returnedState (h : SameOnClocks offsets offset s other) (c : SupervisorCycle)
    (ch : Channel) :
    other.returnedState (c.delayed offsets offset) ch = s.returnedState c ch := by
  unfold DualChannelSupervisor.returnedState
  rw [SupervisorCycle.inputs_delayed]
  exact ((h.channel ch).advance (c.inputs ch)).state

theorem disagrees_iff (h : SameOnClocks offsets offset s other) (c : SupervisorCycle) :
    other.Disagrees (c.delayed offsets offset) ↔ s.Disagrees c := by
  unfold Disagrees
  rw [h.returnedState, h.returnedState]

theorem age (h : SameOnClocks offsets offset s other) (c : SupervisorCycle) :
    (c.delayed offsets offset).nowNs -
      other.disagreementStart (c.delayed offsets offset).nowNs =
        c.nowNs - s.disagreementStart c.nowNs := by
  change c.nowNs + offset - other.disagreementStart (c.nowNs + offset) = _
  rw [h.disagreementStart]
  omega

theorem raisesDiscrepancy_iff (h : SameOnClocks offsets offset s other) (c : SupervisorCycle) :
    other.RaisesDiscrepancy (c.delayed offsets offset) ↔ s.RaisesDiscrepancy c := by
  unfold RaisesDiscrepancy
  rw [h.disagrees_iff, h.age, h.config, h.latched]

theorem evaluate_channel (h : SameOnClocks offsets offset s other) (c : SupervisorCycle)
    (ch : Channel) : SafetyStateMachine.SameOnClock (offsets ch) ((s.evaluate c).1.channel ch)
      ((other.evaluate (c.delayed offsets offset)).1.channel ch) := by
  have hnext := (h.channel ch).advance (c.inputs ch)
  rw [DualChannelSupervisor.evaluate_channel, DualChannelSupervisor.evaluate_channel,
    SupervisorCycle.inputs_delayed]
  by_cases hr : s.RaisesDiscrepancy c
  · rw [if_pos hr, if_pos ((h.raisesDiscrepancy_iff c).mpr hr)]
    exact hnext.forceFault .channelDiscrepancy
  · rw [if_neg hr, if_neg (mt (h.raisesDiscrepancy_iff c).mp hr)]
    exact hnext

theorem countedDisagreement (h : SameOnClocks offsets offset s other) (c : SupervisorCycle) :
    other.countedDisagreement (c.delayed offsets offset) = s.countedDisagreement c := by
  unfold DualChannelSupervisor.countedDisagreement
  rw [h.age, h.diagnostics]

/-- One cycle keeps the correspondence, as long as both clocks read a time that is not taken for
the mark of an agreement. -/
theorem evaluate (h : SameOnClocks offsets offset s other) {c : SupervisorCycle}
    (hnow : 0 ≤ c.nowNs) (hother : 0 ≤ c.nowNs + offset) :
    SameOnClocks offsets offset (s.evaluate c).1
      (other.evaluate (c.delayed offsets offset)).1 where
  config := by rw [evaluate_config, evaluate_config, h.config]
  channel := h.evaluate_channel c
  timer := by
    rw [evaluate_since, evaluate_since]
    by_cases hd : s.Disagrees c
    · rw [if_pos hd, if_pos ((h.disagrees_iff c).mpr hd)]
      have hstart := h.disagreementStart c.nowNs
      have hs : 0 ≤ s.disagreementStart c.nowNs := by
        unfold DualChannelSupervisor.disagreementStart
        split_ifs <;> omega
      have hlater : 0 ≤ other.disagreementStart (c.nowNs + offset) := by
        unfold DualChannelSupervisor.disagreementStart
        split_ifs <;> omega
      exact Or.inr ⟨hs, hlater, hstart⟩
    · rw [if_neg hd, if_neg (mt (h.disagrees_iff c).mp hd)]
      exact Or.inl ⟨neg_one_lt_zero, neg_one_lt_zero⟩
  latched := by
    rw [evaluate_latched, evaluate_latched, h.latched]
    simp only [h.raisesDiscrepancy_iff, (h.evaluate_channel c _).faultLatched]
  diagnostics := by
    rw [evaluate_diagnostics, evaluate_diagnostics]
    simp only [h.raisesDiscrepancy_iff, h.disagrees_iff, h.countedDisagreement, h.diagnostics]

theorem evaluate_snd (h : SameOnClocks offsets offset s other) (c : SupervisorCycle)
    (hnow : 0 ≤ c.nowNs) (hother : 0 ≤ c.nowNs + offset) :
    (other.evaluate (c.delayed offsets offset)).2 = (s.evaluate c).2 := by
  rw [DualChannelSupervisor.evaluate_snd, DualChannelSupervisor.evaluate_snd,
    (h.evaluate hnow hother).latched]
  have ha : (other.channelA.evaluate (c.delayed offsets offset).channelAInputs).2 =
      (s.channelA.evaluate c.channelAInputs).2 := (h.channel .a).evaluate_snd c.channelAInputs
  have hb : (other.channelB.evaluate (c.delayed offsets offset).channelBInputs).2 =
      (s.channelB.evaluate c.channelBInputs).2 := (h.channel .b).evaluate_snd c.channelBInputs
  rw [ha, hb]

end SameOnClocks

theorem sameOnClocks_construct (config : Config) (offsets : Channel → ℤ) (offset : ℤ) :
    SameOnClocks offsets offset (construct config) (construct config) where
  config := rfl
  channel ch := by
    cases ch <;>
      exact SafetyStateMachine.sameOnClock_startedAt (fun hstopping => nomatch hstopping)
  timer := Or.inl ⟨neg_one_lt_zero, neg_one_lt_zero⟩
  latched := rfl
  diagnostics := rfl

/-- In every run, setting the clock of each channel and that of the comparison to other origins
changes no output, no count and no discrepancy, as long as the comparison never reads a time
before zero. -/
theorem clock_origins_irrelevant (config : Config) (cycles : ℕ → SupervisorCycle)
    (offsets : Channel → ℤ) (offset : ℤ) (hnow : ∀ n, 0 ≤ (cycles n).nowNs)
    (hother : ∀ n, 0 ≤ (cycles n).nowNs + offset) (n : ℕ) :
    (construct config).outputAt (fun k => (cycles k).delayed offsets offset) n =
        (construct config).outputAt cycles n ∧
      ((construct config).runFrom (fun k => (cycles k).delayed offsets offset) n).diagnostics =
        ((construct config).runFrom cycles n).diagnostics ∧
      ((construct config).FaultRaisedAt (fun k => (cycles k).delayed offsets offset) n ↔
        (construct config).FaultRaisedAt cycles n) := by
  have hsame : ∀ n, SameOnClocks offsets offset ((construct config).runFrom cycles n)
      ((construct config).runFrom (fun k => (cycles k).delayed offsets offset) n) :=
    stateAt_related _ (sameOnClocks_construct config offsets offset) fun n _ _ h =>
      h.evaluate (hnow n) (hother n)
  refine ⟨(hsame n).evaluate_snd (cycles n) (hnow n) (hother n), (hsame n).diagnostics, ?_⟩
  unfold FaultRaisedAt
  rw [(hsame n).diagnostics, (hsame (n + 1)).diagnostics]

/-- The clock of channel A runs behind, those of channel B and of the comparison ahead. -/
theorem clock_origins_irrelevant_split :
    (construct {}).FaultRaisedAt (fun k => (splitCycles k).delayed
      (fun ch => if ch = .a then -3600 else 5) 7) 1 :=
  (clock_origins_irrelevant {} splitCycles (fun ch => if ch = .a then -3600 else 5) 7
    (fun n => Int.natCast_nonneg n)
    (fun n => add_nonneg (Int.natCast_nonneg n) (by decide)) 1).2.2.mpr (by decide)

end DualChannelSupervisor

def ReceiverCall.delayed (offset : ℤ) : ReceiverCall → ReceiverCall
  | .receive raw nowNs payloadOut => .receive raw (nowNs + offset) payloadOut
  | .poll nowNs => .poll (nowNs + offset)
  | .acknowledgeAndReset nowNs => .acknowledgeAndReset (nowNs + offset)

namespace SafetyReceiver

abbrev heardAt (receiver : SafetyReceiver) (validNs : ℤ) : SafetyReceiver :=
  { receiver with lastValidNs := validNs }

/-- The same receiver on another clock. Before the first telegram the recorded time is not looked
at. -/
def SameOnClock (offset : ℤ) (receiver other : SafetyReceiver) : Prop :=
  ∃ validNs, other = receiver.heardAt validNs ∧
    (receiver.synchronised = true → validNs = receiver.lastValidNs + offset)

namespace SameOnClock
variable {offset : ℤ} {receiver other : SafetyReceiver}

theorem overdue_iff (h : SameOnClock offset receiver other) (hs : receiver.synchronised = true)
    (nowNs : ℤ) : other.Overdue (nowNs + offset) ↔ receiver.Overdue nowNs := by
  obtain ⟨validNs, rfl, hvalid⟩ := h
  change nowNs + offset - validNs > receiver.watchdogNs ↔ _
  rw [hvalid hs, Overdue]
  omega

theorem late_iff (h : SameOnClock offset receiver other) (nowNs : ℤ) :
    (receiver.synchronised = true ∧ other.Overdue (nowNs + offset)) ↔
      (receiver.synchronised = true ∧ receiver.Overdue nowNs) :=
  and_congr_right fun hs => h.overdue_iff hs nowNs

theorem poll (h : SameOnClock offset receiver other) (nowNs : ℤ) :
    SameOnClock offset (receiver.poll nowNs).1 (other.poll (nowNs + offset)).1 ∧
      (other.poll (nowNs + offset)).2 = (receiver.poll nowNs).2 := by
  have hsame := h
  have hoverdue := fun hs => h.overdue_iff hs nowNs
  obtain ⟨validNs, rfl, hvalid⟩ := h
  unfold SafetyReceiver.poll
  by_cases hsafe : receiver.safeState = true
  · rw [if_pos hsafe, if_pos hsafe]
    exact ⟨hsame, rfl⟩
  rw [if_neg hsafe, if_neg hsafe]
  by_cases hs : receiver.synchronised = true
  · have hrunning : ¬ (!receiver.synchronised) = true := by simp [hs]
    rw [if_neg hrunning, if_neg hrunning]
    simp only [hoverdue hs]
    split_ifs
    · exact ⟨⟨validNs, rfl, hvalid⟩, rfl⟩
    · exact ⟨hsame, rfl⟩
  · have hwaiting : (!receiver.synchronised) = true := by simpa using hs
    rw [if_pos hwaiting, if_pos hwaiting]
    exact ⟨hsame, rfl⟩

theorem sequenceFault (h : SameOnClock offset receiver other) (number : UInt32) :
    SameOnClock offset (receiver.sequenceFault number).1 (other.sequenceFault number).1 ∧
      (other.sequenceFault number).2 = (receiver.sequenceFault number).2 := by
  obtain ⟨validNs, rfl, hvalid⟩ := h
  simp only [SafetyReceiver.sequenceFault]
  split_ifs
  all_goals exact ⟨⟨validNs, rfl, hvalid⟩, rfl⟩

theorem receive (h : SameOnClock offset receiver other) (raw : List UInt8) (nowNs : ℤ)
    (payloadOut : List UInt8) :
    SameOnClock offset (receiver.receive raw nowNs payloadOut).1
        (other.receive raw (nowNs + offset) payloadOut).1 ∧
      (other.receive raw (nowNs + offset) payloadOut).2 =
        (receiver.receive raw nowNs payloadOut).2 := by
  have hsame := h
  have hlate := h.late_iff nowNs
  obtain ⟨validNs, rfl, hvalid⟩ := h
  simp only [SafetyReceiver.receive, hlate]
  split_ifs
  · exact ⟨hsame, rfl⟩
  · exact ⟨⟨validNs, rfl, hvalid⟩, rfl⟩
  · exact ⟨⟨validNs, rfl, hvalid⟩, rfl⟩
  · exact ⟨⟨validNs, rfl, hvalid⟩, rfl⟩
  · exact ⟨⟨validNs, rfl, hvalid⟩, rfl⟩
  · obtain ⟨hnext, hstatus⟩ := hsame.sequenceFault (receivedNumber raw)
    exact ⟨hnext, by rw [hstatus]⟩
  · exact ⟨⟨nowNs + offset, rfl, fun _ => rfl⟩, rfl⟩

theorem call (h : SameOnClock offset receiver other) (c : ReceiverCall) :
    SameOnClock offset (receiver.call c) (other.call (c.delayed offset)) := by
  cases c with
  | receive raw nowNs payloadOut => exact (h.receive raw nowNs payloadOut).1
  | poll nowNs => exact (h.poll nowNs).1
  | acknowledgeAndReset nowNs =>
    obtain ⟨validNs, rfl, _⟩ := h
    exact ⟨nowNs + offset, rfl, fun _ => rfl⟩

end SameOnClock

theorem sameOnClock_construct (address : SafetyAddress) (watchdogNs offset : ℤ) :
    SameOnClock offset (construct address watchdogNs) (construct address watchdogNs) :=
  ⟨0, rfl, fun hs => nomatch hs⟩

/-- After every history of calls, a receiver whose clock has another origin answers a frame or a
poll in the same way, delivers the same payload, and holds the same latch, fault and counts. -/
theorem receiver_clock_irrelevant (address : SafetyAddress) (watchdogNs offset : ℤ)
    (calls : ℕ → ReceiverCall) (n : ℕ) (raw : List UInt8) (nowNs : ℤ) (payloadOut : List UInt8) :
    (((construct address watchdogNs).receiverAt (fun k => (calls k).delayed offset) n).receive raw
        (nowNs + offset) payloadOut).2 =
      (((construct address watchdogNs).receiverAt calls n).receive raw nowNs payloadOut).2 ∧
    (((construct address watchdogNs).receiverAt (fun k => (calls k).delayed offset) n).poll
        (nowNs + offset)).2 =
      (((construct address watchdogNs).receiverAt calls n).poll nowNs).2 ∧
    ∃ validNs,
      (construct address watchdogNs).receiverAt (fun k => (calls k).delayed offset) n =
        ((construct address watchdogNs).receiverAt calls n).heardAt validNs := by
  have hsame : SameOnClock offset ((construct address watchdogNs).receiverAt calls n)
      ((construct address watchdogNs).receiverAt (fun k => (calls k).delayed offset) n) :=
    stateAt_related _ (sameOnClock_construct address watchdogNs offset)
      (fun k _ _ h => h.call (calls k)) n
  refine ⟨(hsame.receive raw nowNs payloadOut).2, (hsame.poll nowNs).2, ?_⟩
  obtain ⟨validNs, hother, _⟩ := hsame
  exact ⟨validNs, hother⟩

end SafetyReceiver
end SafeEdge.Safety
