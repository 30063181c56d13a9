import SafeEdge.Safety.SupervisorRun

/-! The way back: whatever state the supervisor is in, three cycles restore torque, and no
sooner than in the third. -/
namespace SafeEdge.Safety

/-- Inputs under which a channel comes to rest: no demand, a passed self test, Safe Torque Off
requested at standstill. -/
structure SafetyInputs.Settles (inputs : SafetyInputs) (limits : SafetyLimits) : Prop where
  demand : unconditionalDemandActive inputs = false
  selfTest : inputs.selfTestPassed = true
  request : inputs.request = .safeTorqueOff
  speed : inputs.speedMagnitude ≤ limits.standstillSpeed

/-- Inputs that acknowledge a fault and ask for nothing. -/
structure SafetyInputs.AcknowledgesAtRest (inputs : SafetyInputs) : Prop where
  demand : unconditionalDemandActive inputs = false
  acknowledge : inputs.acknowledge = true
  request : inputs.request = .safeTorqueOff

/-- Inputs that ask for unrestricted motion. -/
structure SafetyInputs.Enables (inputs : SafetyInputs) : Prop where
  demand : unconditionalDemandActive inputs = false
  request : inputs.request = .none

namespace SafetyStateMachine
variable {m : SafetyStateMachine} {inputs : SafetyInputs}

theorem advance_of_settles (h : inputs.Settles m.limits) :
    (m.advance inputs).state = .safeTorqueOff := by
  have hout := m.advance_cycle inputs
  generalize m.advance inputs = next at hout
  cases hout with
  | demand hd => simp [h.demand] at hd
  | latched | tested | stopped | overran | violation | off => rfl
  | testing _ _ _ ht => simp [h.selfTest] at ht
  | decelerating _ _ _ hv => exact absurd h.speed hv
  | stop _ hr | hold _ hr | holding _ hr | limit _ hr | limiting _ hr | run _ hr =>
    simp [h.request] at hr

theorem advance_of_acknowledges (h : inputs.AcknowledgesAtRest) (hs : m.state = .safeTorqueOff) :
    (m.advance inputs).state = .safeTorqueOff ∧ (m.advance inputs).fault = .none := by
  by_cases hf : m.fault = .none
  · simp [advance, h.demand, hf, stateMonitor, positionMonitor, hs, requestedTransition, h.request,
      enterSafeTorqueOff]
  · simp [advance, h.demand, hf, h.acknowledge]

theorem advance_of_enables (h : inputs.Enables) (hs : m.state = .safeTorqueOff)
    (hf : m.fault = .none) :
    (m.advance inputs).state = .operational ∧ (m.advance inputs).fault = .none := by
  simp [advance, h.demand, hf, stateMonitor, positionMonitor, hs, requestedTransition, h.request]

end SafetyStateMachine

namespace DualChannelSupervisor
variable {s : DualChannelSupervisor} {c : SupervisorCycle} {state : SafetyState}

/-- A cycle in which both channels return the same state raises nothing. -/
theorem not_raises_of_agree (h : ∀ ch, ((s.channel ch).advance (c.inputs ch)).state = state) :
    ¬ s.RaisesDiscrepancy c :=
  fun hraises => hraises.1 ((h .a).trans (h .b).symm)

theorem evaluate_of_agree (h : ∀ ch, ((s.channel ch).advance (c.inputs ch)).state = state)
    (ch : Channel) : (s.evaluate c).1.channel ch = (s.channel ch).advance (c.inputs ch) :=
  (evaluate_channel s c ch).trans (if_neg (not_raises_of_agree h))

/-- With both channels clear the supervisor's own latch is released. -/
theorem unlatched_of_clear (h : ∀ ch, ((s.channel ch).advance (c.inputs ch)).state = state)
    (hf : ∀ ch, ((s.channel ch).advance (c.inputs ch)).fault = .none) :
    (s.evaluate c).1.discrepancyLatched = false := by
  have hclear (ch : Channel) : ((s.compared c).channel ch).faultLatched = false := by
    rw [compared_channel, if_neg (not_raises_of_agree h), SafetyStateMachine.faultLatched, hf ch]
    rfl
  have ha : (s.compared c).channelA.faultLatched = false := hclear .a
  have hb : (s.compared c).channelB.faultLatched = false := hclear .b
  rw [evaluate_fst]
  simp [ha, hb]

/-- What the supervisor returns when both channels return one state without a fault. -/
theorem evaluate_snd_of_clear (h : ∀ ch, ((s.channel ch).advance (c.inputs ch)).state = state)
    (hf : ∀ ch, ((s.channel ch).advance (c.inputs ch)).fault = .none) :
    (s.evaluate c).2.torquePermitted = decide state.Energised ∧
      (s.evaluate c).2.motionPermitted = decide state.Moving ∧
      (s.evaluate c).2.state = state ∧ (s.evaluate c).2.faultLatched = false := by
  have ha : (s.channelA.advance c.channelAInputs).state = state := h .a
  have hb : (s.channelB.advance c.channelBInputs).state = state := h .b
  have hfa : (s.channelA.advance c.channelAInputs).fault = .none := hf .a
  have hfb : (s.channelB.advance c.channelBInputs).fault = .none := hf .b
  rw [evaluate_snd, unlatched_of_clear h hf]
  simp [combine, ha, hb, hfa, hfb]

/-- Without torque in one of the channels there is none. -/
theorem no_torque_of_state (h : ∀ ch, ((s.channel ch).advance (c.inputs ch)).state = state)
    (hstate : ¬ state.Energised) : (s.evaluate c).2.torquePermitted = false := by
  by_contra htorque
  obtain ⟨_, _, hchannels⟩ := evaluate_torque (Bool.not_eq_false _ ▸ htorque)
  have henergised := (hchannels .a).2.2.2
  rw [evaluate_of_agree h, h .a] at henergised
  exact hstate henergised

/-- From any state at all, faults and latches included, torque is back in the third of three
cycles and in none of the first two: a cycle in which both channels come to rest, one that
acknowledges, and one that asks for motion. The times do not matter. -/
theorem torque_restored (s : DualChannelSupervisor) (settle acknowledge enable : SupervisorCycle)
    (hsettle : ∀ ch, (settle.inputs ch).Settles (s.channel ch).limits)
    (hacknowledge : ∀ ch, (acknowledge.inputs ch).AcknowledgesAtRest)
    (henable : ∀ ch, (enable.inputs ch).Enables) :
    (s.evaluate settle).2.torquePermitted = false ∧
    ((s.evaluate settle).1.evaluate acknowledge).2.torquePermitted = false ∧
    (((s.evaluate settle).1.evaluate acknowledge).1.evaluate enable).2.torquePermitted = true ∧
    (((s.evaluate settle).1.evaluate acknowledge).1.evaluate enable).2.motionPermitted = true ∧
    (((s.evaluate settle).1.evaluate acknowledge).1.evaluate enable).2.state = .operational ∧
    (((s.evaluate settle).1.evaluate acknowledge).1.evaluate enable).2.faultLatched = false := by
  have hrest (ch : Channel) := SafetyStateMachine.advance_of_settles (hsettle ch)
  have hfirst := evaluate_of_agree hrest
  have hclear (ch : Channel) := SafetyStateMachine.advance_of_acknowledges (hacknowledge ch)
    ((congrArg SafetyStateMachine.state (hfirst ch)).trans (hrest ch))
  have hsecond := evaluate_of_agree fun ch => (hclear ch).1
  have hruns (ch : Channel) := SafetyStateMachine.advance_of_enables (henable ch)
    ((congrArg SafetyStateMachine.state (hsecond ch)).trans (hclear ch).1)
    ((congrArg SafetyStateMachine.fault (hsecond ch)).trans (hclear ch).2)
  obtain ⟨htorque, hmotion, hstate, hfault⟩ :=
    evaluate_snd_of_clear (fun ch => (hruns ch).1) fun ch => (hruns ch).2
  refine ⟨no_torque_of_state hrest (by decide), no_torque_of_state (fun ch => (hclear ch).1)
    (by decide), htorque, hmotion, hstate, hfault⟩

/-- A supervisor with its latch set, one channel faulted and the other in the middle of a stop. -/
def caughtStopping : DualChannelSupervisor where
  config := {}
  channelA := { state := .safeTorqueOff, fault := .channelDiscrepancy }
  channelB := { state := .stopping, stopStartedNs := 5 }
  disagreementSinceNs := 7
  discrepancyLatched := true

/-- The same inputs for both channels. -/
def bothChannels (inputs : SafetyInputs) : SupervisorCycle where
  channelAInputs := inputs
  channelBInputs := inputs
  nowNs := 0

def requesting (request : SafetyFunction) : SafetyInputs where
  emergencyStopAsserted := false
  communicationOk := true
  heartbeatOk := true
  selfTestPassed := true
  request := request
  acknowledge := true

theorem torque_restored_caughtStopping :
    (((caughtStopping.evaluate (bothChannels (requesting .safeTorqueOff))).1.evaluate
      (bothChannels (requesting .safeTorqueOff))).1.evaluate
        (bothChannels (requesting .none))).2.torquePermitted = true := by
  refine (torque_restored caughtStopping (bothChannels (requesting .safeTorqueOff))
    (bothChannels (requesting .safeTorqueOff)) (bothChannels (requesting .none))
    (fun ch => ?_) (fun ch => ?_) fun ch => ?_).2.2.1
  · cases ch <;> exact ⟨rfl, rfl, rfl, by decide⟩
  · cases ch <;> exact ⟨rfl, rfl, rfl⟩
  · cases ch <;> exact ⟨rfl, rfl⟩

end DualChannelSupervisor
end SafeEdge.Safety
