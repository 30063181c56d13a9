import SafeEdge.Safety.StateMachine

/-! Everything one evaluation cycle can do, said once. Each outcome carries the guards under
which the source takes that path, so that invariants are case analyses on outcomes. -/
namespace SafeEdge.Safety
open Library

/-- The states in which torque is permitted. -/
def SafetyState.Energised (s : SafetyState) : Prop :=
  s = .stopping ∨ s = .operatingStop ∨ s = .limitedSpeed ∨ s = .operational

/-- The states in which commanded motion is permitted. -/
def SafetyState.Moving (s : SafetyState) : Prop := s = .limitedSpeed ∨ s = .operational

instance (s : SafetyState) : Decidable s.Energised := inferInstanceAs (Decidable (_ ∨ _))
instance (s : SafetyState) : Decidable s.Moving := inferInstanceAs (Decidable (_ ∨ _))

/-- An active demand names the fault it is recorded as. -/
theorem unconditionalDemandReason_ne_none {inputs : SafetyInputs}
    (h : unconditionalDemandActive inputs = true) : unconditionalDemandReason inputs ≠ .none := by
  simp only [unconditionalDemandActive, Bool.or_eq_true] at h
  unfold unconditionalDemandReason
  split_ifs <;> simp_all

namespace SafetyStateMachine

@[simp] theorem evaluate_fst (m : SafetyStateMachine) (inputs : SafetyInputs) :
    (m.evaluate inputs).1 = m.advance inputs := rfl

@[simp] theorem evaluate_snd (m : SafetyStateMachine) (inputs : SafetyInputs) :
    (m.evaluate inputs).2 = (m.advance inputs).outputsFor (m.advance inputs).state := rfl

@[simp] theorem outputsFor_state (m : SafetyStateMachine) (s : SafetyState) :
    (m.outputsFor s).state = s := by cases s <;> rfl

@[simp] theorem outputsFor_fault (m : SafetyStateMachine) (s : SafetyState) :
    (m.outputsFor s).fault = m.fault := by cases s <;> rfl

@[simp] theorem outputsFor_faultLatched (m : SafetyStateMachine) (s : SafetyState) :
    (m.outputsFor s).faultLatched = (m.fault != .none) := by cases s <;> rfl

@[simp] theorem outputsFor_torque (m : SafetyStateMachine) (s : SafetyState) :
    (m.outputsFor s).torquePermitted = decide s.Energised := by cases s <;> rfl

@[simp] theorem outputsFor_motion (m : SafetyStateMachine) (s : SafetyState) :
    (m.outputsFor s).motionPermitted = decide s.Moving := by cases s <;> rfl

@[simp] theorem outputsFor_brake (m : SafetyStateMachine) (s : SafetyState) :
    (m.outputsFor s).brakeEngaged = !decide s.Energised := by cases s <;> rfl

/-- No demand, no latched fault and no monitor ends the cycle before the request is read. -/
structure ReachesRequest (m : SafetyStateMachine) (inputs : SafetyInputs) : Prop where
  demand : unconditionalDemandActive inputs = false
  fault : m.fault = .none
  notTesting : m.state ≠ .selfTest
  notStopping : m.state ≠ .stopping
  limitedSpeed : m.state = .limitedSpeed → ¬ m.limits.limitedSpeed < inputs.speedMagnitude
  standstill : m.state = .operatingStop →
    ¬ m.limits.standstillWindow < (inputs.position - m.standstillReference).fabs ∧
      ¬ m.limits.standstillSpeed < inputs.speedMagnitude
  band : m.limits.positionMonitoringEnabled = true →
    m.state = .operational ∨ m.state = .limitedSpeed →
    ¬ inputs.position < m.limits.positionMin ∧ ¬ m.limits.positionMax < inputs.position

/-- The condition behind each fault that a cycle without demand or latched fault records,
Safe Stop 1 apart. -/
inductive Violation (m : SafetyStateMachine) (inputs : SafetyInputs) : FaultReason → Prop
  | speed (hs : m.state = .limitedSpeed) (hv : m.limits.limitedSpeed < inputs.speedMagnitude) :
      Violation m inputs .speedLimitExceeded
  | drift (hs : m.state = .operatingStop)
      (hv : m.limits.standstillWindow < (inputs.position - m.standstillReference).fabs ∨
        m.limits.standstillSpeed < inputs.speedMagnitude) :
      Violation m inputs .standstillDeviation
  | band (hs : m.state = .operational ∨ m.state = .limitedSpeed)
      (he : m.limits.positionMonitoringEnabled = true)
      (hv : inputs.position < m.limits.positionMin ∨ m.limits.positionMax < inputs.position) :
      Violation m inputs .positionLimitExceeded
  | entrySpeed (hp : m.ReachesRequest inputs) (hr : inputs.request = .safelyLimitedSpeed)
      (hs : m.state = .safeTorqueOff ∨ m.state = .operational ∨ m.state = .operatingStop)
      (hv : m.limits.limitedSpeed < inputs.speedMagnitude) :
      Violation m inputs .speedLimitExceeded
  | moving (hp : m.ReachesRequest inputs) (hr : inputs.request = .safeOperatingStop)
      (hs : m.state = .operational ∨ m.state = .limitedSpeed)
      (hv : m.limits.standstillSpeed < inputs.speedMagnitude) :
      Violation m inputs .invalidRequest
  | unpowered (hp : m.ReachesRequest inputs) (hr : inputs.request = .safeOperatingStop)
      (hs : m.state = .safeTorqueOff) : Violation m inputs .invalidRequest

/-- The machine after one cycle, by outcome. -/
inductive Cycle (m : SafetyStateMachine) (inputs : SafetyInputs) : SafetyStateMachine → Prop
  | demand (hd : unconditionalDemandActive inputs = true) :
      Cycle m inputs (m.enterSafeTorqueOff (unconditionalDemandReason inputs))
  | latched (hd : unconditionalDemandActive inputs = false) (hf : m.fault ≠ .none) :
      Cycle m inputs { m with
        fault := if inputs.acknowledge then .none else m.fault
        state := .safeTorqueOff }
  | testing (hd : unconditionalDemandActive inputs = false) (hf : m.fault = .none)
      (hs : m.state = .selfTest) (ht : inputs.selfTestPassed = false) : Cycle m inputs m
  | tested (hd : unconditionalDemandActive inputs = false) (hf : m.fault = .none)
      (hs : m.state = .selfTest) (ht : inputs.selfTestPassed = true) :
      Cycle m inputs { m with state := .safeTorqueOff }
  | stopped (hd : unconditionalDemandActive inputs = false) (hf : m.fault = .none)
      (hs : m.state = .stopping) (hv : inputs.speedMagnitude ≤ m.limits.standstillSpeed) :
      Cycle m inputs { m with state := .safeTorqueOff }
  | overran (hd : unconditionalDemandActive inputs = false) (hf : m.fault = .none)
      (hs : m.state = .stopping) (hv : ¬ inputs.speedMagnitude ≤ m.limits.standstillSpeed)
      (ht : m.limits.stopTimeLimitNs < inputs.timestampNs - m.stopStartedNs) :
      Cycle m inputs { m with state := .safeTorqueOff, fault := .stopTimeExceeded }
  | decelerating (hd : unconditionalDemandActive inputs = false) (hf : m.fault = .none)
      (hs : m.state = .stopping) (hv : ¬ inputs.speedMagnitude ≤ m.limits.standstillSpeed)
      (ht : ¬ m.limits.stopTimeLimitNs < inputs.timestampNs - m.stopStartedNs) :
      Cycle m inputs m
  | violation (hd : unconditionalDemandActive inputs = false) (hf : m.fault = .none)
      {reason : FaultReason} (hv : Violation m inputs reason) :
      Cycle m inputs { m with state := .safeTorqueOff, fault := reason }
  | off (hp : m.ReachesRequest inputs) (hr : inputs.request = .safeTorqueOff ∨
      inputs.request = .safeStop1 ∧ m.state = .safeTorqueOff) :
      Cycle m inputs { m with state := .safeTorqueOff }
  | stop (hp : m.ReachesRequest inputs) (hr : inputs.request = .safeStop1)
      (hs : m.state = .operational ∨ m.state = .limitedSpeed ∨ m.state = .operatingStop) :
      Cycle m inputs { m with state := .stopping, stopStartedNs := inputs.timestampNs }
  | hold (hp : m.ReachesRequest inputs) (hr : inputs.request = .safeOperatingStop)
      (hs : m.state = .operational ∨ m.state = .limitedSpeed)
      (hv : ¬ m.limits.standstillSpeed < inputs.speedMagnitude) :
      Cycle m inputs { m with state := .operatingStop, standstillReference := inputs.position }
  | holding (hp : m.ReachesRequest inputs) (hr : inputs.request = .safeOperatingStop)
      (hs : m.state = .operatingStop) : Cycle m inputs m
  | limit (hp : m.ReachesRequest inputs) (hr : inputs.request = .safelyLimitedSpeed)
      (hs : m.state = .safeTorqueOff ∨ m.state = .operational ∨ m.state = .operatingStop)
      (hv : ¬ m.limits.limitedSpeed < inputs.speedMagnitude) :
      Cycle m inputs { m with state := .limitedSpeed }
  | limiting (hp : m.ReachesRequest inputs) (hr : inputs.request = .safelyLimitedSpeed)
      (hs : m.state = .limitedSpeed) : Cycle m inputs m
  | run (hp : m.ReachesRequest inputs) (hr : inputs.request = .none) :
      Cycle m inputs { m with state := .operational }

theorem enterSafeTorqueOff_of_clear {m : SafetyStateMachine} (hf : m.fault = .none)
    (reason : FaultReason) :
    m.enterSafeTorqueOff reason = { m with state := .safeTorqueOff, fault := reason } := by
  unfold enterSafeTorqueOff
  by_cases hr : reason = .none <;> simp [hr, hf]

theorem stateMonitor_none {m : SafetyStateMachine} {inputs : SafetyInputs}
    (h : m.stateMonitor inputs = none) :
    m.state ≠ .selfTest ∧ m.state ≠ .stopping ∧
      (m.state = .limitedSpeed → ¬ m.limits.limitedSpeed < inputs.speedMagnitude) ∧
      (m.state = .operatingStop →
        ¬ m.limits.standstillWindow < (inputs.position - m.standstillReference).fabs ∧
          ¬ m.limits.standstillSpeed < inputs.speedMagnitude) := by
  unfold stateMonitor at h
  split at h <;> rename_i hs <;> simp only [hs]
  all_goals try split_ifs at h
  all_goals simp_all

theorem positionMonitor_none {m : SafetyStateMachine} {inputs : SafetyInputs}
    (h : m.positionMonitor inputs = none) :
    m.limits.positionMonitoringEnabled = true →
      m.state = .operational ∨ m.state = .limitedSpeed →
      ¬ inputs.position < m.limits.positionMin ∧ ¬ m.limits.positionMax < inputs.position := by
  intro he hs
  unfold positionMonitor at h
  rw [if_pos ⟨he, hs⟩] at h
  split_ifs at h with hv
  exact not_or.mp hv

theorem stateMonitor_cycle {m ended : SafetyStateMachine} {inputs : SafetyInputs}
    (hd : unconditionalDemandActive inputs = false) (hf : m.fault = .none)
    (h : m.stateMonitor inputs = some ended) : Cycle m inputs ended := by
  unfold stateMonitor at h
  split at h <;> rename_i hs
  · split_ifs at h with ht <;> obtain rfl := Option.some.inj h
    · exact .testing hd hf hs (by simpa using ht)
    · exact .tested hd hf hs (by simpa using ht)
  · split_ifs at h with hv
    obtain rfl := Option.some.inj h
    rw [enterSafeTorqueOff_of_clear hf]
    exact .violation hd hf (.speed hs hv)
  · split_ifs at h with hw hv <;> obtain rfl := Option.some.inj h <;>
      rw [enterSafeTorqueOff_of_clear hf]
    · exact .violation hd hf (.drift hs (.inl hw))
    · exact .violation hd hf (.drift hs (.inr hv))
  · split_ifs at h with hv ht <;> obtain rfl := Option.some.inj h
    · rw [enterSafeTorqueOff_of_clear hf, ← hf]
      exact .stopped hd hf hs hv
    · rw [enterSafeTorqueOff_of_clear hf]
      exact .overran hd hf hs hv ht
    · exact .decelerating hd hf hs hv ht
  · cases h
  · cases h

theorem positionMonitor_cycle {m ended : SafetyStateMachine} {inputs : SafetyInputs}
    (hd : unconditionalDemandActive inputs = false) (hf : m.fault = .none)
    (h : m.positionMonitor inputs = some ended) : Cycle m inputs ended := by
  unfold positionMonitor at h
  split_ifs at h with hg hv
  obtain rfl := Option.some.inj h
  rw [enterSafeTorqueOff_of_clear hf]
  exact .violation hd hf (.band hg.2 hg.1 hv)

theorem requestedTransition_cycle {m : SafetyStateMachine} {inputs : SafetyInputs}
    (hp : m.ReachesRequest inputs) : Cycle m inputs (m.requestedTransition inputs) := by
  have hoff : m.enterSafeTorqueOff .none = { m with state := .safeTorqueOff } := by
    rw [enterSafeTorqueOff_of_clear hp.fault, ← hp.fault]
  have hstate : m.state = .safeTorqueOff ∨ m.state = .operatingStop ∨ m.state = .limitedSpeed ∨
      m.state = .operational := by
    have ht := hp.notTesting
    have hs := hp.notStopping
    cases h : m.state <;> simp_all
  unfold requestedTransition
  cases hr : inputs.request with
  | none =>
    simp only
    split_ifs with hs
    · exact .run hp hr
    · have ho : m.state = .operational := by tauto
      have := Cycle.run hp hr
      rwa [← ho] at this
  | safeTorqueOff => simpa only [hoff] using Cycle.off hp (.inl hr)
  | safeStop1 =>
    simp only
    split_ifs with hs hs'
    · exact .stop hp hr hs
    · exact .off hp (.inr ⟨hr, hs'⟩)
    · tauto
  | safeOperatingStop =>
    simp only
    split_ifs with hs hv hs'
    · rw [enterSafeTorqueOff_of_clear hp.fault]
      exact .violation hp.demand hp.fault (.moving hp hr hs hv)
    · exact .hold hp hr hs hv
    · rw [enterSafeTorqueOff_of_clear hp.fault]
      exact .violation hp.demand hp.fault (.unpowered hp hr hs')
    · exact .holding hp hr (by tauto)
  | safelyLimitedSpeed =>
    simp only
    split_ifs with hs hv
    · rw [enterSafeTorqueOff_of_clear hp.fault]
      exact .violation hp.demand hp.fault (.entrySpeed hp hr hs hv)
    · exact .limit hp hr hs hv
    · exact .limiting hp hr (by tauto)

/-- Every cycle has one of the listed outcomes. -/
theorem advance_cycle (m : SafetyStateMachine) (inputs : SafetyInputs) :
    Cycle m inputs (m.advance inputs) := by
  unfold advance
  by_cases hd : unconditionalDemandActive inputs = true
  · rw [if_pos hd]
    exact .demand hd
  have hd' : unconditionalDemandActive inputs = false := by simpa using hd
  by_cases hf : m.fault = .none
  · rw [if_neg hd, if_neg (not_not_intro hf)]
    split
    next ended he => exact stateMonitor_cycle hd' hf he
    next hm =>
      split
      next ended he => exact positionMonitor_cycle hd' hf he
      next hb =>
        obtain ⟨ht, hs, hl, ho⟩ := stateMonitor_none hm
        exact requestedTransition_cycle ⟨hd', hf, ht, hs, hl, ho, positionMonitor_none hb⟩
  · rw [if_neg hd, if_pos hf]
    exact .latched hd' hf

theorem advance_of_reachesRequest {m : SafetyStateMachine} {inputs : SafetyInputs}
    (hp : m.ReachesRequest inputs) : m.advance inputs = m.requestedTransition inputs := by
  have hm : m.stateMonitor inputs = none := by
    unfold stateMonitor
    split <;> rename_i hs
    · exact absurd hs hp.notTesting
    · rw [if_neg (hp.limitedSpeed hs)]
    · rw [if_neg (hp.standstill hs).1, if_neg (hp.standstill hs).2]
    · exact absurd hs hp.notStopping
    · rfl
    · rfl
  have hb : m.positionMonitor inputs = none := by
    unfold positionMonitor
    split_ifs with hg hv
    · exact absurd hv (not_or.mpr (hp.band hg.1 hg.2))
    · rfl
    · rfl
  simp [advance, hp.demand, hp.fault, hm, hb]

theorem advance_limits (m : SafetyStateMachine) (inputs : SafetyInputs) :
    (m.advance inputs).limits = m.limits := by
  have hc := advance_cycle m inputs
  generalize m.advance inputs = next at hc
  cases hc <;> rfl

/-- Torque after a cycle means the cycle saw no demand and no latched fault, and did not
start in the self test. -/
theorem advance_energised {m : SafetyStateMachine} {inputs : SafetyInputs}
    (h : (m.advance inputs).state.Energised) :
    unconditionalDemandActive inputs = false ∧ m.fault = .none ∧ m.state ≠ .selfTest ∧
      (m.advance inputs).fault = .none := by
  have hc := advance_cycle m inputs
  generalize m.advance inputs = next at hc h
  cases hc with
  | demand | latched | tested | stopped | overran | violation | off =>
    simp [SafetyState.Energised, enterSafeTorqueOff] at h
  | testing _ _ hs => simp [SafetyState.Energised, hs] at h
  | decelerating hd hf hs => exact ⟨hd, hf, by simp [hs], hf⟩
  | stop hp | hold hp | holding hp | limit hp | limiting hp | run hp =>
    exact ⟨hp.demand, hp.fault, hp.notTesting, hp.fault⟩

/-- A cycle never ends with a latched fault anywhere but in Safe Torque Off. -/
theorem advance_fault_state {m : SafetyStateMachine} {inputs : SafetyInputs}
    (h : (m.advance inputs).fault ≠ .none) : (m.advance inputs).state = .safeTorqueOff := by
  have hc := advance_cycle m inputs
  generalize m.advance inputs = next at hc h
  cases hc with
  | demand | latched | tested | stopped | overran | violation | off => rfl
  | testing _ hf | decelerating _ hf => exact absurd hf h
  | stop hp | hold hp | holding hp | limit hp | limiting hp | run hp => exact absurd hp.fault h

/-- While a fault is latched the machine stays in Safe Torque Off, and only an
acknowledgement without a demand clears it. -/
theorem advance_of_latched {m : SafetyStateMachine} {inputs : SafetyInputs}
    (hf : m.fault ≠ .none) : (m.advance inputs).state = .safeTorqueOff ∧
      ((m.advance inputs).fault = .none ↔
        inputs.acknowledge = true ∧ unconditionalDemandActive inputs = false) := by
  cases hd : unconditionalDemandActive inputs with
  | true => simp [advance, enterSafeTorqueOff, hd, hf]
  | false => simp [advance, hd, hf]

end SafetyStateMachine
end SafeEdge.Safety
