import SafeEdge.Safety.Monitors

/-! The fault latch of one channel: what it keeps from the call that records a fault to the
acknowledgement that clears it, and which causes that acknowledgement looks at. -/
namespace SafeEdge.Safety
open Library

/-- An acknowledgement that is not accompanied by an unconditional demand. -/
def SafetyInputs.Acknowledges (inputs : SafetyInputs) : Prop :=
  inputs.acknowledge = true ∧ unconditionalDemandActive inputs = false

instance (inputs : SafetyInputs) : Decidable inputs.Acknowledges :=
  inferInstanceAs (Decidable (_ ∧ _))

def MachineCall.Acknowledges : MachineCall → Prop
  | .evaluate inputs => inputs.Acknowledges
  | .forceFault _ | .setLimits _ => False

namespace SafetyStateMachine
variable {m : SafetyStateMachine}

/-- A latched fault survives every demand and is replaced by nothing. -/
theorem advance_fault_of_latched (hf : m.fault ≠ .none) (inputs : SafetyInputs) :
    (m.advance inputs).fault = if inputs.Acknowledges then .none else m.fault := by
  cases hd : unconditionalDemandActive inputs with
  | true => simp [advance, enterSafeTorqueOff, SafetyInputs.Acknowledges, hd, hf]
  | false => simp [advance, SafetyInputs.Acknowledges, hd, hf]

theorem call_fault_of_latched (hf : m.fault ≠ .none) {c : MachineCall} (hc : ¬ c.Acknowledges) :
    (m.call c).fault = m.fault := by
  cases c with
  | evaluate inputs => exact (advance_fault_of_latched hf inputs).trans (if_neg hc)
  | forceFault reason => simp [call, forceFault, enterSafeTorqueOff, hf]
  | setLimits limits => rfl

/-- Safe Torque Off is left only by a request for motion, with no fault latched. -/
theorem advance_energised_of_off {inputs : SafetyInputs} (hs : m.state = .safeTorqueOff)
    (h : (m.advance inputs).state.Energised) :
    m.fault = .none ∧ (inputs.request = .none ∨ inputs.request = .safelyLimitedSpeed) := by
  have hc := advance_cycle m inputs
  generalize m.advance inputs = next at hc h
  cases hc with
  | demand | latched | tested | stopped | overran | violation | off =>
    simp [SafetyState.Energised, enterSafeTorqueOff] at h
  | testing _ _ hs' | decelerating _ _ hs' | holding _ _ hs' | limiting _ _ hs' =>
    simp [hs] at hs'
  | stop _ _ hs' | hold _ _ hs' => simp [hs] at hs'
  | limit hp hr => exact ⟨hp.fault, Or.inr hr⟩
  | run hp hr => exact ⟨hp.fault, Or.inl hr⟩

/-- A cycle that starts in Safe Torque Off stays there unless it permits torque. -/
theorem advance_of_off {inputs : SafetyInputs} (hs : m.state = .safeTorqueOff) :
    (m.advance inputs).state = .safeTorqueOff ∨ (m.advance inputs).state.Energised := by
  have hc := advance_cycle m inputs
  generalize m.advance inputs = next at hc
  cases hc with
  | demand | latched | tested | stopped | overran | violation | off => exact Or.inl rfl
  | testing _ _ hs' => simp [hs] at hs'
  | decelerating | holding | limiting => exact Or.inl hs
  | stop | hold | limit | run => exact Or.inr (by simp [SafetyState.Energised])

theorem call_of_off {c : MachineCall} (hs : m.state = .safeTorqueOff) :
    (m.call c).state = .safeTorqueOff ∨
      ∃ inputs, c = .evaluate inputs ∧ (m.advance inputs).state.Energised := by
  cases c with
  | evaluate inputs =>
    rcases advance_of_off hs with hoff | hon
    · exact Or.inl hoff
    · exact Or.inr ⟨inputs, rfl, hon⟩
  | forceFault reason => exact Or.inl rfl
  | setLimits limits => exact Or.inl hs

end SafetyStateMachine

section Run
variable (limits : SafetyLimits) (calls : ℕ → MachineCall)

/-- The outputs of the evaluation that is call `n`, when its inputs are these. -/
def evaluationAt (n : ℕ) (inputs : SafetyInputs) : SafetyOutputs :=
  ((machineAt limits calls n).evaluate inputs).2

/-- Call `k` finds the machine without a fault and leaves it with this one. -/
def RecordsFault (k : ℕ) (reason : FaultReason) : Prop :=
  reason ≠ .none ∧ (machineAt limits calls k).fault = .none ∧
    (machineAt limits calls (k + 1)).fault = reason

variable {limits calls}

/-- Until an acknowledgement counts, the fault is the one recorded. -/
theorem fault_kept {k n : ℕ} {reason : FaultReason} (hk : RecordsFault limits calls k reason)
    (hkn : k < n) (hquiet : ∀ j, k < j → j < n → ¬ (calls j).Acknowledges) :
    (machineAt limits calls n).fault = reason := by
  obtain ⟨hreason, _, hrecorded⟩ := hk
  induction n, hkn using Nat.le_induction with
  | base => exact hrecorded
  | succ n hn ih =>
    have hkept := ih (fun j hj hjn => hquiet j hj (by omega))
    have hlatched : (machineAt limits calls n).fault ≠ .none := hkept.symm ▸ hreason
    rw [machineAt_succ, SafetyStateMachine.call_fault_of_latched hlatched
      (hquiet n hn (Nat.lt_succ_self n))]
    exact hkept

/-- After a cycle in Safe Torque Off the machine stays there until torque is permitted. -/
theorem off_kept {k n : ℕ} (hkn : k < n)
    (hoff : (machineAt limits calls (k + 1)).state = .safeTorqueOff)
    (hquiet : ∀ j between, k < j → j < n → calls j = .evaluate between →
      (evaluationAt limits calls j between).torquePermitted = false) :
    (machineAt limits calls n).state = .safeTorqueOff := by
  induction n, hkn using Nat.le_induction with
  | base => exact hoff
  | succ n hn ih =>
    have hkept := ih (fun j between hj hjn => hquiet j between hj (by omega))
    rcases SafetyStateMachine.call_of_off hkept with hstays | ⟨inputs, hc, hon⟩
    · exact hstays
    · have hdenied := hquiet n inputs hn (Nat.lt_succ_self n) hc
      simp [evaluationAt, hon] at hdenied

end Run

/-- The fault latch over every run. From the call that records a fault to the first later
acknowledgement that counts, every evaluation reports that fault in Safe Torque Off, and the
acknowledgement itself ends there without a fault. Torque comes back only by a request for
motion made in Safe Torque Off with no fault. -/
theorem fault_latch (limits : SafetyLimits) (calls : ℕ → MachineCall) :
    (∀ k reason, RecordsFault limits calls k reason →
      ∀ n inputs, k ≤ n → calls n = .evaluate inputs →
        (∀ j, k < j → j < n → ¬ (calls j).Acknowledges) →
        (evaluationAt limits calls n inputs).state = .safeTorqueOff ∧
        if k < n ∧ inputs.Acknowledges then
          (evaluationAt limits calls n inputs).faultLatched = false ∧
            (evaluationAt limits calls n inputs).fault = .none
        else
          (evaluationAt limits calls n inputs).faultLatched = true ∧
            (evaluationAt limits calls n inputs).fault = reason) ∧
    (∀ k n earlier inputs, k < n → calls k = .evaluate earlier → calls n = .evaluate inputs →
      (evaluationAt limits calls k earlier).state = .safeTorqueOff →
      (∀ j between, k < j → j < n → calls j = .evaluate between →
        (evaluationAt limits calls j between).torquePermitted = false) →
      (evaluationAt limits calls n inputs).torquePermitted = true →
      (inputs.request = .none ∨ inputs.request = .safelyLimitedSpeed) ∧
        (machineAt limits calls n).state = .safeTorqueOff ∧
        (machineAt limits calls n).fault = .none) := by
  constructor
  · intro k reason hk n inputs hkn hc hquiet
    simp only [evaluationAt, SafetyStateMachine.evaluate_snd, SafetyStateMachine.outputsFor_state,
      SafetyStateMachine.outputsFor_faultLatched, SafetyStateMachine.outputsFor_fault]
    rcases hkn.eq_or_lt with rfl | hlt
    · have hrecorded := hk.2.2
      rw [machineAt_succ_evaluate hc] at hrecorded
      have hlatched := hrecorded.symm ▸ hk.1
      rw [if_neg (fun h => lt_irrefl _ h.1)]
      exact ⟨SafetyStateMachine.advance_fault_state hlatched, by simpa using hlatched, hrecorded⟩
    · have hkept := fault_kept hk hlt hquiet
      have hlatched : (machineAt limits calls n).fault ≠ .none := hkept.symm ▸ hk.1
      refine ⟨(SafetyStateMachine.advance_of_latched hlatched).1, ?_⟩
      rw [SafetyStateMachine.advance_fault_of_latched hlatched]
      by_cases hack : inputs.Acknowledges
      · simp [hlt, hack]
      · simp [hack, hkept, hk.1]
  · intro k n earlier inputs hkn hck hcn hoff hquiet htorque
    have hstate : (machineAt limits calls n).state = .safeTorqueOff := by
      apply off_kept hkn _ hquiet
      rw [machineAt_succ_evaluate hck]
      simpa [evaluationAt] using hoff
    have hon : ((machineAt limits calls n).advance inputs).state.Energised := by
      simpa [evaluationAt] using htorque
    obtain ⟨hfault, hrequest⟩ := SafetyStateMachine.advance_energised_of_off hstate hon
    exact ⟨hrequest, hstate, hfault⟩

def fastInputs : SafetyInputs := { limitedInputs with speedMagnitude := .ofInt 20 }

/-- The axis is enabled at limited speed, breaks the limit, meets an emergency stop on top of
that, and is acknowledged while still too fast. -/
def overspeedCalls : ℕ → MachineCall
  | 0 => .evaluate healthyInputs
  | 1 => .evaluate limitedInputs
  | 2 => .evaluate fastInputs
  | 3 => .evaluate {}
  | _ => .evaluate { fastInputs with acknowledge := true }

theorem overspeedCalls_records :
    RecordsFault bandLimits overspeedCalls 2 .speedLimitExceeded :=
  ⟨by decide, by decide +kernel, by decide +kernel⟩

theorem fault_latch_overspeed :
    (evaluationAt bandLimits overspeedCalls 3 {}).fault = .speedLimitExceeded ∧
      (evaluationAt bandLimits overspeedCalls 4
        { fastInputs with acknowledge := true }).faultLatched = false := by
  have hlatch := (fault_latch bandLimits overspeedCalls).1 2 _ overspeedCalls_records
  constructor
  · exact (hlatch 3 {} (by decide) rfl (fun j hj hjn => by omega)).2.2
  · refine (hlatch 4 { fastInputs with acknowledge := true } (by decide) rfl ?_).2.1
    intro j hj hjn
    obtain rfl : j = 3 := by omega
    exact fun hack => absurd hack.1 (by decide)

/-- The demand that an input still makes, where the fault is named after a demand. -/
def DemandPersists (inputs : SafetyInputs) : FaultReason → Prop
  | .emergencyStop => inputs.emergencyStopAsserted = true
  | .communicationFault => inputs.communicationOk = false
  | .watchdogTimeout => inputs.heartbeatOk = false
  | _ => False

/-- The reading that still breaks a limit, where the fault is named after a monitor. -/
def ViolationPersists (limits : SafetyLimits) (inputs : SafetyInputs) : FaultReason → Prop
  | .speedLimitExceeded => limits.limitedSpeed < inputs.speedMagnitude
  | .positionLimitExceeded => limits.positionMonitoringEnabled = true ∧
      (inputs.position < limits.positionMin ∨ limits.positionMax < inputs.position)
  | .stopTimeExceeded => limits.standstillSpeed < inputs.speedMagnitude
  | _ => False

/-- The condition that the latched fault names still holds. -/
def CausePresent (m : SafetyStateMachine) (inputs : SafetyInputs) : Prop :=
  DemandPersists inputs m.fault ∨ ViolationPersists m.limits inputs m.fault

theorem DemandPersists.demand {inputs : SafetyInputs} {reason : FaultReason}
    (h : DemandPersists inputs reason) : unconditionalDemandActive inputs = true := by
  cases reason with
  | emergencyStop | communicationFault | watchdogTimeout =>
    simp only [DemandPersists] at h
    simp [unconditionalDemandActive, h]
  | _ => exact h.elim

theorem CausePresent.latched {m : SafetyStateMachine} {inputs : SafetyInputs}
    (h : CausePresent m inputs) : m.fault ≠ .none := by
  intro hf
  simp [CausePresent, DemandPersists, ViolationPersists, hf] at h

/-- In every reachable state a fault outlasts a cycle in which its cause is present, unless a
monitor's fault is acknowledged, without a demand, while the reading still breaks the limit. -/
theorem cause_outlasts_acknowledgement_iff (limits : SafetyLimits) (calls : ℕ → MachineCall)
    (n : ℕ) (inputs : SafetyInputs) :
    (CausePresent (machineAt limits calls n) inputs →
      (evaluationAt limits calls n inputs).faultLatched = true ∧
        ((machineAt limits calls n).evaluate inputs).1.fault =
          (machineAt limits calls n).fault) ↔
      ¬ (inputs.Acknowledges ∧ ViolationPersists (machineAt limits calls n).limits inputs
        (machineAt limits calls n).fault) := by
  generalize hm : machineAt limits calls n = m
  simp only [evaluationAt, hm, SafetyStateMachine.evaluate_snd, SafetyStateMachine.evaluate_fst,
    SafetyStateMachine.outputsFor_faultLatched]
  constructor
  · rintro hkept ⟨hack, hviolation⟩
    have hcause : CausePresent m inputs := Or.inr hviolation
    have hcleared := SafetyStateMachine.advance_fault_of_latched hcause.latched inputs
    rw [if_pos hack] at hcleared
    simpa [hcleared] using (hkept hcause).1
  · intro hcondition hcause
    have hlatched := hcause.latched
    have hack : ¬ inputs.Acknowledges := by
      intro hack
      rcases hcause with hdemand | hviolation
      · exact absurd hdemand.demand (by simp [hack.2])
      · exact hcondition ⟨hack, hviolation⟩
    rw [SafetyStateMachine.advance_fault_of_latched hlatched, if_neg hack]
    exact ⟨by simpa using hlatched, rfl⟩

/-- The overspeed is acknowledged away at twice the limit. -/
theorem overspeed_acknowledged_away :
    (machineAt bandLimits overspeedCalls 4).fault = .speedLimitExceeded ∧
      CausePresent (machineAt bandLimits overspeedCalls 4)
        { fastInputs with acknowledge := true } ∧
      (evaluationAt bandLimits overspeedCalls 4
        { fastInputs with acknowledge := true }).faultLatched = false := by
  have hfault : (machineAt bandLimits overspeedCalls 4).fault = .speedLimitExceeded := by
    decide +kernel
  refine ⟨hfault, Or.inr ?_, by decide +kernel⟩
  simp only [hfault, ViolationPersists]
  decide +kernel

end SafeEdge.Safety
