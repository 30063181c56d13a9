import SafeEdge.Library.Binary64

/-! The IEC 61800-5-2 supervisor: one evaluation cycle of `SafetyStateMachine`. Readings and
limits are binary64 data. Timestamps are exact integers, so a difference that would overflow
the signed 64-bit type is not given a wrapped value. -/
namespace SafeEdge.Safety
open Library

inductive SafetyFunction where
  | none | safeTorqueOff | safeStop1 | safeOperatingStop | safelyLimitedSpeed
  deriving DecidableEq, Repr

inductive SafetyState where
  | safeTorqueOff | selfTest | stopping | operatingStop | limitedSpeed | operational
  deriving DecidableEq, Repr

/-- The enumerator values: smaller is more restrictive. -/
def SafetyState.value : SafetyState → ℕ
  | .safeTorqueOff => 0
  | .selfTest => 1
  | .stopping => 2
  | .operatingStop => 3
  | .limitedSpeed => 4
  | .operational => 5

theorem SafetyState.value_injective : Function.Injective SafetyState.value := by
  intro a b h
  cases a <;> cases b <;> first | rfl | exact absurd h (by decide)

instance : LinearOrder SafetyState := LinearOrder.lift' SafetyState.value
  SafetyState.value_injective

inductive FaultReason where
  | none | selfTestFailed | emergencyStop | speedLimitExceeded | positionLimitExceeded
  | standstillDeviation | stopTimeExceeded | communicationFault | watchdogTimeout
  | channelDiscrepancy | invalidRequest
  deriving DecidableEq, Repr

structure SafetyLimits where
  limitedSpeed : Binary64 := 0
  positionMin : Binary64 := .negInf
  positionMax : Binary64 := .posInf
  positionMonitoringEnabled : Bool := false
  standstillWindow : Binary64 := 0
  standstillSpeed : Binary64 := 0
  stopTimeLimitNs : ℤ := 0
  deriving DecidableEq

structure SafetyInputs where
  speedMagnitude : Binary64 := 0
  position : Binary64 := 0
  emergencyStopAsserted : Bool := true
  communicationOk : Bool := false
  heartbeatOk : Bool := false
  selfTestPassed : Bool := false
  request : SafetyFunction := .safeTorqueOff
  acknowledge : Bool := false
  timestampNs : ℤ := 0

structure SafetyOutputs where
  torquePermitted : Bool := false
  motionPermitted : Bool := false
  speedLimit : Binary64 := 0
  brakeEngaged : Bool := true
  state : SafetyState := .safeTorqueOff
  fault : FaultReason := .none
  faultLatched : Bool := false

/-- The member variables, with the values a power-on leaves in them as defaults. -/
structure SafetyStateMachine where
  limits : SafetyLimits := {}
  state : SafetyState := .selfTest
  fault : FaultReason := .none
  stopStartedNs : ℤ := 0
  standstillReference : Binary64 := 0
  deriving DecidableEq

def unconditionalDemandActive (inputs : SafetyInputs) : Bool :=
  inputs.emergencyStopAsserted || !inputs.communicationOk || !inputs.heartbeatOk

def unconditionalDemandReason (inputs : SafetyInputs) : FaultReason :=
  if inputs.emergencyStopAsserted then .emergencyStop
  else if !inputs.communicationOk then .communicationFault
  else if !inputs.heartbeatOk then .watchdogTimeout
  else .none

namespace SafetyStateMachine
variable (m : SafetyStateMachine)

def faultLatched : Bool := m.fault != .none

def reset : SafetyStateMachine :=
  { m with state := .selfTest, fault := .none, stopStartedNs := 0, standstillReference := 0 }

def setLimits (limits : SafetyLimits) : SafetyStateMachine := { m with limits := limits }

/-- A fault that is already latched is never overwritten. -/
def enterSafeTorqueOff (reason : FaultReason) : SafetyStateMachine :=
  { m with
    state := .safeTorqueOff
    fault := if reason ≠ .none ∧ m.fault = .none then reason else m.fault }

def forceFault (reason : FaultReason) : SafetyStateMachine := m.enterSafeTorqueOff reason

def outputsFor (state : SafetyState) : SafetyOutputs :=
  let outputs : SafetyOutputs :=
    { state := state, fault := m.fault, faultLatched := m.fault != .none }
  match state with
  | .selfTest | .safeTorqueOff =>
    { outputs with
      torquePermitted := false, motionPermitted := false, speedLimit := 0, brakeEngaged := true }
  | .stopping | .operatingStop =>
    { outputs with
      torquePermitted := true, motionPermitted := false, speedLimit := 0, brakeEngaged := false }
  | .limitedSpeed =>
    { outputs with
      torquePermitted := true, motionPermitted := true
      speedLimit := m.limits.limitedSpeed, brakeEngaged := false }
  | .operational =>
    { outputs with
      torquePermitted := true, motionPermitted := true
      speedLimit := .posInf, brakeEngaged := false }

/-- The monitor of the current state. It either ends the cycle in the machine it returns
or lets the cycle go on. -/
def stateMonitor (inputs : SafetyInputs) : Option SafetyStateMachine :=
  match m.state with
  | .selfTest =>
    if !inputs.selfTestPassed then some m else some { m with state := .safeTorqueOff }
  | .limitedSpeed =>
    if m.limits.limitedSpeed < inputs.speedMagnitude then
      some (m.enterSafeTorqueOff .speedLimitExceeded)
    else none
  | .operatingStop =>
    if m.limits.standstillWindow < (inputs.position - m.standstillReference).fabs then
      some (m.enterSafeTorqueOff .standstillDeviation)
    else if m.limits.standstillSpeed < inputs.speedMagnitude then
      some (m.enterSafeTorqueOff .standstillDeviation)
    else none
  | .stopping =>
    if inputs.speedMagnitude ≤ m.limits.standstillSpeed then
      some (m.enterSafeTorqueOff .none)
    else if m.limits.stopTimeLimitNs < inputs.timestampNs - m.stopStartedNs then
      some (m.enterSafeTorqueOff .stopTimeExceeded)
    else some m
  | .safeTorqueOff | .operational => none

/-- Safely Limited Position, keyed on the state the cycle started in. -/
def positionMonitor (inputs : SafetyInputs) : Option SafetyStateMachine :=
  if m.limits.positionMonitoringEnabled ∧
      (m.state = .operational ∨ m.state = .limitedSpeed) then
    if inputs.position < m.limits.positionMin ∨ m.limits.positionMax < inputs.position then
      some (m.enterSafeTorqueOff .positionLimitExceeded)
    else none
  else none

def requestedTransition (inputs : SafetyInputs) : SafetyStateMachine :=
  match inputs.request with
  | .safeTorqueOff => m.enterSafeTorqueOff .none
  | .safeStop1 =>
    if m.state = .operational ∨ m.state = .limitedSpeed ∨ m.state = .operatingStop then
      { m with state := .stopping, stopStartedNs := inputs.timestampNs }
    else if m.state = .safeTorqueOff then { m with state := .safeTorqueOff }
    else m
  | .safeOperatingStop =>
    if m.state = .operational ∨ m.state = .limitedSpeed then
      if m.limits.standstillSpeed < inputs.speedMagnitude then
        m.enterSafeTorqueOff .invalidRequest
      else { m with state := .operatingStop, standstillReference := inputs.position }
    else if m.state = .safeTorqueOff then m.enterSafeTorqueOff .invalidRequest
    else m
  | .safelyLimitedSpeed =>
    if m.state = .safeTorqueOff ∨ m.state = .operational ∨ m.state = .operatingStop then
      if m.limits.limitedSpeed < inputs.speedMagnitude then
        m.enterSafeTorqueOff .speedLimitExceeded
      else { m with state := .limitedSpeed }
    else m
  | .none =>
    if m.state = .safeTorqueOff ∨ m.state = .limitedSpeed ∨ m.state = .operatingStop then
      { m with state := .operational }
    else m

/-- The state change of one cycle, in the fixed order: unconditional demands, the fault
latch, the monitors, then the request. -/
def advance (inputs : SafetyInputs) : SafetyStateMachine :=
  if unconditionalDemandActive inputs then
    m.enterSafeTorqueOff (unconditionalDemandReason inputs)
  else if m.fault ≠ .none then
    { m with
      fault := if inputs.acknowledge then .none else m.fault
      state := .safeTorqueOff }
  else
    match m.stateMonitor inputs with
    | some ended => ended
    | none =>
      match m.positionMonitor inputs with
      | some ended => ended
      | none => m.requestedTransition inputs

/-- Every return statement of the source reports the outputs for the state just reached. -/
def evaluate (inputs : SafetyInputs) : SafetyStateMachine × SafetyOutputs :=
  let next := m.advance inputs
  (next, next.outputsFor next.state)

end SafetyStateMachine
end SafeEdge.Safety
