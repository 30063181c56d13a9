import SafeEdge.Library.Run
import SafeEdge.Safety.Cycle

/-! The 1oo2D supervisor: two state machines, their cross-comparison and its latch. -/
namespace SafeEdge.Safety
open Library

structure Config where
  limits : SafetyLimits := {}
  discrepancyToleranceNs : ℤ := 0

structure Diagnostics where
  disagreeingCycles : UInt64 := 0
  discrepancyFaults : UInt64 := 0
  longestDisagreementNs : ℤ := 0

/-- The timestamp at which the current disagreement began is `-1` while the channels agree. -/
structure DualChannelSupervisor where
  config : Config
  channelA : SafetyStateMachine
  channelB : SafetyStateMachine
  disagreementSinceNs : ℤ := -1
  discrepancyLatched : Bool := false
  diagnostics : Diagnostics := {}

def combine (a b : SafetyOutputs) : SafetyOutputs where
  torquePermitted := a.torquePermitted && b.torquePermitted
  motionPermitted := a.motionPermitted && b.motionPermitted
  speedLimit := a.speedLimit.min b.speedLimit
  brakeEngaged := a.brakeEngaged || b.brakeEngaged
  state := min a.state b.state
  faultLatched := a.faultLatched || b.faultLatched
  fault := if a.fault ≠ .none then a.fault else b.fault

/-- What the supervisor returns while its own latch is set. -/
def discrepancyOutputs : SafetyOutputs :=
  { state := .safeTorqueOff, fault := .channelDiscrepancy, faultLatched := true }

/-- One call of the supervisor's `evaluate`. -/
structure SupervisorCycle where
  channelAInputs : SafetyInputs
  channelBInputs : SafetyInputs
  nowNs : ℤ

namespace DualChannelSupervisor

def construct (config : Config) : DualChannelSupervisor :=
  { config := config, channelA := { limits := config.limits }
    channelB := { limits := config.limits } }

def reset (s : DualChannelSupervisor) : DualChannelSupervisor :=
  { s with
    channelA := s.channelA.reset, channelB := s.channelB.reset
    disagreementSinceNs := -1, discrepancyLatched := false, diagnostics := {} }

/-- The cross-comparison of the states the two channels returned in this cycle. -/
def crossCompare (s : DualChannelSupervisor) (a b : SafetyState) (nowNs : ℤ) :
    DualChannelSupervisor :=
  if a ≠ b then
    let since := if s.disagreementSinceNs < 0 then nowNs else s.disagreementSinceNs
    let duration := nowNs - since
    let compared := { s with
      disagreementSinceNs := since
      diagnostics := { s.diagnostics with
        disagreeingCycles := s.diagnostics.disagreeingCycles + 1
        longestDisagreementNs := max s.diagnostics.longestDisagreementNs duration } }
    if s.config.discrepancyToleranceNs < duration ∧ s.discrepancyLatched = false then
      { compared with
        discrepancyLatched := true
        diagnostics := { compared.diagnostics with
          discrepancyFaults := compared.diagnostics.discrepancyFaults + 1 }
        channelA := compared.channelA.forceFault .channelDiscrepancy
        channelB := compared.channelB.forceFault .channelDiscrepancy }
    else compared
  else { s with disagreementSinceNs := -1 }

def evaluate (s : DualChannelSupervisor) (c : SupervisorCycle) :
    DualChannelSupervisor × SafetyOutputs :=
  let a := s.channelA.evaluate c.channelAInputs
  let b := s.channelB.evaluate c.channelBInputs
  let compared := { s with channelA := a.1, channelB := b.1 }.crossCompare
    a.2.state b.2.state c.nowNs
  if compared.discrepancyLatched then
    if !compared.channelA.faultLatched && !compared.channelB.faultLatched then
      ({ compared with discrepancyLatched := false }, combine a.2 b.2)
    else (compared, discrepancyOutputs)
  else (compared, combine a.2 b.2)

end DualChannelSupervisor

inductive Channel where
  | a | b
  deriving DecidableEq

def SupervisorCycle.inputs (c : SupervisorCycle) : Channel → SafetyInputs
  | .a => c.channelAInputs
  | .b => c.channelBInputs

namespace DualChannelSupervisor

def channel (s : DualChannelSupervisor) : Channel → SafetyStateMachine
  | .a => s.channelA
  | .b => s.channelB

/-- The state one channel returns in this cycle. -/
def returnedState (s : DualChannelSupervisor) (c : SupervisorCycle) (ch : Channel) : SafetyState :=
  ((s.channel ch).advance (c.inputs ch)).state

def Disagrees (s : DualChannelSupervisor) (c : SupervisorCycle) : Prop :=
  s.returnedState c .a ≠ s.returnedState c .b

instance (s : DualChannelSupervisor) (c : SupervisorCycle) : Decidable (s.Disagrees c) :=
  inferInstanceAs (Decidable (_ ≠ _))

/-- The time since which the channels disagree, once this cycle is found to disagree. -/
def disagreementStart (s : DualChannelSupervisor) (nowNs : ℤ) : ℤ :=
  if s.disagreementSinceNs < 0 then nowNs else s.disagreementSinceNs

/-- The cycle outlasts the tolerance with the latch still clear. -/
def RaisesDiscrepancy (s : DualChannelSupervisor) (c : SupervisorCycle) : Prop :=
  s.Disagrees c ∧ s.config.discrepancyToleranceNs < c.nowNs - s.disagreementStart c.nowNs ∧
    s.discrepancyLatched = false

instance (s : DualChannelSupervisor) (c : SupervisorCycle) : Decidable (s.RaisesDiscrepancy c) :=
  inferInstanceAs (Decidable (_ ∧ _))

variable (s : DualChannelSupervisor) (c : SupervisorCycle)

/-- The supervisor after the cross-comparison, before its latch is looked at. -/
def compared : DualChannelSupervisor :=
  { s with
    channelA := s.channelA.advance c.channelAInputs
    channelB := s.channelB.advance c.channelBInputs }.crossCompare
    (s.returnedState c .a) (s.returnedState c .b) c.nowNs

theorem evaluate_eq : s.evaluate c =
    if (s.compared c).discrepancyLatched then
      if !(s.compared c).channelA.faultLatched && !(s.compared c).channelB.faultLatched then
        ({ s.compared c with discrepancyLatched := false },
          combine (s.channelA.evaluate c.channelAInputs).2 (s.channelB.evaluate c.channelBInputs).2)
      else (s.compared c, discrepancyOutputs)
    else (s.compared c, combine (s.channelA.evaluate c.channelAInputs).2
      (s.channelB.evaluate c.channelBInputs).2) := by
  have ha : (s.channelA.evaluate c.channelAInputs).2.state = s.returnedState c .a := by
    simp [returnedState, channel, SupervisorCycle.inputs]
  have hb : (s.channelB.evaluate c.channelBInputs).2.state = s.returnedState c .b := by
    simp [returnedState, channel, SupervisorCycle.inputs]
  unfold evaluate
  simp only [ha, hb]
  rfl

/-- The counters after one more disagreeing cycle. -/
def countedDisagreement : Diagnostics :=
  { s.diagnostics with
    disagreeingCycles := s.diagnostics.disagreeingCycles + 1
    longestDisagreementNs := max s.diagnostics.longestDisagreementNs
      (c.nowNs - s.disagreementStart c.nowNs) }

theorem compared_of_agree (h : ¬ s.Disagrees c) : s.compared c =
    { s with
      channelA := s.channelA.advance c.channelAInputs
      channelB := s.channelB.advance c.channelBInputs
      disagreementSinceNs := -1 } := by
  unfold compared crossCompare
  exact if_neg h

theorem compared_of_tolerated (h : s.Disagrees c) (hr : ¬ s.RaisesDiscrepancy c) :
    s.compared c =
      { s with
        channelA := s.channelA.advance c.channelAInputs
        channelB := s.channelB.advance c.channelBInputs
        disagreementSinceNs := s.disagreementStart c.nowNs
        diagnostics := s.countedDisagreement c } := by
  have hg : ¬ (s.config.discrepancyToleranceNs < c.nowNs - s.disagreementStart c.nowNs ∧
      s.discrepancyLatched = false) := fun hg => hr ⟨h, hg⟩
  unfold compared crossCompare
  exact (if_pos h).trans (if_neg hg)

theorem compared_of_raises (h : s.RaisesDiscrepancy c) : s.compared c =
    { s with
      channelA := (s.channelA.advance c.channelAInputs).forceFault .channelDiscrepancy
      channelB := (s.channelB.advance c.channelBInputs).forceFault .channelDiscrepancy
      disagreementSinceNs := s.disagreementStart c.nowNs
      discrepancyLatched := true
      diagnostics := { s.countedDisagreement c with
        discrepancyFaults := s.diagnostics.discrepancyFaults + 1 } } := by
  unfold compared crossCompare
  exact (if_pos h.1).trans (if_pos h.2)

theorem compared_channel (ch : Channel) : (s.compared c).channel ch =
    if s.RaisesDiscrepancy c then
      ((s.channel ch).advance (c.inputs ch)).forceFault .channelDiscrepancy
    else (s.channel ch).advance (c.inputs ch) := by
  by_cases hr : s.RaisesDiscrepancy c
  · rw [compared_of_raises s c hr, if_pos hr]
    cases ch <;> rfl
  · rw [if_neg hr]
    by_cases hd : s.Disagrees c
    · rw [compared_of_tolerated s c hd hr]
      cases ch <;> rfl
    · rw [compared_of_agree s c hd]
      cases ch <;> rfl

/-- Once the channels are compared, the rest of `evaluate` may only clear the latch, and reports
what the latch says. -/
theorem evaluate_of_compared : s.evaluate c =
    ({ s.compared c with discrepancyLatched := (s.compared c).discrepancyLatched &&
        ((s.compared c).channelA.faultLatched || (s.compared c).channelB.faultLatched) },
      if (s.compared c).discrepancyLatched &&
          ((s.compared c).channelA.faultLatched || (s.compared c).channelB.faultLatched) then
        discrepancyOutputs
      else combine (s.channelA.evaluate c.channelAInputs).2
        (s.channelB.evaluate c.channelBInputs).2) := by
  rw [evaluate_eq]
  generalize s.compared c = next
  obtain ⟨config, a, b, since, latched, counts⟩ := next
  cases latched with
  | false => rfl
  | true => cases ha : a.faultLatched <;> cases hb : b.faultLatched <;> simp_all

theorem evaluate_fst : (s.evaluate c).1 =
    { s.compared c with discrepancyLatched := (s.compared c).discrepancyLatched &&
        ((s.compared c).channelA.faultLatched || (s.compared c).channelB.faultLatched) } := by
  rw [evaluate_of_compared]

theorem evaluate_snd : (s.evaluate c).2 =
    if (s.evaluate c).1.discrepancyLatched then discrepancyOutputs
    else combine (s.channelA.evaluate c.channelAInputs).2
      (s.channelB.evaluate c.channelBInputs).2 := by
  rw [evaluate_of_compared]

theorem evaluate_channel (ch : Channel) : (s.evaluate c).1.channel ch =
    if s.RaisesDiscrepancy c then
      ((s.channel ch).advance (c.inputs ch)).forceFault .channelDiscrepancy
    else (s.channel ch).advance (c.inputs ch) := by
  rw [← compared_channel, evaluate_fst]
  cases ch <;> rfl

end DualChannelSupervisor
end SafeEdge.Safety
