import SafeEdge.Safety.DiscrepancyLatch
import SafeEdge.Safety.SafeStop1

/-! The fault a cycle records and the fault the supervisor reports, and when the report stays
with the first cause. -/
namespace SafeEdge.Safety
open Library
namespace SafetyStateMachine

/-- What makes a cycle that starts without a fault record this one. In Limited Speed the speed
is looked at before the position. -/
inductive Cause (m : SafetyStateMachine) (inputs : SafetyInputs) : FaultReason → Prop
  | demand (hd : unconditionalDemandActive inputs = true) :
      Cause m inputs (unconditionalDemandReason inputs)
  | overran (hd : unconditionalDemandActive inputs = false) (hs : m.state = .stopping)
      (hv : ¬ inputs.speedMagnitude ≤ m.limits.standstillSpeed)
      (ht : m.limits.stopTimeLimitNs < inputs.timestampNs - m.stopStartedNs) :
      Cause m inputs .stopTimeExceeded
  | violation (hd : unconditionalDemandActive inputs = false) {reason : FaultReason}
      (hv : Violation m inputs reason)
      (hfirst : reason = .positionLimitExceeded → m.state = .limitedSpeed →
        ¬ m.limits.limitedSpeed < inputs.speedMagnitude) : Cause m inputs reason

variable {m : SafetyStateMachine} {inputs : SafetyInputs} {reason : FaultReason}

theorem advance_overspeed (hf : m.fault = .none)
    (hd : unconditionalDemandActive inputs = false) (hs : m.state = .limitedSpeed)
    (hv : m.limits.limitedSpeed < inputs.speedMagnitude) :
    (m.advance inputs).fault = .speedLimitExceeded := by
  simp [advance, stateMonitor, enterSafeTorqueOff, hf, hd, hs, hv]

theorem advance_out_of_band (hf : m.fault = .none)
    (hd : unconditionalDemandActive inputs = false)
    (hs : m.state = .operational ∨ m.state = .limitedSpeed)
    (he : m.limits.positionMonitoringEnabled = true)
    (hv : inputs.position < m.limits.positionMin ∨ m.limits.positionMax < inputs.position)
    (hspeed : m.state = .limitedSpeed → ¬ m.limits.limitedSpeed < inputs.speedMagnitude) :
    (m.advance inputs).fault = .positionLimitExceeded := by
  have hpassed : m.stateMonitor inputs = none := by
    unfold stateMonitor
    rcases hs with hs | hs
    · simp [hs]
    · simp [hs, hspeed hs]
  have hended : m.positionMonitor inputs =
      some (m.enterSafeTorqueOff .positionLimitExceeded) := by
    unfold positionMonitor
    rw [if_pos ⟨he, hs⟩, if_pos hv]
  simp [advance, enterSafeTorqueOff, hf, hd, hpassed, hended]

theorem Cause.advance_fault (h : Cause m inputs reason) (hf : m.fault = .none) :
    (m.advance inputs).fault = reason := by
  cases h with
  | demand hd =>
    unfold advance
    rw [if_pos hd, enterSafeTorqueOff_of_clear hf]
  | overran hd hs hv ht =>
    rw [advance_of_stopping hs hf]
    simp [hd, hv, ht]
  | violation hd hv hfirst =>
    cases hv with
    | speed hs hv => exact advance_overspeed hf hd hs hv
    | drift hs hv =>
      rcases hv with hw | hv
      · simp [advance, stateMonitor, enterSafeTorqueOff, hf, hd, hs, hw]
      · by_cases hw : m.limits.standstillWindow < (inputs.position - m.standstillReference).fabs
        · simp [advance, stateMonitor, enterSafeTorqueOff, hf, hd, hs, hw]
        · simp [advance, stateMonitor, enterSafeTorqueOff, hf, hd, hs, hw, hv]
    | band hs he hv => exact advance_out_of_band hf hd hs he hv (hfirst rfl)
    | entrySpeed hp hr hs hv =>
      rw [advance_of_reachesRequest hp]
      simp [requestedTransition, hr, if_pos hs, hv, enterSafeTorqueOff, hf]
    | moving hp hr hs hv =>
      rw [advance_of_reachesRequest hp]
      simp [requestedTransition, hr, if_pos hs, hv, enterSafeTorqueOff, hf]
    | unpowered hp hr hs =>
      rw [advance_of_reachesRequest hp]
      simp [requestedTransition, hr, hs, enterSafeTorqueOff, hf]

theorem Cause.ne_none (h : Cause m inputs reason) : reason ≠ .none := by
  cases h with
  | demand hd => exact unconditionalDemandReason_ne_none hd
  | overran => decide
  | violation _ hv => cases hv <;> decide

/-- A cycle that starts without a fault records exactly its cause. -/
theorem advance_fault_iff_cause (hf : m.fault = .none) (hr : reason ≠ .none) :
    (m.advance inputs).fault = reason ↔ Cause m inputs reason := by
  refine ⟨fun h => ?_, fun h => h.advance_fault hf⟩
  have hc := advance_cycle m inputs
  generalize hnext : m.advance inputs = next at hc h
  cases hc with
  | demand hd =>
    rw [enterSafeTorqueOff_of_clear hf] at h
    exact h ▸ .demand hd
  | latched _ hf' => exact absurd hf hf'
  | overran hd _ hs hv ht => exact h ▸ .overran hd hs hv ht
  | violation hd _ hv =>
    subst h
    refine .violation hd hv (fun hband hs hspeed => ?_)
    have hoverspeed := advance_overspeed hf hd hs hspeed
    rw [hnext] at hoverspeed
    cases hband.symm.trans hoverspeed
  | testing | tested | stopped | decelerating | off | stop | hold | holding | limit | limiting
    | run => exact absurd (h.symm.trans hf) hr

/-- The fault a cycle ends with, told from before: one that is not acknowledged, or a cause met
without one. -/
def EndsWithFault (m : SafetyStateMachine) (inputs : SafetyInputs) (reason : FaultReason) : Prop :=
  if m.fault = .none then Cause m inputs reason
  else reason = m.fault ∧ ¬ inputs.Acknowledges

theorem EndsWithFault.ne_none (h : EndsWithFault m inputs reason) : reason ≠ .none := by
  unfold EndsWithFault at h
  split_ifs at h with hf
  · exact h.ne_none
  · exact h.1.symm ▸ hf

theorem advance_fault_iff (hr : reason ≠ .none) :
    (m.advance inputs).fault = reason ↔ EndsWithFault m inputs reason := by
  unfold EndsWithFault
  split_ifs with hf
  · exact advance_fault_iff_cause hf hr
  · rw [advance_fault_of_latched hf]
    split_ifs with hack
    · simp [hack, hr.symm]
    · simp [hack, eq_comm]

/-- No cycle of a channel on its own records a discrepancy. -/
theorem Cause.ne_discrepancy (h : Cause m inputs reason) : reason ≠ .channelDiscrepancy := by
  cases h with
  | demand =>
    unfold unconditionalDemandReason
    split_ifs <;> decide
  | overran => decide
  | violation _ hv => cases hv <;> decide

theorem advance_fault_ne_discrepancy (hm : m.fault ≠ .channelDiscrepancy) :
    (m.advance inputs).fault ≠ .channelDiscrepancy := by
  intro h
  rw [advance_fault_iff (by decide)] at h
  unfold EndsWithFault at h
  split_ifs at h
  · exact h.ne_discrepancy rfl
  · exact hm h.1.symm

/-- Of two channels, the fault of the first if it has one. -/
def firstFault (a b : SafetyStateMachine) : FaultReason :=
  if a.fault ≠ .none then a.fault else b.fault

section Pair
variable {a b : SafetyStateMachine} {i j : SafetyInputs}

/-- Behind a channel without a fault, the fault of the other stays first as long as the former
meets no cause but the same. -/
theorem firstFault_kept_of_clear (ha : a.fault = .none) (hb : b.fault ≠ .none) :
    (∀ reason, a.Cause i reason → reason = b.fault) ↔
      (firstFault (a.advance i) (b.advance j) ≠ .none →
        firstFault (a.advance i) (b.advance j) = b.fault) := by
  unfold firstFault
  by_cases hclear : (a.advance i).fault = .none
  · rw [if_neg (not_not.mpr hclear), advance_fault_of_latched hb]
    refine iff_of_true (fun reason hcause => ?_) ?_
    · exact absurd (hcause.advance_fault ha) (hclear.symm ▸ hcause.ne_none.symm)
    · split_ifs <;> simp
  · have hcause := (advance_fault_iff_cause ha hclear).mp rfl
    rw [if_pos hclear]
    refine ⟨fun h _ => h _ hcause, fun h reason hreason => ?_⟩
    rw [← h hclear, hreason.advance_fault ha]

/-- A fault that comes first stays so unless it is acknowledged while the other channel ends
the cycle with a different one. -/
theorem firstFault_kept_of_faulted (ha : a.fault ≠ .none) :
    (i.Acknowledges → ∀ reason, b.EndsWithFault j reason → reason = a.fault) ↔
      (firstFault (a.advance i) (b.advance j) ≠ .none →
        firstFault (a.advance i) (b.advance j) = a.fault) := by
  unfold firstFault
  rw [advance_fault_of_latched ha]
  by_cases hack : i.Acknowledges
  · simp only [hack, if_true, true_imp_iff, ne_eq, not_true_eq_false, if_false]
    constructor
    · intro h hends
      exact h _ ((advance_fault_iff hends).mp rfl)
    · intro h reason hends
      have hfault := (advance_fault_iff hends.ne_none).mpr hends
      rw [← h (hfault.symm ▸ hends.ne_none), hfault]
  · simp [hack, ha]

end Pair

end SafetyStateMachine

namespace DualChannelSupervisor
open SafetyStateMachine

/-- The fault the supervisor reports after a cycle that has led to this state. -/
def reportedFault (s : DualChannelSupervisor) : FaultReason :=
  if s.discrepancyLatched then .channelDiscrepancy else firstFault s.channelA s.channelB

/-- The cycle gives a fault that is already reported no rival: no discrepancy is raised on top
of it, a reported fault of channel A is not acknowledged while channel B ends the cycle with
another, and while channel B's is reported channel A meets no other cause. -/
def KeepsFirstCause (s : DualChannelSupervisor) (c : SupervisorCycle) : Prop :=
  s.discrepancyLatched = false → s.reportedFault ≠ .none →
    ¬ s.RaisesDiscrepancy c ∧
    if s.channelA.fault ≠ .none then
      c.channelAInputs.Acknowledges →
        ∀ reason, s.channelB.EndsWithFault c.channelBInputs reason → reason = s.channelA.fault
    else ∀ reason, s.channelA.Cause c.channelAInputs reason → reason = s.channelB.fault

section Step
variable {s : DualChannelSupervisor} {c : SupervisorCycle}

/-- What a cycle outputs about faults can be read off the state it leads to. -/
theorem output_fault (s : DualChannelSupervisor) (c : SupervisorCycle) :
    (s.evaluate c).2.fault = (s.evaluate c).1.reportedFault ∧
      (s.evaluate c).2.faultLatched = ((s.evaluate c).1.reportedFault != .none) := by
  cases hl : (s.evaluate c).1.discrepancyLatched with
  | true =>
    rw [output_of_latched hl]
    unfold reportedFault
    rw [hl]
    exact ⟨rfl, rfl⟩
  | false =>
    obtain ⟨ha, hb⟩ := channels_of_not_raises (not_raises_of_unlatched hl)
    unfold reportedFault firstFault
    rw [evaluate_snd, hl, ha, hb]
    simp only [Bool.false_eq_true, if_false, combine, SafetyStateMachine.evaluate_snd,
      outputsFor_fault, outputsFor_faultLatched]
    refine ⟨trivial, ?_⟩
    split_ifs with hf
    · simp [hf]
    · simp [not_not.mp hf]

theorem reportedFault_of_latched (hs : s.discrepancyLatched = true)
    (h : (s.evaluate c).1.reportedFault ≠ .none) :
    (s.evaluate c).1.reportedFault = s.reportedFault := by
  cases hl : (s.evaluate c).1.discrepancyLatched with
  | true => simp [reportedFault, hl, hs]
  | false =>
    have ha : (s.evaluate c).1.channelA.fault = .none := clear_of_released hs hl .a
    have hb : (s.evaluate c).1.channelB.fault = .none := clear_of_released hs hl .b
    simp [reportedFault, firstFault, hl, ha, hb] at h

theorem reportedFault_of_not_raises (hs : s.discrepancyLatched = false)
    (hr : ¬ s.RaisesDiscrepancy c) : (s.evaluate c).1.reportedFault =
      firstFault (s.channelA.advance c.channelAInputs) (s.channelB.advance c.channelBInputs) := by
  obtain ⟨ha, hb⟩ := channels_of_not_raises hr
  unfold reportedFault
  rw [unlatched_of_not_raises hs hr, ha, hb]
  rfl

/-- Without the latch no channel holds a discrepancy fault. -/
def Sound (s : DualChannelSupervisor) : Prop :=
  s.discrepancyLatched = false → ∀ ch, (s.channel ch).fault ≠ .channelDiscrepancy

theorem Sound.evaluate (h : s.Sound) : (s.evaluate c).1.Sound := by
  intro hl ch
  cases hs : s.discrepancyLatched with
  | true =>
    rw [clear_of_released hs hl ch]
    decide
  | false =>
    rw [evaluate_channel, if_neg (not_raises_of_unlatched hl)]
    exact advance_fault_ne_discrepancy (h hs ch)

theorem Sound.reportedFault_ne (h : s.Sound) (hs : s.discrepancyLatched = false) :
    s.reportedFault ≠ .channelDiscrepancy := by
  unfold reportedFault firstFault
  rw [hs]
  simp only [Bool.false_eq_true, if_false]
  split_ifs
  · exact h hs .a
  · exact h hs .b

/-- The report changes from one fault to another in exactly the cycles that do not keep the
first cause. -/
theorem keepsFirstCause_iff (hsound : s.Sound) (hreport : s.reportedFault ≠ .none) :
    s.KeepsFirstCause c ↔ ((s.evaluate c).1.reportedFault ≠ .none →
      (s.evaluate c).1.reportedFault = s.reportedFault) := by
  cases hs : s.discrepancyLatched with
  | true => exact iff_of_true (fun hunset => by simp [hs] at hunset) (reportedFault_of_latched hs)
  | false =>
    by_cases hr : s.RaisesDiscrepancy c
    · have hnext : (s.evaluate c).1.reportedFault = .channelDiscrepancy := by
        simp [reportedFault, latched_of_raises hr]
      refine iff_of_false (fun hkeeps => (hkeeps hs hreport).1 hr) (fun hsame => ?_)
      exact hsound.reportedFault_ne hs ((hsame (by simp [hnext])).symm.trans hnext)
    · have hfirst : s.reportedFault = firstFault s.channelA s.channelB := by
        simp [reportedFault, hs]
      have hkeeps : s.KeepsFirstCause c ↔
          if s.channelA.fault ≠ .none then
            c.channelAInputs.Acknowledges → ∀ reason,
              s.channelB.EndsWithFault c.channelBInputs reason → reason = s.channelA.fault
          else ∀ reason, s.channelA.Cause c.channelAInputs reason → reason = s.channelB.fault :=
        ⟨fun h => (h hs hreport).2, fun h _ _ => ⟨hr, h⟩⟩
      rw [hfirst] at hreport
      rw [hkeeps, reportedFault_of_not_raises hs hr, hfirst]
      by_cases hf : s.channelA.fault = .none
      · have hb : firstFault s.channelA s.channelB = s.channelB.fault := by
          simp [firstFault, hf]
        rw [if_neg (not_not.mpr hf), hb]
        exact firstFault_kept_of_clear hf (hb ▸ hreport)
      · have ha : firstFault s.channelA s.channelB = s.channelA.fault := by
          simp [firstFault, hf]
        rw [if_pos hf, ha]
        exact firstFault_kept_of_faulted hf

end Step

section Run
variable {config : Config} {cycles : ℕ → SupervisorCycle}

theorem runFrom_sound (n : ℕ) : ((construct config).runFrom cycles n).Sound := by
  apply stateAt_invariant (fun _ (s : DualChannelSupervisor) => s.Sound)
  · intro _ ch
    cases ch <;> simp [construct, channel]
  · intro k hk
    exact hk.evaluate

theorem outputAt_faultLatched_iff (n : ℕ) :
    ((construct config).outputAt cycles n).faultLatched = true ↔
      ((construct config).runFrom cycles (n + 1)).reportedFault ≠ .none := by
  unfold outputAt
  rw [(output_fault _ _).2, runFrom_succ, bne_iff_ne]

end Run

/-- In every run the supervisor reports one fault throughout every unbroken stretch of latched
outputs exactly if every cycle keeps the first cause. -/
theorem first_cause_reported_iff (config : Config) (cycles : ℕ → SupervisorCycle) :
    (∀ first n, first ≤ n →
      (∀ j, first ≤ j → j ≤ n →
        ((construct config).outputAt cycles j).faultLatched = true) →
      ((construct config).outputAt cycles n).fault =
        ((construct config).outputAt cycles first).fault) ↔
      ∀ n, ((construct config).runFrom cycles n).KeepsFirstCause (cycles n) := by
  have hfault (n : ℕ) : ((construct config).outputAt cycles n).fault =
      ((construct config).runFrom cycles (n + 1)).reportedFault := (output_fault _ _).1
  simp only [outputAt_faultLatched_iff, hfault]
  constructor
  · intro hconstant n hunset hreport
    cases n with
    | zero => exact absurd rfl hreport
    | succ n =>
      refine (keepsFirstCause_iff (runFrom_sound (n + 1)) hreport).mpr ?_ hunset hreport
      intro hnext
      refine hconstant n (n + 1) (Nat.le_succ n) (fun j hj hjn => ?_)
      obtain rfl | rfl : j = n ∨ j = n + 1 := by omega
      · exact hreport
      · exact hnext
  · intro hkeeps first n hn hlatched
    induction n, hn using Nat.le_induction with
    | base => rfl
    | succ n hn ih =>
      have hbefore := hlatched n hn (Nat.le_succ n)
      have hafter := hlatched (n + 1) (by omega) le_rfl
      rw [← ih (fun j hj hjn => hlatched j hj (by omega))]
      exact (keepsFirstCause_iff (runFrom_sound (n + 1)) hbefore).mp (hkeeps (n + 1)) hafter

/-- Channel B meets an emergency stop, and a cycle later channel A loses its communication. -/
def rivalCycles (n : ℕ) : SupervisorCycle where
  channelAInputs := if n = 0 then healthyInputs else { healthyInputs with communicationOk := false }
  channelBInputs := {}
  nowNs := n

/-- The emergency stop came first and is still latched, but the later fault is reported. -/
theorem later_fault_reported :
    ((construct {}).outputAt rivalCycles 0).faultLatched = true ∧
      ((construct {}).outputAt rivalCycles 1).faultLatched = true ∧
      ((construct {}).outputAt rivalCycles 0).fault = .emergencyStop ∧
      ((construct {}).outputAt rivalCycles 1).fault = .communicationFault ∧
      ((construct {}).runFrom rivalCycles 2).channelB.fault = .emergencyStop := by
  decide

end DualChannelSupervisor
end SafeEdge.Safety
