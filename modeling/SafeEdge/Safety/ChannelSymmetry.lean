import SafeEdge.Safety.MachineRun
import SafeEdge.Safety.SupervisorRun

/-! Exchanging the two channels of the supervisor: the run on exchanged inputs is the mirror
image of the run itself. -/
namespace SafeEdge.Safety
open Library

def SupervisorCycle.swap (c : SupervisorCycle) : SupervisorCycle :=
  { c with channelAInputs := c.channelBInputs, channelBInputs := c.channelAInputs }

/-- Equal in every field but the reported fault reason. -/
def SafetyOutputs.SameButReason (o p : SafetyOutputs) : Prop := { o with fault := p.fault } = p

theorem SafetyStateMachine.outputsFor_speedLimit_isNumber {m : SafetyStateMachine}
    (h : m.limits.limitedSpeed.IsNumber) (s : SafetyState) :
    (m.outputsFor s).speedLimit.IsNumber := by
  cases s with
  | limitedSpeed => exact h
  | safeTorqueOff | selfTest | stopping | operatingStop | operational =>
    intro hnan
    cases hnan

theorem combine_comm {a b : SafetyOutputs} (ha : a.speedLimit.IsNumber)
    (hb : b.speedLimit.IsNumber) : (combine b a).SameButReason (combine a b) := by
  unfold SafetyOutputs.SameButReason combine
  simp only [SafetyOutputs.mk.injEq]
  exact ⟨Bool.and_comm _ _, Bool.and_comm _ _, Binary64.min_comm hb ha, Bool.or_comm _ _,
    min_comm _ _, trivial, Bool.or_comm _ _⟩

namespace DualChannelSupervisor

def mirror (s : DualChannelSupervisor) : DualChannelSupervisor :=
  { s with channelA := s.channelB, channelB := s.channelA }

section Step
variable (s : DualChannelSupervisor) (c : SupervisorCycle)

theorem disagrees_mirror : s.mirror.Disagrees c.swap ↔ s.Disagrees c := ne_comm

theorem raisesDiscrepancy_mirror :
    s.mirror.RaisesDiscrepancy c.swap ↔ s.RaisesDiscrepancy c :=
  and_congr_left' (disagrees_mirror s c)

theorem compared_mirror : s.mirror.compared c.swap = (s.compared c).mirror := by
  by_cases hraises : s.RaisesDiscrepancy c
  · rw [compared_of_raises s c hraises,
      compared_of_raises _ _ ((raisesDiscrepancy_mirror s c).mpr hraises)]
    rfl
  · have hraises' := mt (raisesDiscrepancy_mirror s c).mp hraises
    by_cases hdisagree : s.Disagrees c
    · rw [compared_of_tolerated s c hdisagree hraises,
        compared_of_tolerated _ _ ((disagrees_mirror s c).mpr hdisagree) hraises']
      rfl
    · rw [compared_of_agree s c hdisagree,
        compared_of_agree _ _ (mt (disagrees_mirror s c).mp hdisagree)]
      rfl

theorem evaluate_mirror : (s.mirror.evaluate c.swap).1 = (s.evaluate c).1.mirror := by
  rw [evaluate_fst, evaluate_fst, compared_mirror]
  simp only [mirror, Bool.or_comm]

end Step

/-- The limited speed reported by either channel is a number. -/
structure NumberLimits (s : DualChannelSupervisor) : Prop where
  channelA : s.channelA.limits.limitedSpeed.IsNumber
  channelB : s.channelB.limits.limitedSpeed.IsNumber

theorem NumberLimits.evaluate {s : DualChannelSupervisor} (h : s.NumberLimits)
    (c : SupervisorCycle) : (s.evaluate c).1.NumberLimits := by
  have hlimits (ch : Channel) : ((s.evaluate c).1.channel ch).limits = (s.channel ch).limits := by
    rw [evaluate_channel, ← SafetyStateMachine.advance_limits (s.channel ch) (c.inputs ch)]
    split_ifs <;> rfl
  constructor
  · rw [show (s.evaluate c).1.channelA.limits = _ from hlimits .a]
    exact h.channelA
  · rw [show (s.evaluate c).1.channelB.limits = _ from hlimits .b]
    exact h.channelB

theorem evaluate_output_mirror {s : DualChannelSupervisor} (h : s.NumberLimits)
    (c : SupervisorCycle) :
    (s.mirror.evaluate c.swap).2.SameButReason (s.evaluate c).2 := by
  rw [evaluate_snd, evaluate_snd, evaluate_mirror]
  change (if (s.evaluate c).1.discrepancyLatched then _ else _ : SafetyOutputs).SameButReason _
  split_ifs with hlatched
  · rfl
  · apply combine_comm
    · apply SafetyStateMachine.outputsFor_speedLimit_isNumber
      rw [SafetyStateMachine.advance_limits]
      exact h.channelA
    · apply SafetyStateMachine.outputsFor_speedLimit_isNumber
      rw [SafetyStateMachine.advance_limits]
      exact h.channelB

variable (config : Config) (cycles : ℕ → SupervisorCycle)

theorem runFrom_mirror (n : ℕ) : (construct config).runFrom (fun k => (cycles k).swap) n =
    ((construct config).runFrom cycles n).mirror := by
  induction n with
  | zero => rfl
  | succ n ih => rw [runFrom_succ, runFrom_succ, ih, evaluate_mirror]

theorem runFrom_numberLimits (hn : config.limits.limitedSpeed.IsNumber) (n : ℕ) :
    ((construct config).runFrom cycles n).NumberLimits :=
  stateAt_invariant (fun _ => NumberLimits) ⟨hn, hn⟩ (fun k hk => hk.evaluate (cycles k)) n

/-- Which channel is called A does not matter: fed with exchanged inputs at the same times, the
supervisor returns in every cycle the same output up to the fault reason, and its channels are
exchanged while timer, latch and diagnostics are the same. -/
theorem channel_order_irrelevant (hn : config.limits.limitedSpeed.IsNumber) (n : ℕ) :
    ((construct config).outputAt (fun k => (cycles k).swap) n).SameButReason
        ((construct config).outputAt cycles n) ∧
      let s := (construct config).runFrom cycles (n + 1)
      let t := (construct config).runFrom (fun k => (cycles k).swap) (n + 1)
      t.channelA = s.channelB ∧ t.channelB = s.channelA ∧
        t.disagreementSinceNs = s.disagreementSinceNs ∧
        t.discrepancyLatched = s.discrepancyLatched ∧ t.diagnostics = s.diagnostics := by
  constructor
  · unfold outputAt
    rw [runFrom_mirror]
    exact evaluate_output_mirror (runFrom_numberLimits config cycles hn n) (cycles n)
  · intro s t
    have hmirror : t = s.mirror := runFrom_mirror config cycles (n + 1)
    rw [hmirror]
    exact ⟨rfl, rfl, rfl, rfl, rfl⟩

/-- Each channel sees a fault of its own. -/
def twoFaults : SupervisorCycle :=
  { channelAInputs := { healthyInputs with emergencyStopAsserted := true }
    channelBInputs := { healthyInputs with communicationOk := false }
    nowNs := 0 }

theorem channel_order_irrelevant_twoFaults :
    ((construct {}).outputAt (fun _ => twoFaults.swap) 0).SameButReason
        ((construct {}).outputAt (fun _ => twoFaults) 0) ∧
      ((construct {}).outputAt (fun _ => twoFaults.swap) 0).fault ≠
        ((construct {}).outputAt (fun _ => twoFaults) 0).fault :=
  ⟨(channel_order_irrelevant {} (fun _ => twoFaults) (by decide) 0).1, by decide⟩

end DualChannelSupervisor
end SafeEdge.Safety
