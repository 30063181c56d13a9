import SafeEdge.Safety.Discrepancy
import SafeEdge.Safety.FaultLatch

/-! The life cycle of the discrepancy latch, from the cycle that raises the fault to the one
that releases it, and the cycle that raises it when no disagreement is tolerated. -/
namespace SafeEdge.Safety
open Library

/-- Torque and motion are withheld and the brake is engaged. -/
def SafetyOutputs.PermitsNothing (o : SafetyOutputs) : Prop :=
  o.torquePermitted = false ∧ o.motionPermitted = false ∧ o.brakeEngaged = true

/-- One channel that is down is enough for the combination to be. -/
theorem combine_permitsNothing {a b : SafetyOutputs}
    (h : a.PermitsNothing ∧ a.state = .safeTorqueOff ∨
      b.PermitsNothing ∧ b.state = .safeTorqueOff) :
    (combine a b).PermitsNothing ∧ (combine a b).state = .safeTorqueOff := by
  unfold combine SafetyOutputs.PermitsNothing
  rcases h with ⟨⟨ht, hm, hb⟩, hs⟩ | ⟨⟨ht, hm, hb⟩, hs⟩ <;>
    simp [ht, hm, hb, hs, SafetyState.min_safeTorqueOff]

theorem SafetyStateMachine.permitsNothing_of_latched {m : SafetyStateMachine}
    (hf : m.fault ≠ .none) (inputs : SafetyInputs) :
    (m.evaluate inputs).2.PermitsNothing ∧ (m.evaluate inputs).2.state = .safeTorqueOff := by
  rw [evaluate_snd, (@advance_of_latched m inputs hf).1]
  exact ⟨⟨rfl, rfl, rfl⟩, rfl⟩

namespace DualChannelSupervisor

section Step
variable {s : DualChannelSupervisor} {c : SupervisorCycle}

/-- The discrepancy fault drives both channels into a latched safe state. -/
theorem channel_of_raises (h : s.RaisesDiscrepancy c) (ch : Channel) :
    ((s.evaluate c).1.channel ch).state = .safeTorqueOff ∧
      ((s.evaluate c).1.channel ch).fault ≠ .none := by
  rw [evaluate_channel, if_pos h]
  exact ⟨rfl, forceFault_fault _⟩

/-- The latch is set after a cycle only over a channel with a fault. -/
theorem faulted_of_latched (h : (s.evaluate c).1.discrepancyLatched = true) :
    ∃ ch, ((s.evaluate c).1.channel ch).fault ≠ .none := by
  rw [evaluate_fst] at h ⊢
  simp only [Bool.and_eq_true, Bool.or_eq_true, SafetyStateMachine.faultLatched, bne_iff_ne] at h
  rcases h.2 with ha | hb
  · exact ⟨.a, ha⟩
  · exact ⟨.b, hb⟩

/-- The latch is released only in a cycle that leaves neither channel with a fault. -/
theorem clear_of_released (hs : s.discrepancyLatched = true)
    (h : (s.evaluate c).1.discrepancyLatched = false) (ch : Channel) :
    ((s.evaluate c).1.channel ch).fault = .none := by
  have hr : ¬ s.RaisesDiscrepancy c := by
    rintro ⟨_, _, hunset⟩
    simp [hs] at hunset
  rw [evaluate_fst] at h ⊢
  simp only [compared_latched hr, hs, Bool.true_and, Bool.or_eq_false_iff,
    SafetyStateMachine.faultLatched, bne_eq_false_iff_eq] at h
  cases ch with
  | a => exact h.1
  | b => exact h.2

theorem discrepancyOutputs_permitsNothing : discrepancyOutputs.PermitsNothing :=
  ⟨rfl, rfl, rfl⟩

/-- A latch that stays set replaces what the channels returned. -/
theorem output_of_latched (h : (s.evaluate c).1.discrepancyLatched = true) :
    (s.evaluate c).2 = discrepancyOutputs := by
  rw [evaluate_snd]
  exact if_pos h

/-- A channel that starts the cycle with a latched fault holds the whole output down. -/
theorem output_of_faulted {ch : Channel} (hf : (s.channel ch).fault ≠ .none) :
    (s.evaluate c).2.PermitsNothing ∧ (s.evaluate c).2.state = .safeTorqueOff := by
  rw [evaluate_snd]
  split_ifs
  · exact ⟨discrepancyOutputs_permitsNothing, rfl⟩
  · apply combine_permitsNothing
    cases ch with
    | a => exact Or.inl (SafetyStateMachine.permitsNothing_of_latched hf c.channelAInputs)
    | b => exact Or.inr (SafetyStateMachine.permitsNothing_of_latched hf c.channelBInputs)

end Step

section Run
variable {s : DualChannelSupervisor} {cycles : ℕ → SupervisorCycle} {k n : ℕ}

/-- Since the discrepancy fault was raised a channel has kept a fault, unless it has been
acknowledged. -/
theorem faulted_or_acknowledged (hk : s.FaultRaisedAt cycles k) (ch : Channel) (hkn : k < n) :
    ((s.runFrom cycles n).channel ch).fault ≠ .none ∨
      ∃ j, k < j ∧ j < n ∧ ((cycles j).inputs ch).Acknowledges := by
  induction n, hkn using Nat.le_induction with
  | base => exact Or.inl (channel_of_raises ((faultRaisedAt_iff k).mp hk) ch).2
  | succ n hn ih =>
    rcases ih with hfault | ⟨j, hj, hjn, hack⟩
    · by_cases hclear : ((s.runFrom cycles (n + 1)).channel ch).fault = .none
      · exact Or.inr ⟨n, hn, Nat.lt_succ_self n, acknowledged_of_cleared hfault hclear⟩
      · exact Or.inl hclear
    · exact Or.inr ⟨j, hj, by omega, hack⟩

end Run

/-- The life cycle of the latch in every run. The cycle that raises the fault leaves both
channels latched in Safe Torque Off. From it to the cycle that releases the latch, that one
included, nothing is permitted. The release comes later, and only after each channel has been
acknowledged without a demand. -/
theorem discrepancy_latch_life_cycle (s : DualChannelSupervisor) (cycles : ℕ → SupervisorCycle)
    (k : ℕ) (hk : s.FaultRaisedAt cycles k) :
    (∀ ch, ((s.runFrom cycles (k + 1)).channel ch).state = .safeTorqueOff ∧
      ((s.runFrom cycles (k + 1)).channel ch).fault ≠ .none) ∧
    ∀ n, k ≤ n →
      (∀ j, k ≤ j → j < n → (s.runFrom cycles (j + 1)).discrepancyLatched = true) →
      (s.outputAt cycles n).PermitsNothing ∧ (s.outputAt cycles n).state = .safeTorqueOff ∧
      ((s.runFrom cycles (n + 1)).discrepancyLatched = true →
        s.outputAt cycles n = discrepancyOutputs) ∧
      ((s.runFrom cycles (n + 1)).discrepancyLatched = false →
        k < n ∧ ∀ ch, ∃ j, k < j ∧ j ≤ n ∧ ((cycles j).inputs ch).Acknowledges) := by
  have hraises := (faultRaisedAt_iff k).mp hk
  have hset : (s.runFrom cycles (k + 1)).discrepancyLatched = true := latched_of_raises hraises
  refine ⟨fun ch => channel_of_raises hraises ch, fun n hkn hlatched => ?_⟩
  have hoverride : (s.runFrom cycles (n + 1)).discrepancyLatched = true →
      s.outputAt cycles n = discrepancyOutputs := output_of_latched
  rcases hkn.eq_or_lt with rfl | hlt
  · rw [hoverride hset]
    refine ⟨discrepancyOutputs_permitsNothing, rfl, fun _ => rfl, fun hreleased => ?_⟩
    simp [hset] at hreleased
  · obtain ⟨m, rfl⟩ := Nat.exists_eq_add_of_lt hlt
    have hbefore := hlatched (k + m) (by omega) (by omega)
    obtain ⟨ch, hf⟩ := faulted_of_latched hbefore
    obtain ⟨hnothing, hoff⟩ := @output_of_faulted _ (cycles (k + m + 1)) ch hf
    refine ⟨hnothing, hoff, hoverride, fun hreleased => ⟨hlt, fun ch => ?_⟩⟩
    have hclear := clear_of_released hbefore hreleased ch
    have hsince := faulted_or_acknowledged hk ch (show k < k + m + 1 + 1 by omega)
    rcases hsince with hf' | ⟨j, hj, hjn, hack⟩
    · exact absurd hclear hf'
    · exact ⟨j, hj, by omega, hack⟩

/-- After the fault channel A is acknowledged first and runs again inside, then channel B. -/
def recoveryCycles : ℕ → SupervisorCycle
  | 0 => splitCycles 0
  | 1 => splitCycles 1
  | 2 =>
    { channelAInputs := { healthyInputs with acknowledge := true }
      channelBInputs := healthyInputs
      nowNs := 2 }
  | n + 3 =>
    { channelAInputs := healthyInputs
      channelBInputs := { healthyInputs with acknowledge := true }
      nowNs := n + 3 }

theorem discrepancy_latch_life_cycle_recovery :
    ((construct {}).outputAt recoveryCycles 3).PermitsNothing ∧
      ((construct {}).runFrom recoveryCycles 4).discrepancyLatched = false ∧
      ((construct {}).runFrom recoveryCycles 4).channelA.state = .operational := by
  have hlife := discrepancy_latch_life_cycle (construct {}) recoveryCycles 1 (by decide)
  refine ⟨(hlife.2 3 (by decide) ?_).1, by decide, by decide⟩
  intro j hj hjn
  interval_cases j <;> decide

/-- Without tolerance a disagreement is a fault, in every reachable state, exactly from the
second disagreeing instant on: the timer must have been started at an earlier time. -/
theorem zero_tolerance_iff (config : Config) (cycles : ℕ → SupervisorCycle) (n : ℕ)
    (htolerance : config.discrepancyToleranceNs = 0)
    (hclear : ((construct config).runFrom cycles n).discrepancyLatched = false)
    (hdisagrees : (construct config).DisagreesAt cycles n) :
    ((construct config).FaultRaisedAt cycles n ∧
      (∀ ch, (((construct config).runFrom cycles (n + 1)).channel ch).fault ≠ .none) ∧
      ((construct config).outputAt cycles n).PermitsNothing) ↔
      0 ≤ ((construct config).runFrom cycles n).disagreementSinceNs ∧
        ((construct config).runFrom cycles n).disagreementSinceNs < (cycles n).nowNs := by
  have hconfig : ((construct config).runFrom cycles n).config = config := runFrom_config n
  have hraises : (construct config).FaultRaisedAt cycles n ↔
      0 ≤ ((construct config).runFrom cycles n).disagreementSinceNs ∧
        ((construct config).runFrom cycles n).disagreementSinceNs < (cycles n).nowNs := by
    rw [faultRaisedAt_iff]
    unfold RaisesDiscrepancy disagreementStart
    rw [hconfig, htolerance]
    constructor
    · rintro ⟨_, hage, _⟩
      split_ifs at hage <;> omega
    · rintro ⟨hstarted, hearlier⟩
      refine ⟨hdisagrees, ?_, hclear⟩
      rw [if_neg (not_lt.mpr hstarted)]
      omega
  rw [← hraises]
  constructor
  · exact fun h => h.1
  · intro hk
    have hraised := (faultRaisedAt_iff n).mp hk
    refine ⟨hk, fun ch => (channel_of_raises hraised ch).2, ?_⟩
    unfold outputAt
    rw [output_of_latched (latched_of_raises hraised)]
    exact discrepancyOutputs_permitsNothing

theorem zero_tolerance_iff_split :
    (construct {}).FaultRaisedAt splitCycles 1 :=
  ((zero_tolerance_iff {} splitCycles 1 rfl (by decide) (by decide)).mpr
    ⟨by decide, by decide⟩).1

/-- The channels are enabled in the same cycle, one at limited speed and one without a limit. -/
def mismatchedCycles : ℕ → SupervisorCycle
  | 0 => { channelAInputs := healthyInputs, channelBInputs := healthyInputs, nowNs := 0 }
  | n + 1 => { channelAInputs := limitedInputs, channelBInputs := healthyInputs, nowNs := n + 1 }

/-- The first cycle in which they disagree raises nothing and permits torque and motion. -/
theorem first_disagreement_tolerated :
    ({} : Config).discrepancyToleranceNs = 0 ∧
      ((construct {}).runFrom mismatchedCycles 1).discrepancyLatched = false ∧
      (construct {}).DisagreesAt mismatchedCycles 1 ∧ 0 ≤ (mismatchedCycles 1).nowNs ∧
      ¬ (construct {}).FaultRaisedAt mismatchedCycles 1 ∧
      ((construct {}).outputAt mismatchedCycles 1).torquePermitted = true ∧
      ((construct {}).outputAt mismatchedCycles 1).motionPermitted = true := by
  decide

end DualChannelSupervisor
end SafeEdge.Safety
