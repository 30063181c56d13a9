import SafeEdge.Safety.DualChannel

/-! Whole runs of the dual-channel supervisor: under which history torque may be permitted,
and the coherence of every output. -/
namespace SafeEdge.Safety
open Library
namespace DualChannelSupervisor

/-- The supervisor before cycle `n` of a run from `s`. -/
def runFrom (s : DualChannelSupervisor) (cycles : ℕ → SupervisorCycle) :
    ℕ → DualChannelSupervisor :=
  stateAt (fun s c => (s.evaluate c).1) s cycles

/-- The output of cycle `n`. -/
def outputAt (s : DualChannelSupervisor) (cycles : ℕ → SupervisorCycle) (n : ℕ) : SafetyOutputs :=
  ((s.runFrom cycles n).evaluate (cycles n)).2

theorem runFrom_succ (s : DualChannelSupervisor) (cycles : ℕ → SupervisorCycle) (n : ℕ) :
    s.runFrom cycles (n + 1) = ((s.runFrom cycles n).evaluate (cycles n)).1 := rfl

end DualChannelSupervisor

/-- No permission without torque, a released brake exactly with torque, and nothing permitted
outside Safe Torque Off while a fault is reported. -/
structure SafetyOutputs.Coherent (o : SafetyOutputs) : Prop where
  motion : o.motionPermitted = true → o.torquePermitted = true
  brake : o.torquePermitted = true ↔ o.brakeEngaged = false
  fault : o.faultLatched = true → o.torquePermitted = false ∧ o.motionPermitted = false ∧
    o.brakeEngaged = true ∧ o.state = .safeTorqueOff ∧ o.fault ≠ .none

theorem discrepancyOutputs_coherent : discrepancyOutputs.Coherent :=
  ⟨by decide, by decide, by decide⟩

theorem SafetyState.moving_energised {s : SafetyState} (h : s.Moving) : s.Energised :=
  Or.inr (Or.inr h)

theorem SafetyState.min_safeTorqueOff (s : SafetyState) :
    min .safeTorqueOff s = .safeTorqueOff ∧ min s .safeTorqueOff = .safeTorqueOff := by
  cases s <;> decide

theorem SafetyState.min_energised {s t : SafetyState} (hs : s.Energised) (ht : t.Energised) :
    (min s t).Energised := by
  rcases min_choice s t with h | h <;> rw [h] <;> assumption

/-- A single channel is coherent after every cycle. -/
theorem evaluate_coherent (m : SafetyStateMachine) (inputs : SafetyInputs) :
    (m.evaluate inputs).2.Coherent := by
  simp only [SafetyStateMachine.evaluate_snd]
  refine ⟨?_, ?_, ?_⟩
  · simpa using SafetyState.moving_energised
  · simp
  · intro h
    have hf : (m.advance inputs).fault ≠ .none := by simpa using h
    have hs := SafetyStateMachine.advance_fault_state hf
    simp only [hs]
    exact ⟨rfl, rfl, rfl, rfl, hf⟩

theorem combine_coherent {a b : SafetyOutputs} (ha : a.Coherent) (hb : b.Coherent) :
    (combine a b).Coherent := by
  refine ⟨?_, ?_, ?_⟩
  · simp only [combine, Bool.and_eq_true]
    exact fun h => ⟨ha.motion h.1, hb.motion h.2⟩
  · simp only [combine, Bool.and_eq_true, Bool.or_eq_false_iff]
    exact and_congr ha.brake hb.brake
  · simp only [combine, Bool.or_eq_true]
    rintro (h | h)
    · obtain ⟨ht, hm, hk, hs, hf⟩ := ha.fault h
      simp [ht, hm, hk, hs, hf, (SafetyState.min_safeTorqueOff b.state).1]
    · obtain ⟨ht, hm, hk, hs, hf⟩ := hb.fault h
      refine ⟨by simp [ht], by simp [hm], by simp [hk], ?_, ?_⟩
      · rw [hs]
        exact (SafetyState.min_safeTorqueOff a.state).2
      · split_ifs with hn
        · exact hn
        · exact hf

namespace DualChannelSupervisor

theorem evaluate_coherent (s : DualChannelSupervisor) (c : SupervisorCycle) :
    (s.evaluate c).2.Coherent := by
  rw [evaluate_snd]
  split_ifs
  · exact discrepancyOutputs_coherent
  · exact combine_coherent (Safety.evaluate_coherent _ _) (Safety.evaluate_coherent _ _)

theorem forceFault_fault (m : SafetyStateMachine) :
    (m.forceFault .channelDiscrepancy).fault ≠ .none := by
  unfold SafetyStateMachine.forceFault SafetyStateMachine.enterSafeTorqueOff
  by_cases hf : m.fault = .none <;> simp [hf]

/-- A cycle that raises the discrepancy fault leaves the latch set. -/
theorem latched_of_raises {s : DualChannelSupervisor} {c : SupervisorCycle}
    (h : s.RaisesDiscrepancy c) : (s.evaluate c).1.discrepancyLatched = true := by
  rw [evaluate_fst, compared_of_raises s c h]
  simpa [SafetyStateMachine.faultLatched] using
    Or.inl (forceFault_fault (s.channelA.advance c.channelAInputs))

theorem not_raises_of_unlatched {s : DualChannelSupervisor} {c : SupervisorCycle}
    (h : (s.evaluate c).1.discrepancyLatched = false) : ¬ s.RaisesDiscrepancy c := by
  intro hr
  rw [latched_of_raises hr] at h
  cases h

section Unraised
variable {s : DualChannelSupervisor} {c : SupervisorCycle}

/-- The cross-comparison touches the latch only to raise the fault. -/
theorem compared_latched (hr : ¬ s.RaisesDiscrepancy c) :
    (s.compared c).discrepancyLatched = s.discrepancyLatched := by
  by_cases hd : s.Disagrees c
  · rw [compared_of_tolerated s c hd hr]
  · rw [compared_of_agree s c hd]

theorem channels_of_not_raises (hr : ¬ s.RaisesDiscrepancy c) :
    (s.evaluate c).1.channelA = s.channelA.advance c.channelAInputs ∧
      (s.evaluate c).1.channelB = s.channelB.advance c.channelBInputs := by
  have ha := evaluate_channel s c .a
  have hb := evaluate_channel s c .b
  rw [if_neg hr] at ha hb
  exact ⟨ha, hb⟩

theorem unlatched_of_not_raises (hs : s.discrepancyLatched = false)
    (hr : ¬ s.RaisesDiscrepancy c) : (s.evaluate c).1.discrepancyLatched = false := by
  rw [evaluate_fst]
  simp [compared_latched hr, hs]

end Unraised

/-- One cycle that permits torque, channel by channel. -/
theorem evaluate_torque {s : DualChannelSupervisor} {c : SupervisorCycle}
    (h : (s.evaluate c).2.torquePermitted = true) :
    (s.evaluate c).1.discrepancyLatched = false ∧
      (s.evaluate c).2.state =
        min ((s.evaluate c).1.channel .a).state ((s.evaluate c).1.channel .b).state ∧
      ∀ ch, (s.channel ch).fault = .none ∧ unconditionalDemandActive (c.inputs ch) = false ∧
        ((s.evaluate c).1.channel ch).fault = .none ∧
        ((s.evaluate c).1.channel ch).state.Energised := by
  have hl : (s.evaluate c).1.discrepancyLatched = false := by
    by_contra hne
    rw [evaluate_snd, if_pos (by simpa using hne)] at h
    cases h
  have hch (ch : Channel) : (s.evaluate c).1.channel ch =
      (s.channel ch).advance (c.inputs ch) := by
    rw [evaluate_channel, if_neg (not_raises_of_unlatched hl)]
  rw [evaluate_snd, hl] at h ⊢
  simp only [Bool.false_eq_true, ↓reduceIte, combine, SafetyStateMachine.evaluate_snd,
    SafetyStateMachine.outputsFor_torque, Bool.and_eq_true, decide_eq_true_eq] at h
  refine ⟨rfl, ?_, ?_⟩
  · rw [hch, hch]
    simp [combine, channel, SupervisorCycle.inputs]
  · intro ch
    rw [hch]
    have he : ((s.channel ch).advance (c.inputs ch)).state.Energised := by
      cases ch
      · exact h.1
      · exact h.2
    obtain ⟨hd, hf, _, hf'⟩ := SafetyStateMachine.advance_energised he
    exact ⟨hf, hd, hf', he⟩

/-- A latched channel becomes clear only in a cycle that acknowledges it without a demand. -/
theorem acknowledged_of_cleared {s : DualChannelSupervisor} {c : SupervisorCycle} {ch : Channel}
    (hf : (s.channel ch).fault ≠ .none) (hclear : ((s.evaluate c).1.channel ch).fault = .none) :
    (c.inputs ch).acknowledge = true ∧ unconditionalDemandActive (c.inputs ch) = false := by
  rw [evaluate_channel] at hclear
  split_ifs at hclear
  · exact absurd hclear (forceFault_fault _)
  · exact (SafetyStateMachine.advance_of_latched hf).2.mp hclear

variable (config : Config) (cycles : ℕ → SupervisorCycle)

/-- Torque in cycle `n` of a run from construction: neither channel sees a demand or holds a
fault, the latch is clear, both channels are energised and the more restrictive state is
reported; and every channel that was latched before has been acknowledged, without a demand,
strictly between its last latched cycle and this one. All outputs are coherent. -/
theorem torque_grant (n : ℕ) :
    (((construct config).outputAt cycles n).torquePermitted = true →
      ((construct config).runFrom cycles (n + 1)).discrepancyLatched = false ∧
      ((construct config).outputAt cycles n).state =
        min (((construct config).runFrom cycles (n + 1)).channel .a).state
          (((construct config).runFrom cycles (n + 1)).channel .b).state ∧
      ∀ ch, unconditionalDemandActive ((cycles n).inputs ch) = false ∧
        (((construct config).runFrom cycles (n + 1)).channel ch).fault = .none ∧
        (((construct config).runFrom cycles (n + 1)).channel ch).state.Energised ∧
        ∀ k < n, (((construct config).runFrom cycles (k + 1)).channel ch).fault ≠ .none →
          (∀ j, k < j → j < n →
            (((construct config).runFrom cycles (j + 1)).channel ch).fault = .none) →
          ∃ j, k < j ∧ j < n ∧ ((cycles j).inputs ch).acknowledge = true ∧
            unconditionalDemandActive ((cycles j).inputs ch) = false) ∧
    ((construct config).outputAt cycles n).Coherent := by
  refine ⟨fun h => ?_, evaluate_coherent _ _⟩
  obtain ⟨hl, hstate, hch⟩ := evaluate_torque h
  refine ⟨hl, hstate, fun ch => ?_⟩
  obtain ⟨hbefore, hd, hf, he⟩ := hch ch
  refine ⟨hd, hf, he, fun k hk hlatched hlast => ?_⟩
  have hkn : k + 1 < n := by
    rcases Nat.lt_or_ge (k + 1) n with hlt | hge
    · exact hlt
    · obtain rfl : n = k + 1 := by omega
      exact absurd hbefore hlatched
  have hclear := hlast (k + 1) (Nat.lt_succ_self k) hkn
  rw [runFrom_succ] at hclear
  exact ⟨k + 1, Nat.lt_succ_self k, hkn, acknowledged_of_cleared hlatched hclear⟩

end DualChannelSupervisor
end SafeEdge.Safety
