import SafeEdge.Safety.MachineRun
import SafeEdge.Safety.SupervisorRun
import Mathlib.Data.Nat.Count

/-! Exact discrepancy timing: the sentinel-encoded timer and the counters of the supervisor
against the trace of disagreeing cycles they summarise. -/
namespace SafeEdge.Safety
open Library
namespace DualChannelSupervisor

section Trace
variable (s : DualChannelSupervisor) (cycles : ℕ → SupervisorCycle)

/-- The two channels return different states in cycle `n` of the run from `s`. -/
def DisagreesAt (n : ℕ) : Prop := (s.runFrom cycles n).Disagrees (cycles n)

instance : DecidablePred (s.DisagreesAt cycles) :=
  fun n => inferInstanceAs (Decidable ((s.runFrom cycles n).Disagrees (cycles n)))

/-- The supervisor counts a discrepancy fault in cycle `n`. -/
def FaultRaisedAt (n : ℕ) : Prop :=
  (s.runFrom cycles (n + 1)).diagnostics.discrepancyFaults ≠
    (s.runFrom cycles n).diagnostics.discrepancyFaults

instance : DecidablePred (s.FaultRaisedAt cycles) := fun _ => inferInstanceAs (Decidable (_ ≠ _))

/-- The supervisor raises the discrepancy fault in cycle `n`: its latch, which was clear, is set,
and both channels are forced into the fault after their own cycle. -/
def DiscrepancyRaisedAt (n : ℕ) : Prop :=
  (s.runFrom cycles n).discrepancyLatched = false ∧
    (s.runFrom cycles (n + 1)).discrepancyLatched = true ∧
    (s.runFrom cycles (n + 1)).channelA =
      ((s.runFrom cycles n).channelA.advance (cycles n).channelAInputs).forceFault
        .channelDiscrepancy ∧
    (s.runFrom cycles (n + 1)).channelB =
      ((s.runFrom cycles n).channelB.advance (cycles n).channelBInputs).forceFault
        .channelDiscrepancy

instance : DecidablePred (s.DiscrepancyRaisedAt cycles) :=
  fun _ => inferInstanceAs (Decidable (_ ∧ _))

/-- The time from the first cycle of the unbroken disagreement reaching up to `n` until `n`. -/
def disagreementAge (n : ℕ) : ℤ :=
  (cycles n).nowNs - (cycles (stretchStart (s.DisagreesAt cycles) n)).nowNs

end Trace

section Step
variable (s : DualChannelSupervisor) (c : SupervisorCycle)

theorem evaluate_since : (s.evaluate c).1.disagreementSinceNs =
    if s.Disagrees c then s.disagreementStart c.nowNs else -1 := by
  rw [evaluate_fst]
  by_cases hr : s.RaisesDiscrepancy c
  · simp [compared_of_raises s c hr, hr.1]
  · by_cases hd : s.Disagrees c
    · simp [compared_of_tolerated s c hd hr, hd]
    · simp [compared_of_agree s c hd, hd]

theorem evaluate_diagnostics : (s.evaluate c).1.diagnostics =
    if s.RaisesDiscrepancy c then
      { s.countedDisagreement c with
        discrepancyFaults := s.diagnostics.discrepancyFaults + 1 }
    else if s.Disagrees c then s.countedDisagreement c else s.diagnostics := by
  rw [evaluate_fst]
  by_cases hr : s.RaisesDiscrepancy c
  · simp [compared_of_raises s c hr, hr]
  · by_cases hd : s.Disagrees c
    · simp [compared_of_tolerated s c hd hr, hr, hd]
    · simp [compared_of_agree s c hd, hr, hd]

theorem evaluate_config : (s.evaluate c).1.config = s.config := by
  rw [evaluate_fst]
  by_cases hr : s.RaisesDiscrepancy c
  · simp [compared_of_raises s c hr]
  · by_cases hd : s.Disagrees c
    · simp [compared_of_tolerated s c hd hr]
    · simp [compared_of_agree s c hd]

end Step

variable {s : DualChannelSupervisor} {cycles : ℕ → SupervisorCycle}

theorem runFrom_config (n : ℕ) : (s.runFrom cycles n).config = s.config := by
  apply stateAt_invariant (fun _ (t : DualChannelSupervisor) => t.config = s.config) rfl
  intro k hk
  exact (evaluate_config _ _).trans hk

theorem faultRaisedAt_iff (n : ℕ) : s.FaultRaisedAt cycles n ↔
    (s.runFrom cycles n).RaisesDiscrepancy (cycles n) := by
  unfold FaultRaisedAt
  rw [runFrom_succ, evaluate_diagnostics]
  split_ifs with hr hd
  · simp [hr]
  · simp [hr, countedDisagreement]
  · simp [hr]

theorem discrepancyRaisedAt_iff (n : ℕ) : s.DiscrepancyRaisedAt cycles n ↔
    (s.runFrom cycles n).RaisesDiscrepancy (cycles n) := by
  unfold DiscrepancyRaisedAt
  rw [runFrom_succ]
  constructor
  · rintro ⟨hclear, hset, -, -⟩
    by_contra hr
    rw [unlatched_of_not_raises hclear hr] at hset
    cases hset
  · intro hr
    have ha := evaluate_channel (s.runFrom cycles n) (cycles n) .a
    have hb := evaluate_channel (s.runFrom cycles n) (cycles n) .b
    rw [if_pos hr] at ha hb
    exact ⟨hr.2.2, latched_of_raises hr, ha, hb⟩

/-- A cycle that does not raise the fault sets no latch, and the channels go their own way. -/
theorem unraised_cycle {n : ℕ} (h : ¬ s.DiscrepancyRaisedAt cycles n) :
    ((s.runFrom cycles (n + 1)).discrepancyLatched = true →
      (s.runFrom cycles n).discrepancyLatched = true) ∧
    (s.runFrom cycles (n + 1)).channelA =
      (s.runFrom cycles n).channelA.advance (cycles n).channelAInputs ∧
    (s.runFrom cycles (n + 1)).channelB =
      (s.runFrom cycles n).channelB.advance (cycles n).channelBInputs := by
  rw [discrepancyRaisedAt_iff] at h
  refine ⟨fun hset => ?_, channels_of_not_raises h⟩
  by_contra hclear
  rw [runFrom_succ, unlatched_of_not_raises (by simpa using hclear) h] at hset
  cases hset

theorem since_succ (n : ℕ) : (s.runFrom cycles (n + 1)).disagreementSinceNs =
    if s.DisagreesAt cycles n then (s.runFrom cycles n).disagreementStart (cycles n).nowNs
    else -1 := evaluate_since _ _

/-- A cycle in which the channels agree counts nothing. -/
theorem diagnostics_of_agree {n : ℕ} (h : ¬ s.DisagreesAt cycles n) :
    (s.runFrom cycles (n + 1)).diagnostics = (s.runFrom cycles n).diagnostics := by
  have hr : ¬ (s.runFrom cycles n).RaisesDiscrepancy (cycles n) := fun hr => h hr.1
  rw [runFrom_succ, evaluate_diagnostics, if_neg hr, if_neg (show ¬ Disagrees _ _ from h)]

theorem disagreeingCycles_succ (n : ℕ) :
    (s.runFrom cycles (n + 1)).diagnostics.disagreeingCycles =
      (s.runFrom cycles n).diagnostics.disagreeingCycles +
        if s.DisagreesAt cycles n then 1 else 0 := by
  by_cases hd : s.DisagreesAt cycles n
  · rw [if_pos hd, runFrom_succ, evaluate_diagnostics, if_pos (show Disagrees _ _ from hd)]
    split_ifs <;> rfl
  · rw [if_neg hd, diagnostics_of_agree hd, UInt64.add_zero]

theorem discrepancyFaults_succ (n : ℕ) :
    (s.runFrom cycles (n + 1)).diagnostics.discrepancyFaults =
      (s.runFrom cycles n).diagnostics.discrepancyFaults +
        if s.DiscrepancyRaisedAt cycles n then 1 else 0 := by
  rw [runFrom_succ, evaluate_diagnostics]
  by_cases hr : (s.runFrom cycles n).RaisesDiscrepancy (cycles n)
  · rw [if_pos hr, if_pos ((discrepancyRaisedAt_iff n).mpr hr)]
  · rw [if_neg hr, if_neg (mt (discrepancyRaisedAt_iff n).mp hr), UInt64.add_zero]
    split_ifs <;> rfl

theorem longestDisagreement_succ (n : ℕ) :
    (s.runFrom cycles (n + 1)).diagnostics.longestDisagreementNs =
      if s.DisagreesAt cycles n then
        max (s.runFrom cycles n).diagnostics.longestDisagreementNs
          ((cycles n).nowNs - (s.runFrom cycles n).disagreementStart (cycles n).nowNs)
      else (s.runFrom cycles n).diagnostics.longestDisagreementNs := by
  by_cases hd : s.DisagreesAt cycles n
  · rw [if_pos hd, runFrom_succ, evaluate_diagnostics, if_pos (show Disagrees _ _ from hd)]
    split_ifs <;> rfl
  · rw [if_neg hd, diagnostics_of_agree hd]

theorem disagreementStart_of_timer (hpos : ∀ n, 0 ≤ (cycles n).nowNs) {n : ℕ}
    (h : (s.runFrom cycles n).disagreementSinceNs =
      if stretchStart (s.DisagreesAt cycles) n = n then -1
      else (cycles (stretchStart (s.DisagreesAt cycles) n)).nowNs) :
    (s.runFrom cycles n).disagreementStart (cycles n).nowNs =
      (cycles (stretchStart (s.DisagreesAt cycles) n)).nowNs := by
  unfold disagreementStart
  rw [h]
  split_ifs with hstart hneg hneg
  · rw [hstart]
  · omega
  · exact absurd (hpos _) (not_le.mpr hneg)
  · rfl

/-- The timer holds the time of the first cycle of the current disagreement, and the
sentinel when the last cycle agreed. -/
theorem timer_spec (hs : s.disagreementSinceNs = -1) (hpos : ∀ n, 0 ≤ (cycles n).nowNs) (n : ℕ) :
    (s.runFrom cycles n).disagreementSinceNs =
      if stretchStart (s.DisagreesAt cycles) n = n then -1
      else (cycles (stretchStart (s.DisagreesAt cycles) n)).nowNs := by
  induction n with
  | zero => exact hs
  | succ n ih =>
    rw [since_succ, stretchStart]
    by_cases hd : s.DisagreesAt cycles n
    · have hle := stretchStart_le (s.DisagreesAt cycles) n
      rw [if_pos hd, if_pos hd, if_neg (by omega)]
      exact disagreementStart_of_timer hpos ih
    · rw [if_neg hd, if_neg hd, if_pos rfl]

theorem disagreementAge_eq (hs : s.disagreementSinceNs = -1)
    (hpos : ∀ n, 0 ≤ (cycles n).nowNs) (n : ℕ) :
    (cycles n).nowNs - (s.runFrom cycles n).disagreementStart (cycles n).nowNs =
      s.disagreementAge cycles n := by
  rw [disagreementStart_of_timer hpos (timer_spec hs hpos n)]
  rfl

/-- A 64-bit counter that is bumped exactly at the indices of `p` counts them. -/
theorem counter_eq_count {p : ℕ → Prop} [DecidablePred p] (counter : ℕ → UInt64)
    (hzero : counter 0 = 0) (hsucc : ∀ n, counter (n + 1) = counter n + if p n then 1 else 0)
    (n : ℕ) : counter n = UInt64.ofNat (Nat.count p n) := by
  induction n with
  | zero => simpa using hzero
  | succ n ih =>
    rw [hsucc, Nat.count_succ, UInt64.ofNat_add, ih]
    split_ifs <;> rfl

/-- The ages of the disagreements seen before cycle `n`: for each disagreeing cycle, the time
since the first cycle of its stretch. -/
def agesBefore (s : DualChannelSupervisor) (cycles : ℕ → SupervisorCycle) (n : ℕ) : Set ℤ :=
  {age | ∃ j < n, ∃ first, FirstOfStretch (s.DisagreesAt cycles) first j ∧
    age = (cycles j).nowNs - (cycles first).nowNs}

theorem agesBefore_succ (n : ℕ) : s.agesBefore cycles (n + 1) =
    if s.DisagreesAt cycles n then insert (s.disagreementAge cycles n) (s.agesBefore cycles n)
    else s.agesBefore cycles n := by
  ext age
  split_ifs with hd <;>
    simp only [agesBefore, firstOfStretch_iff, disagreementAge, Set.mem_insert_iff,
      Set.mem_ofPred_eq, Nat.lt_succ_iff_lt_or_eq]
  · aesop
  · aesop

theorem disagreementAge_nonneg (hmono : ∀ n, (cycles n).nowNs ≤ (cycles (n + 1)).nowNs) (n : ℕ) :
    0 ≤ s.disagreementAge cycles n := by
  have hm : Monotone fun n => (cycles n).nowNs := monotone_nat_of_le_succ hmono
  exact sub_nonneg.mpr (hm (stretchStart_le _ n))

/-- The longest disagreement is the greatest age seen, and `0` before any. -/
theorem longestDisagreement_spec (hs : s.disagreementSinceNs = -1)
    (hl : s.diagnostics.longestDisagreementNs = 0) (hpos : ∀ n, 0 ≤ (cycles n).nowNs)
    (hmono : ∀ n, (cycles n).nowNs ≤ (cycles (n + 1)).nowNs) (n : ℕ) :
    (s.agesBefore cycles n = ∅ ∧ (s.runFrom cycles n).diagnostics.longestDisagreementNs = 0) ∨
      IsGreatest (s.agesBefore cycles n)
        (s.runFrom cycles n).diagnostics.longestDisagreementNs := by
  induction n with
  | zero => exact Or.inl ⟨by simp [agesBefore], hl⟩
  | succ n ih =>
    rw [longestDisagreement_succ, agesBefore_succ, disagreementAge_eq hs hpos]
    split_ifs with hd
    · right
      rw [max_comm]
      rcases ih with ⟨hempty, hzero⟩ | hgreatest
      · rw [hempty, hzero, max_eq_left (disagreementAge_nonneg hmono n), insert_empty_eq]
        exact isGreatest_singleton
      · exact hgreatest.insert _
    · exact ih

/-- Exact discrepancy timing over every run from reset with nonnegative, nondecreasing cycle
times. A cycle that does not raise the fault leaves the latch clear if it was and the channels to
themselves. Counters are the 64-bit values of the counts they stand for. -/
theorem discrepancy_timing (s : DualChannelSupervisor) (cycles : ℕ → SupervisorCycle)
    (hpos : ∀ n, 0 ≤ (cycles n).nowNs)
    (hmono : ∀ n, (cycles n).nowNs ≤ (cycles (n + 1)).nowNs) (n : ℕ) :
    (s.reset.DiscrepancyRaisedAt cycles n ↔
      (s.reset.runFrom cycles n).discrepancyLatched = false ∧ s.reset.DisagreesAt cycles n ∧
        ∃ first, FirstOfStretch (s.reset.DisagreesAt cycles) first n ∧
          s.config.discrepancyToleranceNs < (cycles n).nowNs - (cycles first).nowNs) ∧
    (¬ s.reset.DiscrepancyRaisedAt cycles n →
      ((s.reset.runFrom cycles (n + 1)).discrepancyLatched = true →
        (s.reset.runFrom cycles n).discrepancyLatched = true) ∧
      (s.reset.runFrom cycles (n + 1)).channelA =
        (s.reset.runFrom cycles n).channelA.advance (cycles n).channelAInputs ∧
      (s.reset.runFrom cycles (n + 1)).channelB =
        (s.reset.runFrom cycles n).channelB.advance (cycles n).channelBInputs) ∧
    (s.reset.runFrom cycles n).diagnostics.disagreeingCycles =
      UInt64.ofNat (Nat.count (s.reset.DisagreesAt cycles) n) ∧
    (s.reset.runFrom cycles n).diagnostics.discrepancyFaults =
      UInt64.ofNat (Nat.count (s.reset.DiscrepancyRaisedAt cycles) n) ∧
    ((s.reset.agesBefore cycles n = ∅ ∧
        (s.reset.runFrom cycles n).diagnostics.longestDisagreementNs = 0) ∨
      IsGreatest (s.reset.agesBefore cycles n)
        (s.reset.runFrom cycles n).diagnostics.longestDisagreementNs) := by
  refine ⟨?_, unraised_cycle, ?_, ?_, longestDisagreement_spec rfl rfl hpos hmono n⟩
  · have hage := disagreementAge_eq (s := s.reset) rfl hpos n
    have hconfig : (s.reset.runFrom cycles n).config = s.config := runFrom_config n
    rw [discrepancyRaisedAt_iff, RaisesDiscrepancy, hage, hconfig]
    simp only [firstOfStretch_iff]
    constructor
    · rintro ⟨hd, ht, hl⟩
      exact ⟨hl, hd, _, ⟨hd, rfl⟩, ht⟩
    · rintro ⟨hl, hd, _, ⟨_, rfl⟩, ht⟩
      exact ⟨hd, ht, hl⟩
  · exact counter_eq_count (fun k => (s.reset.runFrom cycles k).diagnostics.disagreeingCycles)
      rfl disagreeingCycles_succ n
  · exact counter_eq_count (fun k => (s.reset.runFrom cycles k).diagnostics.discrepancyFaults)
      rfl discrepancyFaults_succ n

/-- Channel A passes its self test and is enabled while channel B waits for its own, one
nanosecond a cycle. -/
def splitCycles (n : ℕ) : SupervisorCycle :=
  { channelAInputs := healthyInputs
    channelBInputs := { healthyInputs with selfTestPassed := false }
    nowNs := n }

/-- The second disagreeing cycle raises the fault, which both channels carry from then on. -/
theorem discrepancy_timing_split :
    (construct {}).reset.DiscrepancyRaisedAt splitCycles 1 ∧
      ((construct {}).reset.runFrom splitCycles 2).channelA.fault = .channelDiscrepancy ∧
      ((construct {}).reset.runFrom splitCycles 2).channelB.fault = .channelDiscrepancy ∧
      ((construct {}).reset.runFrom splitCycles 2).diagnostics.discrepancyFaults = 1 := by
  have hpos (n : ℕ) : 0 ≤ (splitCycles n).nowNs := Int.natCast_nonneg n
  have hmono (n : ℕ) : (splitCycles n).nowNs ≤ (splitCycles (n + 1)).nowNs := by
    simp [splitCycles]
  have hsecond := discrepancy_timing (construct {}) splitCycles hpos hmono 1
  have hafter := discrepancy_timing (construct {}) splitCycles hpos hmono 2
  have hraised : (construct {}).reset.DiscrepancyRaisedAt splitCycles 1 := by
    refine hsecond.1.mpr ⟨by decide, by decide, 0, ⟨by decide, ?_, by omega⟩, by decide⟩
    intro j _ hj
    interval_cases j <;> decide
  refine ⟨hraised, ?_, ?_, ?_⟩
  · rw [hraised.2.2.1]
    decide
  · rw [hraised.2.2.2]
    decide
  · rw [hafter.2.2.2.1]
    decide

end DualChannelSupervisor
end SafeEdge.Safety
