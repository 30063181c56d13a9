import SafeEdge.Safety.Monitors

/-! Safe Stop 1 over whole runs: what can end a controlled stop, and against which timestamp
its time is monitored. -/
namespace SafeEdge.Safety
open Library

namespace SafetyStateMachine
variable {m : SafetyStateMachine}

/-- Everything a cycle that starts in a controlled stop can do. -/
theorem advance_of_stopping (hs : m.state = .stopping) (hf : m.fault = .none)
    (inputs : SafetyInputs) : m.advance inputs =
      if unconditionalDemandActive inputs then
        m.enterSafeTorqueOff (unconditionalDemandReason inputs)
      else if inputs.speedMagnitude ≤ m.limits.standstillSpeed then
        { m with state := .safeTorqueOff }
      else if m.limits.stopTimeLimitNs < inputs.timestampNs - m.stopStartedNs then
        { m with state := .safeTorqueOff, fault := .stopTimeExceeded }
      else m := by
  have hstopped : m.enterSafeTorqueOff .none = { m with state := .safeTorqueOff } := by
    rw [enterSafeTorqueOff_of_clear hf, ← hf]
  have hoverran := enterSafeTorqueOff_of_clear hf .stopTimeExceeded
  simp only [advance, hf, stateMonitor, hs, hstopped, hoverran]
  split_ifs <;> simp_all

/-- The cycle that enters a controlled stop stamps it with its own time. -/
theorem advance_enters_stopping {inputs : SafetyInputs} (hs : m.state ≠ .stopping)
    (h : (m.advance inputs).state = .stopping) :
    (m.advance inputs).stopStartedNs = inputs.timestampNs := by
  have hc := advance_cycle m inputs
  generalize m.advance inputs = next at hc h
  cases hc with
  | demand | latched | tested | stopped | overran | violation | off | hold | limit | run => cases h
  | testing | decelerating | holding | limiting => exact absurd h hs
  | stop => rfl

/-- A controlled stop that began at this time is in progress. -/
structure StopInProgress (startNs : ℤ) (m : SafetyStateMachine) : Prop where
  state : m.state = .stopping
  fault : m.fault = .none
  started : m.stopStartedNs = startNs

/-- The machine after a cycle of a controlled stop that began at this time, by outcome. -/
inductive StopOutcome (limits : SafetyLimits) (startNs : ℤ) (inputs : SafetyInputs)
    (m : SafetyStateMachine) : SafetyStateMachine → Prop
  | remains (hd : unconditionalDemandActive inputs = false)
      (hv : ¬ inputs.speedMagnitude ≤ limits.standstillSpeed)
      (ht : inputs.timestampNs - startNs ≤ limits.stopTimeLimitNs) :
      StopOutcome limits startNs inputs m m
  | demanded (hd : unconditionalDemandActive inputs = true) :
      StopOutcome limits startNs inputs m
        { m with state := .safeTorqueOff, fault := unconditionalDemandReason inputs }
  | stopped (hd : unconditionalDemandActive inputs = false)
      (hv : inputs.speedMagnitude ≤ limits.standstillSpeed) :
      StopOutcome limits startNs inputs m { m with state := .safeTorqueOff }
  | overran (hd : unconditionalDemandActive inputs = false)
      (hv : ¬ inputs.speedMagnitude ≤ limits.standstillSpeed)
      (ht : limits.stopTimeLimitNs < inputs.timestampNs - startNs) :
      StopOutcome limits startNs inputs m
        { m with state := .safeTorqueOff, fault := .stopTimeExceeded }

theorem StopInProgress.outcome {startNs : ℤ} (h : StopInProgress startNs m)
    (inputs : SafetyInputs) : StopOutcome m.limits startNs inputs m (m.advance inputs) := by
  rw [advance_of_stopping h.state h.fault, enterSafeTorqueOff_of_clear h.fault]
  split_ifs with hd hv ht
  · exact .demanded hd
  · exact .stopped (by simpa using hd) hv
  · exact .overran (by simpa using hd) hv (h.started ▸ ht)
  · exact .remains (by simpa using hd) hv (h.started ▸ not_lt.mp ht)

theorem StopInProgress.advance {startNs : ℤ} (h : StopInProgress startNs m)
    {inputs : SafetyInputs} (hs : (m.advance inputs).state ≠ .safeTorqueOff) :
    StopInProgress startNs (m.advance inputs) := by
  have houtcome := h.outcome inputs
  generalize m.advance inputs = next at houtcome hs ⊢
  cases houtcome with
  | remains => exact h
  | demanded | stopped | overran => exact absurd rfl hs

end SafetyStateMachine

section Run
variable (limits : SafetyLimits) (inputs : ℕ → SafetyInputs)

/-- The machine before cycle `n` of a run of evaluations, which leave the limits as they are. -/
def cycleAt (n : ℕ) : SafetyStateMachine := machineAt limits (fun k => .evaluate (inputs k)) n

def cycleOutputs (n : ℕ) : SafetyOutputs := ((cycleAt limits inputs n).evaluate (inputs n)).2

def EntersStopping (k : ℕ) : Prop :=
  (cycleAt limits inputs k).state ≠ .stopping ∧ (cycleOutputs limits inputs k).state = .stopping

/-- Cycle `n` comes after the stop that was entered in cycle `k`, and none in between has
reached Safe Torque Off. -/
structure FollowsStop (k n : ℕ) : Prop where
  enters : EntersStopping limits inputs k
  later : k < n
  underway : ∀ j, k < j → j < n → (cycleOutputs limits inputs j).state ≠ .safeTorqueOff

variable {limits inputs}

theorem cycleAt_succ (n : ℕ) :
    cycleAt limits inputs (n + 1) = (cycleAt limits inputs n).advance (inputs n) := rfl

theorem cycleOutputs_state (n : ℕ) :
    (cycleOutputs limits inputs n).state = (cycleAt limits inputs (n + 1)).state := by
  simp [cycleOutputs, cycleAt_succ]

theorem FollowsStop.inProgress {k n : ℕ} (h : FollowsStop limits inputs k n) :
    SafetyStateMachine.StopInProgress (inputs k).timestampNs (cycleAt limits inputs n) := by
  obtain ⟨⟨hbefore, hentered⟩, hkn, hunderway⟩ := h
  rw [cycleOutputs_state, cycleAt_succ] at hentered
  induction n, hkn using Nat.le_induction with
  | base =>
    have henergised := SafetyStateMachine.advance_energised (Or.inl hentered)
    exact ⟨hentered, henergised.2.2.2,
      SafetyStateMachine.advance_enters_stopping hbefore hentered⟩
  | succ n hn ih =>
    have hprogress := ih (fun j hj hjn => hunderway j hj (by omega))
    have hstays := hunderway n hn (Nat.lt_succ_self n)
    rw [cycleOutputs_state, cycleAt_succ] at hstays
    exact hprogress.advance hstays

theorem FollowsStop.outcome {k n : ℕ} (h : FollowsStop limits inputs k n) :
    SafetyStateMachine.StopOutcome limits (inputs k).timestampNs (inputs n)
      (cycleAt limits inputs n) (cycleAt limits inputs (n + 1)) := by
  have hlimits : (cycleAt limits inputs n).limits = limits := machineAt_limits limits inputs n
  have houtcome := h.inProgress.outcome (inputs n)
  rw [hlimits] at houtcome
  exact houtcome

theorem FollowsStop.stopping_or_off {k n : ℕ} (h : FollowsStop limits inputs k n) :
    (cycleAt limits inputs (n + 1)).state = .stopping ∨
      (cycleAt limits inputs (n + 1)).state = .safeTorqueOff := by
  have hs := h.inProgress.state
  have houtcome := h.outcome
  generalize cycleAt limits inputs (n + 1) = next at houtcome ⊢
  cases houtcome with
  | remains => exact Or.inl hs
  | demanded | stopped | overran => exact Or.inr rfl

theorem FollowsStop.stopping_iff {k n : ℕ} (h : FollowsStop limits inputs k n) :
    (cycleAt limits inputs (n + 1)).state = .stopping ↔
      unconditionalDemandActive (inputs n) = false ∧
        ¬ (inputs n).speedMagnitude ≤ limits.standstillSpeed ∧
        (inputs n).timestampNs - (inputs k).timestampNs ≤ limits.stopTimeLimitNs := by
  have hs := h.inProgress.state
  have houtcome := h.outcome
  generalize cycleAt limits inputs (n + 1) = next at houtcome ⊢
  cases houtcome with
  | remains hd hv ht => exact iff_of_true hs ⟨hd, hv, ht⟩
  | demanded hd => exact iff_of_false (by simp) (by simp [hd])
  | stopped hd hv => exact iff_of_false (by simp) (by simp [hv])
  | overran hd hv ht =>
    exact iff_of_false (by simp) (fun hstays => absurd ht (not_lt.mpr hstays.2.2))

/-- Out of time and not at standstill, the stop ends with its own fault. -/
theorem FollowsStop.overran {k n : ℕ} (h : FollowsStop limits inputs k n)
    (hd : unconditionalDemandActive (inputs n) = false)
    (hv : ¬ (inputs n).speedMagnitude ≤ limits.standstillSpeed)
    (ht : limits.stopTimeLimitNs < (inputs n).timestampNs - (inputs k).timestampNs) :
    (cycleAt limits inputs (n + 1)).state = .safeTorqueOff ∧
      (cycleAt limits inputs (n + 1)).fault = .stopTimeExceeded := by
  have houtcome := h.outcome
  generalize cycleAt limits inputs (n + 1) = next at houtcome ⊢
  cases houtcome with
  | remains _ _ ht' => exact absurd ht (not_lt.mpr ht')
  | demanded hd' => simp [hd] at hd'
  | stopped _ hv' => exact absurd hv' hv
  | overran => exact ⟨rfl, rfl⟩

/-- No outcome moves the time from which the stop is measured. -/
theorem FollowsStop.started {k n : ℕ} (h : FollowsStop limits inputs k n) :
    (cycleAt limits inputs (n + 1)).stopStartedNs = (inputs k).timestampNs := by
  have hstarted := h.inProgress.started
  have houtcome := h.outcome
  generalize cycleAt limits inputs (n + 1) = next at houtcome ⊢
  cases houtcome <;> exact hstarted

/-- A stop ends without a fault exactly by reading standstill without a demand. -/
theorem FollowsStop.unfaulted_iff {k n : ℕ} (h : FollowsStop limits inputs k n) :
    (cycleAt limits inputs (n + 1)).state = .safeTorqueOff ∧
        (cycleAt limits inputs (n + 1)).fault = .none ↔
      unconditionalDemandActive (inputs n) = false ∧
        (inputs n).speedMagnitude ≤ limits.standstillSpeed := by
  have hs := h.inProgress.state
  have hf := h.inProgress.fault
  have houtcome := h.outcome
  generalize cycleAt limits inputs (n + 1) = next at houtcome ⊢
  cases houtcome with
  | remains hd hv => exact iff_of_false (by simp [hs]) (by simp [hv])
  | demanded hd =>
    exact iff_of_false (fun hoff => unconditionalDemandReason_ne_none hd hoff.2) (by simp [hd])
  | stopped hd hv => exact iff_of_true ⟨rfl, hf⟩ ⟨hd, hv⟩
  | overran hd hv => exact iff_of_false (by simp) (by simp [hv])

end Run

/-- What a controlled stop entered in cycle `k` promises about a cycle `n` that follows it. -/
structure StopGuarded (limits : SafetyLimits) (inputs : ℕ → SafetyInputs) (k n : ℕ) : Prop where
  confined : (cycleOutputs limits inputs n).state = .stopping ∨
    (cycleOutputs limits inputs n).state = .safeTorqueOff
  still : (cycleOutputs limits inputs n).motionPermitted = false
  torque : (cycleOutputs limits inputs n).torquePermitted = true ↔
    (cycleOutputs limits inputs n).state = .stopping
  remains : (cycleOutputs limits inputs n).state = .stopping ↔
    unconditionalDemandActive (inputs n) = false ∧
      ¬ (inputs n).speedMagnitude ≤ limits.standstillSpeed ∧
      (inputs n).timestampNs - (inputs k).timestampNs ≤ limits.stopTimeLimitNs
  overran : unconditionalDemandActive (inputs n) = false →
    ¬ (inputs n).speedMagnitude ≤ limits.standstillSpeed →
    limits.stopTimeLimitNs < (inputs n).timestampNs - (inputs k).timestampNs →
    (cycleOutputs limits inputs n).state = .safeTorqueOff ∧
      (cycleOutputs limits inputs n).fault = .stopTimeExceeded
  measured : (cycleOutputs limits inputs n).state = .stopping →
    (inputs n).speedMagnitude.IsNumber → limits.standstillSpeed.IsNumber →
    limits.standstillSpeed < (inputs n).speedMagnitude
  started : (cycleAt limits inputs n).stopStartedNs = (inputs k).timestampNs ∧
    (cycleAt limits inputs (n + 1)).stopStartedNs = (inputs k).timestampNs

/-- A controlled stop cannot be interrupted: whatever is requested or acknowledged, it goes on
exactly while there is no demand, no standstill and time left, and otherwise ends in Safe
Torque Off. -/
theorem stop_guarded (limits : SafetyLimits) (inputs : ℕ → SafetyInputs) (k n : ℕ)
    (h : FollowsStop limits inputs k n) : StopGuarded limits inputs k n := by
  have hremains := h.stopping_iff
  rw [← cycleOutputs_state] at hremains
  refine ⟨?_, ?_, ?_, hremains, ?_, ?_, h.inProgress.started, h.started⟩
  · rw [cycleOutputs_state]
    exact h.stopping_or_off
  · rcases h.stopping_or_off with hs | hs <;>
      simp [cycleOutputs, ← cycleAt_succ, hs, SafetyState.Moving]
  · rcases h.stopping_or_off with hs | hs <;>
      simp [cycleOutputs, ← cycleAt_succ, hs, SafetyState.Energised]
  · intro hd hv ht
    obtain ⟨hoff, hfault⟩ := h.overran hd hv ht
    exact ⟨(cycleOutputs_state n).trans hoff, by simpa [cycleOutputs, ← cycleAt_succ] using hfault⟩
  · intro hs hnumber hlimit
    by_contra hnot
    exact (hremains.mp hs).2.1 (Binary64.le_of_not_lt hnumber hlimit hnot)

/-- The axis runs, is asked for a controlled stop at time zero, and then reads what is given. -/
def stopInputs (after : SafetyInputs) : ℕ → SafetyInputs
  | 0 | 1 => healthyInputs
  | 2 => { healthyInputs with request := .safeStop1 }
  | _ => after

def stopLimits : SafetyLimits := { standstillSpeed := .ofInt 1, stopTimeLimitNs := 100 }

theorem stopInputs_followsStop (after : SafetyInputs) :
    FollowsStop stopLimits (stopInputs after) 2 3 := by
  have hbefore : (cycleAt stopLimits (stopInputs after) 2).state = .operational := rfl
  have hafter : (cycleAt stopLimits (stopInputs after) 3).state = .stopping := rfl
  refine ⟨⟨by simp [hbefore], ?_⟩, by decide, fun j hj hjn => by omega⟩
  rw [cycleOutputs_state]
  exact hafter

/-- Still moving after half of the stop time, the axis stays in the stop although the host asks
for motion. -/
theorem stop_guarded_halfway :
    (cycleOutputs stopLimits
      (stopInputs { healthyInputs with speedMagnitude := .ofInt 5, timestampNs := 50 })
      3).state = .stopping :=
  (stop_guarded stopLimits _ 2 3 (stopInputs_followsStop _)).remains.mpr
    ⟨by decide, by decide +kernel, by decide⟩

/-- A speed that is not a number does not compare above the standstill speed, and yet the stop
goes on. -/
theorem stop_remains_without_speed :
    FollowsStop stopLimits (stopInputs { healthyInputs with speedMagnitude := .nan }) 2 3 ∧
      (cycleOutputs stopLimits (stopInputs { healthyInputs with speedMagnitude := .nan })
        3).state = .stopping ∧
      ¬ stopLimits.standstillSpeed <
        (stopInputs { healthyInputs with speedMagnitude := .nan } 3).speedMagnitude :=
  ⟨stopInputs_followsStop _, by decide +kernel, by decide +kernel⟩

/-- The cycle reads standstill, and no demand, after the stop time has passed. -/
def LateStandstill (limits : SafetyLimits) (inputs : ℕ → SafetyInputs) (k n : ℕ) : Prop :=
  unconditionalDemandActive (inputs n) = false ∧
    (inputs n).speedMagnitude ≤ limits.standstillSpeed ∧
    limits.stopTimeLimitNs < (inputs n).timestampNs - (inputs k).timestampNs

/-- A stop that ends without a fault ends in time, except where standstill is read late. -/
theorem unfaulted_stop_in_time_iff (limits : SafetyLimits) (inputs : ℕ → SafetyInputs) (k n : ℕ)
    (h : FollowsStop limits inputs k n) :
    ((cycleOutputs limits inputs n).state = .safeTorqueOff →
      (cycleOutputs limits inputs n).faultLatched = false →
      (inputs n).timestampNs - (inputs k).timestampNs ≤ limits.stopTimeLimitNs) ↔
      ¬ LateStandstill limits inputs k n := by
  have hunfaulted : (cycleOutputs limits inputs n).state = .safeTorqueOff ∧
      (cycleOutputs limits inputs n).faultLatched = false ↔
        unconditionalDemandActive (inputs n) = false ∧
          (inputs n).speedMagnitude ≤ limits.standstillSpeed := by
    rw [← h.unfaulted_iff]
    simp [cycleOutputs, ← cycleAt_succ]
  unfold LateStandstill
  constructor
  · rintro hintime ⟨hd, hv, hlate⟩
    obtain ⟨hoff, hclear⟩ := hunfaulted.mpr ⟨hd, hv⟩
    exact absurd (hintime hoff hclear) (not_le.mpr hlate)
  · intro hcondition hoff hclear
    obtain ⟨hd, hv⟩ := hunfaulted.mp ⟨hoff, hclear⟩
    by_contra hlate
    exact hcondition ⟨hd, hv, not_le.mp hlate⟩

theorem unfaulted_stop_in_time_iff_halfway :
    (cycleOutputs stopLimits (stopInputs { healthyInputs with timestampNs := 50 }) 3).state =
        .safeTorqueOff ∧
      ((50 : ℤ) - 0 ≤ stopLimits.stopTimeLimitNs) := by
  have hoff : (cycleOutputs stopLimits (stopInputs { healthyInputs with timestampNs := 50 })
      3).state = .safeTorqueOff := by decide +kernel
  refine ⟨hoff, ?_⟩
  apply (unfaulted_stop_in_time_iff stopLimits _ 2 3
    (stopInputs_followsStop { healthyInputs with timestampNs := 50 })).mpr _ hoff
  · decide +kernel
  · rintro ⟨_, _, hlate⟩
    exact absurd hlate (by decide)

/-- At twice the stop time the axis reads standstill, and the stop counts as completed. -/
theorem late_standstill_unfaulted :
    (∀ j, (stopInputs { healthyInputs with timestampNs := 200 } j).timestampNs ≤
      (stopInputs { healthyInputs with timestampNs := 200 } (j + 1)).timestampNs) ∧
    FollowsStop stopLimits (stopInputs { healthyInputs with timestampNs := 200 }) 2 3 ∧
    (cycleOutputs stopLimits (stopInputs { healthyInputs with timestampNs := 200 }) 3).state =
      .safeTorqueOff ∧
    (cycleOutputs stopLimits (stopInputs { healthyInputs with timestampNs := 200 })
      3).faultLatched = false ∧
    stopLimits.stopTimeLimitNs <
      (stopInputs { healthyInputs with timestampNs := 200 } 3).timestampNs -
        (stopInputs { healthyInputs with timestampNs := 200 } 2).timestampNs := by
  refine ⟨?_, stopInputs_followsStop _, by decide +kernel, by decide +kernel, by decide⟩
  intro j
  match j with
  | 0 | 1 => decide
  | 2 => decide
  | j + 3 => exact le_rfl

end SafeEdge.Safety
