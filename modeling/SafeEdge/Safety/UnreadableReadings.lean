import SafeEdge.Safety.Monitors

/-! Speed and position readings that are not numbers. The monitors and the entry checks test
for a violation, and no comparison with such a reading finds one. -/
namespace SafeEdge.Safety
open Library
namespace SafetyStateMachine

variable (m : SafetyStateMachine) (inputs : SafetyInputs)

theorem advance_limitedSpeed_iff : (m.advance inputs).state = .limitedSpeed ↔
    m.ReachesRequest inputs ∧ inputs.request = .safelyLimitedSpeed ∧
      ¬ m.limits.limitedSpeed < inputs.speedMagnitude := by
  constructor
  · intro h
    have hv := advance_limitedSpeed h
    obtain ⟨hp, hr⟩ := (advance_moving_iff m inputs).mp (Or.inl h)
    refine ⟨hp, ?_, hv⟩
    rcases hr with hr | ⟨hr, _⟩
    · rw [advance_of_reachesRequest hp, requestedTransition, hr] at h
      have hs := hp.notStopping
      cases hm : m.state <;> simp_all
    · exact hr
  · rintro ⟨hp, hr, hv⟩
    rw [advance_of_reachesRequest hp, requestedTransition, hr]
    have ht := hp.notTesting
    have hs := hp.notStopping
    cases hm : m.state <;> simp_all

theorem advance_operatingStop_iff : (m.advance inputs).state = .operatingStop ↔
    m.ReachesRequest inputs ∧ inputs.request = .safeOperatingStop ∧ m.state ≠ .safeTorqueOff ∧
      ¬ m.limits.standstillSpeed < inputs.speedMagnitude := by
  constructor
  · intro h
    have hv := (advance_operatingStop h).1
    have hc := advance_cycle m inputs
    generalize m.advance inputs = next at hc h
    cases hc with
    | demand | latched | tested | stopped | overran | violation | off | stop | limit | run =>
      cases h
    | testing _ _ hs | decelerating _ _ hs | limiting _ _ hs => rw [hs] at h; cases h
    | hold hp hr hs =>
      refine ⟨hp, hr, ?_, hv⟩
      rcases hs with hs | hs <;> simp [hs]
    | holding hp hr hs => exact ⟨hp, hr, by simp [hs], hv⟩
  · rintro ⟨hp, hr, hne, hv⟩
    rw [advance_of_reachesRequest hp, requestedTransition, hr]
    have ht := hp.notTesting
    have hs := hp.notStopping
    cases hm : m.state <;> simp_all

/-- What the cycle returns for a reading that is not a number is a state that does not rely
on that reading. -/
def FailsSafe : Prop :=
  (¬ inputs.speedMagnitude.IsNumber →
    (m.evaluate inputs).2.state ≠ .limitedSpeed ∧ (m.evaluate inputs).2.state ≠ .operatingStop) ∧
  (¬ inputs.position.IsNumber →
    (m.evaluate inputs).2.state ≠ .operatingStop ∧
      (m.limits.positionMonitoringEnabled = true →
        (m.evaluate inputs).2.motionPermitted = false))

/-- A request the machine refuses, or that does not lead into a state relying on the reading
that is not a number. -/
structure RequestHarmless : Prop where
  limitedSpeed : ¬ inputs.speedMagnitude.IsNumber → inputs.request ≠ .safelyLimitedSpeed
  hold : ¬ inputs.speedMagnitude.IsNumber ∨ ¬ inputs.position.IsNumber →
    inputs.request = .safeOperatingStop → m.state = .safeTorqueOff ∨
      m.limits.standstillSpeed < inputs.speedMagnitude
  motion : ¬ inputs.position.IsNumber → m.limits.positionMonitoringEnabled = true →
    inputs.request ≠ .none ∧ (inputs.request = .safelyLimitedSpeed →
      m.limits.limitedSpeed < inputs.speedMagnitude)

/-- Given that the cycle reaches its request, only the request decides whether it fails safe. -/
theorem failsSafe_iff_harmless (hp : m.ReachesRequest inputs) :
    m.FailsSafe inputs ↔ m.RequestHarmless inputs := by
  unfold FailsSafe
  simp only [evaluate_snd, outputsFor_state, outputsFor_motion, decide_eq_false_iff_not, ne_eq,
    advance_limitedSpeed_iff, advance_operatingStop_iff, advance_moving_iff, HonoursMotion, hp,
    true_and]
  constructor
  · rintro ⟨hspeed, hposition⟩
    refine ⟨fun hn hr => ?_, fun hn hr => ?_, fun hn he => ⟨fun hr => ?_, fun hr => ?_⟩⟩
    · exact (hspeed hn).1 ⟨hr, Binary64.not_lt_of_not_isNumber hn⟩
    · by_contra hneither
      obtain ⟨hs, hv⟩ := not_or.mp hneither
      rcases hn with hn | hn
      · exact (hspeed hn).2 ⟨hr, hs, hv⟩
      · exact (hposition hn).1 ⟨hr, hs, hv⟩
    · exact (hposition hn).2 he (Or.inl hr)
    · by_contra hv
      exact (hposition hn).2 he (Or.inr ⟨hr, hv⟩)
  · rintro ⟨hlimited, hhold, hmotion⟩
    have hstill (hn : ¬ inputs.speedMagnitude.IsNumber ∨ ¬ inputs.position.IsNumber) :
        ¬ (inputs.request = .safeOperatingStop ∧ ¬ m.state = .safeTorqueOff ∧
          ¬ m.limits.standstillSpeed < inputs.speedMagnitude) := by
      rintro ⟨hr, hs, hv⟩
      exact (hhold hn hr).elim hs hv
    refine ⟨fun hn => ⟨fun h => hlimited hn h.1, hstill (Or.inl hn)⟩,
      fun hn => ⟨hstill (Or.inr hn), fun he => ?_⟩⟩
    obtain ⟨hnone, hslow⟩ := hmotion hn he
    rintro (hr | ⟨hr, hv⟩)
    · exact hnone hr
    · exact hv (hslow hr)

/-- A cycle that ends before its request fails safe whatever it reads. -/
theorem failsSafe_of_not_reaches (hp : ¬ m.ReachesRequest inputs) : m.FailsSafe inputs := by
  unfold FailsSafe
  simp [advance_limitedSpeed_iff, advance_operatingStop_iff, advance_moving_iff, HonoursMotion, hp]

end SafetyStateMachine

/-- Along every run, an evaluation fails safe on readings that are not numbers if and only if
a demand, a latched fault or a monitor ends it before its request, or its request is
harmless. -/
theorem unreadable_readings_fail_safe_iff (limits : SafetyLimits) (calls : ℕ → MachineCall)
    (n : ℕ) (inputs : SafetyInputs) :
    (machineAt limits calls n).FailsSafe inputs ↔
      ((machineAt limits calls n).ReachesRequest inputs →
        (machineAt limits calls n).RequestHarmless inputs) := by
  generalize machineAt limits calls n = m
  by_cases hp : m.ReachesRequest inputs
  · rw [SafetyStateMachine.failsSafe_iff_harmless m inputs hp]
    exact ⟨fun h _ => h, fun h => h hp⟩
  · exact ⟨fun _ h => absurd h hp, fun _ => SafetyStateMachine.failsSafe_of_not_reaches m inputs hp⟩

/-- After the self test the speed reading, and then the position reading, is lost while the
host asks for one function after another. -/
def unreadableInputs : ℕ → SafetyInputs
  | 0 => healthyInputs
  | 1 => { healthyInputs with speedMagnitude := .nan, request := .safelyLimitedSpeed }
  | 2 => { healthyInputs with speedMagnitude := .nan, request := .safeOperatingStop }
  | 3 => { healthyInputs with position := .nan, request := .none }
  | _ => { healthyInputs with position := .nan, request := .safeOperatingStop }

/-- Limited Speed and Operating Stop on a lost speed, motion under position monitoring and
Operating Stop on a lost position. -/
theorem unreadable_readings_accepted :
    let output n := ((machineAt bandLimits (fun k => .evaluate (unreadableInputs k)) n).evaluate
      (unreadableInputs n)).2
    bandLimits.positionMonitoringEnabled = true ∧
      (output 1).state = .limitedSpeed ∧ (output 2).state = .operatingStop ∧
      (output 3).motionPermitted = true ∧ (output 4).state = .operatingStop ∧
      ∀ n, 1 ≤ n → n ≤ 4 →
        ¬ (machineAt bandLimits (fun k => .evaluate (unreadableInputs k)) n).FailsSafe
          (unreadableInputs n) := by
  intro output
  have hlimited : (output 1).state = .limitedSpeed := by decide +kernel
  have hhold : (output 2).state = .operatingStop := by decide +kernel
  have hmotion : (output 3).motionPermitted = true := by decide +kernel
  have hlost : (output 4).state = .operatingStop := by decide +kernel
  refine ⟨rfl, hlimited, hhold, hmotion, hlost, fun n hn hn' hsafe => ?_⟩
  interval_cases n
  · exact (hsafe.1 (by decide)).1 hlimited
  · exact (hsafe.1 (by decide)).2 hhold
  · have hdenied := (hsafe.2 (by decide)).2 (by rw [machineAt_limits]; rfl)
    exact Bool.false_ne_true (hdenied.symm.trans hmotion)
  · exact (hsafe.2 (by decide)).1 hlost

end SafeEdge.Safety
