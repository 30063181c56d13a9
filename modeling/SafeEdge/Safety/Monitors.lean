import SafeEdge.Safety.MachineRun

/-! What the speed, standstill and position monitors guarantee over whole runs. -/
namespace SafeEdge.Safety
open Library
namespace SafetyStateMachine

/-- A cycle ends in Limited Speed only below the limit, whether it enters or stays. -/
theorem advance_limitedSpeed {m : SafetyStateMachine} {inputs : SafetyInputs}
    (h : (m.advance inputs).state = .limitedSpeed) :
    ¬ m.limits.limitedSpeed < inputs.speedMagnitude := by
  have hc := advance_cycle m inputs
  generalize m.advance inputs = next at hc h
  cases hc with
  | demand | latched | tested | stopped | overran | violation | off | stop | hold | run => cases h
  | testing _ _ hs | decelerating _ _ hs | holding _ _ hs => rw [hs] at h; cases h
  | limit _ _ _ hv => exact hv
  | limiting hp _ hs => exact hp.limitedSpeed hs

/-- A cycle ends in Operating Stop either by entering it, which captures the position just
read, or by staying, which leaves the machine as it was. -/
theorem advance_operatingStop {m : SafetyStateMachine} {inputs : SafetyInputs}
    (h : (m.advance inputs).state = .operatingStop) :
    ¬ m.limits.standstillSpeed < inputs.speedMagnitude ∧
      ((m.state ≠ .operatingStop ∧ (m.advance inputs).standstillReference = inputs.position) ∨
        (m.state = .operatingStop ∧ m.advance inputs = m ∧
          ¬ m.limits.standstillWindow < (inputs.position - m.standstillReference).fabs)) := by
  have hc := advance_cycle m inputs
  generalize m.advance inputs = next at hc h
  cases hc with
  | demand | latched | tested | stopped | overran | violation | off | stop | limit | run => cases h
  | testing _ _ hs | decelerating _ _ hs | limiting _ _ hs => rw [hs] at h; cases h
  | hold hp _ hs hv =>
    refine ⟨hv, Or.inl ⟨?_, rfl⟩⟩
    rintro he
    simp [he] at hs
  | holding hp _ hs =>
    obtain ⟨hw, hv⟩ := hp.standstill hs
    exact ⟨hv, Or.inr ⟨hs, rfl, hw⟩⟩

/-- Nothing ends the cycle before its request, and the request is one for motion. -/
def HonoursMotion (m : SafetyStateMachine) (inputs : SafetyInputs) : Prop :=
  m.ReachesRequest inputs ∧ (inputs.request = .none ∨
    inputs.request = .safelyLimitedSpeed ∧ ¬ m.limits.limitedSpeed < inputs.speedMagnitude)

theorem advance_moving_iff (m : SafetyStateMachine) (inputs : SafetyInputs) :
    (m.advance inputs).state.Moving ↔ m.HonoursMotion inputs := by
  constructor
  · intro h
    have hc := advance_cycle m inputs
    generalize m.advance inputs = next at hc h
    cases hc with
    | demand | latched | tested | stopped | overran | violation | off | stop | hold =>
      simp [SafetyState.Moving, enterSafeTorqueOff] at h
    | testing _ _ hs | decelerating _ _ hs | holding _ _ hs => simp [SafetyState.Moving, hs] at h
    | limit hp hr _ hv => exact ⟨hp, Or.inr ⟨hr, hv⟩⟩
    | limiting hp hr hs => exact ⟨hp, Or.inr ⟨hr, hp.limitedSpeed hs⟩⟩
    | run hp hr => exact ⟨hp, Or.inl hr⟩
  · rintro ⟨hp, hr⟩
    have ht := hp.notTesting
    have hs := hp.notStopping
    rw [advance_of_reachesRequest hp]
    unfold requestedTransition SafetyState.Moving
    rcases hr with hr | ⟨hr, hv⟩
    · rw [hr]
      cases hm : m.state <;> simp_all
    · rw [hr]
      cases hm : m.state <;> simp_all

end SafetyStateMachine

/-- The permitted band of Safely Limited Position. -/
def InBand (limits : SafetyLimits) (position : Binary64) : Prop :=
  limits.positionMin ≤ position ∧ position ≤ limits.positionMax

instance (limits : SafetyLimits) (position : Binary64) : Decidable (InBand limits position) :=
  inferInstanceAs (Decidable (_ ∧ _))

/-- A cycle may honour a request for motion from a state that already permits motion, where
the band monitor has just run, or else at a position inside the band. -/
def MotionStartsInBand (m : SafetyStateMachine) (inputs : SafetyInputs) : Prop :=
  m.HonoursMotion inputs →
    if m.state.Moving then m.limits.positionMin.IsNumber ∧ m.limits.positionMax.IsNumber
    else InBand m.limits inputs.position

section Band
variable {m : SafetyStateMachine} {inputs : SafetyInputs}

/-- The cycle-level fact: motion is permitted inside the band exactly when it starts there. -/
theorem motion_in_band_cycle (he : m.limits.positionMonitoringEnabled = true)
    (hn : inputs.position.IsNumber) :
    ((m.evaluate inputs).2.motionPermitted = true → InBand m.limits inputs.position) ↔
      MotionStartsInBand m inputs := by
  simp only [SafetyStateMachine.evaluate_snd, SafetyStateMachine.outputsFor_motion,
    decide_eq_true_eq, SafetyStateMachine.advance_moving_iff, MotionStartsInBand]
  apply imp_congr_right
  rintro ⟨hp, _⟩
  split_ifs with hm
  · obtain ⟨hlo, hhi⟩ := hp.band he (Or.symm hm)
    constructor
    · rintro ⟨hl, hu⟩
      exact ⟨(Binary64.isNumber_of_le hl).1, (Binary64.isNumber_of_le hu).2⟩
    · rintro ⟨hl, hu⟩
      exact ⟨Binary64.le_of_not_lt hl hn hlo, Binary64.le_of_not_lt hn hu hhi⟩
  · exact Iff.rfl

end Band

theorem machineAt_limits (limits : SafetyLimits) (inputs : ℕ → SafetyInputs) (n : ℕ) :
    (machineAt limits (fun k => .evaluate (inputs k)) n).limits = limits := by
  apply stateAt_invariant (fun _ (m : SafetyStateMachine) => m.limits = limits) rfl
  intro k hk
  exact (SafetyStateMachine.advance_limits _ _).trans hk

/-- Along every run, each cycle that permits motion reads a position inside the band if and
only if no cycle starts motion outside it. -/
theorem motion_in_band_iff (limits : SafetyLimits) (inputs : ℕ → SafetyInputs)
    (he : limits.positionMonitoringEnabled = true) (hn : ∀ n, (inputs n).position.IsNumber) :
    (∀ n, ((machineAt limits (fun k => .evaluate (inputs k)) n).evaluate
        (inputs n)).2.motionPermitted = true → InBand limits (inputs n).position) ↔
      ∀ n, MotionStartsInBand (machineAt limits (fun k => .evaluate (inputs k)) n) (inputs n) := by
  apply forall_congr'
  intro n
  have hl := machineAt_limits limits inputs n
  rw [← motion_in_band_cycle (by rw [hl]; exact he) (hn n), hl]

/-- A unit band around the origin. -/
def bandLimits : SafetyLimits :=
  { limitedSpeed := .ofInt 10, positionMin := .ofInt (-1), positionMax := .ofInt 1
    positionMonitoringEnabled := true, standstillWindow := .ofInt 1, standstillSpeed := .ofInt 1 }

/-- The axis stands at 5, outside the band, when the host asks for motion. -/
def outsideInputs : SafetyInputs := { healthyInputs with position := .ofInt 5 }

/-- The axis is enabled at the origin and then found at 5. -/
def leavingInputs : ℕ → SafetyInputs
  | 0 | 1 | 2 => healthyInputs
  | _ => outsideInputs

theorem leavingInputs_latched (n : ℕ) :
    (machineAt bandLimits (fun k => .evaluate (leavingInputs k)) (n + 4)).fault ≠ .none := by
  induction n with
  | zero => decide +kernel
  | succ n ih =>
    intro hclear
    have hnext := @machineAt_succ_evaluate bandLimits (fun k => .evaluate (leavingInputs k)) (n + 4)
      _ rfl
    rw [show n + 1 + 4 = n + 4 + 1 by omega, hnext] at hclear
    exact Bool.false_ne_true ((SafetyStateMachine.advance_of_latched ih).2.mp hclear).1

theorem motion_in_band_iff_leaving :
    (∀ n, ((machineAt bandLimits (fun k => .evaluate (leavingInputs k)) n).evaluate
        (leavingInputs n)).2.motionPermitted = true →
        InBand bandLimits (leavingInputs n).position) ∧
      ((machineAt bandLimits (fun k => .evaluate (leavingInputs k)) 2).evaluate
        (leavingInputs 2)).2.motionPermitted = true ∧
      ¬ InBand bandLimits (leavingInputs 3).position := by
  refine ⟨(motion_in_band_iff bandLimits leavingInputs rfl fun n => ?_).mpr fun n hmotion => ?_,
    by decide +kernel, by decide +kernel⟩
  · unfold leavingInputs
    split <;> decide +kernel
  · rw [machineAt_limits]
    split_ifs with hmoving
    · exact ⟨by decide +kernel, by decide +kernel⟩
    · rcases Nat.lt_or_ge n 4 with hearly | hlate
      · have hheld : ∀ k < 4, ¬ (machineAt bandLimits (fun k => .evaluate (leavingInputs k))
            k).state.Moving → InBand bandLimits (leavingInputs k).position := by decide +kernel
        exact hheld n hearly hmoving
      · obtain ⟨k, rfl⟩ := Nat.exists_eq_add_of_le' hlate
        exact absurd hmotion.1.fault (leavingInputs_latched k)

theorem motion_granted_outside_band :
    bandLimits.positionMonitoringEnabled = true ∧ outsideInputs.position.IsNumber ∧
      ¬ ∀ n, ((machineAt bandLimits (fun _ => .evaluate outsideInputs) n).evaluate
        outsideInputs).2.motionPermitted = true → InBand bandLimits outsideInputs.position := by
  refine ⟨rfl, by decide +kernel, fun h => ?_⟩
  exact absurd (h 1 (by decide +kernel)) (by decide +kernel)

/-- Call `k` entered Operating Stop and the machine has not left it since, up to and
including call `n`. -/
def StayBegan (limits : SafetyLimits) (calls : ℕ → MachineCall) (k n : ℕ) : Prop :=
  k ≤ n ∧ (machineAt limits calls k).state ≠ .operatingStop ∧
    ∀ j, k < j → j ≤ n + 1 → (machineAt limits calls j).state = .operatingStop

/-- A call that ends in Operating Stop enters it, capturing the position just read, or
keeps the reference already held. -/
theorem call_operatingStop {m : SafetyStateMachine} {c : MachineCall}
    (h : (m.call c).state = .operatingStop) :
    (m.state ≠ .operatingStop ∧ ∃ entry, c = .evaluate entry ∧
      (m.call c).standstillReference = entry.position) ∨
    (m.state = .operatingStop ∧
      (m.call c).standstillReference = m.standstillReference) := by
  cases c with
  | evaluate inputs =>
    rcases (SafetyStateMachine.advance_operatingStop h).2 with ⟨hs, hr⟩ | ⟨hs, hsame, _⟩
    · exact Or.inl ⟨hs, inputs, rfl, hr⟩
    · exact Or.inr ⟨hs, congrArg SafetyStateMachine.standstillReference hsame⟩
  | forceFault reason => cases h
  | setLimits limits => exact Or.inr ⟨h, rfl⟩

/-- The reference held in Operating Stop is the position read when the current stay began. -/
theorem standstill_reference_of_stay (limits : SafetyLimits) (calls : ℕ → MachineCall) (n : ℕ)
    (hs : (machineAt limits calls (n + 1)).state = .operatingStop) :
    ∃ k entry, StayBegan limits calls k n ∧ calls k = .evaluate entry ∧
      (machineAt limits calls (n + 1)).standstillReference = entry.position := by
  induction n with
  | zero =>
    rcases call_operatingStop hs with ⟨hout, entry, hc, hr⟩ | ⟨hin, _⟩
    · refine ⟨0, entry, ⟨le_rfl, hout, ?_⟩, hc, hr⟩
      intro j hj hj'
      obtain rfl : j = 1 := by omega
      exact hs
    · cases hin
  | succ n ih =>
    rcases call_operatingStop hs with ⟨hout, entry, hc, hr⟩ | ⟨hin, hr⟩
    · refine ⟨n + 1, entry, ⟨le_rfl, hout, ?_⟩, hc, hr⟩
      intro j hj hj'
      obtain rfl : j = n + 2 := by omega
      exact hs
    · obtain ⟨k, entry, ⟨hk, hout, hstay⟩, hc, href⟩ := ih hin
      refine ⟨k, entry, ⟨by omega, hout, ?_⟩, hc, hr.trans href⟩
      intro j hj hj'
      rcases Nat.lt_or_ge j (n + 2) with hlt | hge
      · exact hstay j hj (by omega)
      · obtain rfl : j = n + 2 := by omega
        exact hs

/-- What the speed and standstill monitors are to promise about evaluation `n`, under the limits in
force in that cycle. -/
def MonitorsHold (limits : SafetyLimits) (calls : ℕ → MachineCall) (n : ℕ)
    (inputs : SafetyInputs) : Prop :=
  let m := machineAt limits calls n
  ((m.evaluate inputs).2.state = .limitedSpeed →
    inputs.speedMagnitude ≤ m.limits.limitedSpeed) ∧
  ((m.evaluate inputs).2.state = .operatingStop →
    inputs.speedMagnitude ≤ m.limits.standstillSpeed ∧
    ∃ k entry, StayBegan limits calls k n ∧ calls k = .evaluate entry ∧
      inputs.position.Within entry.position m.limits.standstillWindow)

def NumberReadings (inputs : SafetyInputs) : Prop :=
  inputs.speedMagnitude.IsNumber ∧ inputs.position.IsNumber

instance (inputs : SafetyInputs) : Decidable (NumberReadings inputs) :=
  inferInstanceAs (Decidable (_ ∧ _))

/-- A comparison that did not fire bounds the reading exactly if the limit is a number. -/
theorem le_iff_isNumber_of_not_lt {reading limit : Binary64} (hreading : reading.IsNumber)
    (h : ¬ limit < reading) : reading ≤ limit ↔ limit.IsNumber :=
  ⟨fun hle => (Binary64.isNumber_of_le hle).2,
    fun hlimit => Binary64.le_of_not_lt hreading hlimit h⟩

/-- The position held in Operating Stop is within the window of the one read when the current stay
began. -/
theorem within_window_of_stay (limits : SafetyLimits) (calls : ℕ → MachineCall)
    (hread : ∀ n inputs, calls n = .evaluate inputs → NumberReadings inputs) {n : ℕ}
    {inputs : SafetyInputs} (hc : calls n = .evaluate inputs)
    (hstate : ((machineAt limits calls n).advance inputs).state = .operatingStop)
    (hwindow : 0 ≤ (machineAt limits calls n).limits.standstillWindow) :
    ∃ k entry, StayBegan limits calls k n ∧ calls k = .evaluate entry ∧
      inputs.position.Within entry.position (machineAt limits calls n).limits.standstillWindow := by
  have hnext : machineAt limits calls (n + 1) =
      (machineAt limits calls n).advance inputs := machineAt_succ_evaluate hc
  obtain ⟨k, entry, hstay, hck, href⟩ :=
    standstill_reference_of_stay limits calls n (by rw [hnext]; exact hstate)
  refine ⟨k, entry, hstay, hck, ?_⟩
  rw [hnext] at href
  rcases (SafetyStateMachine.advance_operatingStop hstate).2 with
    ⟨_, hcapture⟩ | ⟨_, hsame, hdrift⟩
  · exact Or.inr ⟨hcapture.symm.trans href, hwindow⟩
  · rw [← href, hsame]
    apply Binary64.within_of_not_lt (hread n inputs hc).2 _ hwindow hdrift
    rw [← hsame, href]
    exact (hread k entry hck).2

/-- The speed and standstill monitors hold in the very cycle they are evaluated, each exactly if the
limit it compares with in that cycle is a number. Distances are those of binary64 arithmetic. -/
theorem monitors_hold (limits : SafetyLimits) (calls : ℕ → MachineCall)
    (hread : ∀ n inputs, calls n = .evaluate inputs → NumberReadings inputs)
    (n : ℕ) (inputs : SafetyInputs) (hc : calls n = .evaluate inputs) :
    (((machineAt limits calls n).evaluate inputs).2.state = .limitedSpeed →
      (inputs.speedMagnitude ≤ (machineAt limits calls n).limits.limitedSpeed ↔
        (machineAt limits calls n).limits.limitedSpeed.IsNumber)) ∧
    (((machineAt limits calls n).evaluate inputs).2.state = .operatingStop →
      (inputs.speedMagnitude ≤ (machineAt limits calls n).limits.standstillSpeed ↔
        (machineAt limits calls n).limits.standstillSpeed.IsNumber) ∧
      (0 ≤ (machineAt limits calls n).limits.standstillWindow →
        ∃ k entry, StayBegan limits calls k n ∧ calls k = .evaluate entry ∧
          inputs.position.Within entry.position
            (machineAt limits calls n).limits.standstillWindow)) := by
  obtain ⟨hspeed, -⟩ := hread n inputs hc
  simp only [SafetyStateMachine.evaluate_snd, SafetyStateMachine.outputsFor_state]
  refine ⟨fun hstate => ?_, fun hstate => ⟨?_, ?_⟩⟩
  · exact le_iff_isNumber_of_not_lt hspeed (SafetyStateMachine.advance_limitedSpeed hstate)
  · exact le_iff_isNumber_of_not_lt hspeed (SafetyStateMachine.advance_operatingStop hstate).1
  · exact within_window_of_stay limits calls hread hc hstate

/-- The axis is enabled, brought to a hold at the origin and moved by half the window, with a
limited speed that is not a number. -/
def holdInputs : ℕ → SafetyInputs
  | 0 | 1 => healthyInputs
  | 2 => { healthyInputs with request := .safeOperatingStop }
  | _ =>
    { healthyInputs with
      request := .safeOperatingStop
      position := (Binary64.ofInt 1).divNat 2 }

def holdLimits : SafetyLimits :=
  { limitedSpeed := .nan, standstillWindow := .ofInt 1, standstillSpeed := .ofInt 1 }

theorem holdInputs_numbers (n : ℕ) : NumberReadings (holdInputs n) := by
  unfold holdInputs
  split <;> decide +kernel

theorem monitors_hold_standstill :
    ((machineAt holdLimits (fun n => .evaluate (holdInputs n)) 3).evaluate
        (holdInputs 3)).2.state = .operatingStop ∧
      (holdInputs 3).speedMagnitude ≤ holdLimits.standstillSpeed ∧
      ∃ k entry, StayBegan holdLimits (fun n => .evaluate (holdInputs n)) k 3 ∧
        MachineCall.evaluate (holdInputs k) = .evaluate entry ∧
        (holdInputs 3).position.Within entry.position holdLimits.standstillWindow := by
  have hstate : ((machineAt holdLimits (fun n => .evaluate (holdInputs n)) 3).evaluate
      (holdInputs 3)).2.state = .operatingStop := by decide +kernel
  have hlimits := machineAt_limits holdLimits holdInputs 3
  obtain ⟨hspeed, hposition⟩ := (monitors_hold holdLimits (fun n => .evaluate (holdInputs n))
    (fun n inputs hc => MachineCall.evaluate.inj hc ▸ holdInputs_numbers n) 3 _ rfl).2 hstate
  rw [hlimits] at hspeed hposition
  exact ⟨hstate, hspeed.mpr (by decide +kernel), hposition (by decide +kernel)⟩

/-- A limited speed that is not a number: no reading compares above it. -/
def nanLimits : SafetyLimits := { limitedSpeed := .nan }

def limitedInputs : SafetyInputs := { healthyInputs with request := .safelyLimitedSpeed }

/-- The same of the standstill speed. -/
def nanStandstillLimits : SafetyLimits :=
  { standstillSpeed := .nan, standstillWindow := .ofInt 1 }

/-- The axis is held just below the origin and then read at 1. -/
def driftInputs : ℕ → SafetyInputs
  | 0 | 1 => healthyInputs
  | 2 =>
    { healthyInputs with
      request := .safeOperatingStop
      position := .ofUnits (-2 ^ 1014) }
  | _ => { healthyInputs with request := .safeOperatingStop, position := .ofInt 1 }

theorem driftInputs_numbers (n : ℕ) : NumberReadings (driftInputs n) := by
  unfold driftInputs
  split <;> decide +kernel

/-- Where a speed limit is not a number no reading is at or below it. In the third run the hold goes
on although the exact distance, in units of the smallest subnormal, exceeds the window. -/
theorem limits_unmonitored :
    (NumberReadings limitedInputs ∧ 0 ≤ nanLimits.standstillWindow ∧
      ¬ MonitorsHold nanLimits (fun _ => .evaluate limitedInputs) 1 limitedInputs) ∧
    ((∀ n, NumberReadings (holdInputs n)) ∧ 0 ≤ nanStandstillLimits.standstillWindow ∧
      ¬ MonitorsHold nanStandstillLimits (fun n => .evaluate (holdInputs n)) 3 (holdInputs 3)) ∧
    (∀ n, NumberReadings (driftInputs n)) ∧ 0 ≤ holdLimits.standstillWindow ∧
      StayBegan holdLimits (fun n => .evaluate (driftInputs n)) 2 3 ∧
      ∃ position reference window : ℤ, (driftInputs 3).position.units = some position ∧
        (driftInputs 2).position.units = some reference ∧
        holdLimits.standstillWindow.units = some window ∧ window < |position - reference| := by
  refine ⟨⟨by decide, by decide, fun h => ?_⟩,
    ⟨holdInputs_numbers, by decide +kernel, fun h => ?_⟩, driftInputs_numbers, by decide +kernel,
    ⟨by decide, by decide +kernel, ?_⟩, 2 ^ 1074, -2 ^ 1014, 2 ^ 1074, ?_⟩
  · exact absurd (h.1 (by decide)) (by decide)
  · exact absurd (h.2 (by decide +kernel)).1 (by decide)
  · intro j hj hj'
    interval_cases j <;> decide +kernel
  · decide +kernel

end SafeEdge.Safety
