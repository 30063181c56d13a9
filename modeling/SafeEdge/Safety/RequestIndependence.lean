import SafeEdge.Safety.Monitors

/-! A cycle that reacts to a demand, a fault or a violated limit does not depend on what the
host requests, and a cycle without a latched fault does not depend on the acknowledgement. -/
namespace SafeEdge.Safety

/-- The two inputs differ at most in the function requested. -/
def SafetyInputs.AgreeExceptRequest (first second : SafetyInputs) : Prop :=
  second = { first with request := second.request }

/-- The two inputs differ at most in the acknowledgement. -/
def SafetyInputs.AgreeExceptAcknowledge (first second : SafetyInputs) : Prop :=
  second = { first with acknowledge := second.acknowledge }

namespace SafetyStateMachine

/-- The conditions under which a cycle is a reaction rather than an answer to the host. -/
inductive Reacts (m : SafetyStateMachine) (inputs : SafetyInputs) : Prop
  | testing (hs : m.state = .selfTest)
  | stopping (hs : m.state = .stopping)
  | latched (hf : m.fault ≠ .none)
  | demand (hd : unconditionalDemandActive inputs = true)
  | speed (hs : m.state = .limitedSpeed) (hv : m.limits.limitedSpeed < inputs.speedMagnitude)
  | deviation (hs : m.state = .operatingStop)
      (hv : m.limits.standstillWindow < (inputs.position - m.standstillReference).fabs ∨
        m.limits.standstillSpeed < inputs.speedMagnitude)
  | band (hs : m.state = .operational ∨ m.state = .limitedSpeed)
      (he : m.limits.positionMonitoringEnabled = true)
      (hv : inputs.position < m.limits.positionMin ∨ m.limits.positionMax < inputs.position)

variable {m : SafetyStateMachine} {inputs : SafetyInputs}

theorem Reacts.not_reachesRequest (h : m.Reacts inputs) : ¬ m.ReachesRequest inputs := by
  intro hp
  cases h with
  | testing hs => exact hp.notTesting hs
  | stopping hs => exact hp.notStopping hs
  | latched hf => exact hf hp.fault
  | demand hd => exact absurd hd (by simp [hp.demand])
  | speed hs hv => exact hp.limitedSpeed hs hv
  | deviation hs hv => exact not_or.mpr (hp.standstill hs) hv
  | band hs he hv => exact not_or.mpr (hp.band he hs) hv

/-- No monitor reads the request. -/
theorem advance_withRequest (h : ¬ m.ReachesRequest inputs) (request : SafetyFunction) :
    m.advance { inputs with request } = m.advance inputs := by
  unfold advance
  by_cases hd : unconditionalDemandActive inputs = true
  · rw [if_pos hd]
    exact if_pos hd
  by_cases hf : m.fault = .none
  · have hd' : unconditionalDemandActive inputs = false := by simpa using hd
    cases hs : m.stateMonitor inputs with
    | some ended =>
      have hs' : m.stateMonitor { inputs with request } = some ended := hs
      simp [unconditionalDemandActive, unconditionalDemandReason, hf, hs']
    | none =>
      cases hp : m.positionMonitor inputs with
      | some ended =>
        have hs' : m.stateMonitor { inputs with request } = none := hs
        have hp' : m.positionMonitor { inputs with request } = some ended := hp
        simp [unconditionalDemandActive, unconditionalDemandReason, hf, hs', hp']
      | none =>
        obtain ⟨htesting, hstopping, hlimited, hstandstill⟩ := stateMonitor_none hs
        exact absurd ⟨hd', hf, htesting, hstopping, hlimited, hstandstill,
          positionMonitor_none hp⟩ h
  · simp [unconditionalDemandActive, unconditionalDemandReason, hf]

theorem advance_withAcknowledge (hf : m.fault = .none) (inputs : SafetyInputs)
    (acknowledge : Bool) : m.advance { inputs with acknowledge } = m.advance inputs := by
  simp only [advance, hf, ne_eq, not_true_eq_false, if_false]
  rfl

/-- In every state: two inputs that differ only in the request have the same outcome, without
motion, whenever the cycle is a reaction; two inputs that differ only in the acknowledgement
have the same outcome whenever no fault is latched. -/
theorem request_independence (m : SafetyStateMachine) :
    (∀ first second : SafetyInputs, first.AgreeExceptRequest second → m.Reacts first →
      m.evaluate first = m.evaluate second ∧
        (m.evaluate first).2.motionPermitted = false ∧
        (m.evaluate second).2.motionPermitted = false) ∧
    (∀ first second : SafetyInputs, first.AgreeExceptAcknowledge second → m.fault = .none →
      m.evaluate first = m.evaluate second) := by
  constructor
  · intro first second hagree hreacts
    have hnot := hreacts.not_reachesRequest
    have hsame : m.evaluate first = m.evaluate second := by
      have hadvance : m.advance second = m.advance first := by
        rw [hagree]
        exact advance_withRequest hnot second.request
      simp only [evaluate, hadvance]
    have hstill : (m.evaluate first).2.motionPermitted = false := by
      have hmoving : ¬ (m.advance first).state.Moving :=
        fun hmoving => hnot ((advance_moving_iff m first).mp hmoving).1
      simpa using hmoving
    exact ⟨hsame, hstill, hsame ▸ hstill⟩
  · intro first second hagree hf
    have hadvance : m.advance second = m.advance first := by
      rw [hagree]
      exact advance_withAcknowledge hf first second.acknowledge
    simp only [evaluate, hadvance]

end SafetyStateMachine
end SafeEdge.Safety
