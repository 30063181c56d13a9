import SafeEdge.Library.Run
import SafeEdge.Safety.Cycle

/-! Runs of one `SafetyStateMachine` from power-on, and the self test as a gate in front of
torque. -/
namespace SafeEdge.Safety
open Library

inductive MachineCall where
  | evaluate (inputs : SafetyInputs)
  | forceFault (reason : FaultReason)
  | setLimits (limits : SafetyLimits)

def SafetyStateMachine.call (m : SafetyStateMachine) : MachineCall → SafetyStateMachine
  | .evaluate inputs => (m.evaluate inputs).1
  | .forceFault reason => m.forceFault reason
  | .setLimits limits => m.setLimits limits

def powerOn (limits : SafetyLimits) : SafetyStateMachine := { limits := limits }

/-- The machine before call `n` of a run from power-on. -/
def machineAt (limits : SafetyLimits) (calls : ℕ → MachineCall) : ℕ → SafetyStateMachine :=
  stateAt SafetyStateMachine.call (powerOn limits) calls

theorem machineAt_succ {limits : SafetyLimits} {calls : ℕ → MachineCall} (n : ℕ) :
    machineAt limits calls (n + 1) = (machineAt limits calls n).call (calls n) := rfl

theorem machineAt_succ_evaluate {limits : SafetyLimits} {calls : ℕ → MachineCall} {n : ℕ}
    {inputs : SafetyInputs} (hc : calls n = .evaluate inputs) :
    machineAt limits calls (n + 1) = (machineAt limits calls n).advance inputs := by
  rw [machineAt_succ, hc]
  rfl

/-- Diagnostics gate enabling: no evaluation permits torque unless it, or one before it, was
told that the self test passed. -/
def DiagnosticsGate (limits : SafetyLimits) (calls : ℕ → MachineCall) : Prop :=
  ∀ n inputs, calls n = .evaluate inputs →
    ((machineAt limits calls n).evaluate inputs).2.torquePermitted = true →
    ∃ k ≤ n, ∃ earlier, calls k = .evaluate earlier ∧ earlier.selfTestPassed = true

/-- A call that does not drive the machine out of its self test by a demand or a forced
fault. -/
def KeepsSelfTest (m : SafetyStateMachine) : MachineCall → Prop
  | .evaluate inputs => m.state = .selfTest → unconditionalDemandActive inputs = false
  | .forceFault _ => m.state ≠ .selfTest
  | .setLimits _ => True

/-- Either the machine is still in a fault-free self test or diagnostics have passed. -/
def DiagnosticsSeen (calls : ℕ → MachineCall) (n : ℕ) (m : SafetyStateMachine) : Prop :=
  (m.state = .selfTest ∧ m.fault = .none) ∨
    ∃ k < n, ∃ earlier, calls k = .evaluate earlier ∧ earlier.selfTestPassed = true

theorem advance_selfTest {m : SafetyStateMachine} {inputs : SafetyInputs}
    (hs : m.state = .selfTest) (hf : m.fault = .none)
    (hd : unconditionalDemandActive inputs = false) :
    m.advance inputs = m ∨ inputs.selfTestPassed = true := by
  cases ht : inputs.selfTestPassed with
  | true => exact Or.inr rfl
  | false =>
    left
    simp [SafetyStateMachine.advance, SafetyStateMachine.stateMonitor, hd, hf, hs, ht]

theorem diagnosticsSeen_call {calls : ℕ → MachineCall} {n : ℕ} {m : SafetyStateMachine}
    (hk : KeepsSelfTest m (calls n)) (h : DiagnosticsSeen calls n m) :
    DiagnosticsSeen calls (n + 1) (m.call (calls n)) := by
  rcases h with ⟨hs, hf⟩ | ⟨k, hkn, hpass⟩
  · cases hc : calls n with
    | evaluate inputs =>
      rw [hc] at hk
      rcases advance_selfTest hs hf (hk hs) with hsame | hpass
      · exact Or.inl (by simpa [SafetyStateMachine.call, hsame] using ⟨hs, hf⟩)
      · exact Or.inr ⟨n, Nat.lt_succ_self n, inputs, hc, hpass⟩
    | forceFault reason =>
      rw [hc] at hk
      exact absurd hs hk
    | setLimits limits => exact Or.inl ⟨hs, hf⟩
  · exact Or.inr ⟨k, hkn.trans (Nat.lt_succ_self n), hpass⟩

/-- As long as nothing drives the machine out of its self test, torque waits for the
diagnostics. -/
theorem torque_after_diagnostics (limits : SafetyLimits) (calls : ℕ → MachineCall)
    (h : ∀ n, KeepsSelfTest (machineAt limits calls n) (calls n)) :
    DiagnosticsGate limits calls := by
  intro n inputs _ ht
  have hseen : DiagnosticsSeen calls n (machineAt limits calls n) :=
    stateAt_invariant (DiagnosticsSeen calls) (Or.inl ⟨rfl, rfl⟩)
      (fun k hk => diagnosticsSeen_call (h k) hk) n
  have hst : (machineAt limits calls n).state ≠ .selfTest :=
    (SafetyStateMachine.advance_energised (by simpa using ht)).2.2.1
  rcases hseen with ⟨hs, _⟩ | ⟨k, hkn, hpass⟩
  · exact absurd hs hst
  · exact ⟨k, hkn.le, hpass⟩

/-- Inputs of a healthy machine whose host asks for unrestricted motion. -/
def healthyInputs : SafetyInputs :=
  { emergencyStopAsserted := false, communicationOk := true, heartbeatOk := true
    selfTestPassed := true, request := .none }

theorem torque_after_diagnostics_healthy :
    DiagnosticsGate {} (fun _ => .evaluate healthyInputs) ∧
      ((machineAt {} (fun _ => .evaluate healthyInputs) 1).evaluate
        healthyInputs).2.torquePermitted = true :=
  ⟨torque_after_diagnostics {} _ (fun _ _ => by decide), by decide⟩

/-- An emergency stop during the self test, its acknowledgement, then a request for motion:
the diagnostics never report success. -/
def bypassCalls : ℕ → MachineCall
  | 0 => .evaluate {}
  | 1 => .evaluate { healthyInputs with selfTestPassed := false, acknowledge := true }
  | _ => .evaluate { healthyInputs with selfTestPassed := false }

theorem diagnostics_bypassed : ¬ DiagnosticsGate {} bypassCalls := by
  intro h
  obtain ⟨k, hk, earlier, hc, hp⟩ := h 2 _ rfl (by decide)
  have hfail : ∀ k ≤ 2, ∀ i, bypassCalls k = .evaluate i → i.selfTestPassed = false := by
    intro k hk i hi
    interval_cases k <;> simp only [bypassCalls, MachineCall.evaluate.injEq] at hi <;>
      subst hi <;> rfl
  rw [hfail k hk earlier hc] at hp
  exact Bool.false_ne_true hp

end SafeEdge.Safety
