import SafeEdge.Apps.PublishedSnapshots
import SafeEdge.Safety.Monitors

/-! The daemon's supervisor over every run of the control loop. -/
namespace SafeEdge.Apps
open Library Safety Rt

/-- What the callback fills in the same way in every cycle. -/
structure DaemonInputs (inputs : SafetyInputs) : Prop where
  selfTest : inputs.selfTestPassed = true
  request : inputs.request = .safelyLimitedSpeed
  speed : inputs.speedMagnitude = .ofInt 5

/-- A channel of the daemon, between any two cycles. -/
structure DaemonChannel (m : SafetyStateMachine) : Prop where
  limits : m.limits = supervisorConfig.limits
  state : m.state = .selfTest ∨ m.state = .safeTorqueOff ∨ m.state = .limitedSpeed

namespace DaemonChannel
variable {m : SafetyStateMachine} {inputs : SafetyInputs}

/-- Once the self test is over there are two states left. -/
theorem advance_state (h : DaemonChannel m) (hinputs : DaemonInputs inputs) :
    (m.advance inputs).state = .safeTorqueOff ∨ (m.advance inputs).state = .limitedSpeed := by
  have hc := SafetyStateMachine.advance_cycle m inputs
  generalize m.advance inputs = next at hc
  cases hc with
  | demand | latched | tested | stopped | overran | violation | off => exact Or.inl rfl
  | testing _ _ _ ht => simp [hinputs.selfTest] at ht
  | decelerating _ _ hs => rcases h.state with hm | hm | hm <;> simp [hm] at hs
  | stop _ hr | hold _ hr | holding _ hr | run _ hr => simp [hinputs.request] at hr
  | limit => exact Or.inr rfl
  | limiting _ _ hs => exact Or.inr hs

theorem advance (h : DaemonChannel m) (hinputs : DaemonInputs inputs) :
    DaemonChannel (m.advance inputs) :=
  ⟨(SafetyStateMachine.advance_limits m inputs).trans h.limits,
    Or.inr (h.advance_state hinputs)⟩

/-- The daemon has torque exactly when nothing speaks against it. -/
theorem energised_iff (h : DaemonChannel m) (hinputs : DaemonInputs inputs) :
    (m.advance inputs).state.Energised ↔
      m.state ≠ .selfTest ∧ unconditionalDemandActive inputs = false ∧ m.fault = .none := by
  constructor
  · intro henergised
    obtain ⟨hdemand, hfault, htested, _⟩ := SafetyStateMachine.advance_energised henergised
    exact ⟨htested, hdemand, hfault⟩
  · rintro ⟨htested, hdemand, hfault⟩
    have hstate := h.state.resolve_left htested
    have hreaches := reachesRequest_of_limits h.limits hinputs.speed hstate hfault hdemand
    apply SafetyState.moving_energised
    rw [SafetyStateMachine.advance_moving_iff]
    exact ⟨hreaches, Or.inr ⟨hinputs.request, speed_within_limit h.limits hinputs.speed⟩⟩

end DaemonChannel

/-- The supervisor of the daemon between any two cycles. Its channels are given the same inputs
and so never part. -/
structure DaemonSupervisor (s : DualChannelSupervisor) : Prop where
  channel : DaemonChannel s.channelA
  together : s.channelB = s.channelA
  unlatched : s.discrepancyLatched = false

namespace DaemonSupervisor
variable {s : DualChannelSupervisor} {inputs : SafetyInputs} (nowNs : ℤ)

theorem not_raises (h : DaemonSupervisor s) :
    ¬ s.RaisesDiscrepancy ⟨inputs, inputs, nowNs⟩ := by
  rintro ⟨hdisagrees, _⟩
  apply hdisagrees
  unfold DualChannelSupervisor.returnedState
  simp only [DualChannelSupervisor.channel, SupervisorCycle.inputs, h.together]

theorem channelA_evaluate (h : DaemonSupervisor s) :
    (s.evaluate ⟨inputs, inputs, nowNs⟩).1.channelA = s.channelA.advance inputs :=
  (DualChannelSupervisor.channels_of_not_raises (h.not_raises nowNs)).1

theorem evaluate (h : DaemonSupervisor s) (hinputs : DaemonInputs inputs) :
    DaemonSupervisor (s.evaluate ⟨inputs, inputs, nowNs⟩).1 := by
  obtain ⟨ha, hb⟩ := DualChannelSupervisor.channels_of_not_raises (@not_raises _ inputs nowNs h)
  refine ⟨?_, ?_, ?_⟩
  · rw [ha]
    exact h.channel.advance hinputs
  · rw [ha, hb, h.together]
  · exact DualChannelSupervisor.unlatched_of_not_raises h.unlatched (h.not_raises nowNs)

theorem torque (h : DaemonSupervisor s) (hinputs : DaemonInputs inputs) :
    (s.evaluate ⟨inputs, inputs, nowNs⟩).2.torquePermitted =
      decide (s.channelA.advance inputs).state.Energised := by
  rw [DualChannelSupervisor.evaluate_snd, (h.evaluate nowNs hinputs).unlatched]
  simp [combine, h.together]

end DaemonSupervisor

namespace ControlThread
variable (thread : ControlThread) (readings : CallbackReadings) (nowNs : ℤ)

theorem exchange_supervisor : (thread.exchange nowNs).supervisor = thread.supervisor := by
  simp only [exchange]
  split_ifs <;> rfl

theorem safetyInputs_daemon : DaemonInputs (thread.safetyInputs readings nowNs) :=
  ⟨rfl, rfl, by simp only [safetyInputs]⟩

theorem safetyInputs_demand :
    unconditionalDemandActive (thread.safetyInputs readings nowNs) =
      (readings.estopAsserted || thread.receiver.safeState) := by
  simp [unconditionalDemandActive, safetyInputs]

variable {thread}

theorem cycle_daemonSupervisor (h : DaemonSupervisor thread.supervisor) (stats : ExecutorStats) :
    DaemonSupervisor (thread.cycle stats readings nowNs).supervisor ∧
      (thread.cycle stats readings nowNs).supervisor.channelA.state ≠ .selfTest := by
  rw [(cycle_frame thread stats readings nowNs).1]
  rw [← exchange_supervisor thread nowNs] at h
  have hinputs := (thread.exchange nowNs).safetyInputs_daemon readings nowNs
  refine ⟨h.evaluate nowNs hinputs, ?_⟩
  change ((thread.exchange nowNs).supervisor.evaluate _).1.channelA.state ≠ .selfTest
  rw [h.channelA_evaluate nowNs]
  rcases h.channel.advance_state hinputs with hs | hs <;> simp [hs]

/-- The torque of one cycle, from what the cycle finds and reads. -/
theorem outputs_torque_iff (h : DaemonSupervisor thread.supervisor) :
    (thread.outputs readings nowNs).torquePermitted = true ↔
      thread.supervisor.channelA.state ≠ .selfTest ∧ readings.estopAsserted = false ∧
        (thread.exchange nowNs).receiver.safeState = false ∧
        thread.supervisor.channelA.fault = .none := by
  rw [← exchange_supervisor thread nowNs] at h ⊢
  have hinputs := (thread.exchange nowNs).safetyInputs_daemon readings nowNs
  have htorque : (thread.outputs readings nowNs).torquePermitted = _ := h.torque nowNs hinputs
  rw [htorque, decide_eq_true_eq, h.channel.energised_iff hinputs, safetyInputs_demand,
    Bool.or_eq_false_iff, and_assoc]

end ControlThread

section Run
variable {boot : Boot} {readings : ℕ → CycleReadings CallbackReadings} {n : ℕ}

/-- Before every cycle that is run the supervisor is as the daemon keeps it, and it is in its
self test before the first cycle only. -/
theorem loopAt_daemonSupervisor (hruns : (boot.loopAt readings n).Continues) :
    DaemonSupervisor (boot.loopAt readings n).captured.supervisor ∧
      ((boot.loopAt readings n).captured.supervisor.channelA.state = .selfTest ↔ n = 0) := by
  induction n with
  | zero => exact ⟨⟨⟨rfl, Or.inl rfl⟩, rfl, rfl⟩, iff_of_true rfl rfl⟩
  | succ n ih =>
    have hbefore : (boot.loopAt readings n).Continues := CyclicExecutor.continues_of_succ hruns
    obtain ⟨stats, hcaptured⟩ := Boot.loopAt_captured hbefore
    rw [hcaptured]
    obtain ⟨hsupervisor, htested⟩ := ControlThread.cycle_daemonSupervisor
      (readings n).callback (boot.nowAt readings n) (ih hbefore).1 stats
    exact ⟨hsupervisor, iff_of_false htested (Nat.succ_ne_zero n)⟩

end Run

end SafeEdge.Apps
