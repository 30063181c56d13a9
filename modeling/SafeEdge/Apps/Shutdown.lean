import SafeEdge.Apps.EmergencyStop

/-! The snapshot that a shutdown of the daemon leaves behind. -/
namespace SafeEdge.Apps
open Library Safety Rt

/-- Cycle `n` is run and is the last one: a stop has been requested by its end. -/
structure Boot.LastCycle (boot : Boot) (readings : ℕ → CycleReadings CallbackReadings) (n : ℕ) :
    Prop where
  runs : (boot.loopAt readings n).Continues
  returns : ¬ (boot.loopAt readings (n + 1)).Continues

/-- What takes torque away in cycle `n`: a period beyond the watchdog, the start, the emergency
stop, or an earlier emergency stop since which no cycle has taken an acknowledgement with the stop
clear. -/
def TorqueWithheld (frequency : Frequency) (readings : ℕ → CycleReadings CallbackReadings)
    (n : ℕ) : Prop :=
  watchdogNs < (executorConfig frequency).periodNs ∨ n = 0 ∨
    (readings n).callback.estopAsserted = true ∨
    ∃ m < n, (readings m).callback.estopAsserted = true ∧
      ∀ j, m < j → j < n → (readings j).callback.acknowledged = true →
        (readings j).callback.estopAsserted = true

theorem published_torque_eq_zero_iff (boot : Boot) {readings : ℕ → CycleReadings CallbackReadings}
    {n : ℕ} (hruns : (boot.loopAt readings n).Continues) :
    (boot.loopAt readings (n + 1)).captured.published.torquePermitted = 0 ↔
      torqueAt boot readings n = false := by
  obtain ⟨stats, hcaptured⟩ := Boot.loopAt_captured hruns
  rw [torqueAt, hcaptured, (ControlThread.cycle_published stats).1]
  split_ifs <;> decide

/-- Once the control loop has returned, the last snapshot denies torque exactly if something
other than the shutdown took it away in the last cycle. -/
theorem shutdown_safe_iff (boot : Boot) (readings : ℕ → CycleReadings CallbackReadings) (n : ℕ)
    (hlast : boot.LastCycle readings n)
    (hfits : (executorConfig boot.frequency).periodNs * n < 2 ^ 63) (m : ℕ) (hm : n < m) :
    (boot.loopAt readings m).captured.published.torquePermitted = 0 ↔
      TorqueWithheld boot.frequency readings n := by
  have hreturned : boot.loopAt readings m = boot.loopAt readings (n + 1) :=
    CyclicExecutor.executorAt_of_ended hlast.returns hm
  rw [hreturned, published_torque_eq_zero_iff boot hlast.runs, ← Bool.not_eq_true,
    torqueAt_iff hlast.runs hfits, TorqueWithheld]
  simp only [not_and_or, not_le, not_lt, Nat.le_zero, Bool.not_eq_false]
  push Not
  simp only [ne_eq, Bool.not_eq_false]

/-- A daemon at 1 kHz whose emergency stop is asserted in one cycle at most, and to which the
signal comes in another. -/
def signalledReadings (pressed : Option ℕ) (signalled k : ℕ) : CycleReadings CallbackReadings where
  wokeNs := 1000000 * (k + 1)
  callback :=
    { estopAsserted := decide (pressed = some k), acknowledged := false
      estopPublished := decide (pressed = some k), shutdownRequested := decide (signalled ≤ k) }
  finishedNs := 1000000 * (k + 1)

/-- The signal comes in the sixth cycle. If the emergency stop was asserted in the third one the
last snapshot denies torque, without it the snapshot permits torque. -/
theorem shutdown_safe_iff_pressed :
    (oneKilohertz.loopAt (signalledReadings (some 2) 5) 6).captured.published.torquePermitted = 0 ∧
    (oneKilohertz.loopAt (signalledReadings none 5) 6).captured.published.torquePermitted ≠ 0 := by
  have hpressed : oneKilohertz.LastCycle (signalledReadings (some 2) 5) 5 :=
    ⟨by decide +kernel, by decide +kernel⟩
  have hquiet : oneKilohertz.LastCycle (signalledReadings none 5) 5 :=
    ⟨by decide +kernel, by decide +kernel⟩
  constructor
  · refine (shutdown_safe_iff oneKilohertz _ 5 hpressed (by decide) 6 (by decide)).mpr ?_
    exact .inr (.inr (.inr ⟨2, by decide, rfl, fun j _ _ hack => (Bool.false_ne_true hack).elim⟩))
  · refine (shutdown_safe_iff oneKilohertz _ 5 hquiet (by decide) 6 (by decide)).not.mpr ?_
    rintro (hwindow | hfirst | hestop | ⟨m, -, hestop, -⟩)
    · exact absurd hwindow (by decide)
    · exact absurd hfirst (by decide)
    · exact Bool.false_ne_true hestop
    · exact Bool.false_ne_true hestop

/-- The signal comes in the second cycle: the loop returns after it, and the last snapshot still
permits torque. -/
theorem shutdown_with_torque : oneKilohertz.LastCycle (signalledReadings none 1) 1 ∧
    (oneKilohertz.loopAt (signalledReadings none 1) 2).captured.published.torquePermitted = 1 := by
  have hlast : oneKilohertz.LastCycle (signalledReadings none 1) 1 := ⟨by decide, by decide⟩
  have hhealthy := healthyCycle_of_withinWatchdog (fun _ _ => rfl) hlast.runs (by decide)
    (by decide)
  exact ⟨hlast, published_torque_of_outputs hlast.runs (hhealthy.torque le_rfl)⟩

end SafeEdge.Apps
