import SafeEdge.Apps.HealthyDaemon

/-! The time the callback hands to the receiver and to the supervisor, against the deadlines
of the executor that calls it. -/
namespace SafeEdge.Apps
open Library Safety Rt

section Run
variable {boot : Boot} {readings : ℕ → CycleReadings CallbackReadings} {n : ℕ}

/-- Between two cycles the callback's time advances by one period. -/
theorem nowAt_succ_sub (hruns : (boot.loopAt readings (n + 1)).Continues)
    (hfits : (executorConfig boot.frequency).periodNs * (n + 1) < 2 ^ 63) :
    boot.nowAt readings (n + 1) - boot.nowAt readings n =
      (executorConfig boot.frequency).periodNs := by
  have hbefore : (boot.loopAt readings n).Continues := CyclicExecutor.continues_of_succ hruns
  rw [← Nat.cast_succ] at hfits
  rw [Boot.nowAt_eq hruns hfits, Boot.nowAt_eq hbefore (periodNs_mul_lt_of_succ hfits)]
  push_cast
  ring

/-- Between two cycles the deadline advances by one period exactly if the first ends before the
second is due. -/
theorem deadlineNs_succ_sub_eq_iff (hruns : (boot.loopAt readings n).Continues) :
    (boot.loopAt readings (n + 1)).deadlineNs - (boot.loopAt readings n).deadlineNs =
        (executorConfig boot.frequency).periodNs ↔
      (readings n).finishedNs < (boot.loopAt readings n).deadlineNs +
        (executorConfig boot.frequency).periodNs := by
  have hconfig := boot.loopAt_config readings n
  have hpolicy : (boot.loopAt readings n).config.overrunPolicy = .skipMissed := by
    rw [hconfig]
    rfl
  have hnext : boot.loopAt readings (n + 1) =
      (boot.loopAt readings n).cycle cycle (readings n) := CyclicExecutor.executorAt_succ hruns
  have hiff := CyclicExecutor.cycle_deadlineNs_eq_iff cycle (readings n)
    (boot.loopAt_periodNs_pos readings n) hpolicy
  rw [hnext, ← hconfig, ← hiff]
  constructor
  · intro hdifference
    linarith
  · intro hdeadline
    linarith

end Run

/-- The time of supervision advances from one cycle to the next by what the deadline advances
exactly if the first cycle ends before the second is due. -/
theorem supervision_time_iff (boot : Boot) (readings : ℕ → CycleReadings CallbackReadings) (n : ℕ)
    (hruns : (boot.loopAt readings (n + 1)).Continues)
    (hfits : (executorConfig boot.frequency).periodNs * (n + 1) < 2 ^ 63) :
    boot.nowAt readings (n + 1) - boot.nowAt readings n =
        (boot.loopAt readings (n + 1)).deadlineNs - (boot.loopAt readings n).deadlineNs ↔
      (readings n).finishedNs < (boot.loopAt readings n).deadlineNs +
        (executorConfig boot.frequency).periodNs := by
  have hbefore : (boot.loopAt readings n).Continues := CyclicExecutor.continues_of_succ hruns
  rw [nowAt_succ_sub hruns hfits, eq_comm]
  exact deadlineNs_succ_sub_eq_iff hbefore

/-- The daemon at its default frequency, started at time zero. -/
def oneKilohertz : Boot where
  frequency := { hz := 1000, positive := by decide, atMost := by decide }

theorem supervision_time_iff_punctual :
    oneKilohertz.nowAt (punctualReadings 1000000) 1 -
        oneKilohertz.nowAt (punctualReadings 1000000) 0 =
      (oneKilohertz.loopAt (punctualReadings 1000000) 1).deadlineNs -
        (oneKilohertz.loopAt (punctualReadings 1000000) 0).deadlineNs :=
  (supervision_time_iff oneKilohertz (punctualReadings 1000000) 0
    (Boot.loopAt_continues (fun _ => rfl) 1) (by decide)).mpr (by decide)

/-- The first cycle wakes at its deadline and hangs until 200 ms after the start. What follows
takes place at the deadline after that. -/
def stalledReadings (k : ℕ) : CycleReadings CallbackReadings where
  wokeNs := if k = 0 then 1000000 else 201000000
  callback := { estopAsserted := false, acknowledged := false, estopPublished := false }
  finishedNs := if k = 0 then 200000000 else 201000000

/-- A stall of four watchdog windows: the deadlines are 200 ms apart, the time of supervision
advances by 1 ms, and the receiver accepts the next telegram. -/
theorem stall_unseen :
    oneKilohertz.nowAt stalledReadings 1 - oneKilohertz.nowAt stalledReadings 0 = 1000000 ∧
    (oneKilohertz.loopAt stalledReadings 1).deadlineNs -
      (oneKilohertz.loopAt stalledReadings 0).deadlineNs = 200000000 ∧
    ((oneKilohertz.loopAt stalledReadings 1).captured.received
      (oneKilohertz.nowAt stalledReadings 1)).2.status = .valid := by
  have hruns (n : ℕ) : (oneKilohertz.loopAt stalledReadings n).Continues :=
    Boot.loopAt_continues (fun _ => rfl) n
  have hnext : oneKilohertz.loopAt stalledReadings 1 =
      (oneKilohertz.loopAt stalledReadings 0).cycle cycle (stalledReadings 0) :=
    CyclicExecutor.executorAt_succ (hruns 0)
  refine ⟨nowAt_succ_sub (hruns 1) (by decide), ?_, ?_⟩
  · rw [hnext, CyclicExecutor.cycle_deadlineNs _ _ (oneKilohertz.loopAt_periodNs_pos _ 0) rfl]
    decide
  · exact (healthyCycle_of_withinWatchdog (fun _ _ => rfl) (hruns 1) (by decide)
      (by decide)).accepted

end SafeEdge.Apps
