import SafeEdge.Library.Run
import SafeEdge.Rt.LatencyHistogram

/-! The fixed-period loop with absolute deadlines. Readings of the monotonic clock are
integers that the environment chooses freely, cycle by cycle. -/
namespace SafeEdge.Rt
open Library

inductive OverrunPolicy where
  | skipMissed
  | runLate
  deriving DecidableEq

/-- What the callback is told about its cycle. -/
structure CycleContext where
  index : UInt64 := 0
  wakeupJitterNs : ℤ := 0
  periodNs : ℤ := 0

structure ExecutorStats where
  cyclesExecuted : UInt64 := 0
  overruns : UInt64 := 0
  skippedCycles : UInt64 := 0
  allocationViolations : UInt64 := 0
  wakeupJitter : LatencyHistogram := {}
  executionTime : LatencyHistogram := {}
  cycleTotal : LatencyHistogram := {}

structure ExecutorConfig where
  periodNs : ℤ := 1000000
  overrunPolicy : OverrunPolicy := .skipMissed

/-- The callback on the state it captures. It may read the statistics, and it tells whether a
stop was requested by the time it returned. -/
abbrev CycleCallback (ι σ : Type*) := CycleContext → ExecutorStats → ι → σ → σ × Bool

/-- What the environment decides about one cycle: the clock after the wait and after the
callback, and what the callback reads. -/
structure CycleReadings (ι : Type*) where
  wokeNs : ℤ
  callback : ι
  finishedNs : ℤ

/-- The loop that gives up the deadlines gone by and counts them. -/
def skipMissed (periodNs finishedNs deadlineNs : ℤ) (skipped : UInt64) : ℤ × UInt64 :=
  if 0 < periodNs ∧ deadlineNs ≤ finishedNs then
    skipMissed periodNs finishedNs (deadlineNs + periodNs) (skipped + 1)
  else (deadlineNs, skipped)
termination_by (finishedNs + 1 - deadlineNs).toNat

/-- The number of deadlines the loop gives up: those from `deadlineNs` on that are not later
than `finishedNs`. -/
def missedDeadlines (periodNs finishedNs deadlineNs : ℤ) : ℕ :=
  ((finishedNs - deadlineNs) / periodNs + 1).toNat

theorem missedDeadlines_eq_zero {periodNs finishedNs deadlineNs : ℤ} (hperiod : 0 < periodNs)
    (h : finishedNs < deadlineNs) : missedDeadlines periodNs finishedNs deadlineNs = 0 := by
  have hneg : (finishedNs - deadlineNs) / periodNs < 0 :=
    Int.ediv_neg_of_neg_of_pos (by omega) hperiod
  rw [missedDeadlines]
  omega

theorem missedDeadlines_eq_succ {periodNs finishedNs deadlineNs : ℤ} (hperiod : 0 < periodNs)
    (h : deadlineNs ≤ finishedNs) : missedDeadlines periodNs finishedNs deadlineNs =
      missedDeadlines periodNs finishedNs (deadlineNs + periodNs) + 1 := by
  have hshift : finishedNs - (deadlineNs + periodNs) =
      finishedNs - deadlineNs + periodNs * (-1) := by ring
  have hquotient : 0 ≤ (finishedNs - deadlineNs) / periodNs :=
    Int.ediv_nonneg (by omega) hperiod.le
  rw [missedDeadlines, missedDeadlines, hshift, Int.add_mul_ediv_left _ _ hperiod.ne']
  omega

/-- The loop ends at the first deadline of the grid that is still to come. -/
theorem skipMissed_eq {periodNs : ℤ} (hperiod : 0 < periodNs) (finishedNs deadlineNs : ℤ)
    (skipped : UInt64) : skipMissed periodNs finishedNs deadlineNs skipped =
      (deadlineNs + periodNs * missedDeadlines periodNs finishedNs deadlineNs,
        skipped + UInt64.ofNat (missedDeadlines periodNs finishedNs deadlineNs)) := by
  induction deadlineNs, skipped using skipMissed.induct periodNs finishedNs with
  | case1 deadlineNs skipped hguard ih =>
    rw [skipMissed, if_pos hguard, ih, missedDeadlines_eq_succ hperiod hguard.2]
    refine Prod.ext ?_ ?_
    · push_cast
      ring
    · rw [UInt64.ofNat_add, UInt64.add_comm (UInt64.ofNat _) (UInt64.ofNat 1),
        ← UInt64.add_assoc]
      rfl
  | case2 deadlineNs skipped hguard =>
    have hlater : finishedNs < deadlineNs := by
      by_contra hle
      exact hguard ⟨hperiod, not_lt.mp hle⟩
    rw [skipMissed, if_neg hguard, missedDeadlines_eq_zero hperiod hlater]
    simp

/-- The executor inside `run`, with the local variables of the loop and what the callback
captures. -/
structure CyclicExecutor (σ : Type*) where
  config : ExecutorConfig
  maxCycles : UInt64 := 0
  stopRequested : Bool := false
  stats : ExecutorStats := {}
  index : UInt64 := 0
  deadlineNs : ℤ
  captured : σ

namespace CyclicExecutor
variable {ι σ : Type*}

/-- The executor as `run` enters its loop at the given time, with the statistics of earlier runs
kept. -/
def beginRun (executor : CyclicExecutor σ) (maxCycles : UInt64) (startNs : ℤ) :
    CyclicExecutor σ :=
  { executor with
    maxCycles
    stopRequested := false
    index := 0
    deadlineNs := startNs + executor.config.periodNs }

/-- The first run of an executor. -/
def enter (config : ExecutorConfig) (maxCycles : UInt64) (startNs : ℤ) (captured : σ) :
    CyclicExecutor σ :=
  beginRun { config, deadlineNs := 0, captured } maxCycles startNs

variable (executor : CyclicExecutor σ)

/-- Another cycle is run: the period is positive, the limit is not reached and no stop has
been requested. -/
def Continues : Prop :=
  0 < executor.config.periodNs ∧
    (executor.maxCycles = 0 ∨ executor.index < executor.maxCycles) ∧
    executor.stopRequested = false

instance : Decidable executor.Continues := inferInstanceAs (Decidable (_ ∧ _))

def context (wokeNs : ℤ) : CycleContext where
  index := executor.index
  wakeupJitterNs := wokeNs - executor.deadlineNs
  periodNs := executor.config.periodNs

/-- The call of the callback, after the wakeup has been recorded. -/
def invoke (callback : CycleCallback ι σ) (readings : CycleReadings ι) : CyclicExecutor σ :=
  let stats := { executor.stats with
    wakeupJitter :=
      executor.stats.wakeupJitter.record (readings.wokeNs - executor.deadlineNs) }
  let result := callback (executor.context readings.wokeNs) stats readings.callback
    executor.captured
  { executor with
    stats
    captured := result.1
    stopRequested := executor.stopRequested || result.2 }

/-- What is recorded about the cycle after the callback has returned. -/
def account (readings : CycleReadings ι) : CyclicExecutor σ :=
  { executor with
    stats := { executor.stats with
      executionTime := executor.stats.executionTime.record (readings.finishedNs - readings.wokeNs)
      cycleTotal := executor.stats.cycleTotal.record (readings.finishedNs - executor.deadlineNs)
      cyclesExecuted := executor.stats.cyclesExecuted + 1 } }

/-- The advance to the next scheduled deadline. -/
def advanceDeadline (finishedNs : ℤ) : CyclicExecutor σ :=
  let deadlineNs := executor.deadlineNs + executor.config.periodNs
  if finishedNs ≥ deadlineNs then
    let overruns := executor.stats.overruns + 1
    match executor.config.overrunPolicy with
    | .skipMissed =>
      let skipped := Rt.skipMissed executor.config.periodNs finishedNs deadlineNs
        executor.stats.skippedCycles
      { executor with
        deadlineNs := skipped.1
        stats := { executor.stats with overruns, skippedCycles := skipped.2 } }
    | .runLate => { executor with deadlineNs, stats := { executor.stats with overruns } }
  else { executor with deadlineNs }

/-- How many deadlines a cycle that ends at the given time gives up. -/
def skippedIn (finishedNs : ℤ) : ℕ :=
  match executor.config.overrunPolicy with
  | .skipMissed => missedDeadlines executor.config.periodNs finishedNs
      (executor.deadlineNs + executor.config.periodNs)
  | .runLate => 0

/-- One iteration of the loop. -/
def cycle (callback : CycleCallback ι σ) (readings : CycleReadings ι) : CyclicExecutor σ :=
  let advanced := ((executor.invoke callback readings).account readings).advanceDeadline
    readings.finishedNs
  { advanced with index := executor.index + 1 }

/-- The loop with its conditions: once one of them fails nothing changes any more. -/
def iterate (callback : CycleCallback ι σ) (readings : CycleReadings ι) : CyclicExecutor σ :=
  if executor.Continues then executor.cycle callback readings else executor

/-- The executor before cycle `n`. -/
def executorAt (callback : CycleCallback ι σ) (readings : ℕ → CycleReadings ι) (n : ℕ) :
    CyclicExecutor σ :=
  stateAt (fun executor => executor.iterate callback) executor readings n

section Cycle
variable {executor} (callback : CycleCallback ι σ) (readings : CycleReadings ι)

theorem advanceDeadline_eq (finishedNs : ℤ) : executor.advanceDeadline finishedNs =
    { executor with
      deadlineNs := (executor.advanceDeadline finishedNs).deadlineNs
      stats := (executor.advanceDeadline finishedNs).stats } := by
  simp only [advanceDeadline]
  split_ifs
  · split <;> rfl
  · rfl

/-- The next deadline and the count of those given up, under either policy. -/
theorem advanceDeadline_skips (hperiod : 0 < executor.config.periodNs) (finishedNs : ℤ) :
    (executor.advanceDeadline finishedNs).deadlineNs = executor.deadlineNs +
        executor.config.periodNs * (executor.skippedIn finishedNs + 1) ∧
      (executor.advanceDeadline finishedNs).stats.skippedCycles =
        executor.stats.skippedCycles + UInt64.ofNat (executor.skippedIn finishedNs) := by
  unfold advanceDeadline skippedIn
  cases executor.config.overrunPolicy with
  | skipMissed =>
    simp only
    split_ifs with hlate
    · rw [skipMissed_eq hperiod]
      exact ⟨by ring, rfl⟩
    · rw [missedDeadlines_eq_zero hperiod (not_le.mp hlate)]
      exact ⟨by simp, by simp⟩
  | runLate =>
    simp only
    split_ifs <;> exact ⟨by simp, by simp⟩

theorem advanceDeadline_histograms (finishedNs : ℤ) :
    (executor.advanceDeadline finishedNs).stats.wakeupJitter = executor.stats.wakeupJitter ∧
      (executor.advanceDeadline finishedNs).stats.executionTime =
        executor.stats.executionTime := by
  simp only [advanceDeadline]
  split_ifs
  · split <;> exact ⟨rfl, rfl⟩
  · exact ⟨rfl, rfl⟩

/-- What a cycle records about its wakeup and its callback. -/
theorem cycle_histograms :
    (executor.cycle callback readings).stats.wakeupJitter =
        executor.stats.wakeupJitter.record (readings.wokeNs - executor.deadlineNs) ∧
      (executor.cycle callback readings).stats.executionTime =
        executor.stats.executionTime.record (readings.finishedNs - readings.wokeNs) :=
  advanceDeadline_histograms readings.finishedNs

/-- Besides what the callback does, a cycle changes the statistics, the index and the
deadline only. -/
theorem cycle_eq : executor.cycle callback readings =
    { executor.invoke callback readings with
      deadlineNs := (executor.cycle callback readings).deadlineNs
      stats := (executor.cycle callback readings).stats
      index := executor.index + 1 } := by
  simp only [cycle]
  rw [advanceDeadline_eq]
  rfl

@[simp] theorem cycle_config : (executor.cycle callback readings).config = executor.config := by
  rw [cycle_eq]
  rfl

theorem cycle_deadlineNs_skips (hperiod : 0 < executor.config.periodNs) :
    (executor.cycle callback readings).deadlineNs = executor.deadlineNs +
      executor.config.periodNs * (executor.skippedIn readings.finishedNs + 1) :=
  (@advanceDeadline_skips σ ((executor.invoke callback readings).account readings) hperiod
    readings.finishedNs).1

theorem cycle_skippedCycles (hperiod : 0 < executor.config.periodNs) :
    (executor.cycle callback readings).stats.skippedCycles =
      executor.stats.skippedCycles + UInt64.ofNat (executor.skippedIn readings.finishedNs) :=
  (@advanceDeadline_skips σ ((executor.invoke callback readings).account readings) hperiod
    readings.finishedNs).2

theorem cycle_deadlineNs (hperiod : 0 < executor.config.periodNs)
    (hpolicy : executor.config.overrunPolicy = .skipMissed) :
    (executor.cycle callback readings).deadlineNs =
      executor.deadlineNs + executor.config.periodNs + executor.config.periodNs *
        missedDeadlines executor.config.periodNs readings.finishedNs
          (executor.deadlineNs + executor.config.periodNs) := by
  rw [cycle_deadlineNs_skips callback readings hperiod, skippedIn, hpolicy]
  ring

/-- No deadline is skipped exactly when the cycle ends before its successor is due. -/
theorem cycle_deadlineNs_eq_iff (hperiod : 0 < executor.config.periodNs)
    (hpolicy : executor.config.overrunPolicy = .skipMissed) :
    (executor.cycle callback readings).deadlineNs =
        executor.deadlineNs + executor.config.periodNs ↔
      readings.finishedNs < executor.deadlineNs + executor.config.periodNs := by
  rw [cycle_deadlineNs callback readings hperiod hpolicy, add_eq_left, mul_eq_zero,
    or_iff_right hperiod.ne', Nat.cast_eq_zero]
  constructor
  · intro hzero
    by_contra hlate
    rw [missedDeadlines_eq_succ hperiod (not_lt.mp hlate)] at hzero
    exact absurd hzero (Nat.succ_ne_zero _)
  · exact missedDeadlines_eq_zero hperiod

end Cycle

section Run
variable {executor} {callback : CycleCallback ι σ} {readings : ℕ → CycleReadings ι} {n : ℕ}

/-- A cycle that is run leads to the next state of the loop. -/
theorem executorAt_succ (h : (executor.executorAt callback readings n).Continues) :
    executor.executorAt callback readings (n + 1) =
      (executor.executorAt callback readings n).cycle callback (readings n) :=
  if_pos h

theorem continues_of_succ (h : (executor.executorAt callback readings (n + 1)).Continues) :
    (executor.executorAt callback readings n).Continues := by
  by_contra hended
  have hsame : executor.executorAt callback readings (n + 1) =
      executor.executorAt callback readings n := if_neg hended
  rw [hsame] at h
  exact hended h

/-- Once the loop has ended it stays as it is. -/
theorem executorAt_of_ended (h : ¬ (executor.executorAt callback readings n).Continues) {m : ℕ}
    (hnm : n ≤ m) : executor.executorAt callback readings m =
      executor.executorAt callback readings n := by
  induction m, hnm using Nat.le_induction with
  | base => rfl
  | succ m _ ih =>
    rw [← ih] at h
    exact (if_neg h).trans ih

theorem executorAt_config (n : ℕ) :
    (executor.executorAt callback readings n).config = executor.config := by
  induction n with
  | zero => rfl
  | succ n ih =>
    by_cases h : (executor.executorAt callback readings n).Continues
    · rw [executorAt_succ h, cycle_config, ih]
    · exact (congrArg config (if_neg h)).trans ih

/-- The cycle that is run after `n` others carries the index `n`. -/
theorem executorAt_index (hstart : executor.index = 0)
    (h : (executor.executorAt callback readings n).Continues) :
    (executor.executorAt callback readings n).index = UInt64.ofNat n := by
  induction n with
  | zero => exact hstart
  | succ n ih =>
    have hbefore := continues_of_succ h
    rw [executorAt_succ hbefore, UInt64.ofNat_add]
    exact congrArg (· + 1) (ih hbefore)

end Run

end CyclicExecutor
end SafeEdge.Rt
