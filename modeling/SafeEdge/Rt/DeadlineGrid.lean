import SafeEdge.Library.Grid
import SafeEdge.Library.WrappingCounter
import SafeEdge.Rt.CyclicExecutor

/-! Which deadlines the cycles of a run get, which are skipped, and what the statistics count. -/
namespace SafeEdge.Rt
open Library

theorem LatencyHistogram.record_count (histogram : LatencyHistogram) (value : ℤ) :
    (histogram.record value).count = histogram.count + 1 := by
  rw [record, recordMany, if_neg (by decide)]

theorem lt_missedDeadlines_iff {periodNs : ℤ} (hperiod : 0 < periodNs) (finishedNs deadlineNs : ℤ)
    (m : ℕ) : m < missedDeadlines periodNs finishedNs deadlineNs ↔
      deadlineNs + periodNs * m ≤ finishedNs := by
  have hquotient : (m : ℤ) ≤ (finishedNs - deadlineNs) / periodNs ↔
      m * periodNs ≤ finishedNs - deadlineNs := Int.le_ediv_iff_mul_le hperiod
  rw [missedDeadlines, Int.lt_toNat, Int.lt_add_one_iff, hquotient, mul_comm]
  omega

/-- The callback that also counts how often it is called. -/
def CycleCallback.counted {ι σ : Type*} (callback : CycleCallback ι σ) :
    CycleCallback ι (σ × ℕ) := fun context stats reading captured =>
  let result := callback context stats reading captured.1
  ((result.1, captured.2 + 1), result.2)

namespace CyclicExecutor
variable {ι σ : Type*}

section Cycle
variable {executor : CyclicExecutor σ} (callback : CycleCallback ι σ) (readings : CycleReadings ι)

theorem advanceDeadline_overruns (finishedNs : ℤ) :
    (executor.advanceDeadline finishedNs).stats.overruns =
      if executor.deadlineNs + executor.config.periodNs ≤ finishedNs then
        executor.stats.overruns + 1
      else executor.stats.overruns := by
  simp only [advanceDeadline]
  split_ifs
  · split <;> rfl
  · rfl

theorem cycle_overruns : (executor.cycle callback readings).stats.overruns =
    if executor.deadlineNs + executor.config.periodNs ≤ readings.finishedNs then
      executor.stats.overruns + 1
    else executor.stats.overruns :=
  @advanceDeadline_overruns σ ((executor.invoke callback readings).account readings)
    readings.finishedNs

end Cycle
end CyclicExecutor

/-- The cycle counter and the three histograms have each grown by `n` entries. -/
structure ExecutorStats.GrownBy (before after : ExecutorStats) (n : ℕ) : Prop where
  cyclesExecuted : after.cyclesExecuted = counterAt before.cyclesExecuted n
  wakeupJitter : after.wakeupJitter.count = counterAt before.wakeupJitter.count n
  executionTime : after.executionTime.count = counterAt before.executionTime.count n
  cycleTotal : after.cycleTotal.count = counterAt before.cycleTotal.count n

theorem ExecutorStats.GrownBy.refl (stats : ExecutorStats) : stats.GrownBy stats 0 := by
  constructor <;> rw [counterAt_zero]

theorem ExecutorStats.GrownBy.trans {before between after : ExecutorStats} {n m : ℕ}
    (h : before.GrownBy between n) (h' : between.GrownBy after m) :
    before.GrownBy after (n + m) :=
  ⟨counterAt_trans h.cyclesExecuted h'.cyclesExecuted,
    counterAt_trans h.wakeupJitter h'.wakeupJitter,
    counterAt_trans h.executionTime h'.executionTime,
    counterAt_trans h.cycleTotal h'.cycleTotal⟩

namespace CyclicExecutor
variable {ι σ : Type*}

theorem advanceDeadline_grownBy (executor : CyclicExecutor σ) (finishedNs : ℤ) :
    executor.stats.GrownBy (executor.advanceDeadline finishedNs).stats 0 := by
  simp only [advanceDeadline]
  split_ifs
  · split <;> constructor <;> rw [counterAt_zero]
  · exact .refl _

/-- Every cycle is recorded once in each of them. -/
theorem cycle_grownBy (executor : CyclicExecutor σ) (callback : CycleCallback ι σ)
    (readings : CycleReadings ι) :
    executor.stats.GrownBy (executor.cycle callback readings).stats 1 := by
  have hrecorded : executor.stats.GrownBy
      ((executor.invoke callback readings).account readings).stats 1 :=
    ⟨rfl, LatencyHistogram.record_count _ _, LatencyHistogram.record_count _ _,
      LatencyHistogram.record_count _ _⟩
  exact hrecorded.trans (advanceDeadline_grownBy _ readings.finishedNs)

/-- The executor with another state for its callback. -/
def withCaptured {τ : Type*} (executor : CyclicExecutor σ) (captured : τ) : CyclicExecutor τ where
  config := executor.config
  maxCycles := executor.maxCycles
  stopRequested := executor.stopRequested
  stats := executor.stats
  index := executor.index
  deadlineNs := executor.deadlineNs
  captured

theorem advanceDeadline_withCaptured {τ : Type*} (executor : CyclicExecutor σ) (captured : τ)
    (finishedNs : ℤ) : (executor.withCaptured captured).advanceDeadline finishedNs =
      (executor.advanceDeadline finishedNs).withCaptured captured := by
  unfold advanceDeadline
  by_cases hlate : executor.deadlineNs + executor.config.periodNs ≤ finishedNs
  · cases hpolicy : executor.config.overrunPolicy <;> simp [withCaptured, hlate, hpolicy]
  · simp [withCaptured, hlate]

/-- Counting the calls changes nothing else. -/
theorem cycle_counted (executor : CyclicExecutor σ) (callback : CycleCallback ι σ)
    (readings : CycleReadings ι) (calls : ℕ) :
    (executor.withCaptured (executor.captured, calls)).cycle callback.counted readings =
      (executor.cycle callback readings).withCaptured
        ((executor.cycle callback readings).captured, calls + 1) := by
  have hadvance := advanceDeadline_withCaptured
    ((executor.invoke callback readings).account readings)
    ((executor.invoke callback readings).captured, calls + 1) readings.finishedNs
  have hcaptured : (executor.cycle callback readings).captured =
      (executor.invoke callback readings).captured := by
    rw [cycle_eq]
  rw [hcaptured]
  exact congrArg (fun advanced => { advanced with index := executor.index + 1 }) hadvance

theorem iterate_counted (executor : CyclicExecutor σ) (callback : CycleCallback ι σ)
    (readings : CycleReadings ι) (calls : ℕ) :
    (executor.withCaptured (executor.captured, calls)).iterate callback.counted readings =
      (executor.iterate callback readings).withCaptured
        ((executor.iterate callback readings).captured,
          if executor.Continues then calls + 1 else calls) := by
  have hcondition : (executor.withCaptured (executor.captured, calls)).Continues ↔
      executor.Continues := Iff.rfl
  simp only [iterate, hcondition]
  split_ifs
  · exact cycle_counted executor callback readings calls
  · rfl

section Run
variable (executor : CyclicExecutor σ) (callback : CycleCallback ι σ)
  (readings : ℕ → CycleReadings ι)

/-- The points at which a run that starts at the given time may place its deadlines. -/
def deadlineGrid (startNs periodNs : ℤ) : Set ℤ := Set.range (gridPoint startNs periodNs)

/-- The number of times the callback has been called in the first `n` iterations. -/
def callbacksBefore (n : ℕ) : ℕ :=
  ((executor.withCaptured (executor.captured, 0)).executorAt callback.counted readings n).captured.2

/-- Cycle `k` is run and ends no earlier than one period after its deadline. -/
def OverrunsAt (k : ℕ) : Prop :=
  (executor.executorAt callback readings k).Continues ∧
    (executor.executorAt callback readings k).deadlineNs + executor.config.periodNs ≤
      (readings k).finishedNs

instance : DecidablePred (executor.OverrunsAt callback readings) :=
  fun _ => inferInstanceAs (Decidable (_ ∧ _))

/-- The points of a grid that lie between two successive deadlines. -/
def skippedAt (grid : Set ℤ) (k : ℕ) : Set ℤ :=
  {t ∈ grid | (executor.executorAt callback readings k).deadlineNs < t ∧
    t < (executor.executorAt callback readings (k + 1)).deadlineNs}

noncomputable def skippedBefore (grid : Set ℤ) (n : ℕ) : ℕ :=
  ∑ k ∈ Finset.range n, (executor.skippedAt callback readings grid k).ncard

/-- The place on the grid of the deadline of cycle `n`. -/
def place (n : ℕ) : ℕ :=
  n + ∑ k ∈ Finset.range n,
    (executor.executorAt callback readings k).skippedIn (readings k).finishedNs

variable {executor callback readings} {n : ℕ}

theorem place_succ : executor.place callback readings (n + 1) =
    executor.place callback readings n +
      ((executor.executorAt callback readings n).skippedIn (readings n).finishedNs + 1) := by
  rw [place, place, Finset.sum_range_succ]
  omega

theorem continues_of_le {k : ℕ} (hkn : k ≤ n)
    (h : (executor.executorAt callback readings n).Continues) :
    (executor.executorAt callback readings k).Continues := by
  induction n, hkn using Nat.le_induction with
  | base => exact h
  | succ n _ ih => exact ih (continues_of_succ h)

theorem periodNs_pos (h : (executor.executorAt callback readings n).Continues) :
    0 < executor.config.periodNs := by
  rw [← @executorAt_config ι σ executor callback readings n]
  exact h.1

theorem executorAt_succ_of_ended (h : ¬ (executor.executorAt callback readings n).Continues) :
    executor.executorAt callback readings (n + 1) = executor.executorAt callback readings n :=
  if_neg h

/-- The run in which the calls are counted. -/
theorem executorAt_counted (n : ℕ) :
    (executor.withCaptured (executor.captured, 0)).executorAt callback.counted readings n =
      (executor.executorAt callback readings n).withCaptured
        ((executor.executorAt callback readings n).captured,
          executor.callbacksBefore callback readings n) := by
  induction n with
  | zero => rfl
  | succ n ih =>
    have hstep := (congrArg (fun e => e.iterate callback.counted (readings n)) ih).trans
      (iterate_counted _ callback (readings n) _)
    rw [show executor.callbacksBefore callback readings (n + 1) = _ from
      congrArg (fun e => e.captured.2) hstep]
    exact hstep

theorem callbacksBefore_succ (n : ℕ) : executor.callbacksBefore callback readings (n + 1) =
    if (executor.executorAt callback readings n).Continues then
      executor.callbacksBefore callback readings n + 1
    else executor.callbacksBefore callback readings n := by
  have hcounted := @executorAt_counted ι σ executor callback readings n
  have hstep := (congrArg (fun e => e.iterate callback.counted (readings n)) hcounted).trans
    (iterate_counted _ callback (readings n) _)
  exact congrArg (fun e => e.captured.2) hstep

theorem executorAt_grownBy (n : ℕ) :
    executor.stats.GrownBy (executor.executorAt callback readings n).stats
      (executor.callbacksBefore callback readings n) := by
  induction n with
  | zero => exact .refl _
  | succ n ih =>
    rw [callbacksBefore_succ]
    split_ifs with hruns
    · rw [executorAt_succ hruns]
      exact ih.trans (cycle_grownBy _ _ _)
    · rw [executorAt_succ_of_ended hruns]
      exact ih

theorem executorAt_overruns (n : ℕ) :
    (executor.executorAt callback readings n).stats.overruns = counterAt executor.stats.overruns
      (Nat.count (executor.OverrunsAt callback readings) n) := by
  apply @counterAt_of_events (fun k => (executor.executorAt callback readings k).stats.overruns)
  intro k
  by_cases hruns : (executor.executorAt callback readings k).Continues
  · rw [executorAt_succ hruns, cycle_overruns, executorAt_config]
    simp only [OverrunsAt, hruns, true_and]
  · rw [executorAt_succ_of_ended hruns, if_neg (fun h => hruns h.1)]

section OnGrid
variable {startNs : ℤ} (hstart : executor.deadlineNs = startNs + executor.config.periodNs)
include hstart

omit hstart in
theorem executorAt_succ_deadlineNs (hruns : (executor.executorAt callback readings n).Continues)
    (hplace : (executor.executorAt callback readings n).deadlineNs =
      gridPoint startNs executor.config.periodNs (executor.place callback readings n)) :
    (executor.executorAt callback readings (n + 1)).deadlineNs =
      gridPoint startNs executor.config.periodNs (executor.place callback readings (n + 1)) := by
  rw [executorAt_succ hruns, cycle_deadlineNs_skips _ _ hruns.1, hplace, executorAt_config,
    place_succ, gridPoint_add]
  push_cast
  rfl

/-- The deadline of a cycle that is run is the point of the grid at its place. -/
theorem executorAt_deadlineNs (hruns : (executor.executorAt callback readings n).Continues) :
    (executor.executorAt callback readings n).deadlineNs =
      gridPoint startNs executor.config.periodNs (executor.place callback readings n) := by
  induction n with
  | zero =>
    rw [show (executor.executorAt callback readings 0).deadlineNs = _ from hstart]
    simp [gridPoint, place]
  | succ n ih =>
    have hbefore := continues_of_succ hruns
    exact executorAt_succ_deadlineNs hbefore (ih hbefore)

theorem skippedAt_eq (hruns : (executor.executorAt callback readings n).Continues) :
    executor.skippedAt callback readings (deadlineGrid startNs executor.config.periodNs) n =
      {t ∈ deadlineGrid startNs executor.config.periodNs |
        gridPoint startNs executor.config.periodNs (executor.place callback readings n) < t ∧
        t < gridPoint startNs executor.config.periodNs
          (executor.place callback readings (n + 1))} := by
  have hplace := executorAt_deadlineNs hstart hruns
  rw [skippedAt, hplace, executorAt_succ_deadlineNs hruns hplace]

/-- A cycle leaves out as many points of the grid as it gives up deadlines. -/
theorem skippedAt_ncard (hruns : (executor.executorAt callback readings n).Continues) :
    (executor.skippedAt callback readings
        (deadlineGrid startNs executor.config.periodNs) n).ncard =
      (executor.executorAt callback readings n).skippedIn (readings n).finishedNs := by
  rw [skippedAt_eq hstart hruns, deadlineGrid,
    ncard_between (gridPoint_strictMono startNs (periodNs_pos hruns)), place_succ]
  omega

theorem place_eq (hruns : (executor.executorAt callback readings n).Continues) :
    executor.place callback readings n = n + executor.skippedBefore callback readings
      (deadlineGrid startNs executor.config.periodNs) n := by
  rw [place, skippedBefore]
  congr 1
  apply Finset.sum_congr rfl
  intro k hk
  rw [skippedAt_ncard hstart (continues_of_le (Finset.mem_range.mp hk).le hruns)]

theorem executorAt_skippedCycles (n : ℕ) :
    (executor.executorAt callback readings n).stats.skippedCycles =
      counterAt executor.stats.skippedCycles (executor.skippedBefore callback readings
        (deadlineGrid startNs executor.config.periodNs) n) := by
  induction n with
  | zero => exact (counterAt_zero _).symm
  | succ n ih =>
    rw [skippedBefore, Finset.sum_range_succ, ← skippedBefore, ← counterAt_add, ← ih]
    by_cases hruns : (executor.executorAt callback readings n).Continues
    · rw [executorAt_succ hruns, cycle_skippedCycles _ _ hruns.1, skippedAt_ncard hstart hruns]
    · have hempty : executor.skippedAt callback readings
          (deadlineGrid startNs executor.config.periodNs) n = ∅ := by
        rw [skippedAt, executorAt_succ_of_ended hruns]
        exact Set.eq_empty_of_forall_notMem fun t h => lt_asymm h.2.1 h.2.2
      rw [hempty, executorAt_succ_of_ended hruns]
      simp

/-- Under the policy that skips, the places a cycle passes over are those whose deadlines have
gone by when it ends. -/
theorem gridPoint_le_finishedNs_iff (hruns : (executor.executorAt callback readings n).Continues)
    (hpolicy : executor.config.overrunPolicy = .skipMissed) (j : ℕ)
    (hj : executor.place callback readings n < j) :
    gridPoint startNs executor.config.periodNs j ≤ (readings n).finishedNs ↔
      j < executor.place callback readings (n + 1) := by
  obtain ⟨m, rfl⟩ := Nat.exists_eq_add_of_lt hj
  have hskipped : (executor.executorAt callback readings n).skippedIn (readings n).finishedNs =
      missedDeadlines executor.config.periodNs (readings n).finishedNs
        (gridPoint startNs executor.config.periodNs (executor.place callback readings n + 1)) := by
    unfold skippedIn
    rw [executorAt_config, hpolicy, executorAt_deadlineNs hstart hruns, gridPoint_add]
    simp
  rw [place_succ, hskipped,
    show executor.place callback readings n + m + 1 = executor.place callback readings n + 1 + m
      by omega, gridPoint_add, ← lt_missedDeadlines_iff (periodNs_pos hruns)]
  omega

theorem nextDeadline_isLeast (hruns : (executor.executorAt callback readings n).Continues)
    (hpolicy : executor.config.overrunPolicy = .skipMissed) :
    IsLeast {t ∈ deadlineGrid startNs executor.config.periodNs |
        (executor.executorAt callback readings n).deadlineNs < t ∧ (readings n).finishedNs < t}
      (executor.executorAt callback readings (n + 1)).deadlineNs := by
  have hplace : executor.place callback readings n < executor.place callback readings (n + 1) := by
    rw [place_succ]
    omega
  have hdeadline := executorAt_deadlineNs hstart hruns
  rw [hdeadline, executorAt_succ_deadlineNs hruns hdeadline]
  exact isLeast_past (gridPoint_strictMono startNs (periodNs_pos hruns)) hplace
    (gridPoint_le_finishedNs_iff hstart hruns hpolicy)

theorem skippedAt_of_skipMissed (hruns : (executor.executorAt callback readings n).Continues)
    (hpolicy : executor.config.overrunPolicy = .skipMissed) :
    executor.skippedAt callback readings (deadlineGrid startNs executor.config.periodNs) n =
      {t ∈ deadlineGrid startNs executor.config.periodNs |
        (executor.executorAt callback readings n).deadlineNs < t ∧
          t ≤ (readings n).finishedNs} := by
  rw [skippedAt_eq hstart hruns, executorAt_deadlineNs hstart hruns]
  exact between_eq_upTo (gridPoint_strictMono startNs (periodNs_pos hruns))
    (gridPoint_le_finishedNs_iff hstart hruns hpolicy)

theorem skippedAt_of_runLate (hruns : (executor.executorAt callback readings n).Continues)
    (hpolicy : executor.config.overrunPolicy = .runLate) :
    executor.skippedAt callback readings (deadlineGrid startNs executor.config.periodNs) n = ∅ := by
  have hnext : executor.place callback readings (n + 1) =
      executor.place callback readings n + 1 := by
    rw [place_succ, skippedIn, executorAt_config, hpolicy]
  rw [skippedAt_eq hstart hruns, deadlineGrid,
    between_eq_image (gridPoint_strictMono startNs (periodNs_pos hruns)), hnext,
    Set.image_eq_empty]
  exact Set.eq_empty_of_forall_notMem fun k h => by
    have hbelow := h.1
    have habove := h.2
    omega

end OnGrid
end Run

/-- The deadlines of a run, whose first one is a period after its start, and what it counts. A
cycle that is run has the deadline its number and the deadlines skipped before it give. Under
the policy that skips, the next deadline is the least one of the grid that is after the current
one and later than the end of the cycle, and those skipped are the ones that have gone by;
otherwise none is skipped. -/
theorem deadline_grid (executor : CyclicExecutor σ) (maxCycles : UInt64) (startNs : ℤ)
    (callback : CycleCallback ι σ) (readings : ℕ → CycleReadings ι) (n : ℕ) :
    let run := executor.beginRun maxCycles startNs
    let loop := run.executorAt callback readings
    let grid := deadlineGrid startNs executor.config.periodNs
    ((loop n).Continues →
      (loop n).deadlineNs = startNs + executor.config.periodNs *
        (n + 1 + run.skippedBefore callback readings grid n) ∧
      (executor.config.overrunPolicy = .skipMissed →
        IsLeast {t ∈ grid | (loop n).deadlineNs < t ∧ (readings n).finishedNs < t}
          (loop (n + 1)).deadlineNs ∧
        (loop (n + 1)).stats.skippedCycles = (loop n).stats.skippedCycles + UInt64.ofNat
          {t ∈ grid | (loop n).deadlineNs < t ∧ t ≤ (readings n).finishedNs}.ncard) ∧
      (executor.config.overrunPolicy = .runLate →
        run.skippedAt callback readings grid n = ∅ ∧
        (loop (n + 1)).stats.skippedCycles = (loop n).stats.skippedCycles)) ∧
    (loop n).stats.skippedCycles = counterAt executor.stats.skippedCycles
      (run.skippedBefore callback readings grid n) ∧
    (loop n).stats.overruns = counterAt executor.stats.overruns
      (Nat.count (run.OverrunsAt callback readings) n) ∧
    executor.stats.GrownBy (loop n).stats (run.callbacksBefore callback readings n) := by
  intro run loop grid
  have hstart : run.deadlineNs = startNs + run.config.periodNs := rfl
  have hgrown : run.stats.GrownBy (loop n).stats (run.callbacksBefore callback readings n) :=
    executorAt_grownBy n
  refine ⟨fun hruns => ?_, executorAt_skippedCycles hstart n, executorAt_overruns n, hgrown⟩
  have hcounted : (loop (n + 1)).stats.skippedCycles = (loop n).stats.skippedCycles +
      UInt64.ofNat (run.skippedAt callback readings grid n).ncard := by
    rw [show loop (n + 1) = _ from executorAt_succ hruns, cycle_skippedCycles _ _ hruns.1,
      ← skippedAt_ncard hstart hruns]
    rfl
  refine ⟨?_, fun hpolicy => ?_, fun hpolicy => ?_⟩
  · have hdeadline : (loop n).deadlineNs = gridPoint startNs executor.config.periodNs
        (n + run.skippedBefore callback readings grid n) :=
      (executorAt_deadlineNs hstart hruns).trans (congrArg _ (place_eq hstart hruns))
    rw [hdeadline, gridPoint]
    push_cast
    ring
  · rw [hcounted, show run.skippedAt callback readings grid n = _ from
      skippedAt_of_skipMissed hstart hruns hpolicy]
    exact ⟨nextDeadline_isLeast hstart hruns hpolicy, rfl⟩
  · rw [hcounted, show run.skippedAt callback readings grid n = _ from
      skippedAt_of_runLate hstart hruns hpolicy]
    simp

/-- The first cycle of this run ends at time 35, the second one at time 45. -/
def lateReadings : ℕ → CycleReadings Unit
  | 0 => { wokeNs := 10, callback := (), finishedNs := 35 }
  | _ => { wokeNs := 41, callback := (), finishedNs := 45 }

def tenNanoseconds : CyclicExecutor Unit :=
  { config := { periodNs := 10 }, deadlineNs := 0, captured := () }

/-- A run of two cycles in which the deadlines at 20 and 30 are given up. -/
theorem deadline_grid_late :
    let run := tenNanoseconds.beginRun 2 0
    let loop := run.executorAt (fun _ _ _ captured => (captured, false)) lateReadings
    run.Continues ∧ (loop 1).deadlineNs = 40 ∧ ¬ (loop 2).Continues ∧
      run.callbacksBefore (fun _ _ _ captured => (captured, false)) lateReadings 5 = 2 ∧
      tenNanoseconds.stats.GrownBy (loop 5).stats 2 := by
  intro run loop
  have hruns : run.Continues := by decide
  have hcalls : run.callbacksBefore (fun _ _ _ captured => (captured, false)) lateReadings 5 = 2 :=
    by decide +kernel
  have hgrown := (deadline_grid tenNanoseconds 2 0 (fun _ _ _ captured => (captured, false))
    lateReadings 5).2.2.2
  obtain ⟨hleast, _⟩ := ((deadline_grid tenNanoseconds 2 0
    (fun _ _ _ captured => (captured, false)) lateReadings 0).1 hruns).2.1 rfl
  refine ⟨hruns, hleast.unique ⟨⟨⟨3, rfl⟩, by decide, by decide⟩, ?_⟩, by decide +kernel, hcalls,
    hcalls ▸ hgrown⟩
  rintro t ⟨⟨k, rfl⟩, _, hlate⟩
  change 35 < 0 + 10 * ((k : ℤ) + 1) at hlate
  change 40 ≤ 0 + 10 * ((k : ℤ) + 1)
  omega

end CyclicExecutor
end SafeEdge.Rt
