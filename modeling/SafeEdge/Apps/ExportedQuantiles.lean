import SafeEdge.Apps.SupervisionTime
import SafeEdge.Edge.Metrics
import SafeEdge.Rt.PercentileRank

/-! Quantiles from the executor's clock readings to the metrics endpoint: what the text shows
against the samples that were recorded. -/
namespace SafeEdge
open Library Rt Edge Rt.LatencyHistogram

namespace Rt.CyclicExecutor
variable {ι σ : Type*} (executor : CyclicExecutor σ) (callback : CycleCallback ι σ)
  (readings : ℕ → CycleReadings ι)

/-- The lateness of the first `n` wakeups, an early one counting as zero. -/
def jitterSamples (n : ℕ) : Multiset ℕ :=
  (Multiset.range n).map fun k =>
    ((readings k).wokeNs - (executor.executorAt callback readings k).deadlineNs).toNat

/-- How long the callback took in the first `n` cycles. -/
def executionSamples (n : ℕ) : Multiset ℕ :=
  (Multiset.range n).map fun k => ((readings k).finishedNs - (readings k).wokeNs).toNat

@[simp] theorem card_jitterSamples (n : ℕ) :
    (executor.jitterSamples callback readings n).card = n := by
  rw [jitterSamples, Multiset.card_map, Multiset.card_range]

@[simp] theorem card_executionSamples (n : ℕ) : (executionSamples readings n).card = n := by
  rw [executionSamples, Multiset.card_map, Multiset.card_range]

/-- The durations of a cycle are in the range of their type. -/
def Recordable (readings : CycleReadings ι) : Prop :=
  readings.wokeNs - executor.deadlineNs < 2 ^ 63 ∧ readings.finishedNs - readings.wokeNs < 2 ^ 63

variable {executor callback readings} {n : ℕ}

theorem jitterSamples_succ {histogram : LatencyHistogram}
    (h : histogram.Holds (executor.jitterSamples callback readings n))
    (hfits : (executor.executorAt callback readings n).Recordable (readings n)) :
    (histogram.record ((readings n).wokeNs -
      (executor.executorAt callback readings n).deadlineNs)).Holds
        (executor.jitterSamples callback readings (n + 1)) := by
  rw [jitterSamples, Multiset.range_succ, Multiset.map_cons]
  exact h.record hfits.1

theorem executionSamples_succ {histogram : LatencyHistogram}
    (h : histogram.Holds (executionSamples readings n))
    (hfits : (executor.executorAt callback readings n).Recordable (readings n)) :
    (histogram.record ((readings n).finishedNs - (readings n).wokeNs)).Holds
      (executionSamples readings (n + 1)) := by
  rw [executionSamples, Multiset.range_succ, Multiset.map_cons]
  exact h.record hfits.2

/-- The histograms hold the samples of the cycles that were run. -/
theorem executorAt_holds (hstart : executor.stats = {})
    (hruns : (executor.executorAt callback readings n).Continues)
    (hfits : ∀ k < n, (executor.executorAt callback readings k).Recordable (readings k)) :
    (executor.executorAt callback readings n).stats.wakeupJitter.Holds
        (executor.jitterSamples callback readings n) ∧
      (executor.executorAt callback readings n).stats.executionTime.Holds
        (executionSamples readings n) := by
  induction n with
  | zero =>
    have hempty : (executor.executorAt callback readings 0).stats = {} := hstart
    rw [hempty]
    exact ⟨holds_empty, holds_empty⟩
  | succ n ih =>
    have hbefore := continues_of_succ hruns
    obtain ⟨hjitter, hexecution⟩ := ih hbefore fun k hk => hfits k (Nat.lt_succ_of_lt hk)
    have hlast := hfits n n.lt_succ_self
    rw [executorAt_succ hbefore, (cycle_histograms callback (readings n)).1,
      (cycle_histograms callback (readings n)).2]
    exact ⟨jitterSamples_succ hjitter hlast, executionSamples_succ hexecution hlast⟩

end Rt.CyclicExecutor

namespace Apps
open CyclicExecutor

/-- The orders of the quantiles in a summary. -/
inductive QuantileOrder where
  | p50
  | p99
  | p999
  deriving DecidableEq

namespace QuantileOrder

def label : QuantileOrder → List Char
  | p50 => "0.5".toList
  | p99 => "0.99".toList
  | p999 => "0.999".toList

def value : QuantileOrder → ℚ
  | p50 => 1 / 2
  | p99 => 99 / 100
  | p999 => 999 / 1000

/-- The percentile of the given order, as the histogram offers it. -/
def percentile (histogram : LatencyHistogram) : QuantileOrder → ℤ
  | p50 => histogram.p50
  | p99 => histogram.p99
  | p999 => histogram.p999

/-- The order whose percentile the summary of the execution times shows in its place. -/
def shownOfExecution : QuantileOrder → QuantileOrder
  | p50 => p50
  | p99 | p999 => p99

variable {histogram : LatencyHistogram} {samples : Multiset ℕ}

theorem percentile_eq (h : histogram.Holds samples) (hcard : samples.card ≤ 2 ^ 44)
    (order : QuantileOrder) : order.percentile histogram = histogram.percentile order.value := by
  cases order with
  | p50 =>
    refine (h.percentileDouble_eq hcard approximates_p50).trans (congrArg _ ?_)
    norm_num [value]
  | p99 =>
    refine (h.percentileDouble_eq hcard approximates_p99).trans (congrArg _ ?_)
    norm_num [value]
  | p999 =>
    refine (h.percentileDouble_eq hcard approximates_p999).trans (congrArg _ ?_)
    norm_num [value]

/-- A percentile survives the copy into a signed field of the snapshot. -/
theorem percentile_toInt (h : histogram.Holds samples) (hcard : samples.card ≤ 2 ^ 44)
    (order : QuantileOrder) :
    (Int64.ofInt (order.percentile histogram)).toInt = histogram.percentile order.value := by
  have hword : samples.card < 2 ^ 64 := by omega
  have hlower := h.nthSmallest_le_percentile hword order.value
  have hupper := h.percentile_le_max hword order.value
  have hmax : samples.sup ≤ 2 ^ 63 - 1 :=
    Multiset.sup_le.mpr fun x hx => Nat.le_sub_one_of_lt (h.small x hx)
  rw [h.max] at hupper
  rw [percentile_eq h hcard]
  exact Int64.toInt_ofInt_of_le (by omega) (by omega)

end QuantileOrder

section Text

def jitterName : List Char := "safeedge_wakeup_jitter_nanoseconds".toList

def executionName : List Char := "safeedge_execution_nanoseconds".toList

/-- The text shows, for the quantile of the given order, no less than the sample of the nearest
rank. -/
def Covers (text name : List Char) (order : QuantileOrder) (samples : Multiset ℕ) : Prop :=
  ∃ value, shown text (quantileName name order.label) = some value ∧
    ((nthSmallest samples (rank order.value samples.card) : ℕ) : ℚ) ≤ value

/-- The snapshot carries the percentiles of two histograms. -/
structure Carries (snapshot : RuntimeSnapshot) (jitter execution : LatencyHistogram) : Prop where
  jitterP50Ns : snapshot.jitterP50Ns = .ofInt jitter.p50
  jitterP99Ns : snapshot.jitterP99Ns = .ofInt jitter.p99
  jitterP999Ns : snapshot.jitterP999Ns = .ofInt jitter.p999
  executionP50Ns : snapshot.executionP50Ns = .ofInt execution.p50
  executionP99Ns : snapshot.executionP99Ns = .ofInt execution.p99

variable {snapshot : RuntimeSnapshot} {jitter execution : LatencyHistogram}
  {samples : Multiset ℕ} (snapshotIsFresh : Bool) (order : QuantileOrder)

theorem Carries.shown_jitter (h : Carries snapshot jitter execution)
    (hholds : jitter.Holds samples) (hcard : samples.card ≤ 2 ^ 44) :
    shown (renderPrometheus snapshot snapshotIsFresh) (quantileName jitterName order.label) =
      some (jitter.percentile order.value : ℚ) := by
  rw [← order.percentile_toInt hholds hcard, ← readDecimal_intText]
  apply shown_of_mem
  cases order with
  | p50 =>
    rw [QuantileOrder.percentile, ← h.jitterP50Ns]
    exact List.mem_of_getElem? (i := 6) rfl
  | p99 =>
    rw [QuantileOrder.percentile, ← h.jitterP99Ns]
    exact List.mem_of_getElem? (i := 7) rfl
  | p999 =>
    rw [QuantileOrder.percentile, ← h.jitterP999Ns]
    exact List.mem_of_getElem? (i := 8) rfl

theorem Carries.shown_execution (h : Carries snapshot jitter execution)
    (hholds : execution.Holds samples) (hcard : samples.card ≤ 2 ^ 44) :
    shown (renderPrometheus snapshot snapshotIsFresh) (quantileName executionName order.label) =
      some (execution.percentile order.shownOfExecution.value : ℚ) := by
  rw [← order.shownOfExecution.percentile_toInt hholds hcard, ← readDecimal_intText]
  apply shown_of_mem
  cases order with
  | p50 =>
    rw [QuantileOrder.shownOfExecution, QuantileOrder.percentile, ← h.executionP50Ns]
    exact List.mem_of_getElem? (i := 10) rfl
  | p99 =>
    rw [QuantileOrder.shownOfExecution, QuantileOrder.percentile, ← h.executionP99Ns]
    exact List.mem_of_getElem? (i := 11) rfl
  | p999 =>
    rw [QuantileOrder.shownOfExecution, QuantileOrder.percentile, ← h.executionP99Ns]
    exact List.mem_of_getElem? (i := 12) rfl

theorem covers_iff {text name : List Char} {order : QuantileOrder} {value : ℤ}
    (hshown : shown text (quantileName name order.label) = some (value : ℚ)) :
    Covers text name order samples ↔
      ((nthSmallest samples (rank order.value samples.card) : ℕ) : ℤ) ≤ value := by
  simp only [Covers, hshown, Option.some.injEq, exists_eq_left']
  exact_mod_cast Iff.rfl

theorem Carries.covers_jitter (h : Carries snapshot jitter execution)
    (hholds : jitter.Holds samples) (hcard : samples.card ≤ 2 ^ 44) :
    Covers (renderPrometheus snapshot snapshotIsFresh) jitterName order samples :=
  (covers_iff (h.shown_jitter snapshotIsFresh order hholds hcard)).mpr
    (hholds.nthSmallest_le_percentile (by omega) order.value)

/-- The line of the order 0.999 shows the percentile of the order 0.99, which covers its own
bucket only. -/
theorem Carries.covers_execution_iff (h : Carries snapshot jitter execution)
    (hholds : execution.Holds samples) (hcard : samples.card ≤ 2 ^ 44) :
    Covers (renderPrometheus snapshot snapshotIsFresh) executionName order samples ↔
      nthSmallest samples (rank order.value samples.card) ≤ bucketUpper kSubBucketBits
        (nthSmallest samples (rank order.shownOfExecution.value samples.card)) := by
  rw [covers_iff (h.shown_execution snapshotIsFresh order hholds hcard),
    hholds.percentile_eq (by omega), le_min_iff, and_iff_left]
  · exact_mod_cast Iff.rfl
  · exact_mod_cast nthSmallest_rank_le_sup samples order.value

end Text

section Daemon
variable {boot : Boot} {readings : ℕ → CycleReadings CallbackReadings} {n : ℕ}

/-- The snapshot of a cycle carries the percentiles of the wakeups up to its own and of the
callbacks before it. -/
theorem Boot.published_carries (hruns : (boot.loopAt readings n).Continues)
    (hfits : ∀ k ≤ n, (boot.loopAt readings k).Recordable (readings k)) :
    ∃ jitter execution : LatencyHistogram,
      jitter.Holds (boot.enter.jitterSamples cycle readings (n + 1)) ∧
        execution.Holds (executionSamples readings n) ∧
        Carries (boot.loopAt readings (n + 1)).captured.published jitter execution := by
  obtain ⟨hjitter, hexecution⟩ := executorAt_holds rfl hruns fun k hk => hfits k hk.le
  have hnext : boot.loopAt readings (n + 1) =
      (boot.loopAt readings n).cycle cycle (readings n) := executorAt_succ hruns
  refine ⟨_, _, jitterSamples_succ hjitter (hfits n le_rfl), hexecution, ?_⟩
  rw [hnext, cycle_eq]
  exact ⟨rfl, rfl, rfl, rfl, rfl⟩

/-- In a cycle with at most `2 ^ 44` before it, every quantile the endpoint shows is an upper
bound exactly when the execution time of the nearest rank to the order 0.999 is in reach of the
bucket of the one to the order 0.99. -/
theorem exported_quantiles_iff (hruns : (boot.loopAt readings n).Continues)
    (hfits : ∀ k ≤ n, (boot.loopAt readings k).Recordable (readings k)) (hn : n < 2 ^ 44)
    (snapshotIsFresh : Bool) :
    let text := renderPrometheus (boot.loopAt readings (n + 1)).captured.published snapshotIsFresh
    let samples := executionSamples readings n
    (∀ order, Covers text jitterName order (boot.enter.jitterSamples cycle readings (n + 1)) ∧
        Covers text executionName order samples) ↔
      nthSmallest samples (rank (999 / 1000) n) ≤
        bucketUpper kSubBucketBits (nthSmallest samples (rank (99 / 100) n)) := by
  intro text samples
  obtain ⟨jitter, execution, hjitter, hexecution, hcarries⟩ := Boot.published_carries hruns hfits
  have hcard : (executionSamples readings n).card ≤ 2 ^ 44 := by
    rw [card_executionSamples]
    exact hn.le
  have hexecutionLine (order : QuantileOrder) :=
    hcarries.covers_execution_iff snapshotIsFresh order hexecution hcard
  rw [card_executionSamples] at hexecutionLine
  constructor
  · intro h
    exact (hexecutionLine .p999).mp (h .p999).2
  · intro h order
    refine ⟨hcarries.covers_jitter snapshotIsFresh order hjitter ?_, (hexecutionLine order).mpr ?_⟩
    · rw [card_jitterSamples]
      omega
    · cases order with
      | p50 => exact le_bucketUpper _ _
      | p99 => exact le_bucketUpper _ _
      | p999 => exact h

theorem Boot.startNs_le_deadlineNs (boot : Boot) (readings : ℕ → CycleReadings CallbackReadings)
    (n : ℕ) : boot.startNs ≤ (boot.loopAt readings n).deadlineNs := by
  induction n with
  | zero => exact le_add_of_nonneg_right (executorConfig_periodNs_pos boot.frequency).le
  | succ n ih =>
    by_cases hruns : (boot.loopAt readings n).Continues
    · have hperiod := boot.loopAt_periodNs_pos readings n
      have hnext : boot.loopAt readings (n + 1) =
          (boot.loopAt readings n).cycle cycle (readings n) := executorAt_succ hruns
      rw [hnext, cycle_deadlineNs_skips cycle (readings n) hperiod]
      exact ih.trans (le_add_of_nonneg_right (by positivity))
    · have hsame : boot.loopAt readings (n + 1) = boot.loopAt readings n := if_neg hruns
      rwa [hsame]

/-- On a clock that counts up from zero in 64 bits every cycle can be recorded. -/
theorem Boot.recordable (hstart : 0 ≤ boot.startNs) (hclock : 0 ≤ (readings n).wokeNs ∧
    (readings n).wokeNs < 2 ^ 63 ∧ (readings n).finishedNs < 2 ^ 63) :
    (boot.loopAt readings n).Recordable (readings n) := by
  have hdeadline := boot.startNs_le_deadlineNs readings n
  constructor <;> omega

/-- A loop of 1 kHz that wakes up on time, with the given execution times. -/
def paced (execution : ℕ → ℕ) (k : ℕ) : CycleReadings CallbackReadings where
  wokeNs := 1000000 * (k + 1)
  callback := { estopAsserted := false, acknowledged := false, estopPublished := false }
  finishedNs := 1000000 * (k + 1) + execution k

theorem executionSamples_paced (execution : ℕ → ℕ) (n : ℕ) :
    executionSamples (paced execution) n = (Multiset.range n).map execution := by
  simp only [executionSamples, paced, add_sub_cancel_left, Int.toNat_natCast]

theorem paced_recordable {execution : ℕ → ℕ} (hexecution : ∀ k, execution k ≤ 900000) {n : ℕ}
    (hn : n ≤ 1000) : (oneKilohertz.loopAt (paced execution) n).Recordable (paced execution n) := by
  have hle := hexecution n
  apply Boot.recordable le_rfl
  simp only [paced]
  omega

theorem paced_continues (execution : ℕ → ℕ) (n : ℕ) :
    (oneKilohertz.loopAt (paced execution) n).Continues :=
  Boot.loopAt_continues (fun _ => rfl) n

/-- A steady execution time is covered. -/
theorem exported_quantiles_iff_steady :
    Covers (renderPrometheus
        (oneKilohertz.loopAt (paced fun _ => 20000) (1000 + 1)).captured.published true)
      executionName .p999 (executionSamples (paced fun _ => 20000) 1000) := by
  have hsteady {r : ℕ} (hr : 1 ≤ r) (hr' : r ≤ 1000) :
      nthSmallest (executionSamples (paced fun _ => 20000) 1000) r = 20000 := by
    rw [executionSamples_paced]
    have hmem := nthSmallest_mem hr (s := (Multiset.range 1000).map fun _ => 20000)
      (by rwa [Multiset.card_map, Multiset.card_range])
    obtain ⟨-, -, heq⟩ := Multiset.mem_map.mp hmem
    exact heq.symm
  refine ((exported_quantiles_iff (paced_continues _ 1000)
    (fun k hk => paced_recordable (fun _ => by decide) hk) (by norm_num) true).mpr ?_ .p999).2
  rw [hsteady (rank_pos _ _) (rank_le _ (by decide)),
    hsteady (rank_pos _ _) (rank_le _ (by decide))]
  exact le_bucketUpper _ _

/-- One slow callback in a hundred. -/
def oneSlow (k : ℕ) : ℕ := if k = 99 then 900000 else 20000

theorem nthSmallest_oneSlow {r : ℕ} (hr : 1 ≤ r) (hr' : r ≤ 100) :
    nthSmallest ((Multiset.range 100).map oneSlow) r = if r ≤ 99 then 20000 else 900000 := by
  have hcard : ((Multiset.range 100).map oneSlow).card = 100 := by
    rw [Multiset.card_map, Multiset.card_range]
  have hcount : ((Multiset.range 100).map oneSlow).countP (· ≤ 20000) = 99 := by decide +kernel
  have hlow := nthSmallest_iff (p := (· ≤ 20000)) (fun _ _ hab hb => hab.trans hb) hr
    (hr'.trans_eq hcard.symm)
  obtain ⟨k, -, hvalue⟩ := Multiset.mem_map.mp (nthSmallest_mem hr (hr'.trans_eq hcard.symm))
  rw [hcount, ← hvalue, oneSlow] at hlow
  rw [← hvalue, oneSlow]
  split_ifs at hlow ⊢ <;> omega

/-- The line of the order 0.999 shows 20479 ns, although the sample of its rank is the slow
one. -/
theorem execution_p999_understated :
    shown (renderPrometheus (oneKilohertz.loopAt (paced oneSlow) (100 + 1)).captured.published true)
        (quantileName executionName "0.999".toList) = some 20479 ∧
      nthSmallest (executionSamples (paced oneSlow) 100) (rank (999 / 1000) 100) = 900000 := by
  have hle (k : ℕ) : oneSlow k ≤ 900000 := by
    unfold oneSlow
    split_ifs <;> decide
  obtain ⟨jitter, execution, -, hexecution, hcarries⟩ :=
    Boot.published_carries (paced_continues oneSlow 100)
      fun k hk => paced_recordable hle (hk.trans (by decide))
  have hcard : (executionSamples (paced oneSlow) 100).card = 100 := card_executionSamples _ 100
  have hsup : ((Multiset.range 100).map oneSlow).sup = 900000 := by decide +kernel
  have hrank : rank (99 / 100) 100 = 99 := by decide +kernel
  have hrank' : rank (999 / 1000) 100 = 100 := by decide +kernel
  have hvalue : execution.percentile (99 / 100) = 20479 := by
    rw [hexecution.percentile_eq (by omega), hcard, executionSamples_paced, hsup, hrank,
      nthSmallest_oneSlow (by decide) (by decide)]
    decide
  have hshown := hcarries.shown_execution true .p999 hexecution (by omega)
  constructor
  · refine hshown.trans (congrArg some ?_)
    exact_mod_cast hvalue
  · rw [hrank', executionSamples_paced, nthSmallest_oneSlow (by decide) (by decide)]
    rfl

end Daemon

end Apps
end SafeEdge
