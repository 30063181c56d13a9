import SafeEdge.Apps.SupervisionTime
import SafeEdge.Edge.MetricCounters
import SafeEdge.Ipc.StoredSequence

/-! What anybody outside the control loop is told about allocations in it. -/
namespace SafeEdge.Rt.CyclicExecutor
variable {ι σ : Type*} (executor : CyclicExecutor σ)

/-- The loop itself leaves the count of violations alone: it is written after the last cycle. -/
theorem cycle_allocationViolations (callback : CycleCallback ι σ) (readings : CycleReadings ι) :
    (executor.cycle callback readings).stats.allocationViolations =
      executor.stats.allocationViolations := by
  simp only [cycle, advanceDeadline]
  split_ifs
  · split <;> rfl
  · rfl

end SafeEdge.Rt.CyclicExecutor

namespace SafeEdge.Apps
open Library Safety Rt Edge Ipc

section Run
variable (boot : Boot) (readings : ℕ → CycleReadings CallbackReadings)

/-- The snapshot the loop has published last before cycle `n`. -/
def Boot.snapshotAt (n : ℕ) : RuntimeSnapshot := (boot.loopAt readings n).captured.published

theorem Boot.loopAt_succ (n : ℕ) : boot.loopAt readings (n + 1) =
    (boot.loopAt readings n).iterate cycle (readings n) := rfl

/-- The count is zero in the statistics and in the snapshot all through the run. -/
theorem Boot.loopAt_allocationViolations (n : ℕ) :
    (boot.loopAt readings n).stats.allocationViolations = 0 ∧
      (boot.snapshotAt readings n).allocationViolations = 0 := by
  induction n with
  | zero => exact ⟨rfl, rfl⟩
  | succ n ih =>
    rw [Boot.snapshotAt, boot.loopAt_succ, CyclicExecutor.iterate]
    split_ifs
    · rw [CyclicExecutor.cycle_allocationViolations]
      refine ⟨ih.1, ?_⟩
      rw [CyclicExecutor.cycle_eq]
      exact ih.1
    · exact ih

end Run

theorem snapshotAt_zero (boot : Boot) (readings : ℕ → CycleReadings CallbackReadings) :
    boot.snapshotAt readings 0 = TriviallyCopyable.ofWords fun _ => 0 := rfl

/-- However the control loop's stores and the loads of any number of readers interleave, the
metrics rendered from a loaded snapshot show no violation, whatever the callbacks have allocated. -/
theorem violations_never_exported {ι : Type*} [DecidableEq ι] (boot : Boot)
    (readings : ℕ → CycleReadings CallbackReadings) (outs : ι → RuntimeSnapshot)
    (schedule : ℕ → Turn ι RuntimeSnapshot)
    (hstores : (Execution.initial outs).StoresInOrder schedule (boot.snapshotAt readings))
    (id : ι) (k : ℕ) (hcount : ((Execution.initial outs).executionAt schedule k).stores < 2 ^ 63)
    (hreturns : (Execution.initial outs).Returns schedule id k true) (fresh : Bool) :
    shown (renderPrometheus
        (((Execution.initial outs).executionAt schedule (k + 1)).readers id).out fresh)
      "safeedge_allocation_violations_total".toList = some 0 := by
  rw [Execution.load_eq_value hstores (snapshotAt_zero boot readings) hcount hreturns]
  generalize ((Execution.initial outs).executionAt schedule k).published.length - 1 = n
  have hzero := (boot.loopAt_allocationViolations readings n).2
  have hcounter : ("safeedge_allocation_violations_total".toList, (0 : UInt64)) ∈
      counters (boot.snapshotAt readings n) := by
    rw [← hzero]
    exact List.mem_of_getElem? (i := 3) rfl
  rw [shown_counter fresh hcounter (by decide)]
  decide +kernel

/-- The daemon stores the snapshot from before its loop and those of two cycles, and a reader loads
the last one. -/
def storedThrice (k : ℕ) : Turn Unit RuntimeSnapshot :=
  if k < 72 then .writer (oneKilohertz.snapshotAt (punctualReadings 1000000) (k / 24))
  else .reader () {} 32

theorem storedThrice_inOrder : (Execution.initial fun _ => {}).StoresInOrder storedThrice
    (oneKilohertz.snapshotAt (punctualReadings 1000000)) := by
  have hpublished : ∀ k < 72, ((Execution.initial fun _ => {}).executionAt storedThrice
      k).published.length = k / 24 := by decide +kernel
  intro k value hturn
  unfold storedThrice at hturn
  split_ifs at hturn with hk
  rw [hpublished k hk]
  exact (Turn.writer.inj hturn).symm

theorem violations_never_exported_storedThrice :
    let loaded :=
      (((Execution.initial fun _ => {}).executionAt storedThrice (95 + 1)).readers ()).out
    loaded.telegramsAccepted = 2 ∧ loaded.torquePermitted = 1 ∧
      shown (renderPrometheus loaded true) "safeedge_allocation_violations_total".toList =
        some 0 := by
  have hreturns : (Execution.initial fun _ => {}).Returns storedThrice () 95 true :=
    ⟨⟨_, _, rfl⟩, by decide +kernel⟩
  refine ⟨by decide +kernel, by decide +kernel, ?_⟩
  exact violations_never_exported oneKilohertz (punctualReadings 1000000) (fun _ => {}) storedThrice
    storedThrice_inOrder () 95 (by decide +kernel) hreturns true

end SafeEdge.Apps
