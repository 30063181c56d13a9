import SafeEdge.Edge.Metrics

/-! The counters among the metrics, and which of their values survive the text. -/
namespace SafeEdge.Edge
open Library

def telegramsName (result : String) : List Char :=
  labelled "safeedge_telegrams_total".toList "result".toList result.toList

/-- The counters of a snapshot under the names of their samples. -/
def counters (snapshot : RuntimeSnapshot) : List (List Char × UInt64) :=
  [("safeedge_cycles_total".toList, snapshot.cyclesExecuted),
    ("safeedge_overruns_total".toList, snapshot.overruns),
    ("safeedge_skipped_cycles_total".toList, snapshot.skippedCycles),
    ("safeedge_allocation_violations_total".toList, snapshot.allocationViolations),
    ("safeedge_safety_sequence".toList, snapshot.safetySequence),
    (telegramsName "accepted", snapshot.telegramsAccepted),
    (telegramsName "rejected", snapshot.telegramsRejected)]

/-- At most six figures, and zeros after them. -/
def SixFigures (n : ℕ) : Prop := ∃ k j, k < 10 ^ 6 ∧ n = k * 10 ^ j

instance decidableSixFigures (n : ℕ) : Decidable (SixFigures n) :=
  decidable_of_iff (roundFigures 6 n = n) roundFigures_eq_iff

variable {snapshot : RuntimeSnapshot} (snapshotIsFresh : Bool)

theorem counter_mem_metricSamples {counter : List Char × UInt64}
    (h : counter ∈ counters snapshot) :
    (counter.1, (ofUInt64 counter.2).generalText 6) ∈
      (metricSamples snapshot snapshotIsFresh).flatten := by
  simp only [counters, List.mem_cons, List.not_mem_nil, or_false] at h
  rcases h with rfl | rfl | rfl | rfl | rfl | rfl | rfl
  · exact List.mem_of_getElem? (i := 2) rfl
  · exact List.mem_of_getElem? (i := 3) rfl
  · exact List.mem_of_getElem? (i := 4) rfl
  · exact List.mem_of_getElem? (i := 5) rfl
  · exact List.mem_of_getElem? (i := 19) rfl
  · exact List.mem_of_getElem? (i := 21) rfl
  · exact List.mem_of_getElem? (i := 22) rfl

/-- What is shown of a counter is its value rounded to six figures. -/
theorem shown_counter {counter : List Char × UInt64} (h : counter ∈ counters snapshot)
    (hrange : counter.2.toNat < 2 ^ 53) :
    shown (renderPrometheus snapshot snapshotIsFresh) counter.1 =
      some (roundFigures 6 counter.2.toNat : ℚ) := by
  rw [shown_of_mem (counter_mem_metricSamples snapshotIsFresh h)]
  exact Binary64.readDecimal_ofInt (by decide) hrange

theorem shown_counter_iff {counter : List Char × UInt64} (h : counter ∈ counters snapshot)
    (hrange : counter.2.toNat < 2 ^ 53) :
    shown (renderPrometheus snapshot snapshotIsFresh) counter.1 = some (counter.2.toNat : ℚ) ↔
      SixFigures counter.2.toNat := by
  rw [shown_counter snapshotIsFresh h hrange, Option.some.injEq, Nat.cast_inj,
    roundFigures_eq_iff, SixFigures]

/-- Counters that are shown exactly are equal if the texts are. -/
theorem counters_eq_of_shown {other : RuntimeSnapshot} {text : List Char}
    (hshown : ∀ counter ∈ counters snapshot, shown text counter.1 = some (counter.2.toNat : ℚ))
    (hother : ∀ counter ∈ counters other, shown text counter.1 = some (counter.2.toNat : ℚ)) :
    counters snapshot = counters other := by
  have hinjective : Function.Injective fun n : UInt64 => some (n.toNat : ℚ) := fun m n h =>
    UInt64.toNat_inj.mp (Nat.cast_injective (Option.some.inj h))
  have hvalues : ((counters snapshot).map Prod.snd).map (fun n => some (n.toNat : ℚ)) =
      ((counters other).map Prod.snd).map (fun n => some (n.toNat : ℚ)) := by
    rw [List.map_map, List.map_map]
    calc
      _ = (counters snapshot).map (fun counter => shown text counter.1) :=
        List.map_congr_left fun counter h => (hshown counter h).symm
      _ = (counters other).map (fun counter => shown text counter.1) := rfl
      _ = _ := List.map_congr_left hother
  calc
    counters snapshot = ((counters snapshot).map Prod.fst).zip ((counters snapshot).map Prod.snd) :=
      List.zip_of_prod rfl rfl
    _ = ((counters other).map Prod.fst).zip ((counters other).map Prod.snd) := by
      rw [List.map_injective_iff.mpr hinjective hvalues]
      rfl
    _ = counters other := (List.zip_of_prod rfl rfl).symm

/-- A counter below `2 ^ 53` is shown exactly if it has at most six figures and zeros after them.
Where all counters of two snapshots are such numbers, equal texts have equal counters. -/
theorem counters_survive_iff (snapshot : RuntimeSnapshot) (snapshotIsFresh : Bool)
    (hrange : ∀ counter ∈ counters snapshot, counter.2.toNat < 2 ^ 53) :
    (∀ counter ∈ counters snapshot,
      (shown (renderPrometheus snapshot snapshotIsFresh) counter.1 = some (counter.2.toNat : ℚ) ↔
        SixFigures counter.2.toNat)) ∧
    ∀ (other : RuntimeSnapshot) (otherIsFresh : Bool),
      (∀ counter ∈ counters other, counter.2.toNat < 2 ^ 53) →
      (∀ counter ∈ counters snapshot ++ counters other, SixFigures counter.2.toNat) →
      renderPrometheus snapshot snapshotIsFresh = renderPrometheus other otherIsFresh →
      counters snapshot = counters other := by
  refine ⟨fun counter hcounter => shown_counter_iff _ hcounter (hrange counter hcounter),
    fun other otherIsFresh hother hfigures hsame => ?_⟩
  have hshown : ∀ counter ∈ counters snapshot,
      shown (renderPrometheus snapshot snapshotIsFresh) counter.1 = some (counter.2.toNat : ℚ) :=
    fun counter hcounter => (shown_counter_iff _ hcounter (hrange counter hcounter)).mpr
      (hfigures counter (List.mem_append_left _ hcounter))
  refine counters_eq_of_shown hshown fun counter hcounter => ?_
  rw [hsame]
  exact (shown_counter_iff _ hcounter (hother counter hcounter)).mpr
    (hfigures counter (List.mem_append_right _ hcounter))

/-- A snapshot of a runtime that has run for some thirty-four hours. -/
def dayAndHalf : RuntimeSnapshot :=
  { cyclesExecuted := 123456000, overruns := 1234, safetySequence := 5,
    telegramsAccepted := 123455987, telegramsRejected := 13 }

/-- The cycles are shown exactly and the telegrams accepted are not. With a round number of these
in their place, a snapshot that differs in the time of a transition has the same text. -/
theorem counters_survive_iff_dayAndHalf :
    (∀ counter ∈ counters dayAndHalf, counter.2.toNat < 2 ^ 53) ∧
    shown (renderPrometheus dayAndHalf true) "safeedge_cycles_total".toList = some 123456000 ∧
    shown (renderPrometheus dayAndHalf true) (telegramsName "accepted") ≠ some 123455987 ∧
    counters { dayAndHalf with telegramsAccepted := 123456000 } =
      counters { dayAndHalf with
        telegramsAccepted := 123456000
        safetyTransitionMonotonicNs := 1 } := by
  have hrange : ∀ counter ∈ counters dayAndHalf, counter.2.toNat < 2 ^ 53 := by decide +kernel
  obtain ⟨hiff, -⟩ := counters_survive_iff dayAndHalf true hrange
  have hcycles := hiff ("safeedge_cycles_total".toList, 123456000) List.mem_cons_self
  have haccepted := hiff (telegramsName "accepted", 123455987)
    (List.mem_of_getElem? (i := 5) rfl)
  obtain ⟨-, hsame⟩ := counters_survive_iff { dayAndHalf with telegramsAccepted := 123456000 } true
    (by decide +kernel)
  refine ⟨hrange, ?_, ?_, hsame _ true (by decide +kernel) (by decide +kernel) rfl⟩
  · exact_mod_cast hcycles.mpr (by decide +kernel)
  · exact_mod_cast haccepted.not.mpr (by decide +kernel)

/-- The cycle counter of a runtime that has run for twenty minutes is shown rounded, and the next
cycles do not change the text. -/
theorem cycles_rounded :
    shown (renderPrometheus { cyclesExecuted := 1234567 } true) "safeedge_cycles_total".toList =
      some 1234570 ∧
    renderPrometheus { cyclesExecuted := 1234567 } true =
      renderPrometheus { cyclesExecuted := 1234568 } true := by
  constructor
  · have hmem : ("safeedge_cycles_total".toList, (1234567 : UInt64)) ∈
        counters { cyclesExecuted := 1234567 } := List.mem_cons_self
    have hshown := shown_counter true hmem (by decide)
    have hround : roundFigures 6 (1234567 : UInt64).toNat = 1234570 := by decide
    rw [hround] at hshown
    exact_mod_cast hshown
  · have hvalue : (ofUInt64 1234567).generalText 6 = (ofUInt64 1234568).generalText 6 := by
      decide +kernel
    unfold renderPrometheus metricBlocks appendMetric
    simp only [hvalue]

end SafeEdge.Edge
