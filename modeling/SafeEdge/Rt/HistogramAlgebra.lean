import SafeEdge.Rt.Percentile

/-! Histograms that were split, merged and reset: what they hold is what recording their samples
one by one would have left. -/
namespace SafeEdge.Rt
namespace LatencyHistogram

theorem eq_of_fields {a b : LatencyHistogram} (hbuckets : ∀ i, a.buckets i = b.buckets i)
    (hcount : a.count = b.count) (hmax : a.max = b.max) (hmin : a.min = b.min) : a = b := by
  cases a
  cases b
  simp only at hbuckets hcount hmax hmin
  rw [funext hbuckets, hcount, hmax, hmin]

section Record
variable (histogram : LatencyHistogram)

theorem bucketIndexFor_clamped_lt (value : ℤ) :
    bucketIndexFor (UInt64.ofInt (Max.max value 0)) < kBucketCount :=
  bucketIndexFor_lt _

/-- The bucket a recorded value is counted in. -/
def place (value : ℤ) : Fin kBucketCount :=
  ⟨bucketIndexFor (UInt64.ofInt (Max.max value 0)), bucketIndexFor_clamped_lt value⟩

theorem recordMany_of_ne_zero (value : ℤ) {count : UInt64} (h : count ≠ 0) :
    histogram.recordMany value count =
      { buckets := fun i => histogram.buckets i + if i = place value then count else 0
        count := histogram.count + count
        max := Max.max histogram.max (Max.max value 0)
        min := Min.min histogram.min (Max.max value 0) } := by
  rw [recordMany, if_neg h]
  refine eq_of_fields (fun i => ?_) rfl rfl rfl
  change Function.update histogram.buckets (place value) _ i = _
  rw [Function.update_apply]
  dsimp only
  split_ifs with hi
  · rw [hi]
    rfl
  · exact (UInt64.add_zero _).symm

theorem record_eq (value : ℤ) : histogram.record value =
    { buckets := fun i => histogram.buckets i + if i = place value then 1 else 0
      count := histogram.count + 1
      max := Max.max histogram.max (Max.max value 0)
      min := Min.min histogram.min (Max.max value 0) } :=
  histogram.recordMany_of_ne_zero value (by decide)

theorem record_comm (a b : ℤ) :
    (histogram.record a).record b = (histogram.record b).record a := by
  simp only [record_eq]
  apply eq_of_fields
  · intro i
    dsimp only
    rw [UInt64.add_assoc, UInt64.add_assoc, UInt64.add_comm (ite _ _ _)]
  · rfl
  · exact max_right_comm ..
  · exact min_right_comm ..

/-- One more copy of a value, as long as the number of copies does not wrap. -/
theorem recordMany_succ (value : ℤ) {count : UInt64} (h : count + 1 ≠ 0) :
    histogram.recordMany value (count + 1) = (histogram.recordMany value count).record value := by
  rcases eq_or_ne count 0 with rfl | hcount
  · rfl
  · rw [record_eq, recordMany_of_ne_zero _ _ h, recordMany_of_ne_zero _ _ hcount]
    apply eq_of_fields
    · intro i
      dsimp only
      split_ifs
      · rw [UInt64.add_assoc]
      · rw [UInt64.add_zero, UInt64.add_zero]
    · exact (UInt64.add_assoc ..).symm
    · exact (max_eq_left (le_max_right _ _)).symm
    · exact (min_eq_left (min_le_right _ _)).symm

end Record

instance record_rightCommutative :
    RightCommutative fun (histogram : LatencyHistogram) (value : Int64) =>
      histogram.record value.toInt :=
  ⟨fun histogram a b => histogram.record_comm a.toInt b.toInt⟩

section RecordAll
variable (histogram : LatencyHistogram) (value : Int64) (samples : Multiset Int64)

/-- Recording the samples of a multiset one by one, in whatever order. -/
def recordAll : LatencyHistogram :=
  samples.foldl (fun histogram value => histogram.record value.toInt) histogram

theorem recordAll_coe (order : List Int64) : histogram.recordAll order =
    order.foldl (fun histogram value => histogram.record value.toInt) histogram := rfl

theorem recordAll_add (more : Multiset Int64) :
    histogram.recordAll (samples + more) = (histogram.recordAll samples).recordAll more :=
  Multiset.foldl_add ..

theorem recordAll_singleton : histogram.recordAll {value} = histogram.record value.toInt := rfl

theorem recordAll_cons : histogram.recordAll (value ::ₘ samples) =
    (histogram.recordAll samples).record value.toInt := by
  rw [← Multiset.singleton_add, add_comm, recordAll_add, recordAll_singleton]

theorem recordAll_replicate (count : UInt64) :
    histogram.recordAll (Multiset.replicate count.toNat value) =
      histogram.recordMany value.toInt count := by
  suffices hall : ∀ n < 2 ^ 64, histogram.recordAll (Multiset.replicate n value) =
      histogram.recordMany value.toInt (UInt64.ofNat n) by
    have h := hall count.toNat count.toNat_lt
    rwa [UInt64.ofNat_toNat] at h
  intro n hn
  induction n with
  | zero => rfl
  | succ n ih =>
    have hnext : UInt64.ofNat n + 1 ≠ 0 := by
      intro hzero
      have hvalue := congrArg UInt64.toNat hzero
      rw [UInt64.toNat_add, UInt64.toNat_ofNat', UInt64.toNat_one, UInt64.toNat_zero] at hvalue
      omega
    rw [Multiset.replicate_succ, recordAll_cons, ih (by omega), ← recordMany_succ _ _ hnext,
      UInt64.ofNat_add]
    rfl

theorem recordAll_count :
    (histogram.recordAll samples).count = histogram.count + UInt64.ofNat samples.card := by
  induction samples using Multiset.induction with
  | empty => exact (UInt64.add_zero _).symm
  | cons value samples ih =>
    rw [recordAll_cons, record_eq, Multiset.card_cons, UInt64.ofNat_add, ← UInt64.add_assoc, ← ih]
    rfl

end RecordAll

section Merge

/-- The merge of two histograms, an empty other one included. -/
def combine (histogram other : LatencyHistogram) : LatencyHistogram where
  buckets i := histogram.buckets i + other.buckets i
  count := histogram.count + other.count
  max := Max.max histogram.max other.max
  min := Min.min histogram.min other.min

theorem combine_record (histogram other : LatencyHistogram) (value : ℤ) :
    histogram.combine (other.record value) = (histogram.combine other).record value := by
  simp only [record_eq, combine]
  apply eq_of_fields
  · exact fun i => (UInt64.add_assoc ..).symm
  · exact (UInt64.add_assoc ..).symm
  · exact (max_assoc ..).symm
  · exact (min_assoc ..).symm

/-- The extremes of the empty histogram are neutral for every sample. -/
theorem recordAll_extremes (samples : Multiset Int64) :
    0 ≤ (recordAll {} samples).max ∧ (recordAll {} samples).min ≤ 2 ^ 63 - 1 := by
  induction samples using Multiset.induction with
  | empty => exact ⟨le_rfl, le_rfl⟩
  | cons value samples ih =>
    rw [recordAll_cons, record_eq]
    exact ⟨ih.1.trans (le_max_left _ _), (min_le_left _ _).trans ih.2⟩

theorem combine_recordAll (samples more : Multiset Int64) :
    (recordAll {} samples).combine (recordAll {} more) = recordAll {} (samples + more) := by
  induction more using Multiset.induction with
  | empty =>
    obtain ⟨hmax, hmin⟩ := recordAll_extremes samples
    rw [add_zero]
    apply eq_of_fields
    · exact fun i => UInt64.add_zero _
    · exact UInt64.add_zero _
    · exact max_eq_left hmax
    · exact min_eq_left hmin
  | cons value more ih =>
    rw [recordAll_cons, combine_record, ih, Multiset.add_cons, recordAll_cons]

/-- The early return of `merge` is taken for a histogram without samples only. -/
theorem merge_recordAll (samples : Multiset Int64) {more : Multiset Int64}
    (h : more.card < 2 ^ 64) :
    (recordAll {} samples).merge (recordAll {} more) = recordAll {} (samples + more) := by
  rw [merge]
  split_ifs with hzero
  · rw [recordAll_count] at hzero
    have hcard := congrArg UInt64.toNat hzero
    rw [UInt64.toNat_add, UInt64.toNat_ofNat', Nat.mod_eq_of_lt h, UInt64.toNat_zero] at hcard
    have hnone : more = 0 := Multiset.card_eq_zero.mp (by omega)
    rw [hnone, add_zero]
  · exact combine_recordAll samples more

end Merge
end LatencyHistogram

/-- The histograms a program can build, by the operations that build them. -/
inductive HistogramExpression where
  | empty
  | record (histogram : HistogramExpression) (value : Int64)
  | recordMany (histogram : HistogramExpression) (value : Int64) (count : UInt64)
  | merge (histogram other : HistogramExpression)
  | reset (histogram : HistogramExpression)

namespace HistogramExpression
open LatencyHistogram

def histogram : HistogramExpression → LatencyHistogram
  | .empty => {}
  | .record expression value => expression.histogram.record value.toInt
  | .recordMany expression value count => expression.histogram.recordMany value.toInt count
  | .merge expression other => expression.histogram.merge other.histogram
  | .reset expression => expression.histogram.reset

/-- The samples an expression stands for. -/
def samples : HistogramExpression → Multiset Int64
  | .empty => 0
  | .record expression value => value ::ₘ expression.samples
  | .recordMany expression value count =>
    expression.samples + Multiset.replicate count.toNat value
  | .merge expression other => expression.samples + other.samples
  | .reset _ => 0

theorem histogram_eq (expression : HistogramExpression) (h : expression.samples.card < 2 ^ 64) :
    expression.histogram = recordAll {} expression.samples := by
  induction expression with
  | empty => rfl
  | record expression value ih =>
    rw [samples, Multiset.card_cons] at h
    rw [histogram, samples, recordAll_cons, ih (by omega)]
  | recordMany expression value count ih =>
    rw [samples, Multiset.card_add] at h
    rw [histogram, samples, recordAll_add, recordAll_replicate, ih (by omega)]
  | merge expression other ih ihother =>
    rw [samples, Multiset.card_add] at h
    rw [histogram, samples, ih (by omega), ihother (by omega), merge_recordAll _ (by omega)]
  | reset expression => rfl

/-- A histogram built by any operations is the one that records the samples it stands for, one by
one and in any order. Whatever it reports depends on these samples only. -/
theorem histogram_homomorphic (expression : HistogramExpression)
    (h : expression.samples.card < 2 ^ 64) :
    (∀ order : List Int64, (order : Multiset Int64) = expression.samples →
      expression.histogram =
        order.foldl (fun histogram value => histogram.record value.toInt) {}) ∧
    ∀ other : HistogramExpression, other.samples = expression.samples →
      (∀ quantile, other.histogram.percentile quantile =
        expression.histogram.percentile quantile) ∧
      other.histogram.reportedMin = expression.histogram.reportedMin ∧
      other.histogram.max = expression.histogram.max := by
  constructor
  · intro order horder
    rw [expression.histogram_eq h, ← horder, recordAll_coe]
  · intro other hsame
    have hequal : other.histogram = expression.histogram := by
      rw [expression.histogram_eq h, other.histogram_eq (hsame ▸ h), hsame]
    rw [hequal]
    exact ⟨fun _ => rfl, rfl, rfl⟩

/-- Seven copies recorded at once, merged with a reset histogram that has recorded since. -/
def rejoined : HistogramExpression :=
  .merge (.recordMany .empty 40 7) (.record (.reset (.record .empty 90)) (-3))

theorem histogram_homomorphic_rejoined :
    rejoined.histogram = [40, -3, 40, 40, 40, 40, 40, 40].foldl
      (fun histogram (value : Int64) => histogram.record value.toInt) {} :=
  (histogram_homomorphic rejoined (by decide)).1 _ (by decide)

end HistogramExpression
end SafeEdge.Rt
