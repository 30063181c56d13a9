import SafeEdge.Library.OrderStatistic
import SafeEdge.Rt.BucketLayout

/-! Percentiles of the recorded samples: what the buckets hold after any calls, and how far the
bound of a bucket is from the sample of the requested rank. -/
namespace SafeEdge.Rt
open Library

namespace LatencyHistogram

/-- What a histogram keeps of the samples recorded in it. -/
structure Holds (histogram : LatencyHistogram) (samples : Multiset ℕ) : Prop where
  small : ∀ x ∈ samples, x < 2 ^ 63
  buckets : ∀ i : Fin kBucketCount, histogram.buckets i =
    UInt64.ofNat (samples.countP fun x => bucketIndex kSubBucketBits x = i)
  count : histogram.count = UInt64.ofNat samples.card
  max : histogram.max = samples.sup

theorem holds_empty : Holds {} 0 :=
  ⟨fun _ h => absurd h (Multiset.notMem_zero _), fun _ => rfl, rfl, rfl⟩

theorem Holds.recordMany {histogram : LatencyHistogram} {samples : Multiset ℕ}
    (h : histogram.Holds samples) {value : ℤ} (hvalue : value < 2 ^ 63) (count : UInt64) :
    (histogram.recordMany value count).Holds
      (samples + Multiset.replicate count.toNat value.toNat) := by
  have hclamped : Max.max value 0 = (value.toNat : ℤ) := by omega
  have hplace : bucketIndexFor (UInt64.ofInt (Max.max value 0)) =
      bucketIndex kSubBucketBits value.toNat := by
    rw [bucketIndexFor_eq, hclamped, UInt64.ofInt, UInt64.toNat_ofNat']
    congr 1
    omega
  unfold LatencyHistogram.recordMany
  split_ifs with hcount
  · subst hcount
    simpa using h
  · have hne : count.toNat ≠ 0 := fun hzero => hcount (UInt64.toNat_inj.mp hzero)
    refine ⟨?_, ?_, ?_, ?_⟩
    · intro x hx
      rcases Multiset.mem_add.mp hx with hx | hx
      · exact h.small x hx
      · rw [Multiset.eq_of_mem_replicate hx]
        omega
    · intro i
      change Function.update histogram.buckets
        ⟨bucketIndexFor (UInt64.ofInt (Max.max value 0)), bucketIndexFor_lt _⟩ _ i = _
      rw [Function.update_apply, Multiset.countP_add, countP_replicate, UInt64.ofNat_add,
        ← h.buckets]
      by_cases hi : bucketIndex kSubBucketBits value.toNat = i
      · have hsame : i = ⟨bucketIndexFor (UInt64.ofInt (Max.max value 0)), bucketIndexFor_lt _⟩ :=
          Fin.ext (hi.symm.trans hplace.symm)
        rw [if_pos hsame, if_pos hi, UInt64.ofNat_toNat, ← hsame]
      · have hother : i ≠ ⟨bucketIndexFor (UInt64.ofInt (Max.max value 0)),
            bucketIndexFor_lt _⟩ := fun he => hi (hplace.symm.trans (congrArg Fin.val he).symm)
        rw [if_neg hother, if_neg hi]
        simp
    · rw [h.count, Multiset.card_add, Multiset.card_replicate, UInt64.ofNat_add,
        UInt64.ofNat_toNat]
    · change Max.max histogram.max (Max.max value 0) = _
      rw [h.max, hclamped, Multiset.sup_add, sup_replicate hne]
      push_cast
      rfl

theorem Holds.record {histogram : LatencyHistogram} {samples : Multiset ℕ}
    (h : histogram.Holds samples) {value : ℤ} (hvalue : value < 2 ^ 63) :
    (histogram.record value).Holds (value.toNat ::ₘ samples) := by
  have hmany := h.recordMany hvalue 1
  rwa [show (1 : UInt64).toNat = 1 from rfl, Multiset.replicate_one, add_comm,
    Multiset.singleton_add] at hmany

end LatencyHistogram

inductive RecordCall where
  | record (value : Int64)
  | recordMany (value : Int64) (count : UInt64)

/-- What a call adds to the recorded samples, negative values clamped to zero. -/
def RecordCall.samples : RecordCall → Multiset ℕ
  | .record value => {value.toInt.toNat}
  | .recordMany value count => Multiset.replicate count.toNat value.toInt.toNat

def recordedSamples (calls : List RecordCall) : Multiset ℕ :=
  (calls.map RecordCall.samples).sum

namespace LatencyHistogram

def call (histogram : LatencyHistogram) : RecordCall → LatencyHistogram
  | .record value => histogram.record value.toInt
  | .recordMany value count => histogram.recordMany value.toInt count

/-- The histogram after the given calls on an empty one. -/
def afterCalls (calls : List RecordCall) : LatencyHistogram := calls.foldl call {}

theorem Holds.call {histogram : LatencyHistogram} {samples : Multiset ℕ}
    (h : histogram.Holds samples) (c : RecordCall) :
    (histogram.call c).Holds (samples + c.samples) := by
  cases c with
  | record value => exact h.recordMany value.toInt_lt 1
  | recordMany value count => exact h.recordMany value.toInt_lt count

theorem Holds.calls {histogram : LatencyHistogram} {samples : Multiset ℕ}
    (h : histogram.Holds samples) (calls : List RecordCall) :
    (calls.foldl LatencyHistogram.call histogram).Holds (samples + recordedSamples calls) := by
  induction calls generalizing histogram samples with
  | nil => simpa [recordedSamples] using h
  | cons c calls ih =>
    have hrest := ih (h.call c)
    rwa [add_assoc] at hrest

theorem afterCalls_holds (calls : List RecordCall) :
    (afterCalls calls).Holds (recordedSamples calls) := by
  have h := holds_empty.calls calls
  rwa [zero_add] at h

section Scan

/-- The samples in the buckets before bucket `j`. -/
def below (samples : Multiset ℕ) (j : ℕ) : ℕ :=
  samples.countP fun x => bucketIndex kSubBucketBits x < j

theorem below_succ (samples : Multiset ℕ) (j : ℕ) : below samples (j + 1) =
    below samples j + samples.countP fun x => bucketIndex kSubBucketBits x = j := by
  unfold below
  induction samples using Multiset.induction with
  | empty => rfl
  | cons x samples ih =>
    rw [Multiset.countP_cons, Multiset.countP_cons, Multiset.countP_cons, ih]
    split_ifs <;> omega

theorem below_mono (samples : Multiset ℕ) {j k : ℕ} (h : j ≤ k) :
    below samples j ≤ below samples k := by
  induction k, h using Nat.le_induction with
  | base => exact le_rfl
  | succ k _ ih =>
    rw [below_succ]
    exact ih.trans (Nat.le_add_right _ _)

theorem below_zero (samples : Multiset ℕ) : below samples 0 = 0 :=
  Multiset.countP_eq_zero.mpr fun _ _ => Nat.not_lt_zero _

theorem below_le_card (samples : Multiset ℕ) (j : ℕ) : below samples j ≤ samples.card :=
  Multiset.countP_le_card _ _

variable {histogram : LatencyHistogram} {samples : Multiset ℕ}

/-- One turn of the loop, with the samples seen so far as a number. -/
theorem Holds.percentileFrom_drop (h : histogram.Holds samples) (hcard : samples.card < 2 ^ 64)
    {target : ℕ} (htarget : target < 2 ^ 64) (j : Fin kBucketCount) :
    histogram.percentileFrom (UInt64.ofNat target) (UInt64.ofNat (below samples j))
        ((List.finRange kBucketCount).drop j) =
      if target ≤ below samples (j + 1) then
        Min.min (bucketUpperBound j).toInt64.toInt histogram.max
      else histogram.percentileFrom (UInt64.ofNat target) (UInt64.ofNat (below samples (j + 1)))
        ((List.finRange kBucketCount).drop (j + 1)) := by
  have hlength : (j : ℕ) < (List.finRange kBucketCount).length := by
    rw [List.length_finRange]
    exact j.isLt
  have hseen : UInt64.ofNat (below samples j) + histogram.buckets j =
      UInt64.ofNat (below samples (j + 1)) := by
    rw [h.buckets, ← UInt64.ofNat_add, below_succ]
  have hbelow := below_le_card samples (j + 1)
  have hcompare : UInt64.ofNat (below samples (j + 1)) ≥ UInt64.ofNat target ↔
      target ≤ below samples (j + 1) := by
    rw [ge_iff_le, UInt64.le_iff_toNat_le, UInt64.toNat_ofNat', UInt64.toNat_ofNat',
      Nat.mod_eq_of_lt htarget, Nat.mod_eq_of_lt (hbelow.trans_lt hcard)]
  rw [List.drop_eq_getElem_cons hlength, List.getElem_finRange]
  change (if UInt64.ofNat (below samples j) + histogram.buckets j ≥ UInt64.ofNat target then _
    else histogram.percentileFrom _ (UInt64.ofNat (below samples j) + histogram.buckets j) _) = _
  rw [hseen]
  simp only [hcompare]
  rfl

/-- The loop stops at the first bucket with which enough samples have been seen. -/
theorem Holds.percentileFrom_eq (h : histogram.Holds samples) (hcard : samples.card < 2 ^ 64)
    {i : Fin kBucketCount} {target : ℕ} (hbefore : below samples i < target)
    (hreached : target ≤ below samples (i + 1)) {j : ℕ} (hj : j ≤ i) :
    histogram.percentileFrom (UInt64.ofNat target) (UInt64.ofNat (below samples j))
        ((List.finRange kBucketCount).drop j) =
      Min.min (bucketUpperBound i).toInt64.toInt histogram.max := by
  have htarget : target < 2 ^ 64 := (hreached.trans (below_le_card samples _)).trans_lt hcard
  obtain ⟨d, hd⟩ := Nat.exists_eq_add_of_le hj
  induction d generalizing j with
  | zero =>
    obtain rfl : j = i := hd.symm
    rw [h.percentileFrom_drop hcard htarget i, if_pos hreached]
  | succ d ih =>
    have hnext : ¬ target ≤ below samples (j + 1) := by
      have hmono := below_mono samples (show j + 1 ≤ i by omega)
      omega
    have hstep := h.percentileFrom_drop hcard htarget ⟨j, by omega⟩
    rw [if_neg hnext] at hstep
    exact hstep.trans (@ih (j + 1) (by omega) (by omega))

end Scan

/-- The rank a quantile selects among a number of samples. -/
def rank (quantile : ℚ) (count : ℕ) : ℕ :=
  Max.max 1 (Min.min ⌈Max.max 0 (Min.min quantile 1) * count⌉₊ count)

theorem rank_pos (quantile : ℚ) (count : ℕ) : 1 ≤ rank quantile count := le_max_left _ _

theorem rank_le (quantile : ℚ) {count : ℕ} (hcount : 1 ≤ count) : rank quantile count ≤ count :=
  max_le hcount (min_le_right _ _)

theorem rank_mono {quantile quantile' : ℚ} (h : quantile ≤ quantile') (count : ℕ) :
    rank quantile count ≤ rank quantile' count := by
  unfold rank
  gcongr

theorem rank_one {count : ℕ} (hcount : 1 ≤ count) : rank 1 count = count := by
  unfold rank
  simp [hcount]

section Percentile
variable {histogram : LatencyHistogram} {samples : Multiset ℕ}

theorem Holds.percentile_of_empty (h : histogram.Holds 0) (quantile : ℚ) :
    histogram.percentile quantile = 0 :=
  if_pos h.count

theorem Holds.count_toNat (h : histogram.Holds samples) (hcard : samples.card < 2 ^ 64) :
    histogram.count.toNat = samples.card := by
  rw [h.count, UInt64.toNat_ofNat', Nat.mod_eq_of_lt hcard]

theorem Holds.count_ne_zero (h : histogram.Holds samples) (hpos : 1 ≤ samples.card)
    (hcard : samples.card < 2 ^ 64) : histogram.count ≠ 0 := by
  intro hzero
  have hcount := h.count_toNat hcard
  rw [hzero, UInt64.toNat_zero] at hcount
  omega

/-- The loop returns the bound of the bucket that the sample of the wanted rank is in, or the
maximum if that is less. -/
theorem Holds.percentileFrom_rank (h : histogram.Holds samples) (hcard : samples.card < 2 ^ 64)
    {r : ℕ} (hrank : 1 ≤ r) (hrank' : r ≤ samples.card) :
    histogram.percentileFrom (UInt64.ofNat r) 0 (List.finRange kBucketCount) =
      Min.min (bucketUpper kSubBucketBits (nthSmallest samples r) : ℤ) samples.sup := by
  have hplace (j : ℕ) := nthSmallest_iff (p := fun x => bucketIndex kSubBucketBits x < j)
    (fun a b hab hb => (bucketIndex_mono hab).trans_lt hb) hrank hrank'
  have hsmall := h.small _ (nthSmallest_mem hrank hrank')
  generalize nthSmallest samples r = x at *
  have hword : (UInt64.ofNat x).toNat = x := by
    rw [UInt64.toNat_ofNat']
    omega
  have hindex : bucketIndexFor (UInt64.ofNat x) = bucketIndex kSubBucketBits x := by
    rw [bucketIndexFor_eq, hword]
  have hbound := @bucketUpperBound_eq (UInt64.ofNat x) (by rw [hword]; exact hsmall)
  rw [hindex, hword] at hbound
  have hbefore : below samples (bucketIndex kSubBucketBits x) < r :=
    not_le.mp fun hle => lt_irrefl _ ((hplace _).mpr hle)
  have hreached : r ≤ below samples (bucketIndex kSubBucketBits x + 1) :=
    (hplace _).mp (Nat.lt_succ_self _)
  have hlt : bucketIndex kSubBucketBits x < kBucketCount := hindex ▸ bucketIndexFor_lt _
  have hscan := @Holds.percentileFrom_eq _ _ h hcard ⟨bucketIndex kSubBucketBits x, hlt⟩ _ hbefore
    hreached 0 (Nat.zero_le _)
  rw [below_zero, List.drop_zero] at hscan
  rw [← hbound, ← h.max]
  exact hscan

/-- A percentile is that bound for the rank the quantile selects, and zero without samples. -/
theorem Holds.percentile_eq (h : histogram.Holds samples) (hcard : samples.card < 2 ^ 64)
    (quantile : ℚ) : histogram.percentile quantile = Min.min
      (bucketUpper kSubBucketBits (nthSmallest samples (rank quantile samples.card)) : ℤ)
      samples.sup := by
  rcases Nat.eq_zero_or_pos samples.card with hnone | hpos
  · obtain rfl := Multiset.card_eq_zero.mp hnone
    rw [h.percentile_of_empty, nthSmallest_zero]
    rfl
  · rw [percentile, if_neg (h.count_ne_zero hpos hcard), h.count_toNat hcard]
    exact h.percentileFrom_rank hcard (rank_pos _ _) (rank_le quantile hpos)

end Percentile

section Order
variable (samples : Multiset ℕ)

theorem nthSmallest_rank_le_sup (quantile : ℚ) :
    nthSmallest samples (rank quantile samples.card) ≤ samples.sup := by
  rcases Nat.eq_zero_or_pos samples.card with hnone | hpos
  · obtain rfl := Multiset.card_eq_zero.mp hnone
    rw [nthSmallest_zero]
    exact Nat.zero_le _
  · exact Multiset.le_sup (nthSmallest_mem (rank_pos _ _) (rank_le _ hpos))

theorem nthSmallest_rank_mono {quantile quantile' : ℚ} (h : quantile ≤ quantile') :
    nthSmallest samples (rank quantile samples.card) ≤
      nthSmallest samples (rank quantile' samples.card) := by
  rcases Nat.eq_zero_or_pos samples.card with hnone | hpos
  · obtain rfl := Multiset.card_eq_zero.mp hnone
    rw [nthSmallest_zero, nthSmallest_zero]
  · exact nthSmallest_mono (rank_pos _ _) (rank_mono h _) (rank_le _ hpos)

theorem sup_le_nthSmallest_rank_one :
    samples.sup ≤ nthSmallest samples (rank 1 samples.card) := by
  rcases Nat.eq_zero_or_pos samples.card with hnone | hpos
  · obtain rfl := Multiset.card_eq_zero.mp hnone
    exact Nat.zero_le _
  · rw [rank_one hpos]
    exact Multiset.sup_le.mpr fun a ha => le_nthSmallest_card hpos ha

end Order

section Bounds
variable {histogram : LatencyHistogram} {samples : Multiset ℕ} (h : histogram.Holds samples)
  (hcard : samples.card < 2 ^ 64)
include h hcard

/-- No percentile is below the sample of its rank. -/
theorem Holds.nthSmallest_le_percentile (quantile : ℚ) :
    ((nthSmallest samples (rank quantile samples.card) : ℕ) : ℤ) ≤
      histogram.percentile quantile := by
  rw [h.percentile_eq hcard]
  exact le_min (by exact_mod_cast le_bucketUpper _ _)
    (by exact_mod_cast nthSmallest_rank_le_sup samples quantile)

theorem Holds.percentile_le_max (quantile : ℚ) : histogram.percentile quantile ≤ histogram.max := by
  rw [h.percentile_eq hcard, h.max]
  exact min_le_right _ _

theorem Holds.percentile_mono {quantile quantile' : ℚ} (hq : quantile ≤ quantile') :
    histogram.percentile quantile ≤ histogram.percentile quantile' := by
  rw [h.percentile_eq hcard, h.percentile_eq hcard]
  apply min_le_min_right
  exact_mod_cast bucketUpper_mono (nthSmallest_rank_mono samples hq)

theorem Holds.percentile_one : histogram.percentile 1 = histogram.max := by
  rw [h.percentile_eq hcard, h.max]
  apply min_eq_right
  exact_mod_cast (sup_le_nthSmallest_rank_one samples).trans (le_bucketUpper kSubBucketBits _)

end Bounds

/-- After every sequence of calls that records fewer than `2 ^ 64` samples, a percentile is the
sample of its rank up to a thirty-second of it, never below it and never above the maximum; it is
monotone in the quantile, and the last one is the maximum. Without a sample all of them are
zero. -/
theorem percentile_tight (calls : List RecordCall)
    (hcard : (recordedSamples calls).card < 2 ^ 64) (quantile : ℚ) :
    let x := nthSmallest (recordedSamples calls) (rank quantile (recordedSamples calls).card)
    let histogram := afterCalls calls
    (x : ℤ) ≤ histogram.percentile quantile ∧
      histogram.percentile quantile ≤ ((x + x / 32 : ℕ) : ℤ) ∧
      histogram.percentile quantile ≤ histogram.max ∧
      (∀ quantile', quantile ≤ quantile' →
        histogram.percentile quantile ≤ histogram.percentile quantile') ∧
      histogram.percentile 1 = histogram.max := by
  intro x histogram
  have hholds : histogram.Holds (recordedSamples calls) := afterCalls_holds calls
  have hwidth : bucketUpper kSubBucketBits x ≤ x + x / 32 := bucketUpper_le kSubBucketBits x
  refine ⟨hholds.nthSmallest_le_percentile hcard quantile, ?_,
    hholds.percentile_le_max hcard quantile, fun _ hq => hholds.percentile_mono hcard hq,
    hholds.percentile_one hcard⟩
  rw [hholds.percentile_eq hcard]
  exact (min_le_left _ _).trans (by exact_mod_cast hwidth)

/-- Two clamped samples and a late one: the last percentile is the late one, although its
bucket reaches up to 1007. -/
theorem percentile_tight_three :
    let calls := [.recordMany (-5) 2, .record 1000]
    (afterCalls calls).percentile 1 = 1000 ∧ bucketUpper kSubBucketBits 1000 = 1007 :=
  ⟨(percentile_tight [.recordMany (-5) 2, .record 1000] (by decide) 1).2.2.2.2,
    by decide⟩

end LatencyHistogram
end SafeEdge.Rt
