import SafeEdge.Library.Binary64Sum
import SafeEdge.Rt.HistogramAlgebra

/-! The mean of a histogram, which is kept as a binary64 sum beside the buckets. Sums that stay
within `2 ^ 53` nanoseconds are exact, whatever the order and the grouping of the samples. -/
namespace SafeEdge.Rt
open Library

/-- A histogram with the running sum of its samples. -/
structure SummedHistogram extends LatencyHistogram where
  sum : Binary64 := 0

namespace SummedHistogram
variable (histogram : SummedHistogram)

def recordMany (value : ℤ) (count : UInt64) : SummedHistogram where
  toLatencyHistogram := histogram.toLatencyHistogram.recordMany value count
  sum :=
    if count = 0 then histogram.sum
    else
      let clamped := Max.max value 0
      histogram.sum + (Binary64.ofInt clamped).mul (.ofInt count.toNat)

def record (value : ℤ) : SummedHistogram := histogram.recordMany value 1

def merge (other : SummedHistogram) : SummedHistogram where
  toLatencyHistogram := histogram.toLatencyHistogram.merge other.toLatencyHistogram
  sum := if other.count = 0 then histogram.sum else histogram.sum + other.sum

def reset : SummedHistogram where
  toLatencyHistogram := histogram.toLatencyHistogram.reset
  sum := 0

def mean : Binary64 :=
  if histogram.count = 0 then 0 else histogram.sum / .ofInt histogram.count.toNat

variable {histogram}

/-- The product of a value and its number of copies is exact, and so is the new sum. -/
theorem sum_recordMany {value : Int64} {count : UInt64} {total : ℕ}
    (hsum : histogram.sum = .ofInt total) (hcount : count.toNat ≤ 2 ^ 53)
    (htotal : total + count.toNat * value.toInt.toNat ≤ 2 ^ 53) :
    (histogram.recordMany value.toInt count).sum =
      .ofInt (total + count.toNat * value.toInt.toNat : ℕ) := by
  have hclamped : Max.max value.toInt 0 = (value.toInt.toNat : ℤ) := by omega
  simp only [recordMany, hclamped, hsum]
  split_ifs with hzero
  · rw [hzero, UInt64.toNat_zero, zero_mul, add_zero]
  · have hpos : 0 < count.toNat := by
      rw [Nat.pos_iff_ne_zero]
      exact fun h => hzero (UInt64.toNat_inj.mp h)
    have hvalue : value.toInt.toNat ≤ count.toNat * value.toInt.toNat :=
      Nat.le_mul_of_pos_left _ hpos
    rw [Binary64.ofInt_mul (by omega) hcount, mul_comm, Binary64.ofInt_add htotal]

end SummedHistogram

namespace LatencyHistogram

/-- The samples after clamping. -/
def nanoseconds (samples : Multiset Int64) : Multiset ℕ :=
  samples.map fun value => value.toInt.toNat

theorem recordAll_spans (samples : Multiset Int64) :
    0 ≤ (recordAll {} samples).min ∧ (recordAll {} samples).max ≤ (nanoseconds samples).sum ∧
    ∀ value ∈ nanoseconds samples,
      (recordAll {} samples).min ≤ value ∧ value ≤ (recordAll {} samples).max := by
  induction samples using Multiset.induction with
  | empty => exact ⟨by decide, le_rfl, fun value hvalue => absurd hvalue (Multiset.notMem_zero _)⟩
  | cons value samples ih =>
    obtain ⟨hmin, hmax, hspan⟩ := ih
    have hclamped : Max.max value.toInt 0 = (value.toInt.toNat : ℤ) := by omega
    rw [recordAll_cons, record_eq, nanoseconds, Multiset.map_cons, Multiset.sum_cons, hclamped]
    change 0 ≤ Min.min _ _ ∧ Max.max _ _ ≤ ((_ + (nanoseconds samples).sum : ℕ) : ℤ) ∧
      ∀ sample ∈ _ ::ₘ nanoseconds samples, Min.min _ _ ≤ _ ∧ _ ≤ Max.max _ _
    refine ⟨by omega, by omega, fun sample hsample => ?_⟩
    rcases Multiset.mem_cons.mp hsample with rfl | hmem
    · omega
    · have := hspan sample hmem
      omega

end LatencyHistogram

namespace HistogramExpression
open LatencyHistogram

/-- The histogram of an expression, with its sum. -/
def summed : HistogramExpression → SummedHistogram
  | .empty => {}
  | .record expression value => expression.summed.record value.toInt
  | .recordMany expression value count => expression.summed.recordMany value.toInt count
  | .merge expression other => expression.summed.merge other.summed
  | .reset expression => expression.summed.reset

def total (expression : HistogramExpression) : ℕ := (nanoseconds expression.samples).sum

theorem total_record (expression : HistogramExpression) (value : Int64) :
    (expression.record value).total = expression.total + value.toInt.toNat := by
  rw [total, samples, nanoseconds, Multiset.map_cons, Multiset.sum_cons, add_comm]
  rfl

theorem total_recordMany (expression : HistogramExpression) (value : Int64) (count : UInt64) :
    (expression.recordMany value count).total =
      expression.total + count.toNat * value.toInt.toNat := by
  rw [total, samples, nanoseconds, Multiset.map_add, Multiset.sum_add, Multiset.map_replicate,
    Multiset.sum_replicate, smul_eq_mul]
  rfl

theorem total_merge (expression other : HistogramExpression) :
    (expression.merge other).total = expression.total + other.total := by
  rw [total, samples, nanoseconds, Multiset.map_add, Multiset.sum_add]
  rfl

theorem toLatencyHistogram_summed (expression : HistogramExpression) :
    expression.summed.toLatencyHistogram = expression.histogram := by
  induction expression with
  | empty => rfl
  | record expression value ih =>
    rw [histogram, ← ih]
    rfl
  | recordMany expression value count ih =>
    rw [histogram, ← ih]
    rfl
  | merge expression other ih ihother =>
    rw [histogram, ← ih, ← ihother]
    rfl
  | reset expression ih =>
    rw [histogram, ← ih]
    rfl

section Sums
variable {expression : HistogramExpression}

theorem count_summed (hcard : expression.samples.card < 2 ^ 64) :
    expression.summed.count.toNat = expression.samples.card := by
  rw [toLatencyHistogram_summed, expression.histogram_eq hcard, recordAll_count]
  change (0 + UInt64.ofNat _).toNat = _
  rw [UInt64.zero_add, UInt64.toNat_ofNat', Nat.mod_eq_of_lt hcard]

theorem count_summed_eq_zero (hcard : expression.samples.card < 2 ^ 64) :
    expression.summed.count = 0 ↔ expression.samples = 0 := by
  rw [← UInt64.toNat_inj, count_summed hcard, UInt64.toNat_zero, Multiset.card_eq_zero]

theorem sum_summed (htotal : expression.total ≤ 2 ^ 53)
    (hcard : expression.samples.card ≤ 2 ^ 53) :
    expression.summed.sum = .ofInt expression.total := by
  induction expression with
  | empty => exact Binary64.ofInt_zero.symm
  | record expression value ih =>
    rw [total_record] at htotal ⊢
    rw [samples, Multiset.card_cons] at hcard
    have hone : (1 : UInt64).toNat * value.toInt.toNat = value.toInt.toNat := one_mul _
    rw [← hone] at htotal ⊢
    exact SummedHistogram.sum_recordMany (ih (by omega) (by omega)) (by decide) htotal
  | recordMany expression value count ih =>
    rw [total_recordMany] at htotal ⊢
    rw [samples, Multiset.card_add, Multiset.card_replicate] at hcard
    exact SummedHistogram.sum_recordMany (ih (by omega) (by omega)) (by omega) htotal
  | merge expression other ih ihother =>
    rw [total_merge] at htotal ⊢
    rw [samples, Multiset.card_add] at hcard
    have hsum := ih (by omega) (by omega)
    change (if other.summed.count = 0 then _ else expression.summed.sum + other.summed.sum) = _
    split_ifs with hzero
    · have hnone : other.total = 0 := by
        rw [total, (count_summed_eq_zero (by omega)).mp hzero]
        rfl
      rw [hnone, add_zero, hsum]
    · rw [hsum, ihother (by omega) (by omega), Binary64.ofInt_add htotal]
  | reset expression ih => exact Binary64.ofInt_zero.symm

/-- The mean is the one rounded quotient of the exact sum. -/
theorem mean_summed (htotal : expression.total ≤ 2 ^ 53)
    (hcard : expression.samples.card ≤ 2 ^ 53) :
    expression.summed.mean =
      if expression.samples = 0 then 0
      else .ofInt expression.total / .ofInt expression.samples.card := by
  rw [SummedHistogram.mean, sum_summed htotal hcard, count_summed (by omega)]
  simp only [count_summed_eq_zero (by omega : expression.samples.card < 2 ^ 64)]

/-- The extremes of a histogram with samples, as whole numbers that its mean lies between. -/
theorem extremes_summed (hcard : expression.samples.card < 2 ^ 64) (hne : expression.samples ≠ 0) :
    ∃ low high : ℕ, expression.summed.reportedMin = low ∧ expression.summed.max = high ∧
      expression.samples.card * low ≤ expression.total ∧
      expression.total ≤ expression.samples.card * high ∧ low ≤ high ∧
      high ≤ expression.total := by
  obtain ⟨hmin, hmax, hspan⟩ := recordAll_spans expression.samples
  rw [← expression.histogram_eq hcard, ← toLatencyHistogram_summed] at hmin hmax hspan
  have hsize : (nanoseconds expression.samples).card = expression.samples.card :=
    Multiset.card_map _ _
  obtain ⟨sample, hsample⟩ := Multiset.exists_mem_of_ne_zero hne
  have hbetween := hspan _ (Multiset.mem_map_of_mem _ hsample)
  refine ⟨expression.summed.min.toNat, expression.summed.max.toNat, ?_, by omega, ?_, ?_, by omega,
    by rw [total]; omega⟩
  · rw [LatencyHistogram.reportedMin, if_neg (mt (count_summed_eq_zero hcard).mp hne)]
    omega
  · rw [← hsize, ← smul_eq_mul]
    refine Multiset.card_nsmul_le_sum fun value hvalue => ?_
    have := (hspan value hvalue).1
    omega
  · rw [← hsize, ← smul_eq_mul]
    refine Multiset.sum_le_card_nsmul _ _ fun value hvalue => ?_
    have := (hspan value hvalue).2
    omega

theorem mean_near (htotal : expression.total ≤ 2 ^ 53)
    (hcard : expression.samples.card ≤ 2 ^ 53) :
    ∃ units h, expression.summed.mean = .finite units h ∧
      2 ^ 53 * |expression.samples.card * units - expression.total * 2 ^ 1074| ≤
        (expression.total * 2 ^ 1074 : ℤ) := by
  rw [mean_summed htotal hcard]
  split_ifs with hnone
  · refine ⟨0, representable_zero, rfl, ?_⟩
    have hzero : expression.total = 0 := by
      rw [total, hnone]
      rfl
    rw [hzero, Nat.cast_zero, zero_mul, mul_zero, sub_zero, abs_zero, mul_zero]
  · exact Binary64.ofInt_div_near htotal hcard (Multiset.card_pos.mpr hnone)

theorem mean_between (htotal : expression.total ≤ 2 ^ 53)
    (hcard : expression.samples.card ≤ 2 ^ 53) :
    Binary64.ofInt expression.summed.reportedMin ≤ expression.summed.mean ∧
      expression.summed.mean ≤ .ofInt expression.summed.max := by
  rw [mean_summed htotal hcard]
  split_ifs with hnone
  · have hempty : expression.summed.toLatencyHistogram = {} := by
      rw [toLatencyHistogram_summed, expression.histogram_eq (by omega), hnone]
      rfl
    rw [hempty]
    change Binary64.ofInt 0 ≤ 0 ∧ 0 ≤ Binary64.ofInt 0
    rw [Binary64.ofInt_zero]
    decide
  · obtain ⟨low, high, hlow, hhigh, hbelow, habove, hordered, hsmall⟩ :=
      extremes_summed (by omega) hnone
    have hpos := Multiset.card_pos.mpr hnone
    rw [hlow, hhigh]
    exact ⟨Binary64.le_ofInt_div htotal hcard (by omega) hpos hbelow,
      Binary64.ofInt_div_le htotal hcard (by omega) hpos habove⟩

end Sums

/-- However a histogram was filled, split, merged and reset: if the samples it stands for come to
at most `2 ^ 53` nanoseconds, its sum is exact, and the mean it reports is within one part in
`2 ^ 53` of theirs, lies between the minimum and the maximum it reports, and depends on nothing but
the samples. -/
theorem mean_exact (expression : HistogramExpression) (htotal : expression.total ≤ 2 ^ 53)
    (hcard : expression.samples.card ≤ 2 ^ 53) :
    expression.summed.sum = .ofInt expression.total ∧
    (∃ units h, expression.summed.mean = .finite units h ∧
      2 ^ 53 * |expression.samples.card * units - expression.total * 2 ^ 1074| ≤
        (expression.total * 2 ^ 1074 : ℤ)) ∧
    Binary64.ofInt expression.summed.reportedMin ≤ expression.summed.mean ∧
    expression.summed.mean ≤ .ofInt expression.summed.max ∧
    ∀ other : HistogramExpression, other.samples = expression.samples →
      other.summed.mean = expression.summed.mean := by
  refine ⟨sum_summed htotal hcard, mean_near htotal hcard, (mean_between htotal hcard).1,
    (mean_between htotal hcard).2, fun other hsame => ?_⟩
  have hsum : other.total = expression.total := by rw [total, hsame, total]
  rw [mean_summed htotal hcard, mean_summed (hsum ▸ htotal) (hsame ▸ hcard), hsum, hsame]

theorem mean_exact_rejoined :
    rejoined.summed.sum = .ofInt 280 ∧ .ofInt 0 ≤ rejoined.summed.mean ∧
      rejoined.summed.mean ≤ .ofInt 40 := by
  obtain ⟨hsum, -, hmin, hmax, -⟩ := mean_exact rejoined (by decide) (by decide)
  exact ⟨hsum, hmin, hmax⟩

/-- Beyond `2 ^ 53` nanoseconds the order of the samples shows in the mean. -/
example :
    (HistogramExpression.record (.recordMany .empty 1 2) (2 ^ 53)).summed.mean ≠
      (HistogramExpression.record (.record (.record .empty (2 ^ 53)) 1) 1).summed.mean := by
  decide +kernel

end HistogramExpression
end SafeEdge.Rt
