import SafeEdge.Library.Binary64

/-! The fixed-memory histogram of latencies in nanoseconds. The rank that a quantile selects is
computed twice: exactly, for a rational quantile, and in binary64 as the code does. -/
namespace SafeEdge.Rt
open Library

def kSubBucketBits : ℕ := 5

def kSubBucketCount : UInt64 := (1 : UInt64) <<< UInt64.ofNat kSubBucketBits

/-- Below this limit a bucket holds a single value. -/
def kLinearLimit : UInt64 := kSubBucketCount * 2

def kOctaves : ℕ := 58

def kBucketCount : ℕ := kLinearLimit.toNat + kOctaves * kSubBucketCount.toNat

/-- The bucket a value lands in. The exponent is the position of its most significant bit. -/
def bucketIndexFor (value : UInt64) : ℕ :=
  if value < kLinearLimit then value.toNat
  else
    let exponent := value.toNat.log2
    let shift := exponent - kSubBucketBits
    let sub := (value >>> UInt64.ofNat shift) &&& (kSubBucketCount - 1)
    let octave := UInt64.ofNat (shift - 1)
    (kLinearLimit + octave * kSubBucketCount + sub).toNat

/-- The last value that still maps to the bucket. -/
def bucketUpperBound (index : ℕ) : UInt64 :=
  if index < kLinearLimit.toNat then UInt64.ofNat index
  else
    let offset := UInt64.ofNat index - kLinearLimit
    let shift := offset / kSubBucketCount + 1
    let sub := offset % kSubBucketCount
    let lower := (kSubBucketCount + sub) <<< shift
    lower + ((1 : UInt64) <<< shift) - 1

theorem bucketIndexFor_lt (value : UInt64) : bucketIndexFor value < kBucketCount := by
  have hcount : kBucketCount = 1920 := rfl
  have hlimit : kLinearLimit.toNat = 64 := rfl
  rw [hcount, bucketIndexFor]
  split_ifs with hlinear
  · have hvalue := UInt64.lt_iff_toNat_lt.mp hlinear
    omega
  · have hpos : value.toNat ≠ 0 := by
      intro hzero
      rw [UInt64.lt_iff_toNat_lt, hzero] at hlinear
      exact hlinear (by decide)
    have hexponent : value.toNat.log2 < 64 := (Nat.log2_lt hpos).mpr value.toNat_lt
    have hoctave : (UInt64.ofNat (value.toNat.log2 - kSubBucketBits - 1)).toNat ≤ 57 := by
      rw [UInt64.toNat_ofNat', kSubBucketBits]
      omega
    have hsub : ((value >>> UInt64.ofNat (value.toNat.log2 - kSubBucketBits)) &&&
        (kSubBucketCount - 1)).toNat ≤ 31 := by
      rw [UInt64.toNat_and]
      exact Nat.and_le_right
    have hwidth : kSubBucketCount.toNat = 32 := rfl
    simp only [UInt64.toNat_add, UInt64.toNat_mul, hlimit, hwidth]
    omega

/-- The maximum and the minimum are of the samples after clamping, with the extreme values of
the empty histogram as defaults. -/
structure LatencyHistogram where
  buckets : Fin kBucketCount → UInt64 := fun _ => 0
  count : UInt64 := 0
  max : ℤ := 0
  min : ℤ := 2 ^ 63 - 1

namespace LatencyHistogram
variable (histogram : LatencyHistogram)

def recordMany (value : ℤ) (count : UInt64) : LatencyHistogram :=
  if count = 0 then histogram
  else
    let clamped := Max.max value 0
    let index : Fin kBucketCount :=
      ⟨bucketIndexFor (UInt64.ofInt clamped), bucketIndexFor_lt _⟩
    { buckets := Function.update histogram.buckets index (histogram.buckets index + count)
      count := histogram.count + count
      max := Max.max histogram.max clamped
      min := Min.min histogram.min clamped }

def record (value : ℤ) : LatencyHistogram := histogram.recordMany value 1

def merge (other : LatencyHistogram) : LatencyHistogram :=
  if other.count = 0 then histogram
  else
    { buckets := fun i => histogram.buckets i + other.buckets i
      count := histogram.count + other.count
      max := Max.max histogram.max other.max
      min := Min.min histogram.min other.min }

/-- Every field is overwritten, whatever the histogram held. -/
def reset (_ : LatencyHistogram) : LatencyHistogram where
  buckets := fun _ => 0
  count := 0
  max := 0
  min := 2 ^ 63 - 1

/-- What the accessor `min()` returns. -/
def reportedMin : ℤ := if histogram.count = 0 then 0 else histogram.min

/-- The buckets still to be visited by the loop of `percentile`, which has seen `seen` samples
so far. -/
def percentileFrom (target seen : UInt64) : List (Fin kBucketCount) → ℤ
  | [] => histogram.max
  | index :: rest =>
    if seen + histogram.buckets index ≥ target then
      Min.min (bucketUpperBound index).toInt64.toInt histogram.max
    else percentileFrom target (seen + histogram.buckets index) rest

def percentile (quantile : ℚ) : ℤ :=
  if histogram.count = 0 then 0
  else
    let q := Max.max 0 (Min.min quantile 1)
    let target := ⌈q * histogram.count.toNat⌉₊
    let target := UInt64.ofNat (Max.max 1 (Min.min target histogram.count.toNat))
    histogram.percentileFrom target 0 (List.finRange kBucketCount)

/-- The percentile with the rank computed in binary64. -/
def percentileDouble (quantile : Binary64) : ℤ :=
  if histogram.count = 0 then 0
  else
    let q := quantile.clamp 0 (.ofInt 1)
    let target := (q.mul (.ofInt histogram.count.toNat)).ceil.toNat
    let target := UInt64.ofNat (Max.max 1 (Min.min target histogram.count.toNat))
    histogram.percentileFrom target 0 (List.finRange kBucketCount)

def p50 : ℤ := histogram.percentileDouble ((Binary64.ofInt 50).divNat 100)

def p99 : ℤ := histogram.percentileDouble ((Binary64.ofInt 99).divNat 100)

def p999 : ℤ := histogram.percentileDouble ((Binary64.ofInt 999).divNat 1000)

end LatencyHistogram
end SafeEdge.Rt
