import SafeEdge.Library.LogBuckets
import SafeEdge.Rt.LatencyHistogram

/-! The layout of the histogram's buckets: an order-preserving partition of the 64-bit values
into ranges of constant relative width. -/
namespace SafeEdge.Rt
open Library

theorem bucketShift_eq_zero {value : ℕ} (h : value < 64) :
    bucketShift kSubBucketBits value = 0 := by
  rcases eq_or_ne value 0 with rfl | hne
  · rfl
  · have hlog : value.log2 < 6 := (Nat.log2_lt hne).mpr h
    unfold bucketShift kSubBucketBits
    omega

theorem bucketShift_pos {value : ℕ} (h : 64 ≤ value) : 0 < bucketShift kSubBucketBits value := by
  have hlog : 6 ≤ value.log2 := (Nat.le_log2 (by omega)).mpr h
  unfold bucketShift kSubBucketBits
  omega

theorem bucketShift_lt (value : UInt64) : bucketShift kSubBucketBits value.toNat < 59 := by
  rcases eq_or_ne value.toNat 0 with hzero | hne
  · rw [hzero]
    decide
  · have hlog : value.toNat.log2 < 64 := (Nat.log2_lt hne).mpr value.toNat_lt
    unfold bucketShift kSubBucketBits
    omega

/-- The bucket of a value is the one of five bits below the leading one. -/
theorem bucketIndexFor_eq (value : UInt64) :
    bucketIndexFor value = bucketIndex kSubBucketBits value.toNat := by
  have hlimit : kLinearLimit.toNat = 64 := rfl
  unfold bucketIndexFor
  split_ifs with hlinear
  · rw [UInt64.lt_iff_toNat_lt, hlimit] at hlinear
    rw [bucketIndex, bucketShift_eq_zero hlinear]
    simp
  · rw [UInt64.lt_iff_toNat_lt, hlimit, not_lt] at hlinear
    have hpos := bucketShift_pos hlinear
    have hshift := bucketShift_lt value
    have hbelow := quotient_lt kSubBucketBits value.toNat
    have habove := le_quotient hpos
    change (kLinearLimit + UInt64.ofNat (bucketShift kSubBucketBits value.toNat - 1) *
      kSubBucketCount + ((value >>> UInt64.ofNat (bucketShift kSubBucketBits value.toNat)) &&&
        (kSubBucketCount - 1))).toNat = _
    rw [bucketIndex]
    generalize bucketShift kSubBucketBits value.toNat = shift at *
    have hsub : ((value >>> UInt64.ofNat shift) &&& (kSubBucketCount - 1)).toNat =
        value.toNat / 2 ^ shift % 32 := by
      rw [UInt64.toNat_and, UInt64.toNat_shiftRight, UInt64.toNat_ofNat',
        Nat.mod_eq_of_lt (show shift < 2 ^ 64 by omega),
        Nat.mod_eq_of_lt (show shift < 64 by omega), Nat.shiftRight_eq_div_pow]
      exact Nat.and_two_pow_sub_one_eq_mod _ 5
    have hoctave : (UInt64.ofNat (shift - 1)).toNat = shift - 1 := by
      rw [UInt64.toNat_ofNat']
      omega
    have hwidth : kSubBucketCount.toNat = 32 := rfl
    have hbits : kSubBucketBits = 5 := rfl
    rw [hbits] at hbelow habove ⊢
    rw [UInt64.toNat_add, UInt64.toNat_add, UInt64.toNat_mul, hsub, hoctave, hwidth, hlimit]
    omega

/-- The bound computed in 64 bits is that of the bucket, in the last bucket through a sum that
wraps around. -/
theorem bucketUpperBound_toNat (value : UInt64) :
    (bucketUpperBound (bucketIndexFor value)).toNat = bucketUpper kSubBucketBits value.toNat := by
  have hlimit : kLinearLimit.toNat = 64 := rfl
  have hwidth : kSubBucketCount.toNat = 32 := rfl
  have hbits : kSubBucketBits = 5 := rfl
  have hupper := @bucketUpper_lt kSubBucketBits _ _ value.toNat_lt
  have hshift := bucketShift_lt value
  rw [bucketIndexFor_eq, bucketUpperBound, hlimit]
  rcases Nat.lt_or_ge value.toNat 64 with hlinear | hlog
  · rw [bucketIndex, bucketUpper, bucketShift_eq_zero hlinear]
    rw [if_pos (by simpa using hlinear), UInt64.toNat_ofNat']
    simp
  · have hbelow := quotient_lt kSubBucketBits value.toNat
    have habove := le_quotient (bucketShift_pos hlog)
    have hpos := bucketShift_pos hlog
    rw [bucketIndex]
    rw [bucketUpper] at hupper ⊢
    generalize bucketShift kSubBucketBits value.toNat = shift at *
    generalize value.toNat / 2 ^ shift = quotient at *
    rw [hbits] at hbelow habove ⊢
    have hindex : ¬ 2 ^ 5 * shift + quotient < 64 := by omega
    rw [if_neg hindex]
    have hoffset : (UInt64.ofNat (2 ^ 5 * shift + quotient) - kLinearLimit).toNat =
        32 * (shift - 1) + (quotient - 32) := by
      rw [UInt64.toNat_sub, UInt64.toNat_ofNat', hlimit]
      omega
    generalize UInt64.ofNat (2 ^ 5 * shift + quotient) - kLinearLimit = offset at *
    have hoctave : (offset / kSubBucketCount + 1).toNat = shift := by
      rw [UInt64.toNat_add, UInt64.toNat_div, hoffset, hwidth, UInt64.toNat_one]
      omega
    have hleading : (kSubBucketCount + offset % kSubBucketCount).toNat = quotient := by
      rw [UInt64.toNat_add, UInt64.toNat_mod, hoffset, hwidth]
      omega
    change ((kSubBucketCount + offset % kSubBucketCount) <<< (offset / kSubBucketCount + 1) +
      1 <<< (offset / kSubBucketCount + 1) - 1).toNat = _
    rw [UInt64.toNat_sub, UInt64.toNat_add, UInt64.toNat_shiftLeft, UInt64.toNat_shiftLeft, hoctave,
      hleading, UInt64.toNat_one, Nat.mod_eq_of_lt (show shift < 64 by omega), Nat.shiftLeft_eq,
      Nat.shiftLeft_eq]
    rw [Nat.add_mul] at hupper ⊢
    have hunit := Nat.two_pow_pos shift
    generalize quotient * 2 ^ shift = lower at *
    omega

theorem toInt64_toInt {word : UInt64} (h : word.toNat < 2 ^ 63) :
    word.toInt64.toInt = word.toNat := by
  change word.toBitVec.toInt = word.toBitVec.toNat
  apply BitVec.toInt_eq_toNat_of_lt
  change 2 * word.toNat < 2 ^ 64
  omega

/-- The bound of the bucket of a value that fits a signed integer. -/
theorem bucketUpperBound_eq {value : UInt64} (hvalue : value.toNat < 2 ^ 63) :
    (bucketUpperBound (bucketIndexFor value)).toInt64.toInt =
      bucketUpper kSubBucketBits value.toNat := by
  have hbound := bucketUpperBound_toNat value
  rw [toInt64_toInt (by rw [hbound]; exact bucketUpper_lt hvalue), hbound]

/-- Every bucket of the layout holds a 64-bit value. -/
theorem exists_bucketIndexFor {index : ℕ} (h : index < kBucketCount) :
    ∃ value, bucketIndexFor value = index := by
  obtain ⟨n, hn⟩ := bucketIndex_surjective kSubBucketBits index
  have hcount : bucketIndex kSubBucketBits (2 ^ 64) = kBucketCount := by decide
  have hlt : n < 2 ^ 64 := by
    by_contra hge
    have hmono := @bucketIndex_mono kSubBucketBits _ _ (not_lt.mp hge)
    omega
  refine ⟨UInt64.ofNat n, ?_⟩
  rw [bucketIndexFor_eq, UInt64.toNat_ofNat', Nat.mod_eq_of_lt hlt, hn]

/-- The bound of a bucket separates it from the later ones. -/
theorem le_bucketUpperBound_iff {index : ℕ} (h : index < kBucketCount) (value : UInt64) :
    value ≤ bucketUpperBound index ↔ bucketIndexFor value ≤ index := by
  obtain ⟨member, rfl⟩ := exists_bucketIndexFor h
  rw [UInt64.le_iff_toNat_le, bucketUpperBound_toNat, bucketIndexFor_eq, bucketIndexFor_eq,
    le_bucketUpper_iff]

/-- Every 64-bit value has one bucket of the layout, larger values no earlier one. The bound of a
bucket is the largest value in it, no bucket is empty, a bucket holds exactly the values between
the bounds of its predecessor and its own, and a bound is at most a thirty-second above any
value in its bucket. -/
theorem bucket_layout :
    (∀ value, bucketIndexFor value < kBucketCount) ∧
    (∀ value larger, value ≤ larger → bucketIndexFor value ≤ bucketIndexFor larger) ∧
    (∀ index < kBucketCount, bucketIndexFor (bucketUpperBound index) = index ∧
      ∀ value, bucketIndexFor value = index → value ≤ bucketUpperBound index) ∧
    (∀ index < kBucketCount, ∃ value, bucketIndexFor value = index) ∧
    (∀ index < kBucketCount, ∀ value, bucketIndexFor value = index ↔
      (0 < index → bucketUpperBound (index - 1) < value) ∧ value ≤ bucketUpperBound index) ∧
    ∀ value, 32 * (((bucketUpperBound (bucketIndexFor value)).toNat : ℤ) - value.toNat) ≤
      value.toNat := by
  refine ⟨bucketIndexFor_lt, ?_, ?_, fun index => exists_bucketIndexFor, ?_, ?_⟩
  · intro value larger hle
    rw [bucketIndexFor_eq, bucketIndexFor_eq]
    exact bucketIndex_mono (UInt64.le_iff_toNat_le.mp hle)
  · intro index hindex
    refine ⟨?_, fun value hvalue => (le_bucketUpperBound_iff hindex value).mpr hvalue.le⟩
    obtain ⟨member, rfl⟩ := exists_bucketIndexFor hindex
    rw [bucketIndexFor_eq, bucketUpperBound_toNat, bucketIndex_bucketUpper, bucketIndexFor_eq]
  · intro index hindex value
    rw [le_bucketUpperBound_iff hindex]
    cases index with
    | zero => simp
    | succ index =>
      have hpred := le_bucketUpperBound_iff (Nat.lt_of_succ_lt hindex) value
      rw [Nat.add_sub_cancel, ← UInt64.not_le, hpred]
      omega
  · intro value
    have hupper := bucketUpper_le kSubBucketBits value.toNat
    have hwidth : 32 * (value.toNat / 2 ^ kSubBucketBits) ≤ value.toNat :=
      Nat.mul_div_le value.toNat (2 ^ 5)
    rw [bucketUpperBound_toNat]
    omega

end SafeEdge.Rt
