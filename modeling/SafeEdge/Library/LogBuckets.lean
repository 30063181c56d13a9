import Mathlib.Tactic

/-! Buckets of constant relative width: numbers of up to `bits + 1` binary digits have a bucket
of their own, and every larger octave is divided into `2 ^ bits` equal buckets. -/
namespace Library

/-- The digits below the leading `bits + 1`, which a bucket does not tell apart. -/
def bucketShift (bits n : ℕ) : ℕ := n.log2 - bits

def bucketIndex (bits n : ℕ) : ℕ := 2 ^ bits * bucketShift bits n + n / 2 ^ bucketShift bits n

/-- The largest number in the bucket of `n`. -/
def bucketUpper (bits n : ℕ) : ℕ :=
  (n / 2 ^ bucketShift bits n + 1) * 2 ^ bucketShift bits n - 1

variable {bits m n : ℕ}

theorem bucketShift_mono (h : m ≤ n) : bucketShift bits m ≤ bucketShift bits n := by
  unfold bucketShift
  rw [Nat.log2_eq_log_two, Nat.log2_eq_log_two]
  exact Nat.sub_le_sub_right (Nat.log_mono_right h) bits

theorem quotient_lt (bits n : ℕ) : n / 2 ^ bucketShift bits n < 2 ^ (bits + 1) := by
  apply Nat.div_lt_of_lt_mul
  rw [← pow_add]
  apply Nat.lt_log2_self.trans_le
  apply Nat.pow_le_pow_right (by norm_num)
  unfold bucketShift
  omega

/-- Above the exact buckets the leading digit of the quotient is set. -/
theorem le_quotient (h : 0 < bucketShift bits n) : 2 ^ bits ≤ n / 2 ^ bucketShift bits n := by
  have hne : n ≠ 0 := by
    rintro rfl
    simp [bucketShift] at h
  rw [Nat.le_div_iff_mul_le (by positivity), ← pow_add]
  have hlog : bits + bucketShift bits n = n.log2 := by
    unfold bucketShift at h ⊢
    omega
  rw [hlog]
  exact Nat.log2_self_le hne

theorem two_pow_mul_two_pow_le {s t : ℕ} (h : s < t) :
    2 ^ (bits + 1) * 2 ^ s ≤ 2 ^ bits * 2 ^ t := by
  rw [← pow_add, ← pow_add]
  exact Nat.pow_le_pow_right (by norm_num) (by omega)

/-- The buckets of a larger octave come after those of a smaller one. -/
theorem bucketIndex_lt_of_bucketShift_lt (h : bucketShift bits m < bucketShift bits n) :
    bucketIndex bits m < bucketIndex bits n := by
  have hbelow := quotient_lt bits m
  have habove := le_quotient (Nat.zero_lt_of_lt h)
  calc 2 ^ bits * bucketShift bits m + m / 2 ^ bucketShift bits m
      < 2 ^ bits * bucketShift bits m + 2 ^ (bits + 1) := by omega
    _ = 2 ^ bits * (bucketShift bits m + 1) + 2 ^ bits := by ring
    _ ≤ 2 ^ bits * bucketShift bits n + n / 2 ^ bucketShift bits n :=
        Nat.add_le_add (Nat.mul_le_mul_left _ h) habove

theorem bucketIndex_mono (h : m ≤ n) : bucketIndex bits m ≤ bucketIndex bits n := by
  rcases (bucketShift_mono h).eq_or_lt with heq | hlt
  · unfold bucketIndex
    rw [heq]
    exact Nat.add_le_add_left (Nat.div_le_div_right h) _
  · exact (bucketIndex_lt_of_bucketShift_lt hlt).le

theorem bucketUpper_mono (h : m ≤ n) : bucketUpper bits m ≤ bucketUpper bits n := by
  unfold bucketUpper
  apply Nat.sub_le_sub_right
  rcases (bucketShift_mono h).eq_or_lt with heq | hlt
  · rw [heq]
    gcongr
  · calc (m / 2 ^ bucketShift bits m + 1) * 2 ^ bucketShift bits m
        ≤ 2 ^ (bits + 1) * 2 ^ bucketShift bits m :=
          Nat.mul_le_mul_right _ (quotient_lt bits m)
      _ ≤ 2 ^ bits * 2 ^ bucketShift bits n := two_pow_mul_two_pow_le hlt
      _ ≤ (n / 2 ^ bucketShift bits n + 1) * 2 ^ bucketShift bits n :=
          Nat.mul_le_mul_right _ ((le_quotient (Nat.zero_lt_of_lt hlt)).trans (Nat.le_succ _))

theorem le_bucketUpper (bits n : ℕ) : n ≤ bucketUpper bits n := by
  have hlt : n < (n / 2 ^ bucketShift bits n + 1) * 2 ^ bucketShift bits n := by
    rw [Nat.add_mul, Nat.one_mul]
    exact Nat.lt_div_mul_add (Nat.two_pow_pos _)
  unfold bucketUpper
  omega

/-- The bucket of `n` reaches at most the relative width above it. -/
theorem bucketUpper_le (bits n : ℕ) : bucketUpper bits n ≤ n + n / 2 ^ bits := by
  unfold bucketUpper
  have hdiv := Nat.div_mul_le_self n (2 ^ bucketShift bits n)
  rw [Nat.add_mul, Nat.one_mul]
  rcases (bucketShift bits n).eq_zero_or_pos with hzero | hpos
  · rw [hzero]
    simp
  · have hwidth : 2 ^ bucketShift bits n ≤ n / 2 ^ bits := by
      rw [Nat.le_div_iff_mul_le (by positivity), mul_comm]
      exact (Nat.mul_le_mul_right _ (le_quotient hpos)).trans hdiv
    calc n / 2 ^ bucketShift bits n * 2 ^ bucketShift bits n + 2 ^ bucketShift bits n - 1
        ≤ n / 2 ^ bucketShift bits n * 2 ^ bucketShift bits n + 2 ^ bucketShift bits n :=
          Nat.sub_le _ _
      _ ≤ n + n / 2 ^ bits := Nat.add_le_add hdiv hwidth

theorem bucketUpper_lt {k : ℕ} (h : n < 2 ^ k) : bucketUpper bits n < 2 ^ k := by
  rcases (bucketShift bits n).eq_zero_or_pos with hzero | hpos
  · unfold bucketUpper
    rw [hzero]
    simpa using h
  · have hne : n ≠ 0 := by
      rintro rfl
      simp [bucketShift] at hpos
    have hlog : bits + 1 + bucketShift bits n ≤ k := by
      have hlt := (Nat.log2_lt hne).mpr h
      unfold bucketShift at hpos ⊢
      omega
    have hbound : (n / 2 ^ bucketShift bits n + 1) * 2 ^ bucketShift bits n ≤ 2 ^ k :=
      calc (n / 2 ^ bucketShift bits n + 1) * 2 ^ bucketShift bits n
          ≤ 2 ^ (bits + 1) * 2 ^ bucketShift bits n :=
            Nat.mul_le_mul_right _ (quotient_lt bits n)
        _ = 2 ^ (bits + 1 + bucketShift bits n) := (pow_add _ _ _).symm
        _ ≤ 2 ^ k := Nat.pow_le_pow_right (by norm_num) hlog
    have hpow := Nat.two_pow_pos k
    unfold bucketUpper
    omega

theorem bucketShift_bucketUpper (bits n : ℕ) :
    bucketShift bits (bucketUpper bits n) = bucketShift bits n := by
  rcases eq_or_ne n 0 with rfl | hne
  · simp [bucketUpper, bucketShift]
  · have hlow := @bucketShift_mono bits _ _ (le_bucketUpper bits n)
    have hupper : bucketUpper bits n ≠ 0 := by
      have hle := le_bucketUpper bits n
      omega
    have hlog := (Nat.log2_lt hupper).mpr (@bucketUpper_lt bits _ _ Nat.lt_log2_self)
    unfold bucketShift at hlow ⊢
    omega

theorem bucketIndex_bucketUpper (bits n : ℕ) :
    bucketIndex bits (bucketUpper bits n) = bucketIndex bits n := by
  have hunit := Nat.two_pow_pos (bucketShift bits n)
  have hquotient : bucketUpper bits n / 2 ^ bucketShift bits n =
      n / 2 ^ bucketShift bits n := by
    rw [bucketUpper, Nat.div_eq_iff hunit, Nat.add_mul, Nat.one_mul]
    omega
  rw [bucketIndex, bucketShift_bucketUpper, hquotient, bucketIndex]

/-- A number above the upper bound of a bucket is in a later one. -/
theorem bucketIndex_lt (h : bucketUpper bits m < n) : bucketIndex bits m < bucketIndex bits n := by
  have hmn : m ≤ n := (le_bucketUpper bits m).trans h.le
  rcases (bucketShift_mono hmn).eq_or_lt with heq | hlt
  · unfold bucketIndex
    rw [← heq]
    apply Nat.add_lt_add_left
    rw [← Nat.succ_le_iff, Nat.le_div_iff_mul_le (Nat.two_pow_pos _)]
    unfold bucketUpper at h
    exact Nat.le_of_pred_lt h
  · exact bucketIndex_lt_of_bucketShift_lt hlt

/-- The upper bounds separate the buckets. -/
theorem le_bucketUpper_iff :
    n ≤ bucketUpper bits m ↔ bucketIndex bits n ≤ bucketIndex bits m := by
  constructor
  · intro h
    rw [← bucketIndex_bucketUpper bits m]
    exact bucketIndex_mono h
  · intro h
    by_contra hgt
    exact absurd (bucketIndex_lt (not_le.mp hgt)) (not_lt.mpr h)

/-- The least number in a bucket above the exact ones, or among the last of those. -/
theorem bucketIndex_mul_two_pow {quotient : ℕ} (hlow : 2 ^ bits ≤ quotient)
    (hhigh : quotient < 2 ^ (bits + 1)) (shift : ℕ) :
    bucketIndex bits (quotient * 2 ^ shift) = 2 ^ bits * shift + quotient := by
  have hunit := Nat.two_pow_pos shift
  have hlog : (quotient * 2 ^ shift).log2 = bits + shift := by
    rw [Nat.log2_eq_iff (Nat.mul_ne_zero (by have := Nat.two_pow_pos bits; omega) hunit.ne'),
      pow_add, Nat.add_right_comm, pow_add]
    exact ⟨Nat.mul_le_mul_right _ hlow, Nat.mul_lt_mul_of_pos_right hhigh hunit⟩
  have hshift : bucketShift bits (quotient * 2 ^ shift) = shift := by
    rw [bucketShift, hlog, Nat.add_sub_cancel_left]
  rw [bucketIndex, hshift, Nat.mul_div_cancel _ hunit]

/-- No bucket is empty. -/
theorem bucketIndex_surjective (bits : ℕ) : Function.Surjective (bucketIndex bits) := by
  intro index
  have hunit := Nat.two_pow_pos bits
  rcases Nat.lt_or_ge index (2 ^ bits) with hexact | hlarge
  · refine ⟨index, ?_⟩
    have hlog : bucketShift bits index = 0 := by
      rcases eq_or_ne index 0 with rfl | hne
      · simp [bucketShift]
      · exact Nat.sub_eq_zero_of_le ((Nat.log2_lt hne).mpr hexact).le
    simp [bucketIndex, hlog]
  · have hquotient : 1 ≤ index / 2 ^ bits := (Nat.one_le_div_iff hunit).mpr hlarge
    refine ⟨(2 ^ bits + index % 2 ^ bits) * 2 ^ (index / 2 ^ bits - 1), ?_⟩
    have hrest := Nat.mod_lt index hunit
    rw [bucketIndex_mul_two_pow (Nat.le_add_right _ _) (by rw [pow_succ]; omega)]
    have hsplit := Nat.div_add_mod index (2 ^ bits)
    rw [Nat.mul_sub, Nat.mul_one]
    have hle := Nat.mul_le_mul_left (2 ^ bits) hquotient
    omega

end Library
