import SafeEdge.Rt.Percentile

/-! The rank in binary64: for as many as `2 ^ 44` samples the product the code rounds selects the
same rank as the exact one, and so the same percentile. -/
namespace SafeEdge.Rt
open Library

namespace LatencyHistogram

/-- The rank that the code computes. -/
def rankDouble (quantile : Binary64) (count : ℕ) : ℕ :=
  Max.max 1 (Min.min ((quantile.clamp 0 (.ofInt 1)).mul (.ofInt count)).ceil.toNat count)

/-- A fraction and the datum just below it, which has the significand `m`. -/
structure Approximates (quantile : Binary64) (m num den : ℕ) : Prop where
  datum : ∃ h, quantile = .finite ((m : ℤ) * 2 ^ 1021) h
  clamped : quantile.clamp 0 (.ofInt 1) = quantile
  significand : m < 2 ^ 53
  proper : 0 < num ∧ num ≤ den ∧ den ≤ 1000
  below : den * m ≤ num * 2 ^ 53
  near : num * 2 ^ 53 ≤ den * m + 8

theorem approximates_p50 : Approximates ((Binary64.ofInt 50).divNat 100) 4503599627370496 50 100 :=
  ⟨⟨by decide +kernel, by decide +kernel⟩, by decide +kernel, by decide, by decide, by decide,
    by decide⟩

theorem approximates_p99 : Approximates ((Binary64.ofInt 99).divNat 100) 8917127262193582 99 100 :=
  ⟨⟨by decide +kernel, by decide +kernel⟩, by decide +kernel, by decide, by decide, by decide,
    by decide⟩

theorem approximates_p999 :
    Approximates ((Binary64.ofInt 999).divNat 1000) 8998192055486251 999 1000 :=
  ⟨⟨by decide +kernel, by decide +kernel⟩, by decide +kernel, by decide, by decide, by decide,
    by decide⟩

section Rank
variable {quantile : Binary64} {m num den count : ℕ}

theorem Approximates.ceil_eq (h : Approximates quantile m num den) (hcount : count ≤ 2 ^ 44)
    {k : ℕ} (hbelow : den * k < num * count) (habove : num * count ≤ den * (k + 1)) :
    ((quantile.clamp 0 (.ofInt 1)).mul (.ofInt count)).ceil = k + 1 := by
  obtain ⟨_, hdatum⟩ := h.datum
  obtain ⟨hnum, hproper, hden⟩ := h.proper
  have hpos : 0 < den := by omega
  rw [h.clamped, hdatum]
  apply Binary64.ceil_mul_natCast (by norm_num) h.significand hcount
  · apply Nat.le_of_mul_le_mul_left _ hpos
    calc den * (m * count) = den * m * count := (mul_assoc _ _ _).symm
      _ ≤ num * 2 ^ 53 * count := Nat.mul_le_mul_right _ h.below
      _ = num * count * 2 ^ 53 := by ring
      _ ≤ den * (k + 1) * 2 ^ 53 := Nat.mul_le_mul_right _ habove
      _ = den * ((k + 1) * 2 ^ 53) := mul_assoc _ _ _
  · apply Nat.lt_of_mul_lt_mul_left (a := den)
    have hnear : num * count * 2 ^ 53 ≤ den * (m * count) + 8 * count :=
      calc num * count * 2 ^ 53 = num * 2 ^ 53 * count := by ring
        _ ≤ (den * m + 8) * count := Nat.mul_le_mul_right _ h.near
        _ = den * (m * count) + 8 * count := by ring
    have hnext : den * (k * 2 ^ 53) + 2 ^ 53 ≤ num * count * 2 ^ 53 :=
      calc den * (k * 2 ^ 53) + 2 ^ 53 = (den * k + 1) * 2 ^ 53 := by ring
        _ ≤ num * count * 2 ^ 53 := Nat.mul_le_mul_right _ hbelow
    have hhalf : den * 2 ^ 43 ≤ 1000 * 2 ^ 43 := Nat.mul_le_mul_right _ hden
    rw [mul_add]
    omega

/-- The rounded product selects the exact rank. -/
theorem Approximates.rankDouble_eq (h : Approximates quantile m num den) (hpos : 1 ≤ count)
    (hcount : count ≤ 2 ^ 44) : rankDouble quantile count = rank (num / den) count := by
  obtain ⟨hnum, hproper, -⟩ := h.proper
  have hden : (0 : ℚ) < den := by exact_mod_cast hnum.trans_le hproper
  have hproduct : 0 < num * count := Nat.mul_pos hnum hpos
  obtain ⟨k, hbelow, habove⟩ : ∃ k, den * k < num * count ∧ num * count ≤ den * (k + 1) := by
    refine ⟨(num * count - 1) / den, ?_, ?_⟩
    · have hdiv := Nat.mul_div_le (num * count - 1) den
      omega
    · have hdiv := Nat.lt_mul_div_succ (num * count - 1) (hnum.trans_le hproper)
      omega
  have hexact : ⌈(num : ℚ) / den * count⌉₊ = k + 1 := by
    rw [Nat.ceil_eq_iff (Nat.succ_ne_zero k), div_mul_eq_mul_div, lt_div_iff₀ hden,
      div_le_iff₀ hden, Nat.succ_sub_one]
    constructor
    · rw [mul_comm]
      exact_mod_cast hbelow
    · rw [mul_comm (k.succ : ℚ)]
      exact_mod_cast habove
  have hfraction : Max.max 0 (Min.min ((num : ℚ) / den) 1) = num / den := by
    have hle : (num : ℚ) / den ≤ 1 := (div_le_one hden).mpr (by exact_mod_cast hproper)
    rw [min_eq_left hle, max_eq_right (by positivity)]
  rw [rankDouble, rank, hfraction, hexact, h.ceil_eq hcount hbelow habove]
  rfl

/-- Not much above the bound the product is rounded to a whole number that is one too low. -/
example : rankDouble ((Binary64.ofInt 999).divNat 1000) 17609795840999 + 1 =
    rank (999 / 1000) 17609795840999 := by
  decide +kernel

end Rank

section Percentile
variable {histogram : LatencyHistogram} {samples : Multiset ℕ} {quantile : Binary64}
  {m num den : ℕ}

/-- With at most `2 ^ 44` samples a percentile is the one of the exact rank. -/
theorem Holds.percentileDouble_eq (h : histogram.Holds samples) (hcard : samples.card ≤ 2 ^ 44)
    (happroximates : Approximates quantile m num den) :
    histogram.percentileDouble quantile = histogram.percentile (num / den) := by
  rcases Nat.eq_zero_or_pos samples.card with hnone | hpos
  · rw [Multiset.card_eq_zero.mp hnone] at h
    rw [h.percentile_of_empty]
    exact if_pos h.count
  · have hword : samples.card < 2 ^ 64 := by omega
    have htarget : histogram.percentileDouble quantile = histogram.percentileFrom
        (UInt64.ofNat (rankDouble quantile samples.card)) 0 (List.finRange kBucketCount) := by
      rw [percentileDouble, if_neg (h.count_ne_zero hpos hword), h.count_toNat hword]
      rfl
    rw [htarget, happroximates.rankDouble_eq hpos hcard, h.percentile_eq hword]
    exact h.percentileFrom_rank hword (rank_pos _ _) (rank_le _ hpos)

end Percentile

end LatencyHistogram
end SafeEdge.Rt
