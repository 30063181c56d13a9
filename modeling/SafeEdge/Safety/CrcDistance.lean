import SafeEdge.Library.CodeDistance
import SafeEdge.Safety.Crc32

/-! The polynomial of the safety checksum detects every error of up to five bits: it has the
roots `1`, `β` and `β ^ 5` for a primitive element `β` of the field of `2 ^ 15` elements. -/
namespace SafeEdge.Safety.Crc32
open Library

/-- The factor of degree fifteen of the checksum polynomial that `β` is a root of. -/
def factor : BitVec 15 := 0x7D09

section Root
variable {K : Type*} [Field K] [CharP K 2] {β : K}

theorem factor_root_fixed (hβ : FeedbackRoot factor β) : β ^ 2 ^ 15 = β := by
  have hrun : frobenius factor 15 = frobenius factor 0 := by decide +kernel
  rw [← evalWord_frobenius (by decide) hβ 15, hrun, evalWord_frobenius (by decide) hβ 0,
    pow_zero, pow_one]

theorem factor_root_ne_zero (hβ : FeedbackRoot factor β) : β ≠ 0 := by
  have hrun : product factor 0x7A13 (frobenius factor 0) = unit 15 := by decide +kernel
  intro hzero
  have hvalue := congrArg (evalWord β) hrun
  rw [evalWord_product hβ, evalWord_frobenius (by decide) hβ, evalWord_unit (by decide), hzero,
    pow_zero, pow_one, mul_zero] at hvalue
  exact zero_ne_one hvalue

/-- A root of the factor is a primitive element. -/
theorem orderOf_factor_root (hβ : FeedbackRoot factor β) : orderOf β = 32767 := by
  have hpow : β ^ 32767 = 1 := by
    apply mul_left_cancel₀ (factor_root_ne_zero hβ)
    rw [← pow_succ', mul_one]
    exact factor_root_fixed hβ
  have h7 : β ^ 4681 ≠ 1 := by
    apply pow_ne_one_of_inverse (by decide) hβ (show product factor 0x6C1E
      (binaryPower factor [0, 3, 6, 9, 12] ^^^ unit 15) = unit 15 by decide +kernel)
  have h31 : β ^ 1057 ≠ 1 := by
    apply pow_ne_one_of_inverse (by decide) hβ (show product factor 0x625F
      (binaryPower factor [0, 5, 10] ^^^ unit 15) = unit 15 by decide +kernel)
  have h151 : β ^ 217 ≠ 1 := by
    apply pow_ne_one_of_inverse (by decide) hβ (show product factor 0x658A
      (binaryPower factor [0, 3, 4, 6, 7] ^^^ unit 15) = unit 15 by decide +kernel)
  apply orderOf_eq_of_pow_and_pow_div_prime (by decide) hpow
  intro p hp hdvd
  have hfactors : p ∣ 7 * 31 * 151 := hdvd
  rw [hp.dvd_mul, hp.dvd_mul, Nat.prime_dvd_prime_iff_eq hp (by norm_num),
    Nat.prime_dvd_prime_iff_eq hp (by norm_num),
    Nat.prime_dvd_prime_iff_eq hp (by norm_num)] at hfactors
  rcases hfactors with (rfl | rfl) | rfl
  · exact h7
  · exact h31
  · exact h151

theorem polynomial_one_root : FeedbackRoot polynomial (1 : K) := by
  have hone : FeedbackRoot (1#1) (1 : K) := by simp [FeedbackRoot, evalWord]
  have hrun : substitution (1#1) 1 polynomial = (shift (1#1))^[1 * 32] (unit 1) := by
    decide +kernel
  simpa only [pow_one] using feedbackRoot_pow (by decide) hone hrun

theorem polynomial_root (hβ : FeedbackRoot factor β) : FeedbackRoot polynomial β := by
  have hrun : substitution factor 1 polynomial = (shift factor)^[1 * 32] (unit 15) := by
    decide +kernel
  simpa only [pow_one] using feedbackRoot_pow (by decide) hβ hrun

theorem polynomial_fifth_root (hβ : FeedbackRoot factor β) :
    FeedbackRoot polynomial (β ^ 5) := by
  have hrun : substitution factor 5 polynomial = (shift factor)^[5 * 32] (unit 15) := by
    decide +kernel
  exact feedbackRoot_pow (by decide) hβ hrun

theorem distanceSixRoots_of_factor_root (hβ : FeedbackRoot factor β) :
    DistanceSixRoots polynomial β 15 where
  odd := by decide
  fixed := factor_root_fixed hβ
  nonzero := factor_root_ne_zero hβ
  one_root := polynomial_one_root
  root := polynomial_root hβ
  fifth_root := polynomial_fifth_root hβ

end Root

/-- Two byte streams of up to `32767` bits that leave the register in one state differ in no
bit or in at least six. -/
theorem six_le_card_of_feed_eq {xs ys : List (BitVec 8)} (hlen : xs.length = ys.length)
    (hshort : 8 * xs.length ≤ 32767) {r : BitVec 32}
    (hfeed : feed polynomial r xs = feed polynomial r ys)
    (hne : (differingBits xs ys).Nonempty) : 6 ≤ (differingBits xs ys).card := by
  obtain ⟨β, hβ⟩ := exists_feedbackRoot factor (by decide)
  have horder := orderOf_factor_root hβ
  exact six_le_card_differingBits (distanceSixRoots_of_factor_root hβ) (by decide) hlen
    (by omega) hfeed hne

end SafeEdge.Safety.Crc32
