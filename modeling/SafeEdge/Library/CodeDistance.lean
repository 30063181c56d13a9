import SafeEdge.Library.RootEvaluation
import Mathlib.GroupTheory.OrderOfElement
import Mathlib.Algebra.CharP.Lemmas

/-! The distance of the code a feedback register checks: two symbol streams that leave the
register in one state differ in no bit or in at least six, when the polynomial has the roots
`1`, `β` and `β ^ 5` and the streams are no longer than the order of `β`. -/
namespace Library
open Finset

section Symbols
variable {c : ℕ}

/-- Bit `p` of a stream of symbols, least significant bit of the first symbol first. -/
def bitAt (xs : List (BitVec c)) (p : ℕ) : Bool := (xs.getD (p / c) 0#c).getLsbD (p % c)

/-- The bit positions at which two streams differ. -/
def differingBits (xs ys : List (BitVec c)) : Finset ℕ :=
  {p ∈ range (c * xs.length) | bitAt xs p ≠ bitAt ys p}

@[simp] theorem differingBits_self (xs : List (BitVec c)) : differingBits xs xs = ∅ := by
  simp [differingBits]

theorem bitAt_cons_low (x : BitVec c) (xs : List (BitVec c)) {p : ℕ} (hp : p < c) :
    bitAt (x :: xs) p = x.getLsbD p := by
  rw [bitAt, Nat.div_eq_of_lt hp, Nat.mod_eq_of_lt hp, List.getD_cons_zero]

theorem bitAt_cons_high (x : BitVec c) (xs : List (BitVec c)) (p : ℕ) :
    bitAt (x :: xs) (c + p) = bitAt xs p := by
  rcases Nat.eq_zero_or_pos c with rfl | hc
  · simp [bitAt]
  · rw [bitAt, Nat.add_div_left p hc, Nat.add_mod_left, List.getD_cons_succ, bitAt]

theorem sum_differingBits_cons {M : Type*} [AddCommMonoid M] (f : ℕ → M) (x y : BitVec c)
    (xs ys : List (BitVec c)) :
    ∑ p ∈ differingBits (x :: xs) (y :: ys), f p =
      (∑ i ∈ range c, if (x ^^^ y).getLsbD i then f i else 0) +
        ∑ p ∈ differingBits xs ys, f (c + p) := by
  rw [differingBits, sum_filter, List.length_cons, Nat.mul_succ, Nat.add_comm, sum_range_add,
    differingBits, sum_filter]
  congr 1
  · apply sum_congr rfl
    intro i hi
    rw [mem_range] at hi
    rw [bitAt_cons_low x xs hi, bitAt_cons_low y ys hi, BitVec.getLsbD_xor]
    cases x.getLsbD i <;> cases y.getLsbD i <;> rfl
  · simp only [bitAt_cons_high]

theorem card_differingBits_append {xs ys : List (BitVec c)} (h : xs.length = ys.length)
    (xs' ys' : List (BitVec c)) :
    (differingBits (xs ++ xs') (ys ++ ys')).card =
      (differingBits xs ys).card + (differingBits xs' ys').card := by
  induction xs generalizing ys with
  | nil =>
    obtain rfl : ys = [] := List.length_eq_zero_iff.mp h.symm
    simp
  | cons x xs ih =>
    cases ys with
    | nil => simp at h
    | cons y ys =>
      have hrest := ih (Nat.succ_injective h)
      simp only [card_eq_sum_ones, List.cons_append] at hrest ⊢
      rw [sum_differingBits_cons, sum_differingBits_cons, hrest, add_assoc]

/-- At a root of the feedback polynomial the difference of two registers after feeding two
streams is the polynomial of the differing positions. -/
theorem evalWord_feed_xor {R : Type*} [CommRing R] [CharP R 2] {w : ℕ} {poly : BitVec w} {y : R}
    (hroot : FeedbackRoot poly y) (hc : c ≤ w) (r s : BitVec w) {xs ys : List (BitVec c)}
    (h : xs.length = ys.length) :
    evalWord y (feed poly r xs ^^^ feed poly s ys) =
      y ^ (c * xs.length) * evalWord y (r ^^^ s) +
        ∑ p ∈ differingBits xs ys, y ^ (c * xs.length + w - 1 - p) := by
  induction xs generalizing ys r s with
  | nil =>
    obtain rfl : ys = [] := List.length_eq_zero_iff.mp h.symm
    simp
  | cons a xs ih =>
    cases ys with
    | nil => simp at h
    | cons b ys =>
      have hstep : evalWord y ((shift poly)^[c] (r ^^^ a.setWidth w) ^^^
          (shift poly)^[c] (s ^^^ b.setWidth w)) =
          y ^ c * (evalWord y (r ^^^ s) + evalWord y ((a ^^^ b).setWidth w)) := by
        rw [← shift_iterate_xor, evalWord_shift_iterate hroot, xor_xor_xor_comm, evalWord_xor,
          BitVec.setWidth_xor]
      have hlow : y ^ (c * xs.length) * (y ^ c * evalWord y ((a ^^^ b).setWidth w)) =
          ∑ i ∈ range c, if (a ^^^ b).getLsbD i
            then y ^ (c * (xs.length + 1) + w - 1 - i) else 0 := by
        rw [evalWord_setWidth hc, ← mul_assoc, ← pow_add, mul_sum]
        apply sum_congr rfl
        intro i hi
        rw [mem_range] at hi
        rw [mul_ite, mul_zero, ← pow_add]
        congr 2
        rw [Nat.mul_succ]
        omega
      have hhigh : ∑ p ∈ differingBits xs ys, y ^ (c * xs.length + w - 1 - p) =
          ∑ p ∈ differingBits xs ys, y ^ (c * (xs.length + 1) + w - 1 - (c + p)) := by
        apply sum_congr rfl
        intro p _
        congr 1
        rw [Nat.mul_succ]
        omega
      rw [feed_cons, feed_cons, ih _ _ (Nat.succ_injective h), hstep, sum_differingBits_cons,
        List.length_cons, hhigh, ← hlow, Nat.mul_succ, pow_add]
      ring

end Symbols

section PowerSums
variable {K : Type*} [Field K]

theorem two_pow_odd_mod_three {m : ℕ} (hm : Odd m) : ∃ k, 2 ^ m = 3 * k + 2 := by
  obtain ⟨j, rfl⟩ := hm
  induction j with
  | zero => exact ⟨0, rfl⟩
  | succ j ih =>
    obtain ⟨k, hk⟩ := ih
    refine ⟨4 * k + 2, ?_⟩
    rw [show 2 * (j + 1) + 1 = (2 * j + 1) + 2 by ring, pow_add, hk]
    ring

/-- A cube root of unity that an odd power of the Frobenius map fixes is one. -/
theorem eq_one_of_cube_eq_one {m : ℕ} (hm : Odd m) {t : K} (hfix : t ^ 2 ^ m = t)
    (hcube : t ^ 3 = 1) : t = 1 := by
  obtain ⟨k, hk⟩ := two_pow_odd_mod_three hm
  rw [hk, pow_add, pow_mul, hcube, one_pow, one_mul] at hfix
  have hne : t ≠ 0 := by
    rintro rfl
    simp at hcube
  have hmul : t * t = t * 1 := by rw [← pow_two, hfix, mul_one]
  exact mul_left_cancel₀ hne hmul

theorem pow_eq_pow_of_close {β : K} (hβ : β ≠ 0) {i j : ℕ} (hij : i ≤ j)
    (hclose : j - i < orderOf β) (h : β ^ i = β ^ j) : i = j := by
  obtain ⟨d, rfl⟩ := Nat.exists_eq_add_of_le hij
  rw [Nat.add_sub_cancel_left] at hclose
  have hpow : β ^ d = 1 := by
    rw [pow_add] at h
    exact mul_left_cancel₀ (pow_ne_zero i hβ) (by rw [← h, mul_one])
  rw [Nat.eq_zero_of_dvd_of_lt (orderOf_dvd_of_pow_eq_one hpow) hclose, Nat.add_zero]

variable [CharP K 2]

theorem fifth_powers_of_four (a b c : K) :
    a ^ 5 + b ^ 5 + c ^ 5 + (a + b + c) ^ 5 =
      (a + b) * (a + c) * ((a + b) ^ 3 + (a + c) ^ 3) := by
  have hquad : ∀ x y : K, (x + y) ^ 4 = x ^ 4 + y ^ 4 := fun x y => add_pow_char_pow x y 2 2
  have htwo : (2 : K) = 0 := CharTwo.two_eq_zero
  have habc : (a + b + c) ^ 4 = a ^ 4 + b ^ 4 + c ^ 4 := by rw [hquad, hquad]
  linear_combination (a + b + c) * habc - (a + c) * hquad a b - (a + b) * hquad a c +
    (b ^ 5 + c ^ 5) * htwo

/-- No four distinct elements fixed by an odd power of the Frobenius map have both their sum
and the sum of their fifth powers zero. -/
theorem four_power_sums_ne_zero {m : ℕ} (hm : Odd m) {a b c d : K} (hab : a ≠ b) (hac : a ≠ c)
    (hbc : b ≠ c) (ha : a ^ 2 ^ m = a) (hb : b ^ 2 ^ m = b) (hc : c ^ 2 ^ m = c)
    (hsum : a + b + c + d = 0) : a ^ 5 + b ^ 5 + c ^ 5 + d ^ 5 ≠ 0 := by
  intro hfive
  obtain rfl : a + b + c = d := CharTwo.add_eq_zero.mp hsum
  have hs : a + b ≠ 0 := fun h => hab (CharTwo.add_eq_zero.mp h)
  have hu : a + c ≠ 0 := fun h => hac (CharTwo.add_eq_zero.mp h)
  have hcubes : (a + c) ^ 3 = (a + b) ^ 3 := by
    rw [fifth_powers_of_four] at hfive
    exact (CharTwo.add_eq_zero.mp ((mul_eq_zero_iff_left (mul_ne_zero hs hu)).mp hfive)).symm
  have hfix : ((a + c) / (a + b)) ^ 2 ^ m = (a + c) / (a + b) := by
    rw [div_pow, add_pow_char_pow, add_pow_char_pow, ha, hb, hc]
  have hcube : ((a + c) / (a + b)) ^ 3 = 1 := by
    rw [div_pow, hcubes, div_self (pow_ne_zero 3 hs)]
  have hone := eq_one_of_cube_eq_one hm hfix hcube
  rw [div_eq_one_iff_eq hs] at hone
  exact hbc (add_left_cancel hone).symm

/-- A nonempty even set of elements fixed by an odd power of the Frobenius map whose first
and fifth power sums vanish has at least six members. -/
theorem six_le_card_of_power_sums {m : ℕ} (hm : Odd m) {S : Finset K} (hne : S.Nonempty)
    (heven : Even S.card) (hfix : ∀ x ∈ S, x ^ 2 ^ m = x) (hone : ∑ x ∈ S, x = 0)
    (hfive : ∑ x ∈ S, x ^ 5 = 0) : 6 ≤ S.card := by
  classical
  by_contra hlt
  have hpos := hne.card_pos
  obtain ⟨k, hk⟩ := heven
  have hcases : S.card = 2 ∨ S.card = 4 := by omega
  rcases hcases with htwo | hfour
  · obtain ⟨a, b, hab, rfl⟩ := card_eq_two.mp htwo
    rw [sum_pair hab] at hone
    exact hab (CharTwo.add_eq_zero.mp hone)
  · obtain ⟨a, T, haT, rfl, hT⟩ := card_eq_succ.mp hfour
    obtain ⟨b, c, d, hbc, hbd, hcd, rfl⟩ := card_eq_three.mp hT
    simp only [mem_insert, mem_singleton, not_or] at haT
    rw [sum_insert (by simp [haT]), sum_insert (by simp [hbc, hbd]), sum_pair hcd,
      ← add_assoc, ← add_assoc] at hone hfive
    exact four_power_sums_ne_zero hm haT.1 haT.2.1 hbc (hfix a (by simp)) (hfix b (by simp))
      (hfix c (by simp)) hone hfive

end PowerSums

section Code
variable {K : Type*} [Field K] [CharP K 2] {w c : ℕ}

/-- The roots that make a feedback polynomial detect every error of up to five bits. -/
structure DistanceSixRoots (poly : BitVec w) (β : K) (m : ℕ) : Prop where
  odd : Odd m
  fixed : β ^ 2 ^ m = β
  nonzero : β ≠ 0
  one_root : FeedbackRoot poly (1 : K)
  root : FeedbackRoot poly β
  fifth_root : FeedbackRoot poly (β ^ 5)

/-- Streams no longer than the order of the root that leave the register in one state differ
in no bit or in at least six. -/
theorem six_le_card_differingBits {poly : BitVec w} {β : K} {m : ℕ}
    (hβ : DistanceSixRoots poly β m) (hc : c ≤ w) {xs ys : List (BitVec c)}
    (hlen : xs.length = ys.length) (horder : c * xs.length ≤ orderOf β) {r : BitVec w}
    (hfeed : feed poly r xs = feed poly r ys) (hne : (differingBits xs ys).Nonempty) :
    6 ≤ (differingBits xs ys).card := by
  classical
  set exponent : ℕ → ℕ := fun p => c * xs.length + w - 1 - p with hexponent
  have hsum : ∀ y : K, FeedbackRoot poly y →
      ∑ p ∈ differingBits xs ys, y ^ exponent p = 0 := by
    intro y hy
    have h := evalWord_feed_xor hy hc r r hlen
    rw [hfeed, BitVec.xor_self, BitVec.xor_self, evalWord_zero, mul_zero, zero_add] at h
    exact h.symm
  have hbound : ∀ p ∈ differingBits xs ys, p < c * xs.length := by
    intro p hp
    exact mem_range.mp (mem_filter.mp hp).1
  have hinj : Set.InjOn (fun p => β ^ exponent p) (differingBits xs ys) := by
    intro p hp q hq hpq
    have hp' := hbound p hp
    have hq' := hbound q hq
    simp only [hexponent] at hpq
    rcases le_total p q with hle | hle
    · have := pow_eq_pow_of_close hβ.nonzero (by omega) (by omega) hpq.symm
      omega
    · have := pow_eq_pow_of_close hβ.nonzero (by omega) (by omega) hpq
      omega
  have heven : Even (differingBits xs ys).card := by
    have h := hsum 1 hβ.one_root
    simp only [one_pow, sum_const, nsmul_eq_mul, mul_one] at h
    exact even_iff_two_dvd.mpr ((CharP.cast_eq_zero_iff K 2 _).mp h)
  rw [← card_image_of_injOn hinj] at heven ⊢
  apply six_le_card_of_power_sums hβ.odd (hne.image _) heven
  · intro x hx
    obtain ⟨p, _, rfl⟩ := mem_image.mp hx
    rw [← pow_mul, mul_comm, pow_mul, hβ.fixed]
  · rw [sum_image hinj]
    exact hsum β hβ.root
  · rw [sum_image hinj]
    have h := hsum (β ^ 5) hβ.fifth_root
    simpa only [← pow_mul, mul_comm] using h

end Code

end Library
