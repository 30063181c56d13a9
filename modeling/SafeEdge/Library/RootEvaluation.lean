import SafeEdge.Library.ShiftRegister
import Mathlib.Algebra.CharP.Two
import Mathlib.Algebra.CharP.Algebra
import Mathlib.Algebra.Polynomial.Degree.Lemmas
import Mathlib.FieldTheory.IsAlgClosed.AlgebraicClosure

/-! Registers as polynomials evaluated at a root of their feedback polynomial: a step is a
multiplication by the root, and identities between powers of the root are checked by
running the register. -/
namespace Library
open Finset

section Ring
variable {R : Type*} [CommRing R] {w v : ℕ}

/-- The reflected register read as a polynomial of degree below `w` and evaluated at `y`. -/
def evalWord (y : R) (r : BitVec w) : R :=
  ∑ i ∈ range w, if r.getLsbD i then y ^ (w - 1 - i) else 0

/-- `y` is a root of the monic polynomial of degree `w` whose lower coefficients are `poly`. -/
def FeedbackRoot (poly : BitVec w) (y : R) : Prop := y ^ w = evalWord y poly

@[simp] theorem evalWord_zero (y : R) : evalWord y 0#w = 0 := by
  simp [evalWord]

theorem evalWord_setWidth {y : R} {c : ℕ} (hc : c ≤ w) (x : BitVec c) :
    evalWord y (x.setWidth w) = ∑ i ∈ range c, if x.getLsbD i then y ^ (w - 1 - i) else 0 := by
  unfold evalWord
  obtain ⟨d, rfl⟩ := Nat.exists_eq_add_of_le hc
  have hhigh : ∀ i ∈ range d, (if (x.setWidth (c + d)).getLsbD (c + i)
      then y ^ (c + d - 1 - (c + i)) else 0) = 0 := by
    intro i _
    simp [BitVec.getLsbD_setWidth]
  rw [sum_range_add, sum_eq_zero hhigh, add_zero]
  apply sum_congr rfl
  intro i hi
  have hi' : i < c + d := by rw [mem_range] at hi; omega
  simp [hi']

/-- The register of the constant polynomial one. -/
def unit (w : ℕ) : BitVec w := BitVec.twoPow w (w - 1)

theorem evalWord_unit (hw : 0 < w) (y : R) : evalWord y (unit w) = 1 := by
  obtain ⟨w, rfl⟩ := Nat.exists_eq_add_one_of_ne_zero hw.ne'
  unfold evalWord unit
  rw [sum_range_succ, sum_eq_zero]
  · simp
  · intro i hi
    rw [mem_range] at hi
    simp [BitVec.getLsbD_twoPow, show w ≠ i by omega]

variable [CharP R 2]

theorem evalWord_xor (y : R) (a b : BitVec w) :
    evalWord y (a ^^^ b) = evalWord y a + evalWord y b := by
  unfold evalWord
  rw [← sum_add_distrib]
  apply sum_congr rfl
  intro i _
  rw [BitVec.getLsbD_xor]
  cases a.getLsbD i <;> cases b.getLsbD i <;> simp [CharTwo.add_self_eq_zero]

/-- At a root of the feedback polynomial one step multiplies by the root. -/
theorem evalWord_shift {poly : BitVec w} {y : R} (hroot : FeedbackRoot poly y) (r : BitVec w) :
    evalWord y (shift poly r) = y * evalWord y r := by
  cases w with
  | zero => simp [evalWord]
  | succ w =>
    have hmoved : evalWord y (r >>> 1) =
        y * ∑ i ∈ range w, if r.getLsbD (i + 1) then y ^ (w + 1 - 1 - (i + 1)) else 0 := by
      unfold evalWord
      rw [sum_range_succ, mul_sum]
      simp only [BitVec.getLsbD_ushiftRight, BitVec.getLsbD_of_ge r (1 + w) (by omega),
        Bool.false_eq_true, if_false, add_zero]
      apply sum_congr rfl
      intro i hi
      rw [mem_range] at hi
      rw [Nat.add_comm 1 i, mul_ite, mul_zero, ← pow_succ']
      congr 2
      omega
    have hlow : evalWord y (shift poly r) =
        evalWord y (r >>> 1) + if r.getLsbD 0 then y ^ (w + 1) else 0 := by
      unfold shift
      split_ifs
      · rw [evalWord_xor, hroot]
      · rw [add_zero]
    rw [hlow, hmoved]
    conv_rhs => rw [evalWord, sum_range_succ', mul_add, mul_ite, mul_zero, ← pow_succ']
    rfl

theorem evalWord_shift_iterate {poly : BitVec w} {y : R} (hroot : FeedbackRoot poly y) (n : ℕ)
    (r : BitVec w) : evalWord y ((shift poly)^[n] r) = y ^ n * evalWord y r := by
  induction n with
  | zero => simp
  | succ n ih => rw [Function.iterate_succ_apply', evalWord_shift hroot, ih, pow_succ', mul_assoc]

/-- The linear combination of the registers `f j` that the first `n` bits of `r` select, the
bit of weight `j` selecting `f j`. -/
def combination (f : ℕ → BitVec w) (r : BitVec v) : ℕ → BitVec w
  | 0 => 0#w
  | n + 1 => combination f r n ^^^ if r.getLsbD n then f (v - 1 - n) else 0#w

theorem evalWord_combination {y : R} {f : ℕ → BitVec w} {g : ℕ → R}
    (hf : ∀ j, evalWord y (f j) = g j) (r : BitVec v) (n : ℕ) :
    evalWord y (combination f r n) =
      ∑ i ∈ range n, if r.getLsbD i then g (v - 1 - i) else 0 := by
  induction n with
  | zero => simp [combination]
  | succ n ih =>
    rw [combination, evalWord_xor, ih, sum_range_succ]
    split_ifs
    · rw [hf]
    · rw [evalWord_zero]

/-- The product of two registers modulo the feedback polynomial. -/
def product (poly a b : BitVec w) : BitVec w :=
  combination (fun j => (shift poly)^[j] b) a w

theorem evalWord_product {poly : BitVec w} {y : R} (hroot : FeedbackRoot poly y)
    (a b : BitVec w) : evalWord y (product poly a b) = evalWord y a * evalWord y b := by
  rw [product, evalWord_combination fun j => evalWord_shift_iterate hroot j b]
  conv_rhs => rw [evalWord, sum_mul]
  apply sum_congr rfl
  intro i _
  rw [ite_mul, zero_mul]

/-- The register of the polynomial `r` with the `k`-th power of the variable put in. -/
def substitution (poly : BitVec w) (k : ℕ) (r : BitVec v) : BitVec w :=
  combination (fun j => (shift poly)^[k * j] (unit w)) r v

theorem evalWord_substitution {poly : BitVec w} {y : R} (hw : 0 < w)
    (hroot : FeedbackRoot poly y) (k : ℕ) (r : BitVec v) :
    evalWord y (substitution poly k r) = evalWord (y ^ k) r := by
  have hpower : ∀ j, evalWord y ((shift poly)^[k * j] (unit w)) = (y ^ k) ^ j := by
    intro j
    rw [evalWord_shift_iterate hroot, evalWord_unit hw, mul_one, pow_mul]
  rw [substitution, evalWord_combination hpower, evalWord]

/-- A root of one feedback polynomial whose `k`-th power is a root of another, by a run of
the first register. -/
theorem feedbackRoot_pow {poly : BitVec w} {other : BitVec v} {y : R} (hw : 0 < w)
    (hroot : FeedbackRoot poly y) {k : ℕ}
    (hrun : substitution poly k other = (shift poly)^[k * v] (unit w)) :
    FeedbackRoot other (y ^ k) := by
  rw [FeedbackRoot, ← evalWord_substitution hw hroot, hrun, evalWord_shift_iterate hroot,
    evalWord_unit hw, mul_one, pow_mul]

/-- The register of the root raised to the power `2 ^ j`, by repeated squaring. -/
def frobenius (poly : BitVec w) : ℕ → BitVec w
  | 0 => shift poly (unit w)
  | j + 1 => product poly (frobenius poly j) (frobenius poly j)

theorem evalWord_frobenius {poly : BitVec w} {y : R} (hw : 0 < w)
    (hroot : FeedbackRoot poly y) (j : ℕ) : evalWord y (frobenius poly j) = y ^ 2 ^ j := by
  induction j with
  | zero => rw [frobenius, evalWord_shift hroot, evalWord_unit hw, mul_one, pow_zero, pow_one]
  | succ j ih => rw [frobenius, evalWord_product hroot, ih, ← pow_add, pow_succ, mul_two]

/-- The register of the root raised to the sum of the powers of two listed. -/
def binaryPower (poly : BitVec w) : List ℕ → BitVec w
  | [] => unit w
  | j :: js => product poly (frobenius poly j) (binaryPower poly js)

theorem evalWord_binaryPower {poly : BitVec w} {y : R} (hw : 0 < w)
    (hroot : FeedbackRoot poly y) (js : List ℕ) :
    evalWord y (binaryPower poly js) = y ^ (js.map (2 ^ ·)).sum := by
  induction js with
  | nil => rw [binaryPower, evalWord_unit hw, List.map_nil, List.sum_nil, pow_zero]
  | cons j js ih =>
    rw [binaryPower, evalWord_product hroot, evalWord_frobenius hw hroot, ih, List.map_cons,
      List.sum_cons, pow_add]

/-- A power of the root is not one when its register differs from one by an invertible
register. -/
theorem pow_ne_one_of_inverse [Nontrivial R] {poly inverse : BitVec w} {y : R} (hw : 0 < w)
    (hroot : FeedbackRoot poly y) {js : List ℕ}
    (hrun : product poly inverse (binaryPower poly js ^^^ unit w) = unit w) :
    y ^ (js.map (2 ^ ·)).sum ≠ 1 := by
  intro hone
  have hvalue := congrArg (evalWord y) hrun
  rw [evalWord_product hroot, evalWord_xor, evalWord_binaryPower hw hroot, evalWord_unit hw,
    hone, CharTwo.add_self_eq_zero, mul_zero] at hvalue
  exact zero_ne_one hvalue

end Ring

section Closure
open Polynomial
variable {w : ℕ}

theorem eval_evalWord {K : Type*} [Field K] (y : K) (r : BitVec w) :
    (evalWord (X : K[X]) r).eval y = evalWord y r := by
  simp only [evalWord, eval_finsetSum, apply_ite (Polynomial.eval y), eval_pow, eval_X,
    eval_zero]

theorem degree_evalWord_lt {K : Type*} [Field K] (r : BitVec w) :
    (evalWord (X : K[X]) r).degree < w := by
  rw [← mem_degreeLT]
  apply Submodule.sum_mem
  intro i hi
  rw [Finset.mem_range] at hi
  split_ifs
  · rw [mem_degreeLT, degree_X_pow]
    exact_mod_cast (show w - 1 - i < w by omega)
  · exact Submodule.zero_mem _

instance charP_algebraicClosure : CharP (AlgebraicClosure (ZMod 2)) 2 :=
  charP_of_injective_algebraMap (algebraMap (ZMod 2) (AlgebraicClosure (ZMod 2))).injective 2

/-- Every feedback polynomial has a root in the closure of the two-element field. -/
theorem exists_feedbackRoot (poly : BitVec w) (hw : 0 < w) :
    ∃ y : AlgebraicClosure (ZMod 2), FeedbackRoot poly y := by
  have hdegree : (X ^ w + evalWord (X : (AlgebraicClosure (ZMod 2))[X]) poly).degree =
      (w : WithBot ℕ) := by
    rw [degree_add_eq_left_of_degree_lt, degree_X_pow]
    rw [degree_X_pow]
    exact degree_evalWord_lt poly
  have hpositive : (X ^ w + evalWord (X : (AlgebraicClosure (ZMod 2))[X]) poly).degree ≠ 0 := by
    rw [hdegree]
    exact_mod_cast hw.ne'
  obtain ⟨y, hy⟩ := IsAlgClosed.exists_root _ hpositive
  refine ⟨y, ?_⟩
  rw [IsRoot.def, eval_add, eval_pow, eval_X, eval_evalWord] at hy
  exact CharTwo.add_eq_zero.mp hy

end Closure

end Library
