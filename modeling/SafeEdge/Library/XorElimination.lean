import SafeEdge.Library.ShiftRegister

/-! Elimination over exclusive or: a basis found by any means certifies which words a linear
map sends below a given bit. -/
namespace Library

variable {w : ℕ}

/-- A word with a distinguished set bit, and the word it is the image of. -/
structure Pivot (w : ℕ) where
  position : ℕ
  image : BitVec w
  preimage : BitVec w

/-- Clear the distinguished bit of an image, keeping track of its preimage. -/
def Pivot.cancel (pivot : Pivot w) (row : BitVec w × BitVec w) : BitVec w × BitVec w :=
  if row.1.getLsbD pivot.position then (row.1 ^^^ pivot.image, row.2 ^^^ pivot.preimage) else row

def reduceRow (basis : List (Pivot w)) (row : BitVec w × BitVec w) : BitVec w × BitVec w :=
  basis.foldl (fun row pivot => pivot.cancel row) row

/-- Extend the basis by a row unless its image reduces to zero. -/
def insertRow (basis : List (Pivot w)) (row : BitVec w × BitVec w) : List (Pivot w) :=
  let reduced := reduceRow basis row
  match (List.range w).find? reduced.1.getLsbD with
  | none => basis
  | some position => basis ++ [⟨position, reduced.1, reduced.2⟩]

def eliminate (rows : List (BitVec w × BitVec w)) : List (Pivot w) := rows.foldl insertRow []

/-- The bits of a word from position `p` on. -/
def bitsFrom (p : ℕ) (r : BitVec w) : BitVec w := r >>> p <<< p

theorem bitsFrom_xor (p : ℕ) (a b : BitVec w) :
    bitsFrom p (a ^^^ b) = bitsFrom p a ^^^ bitsFrom p b := by
  rw [bitsFrom, BitVec.ushiftRight_xor_distrib, BitVec.shiftLeft_xor_distrib]
  rfl

theorem bitsFrom_eq_zero {p : ℕ} {r : BitVec w} (h : ∀ i, p ≤ i → r.getLsbD i = false) :
    bitsFrom p r = 0#w := by
  have hmoved : r >>> p = 0#w := by
    apply BitVec.eq_of_getLsbD_eq
    intro i _
    rw [BitVec.getLsbD_ushiftRight, h (p + i) (by omega), BitVec.getLsbD_zero]
  rw [bitsFrom, hmoved, BitVec.zero_shiftLeft]

theorem Pivot.cancel_xor (pivot : Pivot w) (row row' : BitVec w × BitVec w) :
    pivot.cancel (row.1 ^^^ row'.1, row.2 ^^^ row'.2) =
      ((pivot.cancel row).1 ^^^ (pivot.cancel row').1,
        (pivot.cancel row).2 ^^^ (pivot.cancel row').2) := by
  unfold cancel
  rw [BitVec.getLsbD_xor]
  have hswap : ∀ a b c : BitVec w, a ^^^ b ^^^ c = a ^^^ c ^^^ b := by
    intro a b c
    rw [BitVec.xor_assoc, BitVec.xor_comm b c, ← BitVec.xor_assoc]
  cases row.1.getLsbD pivot.position <;> cases row'.1.getLsbD pivot.position
  · rfl
  · simp [BitVec.xor_assoc]
  · simp [hswap row.1, hswap row.2]
  · simp [xor_xor_xor_comm]

theorem reduceRow_xor (basis : List (Pivot w)) (row row' : BitVec w × BitVec w) :
    reduceRow basis (row.1 ^^^ row'.1, row.2 ^^^ row'.2) =
      ((reduceRow basis row).1 ^^^ (reduceRow basis row').1,
        (reduceRow basis row).2 ^^^ (reduceRow basis row').2) := by
  induction basis generalizing row row' with
  | nil => rfl
  | cons pivot basis ih =>
    simp only [reduceRow, List.foldl_cons, pivot.cancel_xor]
    exact ih (pivot.cancel row) (pivot.cancel row')

/-- A row whose image is zero passes through the reduction unchanged. -/
theorem reduceRow_zero (basis : List (Pivot w)) (r : BitVec w) :
    reduceRow basis (0#w, r) = (0#w, r) := by
  induction basis with
  | nil => rfl
  | cons pivot basis ih =>
    have hcancel : pivot.cancel (0#w, r) = (0#w, r) := by simp [Pivot.cancel]
    rw [reduceRow, List.foldl_cons, hcancel]
    exact ih

/-- A linear map sends a word into a set closed under exclusive or when it does so with each
bit the word may have. -/
theorem linear_mem {f : BitVec w → BitVec w} (hf : ∀ a b, f (a ^^^ b) = f a ^^^ f b)
    {S : List (BitVec w)} (hzero : 0#w ∈ S) (hclosed : ∀ a ∈ S, ∀ b ∈ S, a ^^^ b ∈ S) {p : ℕ}
    (hbits : ∀ j, p ≤ j → j < w → f (BitVec.twoPow w j) ∈ S) {r : BitVec w}
    (hr : ∀ i < p, r.getLsbD i = false) : f r ∈ S := by
  have hfzero : f 0#w = 0#w := by
    have hdouble := hf 0#w 0#w
    rw [BitVec.xor_self, BitVec.xor_self] at hdouble
    exact hdouble
  have hlow : ∀ n ≤ w, f ((r.setWidth n).setWidth w) ∈ S := by
    intro n hn
    induction n with
    | zero =>
      rw [setWidth_zero_setWidth, hfzero]
      exact hzero
    | succ n ih =>
      rw [setWidth_succ_eq, hf]
      apply hclosed _ (ih (by omega))
      by_cases hbit : r.getLsbD n = true
      · have hp : p ≤ n := by
          by_contra hlt
          rw [hr n (by omega)] at hbit
          exact Bool.false_ne_true hbit
        have hword : (BitVec.ofBool (r.getLsbD n)).setWidth w <<< n = BitVec.twoPow w n := by
          rw [hbit, BitVec.twoPow_eq]
          congr 1
          apply BitVec.eq_of_getLsbD_eq
          intro i hi
          simp [BitVec.getLsbD_one, hi]
        rw [hword]
        exact hbits n hp (by omega)
      · have hword : (BitVec.ofBool (r.getLsbD n)).setWidth w <<< n = 0#w := by
          rw [Bool.not_eq_true] at hbit
          rw [hbit]
          simp
        rw [hword, hfzero]
        exact hzero
  have hall := hlow w le_rfl
  rwa [BitVec.setWidth_eq, BitVec.setWidth_eq] at hall

/-- When the reduction of every bit from `p` on ends in `S`, every word made of such bits that
a linear map sends below bit `p` is in `S`. -/
theorem mem_of_image_below {f : BitVec w → BitVec w} (hf : ∀ a b, f (a ^^^ b) = f a ^^^ f b)
    {S : List (BitVec w)} (hzero : 0#w ∈ S) (hclosed : ∀ a ∈ S, ∀ b ∈ S, a ^^^ b ∈ S) {p : ℕ}
    (basis : List (Pivot w)) (hbits : ∀ j, p ≤ j → j < w →
      (reduceRow basis (bitsFrom p (f (BitVec.twoPow w j)), BitVec.twoPow w j)).2 ∈ S)
    {r : BitVec w} (hr : ∀ i < p, r.getLsbD i = false)
    (himage : ∀ i, p ≤ i → (f r).getLsbD i = false) : r ∈ S := by
  have hlinear : ∀ a b, (reduceRow basis (bitsFrom p (f (a ^^^ b)), a ^^^ b)).2 =
      (reduceRow basis (bitsFrom p (f a), a)).2 ^^^
        (reduceRow basis (bitsFrom p (f b), b)).2 := by
    intro a b
    rw [hf, bitsFrom_xor, reduceRow_xor basis (bitsFrom p (f a), a) (bitsFrom p (f b), b)]
  have hmem := linear_mem (f := fun a => (reduceRow basis (bitsFrom p (f a), a)).2) hlinear
    hzero hclosed hbits hr
  simp only [bitsFrom_eq_zero himage, reduceRow_zero] at hmem
  exact hmem

end Library
