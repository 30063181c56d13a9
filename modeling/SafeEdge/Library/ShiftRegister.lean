import Mathlib.Tactic

/-! Reflected linear feedback shift registers of any width: linearity, injectivity, and
feeding a stream of symbols. -/
namespace Library

variable {w c : ℕ}

/-- One step of the reflected register: shift right and apply the polynomial when the bit
shifted out is set. -/
def shift (poly r : BitVec w) : BitVec w :=
  if r.getLsbD 0 then (r >>> 1) ^^^ poly else r >>> 1

/-- Feed a stream of `c`-bit symbols, least significant bit first. -/
def feed (poly r : BitVec w) (xs : List (BitVec c)) : BitVec w :=
  xs.foldl (fun s x => (shift poly)^[c] (s ^^^ x.setWidth w)) r

/-- The word whose symbols, least significant first, are the given ones. -/
def joined (w : ℕ) : List (BitVec c) → BitVec w
  | [] => 0#w
  | x :: xs => x.setWidth w ^^^ joined w xs <<< c

/-- The `c`-bit symbols of a word, least significant first. -/
def symbols (c : ℕ) : ℕ → BitVec w → List (BitVec c)
  | 0, _ => []
  | n + 1, v => v.setWidth c :: symbols c n (v >>> c)

theorem xor_xor_xor_comm (a b c d : BitVec w) :
    (a ^^^ b) ^^^ (c ^^^ d) = (a ^^^ c) ^^^ (b ^^^ d) := by
  rw [BitVec.xor_assoc, ← BitVec.xor_assoc b c d, BitVec.xor_comm b c, BitVec.xor_assoc c b d,
    ← BitVec.xor_assoc]

theorem shift_xor (poly a b : BitVec w) :
    shift poly (a ^^^ b) = shift poly a ^^^ shift poly b := by
  unfold shift
  rw [BitVec.getLsbD_xor, BitVec.ushiftRight_xor_distrib]
  cases a.getLsbD 0 <;> cases b.getLsbD 0
  · rfl
  · simp [BitVec.xor_assoc]
  · simp [BitVec.xor_assoc, BitVec.xor_comm poly]
  · simp only [Bool.xor_self, Bool.false_eq_true, if_false, if_true]
    rw [xor_xor_xor_comm, BitVec.xor_self, BitVec.xor_zero]

theorem shift_of_even (poly : BitVec w) {r : BitVec w} (h : r.getLsbD 0 = false) :
    shift poly r = r >>> 1 := by
  simp [shift, h]

theorem shift_iterate_xor (poly : BitVec w) (n : ℕ) (a b : BitVec w) :
    (shift poly)^[n] (a ^^^ b) = (shift poly)^[n] a ^^^ (shift poly)^[n] b := by
  induction n generalizing a b with
  | zero => rfl
  | succ n ih => rw [Function.iterate_succ_apply, shift_xor, ih]; rfl

/-- A register whose low bits are clear only moves down through that many steps. -/
theorem shift_iterate_of_low_clear (poly : BitVec w) (n : ℕ) {r : BitVec w}
    (h : ∀ i < n, r.getLsbD i = false) : (shift poly)^[n] r = r >>> n := by
  induction n with
  | zero => simp
  | succ n ih =>
    rw [Function.iterate_succ_apply', ih fun i hi => h i (by omega)]
    have hbit : (r >>> n).getLsbD 0 = false := by simpa using h n (Nat.lt_succ_self n)
    rw [shift_of_even poly hbit, BitVec.shiftRight_add]

/-- The steps of a whole word split into those of its low bits and a plain move of the rest. -/
theorem shift_iterate_split (poly r : BitVec w) (n : ℕ) :
    (shift poly)^[n] r = r >>> n ^^^ (shift poly)^[n] ((r.setWidth n).setWidth w) := by
  have hclear : ∀ i < n, (r ^^^ (r.setWidth n).setWidth w).getLsbD i = false := by
    intro i hi
    simp only [BitVec.getLsbD_xor, BitVec.getLsbD_setWidth, hi, decide_true, Bool.true_and]
    by_cases hw : i < w
    · simp [hw]
    · simp [hw, BitVec.getLsbD_of_ge r i (by omega)]
  have hmoved : (r ^^^ (r.setWidth n).setWidth w) >>> n = r >>> n := by
    ext i hi
    simp
  calc (shift poly)^[n] r
      = (shift poly)^[n] (r ^^^ (r.setWidth n).setWidth w ^^^ (r.setWidth n).setWidth w) := by
        rw [BitVec.xor_assoc, BitVec.xor_self, BitVec.xor_zero]
    _ = _ := by rw [shift_iterate_xor, shift_iterate_of_low_clear poly n hclear, hmoved]

theorem shift_iterate_shiftLeft (poly : BitVec w) {n : ℕ} {r : BitVec w}
    (h : ∀ i, w ≤ i + n → r.getLsbD i = false) : (shift poly)^[n] (r <<< n) = r := by
  rw [shift_iterate_of_low_clear poly n fun i hi => by simp [hi]]
  ext i hi
  rw [← BitVec.getLsbD_eq_getElem, ← BitVec.getLsbD_eq_getElem]
  simp only [BitVec.getLsbD_ushiftRight, BitVec.getLsbD_shiftLeft, Nat.add_sub_cancel_left]
  by_cases hin : w ≤ i + n
  · rw [h i hin, Bool.and_false]
  · simp [show n + i < w by omega]

/-- With the top coefficient of the polynomial set, no register but zero steps to zero. -/
theorem shift_eq_zero {poly r : BitVec w} (hpoly : poly.getLsbD (w - 1) = true)
    (h : shift poly r = 0#w) : r = 0#w := by
  have hw : 0 < w := by
    by_contra hw
    obtain rfl : w = 0 := by omega
    simp at hpoly
  have hbits : ∀ i, (shift poly r).getLsbD i = false := by simp [h]
  have hlow : r.getLsbD 0 = false := by
    by_contra hset
    have htop := hbits (w - 1)
    rw [shift, if_pos (by simpa using hset), BitVec.getLsbD_xor, hpoly,
      BitVec.getLsbD_ushiftRight, BitVec.getLsbD_of_ge r _ (by omega)] at htop
    simp at htop
  apply BitVec.eq_of_getLsbD_eq
  intro i hi
  rw [BitVec.getLsbD_zero]
  cases i with
  | zero => exact hlow
  | succ i =>
    have hmoved := hbits i
    rwa [shift_of_even poly hlow, BitVec.getLsbD_ushiftRight, Nat.add_comm] at hmoved

theorem shift_injective {poly : BitVec w} (hpoly : poly.getLsbD (w - 1) = true) :
    Function.Injective (shift poly) := by
  intro a b hab
  have hzero : shift poly (a ^^^ b) = 0#w := by rw [shift_xor, hab, BitVec.xor_self]
  exact BitVec.xor_eq_zero_iff.mp (shift_eq_zero hpoly hzero)

@[simp] theorem feed_nil (poly r : BitVec w) : feed poly r ([] : List (BitVec c)) = r := rfl

@[simp] theorem feed_cons (poly r : BitVec w) (x : BitVec c) (xs : List (BitVec c)) :
    feed poly r (x :: xs) = feed poly ((shift poly)^[c] (r ^^^ x.setWidth w)) xs := rfl

theorem feed_append (poly r : BitVec w) (xs ys : List (BitVec c)) :
    feed poly r (xs ++ ys) = feed poly (feed poly r xs) ys := List.foldl_append

theorem joined_getLsbD_of_ge (xs : List (BitVec c)) {i : ℕ} (hi : c * xs.length ≤ i) :
    (joined w xs).getLsbD i = false := by
  induction xs generalizing i with
  | nil => simp [joined]
  | cons x xs ih =>
    rw [List.length_cons, Nat.mul_succ] at hi
    simp only [joined, BitVec.getLsbD_xor, BitVec.getLsbD_setWidth, BitVec.getLsbD_shiftLeft]
    rw [BitVec.getLsbD_of_ge x i (by omega), ih (by omega)]
    simp

@[simp] theorem length_symbols (n : ℕ) (v : BitVec w) : (symbols c n v).length = n := by
  induction n generalizing v with
  | zero => rfl
  | succ n ih => rw [symbols, List.length_cons, ih]

theorem joined_symbols_getLsbD (n : ℕ) (v : BitVec w) (i : ℕ) :
    (joined w (symbols c n v)).getLsbD i = (decide (i < c * n) && v.getLsbD i) := by
  induction n generalizing v i with
  | zero => simp [symbols, joined]
  | succ n ih =>
    simp only [symbols, joined, BitVec.getLsbD_xor, BitVec.getLsbD_setWidth,
      BitVec.getLsbD_shiftLeft, ih, BitVec.getLsbD_ushiftRight, Nat.mul_succ]
    by_cases hw : i < w
    · by_cases hc : i < c
      · simp [hw, hc, show i < c * n + c by omega]
      · have hlift : decide (i - c < c * n) = decide (i < c * n + c) := by
          rw [decide_eq_decide]
          omega
        simp [hw, hc, hlift, show c + (i - c) = i by omega]
    · simp [hw, BitVec.getLsbD_of_ge v i (by omega)]

theorem joined_symbols {n : ℕ} (hn : w ≤ c * n) (v : BitVec w) :
    joined w (symbols c n v) = v := by
  apply BitVec.eq_of_getLsbD_eq
  intro i hi
  rw [joined_symbols_getLsbD, decide_eq_true (by omega), Bool.true_and]

theorem symbols_joined (xs : List (BitVec c)) (hw : c * xs.length ≤ w) :
    symbols c xs.length (joined w xs) = xs := by
  induction xs with
  | nil => rfl
  | cons x xs ih =>
    rw [List.length_cons, Nat.mul_succ] at hw
    have hhead : (joined w (x :: xs)).setWidth c = x := by
      apply BitVec.eq_of_getLsbD_eq
      intro i hi
      simp [joined, hi, show i < w by omega]
    have htail : joined w (x :: xs) >>> c = joined w xs := by
      apply BitVec.eq_of_getLsbD_eq
      intro i hi
      simp only [joined, BitVec.getLsbD_ushiftRight, BitVec.getLsbD_xor, BitVec.getLsbD_setWidth,
        BitVec.getLsbD_shiftLeft, BitVec.getLsbD_of_ge x (c + i) (by omega), Bool.and_false,
        Bool.false_xor, Nat.add_sub_cancel_left]
      by_cases hhigh : c + i < w
      · simp [hhigh]
      · rw [joined_getLsbD_of_ge xs (by omega), Bool.and_false]
    rw [List.length_cons, symbols, hhead, htail, ih (by omega)]

/-- Symbols that fit the register together can be fed as one word. -/
theorem feed_eq_joined (poly r : BitVec w) (xs : List (BitVec c)) (hw : c * xs.length ≤ w) :
    feed poly r xs = (shift poly)^[c * xs.length] (r ^^^ joined w xs) := by
  induction xs generalizing r with
  | nil => simp [joined]
  | cons x xs ih =>
    rw [List.length_cons, Nat.mul_succ] at hw
    have hmove : (shift poly)^[c] (joined w xs <<< c) = joined w xs := by
      apply shift_iterate_shiftLeft
      intro i hi
      exact joined_getLsbD_of_ge xs (by omega)
    rw [feed_cons, ih _ (by omega), List.length_cons, Nat.mul_succ,
      Function.iterate_add_apply, joined, ← BitVec.xor_assoc,
      shift_iterate_xor poly c (r ^^^ x.setWidth w), hmove]

theorem setWidth_zero_setWidth (x : BitVec c) : (x.setWidth 0).setWidth w = 0#w := by
  apply BitVec.eq_of_getLsbD_eq
  intro i _
  rw [BitVec.getLsbD_setWidth, BitVec.getLsbD_of_ge _ i (Nat.zero_le i), Bool.and_false,
    BitVec.getLsbD_zero]

/-- The low bits of a word, one more of them. -/
theorem setWidth_succ_eq (x : BitVec c) {n : ℕ} :
    (x.setWidth (n + 1)).setWidth w =
      (x.setWidth n).setWidth w ^^^ (BitVec.ofBool (x.getLsbD n)).setWidth w <<< n := by
  apply BitVec.eq_of_getLsbD_eq
  intro i hi
  simp only [BitVec.getLsbD_setWidth, BitVec.getLsbD_xor, BitVec.getLsbD_shiftLeft, hi,
    decide_true, Bool.true_and]
  rcases lt_trichotomy i n with hlt | rfl | hgt
  · simp [hlt, show i < n + 1 by omega]
  · simp [show 0 < w by omega]
  · have hhigh : (BitVec.ofBool (x.getLsbD n)).getLsbD (i - n) = false :=
      BitVec.getLsbD_of_ge _ _ (by omega)
    simp [hhigh, show ¬ i < n + 1 by omega, show ¬ i < n by omega]

/-- The bits of a stream of symbols, in the order they are fed. -/
def bitStream (xs : List (BitVec c)) : List Bool :=
  xs.flatMap fun x => (List.range c).map x.getLsbD

theorem feed_bits (poly r : BitVec w) (x : BitVec c) {n : ℕ} (hn : n ≤ w) :
    feed poly r (((List.range n).map x.getLsbD).map BitVec.ofBool) =
      (shift poly)^[n] (r ^^^ (x.setWidth n).setWidth w) := by
  induction n with
  | zero =>
    rw [Function.iterate_zero_apply, setWidth_zero_setWidth, BitVec.xor_zero]
    rfl
  | succ n ih =>
    have hmoved : (shift poly)^[n] ((BitVec.ofBool (x.getLsbD n)).setWidth w <<< n) =
        (BitVec.ofBool (x.getLsbD n)).setWidth w := by
      apply shift_iterate_shiftLeft
      intro i hi
      rw [BitVec.getLsbD_setWidth, BitVec.getLsbD_of_ge _ i (by omega), Bool.and_false]
    rw [List.range_succ, List.map_append, List.map_append, feed_append, ih (by omega),
      setWidth_succ_eq, ← BitVec.xor_assoc, Function.iterate_succ_apply',
      shift_iterate_xor poly n (r ^^^ _), hmoved]
    rfl

/-- Symbols that fit the register can be fed bit by bit. -/
theorem feed_bitStream (hc : c ≤ w) (poly r : BitVec w) (xs : List (BitVec c)) :
    feed poly r ((bitStream xs).map BitVec.ofBool) = feed poly r xs := by
  induction xs generalizing r with
  | nil => rfl
  | cons x xs ih =>
    have hsymbol := feed_bits poly r x hc
    rw [BitVec.setWidth_eq] at hsymbol
    rw [bitStream, List.flatMap_cons, List.map_append, feed_append, hsymbol, feed_cons]
    exact ih _

end Library
