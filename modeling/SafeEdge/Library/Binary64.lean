import Mathlib.Tactic

/-! IEEE 754 binary64 data as values. A finite datum is a whole number of units of the
smallest subnormal `2 ^ (-1074)`, so order and exact differences are those of the integers
and only the rounding of a result has to be spelled out. The two zeros are one value, as
every comparison treats them. -/
namespace Library

/-- Round a magnitude to 53 significant bits, to nearest with ties to even. -/
def roundMagnitude (n : ℕ) : ℕ :=
  let ulp := 2 ^ (n.log2 - 52)
  let quotient := n / ulp
  let remainder := n % ulp
  if ulp < 2 * remainder ∨ (2 * remainder = ulp ∧ quotient % 2 = 1) then (quotient + 1) * ulp
  else quotient * ulp

/-- At most 53 significant bits, and below the overflow threshold `2 ^ 1024`. -/
def Representable (n : ℕ) : Prop := 2 ^ (n.log2 - 52) ∣ n ∧ n.log2 < 2098

instance (n : ℕ) : Decidable (Representable n) :=
  inferInstanceAs (Decidable (_ ∧ _))

theorem representable_zero : Representable 0 := ⟨dvd_zero _, by decide⟩

theorem significand_dvd {m s : ℕ} (hm : m ≤ 2 ^ 53) :
    2 ^ ((m * 2 ^ s).log2 - 52) ∣ m * 2 ^ s := by
  rcases Nat.eq_zero_or_pos m with rfl | hpos
  · simp
  rcases hm.lt_or_eq with hlt | heq
  · have hlog : (m * 2 ^ s).log2 < 53 + s := by
      rw [Nat.log2_lt (by positivity), pow_add]
      exact Nat.mul_lt_mul_of_pos_right hlt (by positivity)
    exact (pow_dvd_pow 2 (by omega)).trans (Dvd.intro_left m rfl)
  · subst m
    rw [← pow_add, Nat.log2_two_pow]
    exact pow_dvd_pow 2 (by omega)

theorem roundMagnitude_significand (n : ℕ) :
    ∃ m ≤ 2 ^ 53, roundMagnitude n = m * 2 ^ (n.log2 - 52) := by
  have hq : n / 2 ^ (n.log2 - 52) < 2 ^ 53 := by
    apply Nat.div_lt_of_lt_mul
    rw [← pow_add]
    exact Nat.lt_log2_self.trans_le (Nat.pow_le_pow_right (by omega) (by omega))
  simp only [roundMagnitude]
  split_ifs
  · exact ⟨_, hq, rfl⟩
  · exact ⟨_, hq.le, rfl⟩

theorem roundMagnitude_dvd (n : ℕ) :
    2 ^ ((roundMagnitude n).log2 - 52) ∣ roundMagnitude n := by
  obtain ⟨m, hm, he⟩ := roundMagnitude_significand n
  rw [he]
  exact significand_dvd hm

theorem representable_mul_pow {m s : ℕ} (hm : m ≤ 2 ^ 53) (hs : 53 + s < 2098) :
    Representable (m * 2 ^ s) := by
  refine ⟨significand_dvd hm, ?_⟩
  rcases Nat.eq_zero_or_pos m with rfl | hpos
  · rw [zero_mul]
    decide
  · have hlog : (m * 2 ^ s).log2 < 53 + s + 1 := by
      rw [Nat.log2_lt (by positivity)]
      calc
        m * 2 ^ s ≤ 2 ^ 53 * 2 ^ s := Nat.mul_le_mul_right _ hm
        _ = 2 ^ (53 + s) := (pow_add 2 53 s).symm
        _ < 2 ^ (53 + s + 1) := Nat.pow_lt_pow_right (by omega) (by omega)
    omega

theorem roundMagnitude_of_dvd {n : ℕ} (h : 2 ^ (n.log2 - 52) ∣ n) : roundMagnitude n = n := by
  have hulp : 0 < 2 ^ (n.log2 - 52) := by positivity
  have hremainder : n % 2 ^ (n.log2 - 52) = 0 := Nat.mod_eq_zero_of_dvd h
  have hexact : ¬ (2 ^ (n.log2 - 52) < 2 * 0 ∨
      (2 * 0 = 2 ^ (n.log2 - 52) ∧ n / 2 ^ (n.log2 - 52) % 2 = 1)) := by omega
  simp only [roundMagnitude, hremainder, if_neg hexact]
  exact Nat.div_mul_cancel h

/-- Round the quotient of two magnitudes to 53 significant bits, to nearest with ties to
even. -/
def roundQuotient (n d : ℕ) : ℕ :=
  let ulp := 2 ^ ((n / d).log2 - 52)
  let quotient := n / (d * ulp)
  let remainder := n % (d * ulp)
  if d * ulp < 2 * remainder ∨ (2 * remainder = d * ulp ∧ quotient % 2 = 1) then
    (quotient + 1) * ulp
  else quotient * ulp

theorem roundQuotient_dvd (n d : ℕ) :
    2 ^ ((roundQuotient n d).log2 - 52) ∣ roundQuotient n d := by
  have hq : n / (d * 2 ^ ((n / d).log2 - 52)) < 2 ^ 53 := by
    rw [← Nat.div_div_eq_div_mul]
    apply Nat.div_lt_of_lt_mul
    rw [← pow_add]
    exact Nat.lt_log2_self.trans_le (Nat.pow_le_pow_right (by omega) (by omega))
  simp only [roundQuotient]
  split_ifs
  · exact significand_dvd hq
  · exact significand_dvd hq.le

section Spacing
variable {n d y : ℕ}

/-- A rounded quotient does not pass a bound that its spacing divides. -/
theorem roundQuotient_le (hd : 0 < d) (hle : n ≤ d * y)
    (hy : 2 ^ ((n / d).log2 - 52) ∣ y) : roundQuotient n d ≤ y := by
  obtain ⟨t, rfl⟩ := hy
  have hulp : 0 < 2 ^ ((n / d).log2 - 52) := by positivity
  simp only [roundQuotient]
  generalize 2 ^ ((n / d).log2 - 52) = ulp at *
  have hpos : 0 < d * ulp := Nat.mul_pos hd hulp
  rw [← mul_assoc] at hle
  rw [mul_comm ulp t]
  split_ifs with hup
  · have hlt : n / (d * ulp) < t := by
      by_contra hge
      have hle' := Nat.mul_le_mul_left (d * ulp) (not_lt.mp hge)
      have hdiv := Nat.div_add_mod n (d * ulp)
      omega
    exact Nat.mul_le_mul_right _ hlt
  · exact Nat.mul_le_mul_right _ (Nat.div_le_of_le_mul hle)

/-- A quotient more than half a spacing above a number is rounded to one above it. -/
theorem lt_roundQuotient {w : ℕ} (hd : 0 < d) (hw : 2 ^ ((n / d).log2 - 52) ≤ w)
    (hlt : d * (2 * y + w) < 2 * n) (hy : 2 ^ ((n / d).log2 - 52) ∣ y) :
    y < roundQuotient n d := by
  obtain ⟨t, rfl⟩ := hy
  have hulp : 0 < 2 ^ ((n / d).log2 - 52) := by positivity
  simp only [roundQuotient]
  generalize 2 ^ ((n / d).log2 - 52) = ulp at *
  have hpos : 0 < d * ulp := Nat.mul_pos hd hulp
  have habove : 2 * (d * ulp * t) + d * ulp < 2 * n :=
    calc 2 * (d * ulp * t) + d * ulp = d * (2 * (ulp * t) + ulp) := by ring
      _ ≤ d * (2 * (ulp * t) + w) := by gcongr
      _ < 2 * n := hlt
  have ht : t ≤ n / (d * ulp) := by
    rw [Nat.le_div_iff_mul_le hpos, mul_comm]
    omega
  rw [mul_comm ulp t]
  rcases ht.eq_or_lt with heq | hlt
  · have hdiv := Nat.div_add_mod n (d * ulp)
    rw [← heq] at hdiv ⊢
    have hup : d * ulp < 2 * (n % (d * ulp)) := by omega
    rw [if_pos (.inl hup)]
    exact Nat.mul_lt_mul_of_pos_right t.lt_succ_self hulp
  · split_ifs
    · exact Nat.mul_lt_mul_of_pos_right (hlt.trans (Nat.lt_succ_self _)) hulp
    · exact Nat.mul_lt_mul_of_pos_right hlt hulp

end Spacing

theorem representable_sign_mul {units : ℤ} {magnitude : ℕ} (h : Representable magnitude) :
    Representable (units.sign * magnitude).natAbs := by
  rcases eq_or_ne units 0 with rfl | hne
  · simpa using representable_zero
  · rwa [Int.natAbs_mul, Int.natAbs_sign_of_ne_zero hne, Int.natAbs_natCast, one_mul]

inductive Binary64 where
  | nan
  | negInf
  | finite (units : ℤ) (representable : Representable units.natAbs)
  | posInf
  deriving DecidableEq

namespace Binary64

/-- The nearest datum to a whole number of units, overflowing to an infinity. -/
def ofUnits (units : ℤ) : Binary64 :=
  if h : (roundMagnitude units.natAbs).log2 < 2098 then
    .finite (units.sign * roundMagnitude units.natAbs) (by
      rcases eq_or_ne units 0 with rfl | hne
      · simpa using representable_zero
      · rw [Int.natAbs_mul, Int.natAbs_sign_of_ne_zero hne, Int.natAbs_natCast, one_mul]
        exact ⟨roundMagnitude_dvd _, h⟩)
  else if units < 0 then .negInf else .posInf

def ofInt (n : ℤ) : Binary64 := ofUnits (n * 2 ^ 1074)

theorem ofUnits_of_representable {units : ℤ} (h : Representable units.natAbs) :
    ofUnits units = .finite units h := by
  have hround := roundMagnitude_of_dvd h.1
  simp only [ofUnits, hround, dif_pos h.2, Int.sign_mul_natAbs]

theorem ofUnits_mul_pow {m s : ℕ} (hm : m ≤ 2 ^ 53) (hs : 53 + s < 2098) :
    ∃ h, ofUnits ((m : ℤ) * 2 ^ s) = .finite ((m : ℤ) * 2 ^ s) h := by
  have hunits : ((m : ℤ) * 2 ^ s).natAbs = m * 2 ^ s := by
    simp [Int.natAbs_mul, Int.natAbs_pow]
  have h : Representable ((m : ℤ) * 2 ^ s).natAbs := by
    rw [hunits]
    exact representable_mul_pow hm hs
  exact ⟨h, ofUnits_of_representable h⟩

/-- A whole number of at most 53 bits is a datum. -/
theorem ofInt_natCast {n : ℕ} (h : n < 2 ^ 53) :
    ∃ hrepresentable, ofInt n = .finite ((n : ℤ) * 2 ^ 1074) hrepresentable :=
  ofUnits_mul_pow h.le (by omega)

instance : Zero Binary64 := ⟨.finite 0 representable_zero⟩

/-- The exact value of a finite datum, in units. -/
def units : Binary64 → Option ℤ
  | .finite a _ => some a
  | _ => none

def IsNumber (x : Binary64) : Prop := x ≠ .nan

instance (x : Binary64) : Decidable x.IsNumber := inferInstanceAs (Decidable (x ≠ .nan))

/-- The comparison `<`: false as soon as one side is not a number. -/
def lt : Binary64 → Binary64 → Bool
  | .nan, _ | _, .nan => false
  | .finite a _, .finite b _ => a < b
  | .negInf, .negInf | .posInf, _ | _, .negInf => false
  | .negInf, _ | _, .posInf => true

/-- The comparison `<=`, again false on anything that is not a number. -/
def le (x y : Binary64) : Bool := x.lt y || (decide (x = y) && decide x.IsNumber)

instance : LT Binary64 := ⟨fun x y => x.lt y = true⟩
instance : LE Binary64 := ⟨fun x y => x.le y = true⟩
instance : DecidableLT Binary64 := fun x y => inferInstanceAs (Decidable (x.lt y = true))
instance : DecidableLE Binary64 := fun x y => inferInstanceAs (Decidable (x.le y = true))

def sub : Binary64 → Binary64 → Binary64
  | .nan, _ | _, .nan => .nan
  | .finite a _, .finite b _ => ofUnits (a - b)
  | .posInf, .posInf | .negInf, .negInf => .nan
  | .posInf, _ | _, .negInf => .posInf
  | .negInf, _ | _, .posInf => .negInf

instance : Sub Binary64 := ⟨sub⟩

/-- The quotient by a positive whole number that is itself a datum. -/
def divNat (d : ℕ) : Binary64 → Binary64
  | .finite a _ =>
    if h : (roundQuotient a.natAbs d).log2 < 2098 then
      .finite (a.sign * roundQuotient a.natAbs d) (by
        rcases eq_or_ne a 0 with rfl | hne
        · simpa using representable_zero
        · rw [Int.natAbs_mul, Int.natAbs_sign_of_ne_zero hne, Int.natAbs_natCast, one_mul]
          exact ⟨roundQuotient_dvd _ _, h⟩)
    else if a < 0 then .negInf else .posInf
  | .negInf => .negInf
  | .posInf => .posInf
  | .nan => .nan

def fabs : Binary64 → Binary64
  | .finite a h => .finite |a| (by simpa [Int.natAbs_abs] using h)
  | .negInf | .posInf => .posInf
  | .nan => .nan

/-- The nearest datum to a fraction of a number of units. -/
def ofQuotient (units : ℤ) (d : ℕ) : Binary64 :=
  if h : (roundQuotient units.natAbs d).log2 < 2098 then
    .finite (units.sign * roundQuotient units.natAbs d)
      (representable_sign_mul ⟨roundQuotient_dvd _ _, h⟩)
  else if units < 0 then .negInf else .posInf

def sign : Binary64 → ℤ
  | .finite a _ => a.sign
  | .negInf => -1
  | .posInf => 1
  | .nan => 0

def mul : Binary64 → Binary64 → Binary64
  | .nan, _ | _, .nan => .nan
  | .finite a _, .finite b _ => ofQuotient (a * b) (2 ^ 1074)
  | x, y =>
    if x.sign * y.sign = 0 then .nan else if x.sign * y.sign < 0 then .negInf else .posInf

/-- The function `std::clamp`. -/
def clamp (x lo hi : Binary64) : Binary64 := if x < lo then lo else if hi < x then hi else x

/-- The function `std::ceil` and the conversion of its result, which is undefined unless the
datum is finite. -/
def ceil : Binary64 → ℤ
  | .finite a _ => -(-a / 2 ^ 1074)
  | _ => 0

/-- `std::min`, which keeps its first argument unless the second compares below it. -/
def min (x y : Binary64) : Binary64 := if y < x then y else x

theorem le_of_not_lt {x y : Binary64} (hx : x.IsNumber) (hy : y.IsNumber) (h : ¬ y < x) :
    x ≤ y := by
  change y.lt x ≠ true at h
  change x.le y = true
  cases x <;> cases y <;> simp_all [lt, le, IsNumber]
  omega

theorem not_lt_of_lt {x y : Binary64} (h : x < y) : ¬ y < x := by
  change x.lt y = true at h
  change y.lt x ≠ true
  cases x <;> cases y <;> simp_all [lt]
  omega

theorem not_lt_of_not_isNumber {x y : Binary64} (h : ¬ y.IsNumber) : ¬ x < y := by
  obtain rfl : y = .nan := not_not.mp h
  change x.lt .nan ≠ true
  cases x <;> simp [lt]

theorem eq_of_not_lt {x y : Binary64} (hx : x.IsNumber) (hy : y.IsNumber) (hxy : ¬ x < y)
    (hyx : ¬ y < x) : x = y := by
  change x.lt y ≠ true at hxy
  change y.lt x ≠ true at hyx
  cases x <;> cases y <;> simp_all [lt, IsNumber]
  omega

/-- On numbers it does not matter which argument `std::min` keeps. -/
theorem min_comm {x y : Binary64} (hx : x.IsNumber) (hy : y.IsNumber) : x.min y = y.min x := by
  unfold min
  split_ifs with hyx hxy hxy
  · exact absurd hxy (not_lt_of_lt hyx)
  · rfl
  · rfl
  · exact eq_of_not_lt hx hy hxy hyx

theorem isNumber_of_le {x y : Binary64} (h : x ≤ y) : x.IsNumber ∧ y.IsNumber := by
  change x.le y = true at h
  cases x <;> cases y <;> simp_all [lt, le, IsNumber]

theorem ofUnits_isNumber (units : ℤ) : (ofUnits units).IsNumber := by
  unfold ofUnits IsNumber
  split_ifs <;> simp

/-- A difference of numbers is a number except between two equal infinities. -/
theorem sub_isNumber_or_eq {x y : Binary64} (hx : x.IsNumber) (hy : y.IsNumber) :
    (x - y).IsNumber ∨ x = y := by
  change (x.sub y).IsNumber ∨ x = y
  cases x <;> cases y <;> simp_all [sub, IsNumber]
  exact Or.inl (ofUnits_isNumber _)

theorem fabs_isNumber {x : Binary64} (hx : x.IsNumber) : x.fabs.IsNumber := by
  cases x <;> simp_all [fabs, IsNumber]

/-- The distance of `x` and `y` is at most `w`; equal data are at distance zero, the
infinities included. -/
def Within (x y w : Binary64) : Prop := (x - y).fabs ≤ w ∨ (x = y ∧ 0 ≤ w)

instance (x y w : Binary64) : Decidable (x.Within y w) := inferInstanceAs (Decidable (_ ∨ _))

/-- A distance check that does not fire bounds the distance. -/
theorem within_of_not_lt {x y w : Binary64} (hx : x.IsNumber) (hy : y.IsNumber) (hw : 0 ≤ w)
    (h : ¬ w < (x - y).fabs) : x.Within y w := by
  rcases sub_isNumber_or_eq hx hy with hn | he
  · exact Or.inl (le_of_not_lt (fabs_isNumber hn) (isNumber_of_le hw).2 h)
  · exact Or.inr ⟨he, hw⟩

section Product

/-- A number of units that is more than half a spacing above a whole number and not above the
next one has that one as its ceiling. -/
theorem ceil_ofQuotient {x d k w : ℕ} (hd : 0 < d) (hw : 2 ^ (x.log2 - 52) ∣ w)
    (hunit : w ∣ 2 ^ 1074) (hk : k < 2 ^ 64) (hupper : x ≤ (k + 1) * 2 ^ 1074)
    (hlower : 2 * (k * 2 ^ 1074) + w < 2 * x) :
    (ofQuotient ((d * x : ℕ) : ℤ) d).ceil = k + 1 := by
  have hwpos : 0 < w := Nat.pos_of_dvd_of_pos hunit (by positivity)
  have hquotient : d * x / d = x := Nat.mul_div_cancel_left x hd
  have hspacing (t : ℕ) : 2 ^ ((d * x / d).log2 - 52) ∣ t * 2 ^ 1074 := by
    rw [hquotient]
    exact (hw.trans hunit).trans (Dvd.intro_left t rfl)
  have hle := roundQuotient_le hd (Nat.mul_le_mul_left d hupper) (hspacing (k + 1))
  have hlt : k * 2 ^ 1074 < roundQuotient (d * x) d := by
    refine lt_roundQuotient hd (w := w) ?_ ?_ (hspacing k)
    · rw [hquotient]
      exact Nat.le_of_dvd hwpos hw
    · rw [mul_left_comm 2 d x]
      exact Nat.mul_lt_mul_of_pos_left hlower hd
  have hn : 0 < d * x := Nat.mul_pos hd (by omega)
  generalize d * x = n at hn hle hlt ⊢
  have hlog {e : ℕ} (hle : roundQuotient n d ≤ (k + 1) * 2 ^ e) :
      (roundQuotient n d).log2 < 64 + e + 1 := by
    rw [Nat.log2_lt (by omega), pow_succ, pow_add]
    have hbound : (k + 1) * 2 ^ e ≤ 2 ^ 64 * 2 ^ e := Nat.mul_le_mul_right _ hk
    have hpos : 0 < 2 ^ e := by positivity
    omega
  have hfinite : (roundQuotient n d).log2 < 2098 := (hlog hle).trans (by omega)
  simp only [ofQuotient, Int.natAbs_natCast, dif_pos hfinite, ceil]
  rw [Int.sign_eq_one_of_pos (by exact_mod_cast hn), one_mul]
  have hunits : (0 : ℤ) < 2 ^ 1074 := by positivity
  have hle' : (roundQuotient n d : ℤ) ≤ (k + 1) * 2 ^ 1074 := by exact_mod_cast hle
  have hlt' : (k : ℤ) * 2 ^ 1074 < roundQuotient n d := by exact_mod_cast hlt
  generalize (2 : ℤ) ^ 1074 = unit at *
  have hdiv : -(roundQuotient n d : ℤ) / unit = -(k + 1) := by
    rw [Int.ediv_eq_iff_of_pos hunits]
    constructor <;> linarith
  rw [hdiv, neg_neg]

/-- The ceiling of the product of a factor below one and a whole number. -/
theorem ceil_mul_natCast {m n k s : ℕ} {h : Representable ((m : ℤ) * 2 ^ s).natAbs}
    (hs : s + 53 = 1074) (hm : m < 2 ^ 53) (hn : n ≤ 2 ^ 44)
    (hupper : m * n ≤ (k + 1) * 2 ^ 53) (hlower : k * 2 ^ 53 + 2 ^ 43 < m * n) :
    ((finite ((m : ℤ) * 2 ^ s) h).mul (ofInt n)).ceil = k + 1 := by
  obtain ⟨_, hfactor⟩ := ofInt_natCast (n := n) (by omega)
  have hproduct : m * n < 2 ^ 97 :=
    calc m * n ≤ m * 2 ^ 44 := Nat.mul_le_mul_left _ hn
      _ < 2 ^ 53 * 2 ^ 44 := Nat.mul_lt_mul_of_pos_right hm (by norm_num)
  have hscale : 2 ^ 1074 = 2 ^ 53 * 2 ^ s := by rw [← hs, pow_add, mul_comm]
  have hunits (e : ℕ) : (m : ℤ) * 2 ^ s * (n * 2 ^ e) = ((2 ^ e * (m * n * 2 ^ s) : ℕ) : ℤ) := by
    push_cast
    ring
  have hlog : (m * n * 2 ^ s).log2 - 52 ≤ s + 44 := by
    have hlt : (m * n * 2 ^ s).log2 < 97 + s := by
      rw [Nat.log2_lt (Nat.mul_pos (by omega) (by positivity)).ne', pow_add]
      exact Nat.mul_lt_mul_of_pos_right hproduct (by positivity)
    omega
  have hhalf : 2 * (k * 2 ^ 1074) + 2 ^ (s + 44) < 2 * (m * n * 2 ^ s) := by
    have hlt := Nat.mul_lt_mul_of_pos_right hlower (Nat.two_pow_pos s)
    rw [Nat.add_mul, mul_assoc] at hlt
    rw [hscale, pow_add]
    omega
  rw [hfactor]
  change (ofQuotient ((m : ℤ) * 2 ^ s * (n * 2 ^ 1074)) (2 ^ 1074)).ceil = _
  rw [hunits 1074]
  apply ceil_ofQuotient (by positivity) (pow_dvd_pow 2 hlog) (pow_dvd_pow 2 (by omega))
    (by omega) _ hhalf
  rw [hscale, ← mul_assoc]
  exact Nat.mul_le_mul_right _ hupper

end Product

end Binary64
end Library
