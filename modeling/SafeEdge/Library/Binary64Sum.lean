import SafeEdge.Library.Binary64

/-! Sums, products and quotients of binary64 data that are whole numbers: up to `2 ^ 53` they are
exact, and a quotient does not leave the range of the numbers it lies between. -/
namespace Library

/-- A common factor does not change the rounded quotient. -/
theorem roundQuotient_mul_mul {u : ℕ} (hu : 0 < u) (n d : ℕ) :
    roundQuotient (u * n) (u * d) = roundQuotient n d := by
  simp only [roundQuotient, Nat.mul_div_mul_left _ _ hu, Nat.mul_mod_mul_left, mul_assoc]
  generalize 2 ^ ((n / d).log2 - 52) = ulp
  have hmore : u * (d * ulp) < 2 * (u * (n % (d * ulp))) ↔ d * ulp < 2 * (n % (d * ulp)) := by
    rw [Nat.mul_left_comm 2]
    exact Nat.mul_lt_mul_left hu
  have htie : 2 * (u * (n % (d * ulp))) = u * (d * ulp) ↔ 2 * (n % (d * ulp)) = d * ulp := by
    rw [Nat.mul_left_comm 2]
    exact Nat.mul_right_inj hu.ne'
  simp only [hmore, htie]

theorem roundQuotient_one (k : ℕ) : roundQuotient k 1 = roundMagnitude k := by
  simp only [roundQuotient, roundMagnitude, Nat.div_one, one_mul]

/-- A quotient without remainder is rounded like a whole number. -/
theorem roundQuotient_mul {d : ℕ} (hd : 0 < d) (k : ℕ) :
    roundQuotient (d * k) d = roundMagnitude k := by
  have hone := roundQuotient_mul_mul hd k 1
  rwa [mul_one, roundQuotient_one] at hone

/-- A rounded quotient does not fall below the multiple of its spacing before it. -/
theorem truncated_le_roundQuotient (n d : ℕ) :
    n / (d * 2 ^ ((n / d).log2 - 52)) * 2 ^ ((n / d).log2 - 52) ≤ roundQuotient n d := by
  simp only [roundQuotient]
  split_ifs
  · exact Nat.mul_le_mul_right _ (Nat.le_succ _)
  · exact le_rfl

/-- A rounded quotient does not fall below a datum that the quotient does not fall below. -/
theorem le_roundQuotient {n d y : ℕ} (hd : 0 < d) (hle : d * y ≤ n)
    (hy : 2 ^ (y.log2 - 52) ∣ y) : y ≤ roundQuotient n d := by
  rcases Nat.eq_zero_or_pos y with rfl | hpos
  · exact Nat.zero_le _
  refine le_trans ?_ (truncated_le_roundQuotient n d)
  have hquotient : y ≤ n / d := (Nat.le_div_iff_mul_le hd).mpr (by rwa [mul_comm])
  rw [← Nat.div_div_eq_div_mul]
  generalize n / d = quotient at hquotient
  have hulp : 0 < 2 ^ (quotient.log2 - 52) := by positivity
  by_cases hdvd : 2 ^ (quotient.log2 - 52) ∣ y
  · obtain ⟨t, rfl⟩ := hdvd
    rw [mul_comm]
    refine Nat.mul_le_mul_right _ ((Nat.le_div_iff_mul_le hulp).mpr ?_)
    rwa [mul_comm]
  · have hlog : y.log2 < quotient.log2 := by
      by_contra hge
      exact hdvd ((pow_dvd_pow 2 (by omega)).trans hy)
    have hlarge : 52 ≤ quotient.log2 := by
      by_contra hsmall
      rw [Nat.sub_eq_zero_of_le (by omega), pow_zero] at hdvd
      exact hdvd (one_dvd y)
    have hsplit : 2 ^ 52 * 2 ^ (quotient.log2 - 52) = 2 ^ quotient.log2 := by
      rw [← pow_add, Nat.add_sub_cancel' hlarge]
    calc y ≤ 2 ^ quotient.log2 :=
        Nat.lt_log2_self.le.trans (Nat.pow_le_pow_right (by omega) hlog)
      _ = 2 ^ 52 * 2 ^ (quotient.log2 - 52) := hsplit.symm
      _ ≤ quotient / 2 ^ (quotient.log2 - 52) * 2 ^ (quotient.log2 - 52) := by
        refine Nat.mul_le_mul_right _ ((Nat.le_div_iff_mul_le hulp).mpr ?_)
        rw [hsplit]
        exact Nat.log2_self_le (by omega)

/-- A rounded quotient does not pass a datum that the quotient does not pass. -/
theorem roundQuotient_le_datum {n d y : ℕ} (hd : 0 < d) (hle : n ≤ d * y)
    (hy : 2 ^ (y.log2 - 52) ∣ y) : roundQuotient n d ≤ y := by
  have hquotient : n / d ≤ y := Nat.div_le_of_le_mul hle
  have hlog : (n / d).log2 ≤ y.log2 := by
    rw [Nat.log2_eq_log_two, Nat.log2_eq_log_two]
    exact Nat.log_mono_right hquotient
  exact roundQuotient_le hd hle ((pow_dvd_pow 2 (by omega)).trans hy)

/-- A quotient of more than 52 bits is rounded by at most one part in `2 ^ 53`. -/
theorem roundQuotient_near {n d : ℕ} (hd : 0 < d) (hn : d * 2 ^ 52 ≤ n) :
    2 ^ 53 * |(d * roundQuotient n d : ℤ) - n| ≤ n := by
  have hlarge : 2 ^ 52 ≤ n / d := (Nat.le_div_iff_mul_le hd).mpr (by rwa [mul_comm])
  have hlog : 52 ≤ (n / d).log2 := (Nat.le_log2 (by omega)).mpr hlarge
  have hspacing : 2 ^ 52 * (d * 2 ^ ((n / d).log2 - 52)) ≤ n :=
    calc 2 ^ 52 * (d * 2 ^ ((n / d).log2 - 52)) = d * 2 ^ (n / d).log2 := by
          rw [Nat.mul_left_comm, ← pow_add, Nat.add_sub_cancel' hlog]
      _ ≤ d * (n / d) := Nat.mul_le_mul_left _ (Nat.log2_self_le (by omega))
      _ ≤ n := Nat.mul_div_le n d
  have hpos : 0 < d * 2 ^ ((n / d).log2 - 52) := Nat.mul_pos hd (Nat.two_pow_pos _)
  simp only [roundQuotient]
  generalize 2 ^ ((n / d).log2 - 52) = ulp at hspacing hpos ⊢
  have hremainder := Nat.mod_lt n hpos
  have hdivided : ((d * ulp : ℕ) : ℤ) * (n / (d * ulp) : ℕ) + (n % (d * ulp) : ℕ) = n := by
    exact_mod_cast Nat.div_add_mod n (d * ulp)
  split_ifs with hup
  · have hrounded : ((d : ℤ) * ((n / (d * ulp) + 1) * ulp : ℕ)) - n =
        (d * ulp : ℕ) - (n % (d * ulp) : ℕ) := by
      rw [← hdivided]
      push_cast
      ring
    rw [hrounded, abs_of_nonneg (by omega)]
    omega
  · have hrounded : ((d : ℤ) * (n / (d * ulp) * ulp : ℕ)) - n = -(n % (d * ulp) : ℕ) := by
      rw [← hdivided]
      push_cast
      ring
    rw [hrounded, abs_neg, abs_of_nonneg (by omega)]
    omega

namespace Binary64

def add : Binary64 → Binary64 → Binary64
  | .nan, _ | _, .nan => .nan
  | .finite a _, .finite b _ => ofUnits (a + b)
  | .posInf, .negInf | .negInf, .posInf => .nan
  | .posInf, _ | _, .posInf => .posInf
  | .negInf, _ | _, .negInf => .negInf

instance binary64Add : Add Binary64 := ⟨add⟩

/-- The quotient. A zero divisor, of which there is one only, counts as positive. -/
def div : Binary64 → Binary64 → Binary64
  | .nan, _ | _, .nan => .nan
  | .finite a _, .finite b _ =>
    if b = 0 then if a = 0 then .nan else if a < 0 then .negInf else .posInf
    else ofQuotient (b.sign * a * 2 ^ 1074) b.natAbs
  | .finite .., _ => 0
  | .posInf, .finite b _ => if b < 0 then .negInf else .posInf
  | .negInf, .finite b _ => if b < 0 then .posInf else .negInf
  | _, _ => .nan

instance binary64Div : Div Binary64 := ⟨div⟩

theorem ofInt_of_le {n : ℕ} (h : n ≤ 2 ^ 53) :
    ∃ hrepresentable, ofInt n = .finite ((n : ℤ) * 2 ^ 1074) hrepresentable :=
  ofUnits_mul_pow h (by omega)

theorem ofInt_zero : ofInt 0 = 0 := by
  rw [ofInt, zero_mul]
  exact @ofUnits_of_representable 0 representable_zero

theorem finite_add {a b : ℤ} (ha : Representable a.natAbs) (hb : Representable b.natAbs) :
    Binary64.finite a ha + .finite b hb = ofUnits (a + b) := rfl

theorem ofInt_add {m n : ℕ} (h : m + n ≤ 2 ^ 53) :
    ofInt m + ofInt n = ofInt (m + n : ℕ) := by
  obtain ⟨hm, hfirst⟩ := ofInt_of_le ((Nat.le_add_right m n).trans h)
  obtain ⟨hn, hsecond⟩ := ofInt_of_le ((Nat.le_add_left n m).trans h)
  rw [hfirst, hsecond, finite_add, ofInt, Nat.cast_add, add_mul]

theorem ofQuotient_mul {d : ℕ} (hd : 0 < d) (units : ℤ) :
    ofQuotient (d * units) d = ofUnits units := by
  have hmagnitude : (d * units).natAbs = d * units.natAbs := by
    rw [Int.natAbs_mul, Int.natAbs_natCast]
  have hsign : (d * units).sign = units.sign := by
    rw [Int.sign_mul, Int.sign_natCast_of_ne_zero hd.ne', one_mul]
  have hneg : (d * units < 0) ↔ units < 0 := by
    rw [← Int.sign_eq_neg_one_iff_neg, hsign, Int.sign_eq_neg_one_iff_neg]
  simp only [ofQuotient, ofUnits, hmagnitude, roundQuotient_mul hd, hsign, hneg]

theorem ofInt_mul {m n : ℕ} (hm : m ≤ 2 ^ 53) (hn : n ≤ 2 ^ 53) :
    (ofInt m).mul (ofInt n) = ofInt (m * n : ℕ) := by
  obtain ⟨_, hfirst⟩ := ofInt_of_le hm
  obtain ⟨_, hsecond⟩ := ofInt_of_le hn
  have hpower : ((2 ^ 1074 : ℕ) : ℤ) = 2 ^ 1074 := Nat.cast_pow 2 1074
  rw [hfirst, hsecond, mul, ofInt]
  have hunits : (m : ℤ) * 2 ^ 1074 * ((n : ℤ) * 2 ^ 1074) =
      ((2 ^ 1074 : ℕ) : ℤ) * (((m * n : ℕ) : ℤ) * 2 ^ 1074) := by
    rw [hpower, Nat.cast_mul]
    generalize (2 : ℤ) ^ 1074 = unit
    ring
  rw [hunits, ofQuotient_mul (pow_pos two_pos 1074)]

theorem finite_div {a b : ℤ} (ha : Representable a.natAbs) (hb : Representable b.natAbs)
    (hpos : 0 < b) :
    Binary64.finite a ha / .finite b hb = ofQuotient (a * 2 ^ 1074) b.natAbs := by
  change (if b = 0 then _ else ofQuotient (b.sign * a * 2 ^ 1074) b.natAbs) = _
  rw [if_neg hpos.ne', Int.sign_eq_one_of_pos hpos, one_mul]

theorem finite_le_finite {a b : ℤ} {ha : Representable a.natAbs} {hb : Representable b.natAbs} :
    Binary64.finite a ha ≤ .finite b hb ↔ a ≤ b := by
  change le _ _ = true ↔ _
  simp only [le, lt, Bool.or_eq_true, decide_eq_true_eq, Bool.and_eq_true, finite.injEq, IsNumber,
    ne_eq, reduceCtorEq, not_false_eq_true, and_true]
  omega

theorem ofQuotient_natCast {a d : ℕ} (hd : 0 < d) (h : (roundQuotient a d).log2 < 2098) :
    ∃ hrepresentable, ofQuotient a d = .finite (roundQuotient a d : ℕ) hrepresentable := by
  have hsigned : (a : ℤ).sign * (roundQuotient a d : ℕ) = (roundQuotient a d : ℕ) := by
    rcases Nat.eq_zero_or_pos a with rfl | hpos
    · rw [Nat.le_zero.mp (roundQuotient_le_datum hd (Nat.zero_le (d * 0)) (dvd_zero _)),
        Nat.cast_zero, mul_zero]
    · rw [Int.sign_natCast_of_ne_zero hpos.ne', one_mul]
  have hrepresentable : Representable ((roundQuotient a d : ℕ) : ℤ).natAbs :=
    ⟨roundQuotient_dvd a d, h⟩
  simp only [ofQuotient, Int.natAbs_natCast, dif_pos h, hsigned]
  exact ⟨hrepresentable, trivial⟩

section Quotient
variable {m n k : ℕ}

theorem ofInt_div (hm : m ≤ 2 ^ 53) (hn : n ≤ 2 ^ 53) (hpos : 0 < n) :
    ∃ h, ofInt m / ofInt n = .finite (roundQuotient (m * 2 ^ 1074) n : ℕ) h := by
  obtain ⟨ha, hfirst⟩ := ofInt_of_le hm
  obtain ⟨hb, hsecond⟩ := ofInt_of_le hn
  have hdatum : Representable (m * 2 ^ 1074) := representable_mul_pow hm (by omega)
  have htwo : (2 : ℤ).natAbs = 2 := rfl
  have hdivisor (e : ℕ) : ((n : ℤ) * 2 ^ e).natAbs = 2 ^ e * n := by
    rw [Int.natAbs_mul, Int.natAbs_natCast, Int.natAbs_pow, htwo, mul_comm]
  have hdividend : (m : ℤ) * 2 ^ 1074 * 2 ^ 1074 = (2 ^ 1074 * (m * 2 ^ 1074) : ℕ) := by
    rw [Nat.cast_mul, Nat.cast_mul, Nat.cast_pow, mul_comm, Nat.cast_two]
  have hsmall {k : ℕ} (hk : 2 ^ (k.log2 - 52) ∣ k) : roundQuotient k n ≤ k :=
    roundQuotient_le_datum hpos (Nat.le_mul_of_pos_left k hpos) hk
  have hcancel : roundQuotient (2 ^ 1074 * (m * 2 ^ 1074)) (2 ^ 1074 * n) =
      roundQuotient (m * 2 ^ 1074) n := roundQuotient_mul_mul (pow_pos two_pos 1074) _ _
  rw [hfirst, hsecond, finite_div _ _ (mul_pos (Int.natCast_pos.mpr hpos) (pow_pos two_pos 1074)),
    hdivisor, hdividend, ← hcancel]
  refine ofQuotient_natCast (Nat.mul_pos (pow_pos two_pos 1074) hpos) ?_
  rw [hcancel]
  refine lt_of_le_of_lt ?_ hdatum.2
  rw [Nat.log2_eq_log_two, Nat.log2_eq_log_two]
  exact Nat.log_mono_right (hsmall hdatum.1)

theorem ofInt_div_le (hm : m ≤ 2 ^ 53) (hn : n ≤ 2 ^ 53) (hk : k ≤ 2 ^ 53) (hpos : 0 < n)
    (hle : m ≤ n * k) : ofInt m / ofInt n ≤ ofInt k := by
  obtain ⟨_, hquotient⟩ := ofInt_div hm hn hpos
  obtain ⟨_, hbound⟩ := ofInt_of_le hk
  have hdatum : Representable (k * 2 ^ 1074) := representable_mul_pow hk (by omega)
  have hunits : m * 2 ^ 1074 ≤ n * (k * 2 ^ 1074) := by
    rw [← mul_assoc]
    exact Nat.mul_le_mul_right _ hle
  rw [hquotient, hbound, finite_le_finite]
  exact_mod_cast roundQuotient_le_datum hpos hunits hdatum.1

theorem le_ofInt_div (hm : m ≤ 2 ^ 53) (hn : n ≤ 2 ^ 53) (hk : k ≤ 2 ^ 53) (hpos : 0 < n)
    (hle : n * k ≤ m) : ofInt k ≤ ofInt m / ofInt n := by
  obtain ⟨_, hquotient⟩ := ofInt_div hm hn hpos
  obtain ⟨_, hbound⟩ := ofInt_of_le hk
  have hdatum : Representable (k * 2 ^ 1074) := representable_mul_pow hk (by omega)
  have hunits : n * (k * 2 ^ 1074) ≤ m * 2 ^ 1074 := by
    rw [← mul_assoc]
    exact Nat.mul_le_mul_right _ hle
  rw [hquotient, hbound, finite_le_finite]
  exact_mod_cast le_roundQuotient hpos hunits hdatum.1

/-- The quotient of whole numbers is rounded by at most one part in `2 ^ 53`. -/
theorem ofInt_div_near (hm : m ≤ 2 ^ 53) (hn : n ≤ 2 ^ 53) (hpos : 0 < n) :
    ∃ units h, ofInt m / ofInt n = .finite units h ∧
      2 ^ 53 * |n * units - m * 2 ^ 1074| ≤ (m * 2 ^ 1074 : ℤ) := by
  obtain ⟨h, hquotient⟩ := ofInt_div hm hn hpos
  refine ⟨_, h, hquotient, ?_⟩
  rcases Nat.eq_zero_or_pos m with rfl | hm
  · rw [zero_mul, Nat.le_zero.mp (roundQuotient_le_datum hpos (Nat.zero_le (n * 0)) (dvd_zero _)),
      Nat.cast_zero, zero_mul, mul_zero, sub_zero, abs_zero, mul_zero]
  · have hlarge {e : ℕ} (he : 105 ≤ e) : n * 2 ^ 52 ≤ m * 2 ^ e :=
      calc n * 2 ^ 52 ≤ 2 ^ 53 * 2 ^ 52 := Nat.mul_le_mul_right _ hn
        _ = 2 ^ 105 := by rw [← pow_add]
        _ ≤ 2 ^ e := Nat.pow_le_pow_right (by omega) he
        _ ≤ m * 2 ^ e := Nat.le_mul_of_pos_left _ hm
    have hnear := roundQuotient_near hpos (hlarge (by omega : 105 ≤ 1074))
    rwa [Nat.cast_mul, Nat.cast_pow, Nat.cast_two] at hnear

end Quotient
end Binary64
end Library
