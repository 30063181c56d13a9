import Mathlib.Data.List.DropRight
import Mathlib.Tactic
import SafeEdge.Library.Binary64

/-! Numbers as decimal text: whole numbers, the shorter of fixed and scientific notation with a
given number of significant figures, and the number a text stands for. -/
namespace Library

/-- What a formatted write keeps in a buffer of the given size, whose last place is for the
terminating zero. -/
def snprintf (size : ℕ) (text : List Char) : List Char := text.take (size - 1)

theorem snprintf_of_lt {size : ℕ} {text : List Char} (h : text.length < size) :
    snprintf size text = text :=
  List.take_of_length_le (by omega)

/-- The text of an integer. -/
def intText : ℤ → List Char
  | .ofNat n => Nat.toDigits 10 n
  | .negSucc n => '-' :: Nat.toDigits 10 (n + 1)

section Rounding

/-- The nearest whole number to a quotient, ties to even. -/
def roundDiv (n d : ℕ) : ℕ :=
  if d < 2 * (n % d) ∨ (2 * (n % d) = d ∧ n / d % 2 = 1) then n / d + 1 else n / d

variable {n d : ℕ}

theorem roundDiv_mul_right {c : ℕ} (hc : 0 < c) (n d : ℕ) :
    roundDiv (n * c) (d * c) = roundDiv n d := by
  have hup : d * c < 2 * (n % d * c) ↔ d < 2 * (n % d) := by
    rw [← mul_assoc, Nat.mul_lt_mul_right hc]
  have htie : 2 * (n % d * c) = d * c ↔ 2 * (n % d) = d := by
    rw [← mul_assoc, Nat.mul_left_inj hc.ne']
  simp only [roundDiv, Nat.mul_mod_mul_right, Nat.mul_div_mul_right _ _ hc, hup, htie]

theorem roundDiv_one (n : ℕ) : roundDiv n 1 = n := by
  simp [roundDiv, Nat.mod_one]

theorem roundDiv_le {bound : ℕ} (h : n ≤ bound * d) : roundDiv n d ≤ bound := by
  rcases Nat.eq_zero_or_pos d with rfl | hd
  · obtain rfl : n = 0 := by omega
    simp [roundDiv]
  have hdiv := Nat.div_add_mod n d
  have hle : n / d ≤ bound := Nat.div_le_of_le_mul (by rwa [mul_comm])
  unfold roundDiv
  split_ifs with hup
  · rcases hle.lt_or_eq with hlt | heq
    · exact hlt
    · rw [heq, mul_comm] at hdiv
      omega
  · exact hle

theorem le_roundDiv {bound : ℕ} (hd : 0 < d) (h : bound * d ≤ n) : bound ≤ roundDiv n d := by
  have hle : bound ≤ n / d := (Nat.le_div_iff_mul_le hd).mpr h
  unfold roundDiv
  split_ifs
  · exact hle.trans (Nat.le_succ _)
  · exact hle

/-- Only a multiple survives the rounding to multiples. -/
theorem roundDiv_mul_eq_iff (hd : 0 < d) : roundDiv n d * d = n ↔ d ∣ n := by
  constructor
  · intro h
    exact ⟨roundDiv n d, by rw [mul_comm, h]⟩
  · rintro ⟨k, rfl⟩
    rw [mul_comm d k]
    have hscale := roundDiv_mul_right hd k 1
    rw [one_mul, roundDiv_one] at hscale
    rw [hscale]

end Rounding

section Figures

/-- The decimal exponent of the leading figure of a positive quotient. -/
def decimalExponent (n d : ℕ) : ℤ :=
  if d ≤ n then Nat.log 10 (n / d) else -(Nat.clog 10 ((d + n - 1) / n))

/-- The figures of a quotient whose leading figure has the given exponent, as one number. -/
def significand (precision n d : ℕ) (exponent : ℤ) : ℕ :=
  let shift := (precision : ℤ) - 1 - exponent
  roundDiv (n * 10 ^ shift.toNat) (d * 10 ^ (-shift).toNat)

/-- The figures and the exponent after rounding, which can carry into a new leading figure. -/
def toScientific (precision n d : ℕ) : ℕ × ℤ :=
  let exponent := decimalExponent n d
  let figures := significand precision n d exponent
  if figures = 10 ^ precision then (10 ^ (precision - 1), exponent + 1) else (figures, exponent)

/-- A fraction without its trailing zeros, and without the point if nothing is left of it. -/
def withFraction (whole fraction : List Char) : List Char :=
  let kept := fraction.rdropWhile (· == '0')
  if kept = [] then whole else whole ++ '.' :: kept

/-- A sign and at least two figures. -/
def exponentText (exponent : ℤ) : List Char :=
  (if exponent < 0 then '-' else '+') ::
    if exponent.natAbs < 10 then '0' :: Nat.toDigits 10 exponent.natAbs
    else Nat.toDigits 10 exponent.natAbs

/-- Fixed notation for moderate exponents and scientific notation otherwise. -/
def scientificText (precision figures : ℕ) (exponent : ℤ) : List Char :=
  let digits := Nat.toDigits 10 figures
  if -4 ≤ exponent ∧ exponent < precision then
    if 0 ≤ exponent then
      withFraction (digits.take (exponent.toNat + 1)) (digits.drop (exponent.toNat + 1))
    else withFraction ['0'] (List.replicate (-exponent - 1).toNat '0' ++ digits)
  else withFraction (digits.take 1) (digits.drop 1) ++ 'e' :: exponentText exponent

/-- The text of a quotient with at most `precision` significant figures. -/
def generalText (precision n d : ℕ) : List Char :=
  if n = 0 then ['0']
  else scientificText precision (toScientific precision n d).1 (toScientific precision n d).2

/-- The conversion `%g` of a datum with the given precision. -/
def Binary64.generalText (precision : ℕ) : Binary64 → List Char
  | .nan => "nan".toList
  | .negInf => "-inf".toList
  | .posInf => "inf".toList
  | .finite units _ =>
    if units < 0 then '-' :: Library.generalText precision units.natAbs (2 ^ 1074)
    else Library.generalText precision units.natAbs (2 ^ 1074)

end Figures

section Reading

/-- What stands before the first occurrence of a character, and what stands after it. -/
def cut (c : Char) (text : List Char) : List Char × List Char :=
  (text.takeWhile (· != c), (text.dropWhile (· != c)).tail)

def readNat (text : List Char) : Option ℕ :=
  if text ≠ [] ∧ text.all Char.isDigit then some (Nat.ofDigitChars 10 text 0) else none

def readInt : List Char → Option ℤ
  | '-' :: text => (readNat text).map fun n : ℕ => -(n : ℤ)
  | '+' :: text => (readNat text).map fun n : ℕ => (n : ℤ)
  | text => (readNat text).map fun n : ℕ => (n : ℤ)

def readFixed (text : List Char) : Option ℚ :=
  (readNat ((cut '.' text).1 ++ (cut '.' text).2)).map fun n : ℕ =>
    (n : ℚ) / 10 ^ (cut '.' text).2.length

def readUnsigned (text : List Char) : Option ℚ :=
  if 'e' ∈ text then
    (readFixed (cut 'e' text).1).bind fun fixed =>
      (readInt (cut 'e' text).2).map fun exponent => fixed * 10 ^ exponent
  else readFixed text

/-- The number a decimal text stands for. -/
def readDecimal : List Char → Option ℚ
  | '-' :: text => (readUnsigned text).map fun q => -q
  | text => readUnsigned text

end Reading

section Digits

theorem notMem_of_digits {text : List Char} (h : text.all Char.isDigit) {c : Char}
    (hc : c.isDigit = false) : c ∉ text := by
  intro hmem
  have hdigit := List.all_eq_true.mp h c hmem
  rw [hc] at hdigit
  exact Bool.noConfusion hdigit

theorem toDigits_all (n : ℕ) : (Nat.toDigits 10 n).all Char.isDigit :=
  List.all_eq_true.mpr fun _ hc => Nat.isDigit_of_mem_toDigits (by decide) le_rfl hc

theorem readNat_of_digits {text : List Char} (hne : text ≠ []) (h : text.all Char.isDigit) :
    readNat text = some (Nat.ofDigitChars 10 text 0) :=
  if_pos ⟨hne, h⟩

theorem readNat_toDigits (n : ℕ) : readNat (Nat.toDigits 10 n) = some n := by
  rw [readNat_of_digits Nat.toDigits_ne_nil (toDigits_all n), Nat.ofDigitChars_ten_toDigits]

theorem cut_of_notMem {c : Char} {text : List Char} (h : c ∉ text) : cut c text = (text, []) := by
  have hall : ∀ a ∈ text, (a != c) = true := by
    intro a ha
    exact bne_iff_ne.mpr fun heq => h (heq ▸ ha)
  rw [cut, List.takeWhile_eq_self_iff.mpr hall, List.dropWhile_eq_nil_iff.mpr hall, List.tail_nil]

theorem cut_append {c : Char} {before : List Char} (h : c ∉ before) (after : List Char) :
    cut c (before ++ c :: after) = (before, after) := by
  have hall : ∀ a ∈ before, (a != c) = true := by
    intro a ha
    exact bne_iff_ne.mpr fun heq => h (heq ▸ ha)
  rw [cut, List.takeWhile_append_of_pos hall, List.dropWhile_append_of_pos hall]
  simp

theorem readFixed_of_digits {text : List Char} (hne : text ≠ []) (h : text.all Char.isDigit) :
    readFixed text = some (Nat.ofDigitChars 10 text 0 : ℚ) := by
  rw [readFixed, cut_of_notMem (notMem_of_digits h rfl), List.append_nil,
    readNat_of_digits hne h]
  simp

/-- The zeros that are dropped do not count. -/
theorem readFixed_withFraction {whole fraction : List Char} (hne : whole ≠ [])
    (hwhole : whole.all Char.isDigit) (hfraction : fraction.all Char.isDigit) :
    readFixed (withFraction whole fraction) =
      some ((Nat.ofDigitChars 10 (whole ++ fraction) 0 : ℚ) / 10 ^ fraction.length) := by
  obtain ⟨k, hk⟩ : ∃ k, fraction.rtakeWhile (· == '0') = List.replicate k '0' :=
    ⟨_, List.eq_replicate_of_mem fun c hc => by
      simpa using List.mem_rtakeWhile_imp hc⟩
  have hsplit := List.rdropWhile_append_rtakeWhile (p := (· == '0')) (l := fraction)
  rw [hk] at hsplit
  have hpow : (10 : ℚ) ^ k ≠ 0 := by positivity
  unfold withFraction
  generalize fraction.rdropWhile (· == '0') = kept at hsplit
  subst hsplit
  rw [← List.append_assoc, Nat.ofDigitChars_append, Nat.ofDigitChars_replicate_zero]
  rw [List.all_append, Bool.and_eq_true] at hfraction
  simp only
  split_ifs with hkept
  · subst hkept
    rw [readFixed_of_digits hne hwhole]
    simp [hpow]
  · have hdigits : (whole ++ kept).all Char.isDigit := by
      rw [List.all_append, hwhole, hfraction.1]
      rfl
    rw [readFixed, cut_append (notMem_of_digits hwhole rfl),
      readNat_of_digits (by simp [hne]) hdigits]
    simp only [Option.map_some, List.length_append, List.length_replicate, pow_add, Nat.cast_mul,
      Nat.cast_pow, Nat.cast_ofNat]
    congr 1
    field_simp

theorem withFraction_notMem {whole fraction : List Char} (hwhole : whole.all Char.isDigit)
    (hfraction : fraction.all Char.isDigit) {c : Char} (hc : c.isDigit = false) (hpoint : c ≠ '.') :
    c ∉ withFraction whole fraction := by
  have hkept : c ∉ fraction.rdropWhile (· == '0') := fun hmem =>
    notMem_of_digits hfraction hc ((List.rdropWhile_prefix _ _).subset hmem)
  unfold withFraction
  simp only
  split_ifs
  · exact notMem_of_digits hwhole hc
  · simp [notMem_of_digits hwhole hc, hkept, hpoint]

theorem readUnsigned_of_notMem {text : List Char} (h : 'e' ∉ text) :
    readUnsigned text = readFixed text :=
  if_neg h

theorem readInt_exponentText (exponent : ℕ) :
    readInt (exponentText exponent) = some (exponent : ℤ) := by
  have hsign : ¬ (exponent : ℤ) < 0 := by omega
  rw [exponentText, if_neg hsign, Int.natAbs_natCast]
  split_ifs
  · have hzero : readNat ('0' :: Nat.toDigits 10 exponent) = some exponent := by
      rw [readNat_of_digits (List.cons_ne_nil _ _) (by simpa using toDigits_all exponent),
        Nat.ofDigitChars_cons]
      simp [Nat.ofDigitChars_ten_toDigits]
    simp only [readInt, hzero, Option.map_some]
  · simp only [readInt, readNat_toDigits, Option.map_some]

theorem length_toDigits {precision figures : ℕ} (hprecision : 1 < precision)
    (hlow : 10 ^ (precision - 1) ≤ figures) (hhigh : figures < 10 ^ precision) :
    (Nat.toDigits 10 figures).length = precision := by
  have hle := (Nat.length_toDigits_le_iff (b := 10) (by decide) (by omega)).mpr hhigh
  have hgt : ¬ (Nat.toDigits 10 figures).length ≤ precision - 1 := by
    rw [Nat.length_toDigits_le_iff (by decide) (by omega)]
    omega
  omega

/-- Both notations stand for the figures scaled by the exponent. -/
theorem readUnsigned_scientificText {precision figures : ℕ} (exponent : ℕ)
    (hprecision : 1 < precision) (hlow : 10 ^ (precision - 1) ≤ figures)
    (hhigh : figures < 10 ^ precision) :
    readUnsigned (scientificText precision figures exponent) =
      some ((figures : ℚ) / 10 ^ (precision - 1) * 10 ^ exponent) := by
  have hlength := length_toDigits hprecision hlow hhigh
  have hall := toDigits_all figures
  have hvalue : Nat.ofDigitChars 10 (Nat.toDigits 10 figures) 0 = figures :=
    Nat.ofDigitChars_ten_toDigits
  have htake (k : ℕ) : ((Nat.toDigits 10 figures).take k).all Char.isDigit :=
    List.all_eq_true.mpr fun c hc => List.all_eq_true.mp hall c (List.mem_of_mem_take hc)
  have hdrop (k : ℕ) : ((Nat.toDigits 10 figures).drop k).all Char.isDigit :=
    List.all_eq_true.mpr fun c hc => List.all_eq_true.mp hall c (List.mem_of_mem_drop hc)
  have hne (k : ℕ) : (Nat.toDigits 10 figures).take (k + 1) ≠ [] := by
    simp [Nat.toDigits_ne_nil]
  have hfixed (k : ℕ) := readFixed_withFraction (hne k) (htake (k + 1)) (hdrop (k + 1))
  simp only [List.take_append_drop, hvalue, List.length_drop, hlength] at hfixed
  simp only [scientificText]
  split_ifs with hmoderate hnegative
  · rw [Int.toNat_natCast, readUnsigned_of_notMem
      (withFraction_notMem (htake _) (hdrop _) rfl (by decide)), hfixed]
    congr 1
    have hsum : precision - 1 = precision - (exponent + 1) + exponent := by omega
    rw [hsum, pow_add]
    field_simp
  · omega
  · have hmantissa := withFraction_notMem (htake 1) (hdrop 1) (c := 'e') rfl (by decide)
    rw [readUnsigned, if_pos (by simp), cut_append hmantissa, hfixed 0, Option.bind_some,
      readInt_exponentText, Option.map_some, zpow_natCast]

end Digits

section Exponent
variable {n d : ℕ}

/-- The leading figure of a positive quotient stands where the exponent says. -/
theorem decimalExponent_bounds (hn : 0 < n) (hd : 0 < d) :
    (d : ℚ) * 10 ^ decimalExponent n d ≤ n ∧ (n : ℚ) < d * 10 ^ (decimalExponent n d + 1) := by
  unfold decimalExponent
  split_ifs with hle
  · have hquotient : n / d ≠ 0 := (Nat.div_pos hle hd).ne'
    have hlow : 10 ^ Nat.log 10 (n / d) * d ≤ n :=
      (Nat.le_div_iff_mul_le hd).mp (Nat.pow_log_le_self 10 hquotient)
    have hhigh : n < 10 ^ (Nat.log 10 (n / d) + 1) * d :=
      (Nat.div_lt_iff_lt_mul hd).mp (Nat.lt_pow_succ_log_self (by decide) _)
    rw [← Nat.cast_succ, zpow_natCast, zpow_natCast, mul_comm (d : ℚ), mul_comm (d : ℚ)]
    exact ⟨by exact_mod_cast hlow, by exact_mod_cast hhigh⟩
  · have hceil : d ≤ (d + n - 1) / n * n ∧ ((d + n - 1) / n - 1) * n < d := by
      have hdivision := Nat.div_add_mod (d + n - 1) n
      have hmod := Nat.mod_lt (d + n - 1) hn
      rw [Nat.sub_mul, mul_comm ((d + n - 1) / n)]
      omega
    have htwo : 1 < (d + n - 1) / n := by
      rw [Nat.lt_div_iff_mul_lt hn]
      omega
    generalize (d + n - 1) / n = y at hceil htwo
    have hpos : 0 < Nat.clog 10 y := Nat.clog_pos (by decide) htwo
    have hlow : d ≤ 10 ^ Nat.clog 10 y * n :=
      hceil.1.trans (Nat.mul_le_mul_right n (Nat.le_pow_clog (by decide) y))
    have hhigh : 10 ^ (Nat.clog 10 y - 1) * n < d := by
      have hlt := Nat.pow_pred_clog_lt_self (b := 10) (by decide) htwo
      exact (Nat.mul_le_mul_right n (Nat.le_sub_one_of_lt hlt)).trans_lt hceil.2
    have hshift : -(Nat.clog 10 y : ℤ) + 1 = -((Nat.clog 10 y - 1 : ℕ) : ℤ) := by omega
    rw [hshift, zpow_neg, zpow_neg, zpow_natCast, zpow_natCast, ← div_eq_mul_inv, ← div_eq_mul_inv,
      div_le_iff₀ (by positivity), lt_div_iff₀ (by positivity), mul_comm (n : ℚ), mul_comm (n : ℚ)]
    exact ⟨by exact_mod_cast hlow, by exact_mod_cast hhigh⟩

/-- The figures before the carry. -/
theorem significand_bounds (precision : ℕ) (hprecision : 0 < precision) (hn : 0 < n) (hd : 0 < d) :
    10 ^ (precision - 1) ≤ significand precision n d (decimalExponent n d) ∧
      significand precision n d (decimalExponent n d) ≤ 10 ^ precision := by
  obtain ⟨hlow, hhigh⟩ := decimalExponent_bounds hn hd
  generalize decimalExponent n d = exponent at hlow hhigh
  simp only [significand]
  generalize hshift : (precision : ℤ) - 1 - exponent = shift
  have hscale : (10 : ℚ) ^ (-shift).toNat = 10 ^ shift.toNat * 10 ^ (-shift) := by
    rw [← zpow_natCast, ← zpow_natCast, ← zpow_add₀ (by norm_num)]
    congr 1
    omega
  have hunit : (0 : ℚ) < 10 ^ shift.toNat := by positivity
  constructor
  · apply le_roundDiv (by positivity)
    have hexponent : (10 : ℚ) ^ (precision - 1) * 10 ^ (-shift) = 10 ^ exponent := by
      rw [← zpow_natCast, ← zpow_add₀ (by norm_num)]
      congr 1
      omega
    have hreal : (10 : ℚ) ^ (precision - 1) * (d * 10 ^ (-shift).toNat) ≤
        n * 10 ^ shift.toNat := by
      calc (10 : ℚ) ^ (precision - 1) * (d * 10 ^ (-shift).toNat)
          = d * (10 ^ (precision - 1) * 10 ^ (-shift)) * 10 ^ shift.toNat := by rw [hscale]; ring
        _ ≤ n * 10 ^ shift.toNat := by
          rw [hexponent]
          exact mul_le_mul_of_nonneg_right hlow hunit.le
    exact_mod_cast hreal
  · apply roundDiv_le
    have hexponent : (10 : ℚ) ^ precision * 10 ^ (-shift) = 10 ^ (exponent + 1) := by
      rw [← zpow_natCast, ← zpow_add₀ (by norm_num)]
      congr 1
      omega
    have hreal : (n : ℚ) * 10 ^ shift.toNat ≤ 10 ^ precision * (d * 10 ^ (-shift).toNat) := by
      calc (n : ℚ) * 10 ^ shift.toNat
          ≤ d * (10 ^ precision * 10 ^ (-shift)) * 10 ^ shift.toNat := by
            rw [hexponent]
            exact mul_le_mul_of_nonneg_right hhigh.le hunit.le
        _ = 10 ^ precision * (d * 10 ^ (-shift).toNat) := by rw [hscale]; ring
    exact_mod_cast hreal

/-- After the carry the figures have the requested length. -/
theorem toScientific_bounds (precision : ℕ) (hprecision : 0 < precision) (hn : 0 < n)
    (hd : 0 < d) : 10 ^ (precision - 1) ≤ (toScientific precision n d).1 ∧
      (toScientific precision n d).1 < 10 ^ precision := by
  obtain ⟨hlow, hhigh⟩ := significand_bounds precision hprecision hn hd
  simp only [toScientific]
  split_ifs with hcarry
  · exact ⟨le_rfl, Nat.pow_lt_pow_right (by decide) (by omega)⟩
  · exact ⟨hlow, lt_of_le_of_ne hhigh hcarry⟩

end Exponent

section Whole
variable {precision n : ℕ}

/-- A whole number rounded to the given number of significant figures. -/
def roundFigures (precision n : ℕ) : ℕ :=
  let unit := 10 ^ (Nat.log 10 n + 1 - precision)
  roundDiv n unit * unit

theorem decimalExponent_of_whole {c : ℕ} (hc : 0 < c) (hn : 0 < n) :
    decimalExponent (n * c) c = Nat.log 10 n := by
  rw [decimalExponent, if_pos (Nat.le_mul_of_pos_left c hn), Nat.mul_div_cancel _ hc]

theorem significand_of_whole {c : ℕ} (hc : 0 < c) (hprecision : 0 < precision) :
    significand precision (n * c) c (Nat.log 10 n) * 10 ^ Nat.log 10 n =
      roundFigures precision n * 10 ^ (precision - 1) := by
  have hscale : significand precision (n * c) c (Nat.log 10 n) =
      roundDiv (n * 10 ^ (precision - (Nat.log 10 n + 1)))
        (10 ^ (Nat.log 10 n + 1 - precision)) := by
    have hup : ((precision : ℤ) - 1 - Nat.log 10 n).toNat = precision - (Nat.log 10 n + 1) := by
      omega
    have hdown : (-((precision : ℤ) - 1 - Nat.log 10 n)).toNat = Nat.log 10 n + 1 - precision := by
      omega
    rw [significand, hup, hdown, mul_right_comm, mul_comm c, roundDiv_mul_right hc]
  rw [hscale, roundFigures]
  rcases le_total (Nat.log 10 n + 1) precision with hfits | hlong
  · have hsum : precision - 1 = precision - (Nat.log 10 n + 1) + Nat.log 10 n := by omega
    rw [Nat.sub_eq_zero_of_le hfits, pow_zero, roundDiv_one, roundDiv_one, mul_one, hsum, pow_add,
      mul_assoc]
  · have hpower :
        10 ^ Nat.log 10 n = 10 ^ (Nat.log 10 n + 1 - precision) * 10 ^ (precision - 1) := by
      rw [← pow_add]
      congr 1
      omega
    rw [Nat.sub_eq_zero_of_le hlong, pow_zero, mul_one, hpower, mul_assoc]

theorem notMem_scientificText {c : Char} (hdigit : c.isDigit = false) (hpoint : c ≠ '.')
    (he : c ≠ 'e') {exponent : ℤ} (hexponent : c ∉ exponentText exponent) (figures : ℕ) :
    c ∉ scientificText precision figures exponent := by
  have hall := List.all_eq_true.mp (toDigits_all figures)
  have htake (k : ℕ) : ((Nat.toDigits 10 figures).take k).all Char.isDigit :=
    List.all_eq_true.mpr fun c hc => hall c (List.mem_of_mem_take hc)
  have hdrop (k : ℕ) : ((Nat.toDigits 10 figures).drop k).all Char.isDigit :=
    List.all_eq_true.mpr fun c hc => hall c (List.mem_of_mem_drop hc)
  have hzeros (k : ℕ) : (List.replicate k '0' ++ Nat.toDigits 10 figures).all Char.isDigit := by
    simpa [List.all_append] using toDigits_all figures
  simp only [scientificText]
  split_ifs
  · exact withFraction_notMem (htake _) (hdrop _) hdigit hpoint
  · exact withFraction_notMem rfl (hzeros _) hdigit hpoint
  · rw [List.mem_append, List.mem_cons, not_or, not_or]
    exact ⟨withFraction_notMem (htake 1) (hdrop 1) hdigit hpoint, he, hexponent⟩

theorem minus_notMem_scientificText (figures exponent : ℕ) :
    '-' ∉ scientificText precision figures exponent := by
  have hdigits := notMem_of_digits (toDigits_all exponent) (c := '-') rfl
  have hsign : ¬ (exponent : ℤ) < 0 := by omega
  refine notMem_scientificText rfl (by decide) (by decide) ?_ figures
  rw [exponentText, if_neg hsign, Int.natAbs_natCast]
  split_ifs <;> simp [hdigits]

theorem readDecimal_of_notMem {text : List Char} (h : '-' ∉ text) :
    readDecimal text = readUnsigned text := by
  unfold readDecimal
  split
  · simp at h
  · rfl

theorem readUnsigned_toDigits (n : ℕ) : readUnsigned (Nat.toDigits 10 n) = some (n : ℚ) := by
  rw [readUnsigned_of_notMem (notMem_of_digits (toDigits_all n) rfl),
    readFixed_of_digits Nat.toDigits_ne_nil (toDigits_all n), Nat.ofDigitChars_ten_toDigits]

theorem readDecimal_toDigits (n : ℕ) : readDecimal (Nat.toDigits 10 n) = some (n : ℚ) := by
  rw [readDecimal_of_notMem (notMem_of_digits (toDigits_all n) rfl), readUnsigned_toDigits]

/-- The text of a whole number stands for it rounded to so many figures. -/
theorem readDecimal_generalText {c : ℕ} (hc : 0 < c) (hprecision : 1 < precision) (n : ℕ) :
    readDecimal (generalText precision (n * c) c) = some (roundFigures precision n : ℚ) := by
  rcases Nat.eq_zero_or_pos n with rfl | hn
  · have hzero : roundFigures precision 0 = 0 := by simp [roundFigures, roundDiv]
    rw [hzero, zero_mul, generalText, if_pos rfl, ← Nat.toDigits_zero 10, readDecimal_toDigits]
  have hbounds := toScientific_bounds precision (by omega) (Nat.mul_pos hn hc) hc
  have hvalue : ∃ exponent : ℕ, (toScientific precision (n * c) c).2 = exponent ∧
      (toScientific precision (n * c) c).1 * 10 ^ exponent =
        roundFigures precision n * 10 ^ (precision - 1) := by
    have hsignificand := significand_of_whole (n := n) hc (show 0 < precision by omega)
    simp only [toScientific, decimalExponent_of_whole hc hn]
    split_ifs with hcarry
    · refine ⟨Nat.log 10 n + 1, by simp, ?_⟩
      rw [← hsignificand, hcarry, ← pow_add, ← pow_add]
      congr 1
      omega
    · exact ⟨Nat.log 10 n, rfl, hsignificand⟩
  obtain ⟨exponent, hexponent, hscaled⟩ := hvalue
  rw [generalText, if_neg (Nat.mul_pos hn hc).ne', hexponent,
    readDecimal_of_notMem (minus_notMem_scientificText _ _),
    readUnsigned_scientificText exponent hprecision hbounds.1 hbounds.2]
  congr 1
  rw [div_mul_eq_mul_div, div_eq_iff (by positivity)]
  exact_mod_cast hscaled

theorem Binary64.generalText_natCast {c : ℕ} {units : ℤ} (h : Representable units.natAbs)
    (hc : c = 2 ^ 1074) {n : ℕ} (hunits : units = n * c) :
    (Binary64.finite units h).generalText precision = Library.generalText precision (n * c) c := by
  have hsign : ¬ units < 0 := by
    rw [hunits, not_lt]
    exact mul_nonneg (Int.natCast_nonneg n) (Int.natCast_nonneg c)
  have habs : units.natAbs = n * c := by
    rw [hunits, Int.natAbs_mul, Int.natAbs_natCast, Int.natAbs_natCast]
  rw [Binary64.generalText, if_neg hsign, habs, hc]

/-- The text of a whole number of at most 53 bits stands for it rounded to so many figures. -/
theorem Binary64.readDecimal_ofInt (hprecision : 1 < precision) {n : ℕ} (hn : n < 2 ^ 53) :
    readDecimal ((Binary64.ofInt n).generalText precision) =
      some (roundFigures precision n : ℚ) := by
  obtain ⟨h, hvalue⟩ := Binary64.ofInt_natCast hn
  have hcast (s : ℕ) : (n : ℤ) * 2 ^ s = n * ((2 ^ s : ℕ) : ℤ) := by simp
  rw [hvalue, Binary64.generalText_natCast h rfl (hcast 1074)]
  exact readDecimal_generalText (by positivity) hprecision n

/-- A whole number keeps its value exactly if so many figures, and zeros after them, write it. -/
theorem roundFigures_eq_iff :
    roundFigures precision n = n ↔ ∃ k j, k < 10 ^ precision ∧ n = k * 10 ^ j := by
  rw [roundFigures, roundDiv_mul_eq_iff (by positivity)]
  constructor
  · rintro ⟨k, hk⟩
    refine ⟨k, Nat.log 10 n + 1 - precision, ?_, hk.trans (mul_comm _ _)⟩
    by_contra hge
    have hlt := Nat.lt_pow_succ_log_self (b := 10) (by decide) n
    have hle : 10 ^ (Nat.log 10 n + 1 - precision) * 10 ^ precision ≤ n :=
      (Nat.mul_le_mul_left _ (not_lt.mp hge)).trans_eq hk.symm
    rw [← pow_add] at hle
    have hexponent : Nat.log 10 n + 1 ≤ Nat.log 10 n + 1 - precision + precision := by omega
    exact absurd (hlt.trans_le ((Nat.pow_le_pow_right (by decide) hexponent).trans hle))
      (lt_irrefl _)
  · rintro ⟨k, j, hk, rfl⟩
    rcases Nat.eq_zero_or_pos k with rfl | hpos
    · simp
    · have hlog : Nat.log 10 (k * 10 ^ j) < precision + j := by
        apply Nat.log_lt_of_lt_pow (by positivity)
        rw [pow_add]
        exact Nat.mul_lt_mul_of_pos_right hk (by positivity)
      exact (pow_dvd_pow 10 (by omega)).trans (Dvd.intro_left k rfl)

theorem readDecimal_intText (z : ℤ) : readDecimal (intText z) = some (z : ℚ) := by
  cases z with
  | ofNat n => exact readDecimal_toDigits n
  | negSucc n =>
    simp only [intText, readDecimal, readUnsigned_toDigits, Option.map_some, Int.cast_negSucc]

theorem mem_intText {z : ℤ} {c : Char} (h : c ∈ intText z) : c = '-' ∨ c.isDigit = true := by
  cases z with
  | ofNat n => exact Or.inr (List.all_eq_true.mp (toDigits_all n) c h)
  | negSucc n =>
    rcases List.mem_cons.mp h with rfl | hdigit
    · exact Or.inl rfl
    · exact Or.inr (List.all_eq_true.mp (toDigits_all (n + 1)) c hdigit)

theorem readInt_of_notMem {text : List Char} (hminus : '-' ∉ text) (hplus : '+' ∉ text) :
    readInt text = (readNat text).map fun n : ℕ => (n : ℤ) := by
  unfold readInt
  split
  · simp at hminus
  · simp at hplus
  · rfl

theorem readInt_intText (z : ℤ) : readInt (intText z) = some z := by
  cases z with
  | ofNat n =>
    have hdigits := toDigits_all n
    rw [intText, readInt_of_notMem (notMem_of_digits hdigits rfl) (notMem_of_digits hdigits rfl),
      readNat_toDigits]
    rfl
  | negSucc n =>
    rw [intText, readInt, readNat_toDigits]
    rfl

end Whole

section Length

theorem length_withFraction_le (whole fraction : List Char) :
    (withFraction whole fraction).length ≤ whole.length + 1 + fraction.length := by
  have hkept := (List.rdropWhile_prefix (· == '0') fraction).length_le
  simp only [withFraction]
  split_ifs
  · omega
  · simp only [List.length_append, List.length_cons]
    omega

theorem length_scientificText_le {precision figures : ℕ} {exponent : ℤ} (hprecision : 0 < precision)
    (hfigures : figures < 10 ^ precision) (hexponent : exponent.natAbs < 10 ^ 4) :
    (scientificText precision figures exponent).length ≤ precision + 7 := by
  have hdigits := (Nat.length_toDigits_le_iff (b := 10) (by decide) hprecision).mpr hfigures
  have hsize := (Nat.length_toDigits_le_iff (b := 10) (by decide) (by decide)).mpr hexponent
  have hpower : (exponentText exponent).length ≤ 5 := by
    have hone : exponent.natAbs < 10 → (Nat.toDigits 10 exponent.natAbs).length ≤ 1 :=
      (Nat.length_toDigits_le_iff (b := 10) (k := 1) (by decide) (by decide)).mpr
    rw [exponentText, List.length_cons]
    split_ifs with hsmall
    · rw [List.length_cons]
      have := hone hsmall
      omega
    · omega
  simp only [scientificText]
  split_ifs with hmoderate hwhole
  · refine (length_withFraction_le _ _).trans ?_
    rw [List.length_take, List.length_drop]
    omega
  · refine (length_withFraction_le _ _).trans ?_
    rw [List.length_append, List.length_replicate, List.length_singleton]
    omega
  · have hfixed := length_withFraction_le ((Nat.toDigits 10 figures).take 1)
      ((Nat.toDigits 10 figures).drop 1)
    rw [List.length_take, List.length_drop] at hfixed
    rw [List.length_append, List.length_cons]
    omega

/-- The exponent of a quotient of moderate size has at most four figures. -/
theorem natAbs_toScientific_lt (precision : ℕ) {n k : ℕ} (hn : 0 < n) (hlog : n.log2 < 2098)
    (hk : k < 2098) : (toScientific precision n (2 ^ k)).2.natAbs < 10 ^ 4 := by
  have hexponent : (decimalExponent n (2 ^ k)).natAbs < 2098 := by
    unfold decimalExponent
    split_ifs
    · have hle : Nat.log 10 (n / 2 ^ k) ≤ n.log2 := by
        rw [Nat.log2_eq_log_two]
        exact (Nat.log_anti_left (by decide) (by decide)).trans
          (Nat.log_mono_right (Nat.div_le_self _ _))
      omega
    · have hceil : (2 ^ k + n - 1) / n ≤ 2 ^ k := by
        apply Nat.div_le_of_le_mul
        rw [mul_comm]
        exact Nat.add_sub_one_le_mul (pow_ne_zero k two_ne_zero) hn.ne'
      have hle : Nat.clog 10 ((2 ^ k + n - 1) / n) ≤ k :=
        (Nat.clog_anti_left (by decide) (by decide)).trans (Nat.clog_le_of_le_pow hceil)
      omega
  simp only [toScientific]
  split_ifs <;> dsimp only <;> omega

theorem Binary64.length_generalText_le {precision : ℕ} (hprecision : 0 < precision) (x : Binary64) :
    (x.generalText precision).length ≤ precision + 8 := by
  have hfinite (units : ℤ) (h : Representable units.natAbs) :
      (Library.generalText precision units.natAbs (2 ^ 1074)).length ≤ precision + 7 := by
    unfold Library.generalText
    split_ifs with hzero
    · rw [List.length_singleton]
      omega
    · have hpos := Nat.pos_of_ne_zero hzero
      exact length_scientificText_le hprecision
        (toScientific_bounds precision hprecision hpos (by positivity)).2
        (natAbs_toScientific_lt precision hpos h.2 (by decide))
  cases x with
  | nan => exact (show 3 ≤ precision + 8 by omega)
  | negInf => exact (show 4 ≤ precision + 8 by omega)
  | posInf => exact (show 3 ≤ precision + 8 by omega)
  | finite units h =>
    have hle := hfinite units h
    simp only [Binary64.generalText]
    split_ifs
    · rw [List.length_cons]
      omega
    · omega

theorem length_intText_le {z : ℤ} (h : z.natAbs < 10 ^ 19) : (intText z).length ≤ 20 := by
  have hdigits := (Nat.length_toDigits_le_iff (b := 10) (by decide) (by decide)).mpr h
  cases z with
  | ofNat n => exact hdigits.trans (by decide)
  | negSucc n =>
    rw [intText, List.length_cons]
    exact Nat.succ_le_succ hdigits

end Length

section Lines

theorem newline_notMem_exponentText (exponent : ℤ) : '\n' ∉ exponentText exponent := by
  have hdigits := notMem_of_digits (toDigits_all exponent.natAbs) (c := '\n') rfl
  unfold exponentText
  split_ifs <;> simp [hdigits]

theorem Binary64.newline_notMem_generalText (precision : ℕ) (x : Binary64) :
    '\n' ∉ x.generalText precision := by
  have hfinite (n d : ℕ) : '\n' ∉ Library.generalText precision n d := by
    unfold Library.generalText
    split_ifs
    · decide
    · exact notMem_scientificText rfl (by decide) (by decide) (newline_notMem_exponentText _) _
  cases x with
  | nan => exact (by decide : '\n' ∉ "nan".toList)
  | negInf => exact (by decide : '\n' ∉ "-inf".toList)
  | posInf => exact (by decide : '\n' ∉ "inf".toList)
  | finite units h =>
    simp only [Binary64.generalText]
    split_ifs
    · rw [List.mem_cons, not_or]
      exact ⟨by decide, hfinite _ _⟩
    · exact hfinite _ _

theorem newline_notMem_intText (z : ℤ) : '\n' ∉ intText z := by
  cases z with
  | ofNat n => exact notMem_of_digits (toDigits_all n) rfl
  | negSucc n =>
    have hdigits := notMem_of_digits (toDigits_all (n + 1)) (c := '\n') rfl
    simp [intText, hdigits]

end Lines

end Library
