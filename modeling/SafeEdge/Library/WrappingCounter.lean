import Mathlib.Tactic

/-! Free-running 64-bit counters that wrap, the slots of a power-of-two table they address, and
the signed reading of a 32-bit difference. -/
namespace Library

/-- A free-running counter after `n` increments from `start`. -/
def counterAt (start : UInt64) (n : ℕ) : UInt64 := start + UInt64.ofNat n

theorem counterAt_toNat (start : UInt64) (n : ℕ) :
    (counterAt start n).toNat = (start.toNat + n) % 2 ^ 64 := by
  rw [counterAt, UInt64.toNat_add, UInt64.toNat_ofNat']
  omega

@[simp] theorem counterAt_zero (start : UInt64) : counterAt start 0 = start := by
  simp [counterAt]

theorem counterAt_add_one (start : UInt64) (n : ℕ) :
    counterAt start n + 1 = counterAt start (n + 1) := by
  apply UInt64.toNat_inj.mp
  rw [UInt64.toNat_add, counterAt_toNat, counterAt_toNat, UInt64.toNat_one]
  omega

/-- The wrapping difference of two readings is their true distance when that fits. -/
theorem counterAt_sub_toNat (start : UInt64) {a b : ℕ} (hle : b ≤ a) (hlt : a - b < 2 ^ 64) :
    (counterAt start a - counterAt start b).toNat = a - b := by
  rw [UInt64.toNat_sub, counterAt_toNat, counterAt_toNat]
  have hstart := start.toNat_lt
  omega

theorem counterAt_inj_of_close (start : UInt64) {a b : ℕ} (hle : b ≤ a)
    (hlt : a - b < 2 ^ 64) (h : counterAt start a = counterAt start b) : a = b := by
  have hdistance := counterAt_sub_toNat start hle hlt
  rw [h, UInt64.sub_self, UInt64.toNat_zero] at hdistance
  omega

theorem counterAt_add (start : UInt64) (n m : ℕ) :
    counterAt start n + UInt64.ofNat m = counterAt start (n + m) := by
  rw [counterAt, counterAt, UInt64.ofNat_add, UInt64.add_assoc]

theorem counterAt_trans {a b c : UInt64} {n m : ℕ} (h : b = counterAt a n)
    (h' : c = counterAt b m) : c = counterAt a (n + m) := by
  rw [h', h]
  exact counterAt_add a n m

/-- A counter that goes up by one at each event has counted the events so far. -/
theorem counterAt_of_events {counter : ℕ → UInt64} {event : ℕ → Prop} [DecidablePred event]
    (hstep : ∀ k, counter (k + 1) = if event k then counter k + 1 else counter k) (n : ℕ) :
    counter n = counterAt (counter 0) (Nat.count event n) := by
  induction n with
  | zero => rw [Nat.count_zero, counterAt_zero]
  | succ n ih =>
    rw [hstep, Nat.count_succ]
    split_ifs
    · rw [ih, counterAt_add_one]
    · exact ih

/-- The mask of a power-of-two table picks the remainder. -/
theorem and_mask_toNat (position : UInt64) {k : ℕ} (hk : k < 64) :
    (position &&& (UInt64.ofNat (2 ^ k) - 1)).toNat = position.toNat % 2 ^ k := by
  have hpow : 2 ^ k < 2 ^ 64 := Nat.pow_lt_pow_right (by decide) hk
  have hpos : 0 < 2 ^ k := Nat.two_pow_pos k
  have hmask : (UInt64.ofNat (2 ^ k) - 1).toNat = 2 ^ k - 1 := by
    rw [UInt64.toNat_sub, UInt64.toNat_ofNat', UInt64.toNat_one]
    omega
  rw [UInt64.toNat_and, hmask, Nat.and_two_pow_sub_one_eq_mod]

/-- Two readings less than a table apart that address one slot are equal. -/
theorem masked_inj (start : UInt64) {k a b : ℕ} (hk : k < 64) (hle : b ≤ a)
    (hlt : a < b + 2 ^ k)
    (h : (counterAt start a &&& (UInt64.ofNat (2 ^ k) - 1)).toNat =
      (counterAt start b &&& (UInt64.ofNat (2 ^ k) - 1)).toNat) : a = b := by
  have hdvd : 2 ^ k ∣ 2 ^ 64 := Nat.pow_dvd_pow 2 hk.le
  rw [and_mask_toNat _ hk, and_mask_toNat _ hk, counterAt_toNat, counterAt_toNat,
    Nat.mod_mod_of_dvd _ hdvd, Nat.mod_mod_of_dvd _ hdvd] at h
  have hmod : (start.toNat + b) ≡ (start.toNat + b) + (a - b) [MOD 2 ^ k] := by
    rw [Nat.ModEq, show start.toNat + b + (a - b) = start.toNat + a by omega]
    exact h.symm
  have hzero : 0 ≡ a - b [MOD 2 ^ k] := Nat.ModEq.add_left_cancel' (start.toNat + b) hmod
  have hdistance : a - b = 0 :=
    Nat.eq_zero_of_dvd_of_lt ((Nat.modEq_zero_iff_dvd).mp hzero.symm) (by omega)
  omega

/-- The signed reading of a 32-bit difference is negative exactly in its upper half. -/
theorem toInt32_neg_iff (difference : UInt32) :
    difference.toInt32 < 0 ↔ 2 ^ 31 ≤ difference.toNat := by
  have hlt := difference.toNat_lt
  rw [Int32.lt_iff_toInt_lt]
  change difference.toBitVec.toInt < 0 ↔ _
  rw [BitVec.toInt_eq_toNat_cond]
  change (if 2 * difference.toNat < 2 ^ 32 then (difference.toNat : ℤ) else _) < 0 ↔ _
  split_ifs <;> omega

/-- In its lower half the signed reading keeps its value when it is widened. -/
theorem toInt32_toUInt64 {difference : UInt32} (h : difference.toNat < 2 ^ 31) :
    difference.toInt32.toInt64.toUInt64 = UInt64.ofNat difference.toNat := by
  apply UInt64.toBitVec_inj.mp
  rw [Int64.toBitVec_toUInt64, Int32.toBitVec_toInt64]
  change difference.toBitVec.signExtend 64 = BitVec.ofNat 64 difference.toNat
  have hsign : difference.toBitVec.msb = false := by
    rw [BitVec.msb_eq_false_iff_two_mul_lt]
    change 2 * difference.toNat < 2 ^ 32
    omega
  rw [BitVec.signExtend_eq_setWidth_of_msb_false hsign]
  apply BitVec.eq_of_toNat_eq
  simp

end Library
