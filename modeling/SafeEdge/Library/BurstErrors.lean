import SafeEdge.Library.CodeDistance

/-! Bursts: streams that differ only inside a window no wider than the register, and leave the
register in one state, are one stream. -/
namespace Library
open Finset

section Positions
variable {c : ℕ}

theorem bitAt_append_low {xs : List (BitVec c)} (ys : List (BitVec c)) {p : ℕ}
    (hp : p < c * xs.length) : bitAt (xs ++ ys) p = bitAt xs p := by
  have hindex : p / c < xs.length := Nat.div_lt_of_lt_mul hp
  rw [bitAt, bitAt, List.getD_eq_getElem?_getD, List.getD_eq_getElem?_getD,
    List.getElem?_append_left hindex]

theorem bitAt_append_high (xs ys : List (BitVec c)) (p : ℕ) :
    bitAt (xs ++ ys) (c * xs.length + p) = bitAt ys p := by
  induction xs with
  | nil => simp
  | cons x xs ih =>
    rw [List.cons_append, List.length_cons, Nat.mul_succ, Nat.add_comm _ c, Nat.add_assoc,
      bitAt_cons_high, ih]

theorem bitAt_symbols {w n p : ℕ} (v : BitVec w) (hp : p < c * n) :
    bitAt (symbols c n v) p = v.getLsbD p := by
  induction n generalizing v p with
  | zero => simp at hp
  | succ n ih =>
    rw [Nat.mul_succ] at hp
    rw [symbols]
    rcases Nat.lt_or_ge p c with hlow | hhigh
    · rw [bitAt_cons_low _ _ hlow, BitVec.getLsbD_setWidth, decide_eq_true hlow, Bool.true_and]
    · obtain ⟨q, rfl⟩ := Nat.exists_eq_add_of_le hhigh
      rw [bitAt_cons_high, ih _ (by omega), BitVec.getLsbD_ushiftRight]

theorem mem_differingBits {xs ys : List (BitVec c)} {p : ℕ} :
    p ∈ differingBits xs ys ↔ p < c * xs.length ∧ bitAt xs p ≠ bitAt ys p := by
  rw [differingBits, mem_filter, mem_range]

theorem eq_of_bitAt_eq {xs ys : List (BitVec c)} (hlength : xs.length = ys.length)
    (h : ∀ p < c * xs.length, bitAt xs p = bitAt ys p) : xs = ys := by
  induction xs generalizing ys with
  | nil => exact (List.length_eq_zero_iff.mp hlength.symm).symm
  | cons x xs ih =>
    cases ys with
    | nil => simp at hlength
    | cons y ys =>
      rw [List.length_cons, Nat.mul_succ] at h
      have hhead : x = y := by
        apply BitVec.eq_of_getLsbD_eq
        intro i hi
        have hbit := h i (by omega)
        rwa [bitAt_cons_low x xs hi, bitAt_cons_low y ys hi] at hbit
      have htail : xs = ys := by
        apply ih (Nat.succ_injective hlength)
        intro p hp
        have hbit := h (c + p) (by omega)
        rwa [bitAt_cons_high, bitAt_cons_high] at hbit
      rw [hhead, htail]

theorem length_bitStream (xs : List (BitVec c)) : (bitStream xs).length = c * xs.length := by
  simp [bitStream, Nat.mul_comm]

theorem bitStream_getElem? (xs : List (BitVec c)) {p : ℕ} (hp : p < c * xs.length) :
    (bitStream xs)[p]? = some (bitAt xs p) := by
  induction xs generalizing p with
  | nil => simp at hp
  | cons x xs ih =>
    rw [List.length_cons, Nat.mul_succ] at hp
    rw [bitStream, List.flatMap_cons]
    rcases Nat.lt_or_ge p c with hlow | hhigh
    · rw [List.getElem?_append_left (by simpa using hlow), bitAt_cons_low x xs hlow]
      simp [hlow]
    · obtain ⟨q, rfl⟩ := Nat.exists_eq_add_of_le hhigh
      rw [List.getElem?_append_right (by simp), bitAt_cons_high, ← ih (by omega)]
      simp [bitStream]

end Positions

section Window
variable {w c : ℕ} {poly : BitVec w}

theorem feed_register_injective (hpoly : Function.Injective (shift poly)) {r s : BitVec w}
    {xs : List (BitVec c)} (h : feed poly r xs = feed poly s xs) : r = s := by
  induction xs generalizing r s with
  | nil => exact h
  | cons x xs ih =>
    rw [feed_cons, feed_cons] at h
    exact (BitVec.xor_left_inj _).mp (hpoly.iterate c (ih h))

/-- A stream that fits the register is determined by the state it leaves. -/
theorem feed_stream_injective (hpoly : Function.Injective (shift poly)) {r : BitVec w}
    {xs ys : List (BitVec c)} (hlength : xs.length = ys.length) (hshort : c * xs.length ≤ w)
    (h : feed poly r xs = feed poly r ys) : xs = ys := by
  rw [feed_eq_joined _ _ _ hshort, feed_eq_joined _ _ _ (hlength ▸ hshort), ← hlength,
    (hpoly.iterate _).eq_iff, BitVec.xor_right_inj] at h
  rw [← symbols_joined xs hshort, h, hlength, symbols_joined ys (hlength ▸ hshort)]

/-- Bits that differ only inside a window of the register's width leave different states. -/
theorem bits_eq_of_window (hpoly : Function.Injective (shift poly)) {r : BitVec w}
    {xs ys : List Bool} (hlength : xs.length = ys.length) (start : ℕ)
    (hbefore : xs.take start = ys.take start)
    (hafter : (xs.drop start).drop w = (ys.drop start).drop w)
    (h : feed poly r (xs.map BitVec.ofBool) = feed poly r (ys.map BitVec.ofBool)) : xs = ys := by
  have hsplit : ∀ zs : List Bool,
      zs = zs.take start ++ ((zs.drop start).take w ++ (zs.drop start).drop w) := by
    intro zs
    rw [List.take_append_drop, List.take_append_drop]
  rw [hsplit xs, hsplit ys, hbefore, hafter] at h
  simp only [List.map_append, feed_append] at h
  have hwindow := feed_stream_injective hpoly (by simp [hlength]) (by simp)
    (feed_register_injective hpoly h)
  have hbits : (xs.drop start).take w = (ys.drop start).take w :=
    List.map_injective_iff.mpr (by decide) hwindow
  rw [hsplit xs, hsplit ys, hbefore, hbits, hafter]

/-- Streams of symbols that differ only inside a window of the register's width, and leave one
state, are equal. -/
theorem eq_of_burst (hpoly : Function.Injective (shift poly)) (hc : c ≤ w) {r : BitVec w}
    {xs ys : List (BitVec c)} (hlength : xs.length = ys.length) {start : ℕ}
    (hwindow : ∀ p ∈ differingBits xs ys, start ≤ p ∧ p < start + w)
    (h : feed poly r xs = feed poly r ys) : xs = ys := by
  have hstreams : (bitStream xs).length = (bitStream ys).length := by
    rw [length_bitStream, length_bitStream, hlength]
  have houtside : ∀ p, p < start ∨ start + w ≤ p → (bitStream xs)[p]? = (bitStream ys)[p]? := by
    intro p hp
    rcases Nat.lt_or_ge p (c * xs.length) with hin | hout
    · have hsame : bitAt xs p = bitAt ys p := by
        by_contra hdiffer
        have hinside := hwindow p (mem_differingBits.mpr ⟨hin, hdiffer⟩)
        omega
      rw [bitStream_getElem? xs hin, bitStream_getElem? ys (hlength ▸ hin), hsame]
    · rw [List.getElem?_eq_none (by rwa [length_bitStream]),
        List.getElem?_eq_none (by rwa [length_bitStream, ← hlength])]
  have hbits : bitStream xs = bitStream ys := by
    rw [← feed_bitStream hc, ← feed_bitStream hc] at h
    refine bits_eq_of_window hpoly hstreams start ?_ ?_ h
    · apply List.ext_getElem?
      intro p
      rw [List.getElem?_take, List.getElem?_take]
      split_ifs with hp
      · exact houtside p (Or.inl hp)
      · rfl
    · apply List.ext_getElem?
      intro p
      simp only [List.getElem?_drop]
      exact houtside _ (Or.inr (by omega))
  apply eq_of_bitAt_eq hlength
  intro p hp
  apply Option.some.inj
  rw [← bitStream_getElem? xs hp, ← bitStream_getElem? ys (hlength ▸ hp), hbits]

end Window
end Library
