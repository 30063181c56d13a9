import SafeEdge.Library.ShiftRegister

/-! Bit-serial division, most significant bit first, and its mirror image: the reflected
register fed least significant bit first. -/
namespace Library

variable {w c : ℕ}

/-- One step of the division: the incoming bit meets the bit shifted out at the top. -/
def divideStep (poly r : BitVec w) (bit : Bool) : BitVec w :=
  if r.msb ^^ bit then r <<< 1 ^^^ poly else r <<< 1

/-- The register after a stream of bits. -/
def divideBits (poly r : BitVec w) (bits : List Bool) : BitVec w :=
  bits.foldl (divideStep poly) r

/-- The bits of a word, most significant first. -/
def msbFirst (x : BitVec c) : List Bool := (List.range c).map x.getMsbD

theorem reverse_xor (a b : BitVec w) : (a ^^^ b).reverse = a.reverse ^^^ b.reverse := by
  apply BitVec.eq_of_getMsbD_eq
  intro i _
  simp only [BitVec.getMsbD_reverse, BitVec.getMsbD_xor, BitVec.getLsbD_xor]

theorem reverse_ushiftRight_one (r : BitVec w) : (r >>> 1).reverse = r.reverse <<< 1 := by
  apply BitVec.eq_of_getMsbD_eq
  intro i _
  rw [BitVec.getMsbD_reverse, BitVec.getMsbD_shiftLeft, BitVec.getMsbD_reverse,
    BitVec.getLsbD_ushiftRight, Nat.add_comm]

/-- A step of the reflected register is a step of the division seen in a mirror. -/
theorem reverse_shift (hw : 0 < w) (poly r : BitVec w) (bit : Bool) :
    (shift poly (r ^^^ (BitVec.ofBool bit).setWidth w)).reverse =
      divideStep poly.reverse r.reverse bit := by
  have hlow : (r ^^^ (BitVec.ofBool bit).setWidth w).getLsbD 0 = (r.reverse.msb ^^ bit) := by
    rw [BitVec.msb_reverse, BitVec.getLsbD_xor, BitVec.getLsbD_setWidth, decide_eq_true hw]
    simp
  have hrest : (r ^^^ (BitVec.ofBool bit).setWidth w) >>> 1 = r >>> 1 := by
    apply BitVec.eq_of_getLsbD_eq
    intro i _
    simp
  rw [shift, divideStep, hlow, hrest, ← reverse_ushiftRight_one]
  split_ifs
  · rw [reverse_xor]
  · rfl

theorem reverse_feed_bits (hw : 0 < w) (poly r : BitVec w) (bits : List Bool) :
    (feed poly r (bits.map BitVec.ofBool)).reverse =
      divideBits poly.reverse r.reverse bits := by
  induction bits generalizing r with
  | nil => rfl
  | cons bit bits ih =>
    rw [List.map_cons, feed_cons, ih, Function.iterate_one, reverse_shift hw]
    rfl

theorem flatMap_msbFirst_reverse (xs : List (BitVec c)) :
    (xs.flatMap fun x => msbFirst x.reverse) = bitStream xs := by
  have hbits : ∀ x : BitVec c, msbFirst x.reverse = (List.range c).map x.getLsbD := by
    intro x
    unfold msbFirst
    congr 1
    funext i
    exact BitVec.getMsbD_reverse
  simp only [hbits]
  rfl

/-- Feeding symbols to the reflected register divides their mirrored bits. -/
theorem reverse_feed (hw : 0 < w) (hc : c ≤ w) (poly r : BitVec w) (xs : List (BitVec c)) :
    (feed poly r xs).reverse =
      divideBits poly.reverse r.reverse (xs.flatMap fun x => msbFirst x.reverse) := by
  rw [flatMap_msbFirst_reverse, ← reverse_feed_bits hw, feed_bitStream hc]

end Library
