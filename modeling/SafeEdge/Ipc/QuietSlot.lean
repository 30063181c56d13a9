import SafeEdge.Ipc.SeqlockReaders

/-! Loads from a slot that nobody writes any more: the parity of the counter decides them. -/
namespace SafeEdge.Ipc
open Library TriviallyCopyable

namespace Reader
variable {T : Type*} [TriviallyCopyable T]

/-- A copy is only begun under an even counter. -/
def SampledEven (reader : Reader T) : Prop :=
  match reader.pc with
  | .idle | .sampling _ _ => True
  | .copying _ _ before _ _ => before.toNat % 2 = 0

theorem nextAttempt_sampledEven (out : T) (most attempt : ℕ) :
    (nextAttempt out most attempt).1.SampledEven := by
  unfold nextAttempt
  split_ifs <;> trivial

theorem SampledEven.step {reader : Reader T} (h : reader.SampledEven) (slot : SeqlockSlot T)
    (out : T) (maxAttempts : ℕ) : (reader.step slot out maxAttempts).1.SampledEven := by
  have hout := reader.step_outcome slot out maxAttempts
  generalize reader.step slot out maxAttempts = result at hout
  cases hout with
  | call | collide | retry => exact nextAttempt_sampledEven ..
  | sample hsampling hquiet =>
    rw [writeInProgress_iff] at hquiet
    simp only [SampledEven]
    omega
  | copy hcopying => simpa only [SampledEven, hcopying] using h
  | accept => trivial

/-- No load succeeds while the counter is odd. -/
theorem SampledEven.not_loaded {reader : Reader T} (h : reader.SampledEven)
    {slot : SeqlockSlot T} (hbusy : slot.WriteInProgress) (out : T) (maxAttempts : ℕ) :
    (reader.step slot out maxAttempts).2 ≠ .loaded true := by
  have hout := reader.step_outcome slot out maxAttempts
  generalize reader.step slot out maxAttempts = result at hout
  cases hout with
  | call | collide | retry => exact nextAttempt_not_loaded _ _ _
  | sample | copy => simp
  | accept hcopying =>
    simp only [SampledEven, hcopying] at h
    rw [writeInProgress_iff] at hbusy
    omega

/-- The turns a reader may still take before it loads from a quiet slot. -/
def rank (reader : Reader T) (slot : SeqlockSlot T) : ℕ :=
  match reader.pc with
  | .idle => kWordCount T + 3
  | .sampling _ _ => kWordCount T + 2
  | .copying _ _ before _ index =>
    kWordCount T + 1 - index + if before = slot.sequence then 0 else kWordCount T + 4

theorem nextAttempt_rank (out : T) (most attempt : ℕ) (slot : SeqlockSlot T) :
    (nextAttempt out most attempt).1.rank slot ≤ kWordCount T + 3 := by
  unfold nextAttempt
  split_ifs <;> simp [rank]

/-- On a quiet slot every turn of a reader loads or brings the next load closer. -/
theorem step_rank (reader : Reader T) {slot : SeqlockSlot T} (hquiet : ¬ slot.WriteInProgress)
    (out : T) {maxAttempts : ℕ} (hmax : 0 < maxAttempts) :
    (reader.step slot out maxAttempts).2 = .loaded true ∨
      (reader.step slot out maxAttempts).1.rank slot < reader.rank slot := by
  have hout := reader.step_outcome slot out maxAttempts
  generalize reader.step slot out maxAttempts = result at hout
  cases hout with
  | call hidle =>
    right
    simp [nextAttempt, hmax, rank, hidle]
  | collide _ hbusy => exact absurd hbusy hquiet
  | sample hsampling =>
    right
    simp [rank, hsampling]
  | copy hcopying h =>
    right
    simp only [rank, hcopying]
    omega
  | accept => exact Or.inl rfl
  | retry hcopying hdone hmoved =>
    right
    refine (nextAttempt_rank ..).trans_lt ?_
    simp only [rank, hcopying, if_neg (Ne.symm hmoved)]
    omega

/-- A load that has not succeeded has not touched its output. -/
def Untouched (reader : Reader T) (out : T) : Prop := reader.pc = .idle ∨ reader.out = out

theorem nextAttempt_out (out : T) (most attempt : ℕ) :
    (nextAttempt out most attempt).1.out = out := by
  unfold nextAttempt
  split_ifs <;> rfl

theorem Untouched.step {reader : Reader T} {out : T} (h : reader.Untouched out)
    (slot : SeqlockSlot T) (maxAttempts : ℕ)
    (hevent : (reader.step slot out maxAttempts).2 ≠ .loaded true) :
    (reader.step slot out maxAttempts).1.out = out := by
  have hout := reader.step_outcome slot out maxAttempts
  generalize reader.step slot out maxAttempts = result at hout hevent
  cases hout with
  | call => exact nextAttempt_out ..
  | collide hpc | sample hpc | copy hpc | retry hpc =>
    obtain hidle | hsame := h
    · rw [hpc] at hidle
      simp at hidle
    · simp [nextAttempt_out, hsame]
  | accept => exact absurd rfl hevent

end Reader
end SafeEdge.Ipc
