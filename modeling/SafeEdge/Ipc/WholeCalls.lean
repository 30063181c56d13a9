import SafeEdge.Ipc.QuietSlot

/-! Calls that run undisturbed: a load from a slot that stays as it is, and stores of a writer
that nobody else takes a turn between. -/
namespace SafeEdge.Ipc
open Library TriviallyCopyable

namespace Reader
variable {T : Type*} [TriviallyCopyable T]

/-- A call that began on this very slot and needs `left` more turns. -/
def Midway (reader : Reader T) (slot : SeqlockSlot T) (left : ℕ) : Prop :=
  match reader.pc with
  | .idle => False
  | .sampling _ _ => left = kWordCount T + 2
  | .copying _ _ before staging index => before = slot.sequence ∧
      left + index = kWordCount T + 1 ∧ ∀ i, i.val < index → staging i = slot.words i

theorem Midway.busy {reader : Reader T} {slot : SeqlockSlot T} {left : ℕ}
    (h : reader.Midway slot left) : reader.pc ≠ .idle := by
  intro hidle
  simp [Midway, hidle] at h

theorem call_midway {reader : Reader T} (hidle : reader.pc = .idle) (slot : SeqlockSlot T)
    (out : T) {maxAttempts : ℕ} (hmax : 0 < maxAttempts) :
    (reader.step slot out maxAttempts).1.Midway slot (kWordCount T + 2) := by
  simp [step, hidle, nextAttempt, hmax, Midway]

/-- On a quiet slot every turn brings the call closer to its end. -/
theorem Midway.step {reader : Reader T} {slot : SeqlockSlot T} {left : ℕ}
    (h : reader.Midway slot (left + 2)) (hquiet : ¬ slot.WriteInProgress) (out : T)
    (maxAttempts : ℕ) : (reader.step slot out maxAttempts).1.Midway slot (left + 1) := by
  have hout := reader.step_outcome slot out maxAttempts
  generalize reader.step slot out maxAttempts = result at hout
  cases hout with
  | call hidle => exact absurd hidle h.busy
  | collide _ hbusy => exact absurd hbusy hquiet
  | sample hsampling =>
    simp only [Midway, hsampling] at h ⊢
    exact ⟨trivial, by omega, fun i hi => absurd hi (Nat.not_lt_zero _)⟩
  | copy hcopying hindex =>
    simp only [Midway, hcopying] at h ⊢
    obtain ⟨hbefore, hleft, hcopied⟩ := h
    exact ⟨hbefore, by omega, update_agrees hindex hcopied⟩
  | accept hcopying hdone =>
    simp only [Midway, hcopying] at h
    omega
  | retry hcopying _ hmoved =>
    simp only [Midway, hcopying] at h
    exact absurd h.1.symm hmoved

/-- The last turn of the call loads the words of the slot. -/
theorem Midway.accepts {reader : Reader T} {slot : SeqlockSlot T} (h : reader.Midway slot 1)
    (out : T) (maxAttempts : ℕ) :
    reader.step slot out maxAttempts = ({ out := ofWords slot.words }, .loaded true) := by
  have hout := reader.step_outcome slot out maxAttempts
  generalize reader.step slot out maxAttempts = result at hout
  cases hout with
  | call hidle => exact absurd hidle h.busy
  | collide hsampling | sample hsampling =>
    simp only [Midway, hsampling] at h
    omega
  | copy hcopying hindex =>
    simp only [Midway, hcopying] at h
    omega
  | @accept most attempt staging index hcopying hdone =>
    simp only [Midway, hcopying] at h
    have hstaging : staging = slot.words := by
      funext i
      exact h.2.2 i (by omega)
    rw [hstaging]
  | retry hcopying _ hmoved =>
    simp only [Midway, hcopying] at h
    exact absurd h.1.symm hmoved

/-- The turns a busy reader may still take under an odd counter before it gives up. -/
def patience (reader : Reader T) : ℕ :=
  match reader.pc with
  | .idle => 0
  | .sampling most attempt => most - attempt + 1
  | .copying most attempt _ _ index => most - attempt + 2 + (kWordCount T + 1 - index)

theorem nextAttempt_patience (out : T) (most attempt : ℕ) :
    (nextAttempt out most (attempt + 1)).1.patience < most - attempt + 1 := by
  unfold nextAttempt
  split_ifs with hmore
  · simp only [patience]
    omega
  · exact Nat.succ_pos _

theorem step_patience {reader : Reader T} {slot : SeqlockSlot T} (hbusy : slot.WriteInProgress)
    (hpc : reader.pc ≠ .idle) (out : T) (maxAttempts : ℕ) :
    (reader.step slot out maxAttempts).1.patience < reader.patience := by
  have hout := reader.step_outcome slot out maxAttempts
  generalize reader.step slot out maxAttempts = result at hout
  cases hout with
  | call hidle => exact absurd hidle hpc
  | sample _ hquiet => exact absurd hbusy hquiet
  | @collide most attempt hsampling =>
    simpa only [patience, hsampling] using nextAttempt_patience reader.out most attempt
  | copy hcopying hindex =>
    simp only [patience, hcopying]
    omega
  | accept hcopying =>
    simp only [patience, hcopying]
    omega
  | @retry most attempt before staging index hcopying =>
    have hnext := nextAttempt_patience reader.out most attempt
    simp only [patience, hcopying] at hnext ⊢
    omega

end Reader

namespace Execution
variable {ι T : Type*} [DecidableEq ι] [TriviallyCopyable T]

section Turns
variable (schedule : ℕ → Turn ι T)

/-- The turns the reader takes from turn `first` up to turn `k`. -/
def turns (id : ι) (first k : ℕ) : ℕ :=
  ∑ j ∈ Finset.Ico first k, if (schedule j).isReader id then 1 else 0

omit [TriviallyCopyable T] in
theorem turns_succ (id : ι) {first k : ℕ} (h : first ≤ k) :
    turns schedule id first (k + 1) =
      turns schedule id first k + if (schedule k).isReader id then 1 else 0 :=
  Finset.sum_Ico_succ_top h _

omit [TriviallyCopyable T] in
theorem turns_mono (id : ι) (first : ℕ) {j k : ℕ} (h : j ≤ k) :
    turns schedule id first j ≤ turns schedule id first k :=
  Finset.sum_le_sum_of_subset (Finset.Ico_subset_Ico_right h)

end Turns

section Load
variable {e : Execution ι T} {schedule : ℕ → Turn ι T} {id : ι} {out : T}
  {maxAttempts first : ℕ}

/-- A call on a slot that stays as it is gets as far as the reader takes turns. -/
theorem midway_executionAt (hstarted : schedule first = .reader id out maxAttempts)
    (hidle : ((e.executionAt schedule first).readers id).pc = .idle) (hmax : 0 < maxAttempts)
    {slot : SeqlockSlot T} (hquiet : ¬ slot.WriteInProgress) {j : ℕ} (hj : first + 1 ≤ j)
    (hslot : ∀ i, first ≤ i → i < j → (e.executionAt schedule i).slot = slot) {left : ℕ}
    (hleft : turns schedule id first j + (left + 1) = kWordCount T + 3) :
    ((e.executionAt schedule j).readers id).Midway slot (left + 1) := by
  induction j, hj using Nat.le_induction generalizing left with
  | base =>
    have hone : turns schedule id first (first + 1) = 1 := by
      simp [turns, hstarted, Turn.isReader]
    obtain rfl : left = kWordCount T + 1 := by omega
    rw [executionAt_succ, hstarted, step_reader_self, hslot first le_rfl (Nat.lt_succ_self _)]
    exact Reader.call_midway hidle slot out hmax
  | succ j hj ih =>
    rw [turns_succ schedule id (by omega)] at hleft
    have hbefore := fun left hleft => @ih (fun i hi hij => hslot i hi (by omega)) left hleft
    have hout := (e.executionAt schedule j).step_readerOutcome (schedule j) id
    rw [executionAt_succ]
    generalize ((e.executionAt schedule j).step (schedule j)).1.readers id = next at hout
    generalize schedule j = turn at hout hleft
    cases hout with
    | own o m =>
      simp only [Turn.isReader, decide_true, if_true] at hleft
      rw [hslot j (by omega) (Nat.lt_succ_self j)]
      exact (hbefore (left + 1) (by omega)).step hquiet o m
    | other hother =>
      simp only [hother, Bool.false_eq_true, if_false] at hleft
      exact hbefore left hleft

/-- A call on a quiet slot that stays as it is returns the value in it, once the reader has
taken a turn for each word and three more. -/
theorem load_of_quiet (hstarted : schedule first = .reader id out maxAttempts)
    (hidle : ((e.executionAt schedule first).readers id).pc = .idle) (hmax : 0 < maxAttempts)
    {slot : SeqlockSlot T} (hquiet : ¬ slot.WriteInProgress) {k : ℕ} (hle : first ≤ k)
    (hslot : ∀ i, first ≤ i → i < k → (e.executionAt schedule i).slot = slot)
    (hturns : kWordCount T + 3 ≤ turns schedule id first k) :
    ∃ last < k, e.Calls schedule id out maxAttempts first last ∧
      e.Returns schedule id last true ∧
      ((e.executionAt schedule (last + 1)).readers id).out = ofWords slot.words := by
  obtain ⟨last, hfirst, hlast, hbefore, hreached⟩ :=
    exists_rise (p := fun j => kWordCount T + 3 ≤ turns schedule id first j) hle
      (by simp [turns]) hturns
  have hmidway : ∀ j, first < j → j ≤ last →
      ∃ left, ((e.executionAt schedule j).readers id).Midway slot (left + 1) ∧
        turns schedule id first j + (left + 1) = kWordCount T + 3 := by
    intro j hj hjlast
    have hmono := turns_mono schedule id first hjlast
    obtain ⟨left, hleft⟩ := Nat.exists_eq_add_of_le
      (show turns schedule id first j + 1 ≤ kWordCount T + 3 by omega)
    refine ⟨left, ?_, by omega⟩
    exact midway_executionAt hstarted hidle hmax hquiet hj
      (fun i hi hij => hslot i hi (by omega)) (by omega)
  rw [turns_succ schedule id hfirst] at hreached
  cases hturn : schedule last with
  | writer value =>
    simp only [hturn, Turn.isReader, Bool.false_eq_true, if_false] at hreached
    omega
  | reader other o m =>
    by_cases hself : other = id
    swap
    · simp only [hturn, Turn.isReader, hself, decide_false, Bool.false_eq_true,
        if_false] at hreached
      omega
    subst hself
    simp only [hturn, Turn.isReader, decide_true, if_true] at hreached
    have hlater : first < last := by
      rcases hfirst.lt_or_eq with hlt | rfl
      · exact hlt
      · simp [turns] at hreached
    obtain ⟨left, hcall, hleft⟩ := hmidway last hlater le_rfl
    obtain rfl : left = 0 := by omega
    have hend := hcall.accepts o m
    rw [← hslot last hfirst hlast] at hend
    refine ⟨last, hlast, ⟨hstarted, hidle, hfirst, fun j hj hjlast => ?_⟩,
      ⟨⟨o, m, hturn⟩, ?_⟩, ?_⟩
    · obtain ⟨_, hcall, _⟩ := hmidway j hj hjlast
      exact hcall.busy
    · rw [eventAt, hturn]
      exact congrArg Prod.snd hend
    · rw [executionAt_succ, hturn, step_reader_self, hend, hslot last hfirst hlast]

end Load

section Store
variable {e : Execution ι T} {schedule : ℕ → Turn ι T} {value : T} {first : ℕ}

/-- Inside a store that runs undisturbed. -/
theorem writing_of_idle (hidle : (e.executionAt schedule first).writer = .idle)
    (hturns : ∀ j < kWordCount T + 3, schedule (first + j) = .writer value) {index : ℕ}
    (hindex : index ≤ kWordCount T) :
    (e.executionAt schedule (first + (index + 2))).writer =
        .writing value (e.executionAt schedule first).slot.sequence index ∧
      (∀ i, i.val < index →
        (e.executionAt schedule (first + (index + 2))).slot.words i = toWords value i) ∧
      (e.executionAt schedule (first + (index + 2))).readers =
        (e.executionAt schedule first).readers := by
  induction index with
  | zero =>
    have hturn : schedule first = .writer value := hturns 0 (Nat.succ_pos _)
    have hload : (e.executionAt schedule (first + 1)).writer =
        .loaded value (e.executionAt schedule first).slot.sequence := by
      rw [executionAt_succ, hturn, step, writerStep, hidle]
    rw [show first + (0 + 2) = first + 1 + 1 from rfl, executionAt_succ,
      hturns 1 (by omega)]
    refine ⟨by rw [step, writerStep, hload], fun i hi => absurd hi (Nat.not_lt_zero _), ?_⟩
    rw [step_writer_readers, executionAt_succ, hturn, step_writer_readers]
  | succ index ih =>
    obtain ⟨hwriter, hwords, hreaders⟩ := ih (Nat.le_of_succ_le hindex)
    rw [show first + (index + 1 + 2) = first + (index + 2) + 1 from rfl, executionAt_succ,
      hturns (index + 2) (by omega), step_writer_readers]
    refine ⟨?_, ?_, hreaders⟩
    · rw [step, writerStep, hwriter]
      simp [show index < kWordCount T by omega]
    · rw [step, writerStep, hwriter]
      simp only [show index < kWordCount T by omega, dite_true]
      exact update_agrees _ hwords

/-- A whole store that runs undisturbed. -/
theorem stored_of_idle (hidle : (e.executionAt schedule first).writer = .idle)
    (hturns : ∀ j < kWordCount T + 3, schedule (first + j) = .writer value) :
    e.eventAt schedule (first + (kWordCount T + 2)) = .stored ∧
      (e.executionAt schedule (first + (kWordCount T + 3))).writer = .idle ∧
      (e.executionAt schedule (first + (kWordCount T + 3))).slot.sequence =
        (e.executionAt schedule first).slot.sequence + 2 ∧
      (e.executionAt schedule (first + (kWordCount T + 3))).slot.words = toWords value ∧
      (e.executionAt schedule (first + (kWordCount T + 3))).readers =
        (e.executionAt schedule first).readers := by
  obtain ⟨hwriter, hwords, hreaders⟩ := writing_of_idle hidle hturns le_rfl
  have hturn := hturns (kWordCount T + 2) (Nat.lt_succ_self _)
  rw [show first + (kWordCount T + 3) = first + (kWordCount T + 2) + 1 from rfl,
    executionAt_succ, eventAt, hturn, step_writer_readers, step, writerStep, hwriter]
  simp only [lt_irrefl, dite_false]
  refine ⟨trivial, trivial, trivial, ?_, hreaders⟩
  funext i
  exact hwords i i.isLt

/-- Any number of stores one after the other. -/
theorem stores_of_idle (hidle : (e.executionAt schedule first).writer = .idle) {n : ℕ}
    (hturns : ∀ j < n * (kWordCount T + 3), schedule (first + j) = .writer value) :
    (e.executionAt schedule (first + n * (kWordCount T + 3))).writer = .idle ∧
      (e.executionAt schedule (first + n * (kWordCount T + 3))).slot.sequence =
        (e.executionAt schedule first).slot.sequence + UInt64.ofNat (2 * n) ∧
      (0 < n → (e.executionAt schedule (first + n * (kWordCount T + 3))).slot.words =
        toWords value) ∧
      (e.executionAt schedule (first + n * (kWordCount T + 3))).readers =
        (e.executionAt schedule first).readers := by
  induction n with
  | zero =>
    rw [Nat.zero_mul, Nat.add_zero]
    exact ⟨hidle, by simp, fun h => absurd h (lt_irrefl 0), rfl⟩
  | succ n ih =>
    rw [Nat.succ_mul] at hturns
    obtain ⟨hwriter, hsequence, _, hreaders⟩ := ih fun j hj => hturns j (by omega)
    obtain ⟨_, hwriter, hnext, hwords, hsame⟩ := stored_of_idle hwriter fun j hj => by
      rw [Nat.add_assoc]
      exact hturns _ (by omega)
    rw [Nat.succ_mul, ← Nat.add_assoc]
    refine ⟨hwriter, ?_, fun _ => hwords, hsame.trans hreaders⟩
    rw [hnext, hsequence, Nat.mul_succ, UInt64.ofNat_add, UInt64.add_assoc]
    rfl

end Store
end Execution
end SafeEdge.Ipc
