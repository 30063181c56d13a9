import SafeEdge.Ipc.SeqlockSlot

/-! What the readers of a slot can load: as long as the counter does not wrap, a load that
succeeds returns the publication that is the latest when the counter is sampled again. -/
namespace SafeEdge.Ipc
open Library TriviallyCopyable

theorem writeInProgress_iff {T : Type*} [TriviallyCopyable T] (slot : SeqlockSlot T) :
    slot.WriteInProgress ↔ slot.sequence.toNat % 2 = 1 := by
  have hbit : (slot.sequence &&& 1).toNat = slot.sequence.toNat % 2 := by
    rw [UInt64.toNat_and, UInt64.toNat_one, Nat.and_one_is_mod]
  rw [SeqlockSlot.WriteInProgress, Ne, ← UInt64.toNat_inj, hbit, UInt64.toNat_zero]
  omega

/-- Writing the next entry extends the part on which two arrays agree. -/
theorem update_agrees {n : ℕ} {α : Type*} {f g : Fin n → α} {index : ℕ} (h : index < n)
    (hagree : ∀ i, i.val < index → f i = g i) :
    ∀ i, i.val < index + 1 → Function.update f ⟨index, h⟩ (g ⟨index, h⟩) i = g i := by
  intro i hi
  by_cases hlast : i.val = index
  · obtain rfl : i = ⟨index, h⟩ := Fin.ext hlast
    exact Function.update_self ..
  · rw [Function.update_of_ne fun heq => hlast (congrArg Fin.val heq)]
    exact hagree i (by omega)

/-- How a step may change the slot under a reader. -/
inductive SlotChange {T : Type*} [TriviallyCopyable T] (slot : SeqlockSlot T) :
    SeqlockSlot T → Prop
  | unchanged : SlotChange slot slot
  | advanced {next : SeqlockSlot T} (h : slot.sequence.toNat < next.sequence.toNat) :
      SlotChange slot next
  | overwritten {next : SeqlockSlot T} (hsame : next.sequence = slot.sequence)
      (hodd : slot.sequence.toNat % 2 = 1) : SlotChange slot next

namespace Reader
variable {T : Type*} [TriviallyCopyable T]

/-- A copy begun under an even counter agrees with the slot as far as it goes, unless the
counter has moved. -/
def Consistent (reader : Reader T) (slot : SeqlockSlot T) : Prop :=
  match reader.pc with
  | .idle | .sampling _ _ => True
  | .copying _ _ before staging index =>
    before.toNat % 2 = 0 ∧ before.toNat ≤ slot.sequence.toNat ∧
      (slot.sequence = before → ∀ i, i.val < index → staging i = slot.words i)

theorem Consistent.slotChange {reader : Reader T} {slot next : SeqlockSlot T}
    (h : reader.Consistent slot) (hchange : SlotChange slot next) : reader.Consistent next := by
  unfold Consistent at h ⊢
  cases hpc : reader.pc with
  | idle | sampling => trivial
  | copying most attempt before staging index =>
    simp only [hpc] at h ⊢
    obtain ⟨heven, hle, hcopied⟩ := h
    cases hchange with
    | unchanged => exact ⟨heven, hle, hcopied⟩
    | advanced hlt =>
      refine ⟨heven, by omega, ?_⟩
      rintro rfl
      omega
    | overwritten hsame hodd =>
      refine ⟨heven, by rwa [hsame], ?_⟩
      rintro rfl
      rw [hsame] at heven
      omega

theorem nextAttempt_consistent (out : T) (most attempt : ℕ) (slot : SeqlockSlot T) :
    (nextAttempt out most attempt).1.Consistent slot := by
  unfold nextAttempt
  split_ifs <;> trivial

theorem nextAttempt_not_loaded (out : T) (most attempt : ℕ) :
    (nextAttempt out most attempt).2 ≠ .loaded true := by
  unfold nextAttempt
  split_ifs <;> simp

theorem nextAttempt_idle {out : T} {most attempt : ℕ} {success : Bool}
    (h : (nextAttempt out most attempt).2 = .loaded success) :
    (nextAttempt out most attempt).1.pc = .idle := by
  unfold nextAttempt at h ⊢
  split_ifs at h ⊢
  rfl

/-- A reader that returns is idle again. -/
theorem idle_of_loaded {reader : Reader T} {slot : SeqlockSlot T} {out : T} {maxAttempts : ℕ}
    {success : Bool} (h : (reader.step slot out maxAttempts).2 = .loaded success) :
    (reader.step slot out maxAttempts).1.pc = .idle := by
  have hout := reader.step_outcome slot out maxAttempts
  generalize reader.step slot out maxAttempts = result at hout h
  cases hout with
  | call | collide | retry => exact nextAttempt_idle h
  | sample | copy => simp at h
  | accept => rfl

theorem Consistent.step {reader : Reader T} {slot : SeqlockSlot T} (h : reader.Consistent slot)
    (out : T) (maxAttempts : ℕ) : (reader.step slot out maxAttempts).1.Consistent slot := by
  have hout := reader.step_outcome slot out maxAttempts
  generalize reader.step slot out maxAttempts = result at hout
  cases hout with
  | call | collide | retry => exact nextAttempt_consistent ..
  | sample hsampling hquiet =>
    rw [writeInProgress_iff] at hquiet
    exact ⟨by omega, le_rfl, fun _ i hi => absurd hi (Nat.not_lt_zero _)⟩
  | @copy most attempt before staging index hcopying hindex =>
    simp only [Consistent, hcopying] at h
    obtain ⟨heven, hle, hcopied⟩ := h
    exact ⟨heven, hle, fun hsame => update_agrees hindex (hcopied hsame)⟩
  | accept => trivial

end Reader

namespace Execution
variable {ι T : Type*} [DecidableEq ι] [TriviallyCopyable T]

/-- The counter tells how many publications are complete, and between stores the words are
those of the latest one. -/
def WriterConsistent (e : Execution ι T) : Prop :=
  match e.writer with
  | .idle => e.slot.sequence.toNat = 2 * e.published.length ∧
      e.slot.words = latestWords e.published
  | .loaded _ start => start = e.slot.sequence ∧
      e.slot.sequence.toNat = 2 * e.published.length ∧ e.slot.words = latestWords e.published
  | .writing value start index => start.toNat = 2 * e.published.length ∧
      e.slot.sequence.toNat = 2 * e.published.length + 1 ∧
      ∀ i, i.val < index → e.slot.words i = toWords value i

structure Consistent (e : Execution ι T) : Prop where
  writer : e.WriterConsistent
  readers : ∀ id, (e.readers id).Consistent e.slot

omit [DecidableEq ι] in
theorem latestWords_concat (published : List T) (value : T) :
    latestWords (published ++ [value]) = toWords value := by
  simp [latestWords]

/-- An access of the writer keeps its own invariant, and moves the counter or writes under an
odd one. -/
theorem WriterConsistent.step {e : Execution ι T} (h : e.WriterConsistent) (value : T)
    (hstores : (e.step (.writer value)).1.stores < 2 ^ 63) :
    (e.step (.writer value)).1.WriterConsistent ∧
      SlotChange e.slot (e.step (.writer value)).1.slot := by
  have hout := e.writerStep_outcome value
  simp only [Execution.step] at hstores ⊢
  generalize e.writerStep value = result at hout hstores
  cases hout with
  | load hidle =>
    simp only [WriterConsistent, hidle] at h ⊢
    exact ⟨⟨trivial, h⟩, .unchanged⟩
  | @mark stored start hloaded =>
    simp only [WriterConsistent, hloaded] at h ⊢
    obtain ⟨rfl, hcounter, _⟩ := h
    simp only [stores] at hstores
    have hodd : (e.slot.sequence + 1).toNat = 2 * e.published.length + 1 := by
      rw [UInt64.toNat_add, UInt64.toNat_one, hcounter]
      omega
    exact ⟨⟨hcounter, hodd, fun i hi => absurd hi (Nat.not_lt_zero _)⟩,
      .advanced (by simp only; omega)⟩
  | @write stored start index hwriting hindex =>
    simp only [WriterConsistent, hwriting] at h ⊢
    obtain ⟨hstart, hcounter, hwritten⟩ := h
    exact ⟨⟨hstart, hcounter, update_agrees hindex hwritten⟩, .overwritten rfl (by omega)⟩
  | @publish stored start index hwriting hdone =>
    simp only [WriterConsistent, hwriting] at h ⊢
    obtain ⟨hstart, hcounter, hwritten⟩ := h
    simp only [stores, List.length_append, List.length_singleton] at hstores
    have heven : (start + 2).toNat = 2 * e.published.length + 2 := by
      have htwo : (2 : UInt64).toNat = 2 := rfl
      rw [UInt64.toNat_add, htwo, hstart]
      omega
    refine ⟨⟨?_, ?_⟩, .advanced (by simp only; omega)⟩
    · rw [heven, List.length_append, List.length_singleton]
      omega
    · rw [latestWords_concat]
      funext i
      exact hwritten i (by omega)

omit [DecidableEq ι] in
/-- Under an even counter the slot holds the latest publication. -/
theorem WriterConsistent.of_even {e : Execution ι T} (h : e.WriterConsistent)
    (heven : e.slot.sequence.toNat % 2 = 0) :
    e.slot.sequence.toNat = 2 * e.published.length ∧
      e.slot.words = latestWords e.published := by
  unfold WriterConsistent at h
  cases hpc : e.writer with
  | idle => simpa only [hpc] using h
  | loaded value start =>
    simp only [hpc] at h
    exact h.2
  | writing value start index =>
    simp only [hpc] at h
    omega

theorem Consistent.step {e : Execution ι T} (h : e.Consistent) (turn : Turn ι T)
    (hstores : (e.step turn).1.stores < 2 ^ 63) : (e.step turn).1.Consistent := by
  cases turn with
  | writer value =>
    obtain ⟨hwriter, hchange⟩ := h.writer.step value hstores
    refine ⟨hwriter, fun id => ?_⟩
    rw [step_writer_readers]
    exact (h.readers id).slotChange hchange
  | reader id out maxAttempts =>
    refine ⟨h.writer, fun other => ?_⟩
    rw [step_reader_slot]
    have hout := e.step_readerOutcome (.reader id out maxAttempts) other
    generalize (e.step (.reader id out maxAttempts)).1.readers other = next at hout
    cases hout with
    | own => exact (h.readers id).step out maxAttempts
    | other => exact h.readers other

theorem published_step (e : Execution ι T) (turn : Turn ι T) :
    e.published.length ≤ (e.step turn).1.published.length := by
  cases turn with
  | reader id out maxAttempts => exact le_rfl
  | writer value =>
    have hout := e.writerStep_outcome value
    simp only [step]
    generalize e.writerStep value = result at hout
    cases hout with
    | publish => simp
    | _ => exact le_rfl

theorem stores_step (e : Execution ι T) (turn : Turn ι T) :
    e.stores ≤ (e.step turn).1.stores := by
  cases turn with
  | reader id out maxAttempts => exact le_rfl
  | writer value =>
    have hout := e.writerStep_outcome value
    simp only [step]
    generalize e.writerStep value = result at hout
    cases hout with
    | load hpc | mark hpc | write hpc | publish hpc => simp [stores, hpc]

section Run
variable (e : Execution ι T) (schedule : ℕ → Turn ι T)

theorem published_mono :
    Monotone fun n => (e.executionAt schedule n).published.length :=
  monotone_nat_of_le_succ fun n => published_step _ (schedule n)

theorem stores_mono : Monotone fun n => (e.executionAt schedule n).stores :=
  monotone_nat_of_le_succ fun n => stores_step _ (schedule n)

omit [DecidableEq ι] in
theorem initial_consistent (outs : ι → T) : (initial outs).Consistent :=
  ⟨⟨rfl, rfl⟩, fun _ => trivial⟩

theorem executionAt_consistent {e : Execution ι T} (h : e.Consistent) {n : ℕ}
    (hstores : (e.executionAt schedule n).stores < 2 ^ 63) :
    (e.executionAt schedule n).Consistent := by
  induction n with
  | zero => exact h
  | succ n ih =>
    have hbefore : (e.executionAt schedule n).stores < 2 ^ 63 :=
      (e.stores_mono schedule (Nat.le_succ n)).trans_lt hstores
    exact (ih hbefore).step (schedule n) hstores

/-- Turn `k` is the last of a `tryLoad` of the reader, which returns `success`. -/
def Returns (id : ι) (k : ℕ) (success : Bool) : Prop :=
  (∃ out maxAttempts, schedule k = .reader id out maxAttempts) ∧
    e.eventAt schedule k = .loaded success

/-- Turn `first` starts a `tryLoad` with the arguments given, and the call has not returned
before turn `k`. -/
structure Calls (id : ι) (out : T) (maxAttempts first k : ℕ) : Prop where
  started : schedule first = .reader id out maxAttempts
  idle : ((e.executionAt schedule first).readers id).pc = .idle
  le : first ≤ k
  busy : ∀ j, first < j → j ≤ k → ((e.executionAt schedule j).readers id).pc ≠ .idle

/-- The turn samples the counter at the start of an attempt of the reader. -/
def startsAttempt (id : ι) : Turn ι T → Bool
  | .writer _ => false
  | .reader other _ _ => other = id &&
    match (e.readers id).pc with
    | .sampling _ _ => true
    | .idle | .copying _ _ _ _ _ => false

/-- The attempts the reader starts from turn `first` up to turn `k`. -/
def attempts (id : ι) (first k : ℕ) : ℕ :=
  ∑ j ∈ Finset.Ico first k,
    if (e.executionAt schedule j).startsAttempt id (schedule j) then 1 else 0

theorem attempts_succ (id : ι) {first k : ℕ} (h : first ≤ k) :
    e.attempts schedule id first (k + 1) = e.attempts schedule id first k +
      if (e.executionAt schedule k).startsAttempt id (schedule k) then 1 else 0 :=
  Finset.sum_Ico_succ_top h _

end Run

/-- The reader's output variable and the attempts it has started, by where it stands. -/
def InCall (reader : Reader T) (out : T) (maxAttempts attempts : ℕ) : Prop :=
  reader.out = out ∧
    match reader.pc with
    | .idle => attempts = maxAttempts
    | .sampling most attempt => most = maxAttempts ∧ attempt = attempts ∧ attempt < most
    | .copying most attempt _ _ _ => most = maxAttempts ∧ attempt + 1 = attempts ∧ attempt < most

omit [DecidableEq ι] in
theorem nextAttempt_inCall (out : T) {maxAttempts attempts : ℕ} (h : attempts ≤ maxAttempts) :
    InCall (Reader.nextAttempt out maxAttempts attempts).1 out maxAttempts attempts := by
  unfold Reader.nextAttempt InCall
  split_ifs with hmore
  · exact ⟨rfl, rfl, rfl, hmore⟩
  · exact ⟨rfl, by omega⟩

theorem idle_of_returns {e : Execution ι T} {schedule : ℕ → Turn ι T} {id : ι} {k : ℕ}
    {success : Bool} (h : e.Returns schedule id k success) :
    ((e.executionAt schedule (k + 1)).readers id).pc = .idle := by
  obtain ⟨⟨out, maxAttempts, hturn⟩, hevent⟩ := h
  rw [executionAt_succ, hturn, step_reader_self]
  rw [eventAt, hturn] at hevent
  exact Reader.idle_of_loaded hevent

/-- The reader's own turn during a call either keeps the account of its attempts or accepts a
value. -/
theorem InCall.step_self {e : Execution ι T} {id : ι} {out : T} {maxAttempts attempts : ℕ}
    (h : InCall (e.readers id) out maxAttempts attempts) (hbusy : (e.readers id).pc ≠ .idle)
    (o : T) (m : ℕ) :
    InCall ((e.step (.reader id o m)).1.readers id) out maxAttempts
        (attempts + if e.startsAttempt id (.reader id o m) then 1 else 0) ∨
      (e.step (.reader id o m)).2 = .loaded true := by
  have hout := (e.readers id).step_outcome e.slot o m
  have hevent : (e.step (.reader id o m)).2 = ((e.readers id).step e.slot o m).2 := rfl
  rw [step_reader_self, hevent]
  simp only [startsAttempt, decide_true, Bool.true_and]
  generalize (e.readers id).step e.slot o m = result at hout
  obtain ⟨rfl, hpc⟩ := h
  cases hout with
  | call hidle => exact absurd hidle hbusy
  | collide hsampling =>
    simp only [hsampling] at hpc ⊢
    obtain ⟨rfl, rfl, hlt⟩ := hpc
    exact Or.inl (nextAttempt_inCall _ hlt)
  | sample hsampling =>
    simp only [hsampling] at hpc ⊢
    obtain ⟨rfl, rfl, hlt⟩ := hpc
    exact Or.inl ⟨rfl, rfl, rfl, hlt⟩
  | copy hcopying =>
    simp only [hcopying] at hpc ⊢
    exact Or.inl ⟨rfl, hpc⟩
  | accept => exact Or.inr rfl
  | retry hcopying =>
    simp only [hcopying] at hpc ⊢
    obtain ⟨rfl, rfl, hlt⟩ := hpc
    exact Or.inl (nextAttempt_inCall _ hlt)

/-- Nobody else's turn touches the account. -/
theorem InCall.step {e : Execution ι T} {id : ι} {out : T} {maxAttempts attempts : ℕ}
    (h : InCall (e.readers id) out maxAttempts attempts) (hbusy : (e.readers id).pc ≠ .idle)
    (turn : Turn ι T) :
    InCall ((e.step turn).1.readers id) out maxAttempts
        (attempts + if e.startsAttempt id turn then 1 else 0) ∨
      ((∃ o m, turn = .reader id o m) ∧ (e.step turn).2 = .loaded true) := by
  cases turn with
  | writer value =>
    rw [step_writer_readers]
    exact Or.inl h
  | reader other o m =>
    by_cases hself : other = id
    · subst hself
      exact (h.step_self hbusy o m).imp_right fun hevent => ⟨⟨o, m, rfl⟩, hevent⟩
    · have hother : id ≠ other := fun heq => hself heq.symm
      rw [step_reader_of_ne e hother]
      simp only [startsAttempt, decide_eq_false hself, Bool.false_and]
      exact Or.inl h

/-- A call that fails keeps its account up to its last turn. -/
theorem Calls.inCall {e : Execution ι T} {schedule : ℕ → Turn ι T} {id : ι} {out : T}
    {maxAttempts first k : ℕ} (hcalls : e.Calls schedule id out maxAttempts first k)
    (hfails : e.Returns schedule id k false) {j : ℕ} (hj : first + 1 ≤ j) (hjk : j ≤ k + 1) :
    InCall ((e.executionAt schedule j).readers id) out maxAttempts
      (e.attempts schedule id first j) := by
  induction j, hj using Nat.le_induction with
  | base =>
    have hnone : e.attempts schedule id first (first + 1) = 0 := by
      rw [attempts_succ e schedule id le_rfl, hcalls.started]
      simp [startsAttempt, hcalls.idle, attempts]
    have hstart : ((e.executionAt schedule first).readers id).step
        (e.executionAt schedule first).slot out maxAttempts =
          Reader.nextAttempt out maxAttempts 0 := by
      rw [Reader.step, hcalls.idle]
    rw [executionAt_succ, hcalls.started, step_reader_self, hstart, hnone]
    exact nextAttempt_inCall out (Nat.zero_le _)
  | succ j hj ih =>
    have hbusy := hcalls.busy j (by omega) (by omega)
    rw [attempts_succ e schedule id (by omega), executionAt_succ]
    rcases (ih (by omega)).step hbusy (schedule j) with hnext | ⟨hturn, hevent⟩
    · exact hnext
    · exfalso
      have hsuccess : e.Returns schedule id j true := ⟨hturn, hevent⟩
      rcases (show j ≤ k by omega).lt_or_eq with hlt | rfl
      · exact hcalls.busy (j + 1) (by omega) (by omega) (idle_of_returns hsuccess)
      · have hboth := hsuccess.2.symm.trans hfails.2
        simp at hboth

/-- A reader whose second sample of the counter equals the first holds the latest
publication. -/
theorem Consistent.accepts {e : Execution ι T} (h : e.Consistent) {id : ι} {out : T}
    {maxAttempts : ℕ} (hevent : (e.step (.reader id out maxAttempts)).2 = .loaded true) :
    ((e.step (.reader id out maxAttempts)).1.readers id).out = latest e.published ∧
      e.slot.generation.toNat = e.published.length := by
  have hreader : ((e.readers id).step e.slot out maxAttempts).2 = .loaded true := hevent
  have hconsistent := h.readers id
  have hout := (e.readers id).step_outcome e.slot out maxAttempts
  rw [step_reader_self]
  generalize (e.readers id).step e.slot out maxAttempts = result at hout hreader
  cases hout with
  | call | collide | retry => exact absurd hreader (Reader.nextAttempt_not_loaded _ _ _)
  | sample | copy => simp at hreader
  | @accept most attempt staging index hcopying hdone =>
    simp only [Reader.Consistent, hcopying] at hconsistent
    obtain ⟨heven, _, hcopied⟩ := hconsistent
    have hstaging : staging = e.slot.words := by
      funext i
      exact hcopied trivial i (by omega)
    obtain ⟨hcounter, hwords⟩ := h.writer.of_even heven
    constructor
    · rw [hstaging, hwords, ofWords_latestWords]
    · have htwo : (2 : UInt64).toNat = 2 := rfl
      rw [SeqlockSlot.generation, UInt64.toNat_div, htwo, hcounter]
      omega

theorem Consistent.returns {e : Execution ι T} (h : e.Consistent) {schedule : ℕ → Turn ι T}
    {id : ι} {k : ℕ} (hstores : (e.executionAt schedule k).stores < 2 ^ 63)
    (hreturns : e.Returns schedule id k true) :
    ((e.executionAt schedule (k + 1)).readers id).out =
        latest (e.executionAt schedule k).published ∧
      (e.executionAt schedule k).slot.generation.toNat =
        (e.executionAt schedule k).published.length := by
  obtain ⟨⟨out, maxAttempts, hturn⟩, hevent⟩ := hreturns
  rw [eventAt, hturn] at hevent
  rw [executionAt_succ, hturn]
  exact (executionAt_consistent schedule h hstores).accepts hevent

/-- While fewer than `2 ^ 63` stores are begun, a `tryLoad` that returns true yields the
publication that is the latest one at its last turn. The generations accepted by one reader
never decrease, and a `tryLoad` that returns false made at most `maxAttempts` attempts and left
its output alone. -/
theorem loads_are_publications (outs : ι → T) (schedule : ℕ → Turn ι T) (n : ℕ)
    (hstores : ((initial outs).executionAt schedule n).stores < 2 ^ 63) (id : ι) :
    (∀ k < n, (initial outs).Returns schedule id k true →
      (((initial outs).executionAt schedule (k + 1)).readers id).out =
          latest ((initial outs).executionAt schedule k).published ∧
        ((initial outs).executionAt schedule k).slot.generation.toNat =
          ((initial outs).executionAt schedule k).published.length) ∧
    (∀ j k, j < k → k < n → (initial outs).Returns schedule id j true →
      (initial outs).Returns schedule id k true →
      ((initial outs).executionAt schedule j).slot.generation ≤
        ((initial outs).executionAt schedule k).slot.generation) ∧
    ∀ out maxAttempts first k, (initial outs).Calls schedule id out maxAttempts first k →
      (initial outs).Returns schedule id k false →
      (initial outs).attempts schedule id first (k + 1) ≤ maxAttempts ∧
        (((initial outs).executionAt schedule (k + 1)).readers id).out = out := by
  have haccepts : ∀ k < n, (initial outs).Returns schedule id k true →
      (((initial outs).executionAt schedule (k + 1)).readers id).out =
          latest ((initial outs).executionAt schedule k).published ∧
        ((initial outs).executionAt schedule k).slot.generation.toNat =
          ((initial outs).executionAt schedule k).published.length := by
    intro k hk hreturns
    exact (initial_consistent outs).returns
      (((initial outs).stores_mono schedule hk.le).trans_lt hstores) hreturns
  refine ⟨haccepts, ?_, ?_⟩
  · intro j k hjk hk hfirst hsecond
    rw [UInt64.le_iff_toNat_le, (haccepts j (hjk.trans hk) hfirst).2, (haccepts k hk hsecond).2]
    exact (initial outs).published_mono schedule hjk.le
  · intro out maxAttempts first k hcalls hfails
    have hcall := hcalls.inCall hfails (by have := hcalls.le; omega) le_rfl
    obtain ⟨hout, hpc⟩ := hcall
    rw [idle_of_returns hfails] at hpc
    exact ⟨hpc.le, hout⟩

/-- A store that is under way when the reader samples the counter, and complete when it
samples it again. -/
def overlapping (k : ℕ) : Turn Unit (Fin 2 → UInt64) :=
  if k = 0 ∨ k = 1 ∨ k = 4 ∨ k = 5 ∨ k = 6 then .writer ![7, 9] else .reader () ![0, 0] 3

theorem loads_are_publications_overlapping :
    (initial fun _ => ![0, 0]).Returns overlapping () 10 true ∧
      (((initial fun _ => ![0, 0]).executionAt overlapping 11).readers ()).out = ![7, 9] := by
  have hreturns : (initial fun _ => ![0, 0]).Returns overlapping () 10 true :=
    ⟨⟨_, _, rfl⟩, by decide⟩
  have hloads := loads_are_publications (fun _ => ![0, 0]) overlapping 11 (by decide) ()
  exact ⟨hreturns, (hloads.1 10 (by decide) hreturns).1.trans rfl⟩

end Execution
end SafeEdge.Ipc
