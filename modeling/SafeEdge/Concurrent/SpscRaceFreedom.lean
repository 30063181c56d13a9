import SafeEdge.Concurrent.SpscKnowledge

/-! The ring is free of data races, and a lossless queue, under the orderings of its accesses. -/
namespace SafeEdge.Concurrent
open Library

namespace OrderedExecution
variable {C : Capacity} {α : Type*} {start : UInt64} {seenRead seenWrite : ℕ}
  {e : OrderedExecution C α} {orders : RingOrders}

/-- Some pair of readings witnesses the consistency of the execution. -/
def IsConsistent (start : UInt64) (e : OrderedExecution C α) : Prop :=
  ∃ seenRead seenWrite, Consistent start seenRead seenWrite e

theorem producerStep_consistent (horders : orders.Synchronize) (h : IsConsistent start e)
    (call : ProducerCall α) (choice : ℕ) :
    IsConsistent start (e.producerStep orders call choice).1 := by
  obtain ⟨seenRead, seenWrite, h⟩ := h
  have hwithin := h.producerView.1
  have hholds := h.producer
  unfold ProducerHolds at hholds
  unfold producerStep
  cases hp : e.producer with
  | idle =>
    have hfilled : e.filled = e.pushed := by simp only [filled, hp]
    cases call with
    | tryPush value =>
      obtain ⟨hle, hmade⟩ := h.loadWritePos_view hwithin .relaxed choice
      exact ⟨seenRead, seenWrite, h.producer_learns hle hmade hfilled.symm
        (h.loadWritePos_own choice)⟩
    | sizeApprox =>
      obtain ⟨hle, hmade⟩ := h.loadWritePos_view hwithin orders.positionLoad choice
      exact ⟨seenRead, seenWrite, h.producer_learns hle hmade hfilled.symm
        (h.loadWritePos_own choice)⟩
  | pushLoaded value write =>
    simp only [hp] at hholds
    subst hholds
    have hfilled : e.filled = e.pushed := by simp only [filled, hp]
    obtain ⟨hseen, htaken, hpushed, hroom⟩ := h.ordered
    rw [hfilled] at hroom
    have hpopped := popped_le_taken e
    obtain ⟨hle, hmade⟩ := h.loadReadPos_view hwithin orders.positionLoad choice
    obtain ⟨number, hfrom, hto, hknown, hvalue, htells⟩ :=
      h.loadReadPos_reads hwithin horders.positionLoad choice
    have hlater : seenRead ≤ number := h.producerView.2.2.1.trans hfrom
    simp only [h.cachedReadPos, hvalue]
    split_ifs with hfull hstill
    · exact ⟨number, seenWrite, h.producer_refresh hlater hto rfl hle hmade hknown htells
        hfilled.symm trivial⟩
    · refine ⟨number, seenWrite, h.producer_refresh hlater hto rfl hle hmade hknown htells
        hfilled.symm ⟨rfl, ?_⟩⟩
      rw [Execution.word_le_sub_iff (by omega) (by omega)] at hstill
      change e.pushed.length < number + C.slots
      omega
    · rw [Execution.word_le_sub_iff (by omega) hroom] at hfull
      exact ⟨seenRead, seenWrite, h.producer_writeSlot value (by omega) hfilled⟩
  | pushReady value write =>
    simp only [hp] at hholds
    have hfilled : e.filled = e.pushed := by simp only [filled, hp]
    obtain ⟨rfl, hroom⟩ := hholds
    exact ⟨seenRead, seenWrite, h.producer_writeSlot value hroom hfilled⟩
  | pushWritten value write =>
    exact ⟨seenRead, seenWrite, h.producer_publish horders.positionStore hp⟩
  | sizing write =>
    have hfilled : e.filled = e.pushed := by simp only [filled, hp]
    obtain ⟨hle, hmade⟩ := h.loadReadPos_view hwithin orders.positionLoad choice
    exact ⟨seenRead, seenWrite, h.producer_learns hle hmade hfilled.symm trivial⟩

theorem consumerStep_consistent (horders : orders.Synchronize) (h : IsConsistent start e)
    (call : ConsumerCall) (movedFrom : α) (choice : ℕ) :
    IsConsistent start (e.consumerStep orders call movedFrom choice).1 := by
  obtain ⟨seenRead, seenWrite, h⟩ := h
  have hwithin := h.consumerView.1
  have hholds := h.consumer
  have hslots := Execution.slots_lt C
  obtain ⟨hseen, hready, hpushed, hroom⟩ := h.ordered
  have hfilled := pushed_le_filled e
  unfold ConsumerHolds at hholds
  unfold consumerStep
  cases hc : e.consumer with
  | idle =>
    have htaken : e.taken = e.popped.length := by simp only [taken, hc]
    cases call with
    | tryPop =>
      obtain ⟨hle, hmade⟩ := h.loadReadPos_view hwithin .relaxed choice
      exact ⟨seenRead, seenWrite, h.consumer_learns hle hmade htaken.symm
        (h.loadReadPos_own choice)⟩
    | sizeApprox =>
      obtain ⟨hle, hmade⟩ := h.loadWritePos_view hwithin orders.positionLoad choice
      obtain ⟨number, hfrom, hto, -, hvalue, -⟩ :=
        h.loadWritePos_reads hwithin horders.positionLoad choice
      have hlater : seenWrite ≤ number := h.consumerView.2.2.1.trans hfrom
      refine ⟨seenRead, seenWrite, h.consumer_learns hle hmade htaken.symm
        ⟨number, ?_, hto, hvalue⟩⟩
      change e.popped.length ≤ number
      omega
  | popLoaded read =>
    simp only [hc] at hholds
    subst hholds
    have htaken : e.taken = e.popped.length := by simp only [taken, hc]
    obtain ⟨hle, hmade⟩ := h.loadWritePos_view hwithin orders.positionLoad choice
    obtain ⟨number, hfrom, hto, hknown, hvalue, htells⟩ :=
      h.loadWritePos_reads hwithin horders.positionLoad choice
    have hlater : seenWrite ≤ number := h.consumerView.2.2.1.trans hfrom
    simp only [h.cachedWritePos, hvalue]
    split_ifs with hempty hstill
    · exact ⟨seenRead, number, h.consumer_refresh hlater hto rfl hle hmade hknown htells
        htaken.symm trivial⟩
    · refine ⟨seenRead, number, h.consumer_refresh hlater hto rfl hle hmade hknown htells
        htaken.symm ⟨rfl, ?_⟩⟩
      change e.popped.length < number
      refine lt_of_le_of_ne (by omega) fun heq => hstill ?_
      rw [heq]
    · have hne : e.popped.length ≠ seenWrite := fun heq => hempty (congrArg _ heq)
      exact ⟨seenRead, seenWrite, h.consumer_takeSlot movedFrom (by omega) htaken⟩
  | popReady read =>
    simp only [hc] at hholds
    obtain ⟨rfl, hwritten⟩ := hholds
    have htaken : e.taken = e.popped.length := by simp only [taken, hc]
    exact ⟨seenRead, seenWrite, h.consumer_takeSlot movedFrom hwritten htaken⟩
  | popTaken out read =>
    exact ⟨seenRead, seenWrite, h.consumer_release horders.positionStore hc⟩
  | sizing write =>
    have htaken : e.taken = e.popped.length := by simp only [taken, hc]
    obtain ⟨hle, hmade⟩ := h.loadReadPos_view hwithin orders.positionLoad choice
    exact ⟨seenRead, seenWrite, h.consumer_learns hle hmade htaken.symm trivial⟩

theorem step_consistent (horders : orders.Synchronize) (h : IsConsistent start e)
    (turn : OrderedTurn α) : IsConsistent start (e.step orders turn).1 := by
  cases turn with
  | producer call choice => exact producerStep_consistent horders h call choice
  | consumer call movedFrom choice => exact consumerStep_consistent horders h call movedFrom choice
  | producerSynchronizes =>
    obtain ⟨seenRead, seenWrite, h⟩ := h
    exact ⟨seenRead, seenWrite, h.producer_learns le_sup_left
      (sup_le h.producerView.1 h.consumerView.1) rfl h.producer⟩
  | consumerSynchronizes =>
    obtain ⟨seenRead, seenWrite, h⟩ := h
    exact ⟨seenRead, seenWrite, h.consumer_learns le_sup_left
      (sup_le h.consumerView.1 h.producerView.1) rfl h.consumer⟩

theorem executionAt_consistent (horders : orders.Synchronize) (start : UInt64)
    (slots : Fin C.slots → α) (schedule : ℕ → OrderedTurn α) (n : ℕ) :
    IsConsistent start ((initial start slots).executionAt orders schedule n) :=
  stateAt_invariant (fun _ (e : OrderedExecution C α) => IsConsistent start e)
    ⟨0, 0, initial_consistent start slots⟩
    (fun n ih => step_consistent horders ih (schedule n)) n

namespace Consistent

/-- A push is refused only if the ring is full as far as the producer knows. -/
theorem full_of_refused (h : Consistent start seenRead seenWrite e) (horders : orders.Synchronize)
    (hreturns : TurnReturns orders e (.pushReturned false)) :
    e.producerView .readPos + C.slots ≤ e.pushed.length := by
  cases hreturns with
  | @full value write choice hpc hfull =>
    have hholds := h.producer
    simp only [ProducerHolds, hpc] at hholds
    obtain ⟨number, hfrom, hto, -, hvalue, -⟩ :=
      h.loadReadPos_reads h.producerView.1 horders.positionLoad choice
    obtain ⟨hseen, htaken, hpushed, hroom⟩ := h.ordered
    have hpopped := popped_le_taken e
    have hfilled := pushed_le_filled e
    have hlater := h.producerView.2.2.1.trans hfrom
    rw [hholds, hvalue, Execution.word_le_sub_iff (by omega) (by omega)] at hfull
    omega

/-- A pop is refused only if the ring is empty as far as the consumer knows. -/
theorem empty_of_refused (h : Consistent start seenRead seenWrite e) (horders : orders.Synchronize)
    (hreturns : TurnReturns orders e (.popReturned none)) :
    e.consumerView .writePos ≤ e.popped.length := by
  cases hreturns with
  | @empty choice hpc =>
    have hholds := h.consumer
    simp only [ConsumerHolds, hpc] at hholds
    obtain ⟨number, hfrom, hto, -, hvalue, -⟩ :=
      h.loadWritePos_reads h.consumerView.1 horders.positionLoad choice
    obtain ⟨hseen, htaken, hpushed, hroom⟩ := h.ordered
    have hslots := Execution.slots_lt C
    have hpopped := popped_le_taken e
    have hfilled := pushed_le_filled e
    have hlater := h.consumerView.2.2.1.trans hfrom
    rw [hvalue] at hholds
    have hequal := counterAt_inj_of_close start (by omega) (by omega) hholds
    omega

/-- An occupancy read by either thread between its operations is at most the capacity. -/
theorem size_le (h : Consistent start seenRead seenWrite e) (horders : orders.Synchronize)
    {size : UInt64} (hreturns : TurnReturns orders e (.sizeReturned size)) :
    size.toNat ≤ C.slots := by
  obtain ⟨hseen, htaken, hpushed, hroom⟩ := h.ordered
  have hslots := Execution.slots_lt C
  have hpopped := popped_le_taken e
  have hfilled := pushed_le_filled e
  cases hreturns with
  | @sizedByProducer write choice hpc =>
    have hholds := h.producer
    simp only [ProducerHolds, hpc] at hholds
    obtain ⟨number, hfrom, hto, -, hvalue, -⟩ :=
      h.loadReadPos_reads h.producerView.1 horders.positionLoad choice
    have hlater := h.producerView.2.2.1.trans hfrom
    rw [hholds, hvalue, counterAt_sub_toNat start (by omega) (by omega)]
    omega
  | @sizedByConsumer write choice hpc =>
    have hholds := h.consumer
    simp only [ConsumerHolds, hpc] at hholds
    obtain ⟨count, hlow, hhigh, rfl⟩ := hholds
    rw [h.loadReadPos_own, counterAt_sub_toNat start hlow (by omega)]
    omega

end Consistent

/-- If positions are stored with a release and loaded with an acquire, then however the accesses of
the two threads interleave, whichever permitted write each load returns and however the threads
synchronize besides: no access of a slot races with another one, the values that pops returned are
a prefix of the values whose push returned true, which are at most a capacity ahead, and occupancy
readings stay within the capacity. A push is refused only if the pops the producer knows of leave
no room, and a pop only if the consumer has popped every push it knows of; a thread that
synchronizes knows of all that the other has done. -/
theorem ring_race_free (C : Capacity) (orders : RingOrders) (horders : orders.Synchronize)
    (start : UInt64) (slots : Fin C.slots → α) (schedule : ℕ → OrderedTurn α) (n : ℕ) :
    let ring : OrderedExecution C α := initial start slots
    let e := ring.executionAt orders schedule n
    let event := ring.eventAt orders schedule n
    let pushed := ring.valuesPushed orders schedule n
    let popped := ring.valuesPopped orders schedule n
    e.raced = false ∧ popped <+: pushed ∧ pushed.length ≤ popped.length + C.slots ∧
    (∀ size, event = .sizeReturned size → size.toNat ≤ C.slots) ∧
    (event = .pushReturned false → e.producerView .readPos + C.slots ≤ pushed.length) ∧
    (event = .popReturned none → e.consumerView .writePos ≤ popped.length) ∧
    ∀ j < n,
      (schedule j = .producerSynchronizes →
        (ring.valuesPopped orders schedule j).length ≤ e.producerView .readPos) ∧
      (schedule j = .consumerSynchronizes →
        (ring.valuesPushed orders schedule j).length ≤ e.consumerView .writePos) := by
  intro ring e event pushed popped
  have hconsistent := executionAt_consistent horders start slots schedule
  have hpushed (j : ℕ) :
      ring.valuesPushed orders schedule j = (ring.executionAt orders schedule j).pushed :=
    (executionAt_recorded start slots schedule j).pushed.symm
  have hpopped (j : ℕ) :
      ring.valuesPopped orders schedule j = (ring.executionAt orders schedule j).popped :=
    (executionAt_recorded start slots schedule j).popped.symm
  obtain ⟨seenRead, seenWrite, h⟩ : IsConsistent start e := hconsistent n
  have hreturns : TurnReturns orders e event := step_returns orders e (schedule n)
  rw [show pushed = e.pushed from hpushed n, show popped = e.popped from hpopped n]
  refine ⟨h.unraced, h.popped_prefix, ?_, fun size hsize => h.size_le horders (hsize ▸ hreturns),
    fun hfull => h.full_of_refused horders (hfull ▸ hreturns),
    fun hempty => h.empty_of_refused horders (hempty ▸ hreturns), fun j hj => ?_⟩
  · obtain ⟨hseen, -, -, hroom⟩ := h.ordered
    have hfilled := pushed_le_filled e
    omega
  obtain ⟨_, _, hearlier⟩ := hconsistent j
  rw [hpushed, hpopped]
  refine ⟨fun hturn => ?_, fun hturn => ?_⟩
  · refine le_trans ?_ (producerView_mono schedule (Nat.succ_le_of_lt hj) .readPos)
    have hknown := hearlier.consumerView.2.1
    simp only [executionAt, Nat.succ_eq_add_one, stateAt_succ, hturn] at hknown ⊢
    exact hknown.trans le_sup_right
  · refine le_trans ?_ (consumerView_mono schedule (Nat.succ_le_of_lt hj) .writePos)
    have hknown := hearlier.producerView.2.1
    simp only [executionAt, Nat.succ_eq_add_one, stateAt_succ, hturn] at hknown ⊢
    exact hknown.trans le_sup_right

/-- Two values are pushed and one is popped. The producer first fails to see the pop, then
synchronizes and pushes a third value. -/
def handOver : ℕ → OrderedTurn ℕ
  | 0 | 1 | 2 => .producer (.tryPush 7) 0
  | 3 | 4 | 5 => .producer (.tryPush 8) 0
  | 6 | 7 | 8 | 9 => .consumer .tryPop 0 2
  | 10 | 11 => .producer (.tryPush 9) 0
  | 12 => .producerSynchronizes
  | _ => .producer (.tryPush 9) 0

/-- An empty ring whose positions are about to wrap. -/
def wrapping : OrderedExecution Execution.twoSlots ℕ := initial (-1) fun _ => 0

/-- Under the orderings of the source, a push is refused although a value has been popped, as long
as the producer does not know of the pop. -/
theorem ring_race_free_handOver :
    (wrapping.eventAt {} handOver 11 = .pushReturned false ∧
      wrapping.valuesPopped {} handOver 11 = [7] ∧
      (wrapping.executionAt {} handOver 11).producerView .readPos + 2 ≤
        (wrapping.valuesPushed {} handOver 11).length) ∧
    (wrapping.valuesPopped {} handOver 12).length ≤
      (wrapping.executionAt {} handOver 17).producerView .readPos ∧
    wrapping.valuesPushed {} handOver 17 = [7, 8, 9] ∧
    wrapping.valuesPopped {} handOver 17 <+: wrapping.valuesPushed {} handOver 17 ∧
    (wrapping.executionAt {} handOver 17).raced = false := by
  have hfull : wrapping.eventAt {} handOver 11 = .pushReturned false := by decide +kernel
  have hfree := ring_race_free Execution.twoSlots {} ⟨rfl, rfl⟩ (-1) (fun _ => 0) handOver
  rw [show initial (-1) (fun _ => 0) = wrapping from rfl] at hfree
  exact ⟨⟨hfull, by decide +kernel, (hfree 11).2.2.2.2.1 hfull⟩,
    ((hfree 17).2.2.2.2.2.2 12 (by decide)).1 rfl, by decide +kernel, (hfree 17).2.1, (hfree 17).1⟩

/-- If the position is stored relaxed, the first pop is a data race. -/
example : (wrapping.executionAt { positionStore := .relaxed } handOver 9).raced = true := by
  decide +kernel

end OrderedExecution
end SafeEdge.Concurrent
