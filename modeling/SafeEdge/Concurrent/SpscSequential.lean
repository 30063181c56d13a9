import SafeEdge.Concurrent.SpscRaceFreedom

/-! The sequentially consistent executions of the ring are those of the ordered ones in which every
load returns the newest write. -/
namespace SafeEdge.Concurrent
open Library

/-- The turn with a load that asks for write `n`. -/
def Turn.ordered {α : Type*} (n : ℕ) : Turn α → OrderedTurn α
  | .producer call => .producer call n
  | .consumer call movedFrom => .consumer call movedFrom n

namespace OrderedExecution
variable {C : Capacity} {α : Type*} {orders : RingOrders} {e : OrderedExecution C α}

/-- The execution with the newest write of both positions. -/
def newest (e : OrderedExecution C α) : Execution C α where
  ring :=
    { writePos := e.writePos.newest
      cachedReadPos := e.cachedReadPos
      readPos := e.readPos.newest
      cachedWritePos := e.cachedWritePos
      slots := fun index => (e.slots index).value }
  producer := e.producer
  consumer := e.consumer
  pushed := e.pushed
  popped := e.popped

theorem value_update (slots : Fin C.slots → Cell α) (index : Fin C.slots) (cell : Cell α) :
    (fun other => (Function.update slots index cell other).value) =
      Function.update (fun other => (slots other).value) index cell.value := by
  funext other
  by_cases hother : other = index
  · subst hother
    simp
  · simp [hother]

/-- An access of a slot that does not race is one of the newest value. -/
theorem newest_writeSlot {value : α} {write : UInt64}
    (h : (e.writeSlot value write).raced = false) :
    (e.writeSlot value write).newest = e.newest.writeSlot value write := by
  simp only [OrderedExecution.writeSlot] at h ⊢
  cases hexchange : (e.slots (C.slotIndex write)).exchange (.slot (C.slotIndex write))
      e.producerView value with
  | none =>
    rw [hexchange] at h
    cases h
  | some accessed =>
    obtain ⟨taken, cell, view⟩ := accessed
    have hslots := value_update e.slots (C.slotIndex write) cell
    rw [(Cell.values_of_exchange hexchange).2] at hslots
    simp only [newest, hslots]
    rfl

theorem newest_takeSlot {read : UInt64} {movedFrom : α}
    (h : (e.takeSlot read movedFrom).raced = false) :
    (e.takeSlot read movedFrom).newest = e.newest.takeSlot read movedFrom := by
  simp only [OrderedExecution.takeSlot] at h ⊢
  cases hexchange : (e.slots (C.slotIndex read)).exchange (.slot (C.slotIndex read))
      e.consumerView movedFrom with
  | none =>
    rw [hexchange] at h
    cases h
  | some accessed =>
    obtain ⟨taken, cell, view⟩ := accessed
    obtain ⟨htaken, hleft⟩ := Cell.values_of_exchange hexchange
    have hslots := value_update e.slots (C.slotIndex read) cell
    rw [hleft] at hslots
    simp only [newest, hslots, htaken]
    rfl

theorem newest_producerStep (hview : e.producerView ≤ e.made) (call : ProducerCall α) {choice : ℕ}
    (hwrite : e.writePos.last ≤ choice) (hread : e.readPos.last ≤ choice)
    (hraced : (e.producerStep orders call choice).1.raced = false) :
    ((e.producerStep orders call choice).1.newest, (e.producerStep orders call choice).2) =
      e.newest.producerStep call := by
  have hproducer : e.newest.producer = e.producer := rfl
  have hloadWrite (order : MemoryOrder) :
      (e.loadWritePos order e.producerView choice).1 = e.newest.ring.writePos :=
    Atomic.load_of_le (hview .writePos) hwrite
  have hloadRead (order : MemoryOrder) :
      (e.loadReadPos order e.producerView choice).1 = e.newest.ring.readPos :=
    Atomic.load_of_le (hview .readPos) hread
  simp only [OrderedExecution.producerStep, Execution.producerStep, hproducer] at hraced ⊢
  cases hp : e.producer with
  | idle =>
    cases call with
    | tryPush value =>
      exact congrArg (fun position =>
        ({ e.newest with producer := .pushLoaded value position }, Event.running))
        (hloadWrite .relaxed)
    | sizeApprox =>
      exact congrArg (fun position =>
        ({ e.newest with producer := .sizing position }, Event.running)) (hloadWrite _)
  | pushLoaded value write =>
    rw [hp] at hraced
    dsimp only at hraced ⊢
    rw [hloadRead] at hraced ⊢
    change _ = if write - e.cachedReadPos ≥ C.word then
      if write - e.newest.ring.readPos ≥ C.word then _ else _ else _
    split_ifs at hraced ⊢
    · rfl
    · rfl
    · exact congrArg (·, Event.running) (newest_writeSlot hraced)
  | pushReady value write =>
    rw [hp] at hraced
    exact congrArg (·, Event.running) (newest_writeSlot hraced)
  | pushWritten value write =>
    have hstored : (e.writePos.store .writePos orders.positionStore e.producerView
        (write + 1)).1.newest = write + 1 := Atomic.newest_store _
    exact congrArg (fun position =>
      ({ e.newest with
          ring := { e.newest.ring with writePos := position }
          producer := .idle
          pushed := e.pushed ++ [value] }, Event.pushReturned true)) hstored
  | sizing write =>
    exact congrArg (fun position =>
      ({ e.newest with producer := .idle }, Event.sizeReturned (write - position))) (hloadRead _)

theorem newest_consumerStep (hview : e.consumerView ≤ e.made) (call : ConsumerCall)
    (movedFrom : α) {choice : ℕ} (hwrite : e.writePos.last ≤ choice)
    (hread : e.readPos.last ≤ choice)
    (hraced : (e.consumerStep orders call movedFrom choice).1.raced = false) :
    ((e.consumerStep orders call movedFrom choice).1.newest,
      (e.consumerStep orders call movedFrom choice).2) = e.newest.consumerStep call movedFrom := by
  have hconsumer : e.newest.consumer = e.consumer := rfl
  have hloadWrite (order : MemoryOrder) :
      (e.loadWritePos order e.consumerView choice).1 = e.newest.ring.writePos :=
    Atomic.load_of_le (hview .writePos) hwrite
  have hloadRead (order : MemoryOrder) :
      (e.loadReadPos order e.consumerView choice).1 = e.newest.ring.readPos :=
    Atomic.load_of_le (hview .readPos) hread
  simp only [OrderedExecution.consumerStep, Execution.consumerStep, hconsumer] at hraced ⊢
  cases hc : e.consumer with
  | idle =>
    cases call with
    | tryPop =>
      exact congrArg (fun position =>
        ({ e.newest with consumer := .popLoaded position }, Event.running)) (hloadRead .relaxed)
    | sizeApprox =>
      exact congrArg (fun position =>
        ({ e.newest with consumer := .sizing position }, Event.running)) (hloadWrite _)
  | popLoaded read =>
    rw [hc] at hraced
    dsimp only at hraced ⊢
    rw [hloadWrite] at hraced ⊢
    change _ = if read = e.cachedWritePos then
      if read = e.newest.ring.writePos then _ else _ else _
    split_ifs at hraced ⊢
    · rfl
    · rfl
    · exact congrArg (·, Event.running) (newest_takeSlot hraced)
  | popReady read =>
    rw [hc] at hraced
    exact congrArg (·, Event.running) (newest_takeSlot hraced)
  | popTaken out read =>
    have hstored : (e.readPos.store .readPos orders.positionStore e.consumerView
        (read + 1)).1.newest = read + 1 := Atomic.newest_store _
    exact congrArg (fun position =>
      ({ e.newest with
          ring := { e.newest.ring with readPos := position }
          consumer := .idle
          popped := e.popped ++ [out] }, Event.popReturned (some out))) hstored
  | sizing write =>
    exact congrArg (fun position =>
      ({ e.newest with consumer := .idle }, Event.sizeReturned (write - position))) (hloadRead _)

theorem writeSlot_positions (value : α) (write : UInt64) :
    (e.writeSlot value write).writePos = e.writePos ∧
      (e.writeSlot value write).readPos = e.readPos := by
  simp only [OrderedExecution.writeSlot]
  split
  · exact ⟨rfl, rfl⟩
  · exact ⟨rfl, rfl⟩

theorem takeSlot_positions (read : UInt64) (movedFrom : α) :
    (e.takeSlot read movedFrom).writePos = e.writePos ∧
      (e.takeSlot read movedFrom).readPos = e.readPos := by
  simp only [OrderedExecution.takeSlot]
  split
  · exact ⟨rfl, rfl⟩
  · exact ⟨rfl, rfl⟩

/-- A turn makes at most one write. -/
theorem last_step_le (turn : OrderedTurn α) :
    (e.step orders turn).1.writePos.last ≤ e.writePos.last + 1 ∧
      (e.step orders turn).1.readPos.last ≤ e.readPos.last + 1 := by
  have hwritten (value : α) (write : UInt64) := @writeSlot_positions _ _ e value write
  have htaken (read : UInt64) (movedFrom : α) := @takeSlot_positions _ _ e read movedFrom
  cases turn with
  | producer call choice =>
    simp only [OrderedExecution.step, OrderedExecution.producerStep]
    cases e.producer with
    | idle => cases call <;> exact ⟨Nat.le_succ _, Nat.le_succ _⟩
    | pushLoaded value write =>
      dsimp only
      split_ifs
      · exact ⟨Nat.le_succ _, Nat.le_succ _⟩
      · exact ⟨Nat.le_succ _, Nat.le_succ _⟩
      · simp [hwritten]
    | pushReady value write => simp [hwritten]
    | pushWritten value write => exact ⟨le_rfl, Nat.le_succ _⟩
    | sizing write => exact ⟨Nat.le_succ _, Nat.le_succ _⟩
  | consumer call movedFrom choice =>
    simp only [OrderedExecution.step, OrderedExecution.consumerStep]
    cases e.consumer with
    | idle => cases call <;> exact ⟨Nat.le_succ _, Nat.le_succ _⟩
    | popLoaded read =>
      dsimp only
      split_ifs
      · exact ⟨Nat.le_succ _, Nat.le_succ _⟩
      · exact ⟨Nat.le_succ _, Nat.le_succ _⟩
      · simp [htaken]
    | popReady read => simp [htaken]
    | popTaken out read => exact ⟨Nat.le_succ _, le_rfl⟩
    | sizing write => exact ⟨Nat.le_succ _, Nat.le_succ _⟩
  | producerSynchronizes | consumerSynchronizes => exact ⟨Nat.le_succ _, Nat.le_succ _⟩

theorem last_executionAt_le (start : UInt64) (slots : Fin C.slots → α)
    (schedule : ℕ → OrderedTurn α) (n : ℕ) :
    ((initial start slots).executionAt orders schedule n).writePos.last ≤ n ∧
      ((initial start slots).executionAt orders schedule n).readPos.last ≤ n :=
  stateAt_invariant
    (fun n (e : OrderedExecution C α) => e.writePos.last ≤ n ∧ e.readPos.last ≤ n)
    ⟨le_rfl, le_rfl⟩
    (fun n h => ⟨(last_step_le (schedule n)).1.trans (Nat.succ_le_succ h.1),
      (last_step_le (schedule n)).2.trans (Nat.succ_le_succ h.2)⟩) n

/-- Every sequentially consistent execution is the newest part of an ordered one, in which a thread
asks for writes as late as its turn. -/
theorem newest_executionAt (horders : orders.Synchronize) (start : UInt64)
    (slots : Fin C.slots → α) (schedule : ℕ → Turn α) (n : ℕ) :
    ((initial start slots).executionAt orders (fun k => (schedule k).ordered k) n).newest =
        (Execution.initial start slots).executionAt schedule n ∧
      (initial start slots).eventAt orders (fun k => (schedule k).ordered k) n =
        (Execution.initial start slots).eventAt schedule n := by
  have hconsistent := executionAt_consistent horders start slots (fun k => (schedule k).ordered k)
  have hstep (n : ℕ) : (((initial start slots).executionAt orders
        (fun k => (schedule k).ordered k) (n + 1)).newest,
      (initial start slots).eventAt orders (fun k => (schedule k).ordered k) n) =
      ((initial start slots).executionAt orders (fun k => (schedule k).ordered k)
        n).newest.step (schedule n) := by
    obtain ⟨hwrite, hread⟩ :=
      @last_executionAt_le _ _ orders start slots (fun k => (schedule k).ordered k) n
    obtain ⟨_, _, h⟩ := hconsistent n
    obtain ⟨_, _, hnext⟩ := hconsistent (n + 1)
    have hraced := hnext.unraced
    rw [executionAt, stateAt_succ] at hraced ⊢
    rw [eventAt]
    cases hturn : schedule n with
    | producer call =>
      simp only [hturn] at hraced ⊢
      exact newest_producerStep h.producerView.1 call hwrite hread hraced
    | consumer call movedFrom =>
      simp only [hturn] at hraced ⊢
      exact newest_consumerStep h.consumerView.1 call movedFrom hwrite hread hraced
  have hrun : ((initial start slots).executionAt orders (fun k => (schedule k).ordered k)
      n).newest = (Execution.initial start slots).executionAt schedule n := by
    induction n with
    | zero => rfl
    | succ n ih => exact congrArg Prod.fst (ih ▸ hstep n)
  exact ⟨hrun, congrArg Prod.snd (hrun ▸ hstep n)⟩

end OrderedExecution
end SafeEdge.Concurrent
