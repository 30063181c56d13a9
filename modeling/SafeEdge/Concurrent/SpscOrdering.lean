import SafeEdge.Concurrent.SpscHistory
import SafeEdge.Library.ReleaseAcquire

/-! The ring under the orderings its accesses name: its positions are atomic, its slots are not, so
that an access of a slot that is not ordered after the one before it is a data race. -/
namespace SafeEdge.Concurrent
open Library

/-- The objects of the ring that both threads access. -/
inductive RingPlace (C : Capacity) where
  | writePos
  | readPos
  | slot (index : Fin C.slots)
  deriving DecidableEq

/-- The orderings with which a thread stores its own position and loads that of the other, by
default the source's. -/
structure RingOrders where
  positionStore : MemoryOrder := .release
  positionLoad : MemoryOrder := .acquire

/-- A position that is stored is released and one that is loaded acquired. -/
structure RingOrders.Synchronize (orders : RingOrders) : Prop where
  positionStore : orders.positionStore.releases = true
  positionLoad : orders.positionLoad.acquires = true

/-- One step of one thread, a load with the write it would return. The threads may also synchronize
by other means. -/
inductive OrderedTurn (α : Type*) where
  | producer (call : ProducerCall α) (choice : ℕ)
  | consumer (call : ConsumerCall) (movedFrom : α) (choice : ℕ)
  | producerSynchronizes
  | consumerSynchronizes

/-- The objects of the ring, both threads with their cached positions and views, the values whose
push or pop has returned true, and whether there was a data race. -/
structure OrderedExecution (C : Capacity) (α : Type*) where
  writePos : Atomic (RingPlace C) UInt64
  readPos : Atomic (RingPlace C) UInt64
  slots : Fin C.slots → Cell α
  cachedReadPos : UInt64
  cachedWritePos : UInt64
  producer : ProducerPc α := .idle
  consumer : ConsumerPc α := .idle
  producerView : View (RingPlace C) := 0
  consumerView : View (RingPlace C) := 0
  pushed : List α := []
  popped : List α := []
  raced : Bool := false

namespace OrderedExecution
variable {C : Capacity} {α : Type*} (orders : RingOrders) (e : OrderedExecution C α)

/-- The slot access of `emplaceFrom`. -/
def writeSlot (value : α) (write : UInt64) : OrderedExecution C α :=
  let index := C.slotIndex write
  match (e.slots index).exchange (.slot index) e.producerView value with
  | none => { e with raced := true }
  | some (_, cell, view) =>
    { e with
      slots := Function.update e.slots index cell
      producerView := view
      producer := .pushWritten value write }

/-- The slot access of `tryPop`. -/
def takeSlot (read : UInt64) (movedFrom : α) : OrderedExecution C α :=
  let index := C.slotIndex read
  match (e.slots index).exchange (.slot index) e.consumerView movedFrom with
  | none => { e with raced := true }
  | some (out, cell, view) =>
    { e with
      slots := Function.update e.slots index cell
      consumerView := view
      consumer := .popTaken out read }

/-- A load of the write position by the producer or the consumer. -/
def loadWritePos (order : MemoryOrder) (view : View (RingPlace C)) (choice : ℕ) :
    UInt64 × View (RingPlace C) :=
  e.writePos.load .writePos order view choice

def loadReadPos (order : MemoryOrder) (view : View (RingPlace C)) (choice : ℕ) :
    UInt64 × View (RingPlace C) :=
  e.readPos.load .readPos order view choice

def producerStep (call : ProducerCall α) (choice : ℕ) : OrderedExecution C α × Event α :=
  match e.producer with
  | .idle =>
    match call with
    | .tryPush value =>
      let (write, view) := e.loadWritePos .relaxed e.producerView choice
      ({ e with producer := .pushLoaded value write, producerView := view }, .running)
    | .sizeApprox =>
      let (write, view) := e.loadWritePos orders.positionLoad e.producerView choice
      ({ e with producer := .sizing write, producerView := view }, .running)
  | .pushLoaded value write =>
    if write - e.cachedReadPos ≥ C.word then
      let (read, view) := e.loadReadPos orders.positionLoad e.producerView choice
      let refreshed := { e with cachedReadPos := read, producerView := view }
      if write - read ≥ C.word then
        ({ refreshed with producer := .idle }, .pushReturned false)
      else ({ refreshed with producer := .pushReady value write }, .running)
    else (e.writeSlot value write, .running)
  | .pushReady value write => (e.writeSlot value write, .running)
  | .pushWritten value write =>
    let (writePos, view) :=
      e.writePos.store .writePos orders.positionStore e.producerView (write + 1)
    ({ e with
        writePos
        producerView := view
        producer := .idle
        pushed := e.pushed ++ [value] }, .pushReturned true)
  | .sizing write =>
    let (read, view) := e.loadReadPos orders.positionLoad e.producerView choice
    ({ e with producer := .idle, producerView := view }, .sizeReturned (write - read))

def consumerStep (call : ConsumerCall) (movedFrom : α) (choice : ℕ) :
    OrderedExecution C α × Event α :=
  match e.consumer with
  | .idle =>
    match call with
    | .tryPop =>
      let (read, view) := e.loadReadPos .relaxed e.consumerView choice
      ({ e with consumer := .popLoaded read, consumerView := view }, .running)
    | .sizeApprox =>
      let (write, view) := e.loadWritePos orders.positionLoad e.consumerView choice
      ({ e with consumer := .sizing write, consumerView := view }, .running)
  | .popLoaded read =>
    if read = e.cachedWritePos then
      let (write, view) := e.loadWritePos orders.positionLoad e.consumerView choice
      let refreshed := { e with cachedWritePos := write, consumerView := view }
      if read = write then ({ refreshed with consumer := .idle }, .popReturned none)
      else ({ refreshed with consumer := .popReady read }, .running)
    else (e.takeSlot read movedFrom, .running)
  | .popReady read => (e.takeSlot read movedFrom, .running)
  | .popTaken out read =>
    let (readPos, view) :=
      e.readPos.store .readPos orders.positionStore e.consumerView (read + 1)
    ({ e with
        readPos
        consumerView := view
        consumer := .idle
        popped := e.popped ++ [out] }, .popReturned (some out))
  | .sizing write =>
    let (read, view) := e.loadReadPos orders.positionLoad e.consumerView choice
    ({ e with consumer := .idle, consumerView := view }, .sizeReturned (write - read))

def step : OrderedTurn α → OrderedExecution C α × Event α
  | .producer call choice => e.producerStep orders call choice
  | .consumer call movedFrom choice => e.consumerStep orders call movedFrom choice
  | .producerSynchronizes =>
    ({ e with producerView := e.producerView ⊔ e.consumerView }, .running)
  | .consumerSynchronizes =>
    ({ e with consumerView := e.consumerView ⊔ e.producerView }, .running)

/-- An empty ring whose positions stand at `start`. -/
def initial (start : UInt64) (slots : Fin C.slots → α) : OrderedExecution C α where
  writePos := .initial start
  readPos := .initial start
  slots index := ⟨slots index, 0⟩
  cachedReadPos := start
  cachedWritePos := start

/-- The execution before turn `n` of a schedule. -/
def executionAt (schedule : ℕ → OrderedTurn α) (n : ℕ) : OrderedExecution C α :=
  stateAt (fun e turn => (step orders e turn).1) e schedule n

/-- What turn `n` of a schedule returns. -/
def eventAt (schedule : ℕ → OrderedTurn α) (n : ℕ) : Event α :=
  ((e.executionAt orders schedule n).step orders (schedule n)).2

end OrderedExecution

/-- The call offered to the producer in a turn. -/
def OrderedTurn.offer {α : Type*} : OrderedTurn α → Option (ProducerCall α)
  | .producer call _ => some call
  | .consumer _ _ _ | .producerSynchronizes | .consumerSynchronizes => none

namespace OrderedExecution
variable {C : Capacity} {α : Type*} (orders : RingOrders) (e : OrderedExecution C α)
  (schedule : ℕ → OrderedTurn α)

/-- The values whose push has returned true before turn `n` of a schedule. -/
def valuesPushed : ℕ → List α :=
  pushedBefore (fun k => (schedule k).offer) (e.eventAt orders schedule)

/-- The values that pops have returned before turn `n` of a schedule. -/
def valuesPopped : ℕ → List α := poppedBefore (e.eventAt orders schedule)

end OrderedExecution

namespace OrderedExecution
variable {C : Capacity} {α : Type*} {orders : RingOrders} {e : OrderedExecution C α}

/-- What the turns return, with the state in which each can occur. -/
inductive TurnReturns (orders : RingOrders) (e : OrderedExecution C α) : Event α → Prop
  | running : TurnReturns orders e .running
  | stored : TurnReturns orders e (.pushReturned true)
  | released (out : α) : TurnReturns orders e (.popReturned (some out))
  | full {value : α} {write : UInt64} {choice : ℕ} (hpc : e.producer = .pushLoaded value write)
      (hfull : write - (e.loadReadPos orders.positionLoad e.producerView choice).1 ≥ C.word) :
      TurnReturns orders e (.pushReturned false)
  | empty {choice : ℕ}
      (hpc : e.consumer =
        .popLoaded (e.loadWritePos orders.positionLoad e.consumerView choice).1) :
      TurnReturns orders e (.popReturned none)
  | sizedByProducer {write : UInt64} {choice : ℕ} (hpc : e.producer = .sizing write) :
      TurnReturns orders e
        (.sizeReturned (write - (e.loadReadPos orders.positionLoad e.producerView choice).1))
  | sizedByConsumer {write : UInt64} {choice : ℕ} (hpc : e.consumer = .sizing write) :
      TurnReturns orders e
        (.sizeReturned (write - (e.loadReadPos orders.positionLoad e.consumerView choice).1))

theorem step_returns (orders : RingOrders) (e : OrderedExecution C α) (turn : OrderedTurn α) :
    TurnReturns orders e (e.step orders turn).2 := by
  cases turn with
  | producer call choice =>
    change TurnReturns orders e (e.producerStep orders call choice).2
    unfold producerStep
    cases hp : e.producer with
    | idle => cases call <;> exact .running
    | pushLoaded value write =>
      simp only
      split_ifs with hfull hstill
      · exact .full hp hstill
      · exact .running
      · exact .running
    | pushReady => exact .running
    | pushWritten => exact .stored
    | sizing => exact .sizedByProducer hp
  | consumer call movedFrom choice =>
    change TurnReturns orders e (e.consumerStep orders call movedFrom choice).2
    unfold consumerStep
    cases hc : e.consumer with
    | idle => cases call <;> exact .running
    | popLoaded read =>
      simp only
      split_ifs with hempty hstill
      · subst hstill
        exact .empty hc
      · exact .running
      · exact .running
    | popReady => exact .running
    | popTaken out => exact .released out
    | sizing => exact .sizedByConsumer hc
  | producerSynchronizes | consumerSynchronizes => exact .running

theorem writeSlot_records (call : ProducerCall α) {value : α} {write : UInt64}
    (hcall : e.producer.call = some (.tryPush value)) :
    Records (some call) .running e.producer (e.writeSlot value write).producer e.pushed
      (e.writeSlot value write).pushed e.popped (e.writeSlot value write).popped := by
  simp only [writeSlot]
  have hcontinues : callAfter (some call) .running e.producer.call = some (.tryPush value) := by
    rw [hcall]
    rfl
  split
  · exact .of_unchanged (hcall.trans hcontinues.symm) rfl rfl
  · exact .of_unchanged hcontinues.symm rfl rfl

theorem takeSlot_records (read : UInt64) (movedFrom : α) :
    Records none .running e.producer (e.takeSlot read movedFrom).producer e.pushed
      (e.takeSlot read movedFrom).pushed e.popped (e.takeSlot read movedFrom).popped := by
  simp only [takeSlot]
  split
  · exact .of_unchanged rfl rfl rfl
  · exact .of_unchanged rfl rfl rfl

theorem step_records (orders : RingOrders) (e : OrderedExecution C α) (turn : OrderedTurn α) :
    Records turn.offer (e.step orders turn).2 e.producer (e.step orders turn).1.producer e.pushed
      (e.step orders turn).1.pushed e.popped (e.step orders turn).1.popped := by
  cases turn with
  | producer call choice =>
    simp only [step, producerStep]
    cases hp : e.producer with
    | idle => cases call <;> exact .of_unchanged rfl rfl rfl
    | pushLoaded value write =>
      have hwrites := @writeSlot_records _ _ e call value write (by rw [hp]; rfl)
      rw [hp] at hwrites
      simp only
      split_ifs
      · exact .of_unchanged rfl rfl rfl
      · exact .of_unchanged rfl rfl rfl
      · exact hwrites
    | pushReady value write =>
      have hwrites := @writeSlot_records _ _ e call value write (by rw [hp]; rfl)
      rw [hp] at hwrites
      exact hwrites
    | pushWritten value write => exact ⟨rfl, rfl, (List.append_nil _).symm⟩
    | sizing write => exact .of_unchanged rfl rfl rfl
  | consumer call movedFrom choice =>
    simp only [step, consumerStep]
    cases hc : e.consumer with
    | idle => cases call <;> exact .of_unchanged rfl rfl rfl
    | popLoaded read =>
      simp only
      split_ifs
      · exact .of_unchanged rfl rfl rfl
      · exact .of_unchanged rfl rfl rfl
      · exact takeSlot_records read movedFrom
    | popReady read => exact takeSlot_records read movedFrom
    | popTaken out read => exact ⟨rfl, (List.append_nil _).symm, rfl⟩
    | sizing write => exact .of_unchanged rfl rfl rfl
  | producerSynchronizes | consumerSynchronizes =>
    exact .of_unchanged rfl rfl rfl

/-- The lists of an execution are its history. -/
theorem executionAt_recorded (start : UInt64) (slots : Fin C.slots → α)
    (schedule : ℕ → OrderedTurn α) (n : ℕ) :
    Recorded (fun k => (schedule k).offer) ((initial start slots).eventAt orders schedule) n
      ((initial start slots).executionAt orders schedule n).producer
      ((initial start slots).executionAt orders schedule n).pushed
      ((initial start slots).executionAt orders schedule n).popped := by
  induction n with
  | zero => exact ⟨rfl, rfl, rfl⟩
  | succ n ih => exact ih.succ (step_records orders _ (schedule n))

theorem writeSlot_producerView (value : α) (write : UInt64) :
    e.producerView ≤ (e.writeSlot value write).producerView ∧
      (e.writeSlot value write).consumerView = e.consumerView := by
  simp only [writeSlot]
  split
  · exact ⟨le_rfl, rfl⟩
  · next hexchange => exact ⟨Cell.le_exchange hexchange, rfl⟩

theorem takeSlot_consumerView (read : UInt64) (movedFrom : α) :
    e.consumerView ≤ (e.takeSlot read movedFrom).consumerView ∧
      (e.takeSlot read movedFrom).producerView = e.producerView := by
  simp only [takeSlot]
  split
  · exact ⟨le_rfl, rfl⟩
  · next hexchange => exact ⟨Cell.le_exchange hexchange, rfl⟩

/-- No thread forgets. -/
theorem le_step_views (orders : RingOrders) (e : OrderedExecution C α) (turn : OrderedTurn α) :
    e.producerView ≤ (e.step orders turn).1.producerView ∧
      e.consumerView ≤ (e.step orders turn).1.consumerView := by
  cases turn with
  | producer call choice =>
    change _ ≤ (e.producerStep orders call choice).1.producerView ∧
      _ ≤ (e.producerStep orders call choice).1.consumerView
    unfold producerStep
    cases hp : e.producer with
    | idle => cases call <;> exact ⟨Atomic.le_load choice, le_rfl⟩
    | pushLoaded value write =>
      obtain ⟨hproducer, hconsumer⟩ := @writeSlot_producerView _ _ e value write
      simp only
      split_ifs
      · exact ⟨Atomic.le_load choice, le_rfl⟩
      · exact ⟨Atomic.le_load choice, le_rfl⟩
      · exact ⟨hproducer, hconsumer.ge⟩
    | pushReady value write =>
      obtain ⟨hproducer, hconsumer⟩ := @writeSlot_producerView _ _ e value write
      exact ⟨hproducer, hconsumer.ge⟩
    | pushWritten => exact ⟨le_sup_left, le_rfl⟩
    | sizing => exact ⟨Atomic.le_load choice, le_rfl⟩
  | consumer call movedFrom choice =>
    change _ ≤ (e.consumerStep orders call movedFrom choice).1.producerView ∧
      _ ≤ (e.consumerStep orders call movedFrom choice).1.consumerView
    unfold consumerStep
    cases hc : e.consumer with
    | idle => cases call <;> exact ⟨le_rfl, Atomic.le_load choice⟩
    | popLoaded read =>
      obtain ⟨hconsumer, hproducer⟩ := @takeSlot_consumerView _ _ e read movedFrom
      simp only
      split_ifs
      · exact ⟨le_rfl, Atomic.le_load choice⟩
      · exact ⟨le_rfl, Atomic.le_load choice⟩
      · exact ⟨hproducer.ge, hconsumer⟩
    | popReady read =>
      obtain ⟨hconsumer, hproducer⟩ := @takeSlot_consumerView _ _ e read movedFrom
      exact ⟨hproducer.ge, hconsumer⟩
    | popTaken => exact ⟨le_rfl, le_sup_left⟩
    | sizing => exact ⟨le_rfl, Atomic.le_load choice⟩
  | producerSynchronizes => exact ⟨le_sup_left, le_rfl⟩
  | consumerSynchronizes => exact ⟨le_rfl, le_sup_left⟩

theorem producerView_mono (schedule : ℕ → OrderedTurn α) :
    Monotone fun n => (e.executionAt orders schedule n).producerView :=
  monotone_nat_of_le_succ fun n =>
    (le_step_views orders (e.executionAt orders schedule n) (schedule n)).1

theorem consumerView_mono (schedule : ℕ → OrderedTurn α) :
    Monotone fun n => (e.executionAt orders schedule n).consumerView :=
  monotone_nat_of_le_succ fun n =>
    (le_step_views orders (e.executionAt orders schedule n) (schedule n)).2

end OrderedExecution
end SafeEdge.Concurrent
