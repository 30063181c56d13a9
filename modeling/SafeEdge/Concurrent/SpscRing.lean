import SafeEdge.Library.Run
import SafeEdge.Library.WrappingCounter

/-! The wait-free ring between one producer and one consumer, taken apart into the single
accesses of the two threads, and its executions under any interleaving. -/
namespace SafeEdge.Concurrent
open Library

/-- A capacity the ring's static assertions admit: a power of two, at least two, that a
64-bit size can hold. -/
structure Capacity where
  exponent : ℕ
  atLeastTwo : 1 ≤ exponent
  representable : exponent < 64

/-- The number of slots. -/
def Capacity.slots (C : Capacity) : ℕ := 2 ^ C.exponent

def Capacity.word (C : Capacity) : UInt64 := UInt64.ofNat (2 ^ C.exponent)

def Capacity.kIndexMask (C : Capacity) : UInt64 := C.word - 1

/-- The slot a position addresses. -/
def Capacity.slotIndex (C : Capacity) (position : UInt64) : Fin C.slots :=
  ⟨(position &&& C.kIndexMask).toNat, by
    rw [kIndexMask, word, and_mask_toNat _ C.representable]
    exact Nat.mod_lt _ (Nat.two_pow_pos _)⟩

/-- The memory of the ring. -/
structure SpscRing (C : Capacity) (α : Type*) where
  writePos : UInt64
  cachedReadPos : UInt64
  readPos : UInt64
  cachedWritePos : UInt64
  slots : Fin C.slots → α

namespace SpscRing
variable {C : Capacity} {α : Type*} (ring : SpscRing C α)

def LooksFull (write : UInt64) : Prop := write - ring.cachedReadPos ≥ C.word

instance (write : UInt64) : Decidable (ring.LooksFull write) :=
  inferInstanceAs (Decidable (_ ≥ _))

def LooksEmpty (read : UInt64) : Prop := read = ring.cachedWritePos

instance (read : UInt64) : Decidable (ring.LooksEmpty read) :=
  inferInstanceAs (Decidable (_ = _))

def refreshReadPos : SpscRing C α := { ring with cachedReadPos := ring.readPos }

def refreshWritePos : SpscRing C α := { ring with cachedWritePos := ring.writePos }

def setSlot (position : UInt64) (value : α) : SpscRing C α :=
  { ring with slots := Function.update ring.slots (C.slotIndex position) value }

end SpscRing

/-- A call the producer makes, one at a time. -/
inductive ProducerCall (α : Type*) where
  | tryPush (value : α)
  | sizeApprox

/-- A call the consumer makes, one at a time. -/
inductive ConsumerCall where
  | tryPop
  | sizeApprox

/-- Where the producer stands in its current call. -/
inductive ProducerPc (α : Type*) where
  | idle
  | pushLoaded (value : α) (write : UInt64)
  | pushReady (value : α) (write : UInt64)
  | pushWritten (value : α) (write : UInt64)
  | sizing (write : UInt64)

/-- Where the consumer stands in its current call. -/
inductive ConsumerPc (α : Type*) where
  | idle
  | popLoaded (read : UInt64)
  | popReady (read : UInt64)
  | popTaken (out : α) (read : UInt64)
  | sizing (write : UInt64)

/-- What a step returns to the caller of the thread that takes it, if its call ends there. -/
inductive Event (α : Type*) where
  | running
  | pushReturned (success : Bool)
  | popReturned (out : Option α)
  | sizeReturned (size : UInt64)
  deriving DecidableEq

/-- One step of one thread. An idle thread starts the call given, a busy one takes the next
access of its call. A slot read by the consumer is left with whatever the move out of it
leaves there. -/
inductive Turn (α : Type*) where
  | producer (call : ProducerCall α)
  | consumer (call : ConsumerCall) (movedFrom : α)

/-- The ring, both threads, and the values whose push or pop has returned true. -/
structure Execution (C : Capacity) (α : Type*) where
  ring : SpscRing C α
  producer : ProducerPc α := .idle
  consumer : ConsumerPc α := .idle
  pushed : List α := []
  popped : List α := []

namespace Execution
variable {C : Capacity} {α : Type*} (e : Execution C α)

/-- The slot access of `emplaceFrom`. -/
def writeSlot (value : α) (write : UInt64) : Execution C α :=
  { e with ring := e.ring.setSlot write value, producer := .pushWritten value write }

/-- The slot access of `tryPop`. -/
def takeSlot (read : UInt64) (movedFrom : α) : Execution C α :=
  { e with
    ring := e.ring.setSlot read movedFrom
    consumer := .popTaken (e.ring.slots (C.slotIndex read)) read }

def producerStep (call : ProducerCall α) : Execution C α × Event α :=
  match e.producer with
  | .idle =>
    match call with
    | .tryPush value => ({ e with producer := .pushLoaded value e.ring.writePos }, .running)
    | .sizeApprox => ({ e with producer := .sizing e.ring.writePos }, .running)
  | .pushLoaded value write =>
    if e.ring.LooksFull write then
      if e.ring.refreshReadPos.LooksFull write then
        ({ e with ring := e.ring.refreshReadPos, producer := .idle }, .pushReturned false)
      else
        ({ e with ring := e.ring.refreshReadPos, producer := .pushReady value write }, .running)
    else (e.writeSlot value write, .running)
  | .pushReady value write => (e.writeSlot value write, .running)
  | .pushWritten value write =>
    ({ e with
        ring := { e.ring with writePos := write + 1 }
        producer := .idle
        pushed := e.pushed ++ [value] }, .pushReturned true)
  | .sizing write => ({ e with producer := .idle }, .sizeReturned (write - e.ring.readPos))

def consumerStep (call : ConsumerCall) (movedFrom : α) : Execution C α × Event α :=
  match e.consumer with
  | .idle =>
    match call with
    | .tryPop => ({ e with consumer := .popLoaded e.ring.readPos }, .running)
    | .sizeApprox => ({ e with consumer := .sizing e.ring.writePos }, .running)
  | .popLoaded read =>
    if e.ring.LooksEmpty read then
      if e.ring.refreshWritePos.LooksEmpty read then
        ({ e with ring := e.ring.refreshWritePos, consumer := .idle }, .popReturned none)
      else
        ({ e with ring := e.ring.refreshWritePos, consumer := .popReady read }, .running)
    else (e.takeSlot read movedFrom, .running)
  | .popReady read => (e.takeSlot read movedFrom, .running)
  | .popTaken out read =>
    ({ e with
        ring := { e.ring with readPos := read + 1 }
        consumer := .idle
        popped := e.popped ++ [out] }, .popReturned (some out))
  | .sizing write => ({ e with consumer := .idle }, .sizeReturned (write - e.ring.readPos))

def step : Turn α → Execution C α × Event α
  | .producer call => e.producerStep call
  | .consumer call movedFrom => e.consumerStep call movedFrom

/-- An empty ring whose positions stand at `start`. -/
def initial (start : UInt64) (slots : Fin C.slots → α) : Execution C α where
  ring :=
    { writePos := start
      cachedReadPos := start
      readPos := start
      cachedWritePos := start
      slots := slots }

/-- The execution before turn `n` of a schedule. -/
def executionAt (schedule : ℕ → Turn α) (n : ℕ) : Execution C α :=
  stateAt (fun e turn => (step e turn).1) e schedule n

/-- What turn `n` of a schedule returns. -/
def eventAt (schedule : ℕ → Turn α) (n : ℕ) : Event α :=
  (step (e.executionAt schedule n) (schedule n)).2

/-- The thread whose turn it is writes slot `index`: the producer its value, the consumer
whatever the move out of the slot leaves there. -/
def WritesSlot (index : Fin C.slots) : Turn α → Prop
  | .producer _ =>
    match e.producer with
    | .pushLoaded _ write => ¬ e.ring.LooksFull write ∧ index = C.slotIndex write
    | .pushReady _ write => index = C.slotIndex write
    | _ => False
  | .consumer _ _ =>
    match e.consumer with
    | .popLoaded read => ¬ e.ring.LooksEmpty read ∧ index = C.slotIndex read
    | .popReady read => index = C.slotIndex read
    | _ => False

instance decidableWritesSlot (index : Fin C.slots) (turn : Turn α) :
    Decidable (e.WritesSlot index turn) := by
  cases turn <;> dsimp only [WritesSlot] <;> split <;> infer_instance

theorem setSlot_of_ne {index : Fin C.slots} {position : UInt64} (value : α)
    (h : index ≠ C.slotIndex position) :
    (e.ring.setSlot position value).slots index = e.ring.slots index :=
  Function.update_of_ne h _ _

/-- A slot that the turn does not write keeps its content. -/
theorem slots_of_not_writesSlot {index : Fin C.slots} {turn : Turn α}
    (h : ¬ e.WritesSlot index turn) : (e.step turn).1.ring.slots index = e.ring.slots index := by
  cases turn with
  | producer call =>
    simp only [WritesSlot] at h
    simp only [step, producerStep]
    cases hp : e.producer with
    | idle => cases call <;> rfl
    | pushLoaded value write =>
      simp only [hp, not_and] at h
      simp only
      split_ifs with hfull hstill
      · rfl
      · rfl
      · exact e.setSlot_of_ne value (h hfull)
    | pushReady value write =>
      simp only [hp] at h
      exact e.setSlot_of_ne value h
    | pushWritten value write => rfl
    | sizing write => rfl
  | consumer call movedFrom =>
    simp only [WritesSlot] at h
    simp only [step, consumerStep]
    cases hc : e.consumer with
    | idle => cases call <;> rfl
    | popLoaded read =>
      simp only [hc, not_and] at h
      simp only
      split_ifs with hempty hstill
      · rfl
      · rfl
      · exact e.setSlot_of_ne movedFrom (h hempty)
    | popReady read =>
      simp only [hc] at h
      exact e.setSlot_of_ne movedFrom h
    | popTaken out read => rfl
    | sizing write => rfl

end Execution
end SafeEdge.Concurrent
