import SafeEdge.Ipc.SeqlockReaders
import SafeEdge.Library.ReleaseAcquire

/-! The slot under the orderings its accesses name, where a load may return an old write and a
thread learns of the other words only what it acquires. -/
namespace SafeEdge.Ipc
open Library TriviallyCopyable

/-- The atomic objects of a slot. -/
inductive SlotPlace (wordCount : ℕ) where
  | sequence
  | word (index : Fin wordCount)
  deriving DecidableEq

/-- The orderings of the stores and loads of the counter and the words, by default the source's. -/
structure SlotOrders where
  counterStore : MemoryOrder := .seqCst
  wordStore : MemoryOrder := .release
  counterLoad : MemoryOrder := .seqCst
  wordLoad : MemoryOrder := .seqCst

namespace SlotOrders
variable {n : ℕ} (orders : SlotOrders)

def store : SlotPlace n → MemoryOrder
  | .sequence => orders.counterStore
  | .word _ => orders.wordStore

def load : SlotPlace n → MemoryOrder
  | .sequence => orders.counterLoad
  | .word _ => orders.wordLoad

/-- Every store releases and every load acquires. -/
structure Synchronize : Prop where
  counterStore : orders.counterStore.releases = true
  wordStore : orders.wordStore.releases = true
  counterLoad : orders.counterLoad.acquires = true
  wordLoad : orders.wordLoad.acquires = true

variable {orders}

theorem Synchronize.store (h : orders.Synchronize) (place : SlotPlace n) :
    (orders.store place).releases = true := by
  cases place with
  | sequence => exact h.counterStore
  | word => exact h.wordStore

theorem Synchronize.load (h : orders.Synchronize) (place : SlotPlace n) :
    (orders.load place).acquires = true := by
  cases place with
  | sequence => exact h.counterLoad
  | word => exact h.wordLoad

end SlotOrders

variable {T : Type*} [TriviallyCopyable T]

/-- The object the next access of a reader loads. -/
def ReaderPc.place : ReaderPc T → Option (SlotPlace (kWordCount T))
  | .idle => none
  | .sampling _ _ => some .sequence
  | .copying _ _ _ _ index =>
    if h : index < kWordCount T then some (.word ⟨index, h⟩) else some .sequence

/-- A slot as an access sees it that loads a value from it. -/
def SeqlockSlot.showing (value : UInt64) : SeqlockSlot T := ⟨value, fun _ => value⟩

/-- One step of one thread, a load with the write it would return. Threads may also synchronize by
other means; the writer is `none`. -/
inductive OrderedTurn (ι T : Type*) where
  | writer (value : T) (choice : ℕ)
  | reader (id : ι) (out : T) (maxAttempts choice : ℕ)
  | synchronize (source target : Option ι)

/-- The objects of the slot, all threads with their views, and the values whose store has
returned. -/
structure OrderedExecution (ι T : Type*) [TriviallyCopyable T] where
  memory : SlotPlace (kWordCount T) → Atomic (SlotPlace (kWordCount T)) UInt64 :=
    fun _ => .initial 0
  writer : WriterPc T := .idle
  readers : ι → Reader T
  views : Option ι → View (SlotPlace (kWordCount T)) := fun _ => 0
  published : List T := []

namespace OrderedExecution
variable {ι : Type*} [DecidableEq ι] (orders : SlotOrders) (e : OrderedExecution ι T)

/-- A store of the writer. -/
def write (place : SlotPlace (kWordCount T)) (value : UInt64) : OrderedExecution ι T :=
  let stored := (e.memory place).store place (orders.store place) (e.views none) value
  { e with
    memory := Function.update e.memory place stored.1
    views := Function.update e.views none stored.2 }

/-- The next access of `store`. -/
def writerStep (value : T) (choice : ℕ) : OrderedExecution ι T × Event :=
  match e.writer with
  | .idle =>
    let loaded := (e.memory .sequence).load .sequence .relaxed (e.views none) choice
    ({ e with
        writer := .loaded value loaded.1
        views := Function.update e.views none loaded.2 }, .running)
  | .loaded value start =>
    ({ e.write orders .sequence (start + 1) with writer := .writing value start 0 }, .running)
  | .writing value start index =>
    if h : index < kWordCount T then
      ({ e.write orders (.word ⟨index, h⟩) (toWords value ⟨index, h⟩) with
          writer := .writing value start (index + 1) }, .running)
    else
      ({ e.write orders .sequence (start + 2) with
          writer := .idle
          published := e.published ++ [value] }, .stored)

/-- The next access of `tryLoad`. -/
def readerStep (id : ι) (out : T) (maxAttempts choice : ℕ) : OrderedExecution ι T × Event :=
  match (e.readers id).pc.place with
  | none =>
    let (reader, event) := (e.readers id).step {} out maxAttempts
    ({ e with readers := Function.update e.readers id reader }, event)
  | some place =>
    let loaded := (e.memory place).load place (orders.load place) (e.views (some id)) choice
    let (reader, event) := (e.readers id).step (.showing loaded.1) out maxAttempts
    ({ e with
        readers := Function.update e.readers id reader
        views := Function.update e.views (some id) loaded.2 }, event)

def step : OrderedTurn ι T → OrderedExecution ι T × Event
  | .writer value choice => e.writerStep orders value choice
  | .reader id out maxAttempts choice => e.readerStep orders id out maxAttempts choice
  | .synchronize source target =>
    ({ e with views := Function.update e.views target (e.views target ⊔ e.views source) },
      .running)

/-- A fresh slot and idle threads. -/
def initial (outs : ι → T) : OrderedExecution ι T where
  readers id := { out := outs id }

/-- The execution before turn `n` of a schedule. -/
def executionAt (schedule : ℕ → OrderedTurn ι T) (n : ℕ) : OrderedExecution ι T :=
  stateAt (fun e turn => (step orders e turn).1) e schedule n

/-- What turn `n` of a schedule returns. -/
def eventAt (schedule : ℕ → OrderedTurn ι T) (n : ℕ) : Event :=
  ((e.executionAt orders schedule n).step orders (schedule n)).2

/-- The reader's call returns at turn `k`. -/
def Returns (schedule : ℕ → OrderedTurn ι T) (id : ι) (k : ℕ) (success : Bool) : Prop :=
  (∃ out maxAttempts choice, schedule k = .reader id out maxAttempts choice) ∧
    e.eventAt orders schedule k = .loaded success

end OrderedExecution

namespace OrderedExecution
variable {ι : Type*} [DecidableEq ι] {orders : SlotOrders} {e : OrderedExecution ι T}

/-- A thread that learns something keeps what it knows, and so do the others. -/
theorem le_update_views {who : Option ι} {view : View (SlotPlace (kWordCount T))}
    (h : e.views who ≤ view) (thread : Option ι) :
    e.views thread ≤ Function.update e.views who view thread := by
  by_cases hthread : thread = who
  · subst hthread
    rw [Function.update_self]
    exact h
  · rw [Function.update_of_ne hthread]

/-- No thread forgets. -/
theorem le_step_views (turn : OrderedTurn ι T) (thread : Option ι) :
    e.views thread ≤ (e.step orders turn).1.views thread := by
  cases turn with
  | writer value choice =>
    change _ ≤ (e.writerStep orders value choice).1.views thread
    unfold OrderedExecution.writerStep
    split
    · exact le_update_views (Atomic.le_load choice) thread
    · exact le_update_views le_sup_left thread
    · split_ifs
      · exact le_update_views le_sup_left thread
      · exact le_update_views le_sup_left thread
  | reader id out maxAttempts choice =>
    change _ ≤ (e.readerStep orders id out maxAttempts choice).1.views thread
    unfold OrderedExecution.readerStep
    split
    · exact le_rfl
    · exact le_update_views (Atomic.le_load choice) thread
  | synchronize source target => exact le_update_views le_sup_left thread

end OrderedExecution
end SafeEdge.Ipc
