import SafeEdge.Library.Run

/-! The slot between one writer and any number of readers, taken apart into the single accesses
of all threads, and its executions under any interleaving. -/
namespace SafeEdge.Ipc
open Library

/-- A type copied as its object representation, padded to whole 64-bit words. -/
class TriviallyCopyable (T : Type*) where
  kWordCount : ℕ
  toWords : T → Fin kWordCount → UInt64
  ofWords : (Fin kWordCount → UInt64) → T
  ofWords_toWords : ∀ value, ofWords (toWords value) = value

instance (n : ℕ) : TriviallyCopyable (Fin n → UInt64) where
  kWordCount := n
  toWords := id
  ofWords := id
  ofWords_toWords _ := rfl

open TriviallyCopyable

/-- The memory of the slot. -/
structure SeqlockSlot (T : Type*) [TriviallyCopyable T] where
  sequence : UInt64 := 0
  words : Fin (kWordCount T) → UInt64 := fun _ => 0

namespace SeqlockSlot
variable {T : Type*} [TriviallyCopyable T] (slot : SeqlockSlot T)

/-- Number of completed writes. -/
def generation : UInt64 := slot.sequence / 2

def WriteInProgress : Prop := slot.sequence &&& 1 ≠ 0

instance : Decidable slot.WriteInProgress := inferInstanceAs (Decidable (_ ≠ _))

def setWord (index : Fin (kWordCount T)) (word : UInt64) : SeqlockSlot T :=
  { slot with words := Function.update slot.words index word }

end SeqlockSlot

/-- Where the writer stands in its call of `store`. -/
inductive WriterPc (T : Type*) where
  | idle
  | loaded (value : T) (start : UInt64)
  | writing (value : T) (start : UInt64) (index : ℕ)

/-- Where a reader stands in its call of `tryLoad`. -/
inductive ReaderPc (T : Type*) [TriviallyCopyable T] where
  | idle
  | sampling (maxAttempts attempt : ℕ)
  | copying (maxAttempts attempt : ℕ) (before : UInt64)
      (staging : Fin (kWordCount T) → UInt64) (index : ℕ)

/-- What a step returns to the caller of the thread that takes it, if its call ends there. -/
inductive Event where
  | running
  | stored
  | loaded (success : Bool)
  deriving DecidableEq

/-- A reader and the variable its caller wants loaded. -/
structure Reader (T : Type*) [TriviallyCopyable T] where
  pc : ReaderPc T := .idle
  out : T

namespace Reader
variable {T : Type*} [TriviallyCopyable T]

/-- The head of the retry loop. -/
def nextAttempt (out : T) (maxAttempts attempt : ℕ) : Reader T × Event :=
  if attempt < maxAttempts then ({ out, pc := .sampling maxAttempts attempt }, .running)
  else ({ out }, .loaded false)

/-- The next access of `tryLoad`. An idle reader starts a call with the arguments given. -/
def step (reader : Reader T) (slot : SeqlockSlot T) (out : T) (maxAttempts : ℕ) :
    Reader T × Event :=
  match reader.pc with
  | .idle => nextAttempt out maxAttempts 0
  | .sampling maxAttempts attempt =>
    if slot.WriteInProgress then nextAttempt reader.out maxAttempts (attempt + 1)
    else
      ({ reader with pc := .copying maxAttempts attempt slot.sequence (fun _ => 0) 0 }, .running)
  | .copying maxAttempts attempt before staging index =>
    if h : index < kWordCount T then
      ({ reader with
          pc := .copying maxAttempts attempt before
            (Function.update staging ⟨index, h⟩ (slot.words ⟨index, h⟩)) (index + 1) }, .running)
    else if slot.sequence = before then ({ out := ofWords staging }, .loaded true)
    else nextAttempt reader.out maxAttempts (attempt + 1)

/-- What one access of a reader can do. -/
inductive Outcome (reader : Reader T) (slot : SeqlockSlot T) (out : T) (maxAttempts : ℕ) :
    Reader T × Event → Prop
  | call (hidle : reader.pc = .idle) :
      Outcome reader slot out maxAttempts (nextAttempt out maxAttempts 0)
  | collide {most attempt : ℕ} (hsampling : reader.pc = .sampling most attempt)
      (hbusy : slot.WriteInProgress) :
      Outcome reader slot out maxAttempts (nextAttempt reader.out most (attempt + 1))
  | sample {most attempt : ℕ} (hsampling : reader.pc = .sampling most attempt)
      (hquiet : ¬ slot.WriteInProgress) :
      Outcome reader slot out maxAttempts
        ({ reader with pc := .copying most attempt slot.sequence (fun _ => 0) 0 }, .running)
  | copy {most attempt : ℕ} {before : UInt64} {staging : Fin (kWordCount T) → UInt64}
      {index : ℕ} (hcopying : reader.pc = .copying most attempt before staging index)
      (h : index < kWordCount T) :
      Outcome reader slot out maxAttempts
        ({ reader with
            pc := .copying most attempt before
              (Function.update staging ⟨index, h⟩ (slot.words ⟨index, h⟩)) (index + 1) },
          .running)
  | accept {most attempt : ℕ} {staging : Fin (kWordCount T) → UInt64} {index : ℕ}
      (hcopying : reader.pc = .copying most attempt slot.sequence staging index)
      (hdone : ¬ index < kWordCount T) :
      Outcome reader slot out maxAttempts ({ out := ofWords staging }, .loaded true)
  | retry {most attempt : ℕ} {before : UInt64} {staging : Fin (kWordCount T) → UInt64}
      {index : ℕ} (hcopying : reader.pc = .copying most attempt before staging index)
      (hdone : ¬ index < kWordCount T) (hmoved : slot.sequence ≠ before) :
      Outcome reader slot out maxAttempts (nextAttempt reader.out most (attempt + 1))

theorem step_outcome (reader : Reader T) (slot : SeqlockSlot T) (out : T) (maxAttempts : ℕ) :
    Outcome reader slot out maxAttempts (reader.step slot out maxAttempts) := by
  unfold step
  split
  next hidle => exact .call hidle
  next most attempt hsampling =>
    split_ifs with hbusy
    · exact .collide hsampling hbusy
    · exact .sample hsampling hbusy
  next most attempt before staging index hcopying =>
    split_ifs with h hsame
    · exact .copy hcopying h
    · subst hsame
      exact .accept hcopying h
    · exact .retry hcopying h hsame

end Reader

/-- One step of one thread. An idle thread starts the call given, a busy one takes the next
access of its call. -/
inductive Turn (ι T : Type*) where
  | writer (value : T)
  | reader (id : ι) (out : T) (maxAttempts : ℕ)

def Turn.isReader {ι T : Type*} [DecidableEq ι] (id : ι) : Turn ι T → Bool
  | .writer _ => false
  | .reader other _ _ => other = id

/-- The slot, all threads, and the values whose store has returned. -/
structure Execution (ι T : Type*) [TriviallyCopyable T] where
  slot : SeqlockSlot T := {}
  writer : WriterPc T := .idle
  readers : ι → Reader T
  published : List T := []

/-- The words of the latest complete publication, zero before the first. -/
def latestWords {T : Type*} [TriviallyCopyable T] (published : List T) :
    Fin (kWordCount T) → UInt64 :=
  (published.getLast?.map toWords).getD fun _ => 0

/-- The latest complete publication, the zero value before the first. -/
def latest {T : Type*} [TriviallyCopyable T] (published : List T) : T :=
  published.getLast?.getD (ofWords fun _ => 0)

theorem ofWords_latestWords {T : Type*} [TriviallyCopyable T] (published : List T) :
    ofWords (latestWords published) = latest published := by
  unfold latestWords latest
  cases published.getLast? with
  | none => rfl
  | some value => exact ofWords_toWords value

namespace Execution
variable {ι T : Type*} [TriviallyCopyable T] (e : Execution ι T)

/-- The next access of `store`. -/
def writerStep (value : T) : Execution ι T × Event :=
  match e.writer with
  | .idle => ({ e with writer := .loaded value e.slot.sequence }, .running)
  | .loaded value start =>
    ({ e with
        slot := { e.slot with sequence := start + 1 }
        writer := .writing value start 0 }, .running)
  | .writing value start index =>
    if h : index < kWordCount T then
      ({ e with
          slot := e.slot.setWord ⟨index, h⟩ (toWords value ⟨index, h⟩)
          writer := .writing value start (index + 1) }, .running)
    else
      ({ e with
          slot := { e.slot with sequence := start + 2 }
          writer := .idle
          published := e.published ++ [value] }, .stored)

/-- The stores begun so far. -/
def stores : ℕ :=
  match e.writer with
  | .idle => e.published.length
  | .loaded _ _ | .writing _ _ _ => e.published.length + 1

/-- What one access of the writer can do. -/
inductive WriterOutcome (value : T) : Execution ι T × Event → Prop
  | load (hidle : e.writer = .idle) :
      WriterOutcome value ({ e with writer := .loaded value e.slot.sequence }, .running)
  | mark {stored : T} {start : UInt64} (hloaded : e.writer = .loaded stored start) :
      WriterOutcome value
        ({ e with
            slot := { e.slot with sequence := start + 1 }
            writer := .writing stored start 0 }, .running)
  | write {stored : T} {start : UInt64} {index : ℕ}
      (hwriting : e.writer = .writing stored start index) (h : index < kWordCount T) :
      WriterOutcome value
        ({ e with
            slot := e.slot.setWord ⟨index, h⟩ (toWords stored ⟨index, h⟩)
            writer := .writing stored start (index + 1) }, .running)
  | publish {stored : T} {start : UInt64} {index : ℕ}
      (hwriting : e.writer = .writing stored start index) (hdone : ¬ index < kWordCount T) :
      WriterOutcome value
        ({ e with
            slot := { e.slot with sequence := start + 2 }
            writer := .idle
            published := e.published ++ [stored] }, .stored)

theorem writerStep_outcome (value : T) : e.WriterOutcome value (e.writerStep value) := by
  unfold writerStep
  split
  next hidle => exact .load hidle
  next stored start hloaded => exact .mark hloaded
  next stored start index hwriting =>
    split_ifs with h
    · exact .write hwriting h
    · exact .publish hwriting h

variable [DecidableEq ι]

def readerStep (id : ι) (out : T) (maxAttempts : ℕ) : Execution ι T × Event :=
  let (reader, event) := (e.readers id).step e.slot out maxAttempts
  ({ e with readers := Function.update e.readers id reader }, event)

def step : Turn ι T → Execution ι T × Event
  | .writer value => e.writerStep value
  | .reader id out maxAttempts => e.readerStep id out maxAttempts

/-- A fresh slot and idle threads. -/
def initial (outs : ι → T) : Execution ι T where
  readers id := { out := outs id }

/-- The execution before turn `n` of a schedule. -/
def executionAt (schedule : ℕ → Turn ι T) (n : ℕ) : Execution ι T :=
  stateAt (fun e turn => (step e turn).1) e schedule n

/-- What turn `n` of a schedule returns. -/
def eventAt (schedule : ℕ → Turn ι T) (n : ℕ) : Event :=
  ((e.executionAt schedule n).step (schedule n)).2

theorem executionAt_succ (schedule : ℕ → Turn ι T) (n : ℕ) :
    e.executionAt schedule (n + 1) = ((e.executionAt schedule n).step (schedule n)).1 := rfl

@[simp] theorem step_reader_slot (id : ι) (out : T) (maxAttempts : ℕ) :
    (e.step (.reader id out maxAttempts)).1.slot = e.slot := rfl

theorem step_reader_self (id : ι) (out : T) (maxAttempts : ℕ) :
    (e.step (.reader id out maxAttempts)).1.readers id =
      ((e.readers id).step e.slot out maxAttempts).1 :=
  Function.update_self ..

theorem step_reader_of_ne {id other : ι} (h : other ≠ id) (out : T) (maxAttempts : ℕ) :
    (e.step (.reader id out maxAttempts)).1.readers other = e.readers other :=
  Function.update_of_ne h ..

@[simp] theorem step_writer_readers (value : T) :
    (e.step (.writer value)).1.readers = e.readers := by
  have hout := e.writerStep_outcome value
  change (e.writerStep value).1.readers = e.readers
  generalize e.writerStep value = result at hout
  cases hout <;> rfl

/-- What a turn can do to one reader. -/
inductive ReaderOutcome (id : ι) : Turn ι T → Reader T → Prop
  | own (out : T) (maxAttempts : ℕ) :
      ReaderOutcome id (.reader id out maxAttempts)
        ((e.readers id).step e.slot out maxAttempts).1
  | other {turn : Turn ι T} (h : turn.isReader id = false) :
      ReaderOutcome id turn (e.readers id)

theorem step_readerOutcome (turn : Turn ι T) (id : ι) :
    e.ReaderOutcome id turn ((e.step turn).1.readers id) := by
  cases turn with
  | writer value =>
    rw [step_writer_readers]
    exact .other rfl
  | reader other out maxAttempts =>
    by_cases hself : other = id
    · subst hself
      rw [step_reader_self]
      exact .own out maxAttempts
    · rw [step_reader_of_ne e fun heq => hself heq.symm]
      exact .other (decide_eq_false hself)

end Execution
end SafeEdge.Ipc
