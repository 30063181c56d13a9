import SafeEdge.Concurrent.SpscFifo
import SafeEdge.Concurrent.SpscOrdering

/-! What the producer and the consumer of the ring know of each other: the promises of the
positions, and the invariant that every access of either thread keeps. -/
namespace SafeEdge.Concurrent
open Library

namespace OrderedExecution
variable {C : Capacity} {α : Type*} (e : OrderedExecution C α)

/-- The values put into slots so far. -/
def filled : List α :=
  match e.producer with
  | .pushWritten value _ => e.pushed ++ [value]
  | _ => e.pushed

/-- The number of values taken out of slots so far. -/
def taken : ℕ :=
  match e.consumer with
  | .popTaken _ _ => e.popped.length + 1
  | _ => e.popped.length

/-- The writes made to each position and the accesses of each slot. -/
def made : View (RingPlace C)
  | .writePos => e.writePos.last
  | .readPos => e.readPos.last
  | .slot index => (e.slots index).accesses

end OrderedExecution

section Visits
variable {C : Capacity} (start : UInt64)

/-- How many of the first positions address a slot. -/
def visits (count : ℕ) (index : Fin C.slots) : ℕ :=
  Nat.count (fun position => C.slotIndex (counterAt start position) = index) count

variable {start}

theorem visits_succ_self (count : ℕ) :
    visits start (count + 1) (C.slotIndex (counterAt start count)) =
      visits start count (C.slotIndex (counterAt start count)) + 1 := by
  rw [visits, Nat.count_succ, if_pos rfl]
  rfl

theorem visits_succ_of_ne {count : ℕ} {index : Fin C.slots}
    (h : index ≠ C.slotIndex (counterAt start count)) :
    visits start (count + 1) index = visits start count index := by
  rw [visits, Nat.count_succ, if_neg h.symm]
  rfl

theorem visits_mono (index : Fin C.slots) : Monotone fun count => visits start count index :=
  Nat.count_monotone _

theorem visits_eq_of_unvisited {first last : ℕ} (hle : first ≤ last) {index : Fin C.slots}
    (h : ∀ position, first ≤ position → position < last →
      index ≠ C.slotIndex (counterAt start position)) :
    visits start last index = visits start first index := by
  induction last, hle using Nat.le_induction with
  | base => rfl
  | succ last hle ih =>
    rw [visits_succ_of_ne (h last hle last.lt_succ_self)]
    exact ih fun position hfrom hto => h position hfrom (hto.trans last.lt_succ_self)

/-- On a lap around the ring each slot comes at most once. -/
theorem visits_le_add_one {first last : ℕ} (h : last ≤ first + C.slots) (index : Fin C.slots) :
    visits start last index ≤ visits start first index + 1 := by
  rcases le_total last first with hle | hle
  · exact (visits_mono index hle).trans (Nat.le_succ _)
  by_cases hvisited : ∃ position, first ≤ position ∧ position < last ∧
      index = C.slotIndex (counterAt start position)
  · obtain ⟨position, hfrom, hto, rfl⟩ := hvisited
    rw [visits_eq_of_unvisited (Nat.succ_le_of_lt hto) fun other hother hlast =>
      (Execution.slotIndex_ne hother (by omega)).symm, visits_succ_self,
      visits_eq_of_unvisited hfrom fun other hother hlast =>
        Execution.slotIndex_ne hlast (by omega)]
  · rw [visits_eq_of_unvisited hle fun position hfrom hto heq =>
      hvisited ⟨position, hfrom, hto, heq⟩]
    exact Nat.le_succ _

end Visits

section Promises
variable {C : Capacity} {start : UInt64} {view wider : View (RingPlace C)} {slack count : ℕ}

/-- A view that tells of the accesses of a number of pushes (with one access of slack, that of the
pop) or of pops. -/
def TellsOf (start : UInt64) (slack count : ℕ) (view : View (RingPlace C)) : Prop :=
  ∀ index, 2 * visits start count index ≤ view (.slot index) + slack

theorem TellsOf.mono (h : TellsOf start slack count view) (hle : view ≤ wider) :
    TellsOf start slack count wider :=
  fun index => (h index).trans (Nat.add_le_add_right (hle _) _)

/-- The access of the next position. -/
theorem TellsOf.access (h : TellsOf start slack count view) {number : ℕ}
    (hnumber : 2 * (visits start count (C.slotIndex (counterAt start count)) + 1) ≤
      number + slack) :
    TellsOf start slack (count + 1)
      (Function.update view (.slot (C.slotIndex (counterAt start count))) number) := by
  intro index
  by_cases hindex : index = C.slotIndex (counterAt start count)
  · subst hindex
    rw [Function.update_self, visits_succ_self]
    exact hnumber
  · rw [Function.update_of_ne fun heq => hindex (RingPlace.slot.inj heq),
      visits_succ_of_ne hindex]
    exact h index

/-- What a position promises whoever acquires it: that it counts its own writes, and that the slots
before it have been accessed. -/
def PositionPromise (start : UInt64) (slack number : ℕ) (value : UInt64)
    (view : View (RingPlace C)) : Prop :=
  value = counterAt start number ∧ TellsOf start slack number view

theorem positionPromise_mono (number : ℕ) (value : UInt64) :
    Monotone (PositionPromise (C := C) start slack number value) :=
  fun _ _ hle h => ⟨h.1, h.2.mono hle⟩

end Promises

namespace OrderedExecution
variable {C : Capacity} {α : Type*}

/-- What the producer has established at its point of the current call. -/
def ProducerHolds (e : OrderedExecution C α) (start : UInt64) (seenRead : ℕ) : Prop :=
  match e.producer with
  | .idle => True
  | .pushLoaded _ write | .pushWritten _ write | .sizing write =>
    write = counterAt start e.pushed.length
  | .pushReady _ write =>
    write = counterAt start e.pushed.length ∧ e.pushed.length < seenRead + C.slots

/-- What the consumer has established at its point of the current call. -/
def ConsumerHolds (e : OrderedExecution C α) (start : UInt64) (seenWrite : ℕ) : Prop :=
  match e.consumer with
  | .idle => True
  | .popLoaded read => read = counterAt start e.popped.length
  | .popReady read => read = counterAt start e.popped.length ∧ e.popped.length < seenWrite
  | .popTaken out read =>
    read = counterAt start e.popped.length ∧ e.pushed[e.popped.length]? = some out
  | .sizing write => ∃ count, e.popped.length ≤ count ∧ count ≤ e.pushed.length ∧
      write = counterAt start count

/-- The positions keep their promises, each cached copy lags behind its original and its thread
knows what it tells of, every slot has been accessed in turns, and holds its value from the push
to the pop. -/
structure Consistent (start : UInt64) (seenRead seenWrite : ℕ) (e : OrderedExecution C α) :
    Prop where
  ordered : seenRead ≤ e.popped.length ∧ e.taken ≤ seenWrite ∧ seenWrite ≤ e.pushed.length ∧
    e.filled.length ≤ seenRead + C.slots
  writePos : e.writePos.last = e.pushed.length ∧ e.writePos.Keeps (PositionPromise start 1) ∧
    e.writePos.Keeps fun _ _ view => view ≤ e.made
  readPos : e.readPos.last = e.popped.length ∧ e.readPos.Keeps (PositionPromise start 0) ∧
    e.readPos.Keeps fun _ _ view => view ≤ e.made
  cachedReadPos : e.cachedReadPos = counterAt start seenRead
  cachedWritePos : e.cachedWritePos = counterAt start seenWrite
  accesses : ∀ index, (e.slots index).accesses =
    visits start e.filled.length index + visits start e.taken index
  producerView : e.producerView ≤ e.made ∧ e.pushed.length ≤ e.producerView .writePos ∧
    seenRead ≤ e.producerView .readPos ∧ TellsOf start 1 e.filled.length e.producerView ∧
    TellsOf start 0 seenRead e.producerView
  consumerView : e.consumerView ≤ e.made ∧ e.popped.length ≤ e.consumerView .readPos ∧
    seenWrite ≤ e.consumerView .writePos ∧ TellsOf start 0 e.taken e.consumerView ∧
    TellsOf start 1 seenWrite e.consumerView
  popped_prefix : e.popped <+: e.pushed
  contents : ∀ j, e.taken ≤ j → j < e.filled.length →
    e.filled[j]? = some (e.slots (C.slotIndex (counterAt start j))).value
  producer : e.ProducerHolds start seenRead
  consumer : e.ConsumerHolds start seenWrite
  unraced : e.raced = false

theorem initial_consistent (start : UInt64) (slots : Fin C.slots → α) :
    Consistent start 0 0 (initial start slots) where
  ordered := ⟨le_rfl, le_rfl, le_rfl, Nat.zero_le _⟩
  writePos := ⟨rfl, Atomic.keeps_initial ⟨(counterAt_zero start).symm, fun _ => Nat.zero_le _⟩,
    Atomic.keeps_initial fun _ => Nat.zero_le _⟩
  readPos := ⟨rfl, Atomic.keeps_initial ⟨(counterAt_zero start).symm, fun _ => le_rfl⟩,
    Atomic.keeps_initial fun _ => Nat.zero_le _⟩
  cachedReadPos := (counterAt_zero start).symm
  cachedWritePos := (counterAt_zero start).symm
  accesses _ := rfl
  producerView := ⟨fun _ => Nat.zero_le _, le_rfl, le_rfl, fun _ => Nat.zero_le _, fun _ => le_rfl⟩
  consumerView := ⟨fun _ => Nat.zero_le _, le_rfl, le_rfl, fun _ => le_rfl, fun _ => Nat.zero_le _⟩
  popped_prefix := List.prefix_rfl
  contents j _ hj := absurd hj (Nat.not_lt_zero j)
  producer := trivial
  consumer := trivial
  unraced := rfl

variable {start : UInt64} {seenRead seenWrite : ℕ} {e : OrderedExecution C α}
  {orders : RingOrders} {order : MemoryOrder} {view : View (RingPlace C)}

theorem popped_le_taken (e : OrderedExecution C α) : e.popped.length ≤ e.taken := by
  unfold taken
  split <;> omega

theorem filled_getElem (e : OrderedExecution C α) {j : ℕ} (h : j < e.pushed.length) :
    e.filled[j]? = e.pushed[j]? := by
  unfold filled
  split
  · exact List.getElem?_append_left h
  · rfl

theorem pushed_le_filled (e : OrderedExecution C α) : e.pushed.length ≤ e.filled.length := by
  unfold filled
  split <;> simp

/-- The accesses of all slots after that of the next position. -/
theorem accesses_update {slots : Fin C.slots → Cell α} {count : ℕ} {others : Fin C.slots → ℕ}
    (h : ∀ index, (slots index).accesses = visits start count index + others index) (value : α)
    (index : Fin C.slots) :
    (Function.update slots (C.slotIndex (counterAt start count))
      ⟨value, (slots (C.slotIndex (counterAt start count))).accesses + 1⟩ index).accesses =
        visits start (count + 1) index + others index := by
  by_cases hindex : index = C.slotIndex (counterAt start count)
  · subst hindex
    rw [Function.update_self, visits_succ_self, h]
    exact Nat.add_right_comm ..
  · rw [Function.update_of_ne hindex, visits_succ_of_ne hindex, h]

/-- An access of a slot is counted. -/
theorem made_le_access (e : OrderedExecution C α) (index : Fin C.slots) (value : α) :
    e.made ≤ made { e with
      slots := Function.update e.slots index ⟨value, (e.slots index).accesses + 1⟩ } := by
  intro place
  cases place with
  | writePos | readPos => exact le_rfl
  | slot other =>
    change (e.slots other).accesses ≤ (Function.update e.slots index _ other).accesses
    by_cases hother : other = index
    · subst hother
      rw [Function.update_self]
      exact Nat.le_succ _
    · rw [Function.update_of_ne hother]

namespace Consistent

theorem loadWritePos_view (h : Consistent start seenRead seenWrite e) (hview : view ≤ e.made)
    (order : MemoryOrder) (choice : ℕ) : view ≤ (e.loadWritePos order view choice).2 ∧
      (e.loadWritePos order view choice).2 ≤ e.made :=
  ⟨Atomic.le_load choice, Atomic.load_le hview le_rfl h.writePos.2.2 (hview _) choice⟩

theorem loadReadPos_view (h : Consistent start seenRead seenWrite e) (hview : view ≤ e.made)
    (order : MemoryOrder) (choice : ℕ) : view ≤ (e.loadReadPos order view choice).2 ∧
      (e.loadReadPos order view choice).2 ≤ e.made :=
  ⟨Atomic.le_load choice, Atomic.load_le hview le_rfl h.readPos.2.2 (hview _) choice⟩

/-- The write position as a thread loads it that acquires it. -/
theorem loadWritePos_reads (h : Consistent start seenRead seenWrite e) (hview : view ≤ e.made)
    (horder : order.acquires = true) (choice : ℕ) :
    ∃ number, view .writePos ≤ number ∧ number ≤ e.pushed.length ∧
      number ≤ (e.loadWritePos order view choice).2 .writePos ∧
      (e.loadWritePos order view choice).1 = counterAt start number ∧
      TellsOf start 1 number (e.loadWritePos order view choice).2 := by
  obtain ⟨number, hfrom, hlast, hread, hvalue, htells⟩ :=
    h.writePos.2.1.load (hview .writePos) positionPromise_mono horder choice
  exact ⟨number, hfrom, hlast.trans_eq h.writePos.1, hread, hvalue, htells⟩

/-- The read position as a thread loads it that acquires it. -/
theorem loadReadPos_reads (h : Consistent start seenRead seenWrite e) (hview : view ≤ e.made)
    (horder : order.acquires = true) (choice : ℕ) :
    ∃ number, view .readPos ≤ number ∧ number ≤ e.popped.length ∧
      number ≤ (e.loadReadPos order view choice).2 .readPos ∧
      (e.loadReadPos order view choice).1 = counterAt start number ∧
      TellsOf start 0 number (e.loadReadPos order view choice).2 := by
  obtain ⟨number, hfrom, hlast, hread, hvalue, htells⟩ :=
    h.readPos.2.1.load (hview .readPos) positionPromise_mono horder choice
  exact ⟨number, hfrom, hlast.trans_eq h.readPos.1, hread, hvalue, htells⟩

/-- A thread reads its own position as it is. -/
theorem loadWritePos_own (h : Consistent start seenRead seenWrite e) (choice : ℕ) :
    (e.loadWritePos order e.producerView choice).1 = counterAt start e.pushed.length := by
  obtain ⟨hlast, hkeeps, -⟩ := h.writePos
  obtain ⟨hwithin, hown, -⟩ := h.producerView
  have hknown : e.producerView .writePos = e.writePos.last :=
    le_antisymm (hwithin .writePos) (hlast.trans_le hown)
  rw [loadWritePos, Atomic.load_of_known hknown, (hkeeps _ le_rfl).1, hlast]

theorem loadReadPos_own (h : Consistent start seenRead seenWrite e) (choice : ℕ) :
    (e.loadReadPos order e.consumerView choice).1 = counterAt start e.popped.length := by
  obtain ⟨hlast, hkeeps, -⟩ := h.readPos
  obtain ⟨hwithin, hown, -⟩ := h.consumerView
  have hknown : e.consumerView .readPos = e.readPos.last :=
    le_antisymm (hwithin .readPos) (hlast.trans_le hown)
  rw [loadReadPos, Atomic.load_of_known hknown, (hkeeps _ le_rfl).1, hlast]

/-- The producer goes on in its call, with what it has learnt and with a reading of the consumer's
position that is no older than the last. -/
theorem producer_refresh (h : Consistent start seenRead seenWrite e) {number : ℕ} {value : UInt64}
    {pc : ProducerPc α} (hfrom : seenRead ≤ number) (hto : number ≤ e.popped.length)
    (hvalue : value = counterAt start number) (hle : e.producerView ≤ view)
    (hwithin : view ≤ e.made) (hknown : number ≤ view .readPos)
    (htells : TellsOf start 0 number view)
    (hfilled : filled { e with producer := pc } = e.filled)
    (hpc : ProducerHolds { e with producer := pc } start number) :
    Consistent start number seenWrite
      { e with cachedReadPos := value, producerView := view, producer := pc } := by
  obtain ⟨-, htaken, hseen, hroom⟩ := h.ordered
  obtain ⟨-, hown, -, hwritten, -⟩ := h.producerView
  constructor
  case ordered =>
    exact ⟨hto, htaken, hseen, hfilled ▸ hroom.trans (Nat.add_le_add_right hfrom _)⟩
  case writePos => exact h.writePos
  case readPos => exact h.readPos
  case cachedReadPos => exact hvalue
  case cachedWritePos => exact h.cachedWritePos
  case accesses => exact hfilled ▸ h.accesses
  case producerView =>
    exact ⟨hwithin, hown.trans (hle _), hknown, hfilled ▸ hwritten.mono hle, htells⟩
  case consumerView => exact h.consumerView
  case popped_prefix => exact h.popped_prefix
  case contents => exact hfilled ▸ h.contents
  case producer => exact hpc
  case consumer => exact h.consumer
  case unraced => exact h.unraced

theorem producer_learns (h : Consistent start seenRead seenWrite e) {pc : ProducerPc α}
    (hle : e.producerView ≤ view) (hwithin : view ≤ e.made)
    (hfilled : filled { e with producer := pc } = e.filled)
    (hpc : ProducerHolds { e with producer := pc } start seenRead) :
    Consistent start seenRead seenWrite { e with producerView := view, producer := pc } :=
  h.producer_refresh le_rfl h.ordered.1 h.cachedReadPos hle hwithin
    (h.producerView.2.2.1.trans (hle _)) (h.producerView.2.2.2.2.mono hle) hfilled hpc

/-- The consumer goes on in its call, with what it has learnt and with a reading of the producer's
position that is no older than the last. -/
theorem consumer_refresh (h : Consistent start seenRead seenWrite e) {number : ℕ} {value : UInt64}
    {pc : ConsumerPc α} (hfrom : seenWrite ≤ number) (hto : number ≤ e.pushed.length)
    (hvalue : value = counterAt start number) (hle : e.consumerView ≤ view)
    (hwithin : view ≤ e.made) (hknown : number ≤ view .writePos)
    (htells : TellsOf start 1 number view)
    (htaken : taken { e with consumer := pc } = e.taken)
    (hpc : ConsumerHolds { e with consumer := pc } start number) :
    Consistent start seenRead number
      { e with cachedWritePos := value, consumerView := view, consumer := pc } := by
  obtain ⟨hpopped, hready, -, hroom⟩ := h.ordered
  obtain ⟨-, hown, -, hmoved, -⟩ := h.consumerView
  constructor
  case ordered => exact ⟨hpopped, htaken ▸ hready.trans hfrom, hto, hroom⟩
  case writePos => exact h.writePos
  case readPos => exact h.readPos
  case cachedReadPos => exact h.cachedReadPos
  case cachedWritePos => exact hvalue
  case accesses => exact htaken ▸ h.accesses
  case producerView => exact h.producerView
  case consumerView =>
    exact ⟨hwithin, hown.trans (hle _), hknown, htaken ▸ hmoved.mono hle, htells⟩
  case popped_prefix => exact h.popped_prefix
  case contents => exact htaken ▸ h.contents
  case producer => exact h.producer
  case consumer => exact hpc
  case unraced => exact h.unraced

theorem consumer_learns (h : Consistent start seenRead seenWrite e) {pc : ConsumerPc α}
    (hle : e.consumerView ≤ view) (hwithin : view ≤ e.made)
    (htaken : taken { e with consumer := pc } = e.taken)
    (hpc : ConsumerHolds { e with consumer := pc } start seenWrite) :
    Consistent start seenRead seenWrite { e with consumerView := view, consumer := pc } :=
  h.consumer_refresh le_rfl h.ordered.2.2.1 h.cachedWritePos hle hwithin
    (h.consumerView.2.2.1.trans (hle _)) (h.consumerView.2.2.2.2.mono hle) htaken hpc

/-- The producer that has room knows every access of the slot it is going to write. -/
theorem producer_knows_slot (h : Consistent start seenRead seenWrite e)
    (hroom : e.pushed.length < seenRead + C.slots) (hfilled : e.filled = e.pushed) :
    visits start e.taken (C.slotIndex (counterAt start e.pushed.length)) =
        visits start e.pushed.length (C.slotIndex (counterAt start e.pushed.length)) ∧
      e.producerView (.slot (C.slotIndex (counterAt start e.pushed.length))) =
        (e.slots (C.slotIndex (counterAt start e.pushed.length))).accesses := by
  obtain ⟨hseen, htaken, hpushed, -⟩ := h.ordered
  set index := C.slotIndex (counterAt start e.pushed.length) with hindex
  have hlap : visits start (e.pushed.length + 1) index ≤ visits start seenRead index + 1 :=
    visits_le_add_one hroom index
  rw [hindex, visits_succ_self, ← hindex] at hlap
  have hseenTaken : visits start seenRead index ≤ visits start e.taken index :=
    visits_mono index (hseen.trans (popped_le_taken e))
  have htakenPushed : visits start e.taken index ≤ visits start e.pushed.length index :=
    visits_mono index (htaken.trans hpushed)
  have haccesses := h.accesses index
  rw [hfilled] at haccesses
  have htells := h.producerView.2.2.2.2 index
  have hwithin : e.producerView (.slot index) ≤ (e.slots index).accesses :=
    h.producerView.1 (.slot index)
  omega

/-- The consumer that has an element knows every access of the slot it is going to read. -/
theorem consumer_knows_slot (h : Consistent start seenRead seenWrite e)
    (hready : e.popped.length < seenWrite) (htaken : e.taken = e.popped.length) :
    visits start e.filled.length (C.slotIndex (counterAt start e.popped.length)) =
        visits start e.popped.length (C.slotIndex (counterAt start e.popped.length)) + 1 ∧
      e.consumerView (.slot (C.slotIndex (counterAt start e.popped.length))) =
        (e.slots (C.slotIndex (counterAt start e.popped.length))).accesses := by
  obtain ⟨hseen, -, hpushed, hroom⟩ := h.ordered
  set index := C.slotIndex (counterAt start e.popped.length) with hindex
  have hnext : visits start (e.popped.length + 1) index ≤ visits start seenWrite index :=
    visits_mono index hready
  rw [hindex, visits_succ_self, ← hindex] at hnext
  have hlap : visits start e.filled.length index ≤ visits start e.popped.length index + 1 :=
    visits_le_add_one (hroom.trans (Nat.add_le_add_right hseen _)) index
  have hfilled : visits start seenWrite index ≤ visits start e.filled.length index :=
    visits_mono index (hpushed.trans (pushed_le_filled e))
  have haccesses := h.accesses index
  rw [htaken] at haccesses
  have htells := h.consumerView.2.2.2.2 index
  have hwithin : e.consumerView (.slot index) ≤ (e.slots index).accesses :=
    h.consumerView.1 (.slot index)
  omega

theorem producer_writeSlot (h : Consistent start seenRead seenWrite e) (value : α)
    (hroom : e.pushed.length < seenRead + C.slots) (hfilled : e.filled = e.pushed) :
    Consistent start seenRead seenWrite
      (e.writeSlot value (counterAt start e.pushed.length)) := by
  obtain ⟨hvisits, hknown⟩ := h.producer_knows_slot hroom hfilled
  obtain ⟨hseen, htaken, hpushed, -⟩ := h.ordered
  obtain ⟨hwithin, hown, hcached, htells, htellsSeen⟩ := h.producerView
  have haccesses := h.accesses
  rw [hfilled] at haccesses htells
  simp only [writeSlot, Cell.exchange_of_known hknown]
  have hturn := haccesses (C.slotIndex (counterAt start e.pushed.length))
  have hmade := made_le_access e (C.slotIndex (counterAt start e.pushed.length)) value
  have hlater : e.producerView ≤ Function.update e.producerView
      (.slot (C.slotIndex (counterAt start e.pushed.length)))
      ((e.slots (C.slotIndex (counterAt start e.pushed.length))).accesses + 1) :=
    le_update_iff.mpr ⟨hknown.trans_le (Nat.le_succ _), fun _ _ => le_rfl⟩
  have hlength : (e.pushed ++ [value]).length = e.pushed.length + 1 := by simp
  constructor
  case ordered => exact ⟨hseen, htaken, hpushed, hlength.trans_le hroom⟩
  case writePos =>
    exact ⟨h.writePos.1, h.writePos.2.1, h.writePos.2.2.imp fun _ _ _ _ hle => hle.trans hmade⟩
  case readPos =>
    exact ⟨h.readPos.1, h.readPos.2.1, h.readPos.2.2.imp fun _ _ _ _ hle => hle.trans hmade⟩
  case cachedReadPos => exact h.cachedReadPos
  case cachedWritePos => exact h.cachedWritePos
  case accesses =>
    intro index
    change _ = visits start (e.pushed ++ [value]).length index + visits start e.taken index
    rw [hlength]
    exact accesses_update haccesses value index
  case producerView =>
    refine ⟨?_, hown.trans (hlater _), hcached.trans (hlater _), ?_, htellsSeen.mono hlater⟩
    · refine update_le_iff.mpr ⟨?_, fun place _ => (hwithin place).trans (hmade place)⟩
      simp [made]
    · change TellsOf start 1 (e.pushed ++ [value]).length _
      rw [hlength]
      exact htells.access (by omega)
  case consumerView => exact ⟨h.consumerView.1.trans hmade, h.consumerView.2⟩
  case popped_prefix => exact h.popped_prefix
  case contents =>
    intro j hj hlt
    have hcontents := h.contents j hj
    rw [hfilled] at hcontents
    change (e.pushed ++ [value])[j]? = some (Function.update e.slots
      (C.slotIndex (counterAt start e.pushed.length)) ⟨value, (e.slots _).accesses + 1⟩
      (C.slotIndex (counterAt start j))).value
    rcases Nat.lt_succ_iff_lt_or_eq.mp (hlt.trans_eq hlength) with hold | rfl
    · have hunread := (popped_le_taken e).trans hj
      rw [List.getElem?_append_left hold, hcontents hold,
        Function.update_of_ne (Execution.slotIndex_ne hold (by omega)).symm]
    · rw [List.getElem?_concat_length, Function.update_self]
  case producer => rfl
  case consumer => exact h.consumer
  case unraced => exact h.unraced

theorem consumer_takeSlot (h : Consistent start seenRead seenWrite e) (movedFrom : α)
    (hready : e.popped.length < seenWrite) (htaken : e.taken = e.popped.length) :
    Consistent start seenRead seenWrite
      (e.takeSlot (counterAt start e.popped.length) movedFrom) := by
  obtain ⟨hvisits, hknown⟩ := h.consumer_knows_slot hready htaken
  obtain ⟨hseen, -, hpushed, hroom⟩ := h.ordered
  obtain ⟨hwithin, hown, hcached, htells, htellsSeen⟩ := h.consumerView
  have haccesses (index : Fin C.slots) : (e.slots index).accesses =
      visits start e.popped.length index + visits start e.filled.length index := by
    rw [h.accesses index, htaken, Nat.add_comm]
  rw [htaken] at htells
  have hfilled := pushed_le_filled e
  simp only [takeSlot, Cell.exchange_of_known hknown]
  have hturn := haccesses (C.slotIndex (counterAt start e.popped.length))
  have hmade := made_le_access e (C.slotIndex (counterAt start e.popped.length)) movedFrom
  have hlater : e.consumerView ≤ Function.update e.consumerView
      (.slot (C.slotIndex (counterAt start e.popped.length)))
      ((e.slots (C.slotIndex (counterAt start e.popped.length))).accesses + 1) :=
    le_update_iff.mpr ⟨hknown.trans_le (Nat.le_succ _), fun _ _ => le_rfl⟩
  constructor
  case ordered => exact ⟨hseen, hready, hpushed, hroom⟩
  case writePos =>
    exact ⟨h.writePos.1, h.writePos.2.1, h.writePos.2.2.imp fun _ _ _ _ hle => hle.trans hmade⟩
  case readPos =>
    exact ⟨h.readPos.1, h.readPos.2.1, h.readPos.2.2.imp fun _ _ _ _ hle => hle.trans hmade⟩
  case cachedReadPos => exact h.cachedReadPos
  case cachedWritePos => exact h.cachedWritePos
  case accesses =>
    intro index
    exact (accesses_update haccesses movedFrom index).trans (Nat.add_comm ..)
  case producerView => exact ⟨h.producerView.1.trans hmade, h.producerView.2⟩
  case consumerView =>
    refine ⟨?_, hown.trans (hlater _), hcached.trans (hlater _), ?_, htellsSeen.mono hlater⟩
    · refine update_le_iff.mpr ⟨?_, fun place _ => (hwithin place).trans (hmade place)⟩
      simp [made]
    · exact htells.access (by omega)
  case popped_prefix => exact h.popped_prefix
  case contents =>
    intro j hj hlt
    have hlater : e.popped.length + 1 ≤ j := hj
    have hwritten : j < e.filled.length := hlt
    change e.filled[j]? = some (Function.update e.slots
      (C.slotIndex (counterAt start e.popped.length)) ⟨movedFrom, (e.slots _).accesses + 1⟩
      (C.slotIndex (counterAt start j))).value
    rw [Function.update_of_ne (Execution.slotIndex_ne hlater (by omega))]
    exact h.contents j (by omega) hlt
  case producer => exact h.producer
  case consumer =>
    refine ⟨rfl, ?_⟩
    rw [← filled_getElem e (hready.trans_le hpushed)]
    exact h.contents _ htaken.le ((hready.trans_le hpushed).trans_le hfilled)
  case unraced => exact h.unraced

theorem producer_publish (h : Consistent start seenRead seenWrite e)
    (horder : order.releases = true) {value : α} {write : UInt64}
    (hpc : e.producer = .pushWritten value write) :
    Consistent start seenRead seenWrite { e with
      writePos := (e.writePos.store .writePos order e.producerView (write + 1)).1
      producerView := (e.writePos.store .writePos order e.producerView (write + 1)).2
      producer := .idle
      pushed := e.pushed ++ [value] } := by
  have hwrite : write = counterAt start e.pushed.length := by
    have hholds := h.producer
    simpa only [ProducerHolds, hpc] using hholds
  have hfilled : e.filled = e.pushed ++ [value] := by simp only [filled, hpc]
  have hlength : (e.pushed ++ [value]).length = e.pushed.length + 1 := by simp
  obtain ⟨hseen, htaken, hpushed, hroom⟩ := h.ordered
  obtain ⟨hlast, hkeeps, hwrites⟩ := h.writePos
  obtain ⟨hwithin, hown, hcached, htells, htellsSeen⟩ := h.producerView
  rw [hfilled] at hroom htells
  have hlater : e.producerView ≤
      (e.writePos.store .writePos order e.producerView (write + 1)).2 := le_sup_left
  have hmade : e.made ≤ made { e with
      writePos := (e.writePos.store .writePos order e.producerView (write + 1)).1 } := by
    intro place
    cases place with
    | writePos => exact Nat.le_succ _
    | readPos | slot => exact le_rfl
  have hview : (e.writePos.store .writePos order e.producerView (write + 1)).2 ≤ made { e with
      writePos := (e.writePos.store .writePos order e.producerView (write + 1)).1 } := by
    rw [Atomic.store_view _ (hwithin .writePos)]
    exact update_le_iff.mpr ⟨le_rfl, fun place _ => (hwithin place).trans (hmade place)⟩
  have hknown : (e.writePos.store .writePos order e.producerView (write + 1)).2 .writePos =
      e.pushed.length + 1 := by
    rw [Atomic.store_view _ (hwithin .writePos), Function.update_self, hlast]
  constructor
  case ordered => exact ⟨hseen, htaken, hpushed.trans (by simp), hroom⟩
  case writePos =>
    refine ⟨?_, hkeeps.store horder ⟨?_, ?_⟩,
      (hwrites.imp fun _ _ _ _ hle => hle.trans hmade).store horder hview⟩
    · exact (congrArg (· + 1) hlast).trans hlength.symm
    · rw [hwrite, counterAt_add_one, hlast]
    · rw [hlast, ← hlength]
      exact htells.mono hlater
  case readPos =>
    exact ⟨h.readPos.1, h.readPos.2.1, h.readPos.2.2.imp fun _ _ _ _ hle => hle.trans hmade⟩
  case cachedReadPos => exact h.cachedReadPos
  case cachedWritePos => exact h.cachedWritePos
  case accesses =>
    intro index
    have haccesses := h.accesses index
    rw [hfilled] at haccesses
    exact haccesses
  case producerView =>
    exact ⟨hview, hlength.trans_le hknown.ge, hcached.trans (hlater _), htells.mono hlater,
      htellsSeen.mono hlater⟩
  case consumerView => exact ⟨h.consumerView.1.trans hmade, h.consumerView.2⟩
  case popped_prefix => exact h.popped_prefix.trans (List.prefix_append _ _)
  case contents =>
    have hcontents := h.contents
    rw [hfilled] at hcontents
    exact hcontents
  case producer => trivial
  case consumer =>
    have hconsumer := h.consumer
    unfold ConsumerHolds at hconsumer ⊢
    cases hc : e.consumer with
    | idle => trivial
    | popLoaded read | popReady read => simpa only [hc] using hconsumer
    | popTaken out read =>
      simp only [hc] at hconsumer ⊢
      have hpopped := List.getElem?_eq_some_iff.mp hconsumer.2
      exact ⟨hconsumer.1, (List.getElem?_append_left hpopped.1).trans hconsumer.2⟩
    | sizing write =>
      simp only [hc] at hconsumer ⊢
      obtain ⟨count, hlow, hhigh, hcount⟩ := hconsumer
      exact ⟨count, hlow, hhigh.trans (by simp), hcount⟩
  case unraced => exact h.unraced

theorem consumer_release (h : Consistent start seenRead seenWrite e)
    (horder : order.releases = true) {out : α} {read : UInt64}
    (hpc : e.consumer = .popTaken out read) :
    Consistent start seenRead seenWrite { e with
      readPos := (e.readPos.store .readPos order e.consumerView (read + 1)).1
      consumerView := (e.readPos.store .readPos order e.consumerView (read + 1)).2
      consumer := .idle
      popped := e.popped ++ [out] } := by
  obtain ⟨hread, hout⟩ : read = counterAt start e.popped.length ∧
      e.pushed[e.popped.length]? = some out := by
    have hholds := h.consumer
    simpa only [ConsumerHolds, hpc] using hholds
  have htaken : e.taken = (e.popped ++ [out]).length := by simp [taken, hpc]
  have hlength : (e.popped ++ [out]).length = e.popped.length + 1 := by simp
  obtain ⟨hseen, hready, hpushed, hroom⟩ := h.ordered
  obtain ⟨hlast, hkeeps, hwrites⟩ := h.readPos
  obtain ⟨hwithin, hown, hcached, htells, htellsSeen⟩ := h.consumerView
  rw [htaken] at hready htells
  have hlater : e.consumerView ≤
      (e.readPos.store .readPos order e.consumerView (read + 1)).2 := le_sup_left
  have hmade : e.made ≤ made { e with
      readPos := (e.readPos.store .readPos order e.consumerView (read + 1)).1 } := by
    intro place
    cases place with
    | readPos => exact Nat.le_succ _
    | writePos | slot => exact le_rfl
  have hview : (e.readPos.store .readPos order e.consumerView (read + 1)).2 ≤ made { e with
      readPos := (e.readPos.store .readPos order e.consumerView (read + 1)).1 } := by
    rw [Atomic.store_view _ (hwithin .readPos)]
    exact update_le_iff.mpr ⟨le_rfl, fun place _ => (hwithin place).trans (hmade place)⟩
  have hknown : (e.readPos.store .readPos order e.consumerView (read + 1)).2 .readPos =
      e.popped.length + 1 := by
    rw [Atomic.store_view _ (hwithin .readPos), Function.update_self, hlast]
  constructor
  case ordered => exact ⟨hseen.trans (by simp), hready, hpushed, hroom⟩
  case writePos =>
    exact ⟨h.writePos.1, h.writePos.2.1, h.writePos.2.2.imp fun _ _ _ _ hle => hle.trans hmade⟩
  case readPos =>
    refine ⟨?_, hkeeps.store horder ⟨?_, ?_⟩,
      (hwrites.imp fun _ _ _ _ hle => hle.trans hmade).store horder hview⟩
    · exact (congrArg (· + 1) hlast).trans hlength.symm
    · rw [hread, counterAt_add_one, hlast]
    · rw [hlast, ← hlength]
      exact htells.mono hlater
  case cachedReadPos => exact h.cachedReadPos
  case cachedWritePos => exact h.cachedWritePos
  case accesses =>
    intro index
    have haccesses := h.accesses index
    rw [htaken] at haccesses
    exact haccesses
  case producerView => exact ⟨h.producerView.1.trans hmade, h.producerView.2⟩
  case consumerView =>
    exact ⟨hview, hlength.trans_le hknown.ge, hcached.trans (hlater _), htells.mono hlater,
      htellsSeen.mono hlater⟩
  case popped_prefix =>
    obtain ⟨rest, hrest⟩ := h.popped_prefix
    rw [← hrest, List.getElem?_append_right le_rfl, Nat.sub_self] at hout
    obtain ⟨later, rfl⟩ : ∃ later, rest = out :: later := by
      cases rest with
      | nil => simp at hout
      | cons first later => exact ⟨later, by simpa using hout⟩
    exact ⟨later, by simp [← hrest]⟩
  case contents =>
    have hcontents := h.contents
    rw [htaken] at hcontents
    exact hcontents
  case producer => exact h.producer
  case consumer => trivial
  case unraced => exact h.unraced

end Consistent

end OrderedExecution
end SafeEdge.Concurrent
