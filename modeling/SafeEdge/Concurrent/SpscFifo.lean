import SafeEdge.Concurrent.SpscHistory

/-! The ring is a lossless queue under any interleaving: the invariant between the positions,
their stale cached copies and the slots, kept by every single step of both threads. -/
namespace SafeEdge.Concurrent
open Library

namespace Execution
variable {C : Capacity} {α : Type*}

/-- The number of elements the consumer has moved out of their slots. -/
def taken (e : Execution C α) : ℕ :=
  match e.consumer with
  | .popTaken _ _ => e.popped.length + 1
  | _ => e.popped.length

/-- What the producer has established at its point of the current call. -/
def ProducerHolds (e : Execution C α) (seenRead : ℕ) : Prop :=
  match e.producer with
  | .idle => True
  | .pushLoaded _ write => write = e.ring.writePos
  | .pushReady _ write => write = e.ring.writePos ∧ e.pushed.length < seenRead + C.slots
  | .pushWritten value write => write = e.ring.writePos ∧
      e.pushed.length < seenRead + C.slots ∧ e.ring.slots (C.slotIndex write) = value
  | .sizing write => write = e.ring.writePos

/-- What the consumer has established at its point of the current call. -/
def ConsumerHolds (e : Execution C α) (start : UInt64) (seenWrite : ℕ) : Prop :=
  match e.consumer with
  | .idle => True
  | .popLoaded read => read = e.ring.readPos
  | .popReady read => read = e.ring.readPos ∧ e.popped.length < seenWrite
  | .popTaken out read => read = e.ring.readPos ∧ e.popped.length < seenWrite ∧
      e.pushed[e.popped.length]? = some out
  | .sizing write => ∃ n, e.popped.length ≤ n ∧ n ≤ e.pushed.length ∧
      write = counterAt start n

/-- The positions count the pushes and pops, each cached copy lags behind its original, and
every element pushed and not yet taken stands unmodified in its slot. -/
structure Consistent (start : UInt64) (seenRead seenWrite : ℕ) (e : Execution C α) : Prop where
  ordered : seenRead ≤ e.popped.length ∧ e.popped.length ≤ seenWrite ∧
    seenWrite ≤ e.pushed.length ∧ e.pushed.length ≤ seenRead + C.slots
  writePos : e.ring.writePos = counterAt start e.pushed.length
  cachedReadPos : e.ring.cachedReadPos = counterAt start seenRead
  readPos : e.ring.readPos = counterAt start e.popped.length
  cachedWritePos : e.ring.cachedWritePos = counterAt start seenWrite
  popped_prefix : e.popped <+: e.pushed
  contents : ∀ j, e.taken ≤ j → j < e.pushed.length →
    e.pushed[j]? = some (e.ring.slots (C.slotIndex (counterAt start j)))
  producer : e.ProducerHolds seenRead
  consumer : e.ConsumerHolds start seenWrite

theorem slots_lt (C : Capacity) : C.slots < 2 ^ 64 :=
  Nat.pow_lt_pow_right (by decide) C.representable

theorem slotIndex_ne {start : UInt64} {i j : ℕ} (hij : i < j) (hclose : j < i + C.slots) :
    C.slotIndex (counterAt start j) ≠ C.slotIndex (counterAt start i) := by
  intro h
  have hmasked : (C.slotIndex (counterAt start j)).val = (C.slotIndex (counterAt start i)).val := by
    rw [h]
  have heq := masked_inj start C.representable hij.le hclose hmasked
  omega

/-- A position looks full against a reading of the other exactly when a whole table lies
between them. -/
theorem word_le_sub_iff {start : UInt64} {write read : ℕ} (hle : read ≤ write)
    (hbounded : write ≤ read + C.slots) :
    counterAt start write - counterAt start read ≥ C.word ↔ write = read + C.slots := by
  have hslots := slots_lt C
  have hword : C.word.toNat = C.slots := by
    rw [Capacity.word, UInt64.toNat_ofNat']
    exact Nat.mod_eq_of_lt hslots
  rw [ge_iff_le, UInt64.le_iff_toNat_le, hword,
    counterAt_sub_toNat start hle (by omega)]
  omega

variable {start : UInt64} {seenRead seenWrite : ℕ} {e : Execution C α}

namespace Consistent

theorem of_pushLoaded (h : Consistent start seenRead seenWrite e) {value : α} {write : UInt64}
    (hpc : e.producer = .pushLoaded value write) : write = e.ring.writePos := by
  have hholds := h.producer
  simpa only [ProducerHolds, hpc] using hholds

theorem of_pushReady (h : Consistent start seenRead seenWrite e) {value : α} {write : UInt64}
    (hpc : e.producer = .pushReady value write) :
    write = e.ring.writePos ∧ e.pushed.length < seenRead + C.slots := by
  have hholds := h.producer
  simpa only [ProducerHolds, hpc] using hholds

theorem of_pushWritten (h : Consistent start seenRead seenWrite e) {value : α}
    {write : UInt64} (hpc : e.producer = .pushWritten value write) :
    write = e.ring.writePos ∧ e.pushed.length < seenRead + C.slots ∧
      e.ring.slots (C.slotIndex write) = value := by
  have hholds := h.producer
  simpa only [ProducerHolds, hpc] using hholds

theorem of_popLoaded (h : Consistent start seenRead seenWrite e) {read : UInt64}
    (hpc : e.consumer = .popLoaded read) : read = e.ring.readPos := by
  have hholds := h.consumer
  simpa only [ConsumerHolds, hpc] using hholds

theorem of_popReady (h : Consistent start seenRead seenWrite e) {read : UInt64}
    (hpc : e.consumer = .popReady read) :
    read = e.ring.readPos ∧ e.popped.length < seenWrite := by
  have hholds := h.consumer
  simpa only [ConsumerHolds, hpc] using hholds

theorem of_popTaken (h : Consistent start seenRead seenWrite e) {out : α} {read : UInt64}
    (hpc : e.consumer = .popTaken out read) :
    read = e.ring.readPos ∧ e.popped.length < seenWrite ∧
      e.pushed[e.popped.length]? = some out := by
  have hholds := h.consumer
  simpa only [ConsumerHolds, hpc] using hholds

theorem looksFull_iff (h : Consistent start seenRead seenWrite e) :
    e.ring.LooksFull e.ring.writePos ↔ e.pushed.length = seenRead + C.slots := by
  have hordered := h.ordered
  rw [SpscRing.LooksFull, h.writePos, h.cachedReadPos]
  exact word_le_sub_iff (by omega) (by omega)

theorem refreshed_looksFull_iff (h : Consistent start seenRead seenWrite e) :
    e.ring.refreshReadPos.LooksFull e.ring.writePos ↔
      e.pushed.length = e.popped.length + C.slots := by
  have hordered := h.ordered
  simp only [SpscRing.LooksFull, SpscRing.refreshReadPos, h.writePos, h.readPos]
  exact word_le_sub_iff (by omega) (by omega)

theorem looksEmpty_iff (h : Consistent start seenRead seenWrite e) :
    e.ring.LooksEmpty e.ring.readPos ↔ e.popped.length = seenWrite := by
  have hordered := h.ordered
  have hslots := slots_lt C
  rw [SpscRing.LooksEmpty, h.readPos, h.cachedWritePos]
  constructor
  · intro heq
    exact (counterAt_inj_of_close start (by omega) (by omega) heq.symm).symm
  · exact congrArg (counterAt start)

theorem refreshed_looksEmpty_iff (h : Consistent start seenRead seenWrite e) :
    e.ring.refreshWritePos.LooksEmpty e.ring.readPos ↔
      e.popped.length = e.pushed.length := by
  have hordered := h.ordered
  have hslots := slots_lt C
  simp only [SpscRing.LooksEmpty, SpscRing.refreshWritePos, h.readPos, h.writePos]
  constructor
  · intro heq
    exact (counterAt_inj_of_close start (by omega) (by omega) heq.symm).symm
  · exact congrArg (counterAt start)

/-- While there is room the slot of the next element holds none of those still unread. -/
theorem next_slot_free (h : Consistent start seenRead seenWrite e)
    (hroom : e.pushed.length < seenRead + C.slots) {j : ℕ} (hj : e.popped.length ≤ j)
    (hlt : j < e.pushed.length) :
    C.slotIndex (counterAt start j) ≠ C.slotIndex e.ring.writePos := by
  have hordered := h.ordered
  rw [h.writePos]
  exact (slotIndex_ne hlt (by omega)).symm

theorem popped_le_taken (e : Execution C α) : e.popped.length ≤ e.taken := by
  unfold taken
  split <;> omega

theorem producer_begin (h : Consistent start seenRead seenWrite e) {pc : ProducerPc α}
    (hpc : ProducerHolds { e with producer := pc } seenRead) :
    Consistent start seenRead seenWrite { e with producer := pc } :=
  ⟨h.ordered, h.writePos, h.cachedReadPos, h.readPos, h.cachedWritePos, h.popped_prefix,
    h.contents, hpc, h.consumer⟩

theorem consumer_begin (h : Consistent start seenRead seenWrite e) {pc : ConsumerPc α}
    (htaken : ({ e with consumer := pc } : Execution C α).taken = e.taken)
    (hpc : ConsumerHolds { e with consumer := pc } start seenWrite) :
    Consistent start seenRead seenWrite { e with consumer := pc } := by
  refine ⟨h.ordered, h.writePos, h.cachedReadPos, h.readPos, h.cachedWritePos, h.popped_prefix,
    ?_, h.producer, hpc⟩
  rw [htaken]
  exact h.contents

/-- Reading the consumer's position renews the producer's copy of it. -/
theorem producer_refresh (h : Consistent start seenRead seenWrite e) {pc : ProducerPc α}
    (hpc : ProducerHolds { e with ring := e.ring.refreshReadPos, producer := pc }
      e.popped.length) :
    Consistent start e.popped.length seenWrite
      { e with ring := e.ring.refreshReadPos, producer := pc } := by
  have hordered := h.ordered
  exact ⟨⟨le_rfl, hordered.2.1, hordered.2.2.1, by show e.pushed.length ≤ _; omega⟩, h.writePos,
    h.readPos, h.readPos, h.cachedWritePos, h.popped_prefix, h.contents, hpc, h.consumer⟩

/-- Reading the producer's position renews the consumer's copy of it. -/
theorem consumer_refresh (h : Consistent start seenRead seenWrite e) {pc : ConsumerPc α}
    (htaken : ({ e with consumer := pc } : Execution C α).taken = e.taken)
    (hpc : ConsumerHolds { e with ring := e.ring.refreshWritePos, consumer := pc } start
      e.pushed.length) :
    Consistent start seenRead e.pushed.length
      { e with ring := e.ring.refreshWritePos, consumer := pc } := by
  have hordered := h.ordered
  refine ⟨⟨hordered.1, by show e.popped.length ≤ _; omega, le_rfl, hordered.2.2.2⟩, h.writePos,
    h.cachedReadPos, h.readPos, h.writePos, h.popped_prefix, ?_, h.producer, hpc⟩
  intro j hj
  exact h.contents j (htaken ▸ hj)

theorem producer_writeSlot (h : Consistent start seenRead seenWrite e) (value : α)
    (hroom : e.pushed.length < seenRead + C.slots) :
    Consistent start seenRead seenWrite (e.writeSlot value e.ring.writePos) := by
  refine ⟨h.ordered, h.writePos, h.cachedReadPos, h.readPos, h.cachedWritePos, h.popped_prefix,
    ?_, ?_, h.consumer⟩
  · intro j hj hlt
    have hunread := (popped_le_taken e).trans hj
    rw [show (e.writeSlot value e.ring.writePos).ring.slots _ = _ from
      Function.update_of_ne (h.next_slot_free hroom hunread hlt) _ _]
    exact h.contents j hj hlt
  · exact ⟨rfl, hroom, Function.update_self _ _ _⟩

theorem producer_publish (h : Consistent start seenRead seenWrite e) {value : α}
    {write : UInt64} (hpc : e.producer = .pushWritten value write) :
    Consistent start seenRead seenWrite
      { e with
        ring := { e.ring with writePos := write + 1 }
        producer := .idle
        pushed := e.pushed ++ [value] } := by
  have hordered := h.ordered
  obtain ⟨rfl, hroom, hslot⟩ := h.of_pushWritten hpc
  have hlength : (e.pushed ++ [value]).length = e.pushed.length + 1 := by simp
  refine ⟨?_, ?_, h.cachedReadPos, h.readPos, h.cachedWritePos,
    h.popped_prefix.trans (List.prefix_append _ _), ?_, trivial, ?_⟩
  · simp only [hlength]
    omega
  · simp only [hlength]
    rw [h.writePos, counterAt_add_one]
  · intro j hj hlt
    simp only [hlength] at hlt
    rcases Nat.lt_succ_iff_lt_or_eq.mp hlt with hold | rfl
    · simp only [List.getElem?_append_left hold]
      exact h.contents j hj hold
    · simp only [List.getElem?_concat_length]
      rw [← h.writePos, hslot]
  · have hconsumer := h.consumer
    unfold ConsumerHolds at hconsumer ⊢
    cases hc : e.consumer with
    | idle => trivial
    | popLoaded read => simpa only [hc] using hconsumer
    | popReady read => simpa only [hc] using hconsumer
    | popTaken out read =>
      obtain ⟨hread, hlt, hout⟩ := h.of_popTaken hc
      have hbefore : e.popped.length < e.pushed.length := by omega
      exact ⟨hread, hlt, (List.getElem?_append_left hbefore).trans hout⟩
    | sizing write =>
      simp only [hc, hlength] at hconsumer ⊢
      obtain ⟨n, hlow, hhigh, hwrite⟩ := hconsumer
      exact ⟨n, hlow, by omega, hwrite⟩

theorem consumer_takeSlot (h : Consistent start seenRead seenWrite e)
    (hready : e.popped.length < seenWrite) (htaken : e.taken = e.popped.length) (movedFrom : α) :
    Consistent start seenRead seenWrite (e.takeSlot e.ring.readPos movedFrom) := by
  have hordered := h.ordered
  have hother : ∀ j, e.popped.length < j → j < e.popped.length + C.slots →
      (e.takeSlot e.ring.readPos movedFrom).ring.slots (C.slotIndex (counterAt start j)) =
        e.ring.slots (C.slotIndex (counterAt start j)) := by
    intro j hj hclose
    apply Function.update_of_ne
    rw [h.readPos]
    exact slotIndex_ne hj hclose
  refine ⟨h.ordered, h.writePos, h.cachedReadPos, h.readPos, h.cachedWritePos, h.popped_prefix,
    ?_, ?_, ?_⟩
  · intro j hj hlt
    have hlater : e.popped.length + 1 ≤ j := hj
    have hlt' : j < e.pushed.length := hlt
    rw [hother j (by omega) (by omega)]
    exact h.contents j (by omega) hlt
  · have hproducer := h.producer
    unfold ProducerHolds at hproducer ⊢
    cases hp : e.producer with
    | idle => simp only [takeSlot, hp]
    | pushLoaded value write => simpa only [takeSlot, SpscRing.setSlot, hp] using hproducer
    | pushReady value write => simpa only [takeSlot, SpscRing.setSlot, hp] using hproducer
    | pushWritten value write =>
      obtain ⟨hwrite, hroom, hslot⟩ := h.of_pushWritten hp
      have hkeep := hother e.pushed.length (by omega) (by omega)
      rw [← h.writePos, ← hwrite] at hkeep
      simp only [takeSlot, hp] at hkeep ⊢
      exact ⟨hwrite, hroom, hkeep.trans hslot⟩
    | sizing write => simpa only [takeSlot, SpscRing.setSlot, hp] using hproducer
  · refine ⟨rfl, hready, ?_⟩
    have hfirst := h.contents e.popped.length htaken.le (by omega)
    rw [← h.readPos] at hfirst
    exact hfirst

theorem consumer_release (h : Consistent start seenRead seenWrite e) {out : α}
    {read : UInt64} (hpc : e.consumer = .popTaken out read) :
    Consistent start seenRead seenWrite
      { e with
        ring := { e.ring with readPos := read + 1 }
        consumer := .idle
        popped := e.popped ++ [out] } := by
  have hordered := h.ordered
  obtain ⟨rfl, hready, hout⟩ := h.of_popTaken hpc
  have hlength : (e.popped ++ [out]).length = e.popped.length + 1 := by simp
  refine ⟨?_, h.writePos, h.cachedReadPos, ?_, h.cachedWritePos, ?_, ?_, h.producer, trivial⟩
  · simp only [hlength]
    omega
  · simp only [hlength]
    rw [h.readPos, counterAt_add_one]
  · obtain ⟨rest, hrest⟩ := h.popped_prefix
    rw [← hrest, List.getElem?_append_right le_rfl, Nat.sub_self] at hout
    cases rest with
    | nil => simp at hout
    | cons first rest =>
      simp only [List.getElem?_cons_zero, Option.some.injEq] at hout
      subst hout
      exact ⟨rest, by rw [← hrest]; simp⟩
  · intro j hj hlt
    have htaken : e.taken ≤ j := by
      simp only [taken, hpc]
      simpa only [taken, hlength] using hj
    exact h.contents j htaken hlt

end Consistent

section Step

/-- Some pair of readings witnesses the consistency of the execution. -/
def IsConsistent (start : UInt64) (e : Execution C α) : Prop :=
  ∃ seenRead seenWrite, Consistent start seenRead seenWrite e

theorem producerStep_consistent (h : IsConsistent start e) (call : ProducerCall α) :
    IsConsistent start (e.producerStep call).1 := by
  obtain ⟨seenRead, seenWrite, h⟩ := h
  have hordered := h.ordered
  unfold producerStep
  cases hp : e.producer with
  | idle =>
    cases call with
    | tryPush value => exact ⟨seenRead, seenWrite, h.producer_begin rfl⟩
    | sizeApprox => exact ⟨seenRead, seenWrite, h.producer_begin rfl⟩
  | pushLoaded value write =>
    obtain rfl := h.of_pushLoaded hp
    simp only
    split_ifs with hfull hstill
    · exact ⟨_, seenWrite, h.producer_refresh trivial⟩
    · rw [h.refreshed_looksFull_iff] at hstill
      refine ⟨_, seenWrite, h.producer_refresh ⟨rfl, ?_⟩⟩
      show e.pushed.length < e.popped.length + C.slots
      omega
    · rw [h.looksFull_iff] at hfull
      exact ⟨seenRead, seenWrite, h.producer_writeSlot value (by omega)⟩
  | pushReady value write =>
    obtain ⟨rfl, hroom⟩ := h.of_pushReady hp
    exact ⟨seenRead, seenWrite, h.producer_writeSlot value hroom⟩
  | pushWritten value write => exact ⟨seenRead, seenWrite, h.producer_publish hp⟩
  | sizing write => exact ⟨seenRead, seenWrite, h.producer_begin trivial⟩

theorem consumerStep_consistent (h : IsConsistent start e) (call : ConsumerCall)
    (movedFrom : α) : IsConsistent start (e.consumerStep call movedFrom).1 := by
  obtain ⟨seenRead, seenWrite, h⟩ := h
  have hordered := h.ordered
  unfold consumerStep
  cases hc : e.consumer with
  | idle =>
    have htaken : e.taken = e.popped.length := by simp only [taken, hc]
    cases call with
    | tryPop => exact ⟨seenRead, seenWrite, h.consumer_begin htaken.symm rfl⟩
    | sizeApprox =>
      have hle : e.popped.length ≤ e.pushed.length := by omega
      exact ⟨seenRead, seenWrite, h.consumer_begin htaken.symm
        ⟨e.pushed.length, hle, le_rfl, h.writePos⟩⟩
  | popLoaded read =>
    have htaken : e.taken = e.popped.length := by simp only [taken, hc]
    obtain rfl := h.of_popLoaded hc
    simp only
    split_ifs with hempty hstill
    · exact ⟨seenRead, _, h.consumer_refresh htaken.symm trivial⟩
    · rw [h.refreshed_looksEmpty_iff] at hstill
      refine ⟨seenRead, _, h.consumer_refresh htaken.symm ⟨rfl, ?_⟩⟩
      show e.popped.length < e.pushed.length
      omega
    · rw [h.looksEmpty_iff] at hempty
      exact ⟨seenRead, seenWrite, h.consumer_takeSlot (by omega) htaken movedFrom⟩
  | popReady read =>
    have htaken : e.taken = e.popped.length := by simp only [taken, hc]
    obtain ⟨rfl, hready⟩ := h.of_popReady hc
    exact ⟨seenRead, seenWrite, h.consumer_takeSlot hready htaken movedFrom⟩
  | popTaken out read => exact ⟨seenRead, seenWrite, h.consumer_release hc⟩
  | sizing write =>
    have htaken : e.taken = e.popped.length := by simp only [taken, hc]
    exact ⟨seenRead, seenWrite, h.consumer_begin htaken.symm trivial⟩

/-- A producer's write hits no slot of an element pushed and not yet popped. -/
theorem producer_writesSlot_free (h : IsConsistent start e) {call : ProducerCall α}
    {index : Fin C.slots} (hwrites : e.WritesSlot index (.producer call)) {j : ℕ}
    (hj : e.popped.length ≤ j) (hlt : j < e.pushed.length) :
    C.slotIndex (counterAt start j) ≠ index := by
  obtain ⟨seenRead, seenWrite, h⟩ := h
  have hordered := h.ordered
  unfold WritesSlot at hwrites
  cases hp : e.producer with
  | idle | pushWritten value write | sizing write =>
    simp only [hp] at hwrites
  | pushLoaded value write =>
    obtain rfl := h.of_pushLoaded hp
    simp only [hp] at hwrites
    obtain ⟨hroom, rfl⟩ := hwrites
    rw [h.looksFull_iff] at hroom
    exact h.next_slot_free (by omega) hj hlt
  | pushReady value write =>
    obtain ⟨rfl, hroom⟩ := h.of_pushReady hp
    simp only [hp] at hwrites
    subst hwrites
    exact h.next_slot_free hroom hj hlt

/-- A consumer's access hits, among the elements not yet popped, only the slot of the first. -/
theorem consumer_writesSlot_first (h : IsConsistent start e) {call : ConsumerCall}
    {movedFrom : α} {index : Fin C.slots}
    (hwrites : e.WritesSlot index (.consumer call movedFrom)) {j : ℕ}
    (hj : e.popped.length < j) (hlt : j < e.pushed.length) :
    C.slotIndex (counterAt start j) ≠ index := by
  obtain ⟨seenRead, seenWrite, h⟩ := h
  have hordered := h.ordered
  have hother : C.slotIndex (counterAt start j) ≠ C.slotIndex e.ring.readPos := by
    rw [h.readPos]
    exact slotIndex_ne hj (by omega)
  unfold WritesSlot at hwrites
  cases hc : e.consumer with
  | idle | popTaken out read | sizing write =>
    simp only [hc] at hwrites
  | popLoaded read =>
    simp only [hc] at hwrites
    rw [hwrites.2, h.of_popLoaded hc]
    exact hother
  | popReady read =>
    simp only [hc] at hwrites
    rw [hwrites, (h.of_popReady hc).1]
    exact hother

/-- The slot of an element not yet popped is written only by the pop of that element. -/
theorem writesSlot_unread (h : IsConsistent start e) {turn : Turn α} {j : ℕ}
    (hj : e.popped.length ≤ j) (hlt : j < e.pushed.length)
    (hwrites : e.WritesSlot (C.slotIndex (counterAt start j)) turn) :
    ∃ call movedFrom, turn = .consumer call movedFrom ∧ j = e.popped.length := by
  cases turn with
  | producer call => exact absurd rfl (producer_writesSlot_free h hwrites hj hlt)
  | consumer call movedFrom =>
    refine ⟨call, movedFrom, rfl, ?_⟩
    by_contra hne
    exact consumer_writesSlot_first h hwrites (by omega) hlt rfl

/-- The events of a producer's step, with the state in which each can occur. -/
inductive ProducerReturns (e : Execution C α) : Event α → Prop
  | running : ProducerReturns e .running
  | stored : ProducerReturns e (.pushReturned true)
  | refused {value : α} {write : UInt64} (hpc : e.producer = .pushLoaded value write)
      (hfull : e.ring.refreshReadPos.LooksFull write) :
      ProducerReturns e (.pushReturned false)
  | sized {write : UInt64} (hpc : e.producer = .sizing write) :
      ProducerReturns e (.sizeReturned (write - e.ring.readPos))

/-- The events of a consumer's step, with the state in which each can occur. -/
inductive ConsumerReturns (e : Execution C α) : Event α → Prop
  | running : ConsumerReturns e .running
  | released (out : α) : ConsumerReturns e (.popReturned (some out))
  | refused {read : UInt64} (hpc : e.consumer = .popLoaded read)
      (hempty : e.ring.refreshWritePos.LooksEmpty read) :
      ConsumerReturns e (.popReturned none)
  | sized {write : UInt64} (hpc : e.consumer = .sizing write) :
      ConsumerReturns e (.sizeReturned (write - e.ring.readPos))

theorem producerStep_returns (e : Execution C α) (call : ProducerCall α) :
    ProducerReturns e (e.producerStep call).2 := by
  unfold producerStep
  cases hp : e.producer with
  | idle => cases call <;> exact .running
  | pushLoaded value write =>
    simp only
    split_ifs with hfull hstill
    · exact .refused hp hstill
    · exact .running
    · exact .running
  | pushReady value write => exact .running
  | pushWritten value write => exact .stored
  | sizing write => exact .sized hp

theorem consumerStep_returns (e : Execution C α) (call : ConsumerCall) (movedFrom : α) :
    ConsumerReturns e (e.consumerStep call movedFrom).2 := by
  unfold consumerStep
  cases hc : e.consumer with
  | idle => cases call <;> exact .running
  | popLoaded read =>
    simp only
    split_ifs with hempty hstill
    · exact .refused hc hstill
    · exact .running
    · exact .running
  | popReady read => exact .running
  | popTaken out read => exact .released out
  | sizing write => exact .sized hc

theorem step_returns (e : Execution C α) (turn : Turn α) :
    ProducerReturns e (e.step turn).2 ∨ ConsumerReturns e (e.step turn).2 := by
  cases turn with
  | producer call => exact .inl (producerStep_returns e call)
  | consumer call movedFrom => exact .inr (consumerStep_returns e call movedFrom)

/-- A push is refused only in a step at which the ring is full. -/
theorem full_of_refused (h : IsConsistent start e) {turn : Turn α}
    (hevent : (e.step turn).2 = .pushReturned false) :
    e.pushed.length = e.popped.length + C.slots := by
  obtain ⟨seenRead, seenWrite, h⟩ := h
  have hreturns := step_returns e turn
  rw [hevent] at hreturns
  rcases hreturns with hproducer | hconsumer
  · cases hproducer with
    | refused hpc hfull =>
      obtain rfl := h.of_pushLoaded hpc
      exact h.refreshed_looksFull_iff.mp hfull
  · cases hconsumer

/-- A pop is refused only in a step at which the ring is empty. -/
theorem empty_of_refused (h : IsConsistent start e) {turn : Turn α}
    (hevent : (e.step turn).2 = .popReturned none) : e.pushed.length = e.popped.length := by
  obtain ⟨seenRead, seenWrite, h⟩ := h
  have hreturns := step_returns e turn
  rw [hevent] at hreturns
  rcases hreturns with hproducer | hconsumer
  · cases hproducer
  · cases hconsumer with
    | refused hpc hempty =>
      obtain rfl := h.of_popLoaded hpc
      exact (h.refreshed_looksEmpty_iff.mp hempty).symm

/-- An occupancy read by either thread between its operations is at most the capacity. -/
theorem size_le (h : IsConsistent start e) {turn : Turn α} {size : UInt64}
    (hevent : (e.step turn).2 = .sizeReturned size) : size.toNat ≤ C.slots := by
  obtain ⟨seenRead, seenWrite, h⟩ := h
  have hordered := h.ordered
  have hslots := slots_lt C
  have hdistance : ∀ n, e.popped.length ≤ n → n ≤ e.pushed.length →
      (counterAt start n - e.ring.readPos).toNat ≤ C.slots := by
    intro n hlow hhigh
    rw [h.readPos, counterAt_sub_toNat start hlow (by omega)]
    omega
  have hreturns := step_returns e turn
  rw [hevent] at hreturns
  rcases hreturns with hproducer | hconsumer
  · cases hproducer with
    | sized hpc =>
      have hholds := h.producer
      simp only [ProducerHolds, hpc] at hholds
      rw [hholds, h.writePos]
      exact hdistance _ (by omega) le_rfl
  · cases hconsumer with
    | sized hpc =>
      have hholds := h.consumer
      simp only [ConsumerHolds, hpc] at hholds
      obtain ⟨n, hlow, hhigh, rfl⟩ := hholds
      exact hdistance n hlow hhigh

end Step

theorem initial_consistent (start : UInt64) (slots : Fin C.slots → α) :
    IsConsistent start (initial start slots) := by
  refine ⟨0, 0, ⟨le_rfl, le_rfl, le_rfl, Nat.zero_le _⟩, ?_, ?_, ?_, ?_, List.prefix_rfl, ?_,
    trivial, trivial⟩
  · exact (counterAt_zero start).symm
  · exact (counterAt_zero start).symm
  · exact (counterAt_zero start).symm
  · exact (counterAt_zero start).symm
  · intro j _ hlt
    exact absurd hlt (Nat.not_lt_zero j)

theorem executionAt_consistent (start : UInt64) (slots : Fin C.slots → α)
    (schedule : ℕ → Turn α) (n : ℕ) :
    IsConsistent start ((initial start slots).executionAt schedule n) := by
  apply stateAt_invariant (fun _ (e : Execution C α) => IsConsistent start e)
  · exact initial_consistent start slots
  · intro k hk
    cases hturn : schedule k with
    | producer call => exact producerStep_consistent hk call
    | consumer call movedFrom => exact consumerStep_consistent hk call movedFrom

/-- Under every interleaving the values that pops returned are a prefix of the values whose push
returned true, a slot changes only in a turn that writes it, the slot of an element pushed and not
yet popped is written only by the pop that reads it, a push is refused only at a moment the ring is
full and a pop only at one it is empty, and occupancy readings stay within the capacity. -/
theorem ring_lossless_fifo (C : Capacity) (start : UInt64) (slots : Fin C.slots → α)
    (schedule : ℕ → Turn α) (n : ℕ) :
    let e := (initial start slots).executionAt schedule n
    let event := (initial start slots).eventAt schedule n
    let pushed := (initial start slots).valuesPushed schedule n
    let popped := (initial start slots).valuesPopped schedule n
    popped <+: pushed ∧
      (∀ index, ¬ e.WritesSlot index (schedule n) →
        ((initial start slots).executionAt schedule (n + 1)).ring.slots index =
          e.ring.slots index) ∧
      (∀ j, popped.length ≤ j → j < pushed.length →
        e.WritesSlot (C.slotIndex (counterAt start j)) (schedule n) →
        ∃ call movedFrom, schedule n = .consumer call movedFrom ∧ j = popped.length) ∧
      (event = .pushReturned false → pushed.length = popped.length + C.slots) ∧
      (event = .popReturned none → pushed.length = popped.length) ∧
      ∀ size, event = .sizeReturned size → size.toNat ≤ C.slots := by
  intro e event pushed popped
  have hconsistent := executionAt_consistent start slots schedule n
  have hrecorded := executionAt_recorded start slots schedule n
  have hpushed : pushed = e.pushed := hrecorded.pushed.symm
  have hpopped : popped = e.popped := hrecorded.popped.symm
  rw [hpushed, hpopped]
  refine ⟨?_, ?_, ?_, ?_, ?_, ?_⟩
  · obtain ⟨_, _, h⟩ := hconsistent
    exact h.popped_prefix
  · intro index hwrites
    exact e.slots_of_not_writesSlot hwrites
  · intro j hj hlt hwrites
    exact writesSlot_unread hconsistent hj hlt hwrites
  · exact full_of_refused hconsistent
  · exact empty_of_refused hconsistent
  · intro size hevent
    exact size_le hconsistent hevent

/-- The smallest ring. -/
def twoSlots : Capacity := ⟨1, le_rfl, by decide⟩

/-- An empty ring whose positions are about to wrap. -/
def wrapping : Execution twoSlots ℕ := initial (-1) fun _ => 0

/-- Two values are pushed, a third one is refused, the occupancy is read, and the consumer pops. -/
def fillAndDrain : ℕ → Turn ℕ
  | 0 | 1 | 2 => .producer (.tryPush 7)
  | 3 | 4 | 5 => .producer (.tryPush 8)
  | 6 | 7 => .producer (.tryPush 9)
  | 8 | 9 => .producer .sizeApprox
  | _ => .consumer .tryPop 0

/-- The positions wrap while the ring fills: the third push is refused at a moment both slots are
taken, the first pop leaves the slot of the younger value alone, and the third pop is refused at a
moment the ring is empty. -/
theorem ring_lossless_fifo_wrapping :
    (wrapping.eventAt fillAndDrain 7 = .pushReturned false ∧
      (wrapping.valuesPushed fillAndDrain 7).length =
        (wrapping.valuesPopped fillAndDrain 7).length + 2) ∧
    (wrapping.eventAt fillAndDrain 9 = .sizeReturned 2 ∧ (2 : UInt64).toNat ≤ 2) ∧
    ((wrapping.executionAt fillAndDrain 12).WritesSlot (twoSlots.slotIndex (counterAt (-1) 0))
        (fillAndDrain 12) ∧
      ∃ call movedFrom, fillAndDrain 12 = .consumer call movedFrom ∧
        0 = (wrapping.valuesPopped fillAndDrain 12).length) ∧
    (¬ (wrapping.executionAt fillAndDrain 12).WritesSlot (twoSlots.slotIndex (counterAt (-1) 1))
        (fillAndDrain 12) ∧
      (wrapping.executionAt fillAndDrain 13).ring.slots (twoSlots.slotIndex (counterAt (-1) 1)) =
        (wrapping.executionAt fillAndDrain 12).ring.slots
          (twoSlots.slotIndex (counterAt (-1) 1))) ∧
    (wrapping.valuesPushed fillAndDrain 14 = [7, 8] ∧ wrapping.valuesPopped fillAndDrain 14 = [7] ∧
      wrapping.valuesPopped fillAndDrain 14 <+: wrapping.valuesPushed fillAndDrain 14) ∧
    wrapping.eventAt fillAndDrain 18 = .popReturned none ∧
      (wrapping.valuesPushed fillAndDrain 18).length =
        (wrapping.valuesPopped fillAndDrain 18).length := by
  have hfull : wrapping.eventAt fillAndDrain 7 = .pushReturned false := by decide +kernel
  have hsize : wrapping.eventAt fillAndDrain 9 = .sizeReturned 2 := by decide +kernel
  have hempty : wrapping.eventAt fillAndDrain 18 = .popReturned none := by decide +kernel
  have hpushed : wrapping.valuesPushed fillAndDrain 12 = [7, 8] := by decide +kernel
  have hpopped : wrapping.valuesPopped fillAndDrain 12 = [] := by decide +kernel
  have fifo := ring_lossless_fifo twoSlots (-1) (fun _ => 0) fillAndDrain
  rw [show initial (-1) (fun _ => 0) = wrapping from rfl] at fifo
  refine ⟨⟨hfull, (fifo 7).2.2.2.1 hfull⟩, ⟨hsize, (fifo 9).2.2.2.2.2 2 hsize⟩,
    ⟨by decide +kernel, (fifo 12).2.2.1 0 ?_ ?_ (by decide +kernel)⟩,
    ⟨by decide +kernel, (fifo 12).2.1 _ (by decide +kernel)⟩,
    ⟨by decide +kernel, by decide +kernel, (fifo 14).1⟩, hempty, (fifo 18).2.2.2.2.1 hempty⟩
  · exact (congrArg List.length hpopped).le
  · exact hpushed ▸ Nat.zero_lt_two

end Execution
end SafeEdge.Concurrent
