import SafeEdge.Ipc.SeqlockCausality

/-! The sequentially consistent executions of the slot are those of the ordered ones in which every
load returns the newest write. -/
namespace SafeEdge.Ipc
open Library TriviallyCopyable

variable {ι T : Type*} [TriviallyCopyable T]

/-- The turn with a load that asks for write `n`. -/
def Turn.ordered (n : ℕ) : Turn ι T → OrderedTurn ι T
  | .writer value => .writer value n
  | .reader id out maxAttempts => .reader id out maxAttempts n

def SeqlockSlot.load (slot : SeqlockSlot T) : SlotPlace (kWordCount T) → UInt64
  | .sequence => slot.sequence
  | .word i => slot.words i

namespace Reader
variable {reader : Reader T}

/-- A call starts without an access. -/
theorem step_of_idle (h : reader.pc.place = none) (slot other : SeqlockSlot T) (out : T)
    (maxAttempts : ℕ) : reader.step slot out maxAttempts = reader.step other out maxAttempts := by
  obtain ⟨pc, held⟩ := reader
  cases pc with
  | idle => rfl
  | sampling most attempt => cases h
  | copying most attempt before staging index =>
    simp only [ReaderPc.place] at h
    split_ifs at h

/-- A reader sees of the slot only what it loads. -/
theorem step_of_place {place : SlotPlace (kWordCount T)} (h : reader.pc.place = some place)
    (slot : SeqlockSlot T) (out : T) (maxAttempts : ℕ) :
    reader.step slot out maxAttempts =
      reader.step (.showing (slot.load place)) out maxAttempts := by
  obtain ⟨pc, held⟩ := reader
  cases pc with
  | idle => cases h
  | sampling most attempt =>
    cases h
    rfl
  | copying most attempt before staging index =>
    simp only [ReaderPc.place] at h
    split_ifs at h with hindex
    · cases h
      simp only [Reader.step, dif_pos hindex]
      rfl
    · cases h
      simp only [Reader.step, dif_neg hindex]
      rfl

end Reader

namespace OrderedExecution
variable [DecidableEq ι] {orders : SlotOrders} {e : OrderedExecution ι T}

/-- The execution with the newest write of every object. -/
def newest (e : OrderedExecution ι T) : Execution ι T where
  slot := ⟨(e.memory .sequence).newest, fun i => (e.memory (.word i)).newest⟩
  writer := e.writer
  readers := e.readers
  published := e.published

omit [DecidableEq ι] in
theorem load_newest (place : SlotPlace (kWordCount T)) :
    e.newest.slot.load place = (e.memory place).newest := by
  cases place <;> rfl

theorem newest_write_sequence (value : UInt64) :
    (e.write orders .sequence value).newest =
      { e.newest with slot := { e.newest.slot with sequence := value } } := by
  simp [newest, write]

theorem newest_write_word (i : Fin (kWordCount T)) (value : UInt64) :
    (e.write orders (.word i) value).newest =
      { e.newest with slot := e.newest.slot.setWord i value } := by
  have hwords : (fun j => ((e.write orders (.word i) value).memory (.word j)).newest) =
      Function.update e.newest.slot.words i value := by
    funext j
    by_cases hj : j = i
    · subst hj
      simp [write]
    · simp [write, hj, newest]
  simp only [newest, hwords]
  rfl

/-- The writer knows its own writes and loads the newest anyway. -/
theorem Consistent.newest_writerStep (h : e.Consistent) (value : T) (choice : ℕ) :
    ((e.writerStep orders value choice).1.newest, (e.writerStep orders value choice).2) =
      e.newest.writerStep value := by
  have hwriter : e.newest.writer = e.writer := rfl
  have hknown : e.views none .sequence = (e.memory .sequence).last := by
    rw [h.views_none, h.last]
  simp only [OrderedExecution.writerStep, Execution.writerStep, hwriter]
  cases e.writer with
  | idle =>
    rw [Atomic.load_of_known hknown]
    rfl
  | loaded stored start =>
    exact congrArg (fun next : Execution ι T =>
      ({ next with writer := .writing stored start 0 }, Event.running))
      (newest_write_sequence (start + 1))
  | writing stored start index =>
    dsimp only
    split_ifs with hindex
    · have hword :
          (e.write orders (.word ⟨index, hindex⟩) (toWords stored ⟨index, hindex⟩)).newest =
          { e.newest with
            slot := e.newest.slot.setWord ⟨index, hindex⟩ (toWords stored ⟨index, hindex⟩) } :=
        newest_write_word _ _
      exact congrArg (fun next : Execution ι T =>
        ({ next with writer := .writing stored start (index + 1) }, Event.running)) hword
    · exact congrArg (fun next : Execution ι T =>
        ({ next with writer := .idle, published := e.published ++ [stored] }, Event.stored))
        (newest_write_sequence (start + 2))

theorem Consistent.newest_readerStep (h : e.Consistent) (id : ι) (out : T) (maxAttempts : ℕ)
    {choice : ℕ} (hchoice : ∀ place, (e.memory place).last ≤ choice) :
    ((e.readerStep orders id out maxAttempts choice).1.newest,
      (e.readerStep orders id out maxAttempts choice).2) =
      e.newest.readerStep id out maxAttempts := by
  have hreader : e.newest.readers id = e.readers id := rfl
  unfold OrderedExecution.readerStep Execution.readerStep
  rw [hreader]
  cases hplace : (e.readers id).pc.place with
  | none =>
    rw [Reader.step_of_idle hplace e.newest.slot {}]
    rfl
  | some place =>
    have hloaded : ((e.memory place).load place (orders.load place) (e.views (some id)) choice).1 =
        (e.memory place).newest :=
      Atomic.load_of_le ((h.views (some id) place).trans_eq (h.last place).symm) (hchoice place)
    rw [Reader.step_of_place hplace e.newest.slot, load_newest, ← hloaded]
    rfl

theorem last_write_le (place other : SlotPlace (kWordCount T)) (value : UInt64) :
    ((e.write orders place value).memory other).last ≤ (e.memory other).last + 1 := by
  by_cases hother : other = place
  · subst hother
    simp [write]
  · simp [write, hother]

theorem last_step_le (turn : OrderedTurn ι T) (place : SlotPlace (kWordCount T)) :
    ((e.step orders turn).1.memory place).last ≤ (e.memory place).last + 1 := by
  cases turn with
  | writer value choice =>
    change ((e.writerStep orders value choice).1.memory place).last ≤ _
    unfold OrderedExecution.writerStep
    split
    · exact Nat.le_succ _
    · exact last_write_le ..
    · split_ifs
      · exact last_write_le ..
      · exact last_write_le ..
  | reader id out maxAttempts choice =>
    change ((e.readerStep orders id out maxAttempts choice).1.memory place).last ≤ _
    unfold OrderedExecution.readerStep
    split
    · exact Nat.le_succ _
    · exact Nat.le_succ _
  | synchronize source target => exact Nat.le_succ _

theorem last_executionAt_le (outs : ι → T) (schedule : ℕ → OrderedTurn ι T) (n : ℕ)
    (place : SlotPlace (kWordCount T)) :
    (((initial outs).executionAt orders schedule n).memory place).last ≤ n :=
  stateAt_invariant (fun n (e : OrderedExecution ι T) => (e.memory place).last ≤ n) le_rfl
    (fun n h => (last_step_le (schedule n) place).trans (Nat.succ_le_succ h)) n

theorem Consistent.newest_step (orders : SlotOrders) (h : e.Consistent) (turn : Turn ι T)
    {choice : ℕ} (hchoice : ∀ place, (e.memory place).last ≤ choice) :
    ((e.step orders (turn.ordered choice)).1.newest, (e.step orders (turn.ordered choice)).2) =
      e.newest.step turn := by
  cases turn with
  | writer value => exact h.newest_writerStep value choice
  | reader id out maxAttempts => exact h.newest_readerStep id out maxAttempts hchoice

/-- Every sequentially consistent execution is the newest part of an ordered one, in which a thread
asks for writes as late as its turn. -/
theorem newest_executionAt (horders : orders.Synchronize) (outs : ι → T)
    (schedule : ℕ → Turn ι T) (n : ℕ) :
    ((initial outs).executionAt orders (fun k => (schedule k).ordered k) n).newest =
        (Execution.initial outs).executionAt schedule n ∧
      (initial outs).eventAt orders (fun k => (schedule k).ordered k) n =
        (Execution.initial outs).eventAt schedule n := by
  have hstep (n : ℕ) := Consistent.newest_step orders
    (executionAt_consistent horders outs (fun k => (schedule k).ordered k) n) (schedule n)
    (last_executionAt_le outs _ n)
  have hrun : ((initial outs).executionAt orders (fun k => (schedule k).ordered k) n).newest =
      (Execution.initial outs).executionAt schedule n := by
    induction n with
    | zero => rfl
    | succ n ih => exact congrArg Prod.fst (ih ▸ hstep n)
  exact ⟨hrun, congrArg Prod.snd (hrun ▸ hstep n)⟩

end OrderedExecution
end SafeEdge.Ipc
