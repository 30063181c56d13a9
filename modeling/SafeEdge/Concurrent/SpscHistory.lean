import SafeEdge.Concurrent.SpscRing

/-! The history of the calls on the ring, told from what the threads are asked to do and what their
calls return: the values whose push returned true, and the values that pops returned. -/
namespace SafeEdge.Concurrent
open Library

section History
variable {α : Type*}

/-- The call comes to its end with this event. -/
def Event.returns : Event α → Bool
  | .running => false
  | .pushReturned _ | .popReturned _ | .sizeReturned _ => true

/-- The value handed to the caller of a pop. -/
def Event.value : Event α → Option α
  | .popReturned out => out
  | .running | .pushReturned _ | .sizeReturned _ => none

/-- The value handed in by the caller of a push. -/
def ProducerCall.value : ProducerCall α → Option α
  | .tryPush value => some value
  | .sizeApprox => none

/-- The call the producer is in after a turn, if it was offered one in it. A producer that is in a
call goes on with that one. -/
def callAfter (offer : Option (ProducerCall α)) (event : Event α)
    (current : Option (ProducerCall α)) : Option (ProducerCall α) :=
  match offer with
  | none => current
  | some call => if event.returns then none else some (current.getD call)

/-- The value of the call that returns true as a push in a turn. -/
def valuePushed (offer : Option (ProducerCall α)) (event : Event α)
    (current : Option (ProducerCall α)) : Option α :=
  match offer, event with
  | some call, .pushReturned true => (current.getD call).value
  | _, _ => none

variable (offers : ℕ → Option (ProducerCall α)) (events : ℕ → Event α)

/-- The call the producer is in before turn `n`. -/
def callBefore : ℕ → Option (ProducerCall α)
  | 0 => none
  | n + 1 => callAfter (offers n) (events n) (callBefore n)

/-- The values whose push has returned true before turn `n`, in their order. -/
def pushedBefore (n : ℕ) : List α :=
  (List.range n).filterMap fun k => valuePushed (offers k) (events k) (callBefore offers events k)

/-- The values that pops have returned before turn `n`, in their order. -/
def poppedBefore (n : ℕ) : List α := (List.range n).filterMap fun k => (events k).value

theorem pushedBefore_succ (n : ℕ) : pushedBefore offers events (n + 1) =
    pushedBefore offers events n ++
      (valuePushed (offers n) (events n) (callBefore offers events n)).toList := by
  rw [pushedBefore, List.range_succ, List.filterMap_append, pushedBefore]
  cases h : valuePushed (offers n) (events n) (callBefore offers events n) <;> simp [h]

theorem poppedBefore_succ (n : ℕ) :
    poppedBefore events (n + 1) = poppedBefore events n ++ (events n).value.toList := by
  rw [poppedBefore, List.range_succ, List.filterMap_append, poppedBefore]
  cases h : (events n).value <;> simp [h]

end History

/-- The call a producer at this place is in. -/
def ProducerPc.call {α : Type*} : ProducerPc α → Option (ProducerCall α)
  | .idle => none
  | .pushLoaded value _ | .pushReady value _ | .pushWritten value _ => some (.tryPush value)
  | .sizing _ => some .sizeApprox

/-- The producer's place and the lists of an execution, told from the history before turn `n`. -/
structure Recorded {α : Type*} (offers : ℕ → Option (ProducerCall α)) (events : ℕ → Event α) (n : ℕ)
    (pc : ProducerPc α) (pushed popped : List α) : Prop where
  call : pc.call = callBefore offers events n
  pushed : pushed = pushedBefore offers events n
  popped : popped = poppedBefore events n

/-- What a turn does to the producer's place and to the lists, told from what the turn was offered
and what it returned. -/
structure Records {α : Type*} (offer : Option (ProducerCall α)) (event : Event α)
    (pc nextPc : ProducerPc α) (pushed nextPushed popped nextPopped : List α) : Prop where
  call : nextPc.call = callAfter offer event pc.call
  pushed : nextPushed = pushed ++ (valuePushed offer event pc.call).toList
  popped : nextPopped = popped ++ event.value.toList

/-- A turn in which no value is handed over. -/
theorem Records.of_unchanged {α : Type*} {offer : Option (ProducerCall α)} {event : Event α}
    {pc nextPc : ProducerPc α} {pushed popped : List α}
    (hcall : nextPc.call = callAfter offer event pc.call)
    (hpushed : valuePushed offer event pc.call = none) (hpopped : event.value = none) :
    Records offer event pc nextPc pushed pushed popped popped where
  call := hcall
  pushed := by rw [hpushed, Option.toList_none, List.append_nil]
  popped := by rw [hpopped, Option.toList_none, List.append_nil]

theorem Recorded.succ {α : Type*} {offers : ℕ → Option (ProducerCall α)} {events : ℕ → Event α}
    {n : ℕ} {pc nextPc : ProducerPc α} {pushed nextPushed popped nextPopped : List α}
    (h : Recorded offers events n pc pushed popped)
    (hstep : Records (offers n) (events n) pc nextPc pushed nextPushed popped nextPopped) :
    Recorded offers events (n + 1) nextPc nextPushed nextPopped where
  call := by rw [hstep.call, h.call, callBefore]
  pushed := by rw [hstep.pushed, pushedBefore_succ, h.pushed, h.call]
  popped := by rw [hstep.popped, poppedBefore_succ, h.popped]

/-- The call offered to the producer in a turn. -/
def Turn.offer {α : Type*} : Turn α → Option (ProducerCall α)
  | .producer call => some call
  | .consumer _ _ => none

namespace Execution
variable {C : Capacity} {α : Type*}

theorem step_records (e : Execution C α) (turn : Turn α) :
    Records turn.offer (e.step turn).2 e.producer (e.step turn).1.producer e.pushed
      (e.step turn).1.pushed e.popped (e.step turn).1.popped := by
  cases turn with
  | producer call =>
    simp only [step, producerStep]
    cases hp : e.producer with
    | idle => cases call <;> exact .of_unchanged rfl rfl rfl
    | pushLoaded value write =>
      simp only
      split_ifs <;> exact .of_unchanged rfl rfl rfl
    | pushReady value write => exact .of_unchanged rfl rfl rfl
    | pushWritten value write => exact ⟨rfl, rfl, (List.append_nil _).symm⟩
    | sizing write => exact .of_unchanged rfl rfl rfl
  | consumer call movedFrom =>
    simp only [step, consumerStep]
    cases hc : e.consumer with
    | idle => cases call <;> exact .of_unchanged rfl rfl rfl
    | popLoaded read =>
      simp only
      split_ifs <;> exact .of_unchanged rfl rfl rfl
    | popReady read => exact .of_unchanged rfl rfl rfl
    | popTaken out read => exact ⟨rfl, (List.append_nil _).symm, rfl⟩
    | sizing write => exact .of_unchanged rfl rfl rfl

/-- The values whose push has returned true before turn `n` of a schedule. -/
def valuesPushed (e : Execution C α) (schedule : ℕ → Turn α) : ℕ → List α :=
  pushedBefore (fun k => (schedule k).offer) (e.eventAt schedule)

/-- The values that pops have returned before turn `n` of a schedule. -/
def valuesPopped (e : Execution C α) (schedule : ℕ → Turn α) : ℕ → List α :=
  poppedBefore (e.eventAt schedule)

/-- The lists of an execution are its history. -/
theorem executionAt_recorded (start : UInt64) (slots : Fin C.slots → α) (schedule : ℕ → Turn α)
    (n : ℕ) :
    Recorded (fun k => (schedule k).offer) ((initial start slots).eventAt schedule) n
      ((initial start slots).executionAt schedule n).producer
      ((initial start slots).executionAt schedule n).pushed
      ((initial start slots).executionAt schedule n).popped := by
  induction n with
  | zero => exact ⟨rfl, rfl, rfl⟩
  | succ n ih => exact ih.succ (step_records _ (schedule n))

end Execution
end SafeEdge.Concurrent
