import SafeEdge.Concurrent.SpscFifo
import SafeEdge.Library.BoundedQueue

/-! Every single access of the ring is an atomic step of a bounded queue: a push takes effect
when the producer stores its position, a pop when the consumer stores its own. -/
namespace SafeEdge.Concurrent
open Library

namespace Execution
variable {C : Capacity} {α : Type*} {start : UInt64} {e : Execution C α}

/-- The elements pushed and not yet popped. -/
def held (e : Execution C α) : List α := e.pushed.drop e.popped.length

/-- What the step of a turn does to the queue. -/
def effect (e : Execution C α) (turn : Turn α) : QueueLabel α :=
  match (e.step turn).2, e.producer with
  | .pushReturned true, .pushWritten value _ => .enqueued value
  | .pushReturned false, _ => .full
  | .popReturned (some out), _ => .dequeued out
  | .popReturned none, _ => .empty
  | _, _ => .silent

theorem length_held (e : Execution C α) : e.held.length = e.pushed.length - e.popped.length :=
  List.length_drop

theorem held_eq_nil (h : e.popped.length = e.pushed.length) : e.held = [] := by
  rw [held, h, List.drop_length]

namespace Consistent
variable {seenRead seenWrite : ℕ}

theorem held_publish (h : Consistent start seenRead seenWrite e) (value : α) :
    (e.pushed ++ [value]).drop e.popped.length = e.held ++ [value] := by
  have hordered := h.ordered
  exact List.drop_append_of_le_length (by omega)

theorem held_release (h : Consistent start seenRead seenWrite e) {out : α} {read : UInt64}
    (hpc : e.consumer = .popTaken out read) :
    e.held = out :: e.pushed.drop (e.popped ++ [out]).length := by
  obtain ⟨-, -, hout⟩ := h.of_popTaken hpc
  obtain ⟨hlt, hget⟩ := List.getElem?_eq_some_iff.mp hout
  rw [held, List.drop_eq_getElem_cons hlt, hget, List.length_append, List.length_singleton]

end Consistent

theorem producerStep_refines (h : IsConsistent start e) (call : ProducerCall α) :
    QueueStep C.slots e.held (e.effect (.producer call)) (e.producerStep call).1.held := by
  obtain ⟨seenRead, seenWrite, h⟩ := h
  have hordered := h.ordered
  simp only [effect, step, producerStep]
  cases hp : e.producer with
  | idle => cases call <;> exact .silent _
  | pushLoaded value write =>
    obtain rfl := h.of_pushLoaded hp
    simp only
    split_ifs with hfull hstill
    · rw [h.refreshed_looksFull_iff] at hstill
      refine .full ?_
      rw [length_held]
      omega
    · exact .silent _
    · exact .silent _
  | pushReady value write => exact .silent _
  | pushWritten value write =>
    obtain ⟨-, hroom, -⟩ := h.of_pushWritten hp
    have hheld := h.held_publish value
    simp only [held] at hheld ⊢
    rw [hheld]
    refine .enqueue value ?_
    rw [List.length_drop]
    omega
  | sizing write => exact .silent _

theorem consumerStep_refines (h : IsConsistent start e) (call : ConsumerCall) (movedFrom : α) :
    QueueStep C.slots e.held (e.effect (.consumer call movedFrom))
      (e.consumerStep call movedFrom).1.held := by
  obtain ⟨seenRead, seenWrite, h⟩ := h
  simp only [effect, step, consumerStep]
  cases hc : e.consumer with
  | idle => cases call <;> exact .silent _
  | popLoaded read =>
    obtain rfl := h.of_popLoaded hc
    simp only
    split_ifs with hempty hstill
    · rw [h.refreshed_looksEmpty_iff] at hstill
      have hnil := held_eq_nil hstill
      simp only [held] at hnil ⊢
      rw [hnil]
      exact .empty
    · exact .silent _
    · exact .silent _
  | popReady read => exact .silent _
  | popTaken out read =>
    rw [h.held_release hc]
    exact .dequeue out _
  | sizing write => exact .silent _

/-- Under every interleaving the elements held start out empty, every turn is the atomic step of a
queue of the ring's capacity that its effect names, and the ring never holds more elements than it
has slots. -/
theorem ring_refines_queue (start : UInt64) (slots : Fin C.slots → α) (schedule : ℕ → Turn α) :
    ((initial start slots).executionAt schedule 0).held = [] ∧
      (∀ n, QueueStep C.slots ((initial start slots).executionAt schedule n).held
        (((initial start slots).executionAt schedule n).effect (schedule n))
        ((initial start slots).executionAt schedule (n + 1)).held) ∧
      ∀ n, ((initial start slots).executionAt schedule n).held.length ≤ C.slots := by
  have hstep (n : ℕ) : QueueStep C.slots ((initial start slots).executionAt schedule n).held
      (((initial start slots).executionAt schedule n).effect (schedule n))
      ((initial start slots).executionAt schedule (n + 1)).held := by
    have hconsistent := executionAt_consistent start slots schedule n
    rw [show (initial start slots).executionAt schedule (n + 1) =
      (((initial start slots).executionAt schedule n).step (schedule n)).1 from stateAt_succ ..]
    cases schedule n with
    | producer call => exact producerStep_refines hconsistent call
    | consumer call movedFrom => exact consumerStep_refines hconsistent call movedFrom
  exact ⟨rfl, hstep, length_le_of_queueSteps rfl hstep⟩

end Execution
end SafeEdge.Concurrent
