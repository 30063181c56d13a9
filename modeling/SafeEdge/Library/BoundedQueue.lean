import Mathlib.Tactic

/-! The atomic bounded queue that concurrent queues implement. -/
namespace Library

/-- What an atomic step of a queue shows its users. -/
inductive QueueLabel (α : Type*) where
  | silent
  | enqueued (value : α)
  | dequeued (value : α)
  | full
  | empty

/-- The atomic steps of a queue of bounded length. -/
inductive QueueStep {α : Type*} (capacity : ℕ) : List α → QueueLabel α → List α → Prop
  | silent (queue : List α) : QueueStep capacity queue .silent queue
  | enqueue {queue : List α} (value : α) (hroom : queue.length < capacity) :
      QueueStep capacity queue (.enqueued value) (queue ++ [value])
  | dequeue (value : α) (queue : List α) :
      QueueStep capacity (value :: queue) (.dequeued value) queue
  | full {queue : List α} (hfull : queue.length = capacity) :
      QueueStep capacity queue .full queue
  | empty : QueueStep capacity [] .empty []

theorem QueueStep.length_le {α : Type*} {capacity : ℕ} {queue next : List α}
    {label : QueueLabel α} (hstep : QueueStep capacity queue label next)
    (h : queue.length ≤ capacity) : next.length ≤ capacity := by
  cases hstep with
  | silent => exact h
  | enqueue value hroom =>
    rw [List.length_append, List.length_singleton]
    exact hroom
  | dequeue value =>
    rw [List.length_cons] at h
    omega
  | full hfull => exact h
  | empty => exact h

/-- Along a run of atomic steps from an empty queue the length stays within the bound. -/
theorem length_le_of_queueSteps {α : Type*} {capacity : ℕ} {queues : ℕ → List α}
    {labels : ℕ → QueueLabel α} (hempty : queues 0 = [])
    (hstep : ∀ n, QueueStep capacity (queues n) (labels n) (queues (n + 1))) (n : ℕ) :
    (queues n).length ≤ capacity := by
  induction n with
  | zero =>
    rw [hempty]
    exact Nat.zero_le _
  | succ n ih => exact (hstep n).length_le ih

end Library
