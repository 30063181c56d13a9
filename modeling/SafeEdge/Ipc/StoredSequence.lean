import SafeEdge.Ipc.SeqlockReaders

/-! A slot whose writer stores the values of one sequence after the other: what has been published
is a start of the sequence, and every load is one of its values. -/
namespace SafeEdge.Ipc.Execution
open Library TriviallyCopyable

variable {ι T : Type*} [DecidableEq ι] [TriviallyCopyable T]

/-- A writer that begins a store begins the one that is next in the sequence. -/
def StoresInOrder (e : Execution ι T) (schedule : ℕ → Turn ι T) (values : ℕ → T) : Prop :=
  ∀ k value, schedule k = .writer value →
    value = values (e.executionAt schedule k).published.length

/-- The value of the store under way. -/
def pendingValue (e : Execution ι T) : Option T :=
  match e.writer with
  | .idle => none
  | .loaded value _ | .writing value _ _ => some value

/-- A start of the sequence is published, and the store under way is the next one. -/
structure FollowsSequence (values : ℕ → T) (e : Execution ι T) : Prop where
  published : e.published = (List.range e.published.length).map values
  pending : ∀ value, e.pendingValue = some value → value = values e.published.length

theorem FollowsSequence.step {values : ℕ → T} {e : Execution ι T} (h : e.FollowsSequence values)
    {turn : Turn ι T} (hnext : ∀ value, turn = .writer value → value = values e.published.length) :
    (e.step turn).1.FollowsSequence values := by
  cases turn with
  | reader id out maxAttempts => exact ⟨h.published, h.pending⟩
  | writer value =>
    have hout := e.writerStep_outcome value
    simp only [Execution.step]
    generalize e.writerStep value = result at hout
    cases hout with
    | load hidle =>
      refine ⟨h.published, fun stored hstored => ?_⟩
      rw [← Option.some.inj hstored]
      exact hnext value rfl
    | mark hloaded =>
      refine ⟨h.published, fun stored hstored => h.pending stored ?_⟩
      rwa [Execution.pendingValue, hloaded]
    | write hwriting =>
      refine ⟨h.published, fun stored hstored => h.pending stored ?_⟩
      rwa [Execution.pendingValue, hwriting]
    | @publish stored start index hwriting =>
      have hstored : stored = values e.published.length :=
        h.pending stored (by rw [Execution.pendingValue, hwriting])
      refine ⟨?_, fun value hnone => absurd hnone.symm (Option.some_ne_none value)⟩
      simp only [List.length_append, List.length_singleton, List.range_succ, List.map_append,
        List.map_singleton]
      rw [← h.published, hstored]

omit [DecidableEq ι] in
theorem initial_followsSequence (outs : ι → T) (values : ℕ → T) :
    (initial outs).FollowsSequence values :=
  ⟨rfl, fun value hnone => absurd hnone.symm (Option.some_ne_none value)⟩

omit [DecidableEq ι] in
/-- The latest publication, the first value before there is one. -/
theorem FollowsSequence.latest_eq {values : ℕ → T} {e : Execution ι T}
    (h : e.FollowsSequence values) (hzero : values 0 = ofWords fun _ => 0) :
    latest e.published = values (e.published.length - 1) := by
  have hpublished := h.published
  generalize e.published = published at hpublished
  rw [latest]
  cases hlength : published.length with
  | zero =>
    rw [List.eq_nil_of_length_eq_zero hlength]
    exact hzero.symm
  | succ count =>
    rw [hpublished, hlength, List.range_succ, List.map_append]
    simp

omit [DecidableEq ι] in
theorem length_le_stores (e : Execution ι T) : e.published.length ≤ e.stores := by
  unfold stores
  split <;> omega

section Run
variable {outs : ι → T} {schedule : ℕ → Turn ι T} {values : ℕ → T}
  (hstores : (initial outs).StoresInOrder schedule values)
include hstores

theorem followsSequence_executionAt (n : ℕ) :
    ((initial outs).executionAt schedule n).FollowsSequence values :=
  stateAt_invariant (fun _ (e : Execution ι T) => e.FollowsSequence values)
    (initial_followsSequence outs values) (fun k h => h.step (hstores k)) n

/-- A load that succeeds returns the value whose store was the latest to return. -/
theorem load_eq_value (hzero : values 0 = ofWords fun _ => 0) {id : ι} {k : ℕ}
    (hcount : ((initial outs).executionAt schedule k).stores < 2 ^ 63)
    (hreturns : (initial outs).Returns schedule id k true) :
    (((initial outs).executionAt schedule (k + 1)).readers id).out =
      values (((initial outs).executionAt schedule k).published.length - 1) := by
  rw [((initial_consistent outs).returns hcount hreturns).1]
  exact (followsSequence_executionAt hstores k).latest_eq hzero

end Run
end SafeEdge.Ipc.Execution
