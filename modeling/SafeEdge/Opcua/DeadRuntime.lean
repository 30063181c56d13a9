import SafeEdge.Ipc.QuietSlot
import SafeEdge.Opcua.Publisher

/-! The publisher loop against the slot the runtime stores to, and what it serves once the
runtime has stopped. -/
namespace SafeEdge.Opcua
open Edge Ipc Library

/-- The slot with the runtime's store and the publisher's load in progress, the publisher's
bookkeeping, and the values the server holds. -/
structure PublisherLoop where
  execution : Execution Unit RuntimeSnapshot := .initial fun _ => {}
  publisher : Publisher := {}
  server : Server := fun _ => none

/-- One access of one of the two processes; an event fired in that turn succeeds or not. -/
inductive LoopTurn where
  | runtime (snapshot : RuntimeSnapshot)
  | publisher (fires : Bool)

/-- What an iteration of the loop did once its load returned. -/
structure Iteration where
  fresh : Bool
  delivered : Option SafetyTransitionEvent

namespace PublisherLoop

/-- The iteration after `tryLoad` has returned. -/
def afterLoad (loop : PublisherLoop) (snapshot : RuntimeSnapshot) (fresh fires : Bool) :
    PublisherLoop × Iteration :=
  let poll : Poll := { snapshot := if fresh then some snapshot else none, fires }
  let (publisher, built) := loop.publisher.iterate poll
  ({ loop with publisher, server := publishSnapshot loop.server snapshot fresh },
    { fresh, delivered := if fires then built else none })

/-- The next access. The snapshot an iteration loads into is default constructed, and the load
makes the default number of attempts. -/
def step (loop : PublisherLoop) : LoopTurn → PublisherLoop × Option Iteration
  | .runtime snapshot =>
    ({ loop with execution := (loop.execution.step (.writer snapshot)).1 }, none)
  | .publisher fires =>
    let (execution, event) := loop.execution.step (.reader () {} 32)
    match event with
    | .loaded fresh =>
      let (next, iteration) :=
        { loop with execution }.afterLoad (execution.readers ()).out fresh fires
      (next, some iteration)
    | .running | .stored => ({ loop with execution }, none)

/-- The loop before turn `n` of a schedule. -/
def loopAt (schedule : ℕ → LoopTurn) (n : ℕ) : PublisherLoop :=
  stateAt (fun loop turn => (step loop turn).1) {} schedule n

/-- The iteration that turn `n` completes, if any. -/
def iterationAt (schedule : ℕ → LoopTurn) (n : ℕ) : Option Iteration :=
  ((loopAt schedule n).step (schedule n)).2

/-- The polls that turns `m` up to `n` publish as fresh. -/
def freshPolls (schedule : ℕ → LoopTurn) (m n : ℕ) : ℕ :=
  ∑ k ∈ Finset.Ico m n, if (iterationAt schedule k).any Iteration.fresh then 1 else 0

/-- The publisher's thread. -/
def reader (loop : PublisherLoop) : Reader RuntimeSnapshot := loop.execution.readers ()

theorem step_publisher_slot (loop : PublisherLoop) (fires : Bool) :
    (loop.step (.publisher fires)).1.execution.slot = loop.execution.slot := by
  simp only [step]
  split <;> rfl

theorem step_publisher_reader (loop : PublisherLoop) (fires : Bool) :
    (loop.step (.publisher fires)).1.reader =
      (loop.reader.step loop.execution.slot {} 32).1 := by
  have hreader := loop.execution.step_reader_self () {} 32
  simp only [step]
  split <;> exact hreader

theorem step_runtime_reader (loop : PublisherLoop) (snapshot : RuntimeSnapshot) :
    (loop.step (.runtime snapshot)).1.reader = loop.reader :=
  congrFun (loop.execution.step_writer_readers snapshot) ()

theorem step_publisher_iteration (loop : PublisherLoop) (fires : Bool) :
    (loop.step (.publisher fires)).2.map Iteration.fresh =
      match (loop.reader.step loop.execution.slot {} 32).2 with
      | .loaded fresh => some fresh
      | .running | .stored => none := by
  have hevent : (loop.execution.step (.reader () {} 32)).2 =
      (loop.reader.step loop.execution.slot {} 32).2 := rfl
  rw [← hevent]
  simp only [step]
  split <;> rfl

/-- The invariant of the publisher's load: its copies are begun under an even counter, and its
output is the default snapshot until it succeeds. -/
structure Loading (loop : PublisherLoop) : Prop where
  even : loop.reader.SampledEven
  untouched : loop.reader.Untouched {}

theorem Loading.step {loop : PublisherLoop} (h : loop.Loading) (turn : LoopTurn) :
    (loop.step turn).1.Loading := by
  cases turn with
  | runtime snapshot =>
    constructor
    · rw [step_runtime_reader]
      exact h.even
    · rw [step_runtime_reader]
      exact h.untouched
  | publisher fires =>
    constructor
    · rw [step_publisher_reader]
      exact h.even.step _ _ _
    · rw [step_publisher_reader]
      by_cases hloaded : (loop.reader.step loop.execution.slot {} 32).2 = .loaded true
      · exact Or.inl (Reader.idle_of_loaded hloaded)
      · exact Or.inr (h.untouched.step _ _ hloaded)

theorem loopAt_loading (schedule : ℕ → LoopTurn) (n : ℕ) : (loopAt schedule n).Loading := by
  have hinit : ({} : PublisherLoop).Loading := ⟨trivial, Or.inl rfl⟩
  exact stateAt_invariant (fun _ (loop : PublisherLoop) => loop.Loading) hinit
    (fun n h => h.step (schedule n)) n

/-- A poll that is not fresh makes every variable the zero of its type without data. -/
theorem Loading.stale {loop : PublisherLoop} (h : loop.Loading) {turn : LoopTurn}
    (hstale : (loop.step turn).2.map Iteration.fresh = some false) {spec : VariableSpec}
    (hspec : spec ∈ specs) :
    (loop.step turn).1.server (nodeIdOf spec.number) =
      some { value := spec.type.zero, status := .badNoData } := by
  cases turn with
  | runtime snapshot => simp [PublisherLoop.step] at hstale
  | publisher fires =>
    rw [step_publisher_iteration] at hstale
    have hevent : (loop.reader.step loop.execution.slot {} 32).2 = .loaded false := by
      split at hstale <;> simp_all
    have hout : ((loop.execution.step (.reader () {} 32)).1.readers ()).out = {} := by
      rw [loop.execution.step_reader_self]
      exact h.untouched.step _ _ (by rw [hevent]; simp)
    have hserver : (loop.step (.publisher fires)).1.server =
        publishSnapshot loop.server {} false := by
      have hloaded : (loop.execution.step (.reader () {} 32)).2 = .loaded false := hevent
      simp only [PublisherLoop.step, hloaded, afterLoad, hout]
    rw [hserver]
    exact publishSnapshot_stale loop.server hspec

section Stopped
variable {schedule : ℕ → LoopTurn} {m : ℕ}
  (hstopped : ∀ k, m ≤ k → ∃ fires, schedule k = .publisher fires)

include hstopped

/-- Once the runtime takes no more turns the slot stays as it is. -/
theorem slot_of_stopped {k : ℕ} (hk : m ≤ k) :
    (loopAt schedule k).execution.slot = (loopAt schedule m).execution.slot := by
  induction k, hk using Nat.le_induction with
  | base => rfl
  | succ k hk ih =>
    obtain ⟨fires, hturn⟩ := hstopped k hk
    have hnext : loopAt schedule (k + 1) = ((loopAt schedule k).step (.publisher fires)).1 := by
      rw [← hturn]
      rfl
    rw [hnext, step_publisher_slot, ih]

theorem iterationAt_of_stopped {k : ℕ} (hk : m ≤ k) :
    (iterationAt schedule k).map Iteration.fresh =
      match ((loopAt schedule k).reader.step (loopAt schedule m).execution.slot {} 32).2 with
      | .loaded fresh => some fresh
      | .running | .stored => none := by
  obtain ⟨fires, hturn⟩ := hstopped k hk
  rw [iterationAt, hturn, step_publisher_iteration, slot_of_stopped hstopped hk]

/-- A counter left odd lets no later poll be fresh. -/
theorem not_fresh_of_marked (hmarked : (loopAt schedule m).execution.slot.WriteInProgress)
    {k : ℕ} (hk : m ≤ k) : (iterationAt schedule k).any Iteration.fresh = false := by
  have hfresh := iterationAt_of_stopped hstopped hk
  have hload := (loopAt_loading schedule k).even.not_loaded hmarked {} 32
  cases hiteration : iterationAt schedule k with
  | none => rfl
  | some iteration =>
    rw [hiteration] at hfresh
    rw [Option.any_some]
    split at hfresh
    next fresh hevent =>
      rw [hevent] at hload
      simp_all
    all_goals simp at hfresh

/-- A counter left even is followed by one fresh poll after the other. -/
theorem fresh_of_quiet (hquiet : ¬ (loopAt schedule m).execution.slot.WriteInProgress)
    {k : ℕ} (hk : m ≤ k) : ∃ n, k ≤ n ∧ (iterationAt schedule n).any Iteration.fresh = true := by
  induction hrank : (loopAt schedule k).reader.rank (loopAt schedule m).execution.slot
    using Nat.strong_induction_on generalizing k with
  | _ rank ih =>
    rcases (loopAt schedule k).reader.step_rank hquiet {} (show 0 < 32 by decide) with
      hloaded | hlower
    · refine ⟨k, le_rfl, ?_⟩
      have hfresh := iterationAt_of_stopped hstopped hk
      rw [hloaded] at hfresh
      obtain ⟨iteration, hiteration, htrue⟩ := Option.map_eq_some_iff.mp hfresh
      rw [hiteration, Option.any_some, htrue]
    · obtain ⟨fires, hturn⟩ := hstopped k hk
      have hnext : (loopAt schedule (k + 1)).reader =
          ((loopAt schedule k).reader.step (loopAt schedule m).execution.slot {} 32).1 := by
        rw [← slot_of_stopped hstopped hk, ← step_publisher_reader _ fires, ← hturn]
        rfl
      rw [← hnext, hrank] at hlower
      obtain ⟨n, hn, hfresh⟩ := ih _ hlower (Nat.le_succ_of_le hk) rfl
      exact ⟨n, Nat.le_of_succ_le hn, hfresh⟩

theorem freshPolls_unbounded (hquiet : ¬ (loopAt schedule m).execution.slot.WriteInProgress)
    (N : ℕ) : ∃ n, m ≤ n ∧ N < freshPolls schedule m n := by
  induction N with
  | zero =>
    obtain ⟨k, hk, hfresh⟩ := fresh_of_quiet hstopped hquiet le_rfl
    refine ⟨k + 1, by omega, ?_⟩
    rw [freshPolls, Finset.sum_Ico_succ_top hk, hfresh]
    simp
  | succ N ih =>
    obtain ⟨n, hn, hmany⟩ := ih
    obtain ⟨k, hk, hfresh⟩ := fresh_of_quiet hstopped hquiet hn
    have hmono : freshPolls schedule m n ≤ freshPolls schedule m k :=
      Finset.sum_le_sum_of_subset (Finset.Ico_subset_Ico_right hk)
    refine ⟨k + 1, by omega, ?_⟩
    rw [freshPolls, Finset.sum_Ico_succ_top (hn.trans hk), hfresh, if_pos rfl]
    exact Nat.succ_lt_succ (hmany.trans_le hmono)

end Stopped

/-- For every bound `N`: after the runtime's last access at most `N` polls are published as
fresh, and all others as zeros without data, exactly when it stopped between the two counter
stores of a publication. -/
theorem dead_runtime_bounded_iff (schedule : ℕ → LoopTurn) (m : ℕ)
    (hstopped : ∀ k, m ≤ k → ∃ fires, schedule k = .publisher fires) (N : ℕ) :
    ((∀ n, freshPolls schedule m n ≤ N) ∧
      ∀ k, m ≤ k → (iterationAt schedule k).map Iteration.fresh = some false →
        ∀ spec ∈ specs, (loopAt schedule (k + 1)).server (nodeIdOf spec.number) =
          some { value := spec.type.zero, status := .badNoData }) ↔
      (loopAt schedule m).execution.slot.WriteInProgress := by
  constructor
  · intro hbounded
    by_contra hquiet
    obtain ⟨n, _, hmany⟩ := freshPolls_unbounded hstopped hquiet N
    exact absurd (hbounded.1 n) (Nat.not_le.mpr hmany)
  · intro hmarked
    constructor
    · intro n
      have hnone : freshPolls schedule m n = 0 := by
        apply Finset.sum_eq_zero
        intro k hk
        rw [not_fresh_of_marked hstopped hmarked (Finset.mem_Ico.mp hk).1]
        rfl
      omega
    · intro k _ hstale spec hspec
      exact (loopAt_loading schedule k).stale hstale hspec

/-- The runtime dies in its first store, after marking the counter. -/
def diesInStore : ℕ → LoopTurn
  | 0 | 1 => .runtime { torquePermitted := 1 }
  | _ => .publisher true

theorem dead_runtime_bounded_iff_diesInStore :
    (loopAt diesInStore 2).execution.slot.WriteInProgress ∧
      ∀ n, freshPolls diesInStore 2 n ≤ 0 := by
  have hmarked : (loopAt diesInStore 2).execution.slot.WriteInProgress := by decide
  refine ⟨hmarked, ((dead_runtime_bounded_iff diesInStore 2 ?_ 0).mpr hmarked).1⟩
  intro k hk
  match k, hk with
  | k + 2, _ => exact ⟨true, rfl⟩

/-- The runtime dies right after its first store has returned. -/
def diesBetweenStores (k : ℕ) : LoopTurn :=
  if k < 24 then .runtime { torquePermitted := 1 } else .publisher true

/-- However many polls are allowed, a runtime dead between two stores is served as fresh, with
torque permitted, more often than that. -/
theorem dead_runtime_served_fresh :
    (∀ N, ∃ n, N < freshPolls diesBetweenStores 24 n) ∧
      (loopAt diesBetweenStores 48).server (nodeIdOf .kTorquePermitted) =
        some { value := .boolean true, status := .good } := by
  refine ⟨?_, by decide +kernel⟩
  intro N
  have hquiet : ¬ (loopAt diesBetweenStores 24).execution.slot.WriteInProgress := by decide +kernel
  obtain ⟨n, _, hmany⟩ := @freshPolls_unbounded diesBetweenStores 24
    (fun k hk => ⟨true, if_neg (by omega)⟩) hquiet N
  exact ⟨n, hmany⟩

end PublisherLoop
end SafeEdge.Opcua
