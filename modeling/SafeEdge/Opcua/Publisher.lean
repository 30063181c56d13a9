import SafeEdge.Library.Run
import SafeEdge.Opcua.AddressSpace

/-! The publisher thread: one poll of the slot after the other, and an event for each
transition it notices. -/
namespace SafeEdge.Opcua
open Edge Library

structure SafetyTransitionEvent where
  transitionMonotonicNs : Int64 := 0
  safetySequence : UInt64 := 0
  missedTransitions : UInt64 := 0
  safetyState : UInt32 := 0
  torquePermitted : Bool := false
  deriving DecidableEq

def describeTransition (snapshot : RuntimeSnapshot) (previousSequence : UInt64) :
    SafetyTransitionEvent :=
  let advanced := snapshot.safetySequence - previousSequence
  { transitionMonotonicNs := snapshot.safetyTransitionMonotonicNs.toInt64
    safetySequence := snapshot.safetySequence
    safetyState := snapshot.safetyState
    torquePermitted := snapshot.torquePermitted != 0
    missedTransitions := if advanced > 1 then advanced - 1 else 0 }

/-- What the publisher thread keeps from one iteration to the next. -/
structure Publisher where
  haveSequence : Bool := false
  lastSequence : UInt64 := 0
  deriving DecidableEq

/-- What one iteration meets: the snapshot `tryLoad` returned, if any, and whether firing an
event succeeds. -/
structure Poll where
  snapshot : Option RuntimeSnapshot
  fires : Bool

namespace Publisher

/-- The bookkeeping of a fresh snapshot, and the event handed to `fireSafetyTransition`. -/
def observe (publisher : Publisher) (snapshot : RuntimeSnapshot) :
    Publisher × Option SafetyTransitionEvent :=
  if !publisher.haveSequence then
    ({ haveSequence := true, lastSequence := snapshot.safetySequence }, none)
  else if snapshot.safetySequence ≠ publisher.lastSequence then
    ({ publisher with lastSequence := snapshot.safetySequence },
      some (describeTransition snapshot publisher.lastSequence))
  else (publisher, none)

def iterate (publisher : Publisher) (poll : Poll) : Publisher × Option SafetyTransitionEvent :=
  match poll.snapshot with
  | none => (publisher, none)
  | some snapshot => publisher.observe snapshot

end Publisher

section Run
variable (polls : ℕ → Poll)

/-- The publisher before poll `n`. -/
def publisherAt (n : ℕ) : Publisher :=
  stateAt (fun publisher poll => (publisher.iterate poll).1) {} polls n

/-- The event poll `n` tries to fire. -/
def builtAt (n : ℕ) : Option SafetyTransitionEvent :=
  ((publisherAt polls n).iterate (polls n)).2

/-- The event poll `n` delivers. -/
def deliveredAt (n : ℕ) : Option SafetyTransitionEvent :=
  if (polls n).fires then builtAt polls n else none

/-- The transition counter in the last successful poll before poll `n`. -/
def lastPolled : ℕ → Option UInt64
  | 0 => none
  | n + 1 =>
    match (polls n).snapshot with
    | none => lastPolled n
    | some snapshot => some snapshot.safetySequence

/-- The last successful poll of those from `i` up to `j` found the given counter. -/
def LastFound (i j : ℕ) (sequence : UInt64) : Prop :=
  ∃ k, i ≤ k ∧ k < j ∧ (polls k).snapshot.map RuntimeSnapshot.safetySequence = some sequence ∧
    ∀ l, k < l → l < j → (polls l).snapshot = none

theorem lastPolled_of_lastFound {i j : ℕ} {sequence : UInt64}
    (h : LastFound polls i j sequence) : lastPolled polls j = some sequence := by
  obtain ⟨k, _, hkj, hfound, hfailed⟩ := h
  induction j, hkj using Nat.le_induction with
  | base =>
    obtain ⟨snapshot, hpoll, rfl⟩ := Option.map_eq_some_iff.mp hfound
    simp only [lastPolled, hpoll]
  | succ j hkj ih =>
    rw [lastPolled, hfailed j hkj (Nat.lt_succ_self j)]
    exact ih fun l hl hlj => hfailed l hl (by omega)

/-- After a successful poll the last counter polled is one found from there on. -/
theorem lastFound_of_lastPolled {i j : ℕ} (hij : i < j) (hpoll : (polls i).snapshot ≠ none)
    {sequence : UInt64} (h : lastPolled polls j = some sequence) :
    LastFound polls i j sequence := by
  induction j, hij using Nat.le_induction with
  | base =>
    obtain ⟨snapshot, hsome⟩ := Option.ne_none_iff_exists'.mp hpoll
    simp only [lastPolled, hsome] at h
    exact ⟨i, le_rfl, Nat.lt_succ_self i, by simpa [hsome] using h, fun l hl hli => by omega⟩
  | succ j hij ih =>
    rw [lastPolled] at h
    cases hj : (polls j).snapshot with
    | none =>
      simp only [hj] at h
      obtain ⟨k, hik, hkj, hfound, hfailed⟩ := ih h
      refine ⟨k, hik, by omega, hfound, fun l hl hlj => ?_⟩
      rcases Nat.lt_succ_iff_lt_or_eq.mp hlj with hlt | rfl
      · exact hfailed l hl hlt
      · exact hj
    | some snapshot =>
      simp only [hj] at h
      exact ⟨j, by omega, Nat.lt_succ_self j, by simpa [hj] using h, fun l hl hlj => by omega⟩

/-- The bookkeeping follows the last successful poll, delivered or not. -/
theorem publisherAt_eq (n : ℕ) : publisherAt polls n =
    match lastPolled polls n with
    | none => {}
    | some sequence => { haveSequence := true, lastSequence := sequence } := by
  induction n with
  | zero => rfl
  | succ n ih =>
    have hnext : publisherAt polls (n + 1) = ((publisherAt polls n).iterate (polls n)).1 := rfl
    rw [hnext, ih, Publisher.iterate, lastPolled]
    cases (polls n).snapshot with
    | none => rfl
    | some snapshot =>
      cases lastPolled polls n with
      | none => rfl
      | some sequence =>
        simp only [Publisher.observe, Bool.not_true, Bool.false_eq_true, if_false]
        split_ifs with hmoved
        · rfl
        · rw [not_not.mp hmoved]

theorem builtAt_eq_some_iff {n : ℕ} {event : SafetyTransitionEvent} :
    builtAt polls n = some event ↔ ∃ snapshot sequence, (polls n).snapshot = some snapshot ∧
      lastPolled polls n = some sequence ∧ snapshot.safetySequence ≠ sequence ∧
      describeTransition snapshot sequence = event := by
  rw [builtAt, publisherAt_eq, Publisher.iterate]
  cases hpoll : (polls n).snapshot with
  | none => simp
  | some snapshot =>
    cases lastPolled polls n with
    | none => simp [Publisher.observe]
    | some sequence =>
      simp only [Publisher.observe, Bool.not_true, Bool.false_eq_true, if_false]
      split_ifs with hmoved
      · simp [hmoved]
      · simp [not_not.mp hmoved]

theorem builtAt_of_deliveredAt {n : ℕ} {event : SafetyTransitionEvent}
    (h : deliveredAt polls n = some event) : builtAt polls n = some event := by
  unfold deliveredAt at h
  split_ifs at h
  exact h

end Run

/-- The gap an event reports is the distance from the counter it was compared with. -/
theorem one_add_missedTransitions {snapshot : RuntimeSnapshot} {sequence : UInt64}
    (h : snapshot.safetySequence ≠ sequence) :
    1 + (describeTransition snapshot sequence).missedTransitions =
      snapshot.safetySequence - sequence := by
  have hpos : 0 < (snapshot.safetySequence - sequence).toNat := by
    apply Nat.pos_of_ne_zero
    intro hzero
    have hsame : snapshot.safetySequence - sequence =
        snapshot.safetySequence - snapshot.safetySequence := by
      rw [UInt64.sub_self]
      exact UInt64.toNat_inj.mp hzero
    exact h ((UInt64.sub_right_inj _).mp hsame).symm
  simp only [describeTransition]
  generalize snapshot.safetySequence - sequence = advanced at hpos
  split_ifs with hmore
  · rw [UInt64.add_comm, UInt64.sub_add_cancel]
  · apply UInt64.toNat_inj.mp
    rw [gt_iff_lt, UInt64.lt_iff_toNat_lt, UInt64.toNat_one] at hmore
    rw [UInt64.add_zero, UInt64.toNat_one]
    omega

/-- Of two delivered events the later accounts for every transition since the earlier exactly
when the last successful poll before it still found the earlier one's counter. -/
theorem delivered_gap_iff (polls : ℕ → Poll) (i j : ℕ) (hij : i < j)
    (earlier later : SafetyTransitionEvent) (hearlier : deliveredAt polls i = some earlier)
    (hlater : deliveredAt polls j = some later) :
    later.safetySequence - earlier.safetySequence = 1 + later.missedTransitions ↔
      LastFound polls i j earlier.safetySequence := by
  obtain ⟨first, _, hpoll, _, _, _⟩ :=
    (builtAt_eq_some_iff polls).mp (builtAt_of_deliveredAt polls hearlier)
  obtain ⟨snapshot, sequence, _, hsequence, hmoved, rfl⟩ :=
    (builtAt_eq_some_iff polls).mp (builtAt_of_deliveredAt polls hlater)
  rw [one_add_missedTransitions hmoved]
  constructor
  · intro h
    have hsame : earlier.safetySequence = sequence := (UInt64.sub_right_inj _).mp h
    rw [hsame]
    exact lastFound_of_lastPolled polls hij (by simp [hpoll]) hsequence
  · intro h
    have hlast := lastPolled_of_lastFound polls h
    rw [hsequence, Option.some.injEq] at hlast
    rw [hlast]
    rfl

/-- A poll that finds the given transition counter. -/
def counting (sequence : UInt64) (fires : Bool) : Poll :=
  { snapshot := some { safetySequence := sequence }, fires }

/-- Three transitions between two successful polls, with a failed poll in between. -/
def coalescing : ℕ → Poll
  | 0 => counting 0 true
  | 1 => counting 1 true
  | 2 => { snapshot := none, fires := true }
  | _ => counting 4 true

theorem delivered_gap_iff_coalescing :
    deliveredAt coalescing 1 = some { safetySequence := 1 } ∧
      deliveredAt coalescing 3 = some { safetySequence := 4, missedTransitions := 2 } ∧
      (4 : UInt64) - 1 = 1 + 2 := by
  have hearlier : deliveredAt coalescing 1 = some { safetySequence := 1 } := by decide
  have hlater :
      deliveredAt coalescing 3 = some { safetySequence := 4, missedTransitions := 2 } := by
    decide
  exact ⟨hearlier, hlater,
    (delivered_gap_iff coalescing 1 3 (by decide) _ _ hearlier hlater).mpr
      ⟨1, le_rfl, by decide, by decide, fun l hl hl3 => by
        obtain rfl : l = 2 := by omega
        rfl⟩⟩

/-- Firing the event of the second transition fails. -/
def losing : ℕ → Poll
  | 0 => counting 0 true
  | 1 => counting 1 true
  | 2 => counting 2 false
  | _ => counting 3 true

theorem lost_event_unaccounted :
    deliveredAt losing 1 = some { safetySequence := 1 } ∧ deliveredAt losing 2 = none ∧
      deliveredAt losing 3 = some { safetySequence := 3, missedTransitions := 0 } ∧
      (3 : UInt64) - 1 ≠ 1 + 0 := by
  decide

end SafeEdge.Opcua
