import SafeEdge.Apps.Safeedged
import SafeEdge.Library.WrappingCounter
import SafeEdge.Opcua.Publisher

/-! Transitions from the control loop to the events of the publisher: what the loop counts,
whatever its supervisor answers, is what the consumer of the snapshots is told. -/
namespace SafeEdge.Apps
open Library Safety Rt Edge Opcua

/-- What decides one cycle of the control loop when the supervisor may answer anything. -/
structure SupervisedCycle where
  stats : ExecutorStats := {}
  readings : CallbackReadings
  nowNs : ℤ := 0
  supervisor : DualChannelSupervisor := .construct supervisorConfig
  outputs : SafetyOutputs

namespace ControlThread
variable (thread : ControlThread)

/-- The callback of one cycle, the supervisor and its outputs given. -/
def cycleWith (cycle : SupervisedCycle) : ControlThread :=
  let supervised := { thread.exchange cycle.nowNs with supervisor := cycle.supervisor }
  let noted := supervised.noteTransition cycle.readings cycle.outputs
  { noted with published := noted.snapshot cycle.stats cycle.readings cycle.outputs }

theorem cycle_eq_cycleWith (stats : ExecutorStats) (readings : CallbackReadings) (nowNs : ℤ) :
    thread.cycle stats readings nowNs = thread.cycleWith
      { stats, readings, nowNs, outputs := thread.outputs readings nowNs
        supervisor := ((thread.exchange nowNs).supervise readings nowNs).1.supervisor } := rfl

theorem exchange_transition (nowNs : ℤ) :
    (thread.exchange nowNs).lastSafetyState = thread.lastSafetyState ∧
      (thread.exchange nowNs).lastTorquePermitted = thread.lastTorquePermitted ∧
      (thread.exchange nowNs).safetySequence = thread.safetySequence := by
  unfold exchange
  split_ifs <;> exact ⟨rfl, rfl, rfl⟩

/-- The state and the torque permission the thread compares the next outputs with. -/
def lastShown : SafetyState × Bool := (thread.lastSafetyState, thread.lastTorquePermitted)

end ControlThread

/-- What a cycle's outputs show of state and torque. -/
def SupervisedCycle.shown (cycle : SupervisedCycle) : SafetyState × Bool :=
  (cycle.outputs.state, cycle.outputs.torquePermitted)

namespace ControlThread
variable (thread : ControlThread) (cycle : SupervisedCycle)

theorem cycleWith_lastShown : (thread.cycleWith cycle).lastShown = cycle.shown := by
  simp only [cycleWith, noteTransition]
  split_ifs with hmoved
  · rfl
  · obtain ⟨hstate, htorque⟩ := not_or.mp hmoved
    exact Prod.ext (not_not.mp hstate).symm (not_not.mp htorque).symm

theorem cycleWith_safetySequence : (thread.cycleWith cycle).safetySequence =
    if cycle.shown ≠ thread.lastShown then thread.safetySequence + 1
    else thread.safetySequence := by
  obtain ⟨hstate, htorque, hsequence⟩ := thread.exchange_transition cycle.nowNs
  have hmoved : cycle.shown ≠ thread.lastShown ↔
      cycle.outputs.state ≠ thread.lastSafetyState ∨
        cycle.outputs.torquePermitted ≠ thread.lastTorquePermitted := by
    rw [SupervisedCycle.shown, lastShown, ne_eq, Prod.mk.injEq, not_and_or]
  simp only [hmoved, cycleWith, noteTransition, hstate, htorque, hsequence]
  split_ifs <;> rfl

theorem cycleWith_published :
    (thread.cycleWith cycle).published.safetySequence = (thread.cycleWith cycle).safetySequence ∧
      (thread.cycleWith cycle).published.safetyState = .ofNat cycle.shown.1.value ∧
      (thread.cycleWith cycle).published.torquePermitted = if cycle.shown.2 then 1 else 0 :=
  ⟨rfl, rfl, rfl⟩

end ControlThread

section Run
variable (boot : Boot) (cycles : ℕ → SupervisedCycle)

/-- The control thread after `n` cycles. -/
def Boot.threadAt (n : ℕ) : ControlThread :=
  stateAt ControlThread.cycleWith boot.enter.captured cycles n

/-- The snapshot that cycle `n` publishes, counted from one. Number zero is the one stored before
the loop starts. -/
def Boot.publishedAt (n : ℕ) : RuntimeSnapshot := (boot.threadAt cycles n).published

/-- State and torque in cycle `n`, with the snapshot before the loop as a cycle of its own. -/
def shownAt : ℕ → SafetyState × Bool
  | 0 => (.safeTorqueOff, false)
  | n + 1 => (cycles n).shown

/-- The cycles after cycle `m` up to cycle `n` that differ from their predecessor. -/
def transitionsBetween (m n : ℕ) : ℕ :=
  ((Finset.Ioc m n).filter fun i => shownAt cycles i ≠ shownAt cycles (i - 1)).card

/-- The control loop of the daemon is such a run, with the outputs of its own supervisor. -/
theorem Boot.loopAt_eq_threadAt (readings : ℕ → CycleReadings CallbackReadings) :
    ∃ cycles : ℕ → SupervisedCycle, ∀ n, (∀ k < n, (boot.loopAt readings k).Continues) →
      (boot.loopAt readings n).captured = boot.threadAt cycles n := by
  have hcycle (k : ℕ) : ∃ cycle : SupervisedCycle, (boot.loopAt readings k).Continues →
      (boot.loopAt readings (k + 1)).captured =
        (boot.loopAt readings k).captured.cycleWith cycle := by
    by_cases hruns : (boot.loopAt readings k).Continues
    · obtain ⟨stats, hcaptured⟩ := Boot.loopAt_captured hruns
      exact ⟨_, fun _ => hcaptured.trans (ControlThread.cycle_eq_cycleWith _ _ _ _)⟩
    · exact ⟨{ readings := (readings k).callback, outputs := {} }, fun h => absurd h hruns⟩
  choose cycles hcycles using hcycle
  refine ⟨cycles, fun n hruns => ?_⟩
  induction n with
  | zero => rfl
  | succ n ih =>
    rw [hcycles n (hruns n n.lt_succ_self), ih fun k hk => hruns k (Nat.lt_succ_of_lt hk)]
    rfl

theorem Boot.threadAt_lastShown (n : ℕ) :
    (boot.threadAt cycles n).lastShown = shownAt cycles n := by
  cases n with
  | zero => rfl
  | succ n => exact ControlThread.cycleWith_lastShown _ _

theorem Boot.publishedAt_fields (n : ℕ) :
    (boot.publishedAt cycles n).safetySequence = (boot.threadAt cycles n).safetySequence ∧
      (boot.publishedAt cycles n).safetyState = .ofNat (shownAt cycles n).1.value ∧
      (boot.publishedAt cycles n).torquePermitted = if (shownAt cycles n).2 then 1 else 0 := by
  cases n with
  | zero => exact ⟨rfl, rfl, rfl⟩
  | succ n => exact ControlThread.cycleWith_published _ _

theorem transitionsBetween_self (n : ℕ) : transitionsBetween cycles n n = 0 := by
  simp [transitionsBetween]

theorem transitionsBetween_succ {m n : ℕ} (h : m ≤ n) : transitionsBetween cycles m (n + 1) =
    if shownAt cycles (n + 1) ≠ shownAt cycles n then transitionsBetween cycles m n + 1
    else transitionsBetween cycles m n := by
  have hset : Finset.Ioc m (n + 1) = insert (n + 1) (Finset.Ioc m n) := by
    ext i
    simp only [Finset.mem_insert, Finset.mem_Ioc]
    omega
  have hnew : n + 1 ∉
      (Finset.Ioc m n).filter fun i => shownAt cycles i ≠ shownAt cycles (i - 1) := by
    simp
  rw [transitionsBetween, hset, Finset.filter_insert, Nat.add_sub_cancel]
  split_ifs
  · exact Finset.card_insert_of_notMem hnew
  · rfl

theorem transitionsBetween_le (m n : ℕ) : transitionsBetween cycles m n ≤ n - m :=
  (Finset.card_filter_le _ _).trans (Nat.card_Ioc m n).le

theorem transitionsBetween_mono (m : ℕ) {k n : ℕ} (h : k ≤ n) :
    transitionsBetween cycles m k ≤ transitionsBetween cycles m n :=
  Finset.card_le_card (Finset.filter_subset_filter _ (Finset.Ioc_subset_Ioc_right h))

theorem transitionsBetween_add {k m n : ℕ} (hkm : k ≤ m) (hmn : m ≤ n) :
    transitionsBetween cycles k n =
      transitionsBetween cycles k m + transitionsBetween cycles m n := by
  induction n, hmn using Nat.le_induction with
  | base => rw [transitionsBetween_self, Nat.add_zero]
  | succ n hmn ih =>
    rw [transitionsBetween_succ cycles (hkm.trans hmn), transitionsBetween_succ cycles hmn, ih]
    split_ifs
    · rw [Nat.add_assoc]
    · rfl

/-- Without a transition in between two cycles show the same. -/
theorem shownAt_eq_of_no_transition {m n : ℕ} (hmn : m ≤ n)
    (h : transitionsBetween cycles m n = 0) : shownAt cycles m = shownAt cycles n := by
  induction n, hmn using Nat.le_induction with
  | base => rfl
  | succ n hmn ih =>
    rw [transitionsBetween_succ cycles hmn] at h
    split_ifs at h with hmoved
    exact (ih h).trans (not_not.mp hmoved).symm

/-- The thread's counter goes up by the transitions. -/
theorem Boot.threadAt_safetySequence {m n : ℕ} (h : m ≤ n) :
    (boot.threadAt cycles n).safetySequence =
      counterAt (boot.threadAt cycles m).safetySequence (transitionsBetween cycles m n) := by
  induction n, h using Nat.le_induction with
  | base => rw [transitionsBetween_self, counterAt_zero]
  | succ n hmn ih =>
    have hnext : boot.threadAt cycles (n + 1) = (boot.threadAt cycles n).cycleWith (cycles n) := rfl
    rw [hnext, ControlThread.cycleWith_safetySequence, boot.threadAt_lastShown,
      transitionsBetween_succ cycles hmn]
    change (if shownAt cycles (n + 1) ≠ shownAt cycles n then _ else _) = _
    split_ifs
    · rw [ih, counterAt_add_one]
    · exact ih

theorem Boot.publishedAt_safetySequence {m n : ℕ} (h : m ≤ n) :
    (boot.publishedAt cycles n).safetySequence =
      counterAt (boot.publishedAt cycles m).safetySequence (transitionsBetween cycles m n) := by
  rw [(boot.publishedAt_fields cycles n).1, (boot.publishedAt_fields cycles m).1]
  exact boot.threadAt_safetySequence cycles h

/-- As long as the counter cannot have wrapped, it differs between two snapshots exactly if there
was a transition in between. -/
theorem Boot.safetySequence_eq_iff {m n : ℕ} (hmn : m ≤ n) (hn : n < 2 ^ 64) :
    (boot.publishedAt cycles n).safetySequence = (boot.publishedAt cycles m).safetySequence ↔
      transitionsBetween cycles m n = 0 := by
  have hle := transitionsBetween_le cycles m n
  rw [boot.publishedAt_safetySequence cycles hmn]
  generalize (boot.publishedAt cycles m).safetySequence = start
  constructor
  · intro hsame
    exact counterAt_inj_of_close start (Nat.zero_le _) (by omega)
      (hsame.trans (counterAt_zero start).symm)
  · intro hnone
    rw [hnone, counterAt_zero]

end Run

/-- Each poll fails or returns a published snapshot, and no snapshot is returned after a later
one. -/
structure PollsInOrder (polls : ℕ → Poll) (published : ℕ → RuntimeSnapshot)
    (source : ℕ → Option ℕ) : Prop where
  returns : ∀ k, (polls k).snapshot = (source k).map published
  inOrder : ∀ {j k m n}, j ≤ k → source j = some m → source k = some n → m ≤ n

section Polls
variable {polls : ℕ → Poll} {published : ℕ → RuntimeSnapshot} {source : ℕ → Option ℕ}

/-- Of two consecutive successful polls the later compares with the earlier. -/
theorem PollsInOrder.lastPolled (h : PollsInOrder polls published source) {i j m : ℕ}
    (hij : i < j) (hi : source i = some m) (hfailed : ∀ l, i < l → l < j → source l = none) :
    lastPolled polls j = some (published m).safetySequence := by
  apply lastPolled_of_lastFound polls (i := i)
  refine ⟨i, le_rfl, hij, ?_, fun l hl hlj => ?_⟩
  · simp [h.returns, hi]
  · simp [h.returns, hfailed l hl hlj]

end Polls

theorem missedTransitions_toNat (snapshot : RuntimeSnapshot) (sequence : UInt64) :
    (describeTransition snapshot sequence).missedTransitions.toNat =
      (snapshot.safetySequence - sequence).toNat - 1 := by
  simp only [describeTransition]
  generalize snapshot.safetySequence - sequence = advanced
  have hlt := advanced.toNat_lt
  split_ifs with hmore
  · rw [gt_iff_lt, UInt64.lt_iff_toNat_lt, UInt64.toNat_one] at hmore
    rw [UInt64.toNat_sub, UInt64.toNat_one]
    omega
  · rw [gt_iff_lt, UInt64.lt_iff_toNat_lt, UInt64.toNat_one] at hmore
    rw [UInt64.toNat_zero]
    omega

/-- What the event of two consecutive successful polls says. -/
theorem builtAt_of_polls {boot : Boot} {cycles : ℕ → SupervisedCycle} {polls : ℕ → Poll}
    {source : ℕ → Option ℕ} (hpolls : PollsInOrder polls (boot.publishedAt cycles) source)
    {i j m n : ℕ} (hij : i < j) (hi : source i = some m) (hj : source j = some n)
    (hfailed : ∀ l, i < l → l < j → source l = none) (hn : n < 2 ^ 64)
    {event : SafetyTransitionEvent} : builtAt polls j = some event ↔
      0 < transitionsBetween cycles m n ∧
        describeTransition (boot.publishedAt cycles n) (boot.publishedAt cycles m).safetySequence =
          event := by
  have hmn := hpolls.inOrder hij.le hi hj
  have hpoll : (polls j).snapshot = some (boot.publishedAt cycles n) := by
    rw [hpolls.returns, hj]
    rfl
  rw [builtAt_eq_some_iff, hpoll, hpolls.lastPolled hij hi hfailed, Nat.pos_iff_ne_zero, ne_eq,
    ← boot.safetySequence_eq_iff cycles hmn hn]
  simp

/-- An event counts the transitions it stands for besides its own. -/
theorem missedTransitions_describe (boot : Boot) (cycles : ℕ → SupervisedCycle) {m n : ℕ}
    (hmn : m ≤ n) (hn : n < 2 ^ 64) :
    (describeTransition (boot.publishedAt cycles n)
      (boot.publishedAt cycles m).safetySequence).missedTransitions.toNat =
        transitionsBetween cycles m n - 1 := by
  have hle := transitionsBetween_le cycles m n
  rw [missedTransitions_toNat, boot.publishedAt_safetySequence cycles hmn]
  congr 1
  have hgap := counterAt_sub_toNat (boot.publishedAt cycles m).safetySequence
    (Nat.zero_le (transitionsBetween cycles m n)) (by omega)
  rwa [counterAt_zero] at hgap

/-- Of two consecutive successful polls, the later builds an event exactly if the state or the
torque permission changed in a cycle between the snapshots they returned, reverted or not. The
event tells how many such changes it stands for and what the later snapshot shows. -/
theorem transitions_counted (boot : Boot) (cycles : ℕ → SupervisedCycle) (polls : ℕ → Poll)
    (source : ℕ → Option ℕ) (hpolls : PollsInOrder polls (boot.publishedAt cycles) source)
    (i j m n : ℕ) (hij : i < j) (hi : source i = some m) (hj : source j = some n)
    (hfailed : ∀ l, i < l → l < j → source l = none) (hn : n < 2 ^ 64) :
    (builtAt polls j ≠ none ↔ 0 < transitionsBetween cycles m n) ∧
    (∀ event, builtAt polls j = some event →
      event.missedTransitions.toNat = transitionsBetween cycles m n - 1 ∧
      event.safetyState = .ofNat (shownAt cycles n).1.value ∧
      event.torquePermitted = (shownAt cycles n).2) ∧
    (∀ k, m < k → k ≤ n → shownAt cycles k ≠ shownAt cycles m → builtAt polls j ≠ none) ∧
    ∀ a b, a < 2 ^ 64 → b < 2 ^ 64 →
      (boot.publishedAt cycles a).safetySequence = (boot.publishedAt cycles b).safetySequence →
      (boot.publishedAt cycles a).safetyState = (boot.publishedAt cycles b).safetyState ∧
      (boot.publishedAt cycles a).torquePermitted =
        (boot.publishedAt cycles b).torquePermitted := by
  have hmn := hpolls.inOrder hij.le hi hj
  have hbuilt {event : SafetyTransitionEvent} :=
    @builtAt_of_polls boot cycles polls source hpolls i j m n hij hi hj hfailed hn event
  have hannounced : builtAt polls j ≠ none ↔ 0 < transitionsBetween cycles m n := by
    rw [Option.ne_none_iff_exists']
    exact ⟨fun ⟨_, h⟩ => (hbuilt.mp h).1, fun h => ⟨_, hbuilt.mpr ⟨h, rfl⟩⟩⟩
  refine ⟨hannounced, fun event hevent => ?_, fun k hmk hkn hshown => ?_, fun a b ha hb hsame => ?_⟩
  · obtain ⟨_, rfl⟩ := hbuilt.mp hevent
    obtain ⟨_, hstate, htorque⟩ := boot.publishedAt_fields cycles n
    refine ⟨missedTransitions_describe boot cycles hmn hn, hstate, ?_⟩
    change ((boot.publishedAt cycles n).torquePermitted != 0) = _
    rw [htorque]
    cases (shownAt cycles n).2 <;> rfl
  · rw [hannounced, Nat.pos_iff_ne_zero]
    intro hnone
    have hbefore : transitionsBetween cycles m k = 0 :=
      Nat.le_zero.mp (hnone ▸ transitionsBetween_mono cycles m hkn)
    exact hshown (shownAt_eq_of_no_transition cycles hmk.le hbefore).symm
  · obtain ⟨_, hstate, htorque⟩ := boot.publishedAt_fields cycles a
    obtain ⟨_, hstate', htorque'⟩ := boot.publishedAt_fields cycles b
    have hshown : shownAt cycles a = shownAt cycles b := by
      rcases le_total a b with hab | hba
      · exact shownAt_eq_of_no_transition cycles hab
          ((boot.safetySequence_eq_iff cycles hab hb).mp hsame.symm)
      · exact (shownAt_eq_of_no_transition cycles hba
          ((boot.safetySequence_eq_iff cycles hba ha).mp hsame)).symm
    rw [hstate, hstate', htorque, htorque', hshown]
    exact ⟨rfl, rfl⟩

/-- Torque is granted in the second cycle and taken away in the third. -/
def blinking (k : ℕ) : SupervisedCycle where
  readings := { estopAsserted := false, acknowledged := false, estopPublished := false }
  outputs := { state := if k = 1 then .operational else .safeTorqueOff, torquePermitted := k = 1 }

def oneHertz : Frequency := { hz := 1, positive := by decide, atMost := by decide }

def firstAndThird : ℕ → Option ℕ
  | 0 => some 1
  | 2 => some 3
  | _ => none

theorem between_failed (l : ℕ) (hl : 0 < l) (hl2 : l < 2) : firstAndThird l = none := by
  obtain rfl : l = 1 := by omega
  rfl

/-- Two polls that both find no torque, with a failed one in between. -/
def unluckyPolls (boot : Boot) (k : ℕ) : Poll where
  snapshot := (firstAndThird k).map (boot.publishedAt blinking)
  fires := true

theorem unluckyPolls_inOrder (boot : Boot) :
    PollsInOrder (unluckyPolls boot) (boot.publishedAt blinking) firstAndThird where
  returns _ := rfl
  inOrder {j k m n} hjk hj hk := by
    unfold firstAndThird at hj hk
    split at hj <;> split at hk <;> simp_all
    omega

theorem transitions_counted_blinking :
    ∃ event, builtAt (unluckyPolls { frequency := oneHertz }) 2 = some event ∧
      event.missedTransitions.toNat = 1 ∧ event.torquePermitted = false := by
  obtain ⟨hannounced, hevent, _, _⟩ := transitions_counted { frequency := oneHertz } blinking
    (unluckyPolls { frequency := oneHertz }) firstAndThird (unluckyPolls_inOrder _) 0 2 1 3
    (by decide) rfl rfl between_failed (by decide)
  obtain ⟨event, hbuilt⟩ := Option.ne_none_iff_exists'.mp (hannounced.mpr (by decide))
  obtain ⟨hmissed, _, htorque⟩ := hevent event hbuilt
  exact ⟨event, hbuilt, hmissed.trans (by decide), htorque⟩

end SafeEdge.Apps
