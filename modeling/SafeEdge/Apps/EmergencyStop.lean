import SafeEdge.Apps.DaemonLink
import SafeEdge.Library.Latch

/-! The emergency stop from the file to the snapshot: the control loop is a latch that the stop
trips and an acknowledgement releases, and torque comes back no more often than somebody has
created the acknowledge file. -/
namespace SafeEdge.Apps
open Library Safety Rt

namespace DaemonChannel
variable {m : SafetyStateMachine} {inputs : SafetyInputs}

/-- A channel of the daemon is left with a fault by a demand, or by a fault that nobody
acknowledged. -/
theorem advance_fault_iff (h : DaemonChannel m) (hinputs : DaemonInputs inputs) :
    (m.advance inputs).fault ≠ .none ↔ unconditionalDemandActive inputs = true ∨
      m.fault ≠ .none ∧ inputs.acknowledge = false := by
  cases hd : unconditionalDemandActive inputs with
  | true =>
    have hreason := unconditionalDemandReason_ne_none hd
    by_cases hfault : m.fault = .none <;>
      simp [SafetyStateMachine.advance, SafetyStateMachine.enterSafeTorqueOff, hd, hfault, hreason]
  | false =>
    by_cases hfault : m.fault = .none
    · rcases h.state with hs | hs
      · have hadvance : m.advance inputs = { m with state := .safeTorqueOff } := by
          simp [SafetyStateMachine.advance, SafetyStateMachine.stateMonitor, hd, hfault, hs,
            hinputs.selfTest]
        simp [hadvance, hfault]
      · have htested : m.state ≠ .selfTest := by rcases hs with hs | hs <;> simp [hs]
        have henergised := (h.energised_iff hinputs).mpr ⟨htested, hd, hfault⟩
        simp [(SafetyStateMachine.advance_energised henergised).2.2.2, hfault]
    · simp [SafetyStateMachine.advance, hd, hfault]

end DaemonChannel

section Run
variable (boot : Boot) (readings : ℕ → CycleReadings CallbackReadings)

/-- Cycle `n` sees a demand: the emergency stop, or the safe state of its receiver. -/
def demandAt (n : ℕ) : Bool :=
  (readings n).callback.estopAsserted ||
    ((boot.loopAt readings n).captured.exchange (boot.nowAt readings n)).receiver.safeState

def acknowledgedAt (n : ℕ) : Bool := (readings n).callback.acknowledged

/-- The snapshot of cycle `n` permits torque. -/
def torqueAt (n : ℕ) : Bool :=
  (boot.loopAt readings (n + 1)).captured.published.torquePermitted == 1

variable {boot readings} {n : ℕ}

/-- The fault in the channels is the latch of the demands and the acknowledgements. -/
theorem fault_iff_latchAt (hruns : (boot.loopAt readings n).Continues) :
    (boot.loopAt readings n).captured.supervisor.channelA.fault ≠ .none ↔
      latchAt (demandAt boot readings) (acknowledgedAt readings) n = true := by
  induction n with
  | zero => simp [latchAt, Boot.loopAt, Boot.enter, CyclicExecutor.executorAt, stateAt,
      CyclicExecutor.enter, CyclicExecutor.beginRun, DualChannelSupervisor.construct]
  | succ n ih =>
    have hbefore : (boot.loopAt readings n).Continues := CyclicExecutor.continues_of_succ hruns
    obtain ⟨stats, hcaptured⟩ := Boot.loopAt_captured hbefore
    have hsupervisor := (loopAt_daemonSupervisor hbefore).1
    rw [← ControlThread.exchange_supervisor _ (boot.nowAt readings n)] at hsupervisor
    have hinputs := ((boot.loopAt readings n).captured.exchange
      (boot.nowAt readings n)).safetyInputs_daemon (readings n).callback (boot.nowAt readings n)
    rw [hcaptured, (ControlThread.cycle_frame _ stats _ _).1, ControlThread.supervise,
      hsupervisor.channelA_evaluate, hsupervisor.channel.advance_fault_iff hinputs,
      ControlThread.safetyInputs_demand, ControlThread.exchange_supervisor, ih hbefore]
    simp [latchAt, demandAt, acknowledgedAt, ControlThread.safetyInputs]

/-- The control loop refines the latch: apart from its first cycle, a cycle permits torque exactly
if it goes ahead. -/
theorem torqueAt_eq_clearAt (hruns : (boot.loopAt readings n).Continues) :
    torqueAt boot readings n =
      (decide (0 < n) && clearAt (demandAt boot readings) (acknowledgedAt readings) n) := by
  obtain ⟨hsupervisor, htested⟩ := loopAt_daemonSupervisor hruns
  obtain ⟨stats, hcaptured⟩ := Boot.loopAt_captured hruns
  have htorque := ControlThread.outputs_torque_iff (readings n).callback (boot.nowAt readings n)
    hsupervisor
  have hlatch := fault_iff_latchAt hruns
  rw [Bool.eq_iff_iff]
  have hpublished : torqueAt boot readings n = true ↔
      ((boot.loopAt readings n).captured.outputs (readings n).callback
        (boot.nowAt readings n)).torquePermitted = true := by
    rw [torqueAt, hcaptured, (ControlThread.cycle_published stats).1]
    cases ((boot.loopAt readings n).captured.outputs (readings n).callback
      (boot.nowAt readings n)).torquePermitted <;> decide
  rw [hpublished, htorque, ne_eq, htested]
  simp only [Bool.and_eq_true, decide_eq_true_eq, clearAt, demandAt, Bool.not_eq_true',
    Bool.or_eq_false_iff, Nat.pos_iff_ne_zero]
  rw [← Bool.not_eq_true (latchAt _ _ _), ← hlatch, not_not]
  tauto

/-- With a period inside the watchdog's window the emergency stop is the only demand. -/
theorem demandAt_of_withinWatchdog (hruns : (boot.loopAt readings n).Continues)
    (hfits : (executorConfig boot.frequency).periodNs * n < 2 ^ 63)
    (hwindow : (executorConfig boot.frequency).periodNs ≤ watchdogNs) :
    demandAt boot readings n = (readings n).callback.estopAsserted := by
  rw [demandAt, exchange_clear_of_withinWatchdog hruns hfits (.inr hwindow), Bool.or_false]

/-- The demands and acknowledgements that count, told from what the cycles read. -/
theorem torqueAt_iff (hruns : (boot.loopAt readings n).Continues)
    (hfits : (executorConfig boot.frequency).periodNs * n < 2 ^ 63) :
    torqueAt boot readings n = true ↔
      (executorConfig boot.frequency).periodNs ≤ watchdogNs ∧ 0 < n ∧
        (readings n).callback.estopAsserted = false ∧
        ∀ m < n, (readings m).callback.estopAsserted = true →
          ∃ j, m < j ∧ j < n ∧ (readings j).callback.acknowledged = true ∧
            (readings j).callback.estopAsserted = false := by
  rw [torqueAt_eq_clearAt hruns, Bool.and_eq_true, decide_eq_true_eq, clearAt_iff]
  by_cases hwindow : (executorConfig boot.frequency).periodNs ≤ watchdogNs
  · have hdemand (k : ℕ) (hk : k ≤ n) :
        demandAt boot readings k = (readings k).callback.estopAsserted := by
      have hearlier : (boot.loopAt readings k).Continues := by
        rw [boot.loopAt_continues_iff] at hruns ⊢
        exact fun j hj => hruns j (hj.trans_le hk)
      have hpos := executorConfig_periodNs_pos boot.frequency
      have hmono : (executorConfig boot.frequency).periodNs * k ≤
          (executorConfig boot.frequency).periodNs * n :=
        mul_le_mul_of_nonneg_left (by exact_mod_cast hk) hpos.le
      exact demandAt_of_withinWatchdog hearlier (hmono.trans_lt hfits) hwindow
    simp only [hwindow, true_and, hdemand n le_rfl, acknowledgedAt]
    refine and_congr_right fun _ => and_congr_right fun _ => ?_
    refine forall_congr' fun m => forall_congr' fun hm => ?_
    rw [hdemand m hm.le]
    refine imp_congr_right fun _ => exists_congr fun j => and_congr_right fun _ =>
      and_congr_right fun hj => ?_
    rw [hdemand j hj.le]
  · have hlate : 0 < n → demandAt boot readings n = true := by
      intro hn
      rw [demandAt, exchange_latched_of_beyondWatchdog hruns hfits hn (not_le.mp hwindow),
        Bool.or_true]
    simp only [hwindow, false_and, iff_false]
    rintro ⟨hn, hclear, _⟩
    rw [hlate hn] at hclear
    cases hclear

end Run

/-- When the daemon permits torque, over every run: the period fits into the receiver's watchdog,
it is not the first cycle, the emergency stop is clear, and since each cycle that read the stop as
asserted another one took an acknowledgement with the stop clear. -/
theorem torque_iff_acknowledged (boot : Boot) (readings : ℕ → CycleReadings CallbackReadings)
    (n : ℕ) (hruns : (boot.loopAt readings n).Continues)
    (hfits : (executorConfig boot.frequency).periodNs * n < 2 ^ 63) :
    (boot.loopAt readings (n + 1)).captured.published.torquePermitted = 1 ↔
      (executorConfig boot.frequency).periodNs ≤ watchdogNs ∧ 0 < n ∧
        (readings n).callback.estopAsserted = false ∧
        ∀ m < n, (readings m).callback.estopAsserted = true →
          ∃ j, m < j ∧ j < n ∧ (readings j).callback.acknowledged = true ∧
            (readings j).callback.estopAsserted = false := by
  have hpublished : (boot.loopAt readings (n + 1)).captured.published.torquePermitted = 1 ↔
      torqueAt boot readings n = true := by simp [torqueAt]
  rw [hpublished, torqueAt_iff hruns hfits]

/-- The emergency stop is asserted in the third cycle and acknowledged in the fifth. -/
def pressedThenAcknowledged (k : ℕ) : CycleReadings CallbackReadings where
  wokeNs := 1000000 * (k + 1)
  callback :=
    { estopAsserted := decide (k = 2), acknowledged := decide (k = 4)
      estopPublished := decide (k = 2) }
  finishedNs := 1000000 * (k + 1)

theorem torque_iff_acknowledged_pressed :
    (oneKilohertz.loopAt pressedThenAcknowledged 6).captured.published.torquePermitted = 1 := by
  refine (torque_iff_acknowledged oneKilohertz pressedThenAcknowledged 5
    (Boot.loopAt_continues (fun _ => rfl) 5) (by decide)).mpr
      ⟨by decide, by decide, by decide, fun m hm hpressed => ?_⟩
  have htwo : m = 2 := of_decide_eq_true hpressed
  exact ⟨4, by omega, by decide, by decide, by decide⟩

/-- The turns of the acknowledgement's watcher and of whoever handles its file, and the place
among them of the `takeOnce` of each cycle. -/
structure AcknowledgeReads where
  present : Bool
  schedule : ℕ → WatcherTurn
  takenAt : ℕ → ℕ
  inOrder : StrictMono takenAt
  takes : ∀ n, schedule (takenAt n) = .takeOnce

namespace AcknowledgeReads
variable (acks : AcknowledgeReads)

/-- The watcher, its file and its flag before a turn. -/
def watcherAt (turn : ℕ) : FileFlagWatcher :=
  (FileFlagWatcher.start .latchOnce acks.present).watcherAt acks.schedule turn

/-- The callback takes its acknowledgements at these places. -/
def Explains (readings : ℕ → CycleReadings CallbackReadings) : Prop :=
  ∀ n, (readings n).callback.acknowledged = (acks.watcherAt (acks.takenAt n)).asserted

/-- Every `unlink` of the existing file removes it. -/
def UnlinkWorks : Prop := ∀ turn, (acks.watcherAt turn).UnlinkWorks (acks.schedule turn)

theorem taken_mono : Monotone fun turn => (acks.watcherAt turn).taken := by
  refine monotone_nat_of_le_succ fun turn => ?_
  change (acks.watcherAt turn).taken ≤ ((acks.watcherAt turn).step (acks.schedule turn)).taken
  generalize acks.watcherAt turn = w
  cases acks.schedule turn with
  | create =>
    simp only [FileFlagWatcher.step]
    split_ifs <;> exact le_rfl
  | remove => exact le_rfl
  | watcher unlinks =>
    simp only [FileFlagWatcher.step, FileFlagWatcher.watch]
    split
    · split
      · split_ifs <;> exact le_rfl
      · exact le_rfl
    · exact le_rfl
    · split_ifs <;> exact le_rfl
    · exact le_rfl
  | takeOnce => exact Nat.le_add_right _ _

/-- The acknowledgements of the first `n` cycles were all taken from the flag. -/
theorem card_acknowledged_le {readings : ℕ → CycleReadings CallbackReadings}
    (hacks : acks.Explains readings) (n : ℕ) :
    ((Finset.range n).filter fun k => acknowledgedAt readings k = true).card ≤
      (acks.watcherAt (acks.takenAt n)).taken := by
  induction n with
  | zero => exact Nat.zero_le _
  | succ n ih =>
    have htaken : (acks.watcherAt (acks.takenAt n + 1)).taken =
        (acks.watcherAt (acks.takenAt n)).taken +
          (acks.watcherAt (acks.takenAt n)).asserted.toNat := by
      change ((acks.watcherAt (acks.takenAt n)).step (acks.schedule (acks.takenAt n))).taken = _
      rw [acks.takes]
      rfl
    have hlater := acks.taken_mono (acks.inOrder (Nat.lt_add_one n) : acks.takenAt n + 1 ≤ _)
    rw [Finset.range_add_one, Finset.filter_insert]
    split_ifs with hack
    · rw [Finset.card_insert_of_notMem (by simp)]
      rw [acknowledgedAt, hacks n] at hack
      simp only [htaken, hack, Bool.toNat_true] at hlater
      omega
    · simp only [htaken] at hlater
      omega

end AcknowledgeReads

/-- The cycles among the first `n` after which torque comes, having been denied. -/
def startsBefore (boot : Boot) (readings : ℕ → CycleReadings CallbackReadings) (n : ℕ) : ℕ :=
  ((Finset.range n).filter fun k =>
    torqueAt boot readings k = false ∧ torqueAt boot readings (k + 1) = true).card

/-- Whatever the two watchers, the files and the control loop do to each other, torque comes once
at the start and after that at most once for each time the acknowledge file was created. -/
theorem starts_bounded_by_files (boot : Boot) (readings : ℕ → CycleReadings CallbackReadings)
    (acks : AcknowledgeReads) (hacks : acks.Explains readings) (hunlink : acks.UnlinkWorks) (n : ℕ)
    (hruns : (boot.loopAt readings n).Continues) :
    startsBefore boot readings n ≤ 1 + (acks.watcherAt (acks.takenAt n)).created := by
  have hcontinues (k : ℕ) (hk : k ≤ n) : (boot.loopAt readings k).Continues := by
    rw [boot.loopAt_continues_iff] at hruns ⊢
    exact fun j hj => hruns j (hj.trans_le hk)
  have hsubset : ((Finset.range n).filter fun k =>
      torqueAt boot readings k = false ∧ torqueAt boot readings (k + 1) = true) ⊆
      insert 0 ((Finset.range n).filter fun k => acknowledgedAt readings k = true) := by
    intro k hk
    rw [Finset.mem_filter, Finset.mem_range] at hk
    obtain ⟨hkn, hbefore, hafter⟩ := hk
    rw [torqueAt_eq_clearAt (hcontinues k hkn.le)] at hbefore
    rw [torqueAt_eq_clearAt (hcontinues (k + 1) hkn), Bool.and_eq_true] at hafter
    rw [Finset.mem_insert, Finset.mem_filter, Finset.mem_range]
    rcases Nat.eq_zero_or_pos k with rfl | hpos
    · exact Or.inl rfl
    · rw [decide_eq_true hpos, Bool.true_and] at hbefore
      exact Or.inr ⟨hkn, (release_of_clearAt_succ hbefore hafter.2).1⟩
  calc startsBefore boot readings n
      ≤ _ := Finset.card_le_card hsubset
    _ ≤ ((Finset.range n).filter fun k => acknowledgedAt readings k = true).card + 1 :=
        Finset.card_insert_le _ _
    _ ≤ (acks.watcherAt (acks.takenAt n)).taken + 1 :=
        Nat.add_le_add_right (acks.card_acknowledged_le hacks n) 1
    _ ≤ 1 + (acks.watcherAt (acks.takenAt n)).created := by
        have haccounted : (acks.watcherAt (acks.takenAt n)).Accounted :=
          FileFlagWatcher.watcherAt_accounted hunlink _
        have henough := haccounted.enough
        omega

/-- Every fifth turn is a cycle's, and the acknowledge file is created once, before the fifth cycle
takes its acknowledgement. -/
def oneFile (turn : ℕ) : WatcherTurn :=
  if turn % 5 = 4 then .takeOnce else if turn = 20 then .create else .watcher true

theorem fifthTurn_strictMono : StrictMono fun n : ℕ => 5 * n + 4 := fun _ _ h => by
  simp only
  omega

theorem oneFile_takes (n : ℕ) : oneFile (5 * n + 4) = .takeOnce := if_pos (by omega)

def acknowledgedOnce : AcknowledgeReads where
  present := false
  schedule := oneFile
  takenAt n := 5 * n + 4
  inOrder := fifthTurn_strictMono
  takes := oneFile_takes

/-- After the fifth cycle nothing happens to the file or the flag. -/
theorem acknowledgedOnce_settled (turn : ℕ) : acknowledgedOnce.watcherAt (25 + turn) =
    { mode := .latchOnce, present := false, created := 1, taken := 1 } := by
  induction turn with
  | zero => decide
  | succ turn ih =>
    change (acknowledgedOnce.watcherAt (25 + turn)).step (acknowledgedOnce.schedule (25 + turn)) = _
    rw [ih]
    simp only [acknowledgedOnce, oneFile]
    split_ifs with htake hcreate
    · rfl
    · omega
    · rfl

theorem acknowledgedOnce_explains : acknowledgedOnce.Explains pressedThenAcknowledged := by
  intro n
  rcases Nat.lt_or_ge n 5 with hn | hn
  · interval_cases n <;> decide
  · obtain ⟨k, rfl⟩ := Nat.exists_eq_add_of_le hn
    have hturn : acknowledgedOnce.takenAt (5 + k) = 25 + (5 * k + 4) := by
      simp only [acknowledgedOnce]
      ring
    rw [hturn, acknowledgedOnce_settled]
    exact decide_eq_false (by omega)

theorem starts_bounded_by_files_once :
    startsBefore oneKilohertz pressedThenAcknowledged 5 ≤ 1 + 1 := by
  have hunlink : acknowledgedOnce.UnlinkWorks := by
    intro turn _ _
    simp only [acknowledgedOnce, oneFile]
    split_ifs <;> simp
  exact starts_bounded_by_files oneKilohertz pressedThenAcknowledged acknowledgedOnce
    acknowledgedOnce_explains hunlink 5 (Boot.loopAt_continues (fun _ => rfl) 5)

end SafeEdge.Apps
