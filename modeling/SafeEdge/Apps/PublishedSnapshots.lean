import SafeEdge.Apps.FileFlagWatcher
import SafeEdge.Apps.SupervisionTime
import SafeEdge.Safety.SupervisorRun

/-! What one published snapshot says about torque, faults and the emergency stop, when the
watcher of the emergency stop takes its turns between any two steps of the callback. -/
namespace SafeEdge.Apps
open Library Safety Rt

/-- The turns of the emergency stop's watcher and of whoever handles its file, and the place
among them of the two reads of the flag in each cycle: for the inputs and for the snapshot. -/
structure EstopReads where
  present : Bool
  schedule : ℕ → WatcherTurn
  inputsAt : ℕ → ℕ
  snapshotAt : ℕ → ℕ
  inOrder : ∀ n, inputsAt n ≤ snapshotAt n
  cyclesInOrder : ∀ n, snapshotAt n ≤ inputsAt (n + 1)

namespace EstopReads
variable (reads : EstopReads)

/-- The flag before a turn. -/
def flag (turn : ℕ) : Bool :=
  ((FileFlagWatcher.start .level reads.present).watcherAt reads.schedule turn).asserted

/-- The callback reads the flag at these places. -/
def Explains (readings : ℕ → CycleReadings CallbackReadings) : Prop :=
  ∀ n, (readings n).callback.estopAsserted = reads.flag (reads.inputsAt n) ∧
    (readings n).callback.estopPublished = reads.flag (reads.snapshotAt n)

/-- The watcher raises the flag after the inputs of cycle `n` have been read and before its
snapshot is filled. -/
def RaisedBetween (n : ℕ) : Prop :=
  ∃ turn, reads.inputsAt n ≤ turn ∧ turn < reads.snapshotAt n ∧
    reads.flag turn = false ∧ reads.flag (turn + 1) = true

theorem raisedBetween {n : ℕ} (hinputs : reads.flag (reads.inputsAt n) = false)
    (hsnapshot : reads.flag (reads.snapshotAt n) = true) : reads.RaisedBetween n := by
  obtain ⟨turn, hfrom, hto, hbefore, hafter⟩ :=
    @exists_rise (fun turn => reads.flag turn = true) _ _ (reads.inOrder n) (by simp [hinputs])
      hsnapshot
  exact ⟨turn, hfrom, hto, by simpa using hbefore, hafter⟩

end EstopReads

namespace ControlThread
variable {thread : ControlThread} {readings : CallbackReadings} {nowNs : ℤ}

/-- A cycle that permits torque has read the emergency stop as clear, reports no fault and
reports a state with torque. -/
theorem outputs_of_torque (h : (thread.outputs readings nowNs).torquePermitted = true) :
    readings.estopAsserted = false ∧ (thread.outputs readings nowNs).faultLatched = false ∧
      (thread.outputs readings nowNs).state.Energised := by
  obtain ⟨_, hstate, hchannel⟩ := DualChannelSupervisor.evaluate_torque h
  refine ⟨?_, ?_, ?_⟩
  · have hdemand := (hchannel .a).2.1
    simp only [unconditionalDemandActive, Bool.or_eq_false_iff] at hdemand
    exact hdemand.1.1
  · by_contra hlatched
    have hcoherent := (DualChannelSupervisor.evaluate_coherent _ _).fault
      (Bool.not_eq_false _ ▸ hlatched)
    exact absurd h (by simp [outputs, supervise, hcoherent.1])
  · exact hstate ▸ SafetyState.min_energised (hchannel .a).2.2.2 (hchannel .b).2.2.2

theorem cycle_published (stats : ExecutorStats) :
    (thread.cycle stats readings nowNs).published.torquePermitted =
        (if (thread.outputs readings nowNs).torquePermitted then 1 else 0) ∧
      (thread.cycle stats readings nowNs).published.faultLatched =
        (if (thread.outputs readings nowNs).faultLatched then 1 else 0) ∧
      (thread.cycle stats readings nowNs).published.safetyState =
        .ofNat (thread.outputs readings nowNs).state.value ∧
      (thread.cycle stats readings nowNs).published.estopAsserted =
        (if readings.estopPublished then 1 else 0) :=
  ⟨rfl, rfl, rfl, rfl⟩

end ControlThread

theorem published_torque_of_outputs {boot : Boot}
    {readings : ℕ → CycleReadings CallbackReadings} {n : ℕ}
    (hruns : (boot.loopAt readings n).Continues)
    (htorque : ((boot.loopAt readings n).captured.outputs (readings n).callback
      (boot.nowAt readings n)).torquePermitted = true) :
    (boot.loopAt readings (n + 1)).captured.published.torquePermitted = 1 := by
  obtain ⟨stats, hcaptured⟩ := Boot.loopAt_captured hruns
  rw [hcaptured, (ControlThread.cycle_published stats).1, htorque]
  rfl

/-- Every snapshot that permits torque reports no fault and a state with torque, and was decided
on a clear emergency stop. It also reports the emergency stop as clear, unless the flag was
raised between the two reads of that cycle. -/
theorem published_consistent (boot : Boot) (readings : ℕ → CycleReadings CallbackReadings)
    (reads : EstopReads) (hreads : reads.Explains readings) (n : ℕ)
    (hruns : (boot.loopAt readings n).Continues)
    (htorque : (boot.loopAt readings (n + 1)).captured.published.torquePermitted = 1) :
    (boot.loopAt readings (n + 1)).captured.published.faultLatched = 0 ∧
    (∃ state : SafetyState, state.Energised ∧
      (boot.loopAt readings (n + 1)).captured.published.safetyState = .ofNat state.value) ∧
    reads.flag (reads.inputsAt n) = false ∧
    ((boot.loopAt readings (n + 1)).captured.published.estopAsserted = 0 ∨
      reads.RaisedBetween n) := by
  obtain ⟨stats, hcaptured⟩ := Boot.loopAt_captured hruns
  obtain ⟨hpermitted, hfault, hstate, hpublished⟩ :=
    @ControlThread.cycle_published (boot.loopAt readings n).captured (readings n).callback
      (boot.nowAt readings n) stats
  rw [hcaptured] at htorque ⊢
  rw [hpermitted] at htorque
  obtain ⟨hestop, hlatched, henergised⟩ := ControlThread.outputs_of_torque (by simpa using htorque)
  obtain ⟨hinputs, hsnapshot⟩ := hreads n
  rw [hinputs] at hestop
  refine ⟨?_, ⟨_, henergised, hstate⟩, hestop, ?_⟩
  · simp [hfault, hlatched]
  · cases hflag : reads.flag (reads.snapshotAt n) with
    | false => exact Or.inl (by simp [hpublished, hsnapshot, hflag])
    | true => exact Or.inr (reads.raisedBetween hestop hflag)

theorem pressedReads_inOrder (n : ℕ) : (if n ≤ 1 then 0 else 4) ≤ if n = 0 then 0 else 4 := by
  split_ifs <;> omega

theorem pressedReads_cyclesInOrder (n : ℕ) :
    (if n = 0 then 0 else 4) ≤ if n + 1 ≤ 1 then 0 else 4 := by
  split_ifs <;> omega

/-- The file of the emergency stop appears, and the watcher sees it and raises the flag in three
turns, all of them between the two reads of the second cycle. -/
def pressedReads : EstopReads where
  present := false
  schedule
    | 0 => .create
    | _ => .watcher true
  inputsAt n := if n ≤ 1 then 0 else 4
  snapshotAt n := if n = 0 then 0 else 4
  inOrder := pressedReads_inOrder
  cyclesInOrder := pressedReads_cyclesInOrder

def pressedReadings (k : ℕ) : CycleReadings CallbackReadings where
  wokeNs := 1000000 * (k + 1)
  callback :=
    { estopAsserted := decide (2 ≤ k), acknowledged := false, estopPublished := decide (1 ≤ k) }
  finishedNs := 1000000 * (k + 1)

theorem pressedReads_explains : pressedReads.Explains pressedReadings := by
  have hraised : pressedReads.flag 4 = true := by decide
  intro n
  match n with
  | 0 => decide
  | 1 => decide
  | n + 2 =>
    have hinputs : pressedReads.inputsAt (n + 2) = 4 := by simp [pressedReads]
    have hsnapshot : pressedReads.snapshotAt (n + 2) = 4 := by simp [pressedReads]
    rw [hinputs, hsnapshot, hraised]
    simp [pressedReadings]

theorem pressed_runs (n : ℕ) : (oneKilohertz.loopAt pressedReadings n).Continues :=
  Boot.loopAt_continues (fun _ => rfl) n

theorem pressed_torque :
    (oneKilohertz.loopAt pressedReadings 2).captured.published.torquePermitted = 1 := by
  apply published_torque_of_outputs (pressed_runs 1)
  refine (healthyCycle_of_withinWatchdog ?_ (pressed_runs 1) (by decide) (by decide)).torque le_rfl
  intro k hk
  interval_cases k <;> rfl

theorem published_consistent_pressed :
    (oneKilohertz.loopAt pressedReadings 2).captured.published.faultLatched = 0 ∧
      pressedReads.flag (pressedReads.inputsAt 1) = false := by
  obtain ⟨hlatched, _, hflag, _⟩ := published_consistent oneKilohertz pressedReadings pressedReads
    pressedReads_explains 1 (pressed_runs 1) pressed_torque
  exact ⟨hlatched, hflag⟩

/-- The snapshot of that cycle permits torque and reports the emergency stop as asserted. -/
theorem pressed_between_reads :
    pressedReads.Explains pressedReadings ∧
      (oneKilohertz.loopAt pressedReadings 1).Continues ∧
      (oneKilohertz.loopAt pressedReadings 2).captured.published.torquePermitted = 1 ∧
      (oneKilohertz.loopAt pressedReadings 2).captured.published.estopAsserted = 1 :=
  ⟨pressedReads_explains, pressed_runs 1, pressed_torque, by decide +kernel⟩

end SafeEdge.Apps
