import SafeEdge.Edge.RuntimeSnapshot
import SafeEdge.Rt.CyclicExecutor
import SafeEdge.Safety.BlackChannel
import SafeEdge.Safety.DualChannel

/-! The daemon: its configuration, the callback of one control cycle, and the control thread
that runs it under the executor. -/
namespace SafeEdge
open Library Safety Rt Edge

/-- The enumerator values. -/
def Safety.FaultReason.value : FaultReason → ℕ
  | .none => 0
  | .selfTestFailed => 1
  | .emergencyStop => 2
  | .speedLimitExceeded => 3
  | .positionLimitExceeded => 4
  | .standstillDeviation => 5
  | .stopTimeExceeded => 6
  | .communicationFault => 7
  | .watchdogTimeout => 8
  | .channelDiscrepancy => 9
  | .invalidRequest => 10

namespace Apps

/-- A frequency in Hz that the daemon's range check lets through. -/
structure Frequency where
  hz : ℤ
  positive : 0 < hz
  atMost : hz ≤ 100000

def executorConfig (frequency : Frequency) : ExecutorConfig where
  periodNs := 1000000000 / frequency.hz

def supervisorConfig : Config where
  limits :=
    { limitedSpeed := .ofInt 10
      standstillSpeed := (Binary64.ofInt 1).divNat 10
      standstillWindow := (Binary64.ofInt 1).divNat 2
      stopTimeLimitNs := 500000000 }
  discrepancyToleranceNs := 5000000

def address : SafetyAddress where
  source := 0x0011
  destination := 0x2200
  parameterSignature := 0xDEADBEEF

def watchdogNs : ℤ := 50000000

def payloadIn : List UInt8 := [1, 2, 3, 4, 5, 6, 7, 8]

/-- What the callback reads from outside in one cycle, in the order in which it reads it. The
emergency stop flag is read a second time for the snapshot. -/
structure CallbackReadings where
  estopAsserted : Bool
  acknowledged : Bool
  transitionNs : UInt64 := 0
  snapshotNs : UInt64 := 0
  estopPublished : Bool
  uptimeNs : Int64 := 0
  shutdownRequested : Bool := false

theorem length_zeroBytes :
    (List.replicate kMaxTelegramBytes (0 : UInt8)).length = kMaxTelegramBytes :=
  List.length_replicate

/-- What the callback captures from the control thread, and the snapshot it stored last. -/
structure ControlThread where
  supervisor : DualChannelSupervisor := .construct supervisorConfig
  sender : SafetySender := { address := address }
  receiver : SafetyReceiver := { address := address, watchdogNs := watchdogNs }
  telegram : Telegram := { bytes_length := length_zeroBytes }
  payloadOut : List UInt8 := List.replicate kMaxPayloadBytes 0
  accepted : UInt64 := 0
  rejected : UInt64 := 0
  lastSafetyState : SafetyState := .safeTorqueOff
  lastTorquePermitted : Bool := false
  lastTransitionNs : UInt64
  safetySequence : UInt64 := 0
  schedulingApplied : Bool
  published : RuntimeSnapshot := {}

/-- The time the callback works with. -/
def nowNs (context : CycleContext) : ℤ := context.periodNs * context.index.toInt64.toInt

namespace ControlThread
variable (thread : ControlThread)

def encoded : SafetySender × Bool × Telegram := thread.sender.encode payloadIn 0 thread.telegram

def received (nowNs : ℤ) : SafetyReceiver × Reception :=
  thread.receiver.receive thread.encoded.2.2.view nowNs thread.payloadOut

/-- The telegram round trip. -/
def exchange (nowNs : ℤ) : ControlThread :=
  let sent := { thread with sender := thread.encoded.1, telegram := thread.encoded.2.2 }
  if thread.encoded.2.1 then
    let arrived := { sent with
      receiver := (thread.received nowNs).1
      payloadOut := (thread.received nowNs).2.payloadOut }
    if (thread.received nowNs).2.status = .valid then
      { arrived with accepted := arrived.accepted + 1 }
    else { arrived with rejected := arrived.rejected + 1 }
  else sent

def safetyInputs (readings : CallbackReadings) (nowNs : ℤ) : SafetyInputs where
  emergencyStopAsserted := readings.estopAsserted
  acknowledge := readings.acknowledged
  communicationOk := !thread.receiver.safeState
  heartbeatOk := true
  selfTestPassed := true
  request := .safelyLimitedSpeed
  speedMagnitude := .ofInt 5
  timestampNs := nowNs

/-- The same inputs go to both channels of the supervisor. -/
def supervise (readings : CallbackReadings) (nowNs : ℤ) : ControlThread × SafetyOutputs :=
  let inputs := thread.safetyInputs readings nowNs
  let result := thread.supervisor.evaluate
    { channelAInputs := inputs, channelBInputs := inputs, nowNs }
  ({ thread with supervisor := result.1 }, result.2)

/-- A change of state or torque is stamped and numbered. -/
def noteTransition (readings : CallbackReadings) (outputs : SafetyOutputs) : ControlThread :=
  if outputs.state ≠ thread.lastSafetyState ∨
      outputs.torquePermitted ≠ thread.lastTorquePermitted then
    { thread with
      lastSafetyState := outputs.state
      lastTorquePermitted := outputs.torquePermitted
      lastTransitionNs := readings.transitionNs
      safetySequence := thread.safetySequence + 1 }
  else thread

def snapshot (stats : ExecutorStats) (readings : CallbackReadings) (outputs : SafetyOutputs) :
    RuntimeSnapshot where
  cyclesExecuted := stats.cyclesExecuted
  overruns := stats.overruns
  skippedCycles := stats.skippedCycles
  allocationViolations := stats.allocationViolations
  jitterP50Ns := .ofInt stats.wakeupJitter.p50
  jitterP99Ns := .ofInt stats.wakeupJitter.p99
  jitterP999Ns := .ofInt stats.wakeupJitter.p999
  jitterMaxNs := .ofInt stats.wakeupJitter.max
  executionP50Ns := .ofInt stats.executionTime.p50
  executionP99Ns := .ofInt stats.executionTime.p99
  executionMaxNs := .ofInt stats.executionTime.max
  safetyState := .ofNat outputs.state.value
  faultReason := .ofNat outputs.fault.value
  torquePermitted := if outputs.torquePermitted then 1 else 0
  faultLatched := if outputs.faultLatched then 1 else 0
  safetyTransitionMonotonicNs := thread.lastTransitionNs
  safetySequence := thread.safetySequence
  safetyStateAgeNs := readings.snapshotNs - thread.lastTransitionNs
  estopAsserted := if readings.estopPublished then 1 else 0
  telegramsAccepted := thread.accepted
  telegramsRejected := thread.rejected
  realtimeSchedulingGranted := if thread.schedulingApplied then 1 else 0
  uptimeNs := readings.uptimeNs

/-- The outputs of one cycle. -/
def outputs (readings : CallbackReadings) (nowNs : ℤ) : SafetyOutputs :=
  ((thread.exchange nowNs).supervise readings nowNs).2

/-- Everything the callback does to the thread in one cycle. -/
def cycle (stats : ExecutorStats) (readings : CallbackReadings) (nowNs : ℤ) : ControlThread :=
  let supervised := ((thread.exchange nowNs).supervise readings nowNs).1
  let noted := supervised.noteTransition readings (thread.outputs readings nowNs)
  { noted with published := noted.snapshot stats readings (thread.outputs readings nowNs) }

end ControlThread

/-- The callback the executor is given. It requests a stop once a shutdown signal has come. -/
def cycle : CycleCallback CallbackReadings ControlThread :=
  fun context stats readings thread =>
    (thread.cycle stats readings (nowNs context), readings.shutdownRequested)

/-- What the daemon finds when it starts its control loop. -/
structure Boot where
  frequency : Frequency
  startNs : ℤ := 0
  transitionNs : UInt64 := 0
  schedulingApplied : Bool := false

/-- The control thread as it enters `run`, without a limit on the cycles. -/
def Boot.enter (boot : Boot) : CyclicExecutor ControlThread :=
  .enter (executorConfig boot.frequency) 0 boot.startNs
    { lastTransitionNs := boot.transitionNs, schedulingApplied := boot.schedulingApplied }

/-- The control loop before cycle `n`. -/
def Boot.loopAt (boot : Boot) (readings : ℕ → CycleReadings CallbackReadings) (n : ℕ) :
    CyclicExecutor ControlThread :=
  boot.enter.executorAt cycle readings n

/-- The time the callback of cycle `n` hands to the receiver and to the supervisor. -/
def Boot.nowAt (boot : Boot) (readings : ℕ → CycleReadings CallbackReadings) (n : ℕ) : ℤ :=
  nowNs ((boot.loopAt readings n).context (readings n).wokeNs)

theorem executorConfig_periodNs_pos (frequency : Frequency) :
    0 < (executorConfig frequency).periodNs := by
  have hone : 1 ≤ 1000000000 / frequency.hz := by
    rw [Int.le_ediv_iff_mul_le frequency.positive, one_mul]
    exact frequency.atMost.trans (by decide)
  exact hone

theorem periodNs_mul_lt_of_succ {frequency : Frequency} {n : ℕ} {bound : ℤ}
    (h : (executorConfig frequency).periodNs * (n + 1 : ℕ) < bound) :
    (executorConfig frequency).periodNs * n < bound := by
  have hpos := executorConfig_periodNs_pos frequency
  rw [Nat.cast_succ, mul_add_one] at h
  omega

section Run
variable {boot : Boot} {readings : ℕ → CycleReadings CallbackReadings} {n : ℕ}

theorem Boot.loopAt_config (boot : Boot) (readings : ℕ → CycleReadings CallbackReadings) (n : ℕ) :
    (boot.loopAt readings n).config = executorConfig boot.frequency :=
  CyclicExecutor.executorAt_config n

theorem Boot.loopAt_periodNs_pos (boot : Boot) (readings : ℕ → CycleReadings CallbackReadings)
    (n : ℕ) : 0 < (boot.loopAt readings n).config.periodNs := by
  rw [boot.loopAt_config]
  exact executorConfig_periodNs_pos boot.frequency

/-- The callback's time counts periods, not nanoseconds of the clock. -/
theorem Boot.nowAt_eq (hruns : (boot.loopAt readings n).Continues)
    (hfits : (executorConfig boot.frequency).periodNs * n < 2 ^ 63) :
    boot.nowAt readings n = (executorConfig boot.frequency).periodNs * n := by
  have hindex : (boot.loopAt readings n).index = UInt64.ofNat n :=
    CyclicExecutor.executorAt_index rfl hruns
  have hn : n < 2 ^ 63 := by
    have hpos := executorConfig_periodNs_pos boot.frequency
    have hle : (n : ℤ) ≤ (executorConfig boot.frequency).periodNs * n :=
      le_mul_of_one_le_left (Int.natCast_nonneg n) hpos
    omega
  simp only [nowAt, nowNs, CyclicExecutor.context, hindex, boot.loopAt_config]
  rw [UInt64.toInt64_ofNat', Int64.toInt_ofNat_of_lt hn]

/-- A cycle that is run takes the thread through the callback at its own time. -/
theorem Boot.loopAt_captured (hruns : (boot.loopAt readings n).Continues) :
    ∃ stats, (boot.loopAt readings (n + 1)).captured =
      (boot.loopAt readings n).captured.cycle stats (readings n).callback
        (boot.nowAt readings n) := by
  have hnext : boot.loopAt readings (n + 1) =
      (boot.loopAt readings n).cycle cycle (readings n) := CyclicExecutor.executorAt_succ hruns
  rw [hnext, CyclicExecutor.cycle_eq]
  exact ⟨_, rfl⟩

/-- Without a shutdown signal the loop goes on. -/
theorem Boot.loopAt_continues
    (hquiet : ∀ k, (readings k).callback.shutdownRequested = false) (n : ℕ) :
    (boot.loopAt readings n).Continues := by
  suffices hopen : (boot.loopAt readings n).maxCycles = 0 ∧
      (boot.loopAt readings n).stopRequested = false from
    ⟨boot.loopAt_periodNs_pos readings n, .inl hopen.1, hopen.2⟩
  induction n with
  | zero => exact ⟨rfl, rfl⟩
  | succ n ih =>
    have hnext : boot.loopAt readings (n + 1) =
        (boot.loopAt readings n).cycle cycle (readings n) :=
      CyclicExecutor.executorAt_succ ⟨boot.loopAt_periodNs_pos readings n, .inl ih.1, ih.2⟩
    rw [hnext, CyclicExecutor.cycle_eq]
    refine ⟨ih.1, ?_⟩
    simp [CyclicExecutor.invoke, ih.2, cycle, hquiet n]

end Run

end Apps
end SafeEdge
