import SafeEdge.Apps.Safeedged
import SafeEdge.Safety.Addressing

/-! A daemon whose emergency stop is never asserted, and the frequencies at which it keeps
running whatever the clock reads. -/
namespace SafeEdge.Apps
open Library Safety Rt

/-- The state both channels are in before cycle `n` of a healthy daemon. -/
def stateBefore : ℕ → SafetyState
  | 0 => .selfTest
  | 1 => .safeTorqueOff
  | _ + 2 => .limitedSpeed

/-- What the daemon's supervisor is asked in a cycle without a demand. -/
structure UndemandingInputs (inputs : SafetyInputs) : Prop where
  demand : unconditionalDemandActive inputs = false
  selfTest : inputs.selfTestPassed = true
  request : inputs.request = .safelyLimitedSpeed
  speed : inputs.speedMagnitude = .ofInt 5

/-- One channel of a healthy daemon before cycle `n`. -/
structure HealthyChannel (n : ℕ) (m : SafetyStateMachine) : Prop where
  limits : m.limits = supervisorConfig.limits
  fault : m.fault = .none
  state : m.state = stateBefore n

theorem speed_within_limit {m : SafetyStateMachine} {inputs : SafetyInputs}
    (hlimits : m.limits = supervisorConfig.limits) (hspeed : inputs.speedMagnitude = .ofInt 5) :
    ¬ m.limits.limitedSpeed < inputs.speedMagnitude := by
  rw [hlimits, hspeed]
  decide +kernel

/-- Without a demand and a fault, no monitor of the daemon's configuration stands before the
request. -/
theorem reachesRequest_of_limits {m : SafetyStateMachine} {inputs : SafetyInputs}
    (hlimits : m.limits = supervisorConfig.limits) (hspeed : inputs.speedMagnitude = .ofInt 5)
    (hstate : m.state = .safeTorqueOff ∨ m.state = .limitedSpeed) (hfault : m.fault = .none)
    (hdemand : unconditionalDemandActive inputs = false) : m.ReachesRequest inputs := by
  refine ⟨hdemand, hfault, ?_, ?_, fun _ => speed_within_limit hlimits hspeed, ?_, ?_⟩
  · rcases hstate with hs | hs <;> simp [hs]
  · rcases hstate with hs | hs <;> simp [hs]
  · intro hstop
    rcases hstate with hs | hs <;> simp [hs] at hstop
  · intro henabled
    rw [hlimits] at henabled
    cases henabled

theorem HealthyChannel.reachesRequest {n : ℕ} {m : SafetyStateMachine} {inputs : SafetyInputs}
    (h : HealthyChannel (n + 1) m) (hinputs : UndemandingInputs inputs) :
    m.ReachesRequest inputs := by
  have hstate : m.state = .safeTorqueOff ∨ m.state = .limitedSpeed := by
    rw [h.state]
    cases n with
    | zero => exact .inl rfl
    | succ n => exact .inr rfl
  exact reachesRequest_of_limits h.limits hinputs.speed hstate h.fault hinputs.demand

/-- A channel passes its self test in the first cycle, takes up the request in the second and
stays with it. -/
theorem HealthyChannel.advance {n : ℕ} {m : SafetyStateMachine} {inputs : SafetyInputs}
    (h : HealthyChannel n m) (hinputs : UndemandingInputs inputs) :
    HealthyChannel (n + 1) (m.advance inputs) := by
  match n, h with
  | 0, h =>
    have hadvance : m.advance inputs = { m with state := .safeTorqueOff } := by
      simp [SafetyStateMachine.advance, SafetyStateMachine.stateMonitor, hinputs.demand, h.fault,
        h.state, stateBefore, hinputs.selfTest]
    rw [hadvance]
    exact ⟨h.limits, h.fault, rfl⟩
  | 1, h =>
    have hadvance : m.advance inputs = { m with state := .limitedSpeed } := by
      rw [SafetyStateMachine.advance_of_reachesRequest (h.reachesRequest hinputs)]
      simp only [SafetyStateMachine.requestedTransition, hinputs.request, h.state, stateBefore]
      rw [if_pos (.inl trivial), if_neg (speed_within_limit h.limits hinputs.speed)]
    rw [hadvance]
    exact ⟨h.limits, h.fault, rfl⟩
  | n + 2, h =>
    have hadvance : m.advance inputs = m := by
      rw [SafetyStateMachine.advance_of_reachesRequest (h.reachesRequest hinputs)]
      simp [SafetyStateMachine.requestedTransition, hinputs.request, h.state, stateBefore]
    rw [hadvance]
    exact ⟨h.limits, h.fault, h.state⟩

/-- The supervisor of a healthy daemon before cycle `n`. -/
structure HealthySupervisor (n : ℕ) (s : DualChannelSupervisor) : Prop where
  channel : ∀ ch, HealthyChannel n (s.channel ch)
  unlatched : s.discrepancyLatched = false

section Supervisor
variable {n : ℕ} {s : DualChannelSupervisor} {inputs : SafetyInputs} (nowNs : ℤ)

/-- With the same inputs to both, the channels agree and the supervisor goes on with them. -/
theorem HealthySupervisor.compared (h : HealthySupervisor n s)
    (hinputs : UndemandingInputs inputs) :
    s.compared ⟨inputs, inputs, nowNs⟩ =
      { s with
        channelA := s.channelA.advance inputs
        channelB := s.channelB.advance inputs
        disagreementSinceNs := -1 } := by
  apply DualChannelSupervisor.compared_of_agree
  intro hdisagrees
  have ha := ((h.channel .a).advance hinputs).state
  have hb := ((h.channel .b).advance hinputs).state
  exact hdisagrees (ha.trans hb.symm)

theorem HealthySupervisor.evaluate (h : HealthySupervisor n s)
    (hinputs : UndemandingInputs inputs) :
    HealthySupervisor (n + 1) (s.evaluate ⟨inputs, inputs, nowNs⟩).1 := by
  rw [DualChannelSupervisor.evaluate_fst, h.compared nowNs hinputs]
  refine ⟨fun ch => ?_, ?_⟩
  · cases ch with
    | a => exact (h.channel .a).advance hinputs
    | b => exact (h.channel .b).advance hinputs
  · simp [h.unlatched]

/-- The outputs carry no fault and report the state the channels have reached. -/
theorem HealthySupervisor.outputs (h : HealthySupervisor n s)
    (hinputs : UndemandingInputs inputs) :
    (s.evaluate ⟨inputs, inputs, nowNs⟩).2.faultLatched = false ∧
      (s.evaluate ⟨inputs, inputs, nowNs⟩).2.state = stateBefore (n + 1) ∧
      (s.evaluate ⟨inputs, inputs, nowNs⟩).2.torquePermitted =
        decide (stateBefore (n + 1)).Energised := by
  have ha := (h.channel .a).advance hinputs
  have hb := (h.channel .b).advance hinputs
  simp only [DualChannelSupervisor.channel] at ha hb
  rw [DualChannelSupervisor.evaluate_snd, (h.evaluate nowNs hinputs).unlatched]
  simp [combine, ha.fault, hb.fault, ha.state, hb.state]

end Supervisor

/-- The control thread of a healthy daemon before cycle `n`. -/
structure Underway (periodNs : ℤ) (n : ℕ) (thread : ControlThread) : Prop where
  supervisor : HealthySupervisor n thread.supervisor
  sender : thread.sender.address = address
  receiver : thread.receiver.address = address
  watchdog : thread.receiver.watchdogNs = watchdogNs
  clear : thread.receiver.safeState = false
  buffer : thread.payloadOut.length = kMaxPayloadBytes
  synchronised : thread.receiver.synchronised = decide (0 < n)
  number : 0 < n →
    thread.sender.consecutiveNumber = following thread.receiver.lastConsecutiveNumber
  lastValid : 0 < n → thread.receiver.lastValidNs = periodNs * (n - 1)

namespace ControlThread
variable {thread : ControlThread} {periodNs : ℤ} {n : ℕ}

theorem payloadIn_fits : payloadIn.length ≤ kMaxPayloadBytes := by decide

theorem encoded_eq (thread : ControlThread) : thread.encoded.2.1 = true ∧
    thread.encoded.1 =
      { thread.sender with consecutiveNumber := following thread.sender.consecutiveNumber } ∧
    thread.encoded.2.2.view =
      frame thread.sender.address payloadIn 0 thread.sender.consecutiveNumber := by
  refine ⟨?_, encode_fst _ payloadIn_fits _ _, encode_view _ payloadIn_fits _ _⟩
  rw [encoded, SafetySender.encode, dif_neg (not_lt.mpr payloadIn_fits)]

/-- A telegram that is in time is accepted. -/
theorem received_of_timely (h : Underway periodNs n thread) {nowNs : ℤ}
    (htimely : thread.receiver.Timely nowNs) : thread.received nowNs =
      (thread.receiver.accept thread.sender.consecutiveNumber nowNs,
        { status := .valid
          payloadOut := copyTo payloadIn thread.payloadOut
          payloadSize := payloadIn.length
          statusOut := 0 }) := by
  rw [received, (encoded_eq thread).2.2, h.sender, ← h.receiver]
  apply SafetyReceiver.receive_frame payloadIn_fits _ _ h.clear htimely
  · intro hsync
    rw [h.synchronised] at hsync
    exact h.number (of_decide_eq_true hsync)
  · rw [h.buffer]
    exact payloadIn_fits

theorem exchange_of_timely (h : Underway periodNs n thread) {nowNs : ℤ}
    (htimely : thread.receiver.Timely nowNs) : thread.exchange nowNs =
      { thread with
        sender := thread.encoded.1
        telegram := thread.encoded.2.2
        receiver := thread.receiver.accept thread.sender.consecutiveNumber nowNs
        payloadOut := copyTo payloadIn thread.payloadOut
        accepted := thread.accepted + 1 } := by
  simp only [exchange, (encoded_eq thread).1, received_of_timely h htimely, if_true]

theorem noteTransition_frame (thread : ControlThread) (readings : CallbackReadings)
    (outputs : SafetyOutputs) :
    (thread.noteTransition readings outputs).supervisor = thread.supervisor ∧
      (thread.noteTransition readings outputs).sender = thread.sender ∧
      (thread.noteTransition readings outputs).receiver = thread.receiver ∧
      (thread.noteTransition readings outputs).payloadOut = thread.payloadOut := by
  simp only [noteTransition]
  split_ifs <;> exact ⟨rfl, rfl, rfl, rfl⟩

/-- Past the exchange and the supervisor, the rest of the cycle only publishes. -/
theorem cycle_frame (thread : ControlThread) (stats : ExecutorStats)
    (readings : CallbackReadings) (nowNs : ℤ) :
    (thread.cycle stats readings nowNs).supervisor =
        ((thread.exchange nowNs).supervise readings nowNs).1.supervisor ∧
      (thread.cycle stats readings nowNs).sender = (thread.exchange nowNs).sender ∧
      (thread.cycle stats readings nowNs).receiver = (thread.exchange nowNs).receiver ∧
      (thread.cycle stats readings nowNs).payloadOut = (thread.exchange nowNs).payloadOut :=
  noteTransition_frame ((thread.exchange nowNs).supervise readings nowNs).1 readings
    (thread.outputs readings nowNs)

theorem safetyInputs_undemanding (hclear : thread.receiver.safeState = false)
    {readings : CallbackReadings} (hestop : readings.estopAsserted = false) (nowNs : ℤ) :
    UndemandingInputs (thread.safetyInputs readings nowNs) := by
  refine ⟨?_, rfl, rfl, ?_⟩
  · simp [unconditionalDemandActive, safetyInputs, hestop, hclear]
  · simp only [safetyInputs]

end ControlThread

namespace Underway
variable {thread : ControlThread} {periodNs : ℤ} {n : ℕ}

/-- Within a watchdog's time of the cycle before, the telegram of cycle `n` is in time. The
first telegram always is. -/
theorem timely (h : Underway periodNs n thread) (hwindow : n = 0 ∨ periodNs ≤ watchdogNs) :
    thread.receiver.Timely (periodNs * n) := by
  intro hsync hoverdue
  rw [h.synchronised] at hsync
  have hpos := of_decide_eq_true hsync
  rw [SafetyReceiver.Overdue, h.lastValid hpos, h.watchdog, mul_sub_one] at hoverdue
  omega

/-- A second telegram that comes later than the watchdog allows is refused. -/
theorem not_timely (h : Underway periodNs n thread) (hn : 0 < n)
    (hwindow : watchdogNs < periodNs) : ¬ thread.receiver.Timely (periodNs * n) := by
  intro htimely
  have hsync : thread.receiver.synchronised = true := by
    rw [h.synchronised]
    exact decide_eq_true hn
  apply htimely hsync
  rw [SafetyReceiver.Overdue, h.lastValid hn, h.watchdog, mul_sub_one]
  omega

/-- After a telegram that is in time the supervisor is asked without a demand. -/
theorem exchange (h : Underway periodNs n thread) {nowNs : ℤ}
    (htimely : thread.receiver.Timely nowNs) {readings : CallbackReadings}
    (hestop : readings.estopAsserted = false) :
    HealthySupervisor n (thread.exchange nowNs).supervisor ∧
      (thread.exchange nowNs).receiver.safeState = false ∧
      UndemandingInputs ((thread.exchange nowNs).safetyInputs readings nowNs) := by
  have hexchange := ControlThread.exchange_of_timely h htimely
  have hclear : (thread.exchange nowNs).receiver.safeState = false := by
    rw [hexchange]
    exact h.clear
  refine ⟨?_, hclear, ControlThread.safetyInputs_undemanding hclear hestop nowNs⟩
  rw [hexchange]
  exact h.supervisor

theorem outputs (h : Underway periodNs n thread) {nowNs : ℤ}
    (htimely : thread.receiver.Timely nowNs) {readings : CallbackReadings}
    (hestop : readings.estopAsserted = false) :
    (thread.outputs readings nowNs).faultLatched = false ∧
      (thread.outputs readings nowNs).state = stateBefore (n + 1) ∧
      (thread.outputs readings nowNs).torquePermitted =
        decide (stateBefore (n + 1)).Energised := by
  obtain ⟨hhealthy, _, hinputs⟩ := h.exchange htimely hestop
  exact hhealthy.outputs nowNs hinputs

/-- A cycle whose telegram is in time keeps the daemon under way. -/
theorem cycle (h : Underway periodNs n thread) (stats : ExecutorStats)
    {readings : CallbackReadings} (hestop : readings.estopAsserted = false)
    (htimely : thread.receiver.Timely (periodNs * n)) :
    Underway periodNs (n + 1) (thread.cycle stats readings (periodNs * n)) := by
  obtain ⟨hhealthy, _, hinputs⟩ := h.exchange htimely hestop
  obtain ⟨hsupervisor, hsender, hreceiver, hbuffer⟩ :=
    ControlThread.cycle_frame thread stats readings (periodNs * n)
  have hencoded := (ControlThread.encoded_eq thread).2.1
  rw [ControlThread.exchange_of_timely h htimely] at hsender hreceiver hbuffer
  refine ⟨?_, ?_, ?_, ?_, ?_, ?_, ?_, ?_, ?_⟩
  · rw [hsupervisor]
    exact hhealthy.evaluate (periodNs * n) hinputs
  · rw [hsender, hencoded]
    exact h.sender
  · rw [hreceiver]
    exact h.receiver
  · rw [hreceiver]
    exact h.watchdog
  · rw [hreceiver]
    exact h.clear
  · rw [hbuffer]
    exact (length_copyTo (h.buffer.symm ▸ ControlThread.payloadIn_fits)).trans h.buffer
  · rw [hreceiver]
    exact (decide_eq_true (Nat.succ_pos n)).symm
  · intro _
    rw [hsender, hreceiver, hencoded]
    rfl
  · intro _
    rw [hreceiver]
    simp [SafetyReceiver.accept]

end Underway

theorem underway_start (periodNs : ℤ) (transitionNs : UInt64) (schedulingApplied : Bool) :
    Underway periodNs 0 { lastTransitionNs := transitionNs, schedulingApplied } := by
  refine ⟨⟨fun ch => ?_, rfl⟩, rfl, rfl, rfl, rfl, rfl, rfl, ?_, ?_⟩
  · cases ch <;> exact ⟨rfl, rfl, rfl⟩
  · exact fun h => absurd h (Nat.lt_irrefl 0)
  · exact fun h => absurd h (Nat.lt_irrefl 0)

section Run
variable {boot : Boot} {readings : ℕ → CycleReadings CallbackReadings}

/-- As long as no cycle has read an emergency stop the daemon is under way before its first two
cycles, and before every cycle if a period fits into the watchdog's window. -/
theorem loopAt_underway {n : ℕ} (hestop : ∀ k < n, (readings k).callback.estopAsserted = false)
    (hruns : (boot.loopAt readings n).Continues)
    (hfits : (executorConfig boot.frequency).periodNs * n < 2 ^ 63)
    (hwindow : n ≤ 1 ∨ (executorConfig boot.frequency).periodNs ≤ watchdogNs) :
    Underway (executorConfig boot.frequency).periodNs n (boot.loopAt readings n).captured := by
  induction n with
  | zero => exact underway_start _ _ _
  | succ n ih =>
    have hbefore : (boot.loopAt readings n).Continues := CyclicExecutor.continues_of_succ hruns
    have hfitsBefore := periodNs_mul_lt_of_succ hfits
    have hunderway := ih (fun k hk => hestop k (by omega)) hbefore hfitsBefore
      (hwindow.imp_left (by omega))
    obtain ⟨stats, hcaptured⟩ := Boot.loopAt_captured hbefore
    rw [hcaptured, Boot.nowAt_eq hbefore hfitsBefore]
    exact hunderway.cycle stats (hestop n (Nat.lt_succ_self n))
      (hunderway.timely (hwindow.imp_left (by omega)))

end Run

/-- Cycle `n` of a daemon that is well: the telegram is accepted, communication is reported as
alive, no fault is latched, and from the second cycle on motion is permitted at limited
speed. -/
structure HealthyCycle (boot : Boot) (readings : ℕ → CycleReadings CallbackReadings) (n : ℕ) :
    Prop where
  accepted : ((boot.loopAt readings n).captured.received (boot.nowAt readings n)).2.status = .valid
  communicating : (((boot.loopAt readings n).captured.exchange
    (boot.nowAt readings n)).safetyInputs (readings n).callback
      (boot.nowAt readings n)).communicationOk = true
  unlatched : ((boot.loopAt readings n).captured.outputs (readings n).callback
    (boot.nowAt readings n)).faultLatched = false
  limitedSpeed : 1 ≤ n → ((boot.loopAt readings n).captured.outputs (readings n).callback
    (boot.nowAt readings n)).state = .limitedSpeed
  torque : 1 ≤ n → ((boot.loopAt readings n).captured.outputs (readings n).callback
    (boot.nowAt readings n)).torquePermitted = true

theorem healthyCycle_of_timely {boot : Boot} {readings : ℕ → CycleReadings CallbackReadings}
    {n : ℕ} {periodNs : ℤ} (h : Underway periodNs n (boot.loopAt readings n).captured)
    (hestop : (readings n).callback.estopAsserted = false)
    (htimely : (boot.loopAt readings n).captured.receiver.Timely (boot.nowAt readings n)) :
    HealthyCycle boot readings n := by
  obtain ⟨hunlatched, hstate, htorque⟩ := h.outputs htimely hestop
  obtain ⟨_, hclear, _⟩ := h.exchange htimely hestop
  refine ⟨?_, ?_, hunlatched, ?_, ?_⟩
  · rw [ControlThread.received_of_timely h htimely]
  · simp [ControlThread.safetyInputs, hclear]
  · intro hn
    obtain ⟨k, rfl⟩ := Nat.exists_eq_add_of_le' hn
    exact hstate
  · intro hn
    obtain ⟨k, rfl⟩ := Nat.exists_eq_add_of_le' hn
    exact htorque

/-- With a period inside the watchdog's window every cycle is well, whatever the clock reads. -/
theorem healthyCycle_of_withinWatchdog {boot : Boot}
    {readings : ℕ → CycleReadings CallbackReadings} {n : ℕ}
    (hestop : ∀ k ≤ n, (readings k).callback.estopAsserted = false)
    (hruns : (boot.loopAt readings n).Continues)
    (hfits : (executorConfig boot.frequency).periodNs * n < 2 ^ 63)
    (hwindow : (executorConfig boot.frequency).periodNs ≤ watchdogNs) :
    HealthyCycle boot readings n := by
  have hunderway := loopAt_underway (fun k hk => hestop k hk.le) hruns hfits (.inr hwindow)
  apply healthyCycle_of_timely hunderway (hestop n le_rfl)
  rw [Boot.nowAt_eq hruns hfits]
  exact hunderway.timely (.inr hwindow)

theorem periodNs_le_watchdogNs_iff (frequency : Frequency) :
    (executorConfig frequency).periodNs ≤ watchdogNs ↔ 20 ≤ frequency.hz := by
  have hquotient : 50000001 ≤ 1000000000 / frequency.hz ↔ 50000001 * frequency.hz ≤ 1000000000 :=
    Int.le_ediv_iff_mul_le frequency.positive
  simp only [executorConfig, watchdogNs]
  omega

theorem executorConfig_periodNs_le (frequency : Frequency) :
    (executorConfig frequency).periodNs ≤ 1000000000 :=
  Int.ediv_le_self _ (by decide)

/-- Nothing from outside disturbs the daemon, which started at time zero, and every cycle takes
place at its deadline. -/
def punctualReadings (periodNs : ℤ) (k : ℕ) : CycleReadings CallbackReadings where
  wokeNs := periodNs * (k + 1)
  callback := { estopAsserted := false, acknowledged := false, estopPublished := false }
  finishedNs := periodNs * (k + 1)

/-- A daemon without an emergency stop is well in all its cycles exactly at the frequencies
whose period fits into the receiver's watchdog window. -/
theorem healthy_daemon_iff (frequency : Frequency) :
    (∀ (boot : Boot) (readings : ℕ → CycleReadings CallbackReadings),
      boot.frequency = frequency → (∀ k, (readings k).callback.estopAsserted = false) →
      ∀ n : ℕ, (boot.loopAt readings n).Continues →
        (executorConfig frequency).periodNs * n < 2 ^ 63 → HealthyCycle boot readings n) ↔
      20 ≤ frequency.hz := by
  rw [← periodNs_le_watchdogNs_iff]
  constructor
  · intro hhealthy
    by_contra hwindow
    let readings := punctualReadings (executorConfig frequency).periodNs
    have hruns : (Boot.loopAt { frequency } readings 1).Continues :=
      Boot.loopAt_continues (fun _ => rfl) 1
    have hfits : (executorConfig frequency).periodNs * (1 : ℕ) < 2 ^ 63 := by
      have hle := executorConfig_periodNs_le frequency
      omega
    have hcycle := hhealthy { frequency } readings rfl (fun _ => rfl) 1 hruns hfits
    have hunderway := loopAt_underway (fun _ _ => rfl) hruns hfits (.inl le_rfl)
    have hvalid := (SafetyReceiver.receive_valid_iff ..).mp hcycle.accepted
    have htimely := hvalid.2.2.2.1
    rw [Boot.nowAt_eq hruns hfits] at htimely
    exact hunderway.not_timely Nat.one_pos (not_le.mp hwindow) htimely
  · rintro hwindow boot readings rfl hestop n hruns hfits
    exact healthyCycle_of_withinWatchdog (fun k _ => hestop k) hruns hfits hwindow

def tenHertz : Boot where
  frequency := { hz := 10, positive := by decide, atMost := by decide }

/-- At 10 Hz the telegram of the second cycle is refused as late and the communication fault is
latched, although every cycle was on time. -/
theorem ten_hertz_times_out :
    ((tenHertz.loopAt (punctualReadings 100000000) 1).captured.received
      (tenHertz.nowAt (punctualReadings 100000000) 1)).2.status = .timeout ∧
    ((tenHertz.loopAt (punctualReadings 100000000) 1).captured.outputs
      (punctualReadings 100000000 1).callback
      (tenHertz.nowAt (punctualReadings 100000000) 1)).fault = .communicationFault ∧
    ((tenHertz.loopAt (punctualReadings 100000000) 1).captured.outputs
      (punctualReadings 100000000 1).callback
      (tenHertz.nowAt (punctualReadings 100000000) 1)).torquePermitted = false := by
  decide +kernel

end SafeEdge.Apps
