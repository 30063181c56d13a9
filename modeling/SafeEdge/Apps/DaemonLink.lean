import SafeEdge.Apps.DaemonSupervisor
import SafeEdge.Safety.ReceiverAccounting

/-! The safety telegrams that the daemon sends to itself, over every run of its control loop: how
they are counted, what a refused one does to all later cycles, and at which frequencies none is
refused. -/
namespace SafeEdge.Apps
open Library Safety Rt

/-- The loop goes on until a cycle has seen a shutdown signal. -/
theorem Boot.loopAt_continues_iff (boot : Boot) (readings : ℕ → CycleReadings CallbackReadings)
    (n : ℕ) : (boot.loopAt readings n).Continues ↔
      ∀ k < n, (readings k).callback.shutdownRequested = false := by
  suffices hstop : (boot.loopAt readings n).maxCycles = 0 ∧
      ((boot.loopAt readings n).stopRequested = false ↔
        ∀ k < n, (readings k).callback.shutdownRequested = false) by
    have hpos := boot.loopAt_periodNs_pos readings n
    simp [CyclicExecutor.Continues, hpos, hstop]
  induction n with
  | zero => exact ⟨rfl, by simp [loopAt, enter, CyclicExecutor.executorAt, stateAt,
      CyclicExecutor.enter, CyclicExecutor.beginRun]⟩
  | succ n ih =>
    by_cases hruns : (boot.loopAt readings n).Continues
    · have hnext : boot.loopAt readings (n + 1) =
          (boot.loopAt readings n).cycle cycle (readings n) := CyclicExecutor.executorAt_succ hruns
      rw [hnext, CyclicExecutor.cycle_eq]
      refine ⟨ih.1, ?_⟩
      simp only [CyclicExecutor.invoke, cycle, Bool.or_eq_false_iff, ih.2, Nat.lt_succ_iff_lt_or_eq,
        or_imp, forall_and, forall_eq]
    · have hended : boot.loopAt readings (n + 1) = boot.loopAt readings n :=
        CyclicExecutor.executorAt_of_ended hruns n.le_succ
      have hstopped : (boot.loopAt readings n).stopRequested ≠ false := fun hopen =>
        hruns ⟨boot.loopAt_periodNs_pos readings n, .inl ih.1, hopen⟩
      rw [hended]
      refine ⟨ih.1, iff_of_false hstopped fun hquiet => hstopped (ih.2.mpr ?_)⟩
      exact fun k hk => hquiet k (hk.trans n.lt_succ_self)

namespace ControlThread
variable {thread : ControlThread} {nowNs : ℤ}

/-- What the round trip of one telegram can do. -/
inductive ExchangeOutcome (thread : ControlThread) (nowNs : ℤ) : Prop
  | accepted (hclear : thread.receiver.safeState = false)
      (hafter : (thread.exchange nowNs).receiver.safeState = false)
      (haccepted : (thread.exchange nowNs).accepted = thread.accepted + 1)
      (hrejected : (thread.exchange nowNs).rejected = thread.rejected)
  | rejected (hafter : (thread.exchange nowNs).receiver.safeState = true)
      (haccepted : (thread.exchange nowNs).accepted = thread.accepted)
      (hrejected : (thread.exchange nowNs).rejected = thread.rejected + 1)

theorem exchange_eq (thread : ControlThread) (nowNs : ℤ) : thread.exchange nowNs =
    { thread with
      sender := thread.encoded.1
      telegram := thread.encoded.2.2
      receiver := (thread.received nowNs).1
      payloadOut := (thread.received nowNs).2.payloadOut
      accepted := if (thread.received nowNs).2.status = .valid then thread.accepted + 1
        else thread.accepted
      rejected := if (thread.received nowNs).2.status = .valid then thread.rejected
        else thread.rejected + 1 } := by
  simp only [exchange, (encoded_eq thread).1, if_true]
  split_ifs <;> rfl

/-- Whoever refuses a telegram is in its safe state afterwards. -/
theorem received_safeState (h : (thread.received nowNs).2.status ≠ .valid) :
    (thread.received nowNs).1.safeState = true := by
  have hout := thread.receiver.receive_outcome thread.encoded.2.2.view nowNs thread.payloadOut
  unfold received at h ⊢
  generalize thread.receiver.receive thread.encoded.2.2.view nowNs thread.payloadOut = result
    at hout h
  cases hout with
  | inSafeState hlatched => exact hlatched
  | rejected => rfl
  | accepted => exact absurd rfl h

theorem exchange_outcome (thread : ControlThread) (nowNs : ℤ) :
    ExchangeOutcome thread nowNs := by
  have heq := exchange_eq thread nowNs
  by_cases hvalid : (thread.received nowNs).2.status = .valid
  · have hclear := ((SafetyReceiver.receive_valid_iff ..).mp hvalid).1
    have hreceived : (thread.received nowNs).1 = thread.receiver.accept _ nowNs :=
      congrArg Prod.fst (SafetyReceiver.receive_of_valid hvalid)
    refine .accepted hclear ?_ ?_ ?_
    · rw [heq, hreceived]
      exact hclear
    · rw [heq]
      exact if_pos hvalid
    · rw [heq]
      exact if_pos hvalid
  · refine .rejected ?_ ?_ ?_
    · rw [heq]
      exact received_safeState hvalid
    · rw [heq]
      exact if_neg hvalid
    · rw [heq]
      exact if_neg hvalid

theorem exchange_of_latched (h : thread.receiver.safeState = true) (nowNs : ℤ) :
    (thread.exchange nowNs).receiver.safeState = true := by
  cases exchange_outcome thread nowNs with
  | accepted hclear => simp [hclear] at h
  | rejected hafter => exact hafter

/-- The counters in the snapshot are those of the exchange. -/
theorem cycle_counters (thread : ControlThread) (stats : ExecutorStats)
    (readings : CallbackReadings) (nowNs : ℤ) :
    (thread.cycle stats readings nowNs).accepted = (thread.exchange nowNs).accepted ∧
      (thread.cycle stats readings nowNs).rejected = (thread.exchange nowNs).rejected ∧
      (thread.cycle stats readings nowNs).published.telegramsAccepted =
        (thread.exchange nowNs).accepted ∧
      (thread.cycle stats readings nowNs).published.telegramsRejected =
        (thread.exchange nowNs).rejected := by
  simp only [cycle, noteTransition]
  split_ifs <;> exact ⟨rfl, rfl, rfl, rfl⟩

/-- A receiver in its safe state takes torque away, whatever else the cycle reads. -/
theorem published_torque_of_latched (stats : ExecutorStats) (readings : CallbackReadings)
    (h : (thread.exchange nowNs).receiver.safeState = true) :
    (thread.cycle stats readings nowNs).published.torquePermitted = 0 := by
  rw [(cycle_published stats).1, if_neg]
  intro htorque
  obtain ⟨_, _, hchannel⟩ := DualChannelSupervisor.evaluate_torque htorque
  have hdemand := (hchannel .a).2.1
  simp only [SupervisorCycle.inputs, safetyInputs_demand, h, Bool.or_true] at hdemand
  cases hdemand

end ControlThread

/-- The telegrams exchanged before cycle `n`, while the counters and the receiver agree. -/
structure TelegramsCounted (n : ℕ) (thread : ControlThread) : Prop where
  total : thread.accepted + thread.rejected = UInt64.ofNat n
  clean : thread.receiver.safeState = false → thread.rejected = 0

namespace TelegramsCounted
variable {n : ℕ} {thread : ControlThread}

theorem exchange (h : TelegramsCounted n thread) (nowNs : ℤ) :
    TelegramsCounted (n + 1) (thread.exchange nowNs) := by
  have hnext : UInt64.ofNat (n + 1) = UInt64.ofNat n + 1 := UInt64.ofNat_add n 1
  cases ControlThread.exchange_outcome thread nowNs with
  | accepted hclear _ haccepted hrejected =>
    refine ⟨?_, fun _ => hrejected.trans (h.clean hclear)⟩
    rw [haccepted, hrejected, hnext, ← h.total, UInt64.add_assoc, UInt64.add_assoc,
      UInt64.add_comm 1]
  | rejected hafter haccepted hrejected =>
    refine ⟨?_, fun hclear => by simp [hafter] at hclear⟩
    rw [haccepted, hrejected, hnext, ← h.total, UInt64.add_assoc]

theorem cycle (h : TelegramsCounted n thread) (stats : ExecutorStats)
    (readings : CallbackReadings) (nowNs : ℤ) :
    TelegramsCounted (n + 1) (thread.cycle stats readings nowNs) := by
  obtain ⟨haccepted, hrejected, _, _⟩ := ControlThread.cycle_counters thread stats readings nowNs
  obtain ⟨_, _, hreceiver, _⟩ := ControlThread.cycle_frame thread stats readings nowNs
  have hexchange := h.exchange nowNs
  refine ⟨?_, fun hclear => ?_⟩
  · rw [haccepted, hrejected]
    exact hexchange.total
  · rw [hrejected]
    rw [hreceiver] at hclear
    exact hexchange.clean hclear

end TelegramsCounted

section Run
variable {boot : Boot} {readings : ℕ → CycleReadings CallbackReadings} {n : ℕ}

theorem loopAt_telegramsCounted (hruns : (boot.loopAt readings n).Continues) :
    TelegramsCounted n (boot.loopAt readings n).captured := by
  induction n with
  | zero => exact ⟨rfl, fun _ => rfl⟩
  | succ n ih =>
    have hbefore : (boot.loopAt readings n).Continues := CyclicExecutor.continues_of_succ hruns
    obtain ⟨stats, hcaptured⟩ := Boot.loopAt_captured hbefore
    rw [hcaptured]
    exact (ih hbefore).cycle stats _ _

/-- Once the receiver is in its safe state no later snapshot permits torque. -/
theorem no_torque_of_latched {m : ℕ} (hnm : n ≤ m)
    (hlatched : (boot.loopAt readings n).captured.receiver.safeState = true)
    (hdenied : (boot.loopAt readings n).captured.published.torquePermitted = 0) :
    (boot.loopAt readings m).captured.receiver.safeState = true ∧
      (boot.loopAt readings m).captured.published.torquePermitted = 0 := by
  induction m, hnm using Nat.le_induction with
  | base => exact ⟨hlatched, hdenied⟩
  | succ m _ ih =>
    by_cases hruns : (boot.loopAt readings m).Continues
    · obtain ⟨stats, hcaptured⟩ := Boot.loopAt_captured hruns
      have hexchange := ControlThread.exchange_of_latched ih.1 (boot.nowAt readings m)
      rw [hcaptured]
      refine ⟨?_, ControlThread.published_torque_of_latched stats _ hexchange⟩
      rw [(ControlThread.cycle_frame _ stats _ _).2.2.1]
      exact hexchange
    · have hended : boot.loopAt readings (m + 1) = boot.loopAt readings m :=
        CyclicExecutor.executorAt_of_ended hruns m.le_succ
      rw [hended]
      exact ih

end Run

/-- Every snapshot accounts for the telegrams of all cycles up to its own, and permits torque only
if none of them was refused. A refused telegram is final: no later snapshot permits torque,
whatever is acknowledged. -/
theorem telegrams_accounted (boot : Boot) (readings : ℕ → CycleReadings CallbackReadings) (n : ℕ)
    (hruns : (boot.loopAt readings n).Continues) :
    (boot.loopAt readings (n + 1)).captured.published.telegramsAccepted +
        (boot.loopAt readings (n + 1)).captured.published.telegramsRejected =
      UInt64.ofNat (n + 1) ∧
    ((boot.loopAt readings (n + 1)).captured.published.torquePermitted = 1 →
      (boot.loopAt readings (n + 1)).captured.published.telegramsRejected = 0) ∧
    ((boot.loopAt readings (n + 1)).captured.published.telegramsRejected ≠ 0 →
      ∀ m > n, (boot.loopAt readings m).captured.published.torquePermitted = 0) := by
  obtain ⟨stats, hcaptured⟩ := Boot.loopAt_captured hruns
  have hcounted := (loopAt_telegramsCounted hruns).exchange (boot.nowAt readings n)
  obtain ⟨_, _, haccepted, hrejected⟩ := ControlThread.cycle_counters
    (boot.loopAt readings n).captured stats (readings n).callback (boot.nowAt readings n)
  have hlatched (h : (boot.loopAt readings (n + 1)).captured.published.telegramsRejected ≠ 0) :
      ((boot.loopAt readings n).captured.exchange (boot.nowAt readings n)).receiver.safeState =
        true := by
    rw [hcaptured, hrejected] at h
    by_contra hclear
    exact h (hcounted.clean (Bool.not_eq_true _ ▸ hclear))
  have hdenied (h : (boot.loopAt readings (n + 1)).captured.published.telegramsRejected ≠ 0) :
      (boot.loopAt readings (n + 1)).captured.published.torquePermitted = 0 := by
    have hsafe := hlatched h
    rw [hcaptured]
    exact ControlThread.published_torque_of_latched stats _ hsafe
  refine ⟨?_, fun htorque => ?_, fun hrefused m hm => ?_⟩
  · rw [hcaptured, haccepted, hrejected]
    exact hcounted.total
  · by_contra hrefused
    rw [hdenied hrefused] at htorque
    exact absurd htorque (by decide)
  · have hsafe : (boot.loopAt readings (n + 1)).captured.receiver.safeState = true := by
      rw [hcaptured, (ControlThread.cycle_frame _ stats _ _).2.2.1]
      exact hlatched hrefused
    exact (no_torque_of_latched hm hsafe (hdenied hrefused)).2

/-- At 10 Hz the second telegram is late. -/
theorem telegrams_accounted_tenHertz :
    (tenHertz.loopAt (punctualReadings 100000000) 2).captured.published.telegramsRejected = 1 ∧
      ∀ m > 1,
        (tenHertz.loopAt (punctualReadings 100000000) m).captured.published.torquePermitted =
          0 := by
  have hrefused : (tenHertz.loopAt (punctualReadings 100000000)
      2).captured.published.telegramsRejected = 1 := by decide +kernel
  refine ⟨hrefused, (telegrams_accounted tenHertz (punctualReadings 100000000) 1
    (Boot.loopAt_continues (fun _ => rfl) 1)).2.2 ?_⟩
  rw [hrefused]
  decide

/-- Two control threads that differ in nothing the telegrams depend on. -/
structure SameLink (first second : ControlThread) : Prop where
  sender : first.sender = second.sender
  receiver : first.receiver = second.receiver
  telegram : first.telegram = second.telegram
  payloadOut : first.payloadOut = second.payloadOut

namespace SameLink
variable {first second : ControlThread}

theorem received (h : SameLink first second) (nowNs : ℤ) :
    first.encoded = second.encoded ∧ first.received nowNs = second.received nowNs := by
  have hencoded : first.encoded = second.encoded := by
    rw [ControlThread.encoded, ControlThread.encoded, h.sender, h.telegram]
  refine ⟨hencoded, ?_⟩
  rw [ControlThread.received, ControlThread.received, hencoded, h.receiver, h.payloadOut]

theorem exchange (h : SameLink first second) (nowNs : ℤ) :
    SameLink (first.exchange nowNs) (second.exchange nowNs) := by
  obtain ⟨hencoded, hreceived⟩ := h.received nowNs
  rw [ControlThread.exchange_eq first, ControlThread.exchange_eq second, hencoded, hreceived]
  exact ⟨rfl, rfl, rfl, rfl⟩

theorem cycle_exchange (thread : ControlThread) (stats : ExecutorStats)
    (readings : CallbackReadings) (nowNs : ℤ) :
    SameLink (thread.cycle stats readings nowNs) (thread.exchange nowNs) := by
  obtain ⟨_, hsender, hreceiver, hpayload⟩ :=
    ControlThread.cycle_frame thread stats readings nowNs
  refine ⟨hsender, hreceiver, ?_, hpayload⟩
  simp only [ControlThread.cycle, ControlThread.noteTransition]
  split_ifs <;> rfl

/-- The supervisor and everything it is told have no influence on the telegrams. -/
theorem cycle (h : SameLink first second) (stats stats' : ExecutorStats)
    (readings readings' : CallbackReadings) (nowNs : ℤ) :
    SameLink (first.cycle stats readings nowNs) (second.cycle stats' readings' nowNs) := by
  have hfirst := cycle_exchange first stats readings nowNs
  have hsecond := cycle_exchange second stats' readings' nowNs
  have hexchange := h.exchange nowNs
  exact ⟨hfirst.sender.trans (hexchange.sender.trans hsecond.sender.symm),
    hfirst.receiver.trans (hexchange.receiver.trans hsecond.receiver.symm),
    hfirst.telegram.trans (hexchange.telegram.trans hsecond.telegram.symm),
    hfirst.payloadOut.trans (hexchange.payloadOut.trans hsecond.payloadOut.symm)⟩

end SameLink

/-- The same readings without the emergency stop. -/
def withoutEstop (readings : CycleReadings CallbackReadings) : CycleReadings CallbackReadings :=
  { readings with callback := { readings.callback with estopAsserted := false } }

section Run
variable {boot : Boot} {readings : ℕ → CycleReadings CallbackReadings} {n : ℕ}

theorem continues_withoutEstop (hruns : (boot.loopAt readings n).Continues) :
    (boot.loopAt (fun k => withoutEstop (readings k)) n).Continues := by
  rw [boot.loopAt_continues_iff] at hruns ⊢
  exact hruns

theorem sameLink_withoutEstop (hruns : (boot.loopAt readings n).Continues)
    (hfits : (executorConfig boot.frequency).periodNs * n < 2 ^ 63) :
    SameLink (boot.loopAt readings n).captured
      (boot.loopAt (fun k => withoutEstop (readings k)) n).captured := by
  induction n with
  | zero => exact ⟨rfl, rfl, rfl, rfl⟩
  | succ n ih =>
    have hbefore : (boot.loopAt readings n).Continues := CyclicExecutor.continues_of_succ hruns
    have hquiet := continues_withoutEstop hbefore
    have hfitsBefore := periodNs_mul_lt_of_succ hfits
    obtain ⟨stats, hcaptured⟩ := Boot.loopAt_captured hbefore
    obtain ⟨stats', hcaptured'⟩ := Boot.loopAt_captured hquiet
    rw [hcaptured, hcaptured', Boot.nowAt_eq hbefore hfitsBefore,
      Boot.nowAt_eq hquiet hfitsBefore]
    exact (ih hbefore hfitsBefore).cycle stats stats' _ _ _

/-- With a period inside the watchdog's window the receiver is never in its safe state, whatever
the emergency stop does. -/
theorem exchange_clear_of_withinWatchdog (hruns : (boot.loopAt readings n).Continues)
    (hfits : (executorConfig boot.frequency).periodNs * n < 2 ^ 63)
    (hwindow : n = 0 ∨ (executorConfig boot.frequency).periodNs ≤ watchdogNs) :
    ((boot.loopAt readings n).captured.exchange (boot.nowAt readings n)).receiver.safeState =
      false := by
  have hquiet := continues_withoutEstop hruns
  have hunderway := loopAt_underway (fun _ _ => rfl) hquiet hfits (hwindow.imp_left (by omega))
  rw [Boot.nowAt_eq hruns hfits, ((sameLink_withoutEstop hruns hfits).exchange _).receiver]
  exact (@Underway.exchange _ _ _ hunderway _ (hunderway.timely hwindow)
    (withoutEstop (readings n)).callback rfl).2.1

/-- With a longer period the second telegram is late and the receiver stays in its safe state. -/
theorem exchange_latched_of_beyondWatchdog (hruns : (boot.loopAt readings n).Continues)
    (hfits : (executorConfig boot.frequency).periodNs * n < 2 ^ 63) (hn : 0 < n)
    (hwindow : watchdogNs < (executorConfig boot.frequency).periodNs) :
    ((boot.loopAt readings n).captured.exchange (boot.nowAt readings n)).receiver.safeState =
      true := by
  induction n, hn using Nat.le_induction with
  | base =>
    have hquiet := continues_withoutEstop hruns
    have hunderway := loopAt_underway (fun _ _ => rfl) hquiet hfits (.inl le_rfl)
    rw [Boot.nowAt_eq hruns hfits, ((sameLink_withoutEstop hruns hfits).exchange _).receiver,
      ControlThread.exchange_eq]
    apply ControlThread.received_safeState
    intro hvalid
    exact hunderway.not_timely Nat.one_pos hwindow
      ((SafetyReceiver.receive_valid_iff ..).mp hvalid).2.2.2.1
  | succ n _ ih =>
    have hbefore : (boot.loopAt readings n).Continues := CyclicExecutor.continues_of_succ hruns
    obtain ⟨stats, hcaptured⟩ := Boot.loopAt_captured hbefore
    apply ControlThread.exchange_of_latched
    rw [hcaptured, (ControlThread.cycle_frame _ stats _ _).2.2.1]
    exact ih hbefore (periodNs_mul_lt_of_succ hfits)

end Run

end SafeEdge.Apps
