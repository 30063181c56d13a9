import SafeEdge.Safety.SafetyLink

/-! A healthy stream never faults: telegrams delivered in the order they were sent and without
a pause longer than the watchdog are all accepted, across any number of wraps of the
consecutive number. -/
namespace SafeEdge.Safety
open Library

section Schedule
variable (actions : ℕ → LinkAction)

/-- The number of deliveries among the first `n` actions. -/
def deliveries : ℕ → ℕ
  | 0 => 0
  | n + 1 =>
    match actions n with
    | .deliver _ _ _ => deliveries n + 1
    | _ => deliveries n

/-- The time of the last delivery among the first `n` actions. -/
def lastArrival : ℕ → Option ℤ
  | 0 => none
  | n + 1 =>
    match actions n with
    | .deliver _ nowNs _ => some nowNs
    | _ => lastArrival n

end Schedule

/-- The time is no later than the watchdog allows after the previous arrival, if any. -/
def WithinWindow (watchdogNs : ℤ) (arrival : Option ℤ) (nowNs : ℤ) : Prop :=
  ∀ earlier, arrival = some earlier → nowNs - earlier ≤ watchdogNs

namespace SafetyLink

/-- What may happen next on a healthy link: any encode, the delivery of the next telegram into
a sufficient buffer, or a poll, the latter two within the watchdog window. -/
def Healthy (link : SafetyLink) (watchdogNs : ℤ) (delivered : ℕ) (arrival : Option ℤ) :
    LinkAction → Prop
  | .encode _ _ _ => True
  | .deliver index nowNs payloadOut => index = delivered ∧
      (∃ telegram, link.sent[index]? = some telegram ∧
        telegram.payload.length ≤ payloadOut.length) ∧
      WithinWindow watchdogNs arrival nowNs
  | .poll nowNs => WithinWindow watchdogNs arrival nowNs
  | .acknowledgeAndReset _ => False

/-- What the action does when nothing is wrong: an encode fails exactly on an oversized payload
and then changes neither the sender nor the telegram buffer, a delivery hands over what was
encoded, and a poll finds the channel alive. -/
def Undisturbed (link : SafetyLink) : LinkAction → Prop
  | .encode payload status out =>
      ((link.sender.encode payload status out).2.1 = true ↔
        payload.length ≤ kMaxPayloadBytes) ∧
      (¬ payload.length ≤ kMaxPayloadBytes →
        link.sender.encode payload status out = (link.sender, false, out))
  | .deliver index nowNs payloadOut => ∃ telegram, link.sent[index]? = some telegram ∧
      (link.receiver.receive telegram.bytes nowNs payloadOut).2 =
        { status := .valid
          payloadOut := copyTo telegram.payload payloadOut
          payloadSize := telegram.payload.length
          statusOut := telegram.status }
  | .poll nowNs => (link.receiver.poll nowNs).2 = .valid
  | .acknowledgeAndReset _ => True

/-- The receiver is unlatched and stands where the last delivery left it. -/
structure InStep (start : UInt32) (watchdogNs : ℤ) (delivered : ℕ) (arrival : Option ℤ)
    (link : SafetyLink) : Prop where
  clear : link.receiver.safeState = false
  watchdog : link.receiver.watchdogNs = watchdogNs
  synchronised : link.receiver.synchronised = true → ∃ earlier, arrival = some earlier ∧
    link.receiver.lastValidNs = earlier ∧
    following^[delivered] start = following link.receiver.lastConsecutiveNumber

section Step
variable {address : SafetyAddress} {start : UInt32} {watchdogNs : ℤ} {delivered : ℕ}
  {arrival : Option ℤ} {link : SafetyLink}

theorem InStep.timely (h : InStep start watchdogNs delivered arrival link) {nowNs : ℤ}
    (hwindow : WithinWindow watchdogNs arrival nowNs) : link.receiver.Timely nowNs := by
  intro hsync hover
  obtain ⟨earlier, harrival, htime, _⟩ := h.synchronised hsync
  have hwithin := hwindow earlier harrival
  rw [SafetyReceiver.Overdue, htime, h.watchdog] at hover
  omega

theorem InStep.receive (hnumbered : Numbered address start link)
    (h : InStep start watchdogNs delivered arrival link) {nowNs : ℤ} {payloadOut : List UInt8}
    {telegram : SentTelegram} (hsent : link.sent[delivered]? = some telegram)
    (hbuffer : telegram.payload.length ≤ payloadOut.length)
    (hwindow : WithinWindow watchdogNs arrival nowNs) :
    link.receiver.receive telegram.bytes nowNs payloadOut =
      (link.receiver.accept (following^[delivered] start) nowNs,
        { status := .valid
          payloadOut := copyTo telegram.payload payloadOut
          payloadSize := telegram.payload.length
          statusOut := telegram.status }) := by
  apply receive_of_genuine hnumbered hsent h.clear hbuffer (h.timely hwindow)
  intro hsync
  obtain ⟨_, _, _, hnumber⟩ := h.synchronised hsync
  exact hnumber

theorem InStep.poll (h : InStep start watchdogNs delivered arrival link) {nowNs : ℤ}
    (hwindow : WithinWindow watchdogNs arrival nowNs) :
    link.receiver.poll nowNs = (link.receiver, .valid) :=
  SafetyReceiver.poll_of_quiet h.clear (h.timely hwindow)

theorem InStep.accept (h : InStep start watchdogNs delivered arrival link) {next : SafetyLink}
    {nowNs : ℤ} (hnext : next.receiver = link.receiver.accept (following^[delivered] start) nowNs) :
    InStep start watchdogNs (delivered + 1) (some nowNs) next := by
  refine ⟨?_, ?_, ?_⟩
  · rw [hnext]
    exact h.clear
  · rw [hnext]
    exact h.watchdog
  · intro _
    refine ⟨nowNs, rfl, ?_, ?_⟩
    · rw [hnext]
      rfl
    · rw [hnext, Function.iterate_succ_apply']
      rfl

theorem InStep.of_receiver_eq (h : InStep start watchdogNs delivered arrival link)
    {next : SafetyLink} (hnext : next.receiver = link.receiver) :
    InStep start watchdogNs delivered arrival next := by
  refine ⟨?_, ?_, ?_⟩
  · rw [hnext]
    exact h.clear
  · rw [hnext]
    exact h.watchdog
  · rw [hnext]
    exact h.synchronised

theorem encode_undisturbed (link : SafetyLink) (payload : List UInt8) (status : UInt8)
    (out : Telegram) : link.Undisturbed (.encode payload status out) :=
  ⟨link.sender.encode_ok_iff payload status out,
    fun hlong => SafetySender.encode_of_oversized hlong status out⟩

/-- A healthy action does what it should. -/
theorem InStep.undisturbed (hnumbered : Numbered address start link)
    (h : InStep start watchdogNs delivered arrival link) {action : LinkAction}
    (haction : link.Healthy watchdogNs delivered arrival action) : link.Undisturbed action := by
  cases action with
  | encode payload status out => exact encode_undisturbed link payload status out
  | deliver index nowNs payloadOut =>
    obtain ⟨rfl, ⟨telegram, hsent, hbuffer⟩, hwindow⟩ := haction
    refine ⟨telegram, hsent, ?_⟩
    rw [h.receive hnumbered hsent hbuffer hwindow]
  | poll nowNs => exact congrArg Prod.snd (h.poll haction)
  | acknowledgeAndReset nowNs => exact haction.elim

end Step

section Run
variable (address : SafetyAddress) (start : UInt32) (watchdogNs : ℤ)
  (actions : ℕ → LinkAction)

theorem encode_receiver (link : SafetyLink) (payload : List UInt8) (status : UInt8)
    (out : Telegram) : (link.encode payload status out).receiver = link.receiver := by
  simp only [encode]
  split_ifs <;> rfl

/-- A healthy action leaves the receiver in step. -/
theorem linkAt_inStep_succ {n : ℕ}
    (h : InStep start watchdogNs (deliveries actions n) (lastArrival actions n)
      ((construct address start watchdogNs).linkAt actions n))
    (haction : ((construct address start watchdogNs).linkAt actions n).Healthy watchdogNs
      (deliveries actions n) (lastArrival actions n) (actions n)) :
    InStep start watchdogNs (deliveries actions (n + 1)) (lastArrival actions (n + 1))
      ((construct address start watchdogNs).linkAt actions (n + 1)) := by
  have hnumbered := linkAt_numbered address start watchdogNs actions n
  have hstep : (construct address start watchdogNs).linkAt actions (n + 1) =
      ((construct address start watchdogNs).linkAt actions n).act (actions n) := rfl
  rw [hstep]
  generalize (construct address start watchdogNs).linkAt actions n = link at *
  cases hact : actions n with
  | encode payload status out =>
    simp only [deliveries, lastArrival, hact]
    exact h.of_receiver_eq (encode_receiver link payload status out)
  | deliver index nowNs payloadOut =>
    rw [hact] at haction
    obtain ⟨rfl, ⟨telegram, hsent, hbuffer⟩, hwindow⟩ := haction
    simp only [deliveries, lastArrival, hact]
    apply h.accept
    simp only [act, deliver, hsent, h.receive hnumbered hsent hbuffer hwindow, if_true]
  | poll nowNs =>
    rw [hact] at haction
    simp only [deliveries, lastArrival, hact]
    exact h.of_receiver_eq (congrArg Prod.fst (h.poll haction))
  | acknowledgeAndReset nowNs =>
    rw [hact] at haction
    exact haction.elim

theorem linkAt_inStep {n : ℕ}
    (hhealthy : ∀ k < n, ((construct address start watchdogNs).linkAt actions k).Healthy
      watchdogNs (deliveries actions k) (lastArrival actions k) (actions k)) :
    InStep start watchdogNs (deliveries actions n) (lastArrival actions n)
      ((construct address start watchdogNs).linkAt actions n) := by
  induction n with
  | zero =>
    refine ⟨rfl, rfl, ?_⟩
    intro hsync
    exact absurd hsync Bool.false_ne_true
  | succ n ih =>
    have hbefore := ih fun k hk => hhealthy k (by omega)
    exact linkAt_inStep_succ address start watchdogNs actions hbefore
      (hhealthy n (Nat.lt_succ_self n))

/-- In a healthy stream, however long, no telegram is refused, no poll times out and the
receiver never latches. -/
theorem healthy_stream_accepted (n : ℕ)
    (hhealthy : ∀ k < n, ((construct address start watchdogNs).linkAt actions k).Healthy
      watchdogNs (deliveries actions k) (lastArrival actions k) (actions k)) :
    ((construct address start watchdogNs).linkAt actions n).receiver.safeState = false ∧
      ∀ k < n, ((construct address start watchdogNs).linkAt actions k).Undisturbed
        (actions k) := by
  refine ⟨(linkAt_inStep address start watchdogNs actions hhealthy).clear, ?_⟩
  intro k hk
  have hbefore := linkAt_inStep address start watchdogNs actions (n := k)
    fun j hj => hhealthy j (by omega)
  exact hbefore.undisturbed (linkAt_numbered address start watchdogNs actions k) (hhealthy k hk)

end Run

/-- The stream starts at the last number before the wrap, so the second telegram is the first
of the next cycle. -/
theorem healthy_stream_accepted_healthyActions :
    ((construct {} 0xFFFFFFFF 10).linkAt healthyActions 5).receiver.safeState = false ∧
      ∀ k < 5, ((construct {} 0xFFFFFFFF 10).linkAt healthyActions k).Undisturbed
        (healthyActions k) := by
  have hsent : ∀ k, k = 2 ∨ k = 3 →
      ((construct {} 0xFFFFFFFF 10).linkAt healthyActions k).sent.map SentTelegram.payload =
        [[0x11], [0x22]] := by
    rintro k (rfl | rfl) <;> decide +kernel
  have hfits : ∀ k, k = 2 ∨ k = 3 → ∀ i < 2, ∃ telegram,
      ((construct {} 0xFFFFFFFF 10).linkAt healthyActions k).sent[i]? = some telegram ∧
        telegram.payload.length ≤ [(0 : UInt8)].length := by
    intro k hk i hi
    have hmap := congrArg (fun payloads => payloads[i]?) (hsent k hk)
    simp only [List.getElem?_map] at hmap
    interval_cases i
    · obtain ⟨telegram, htelegram, hpayload⟩ := Option.map_eq_some_iff.mp hmap
      exact ⟨telegram, htelegram, by rw [hpayload]; decide⟩
    · obtain ⟨telegram, htelegram, hpayload⟩ := Option.map_eq_some_iff.mp hmap
      exact ⟨telegram, htelegram, by rw [hpayload]; decide⟩
  apply healthy_stream_accepted {} 0xFFFFFFFF 10 healthyActions 5
  intro k hk
  interval_cases k
  · trivial
  · trivial
  · exact ⟨rfl, hfits 2 (.inl rfl) 0 (by decide), fun _ h => absurd h (Option.some_ne_none _).symm⟩
  · refine ⟨rfl, hfits 3 (.inr rfl) 1 (by decide), fun earlier h => ?_⟩
    obtain rfl : 0 = earlier := Option.some.inj h
    decide
  · intro earlier h
    obtain rfl : 5 = earlier := Option.some.inj h
    decide

end SafetyLink
end SafeEdge.Safety
