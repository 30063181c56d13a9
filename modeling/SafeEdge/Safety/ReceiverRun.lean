import SafeEdge.Library.Run
import SafeEdge.Safety.ReceiverStep

/-! Histories of a safety receiver, and exactly which polls detect silence in them. -/
namespace SafeEdge.Safety
open Library

/-- A call made to a safety receiver. -/
inductive ReceiverCall where
  | receive (raw : List UInt8) (nowNs : ℤ) (payloadOut : List UInt8)
  | poll (nowNs : ℤ)
  | acknowledgeAndReset (nowNs : ℤ)
deriving DecidableEq

def ReceiverCall.nowNs : ReceiverCall → ℤ
  | .receive _ nowNs _ => nowNs
  | .poll nowNs => nowNs
  | .acknowledgeAndReset nowNs => nowNs

def ReceiverCall.IsAcknowledgement : ReceiverCall → Prop
  | .acknowledgeAndReset _ => True
  | _ => False

namespace SafetyReceiver

def construct (address : SafetyAddress) (watchdogNs : ℤ) : SafetyReceiver :=
  { address, watchdogNs }

/-- The receiver after one call. -/
def call (receiver : SafetyReceiver) : ReceiverCall → SafetyReceiver
  | .receive raw nowNs payloadOut => (receiver.receive raw nowNs payloadOut).1
  | .poll nowNs => (receiver.poll nowNs).1
  | .acknowledgeAndReset nowNs => receiver.acknowledgeAndReset nowNs

/-- The call is a reception that accepts its telegram. -/
def Accepts (receiver : SafetyReceiver) : ReceiverCall → Prop
  | .receive raw nowNs payloadOut => (receiver.receive raw nowNs payloadOut).2.status = .valid
  | _ => False

/-- The receiver before call `n`. -/
def receiverAt (receiver : SafetyReceiver) (calls : ℕ → ReceiverCall) (n : ℕ) :
    SafetyReceiver :=
  stateAt call receiver calls n

section Step
variable {receiver : SafetyReceiver} {c : ReceiverCall}

theorem poll_fields (receiver : SafetyReceiver) (nowNs : ℤ) :
    (receiver.poll nowNs).1.lastValidNs = receiver.lastValidNs ∧
      (receiver.poll nowNs).1.synchronised = receiver.synchronised ∧
      (receiver.poll nowNs).1.watchdogNs = receiver.watchdogNs ∧
      (receiver.poll nowNs).1.address = receiver.address := by
  unfold poll
  split_ifs <;> exact ⟨rfl, rfl, rfl, rfl⟩

theorem poll_lastConsecutiveNumber (receiver : SafetyReceiver) (nowNs : ℤ) :
    (receiver.poll nowNs).1.lastConsecutiveNumber = receiver.lastConsecutiveNumber := by
  unfold poll
  split_ifs <;> rfl

theorem call_of_accepts (h : receiver.Accepts c) :
    (receiver.call c).lastValidNs = c.nowNs ∧ (receiver.call c).synchronised = true := by
  cases c with
  | receive raw nowNs payloadOut =>
    rw [call, receive_of_valid h]
    exact ⟨rfl, rfl⟩
  | poll nowNs => exact h.elim
  | acknowledgeAndReset nowNs => exact h.elim

theorem call_of_acknowledgement (h : c.IsAcknowledgement) :
    (receiver.call c).lastValidNs = c.nowNs ∧ (receiver.call c).synchronised = false := by
  cases c with
  | receive raw nowNs payloadOut => exact h.elim
  | poll nowNs => exact h.elim
  | acknowledgeAndReset nowNs => exact ⟨rfl, rfl⟩

theorem call_of_neither (haccept : ¬ receiver.Accepts c) (hack : ¬ c.IsAcknowledgement) :
    (receiver.call c).lastValidNs = receiver.lastValidNs ∧
      (receiver.call c).synchronised = receiver.synchronised := by
  cases c with
  | receive raw nowNs payloadOut =>
    obtain ⟨htime, hsync, _⟩ := receive_of_not_valid haccept
    exact ⟨htime, hsync⟩
  | poll nowNs =>
    obtain ⟨htime, hsync, _⟩ := poll_fields receiver nowNs
    exact ⟨htime, hsync⟩
  | acknowledgeAndReset nowNs => exact absurd trivial hack

theorem call_watchdogNs (receiver : SafetyReceiver) (c : ReceiverCall) :
    (receiver.call c).watchdogNs = receiver.watchdogNs := by
  cases c with
  | receive raw nowNs payloadOut => exact receive_watchdogNs
  | poll nowNs => exact (poll_fields receiver nowNs).2.2.1
  | acknowledgeAndReset nowNs => rfl

theorem call_address (receiver : SafetyReceiver) (c : ReceiverCall) :
    (receiver.call c).address = receiver.address := by
  cases c with
  | receive raw nowNs payloadOut => exact receive_address
  | poll nowNs => exact (poll_fields receiver nowNs).2.2.2
  | acknowledgeAndReset nowNs => rfl

end Step

section History
variable (receiver : SafetyReceiver) (calls : ℕ → ReceiverCall)

/-- Call `k` accepts a telegram or is an acknowledgement. -/
def RestartsWindowAt (k : ℕ) : Prop :=
  (receiver.receiverAt calls k).Accepts (calls k) ∨ (calls k).IsAcknowledgement

/-- A telegram has been accepted before call `n` and no acknowledgement was made since. -/
def RunningAt (n : ℕ) : Prop :=
  ∃ k < n, (receiver.receiverAt calls k).Accepts (calls k) ∧
    ∀ j, k < j → j < n → ¬ (calls j).IsAcknowledgement

/-- Some telegram was accepted or some acknowledgement made before call `n`, within the
watchdog window of `nowNs`. -/
def HeardWithinWindow (n : ℕ) (nowNs : ℤ) : Prop :=
  ∃ k < n, receiver.RestartsWindowAt calls k ∧ nowNs - (calls k).nowNs ≤ receiver.watchdogNs

/-- A poll at `nowNs` after the first `n` calls reports a healthy channel only if something
was heard within the window, and otherwise times out and latches. -/
def SilenceDetectedAt (n : ℕ) (nowNs : ℤ) : Prop :=
  let result := (receiver.receiverAt calls n).poll nowNs
  (result.2 = .valid → receiver.HeardWithinWindow calls n nowNs) ∧
    (¬ receiver.HeardWithinWindow calls n nowNs →
      result.2 = .timeout ∧ result.1.safeState = true)

variable {receiver calls}

theorem receiverAt_succ (n : ℕ) : receiver.receiverAt calls (n + 1) =
    (receiver.receiverAt calls n).call (calls n) := rfl

theorem receiverAt_watchdogNs (n : ℕ) :
    (receiver.receiverAt calls n).watchdogNs = receiver.watchdogNs := by
  apply stateAt_invariant (fun _ (r : SafetyReceiver) => r.watchdogNs = receiver.watchdogNs) rfl
  intro k hk
  exact (call_watchdogNs _ _).trans hk

theorem receiverAt_address (n : ℕ) :
    (receiver.receiverAt calls n).address = receiver.address := by
  apply stateAt_invariant (fun _ (r : SafetyReceiver) => r.address = receiver.address) rfl
  intro k hk
  exact (call_address _ _).trans hk

theorem runningAt_succ_of_accepts {n : ℕ}
    (h : (receiver.receiverAt calls n).Accepts (calls n)) : receiver.RunningAt calls (n + 1) :=
  ⟨n, Nat.lt_succ_self n, h, fun j hj hjn => absurd hjn (by omega)⟩

theorem runningAt_succ_of_acknowledgement {n : ℕ} (h : (calls n).IsAcknowledgement) :
    ¬ receiver.RunningAt calls (n + 1) := by
  rintro ⟨k, hk, haccept, hquiet⟩
  rcases Nat.lt_succ_iff_lt_or_eq.mp hk with hlt | rfl
  · exact hquiet n hlt (Nat.lt_succ_self n) h
  · cases hc : calls k with
    | acknowledgeAndReset nowNs =>
      rw [hc] at haccept
      exact haccept
    | receive raw nowNs payloadOut | poll nowNs =>
      rw [hc] at h
      exact h

theorem runningAt_succ_of_neither {n : ℕ}
    (haccept : ¬ (receiver.receiverAt calls n).Accepts (calls n))
    (hack : ¬ (calls n).IsAcknowledgement) :
    receiver.RunningAt calls (n + 1) ↔ receiver.RunningAt calls n := by
  constructor
  · rintro ⟨k, hk, hk', hquiet⟩
    rcases Nat.lt_succ_iff_lt_or_eq.mp hk with hlt | rfl
    · exact ⟨k, hlt, hk', fun j hj hjn => hquiet j hj (by omega)⟩
    · exact absurd hk' haccept
  · rintro ⟨k, hk, hk', hquiet⟩
    refine ⟨k, by omega, hk', fun j hj hjn => ?_⟩
    rcases Nat.lt_succ_iff_lt_or_eq.mp hjn with hlt | rfl
    · exact hquiet j hj hlt
    · exact hack

/-- The synchronised flag says that a telegram was accepted since the last acknowledgement. -/
theorem synchronised_iff_runningAt (hfresh : receiver.synchronised = false) (n : ℕ) :
    (receiver.receiverAt calls n).synchronised = true ↔ receiver.RunningAt calls n := by
  induction n with
  | zero =>
    constructor
    · intro h
      exact absurd (hfresh.symm.trans h) (by decide)
    · rintro ⟨k, hk, _⟩
      omega
  | succ n ih =>
    rw [receiverAt_succ]
    by_cases haccept : (receiver.receiverAt calls n).Accepts (calls n)
    · simp [(call_of_accepts haccept).2, runningAt_succ_of_accepts haccept]
    · by_cases hack : (calls n).IsAcknowledgement
      · simp [(call_of_acknowledgement hack).2, runningAt_succ_of_acknowledgement hack]
      · rw [(call_of_neither haccept hack).2, runningAt_succ_of_neither haccept hack, ih]

/-- The window starts at the last accepted telegram or acknowledgement. -/
theorem lastValidNs_spec {n : ℕ} (hstarted : ∃ k < n, receiver.RestartsWindowAt calls k) :
    ∃ k < n, receiver.RestartsWindowAt calls k ∧
      (receiver.receiverAt calls n).lastValidNs = (calls k).nowNs ∧
      ∀ j < n, receiver.RestartsWindowAt calls j → j ≤ k := by
  induction n with
  | zero =>
    obtain ⟨k, hk, _⟩ := hstarted
    omega
  | succ n ih =>
    by_cases hrestart : receiver.RestartsWindowAt calls n
    · refine ⟨n, Nat.lt_succ_self n, hrestart, ?_, fun j hj _ => by omega⟩
      rcases hrestart with haccept | hack
      · exact (call_of_accepts haccept).1
      · exact (call_of_acknowledgement hack).1
    · obtain ⟨k, hk, hevent⟩ := hstarted
      have hkn : k < n := by
        rcases Nat.lt_succ_iff_lt_or_eq.mp hk with hlt | rfl
        · exact hlt
        · exact absurd hevent hrestart
      obtain ⟨m, hm, hm', htime, hlast⟩ := ih ⟨k, hkn, hevent⟩
      refine ⟨m, by omega, hm', ?_, fun j hj hj' => ?_⟩
      · have hkeep := (call_of_neither (fun h => hrestart (.inl h)) fun h => hrestart (.inr h)).1
        exact hkeep.trans htime
      · rcases Nat.lt_succ_iff_lt_or_eq.mp hj with hlt | rfl
        · exact hlast j hlt hj'
        · exact absurd hj' hrestart

/-- In a history with nondecreasing times the window is overdue exactly when nothing was
heard within it. -/
theorem overdue_iff_not_heard (hmono : Monotone fun n => (calls n).nowNs) {n : ℕ}
    (hstarted : ∃ k < n, receiver.RestartsWindowAt calls k) (nowNs : ℤ) :
    (receiver.receiverAt calls n).Overdue nowNs ↔
      ¬ receiver.HeardWithinWindow calls n nowNs := by
  obtain ⟨k, hk, hevent, htime, hlast⟩ := lastValidNs_spec hstarted
  rw [Overdue, htime, receiverAt_watchdogNs]
  constructor
  · rintro hover ⟨j, hj, hj', hwithin⟩
    have hle : (calls j).nowNs ≤ (calls k).nowNs := hmono (hlast j hj hj')
    omega
  · intro hsilent
    by_contra hnot
    exact hsilent ⟨k, hk, hevent, not_lt.mp hnot⟩

theorem poll_of_quiet {r : SafetyReceiver} {nowNs : ℤ} (hclear : r.safeState = false)
    (h : r.synchronised = true → ¬ r.Overdue nowNs) : r.poll nowNs = (r, .valid) := by
  unfold poll
  rw [if_neg (by simp [hclear])]
  by_cases hsync : r.synchronised = true
  · rw [if_neg (by simp [hsync]), if_neg (h hsync)]
  · rw [if_pos (by simpa using hsync)]

theorem poll_of_overdue {r : SafetyReceiver} {nowNs : ℤ} (hclear : r.safeState = false)
    (hsync : r.synchronised = true) (hover : r.Overdue nowNs) :
    (r.poll nowNs).2 = .timeout ∧ (r.poll nowNs).1.safeState = true := by
  unfold poll
  rw [if_neg (by simp [hclear]), if_neg (by simp [hsync]), if_pos hover]
  exact ⟨rfl, rfl⟩

/-- A poll of an unlatched receiver that has accepted or been acknowledged before detects
silence exactly when a telegram was accepted since the last acknowledgement, or the watchdog
window is still open. -/
theorem silence_detected_iff (address : SafetyAddress) (watchdogNs : ℤ)
    (calls : ℕ → ReceiverCall) (hmono : Monotone fun n => (calls n).nowNs) (n : ℕ) (nowNs : ℤ)
    (hclear : ((construct address watchdogNs).receiverAt calls n).safeState = false)
    (hstarted : ∃ k < n, (construct address watchdogNs).RestartsWindowAt calls k) :
    (construct address watchdogNs).SilenceDetectedAt calls n nowNs ↔
      (construct address watchdogNs).RunningAt calls n ∨
        (construct address watchdogNs).HeardWithinWindow calls n nowNs := by
  have hover := overdue_iff_not_heard hmono hstarted nowNs
  have hsync : ((construct address watchdogNs).receiverAt calls n).synchronised = true ↔ _ :=
    synchronised_iff_runningAt rfl n
  constructor
  · rintro ⟨hvalid, _⟩
    by_cases hrunning : (construct address watchdogNs).RunningAt calls n
    · exact .inl hrunning
    · right
      apply hvalid
      rw [poll_of_quiet hclear fun h => absurd (hsync.mp h) hrunning]
  · intro hcases
    by_cases hheard : (construct address watchdogNs).HeardWithinWindow calls n nowNs
    · exact ⟨fun _ => hheard, fun h => absurd hheard h⟩
    · have hrunning := hcases.resolve_right hheard
      have htimeout := poll_of_overdue hclear (hsync.mpr hrunning) (hover.mpr hheard)
      refine ⟨fun hvalid => ?_, fun _ => htimeout⟩
      exact absurd (htimeout.1.symm.trans hvalid) (by decide)

end History

/-- A genuine telegram, silence until the watchdog latches, an acknowledgement, and silence
again. -/
def silentCalls : ℕ → ReceiverCall
  | 0 => .receive [0x00, 0x01, 0x00, 0x00, 0x00, 0x4F, 0x17, 0x7A, 0x92] 0 []
  | 1 => .poll 20
  | 2 => .acknowledgeAndReset 30
  | _ => .poll 100

/-- The relationship of the histories below, with a watchdog of ten nanoseconds. -/
def monitored : SafetyReceiver :=
  construct { source := 0x0011, destination := 0x2200, parameterSignature := 0xDEADBEEF } 10

theorem silentCalls_monotone : Monotone fun n => (silentCalls n).nowNs := by
  apply monotone_nat_of_le_succ
  intro n
  match n with
  | 0 | 1 | 2 => decide
  | n + 3 => exact le_rfl

instance (receiver : SafetyReceiver) (c : ReceiverCall) : Decidable (receiver.Accepts c) :=
  match c with
  | .receive raw nowNs payloadOut =>
    inferInstanceAs (Decidable ((receiver.receive raw nowNs payloadOut).2.status = .valid))
  | .poll _ | .acknowledgeAndReset _ => inferInstanceAs (Decidable False)

theorem silentCalls_accepts : monitored.Accepts (silentCalls 0) := by decide +kernel

theorem receiverAt_silentCalls_one :
    monitored.receiverAt silentCalls 1 = monitored.accept 1 0 := by
  have hfresh : monitored.receiverAt silentCalls 0 = monitored := rfl
  rw [receiverAt_succ, hfresh, silentCalls, call, receive_of_valid silentCalls_accepts]
  rfl

theorem silence_detected_iff_silentCalls : monitored.SilenceDetectedAt silentCalls 1 20 := by
  apply (silence_detected_iff _ 10 silentCalls silentCalls_monotone 1 20 ?_ ?_).mpr
  · exact .inl ⟨0, by decide, silentCalls_accepts, fun j hj hj1 => absurd hj1 (by omega)⟩
  · exact congrArg SafetyReceiver.safeState receiverAt_silentCalls_one
  · exact ⟨0, by decide, .inl silentCalls_accepts⟩

theorem silence_undetected_after_acknowledgement :
    (Monotone fun n => (silentCalls n).nowNs) ∧ silentCalls 3 = .poll 100 ∧
      (monitored.receiverAt silentCalls 3).safeState = false ∧
      (∃ k < 3, monitored.RestartsWindowAt silentCalls k) ∧
      ((monitored.receiverAt silentCalls 3).poll 100).2 = .valid ∧
      ¬ monitored.HeardWithinWindow silentCalls 3 100 := by
  have hthree : monitored.receiverAt silentCalls 3 =
      ((monitored.accept 1 0).poll 20).1.acknowledgeAndReset 30 := by
    rw [receiverAt_succ, receiverAt_succ, receiverAt_silentCalls_one]
    rfl
  refine ⟨silentCalls_monotone, rfl, ?_, ⟨2, by decide, .inr trivial⟩, ?_, ?_⟩
  · rw [hthree]
    rfl
  · rw [hthree]
    rfl
  · rintro ⟨k, hk, _, hwithin⟩
    have hold : ∀ k < 3, ¬ 100 - (silentCalls k).nowNs ≤ 10 := by decide
    exact hold k hk hwithin

end SafetyReceiver
end SafeEdge.Safety
