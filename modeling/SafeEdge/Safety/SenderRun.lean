import SafeEdge.Library.Run
import SafeEdge.Safety.TelegramCodec

/-! The cyclic order of the consecutive numbers, and the numbers that the telegrams of a sender
bear in any history of encodes and restarts. -/
namespace SafeEdge.Safety
open Library

section Numbers

/-- The consecutive numbers count cyclically through `1, …, 2 ^ 32 - 1`. -/
theorem following_toNat (number : UInt32) :
    (following number).toNat = number.toNat % 4294967295 + 1 := by
  have hlt := number.toNat_lt
  have hsucc : number + 1 = 0 ↔ number.toNat = 4294967295 := by
    rw [← UInt32.toNat_inj, UInt32.toNat_add]
    simp only [UInt32.toNat_one, UInt32.toNat_zero]
    omega
  unfold following
  split_ifs with hwrap
  · rw [hsucc.mp hwrap]
    rfl
  · rw [hsucc] at hwrap
    rw [UInt32.toNat_add, UInt32.toNat_one]
    omega

theorem following_iterate_toNat {start : UInt32} (h : start ≠ 0) (k : ℕ) :
    (following^[k] start).toNat = (start.toNat - 1 + k) % 4294967295 + 1 := by
  induction k with
  | zero =>
    have hlt := start.toNat_lt
    have hne : start.toNat ≠ 0 := fun hz => h (UInt32.toNat_inj.mp hz)
    rw [Function.iterate_zero_apply]
    omega
  | succ k ih =>
    rw [Function.iterate_succ_apply', following_toNat, ih]
    omega

/-- Fewer than `2 ^ 32 - 1` consecutive numbers are distinct. -/
theorem following_iterate_inj {start : UInt32} (h : start ≠ 0) {i j : ℕ} (hi : i < 4294967295)
    (hj : j < 4294967295) (heq : following^[i] start = following^[j] start) : i = j := by
  have hnat := congrArg UInt32.toNat heq
  rw [following_iterate_toNat h, following_iterate_toNat h] at hnat
  have hstart := start.toNat_lt
  omega

end Numbers

/-- A call made to a safety sender. -/
inductive SenderCall where
  | encode (payload : List UInt8) (status : UInt8) (out : Telegram)
  | restartSequence (start : UInt32)

def SenderCall.IsRestart : SenderCall → Prop
  | .encode _ _ _ => False
  | .restartSequence _ => True

/-- An encode of a payload that is too long. -/
def SenderCall.Oversized : SenderCall → Prop
  | .encode payload _ _ => kMaxPayloadBytes < payload.length
  | .restartSequence _ => False

namespace SafetySender

/-- The sender after one call. -/
def call (sender : SafetySender) : SenderCall → SafetySender
  | .encode payload status out => (sender.encode payload status out).1
  | .restartSequence start => sender.restartSequence start

/-- The consecutive number on the wire, if the call puts a telegram there. -/
def emission (sender : SafetySender) : SenderCall → Option UInt32
  | .encode payload status out =>
    let result := sender.encode payload status out
    if result.2.1 then some (receivedNumber result.2.2.view) else none
  | .restartSequence _ => none

/-- The sender before call `n`. -/
def senderAt (sender : SafetySender) (calls : ℕ → SenderCall) (n : ℕ) : SafetySender :=
  stateAt call sender calls n

def emissionAt (sender : SafetySender) (calls : ℕ → SenderCall) (n : ℕ) : Option UInt32 :=
  (sender.senderAt calls n).emission (calls n)

section Step
variable {sender : SafetySender} {c : SenderCall}

theorem encode_ok_iff (sender : SafetySender) (payload : List UInt8) (status : UInt8)
    (out : Telegram) :
    (sender.encode payload status out).2.1 = true ↔ payload.length ≤ kMaxPayloadBytes := by
  rw [encode]
  split_ifs with hlong
  · exact iff_of_false id (by omega)
  · exact iff_of_true rfl (by omega)

theorem encode_of_oversized {payload : List UInt8} (h : ¬ payload.length ≤ kMaxPayloadBytes)
    (status : UInt8) (out : Telegram) :
    sender.encode payload status out = (sender, false, out) := by
  rw [encode, dif_pos (by omega)]

/-- Which calls put no telegram on the wire does not depend on the sender. -/
theorem emission_eq_none_iff (sender : SafetySender) (c : SenderCall) :
    sender.emission c = none ↔ c.Oversized ∨ c.IsRestart := by
  cases c with
  | encode payload status out =>
    simp only [emission, encode_ok_iff, SenderCall.Oversized, SenderCall.IsRestart, or_false]
    split_ifs with hfits
    · exact iff_of_false id (by omega)
    · exact iff_of_true rfl (by omega)
  | restartSequence start => exact iff_of_true rfl (.inr trivial)

/-- A telegram bears the sender's number, and the sender moves on to the following one. -/
theorem call_of_emission {number : UInt32} (h : sender.emission c = some number) :
    number = sender.consecutiveNumber ∧
      (sender.call c).consecutiveNumber = following number := by
  cases c with
  | encode payload status out =>
    simp only [emission, encode_ok_iff] at h
    split_ifs at h with hfits
    rw [encode_view sender hfits, frame, receivedNumber_wire] at h
    obtain rfl := Option.some.inj h
    rw [call, encode_fst sender hfits]
    exact ⟨rfl, rfl⟩
  | restartSequence start => cases h

/-- A call that neither puts a telegram on the wire nor restarts leaves the sender as it is. -/
theorem call_of_silent (h : sender.emission c = none) (hc : ¬ c.IsRestart) :
    sender.call c = sender := by
  cases c with
  | encode payload status out =>
    simp only [emission, encode_ok_iff] at h
    split_ifs at h with hfits
    rw [call, encode_of_oversized hfits]
  | restartSequence start => exact absurd trivial hc

end Step

section History
variable (sender : SafetySender) (calls : ℕ → SenderCall)

/-- Neither a telegram nor a restart between calls `i` and `k`. -/
def QuietBetween (i k : ℕ) : Prop :=
  ∀ j, i < j → j < k → sender.emissionAt calls j = none ∧ ¬ (calls j).IsRestart

/-- No telegram bears the number zero, and two telegrams with no other telegram and no restart
between them bear numbers that follow each other in the cyclic order `1, …, 2 ^ 32 - 1, 1`. -/
structure WellNumbered : Prop where
  nonzero : ∀ n, sender.emissionAt calls n ≠ some 0
  consecutive : ∀ i k, i < k → sender.QuietBetween calls i k → ∀ first next,
    sender.emissionAt calls i = some first → sender.emissionAt calls k = some next →
      next.toNat = first.toNat % (2 ^ 32 - 1) + 1

variable {sender calls}

theorem quietBetween_iff {i k : ℕ} : sender.QuietBetween calls i k ↔
    ∀ j, i < j → j < k → (calls j).Oversized := by
  refine forall_congr' fun j => imp_congr_right fun _ => imp_congr_right fun _ => ?_
  rw [emissionAt, emission_eq_none_iff]
  cases calls j <;> simp [SenderCall.Oversized, SenderCall.IsRestart]

theorem QuietBetween.senderAt_eq {i k : ℕ} (h : sender.QuietBetween calls i k) (hik : i < k) :
    sender.senderAt calls k = sender.senderAt calls (i + 1) := by
  induction k, Nat.succ_le_of_lt hik using Nat.le_induction with
  | base => rfl
  | succ k hk ih =>
    obtain ⟨hsilent, hrestart⟩ := h k (by omega) (Nat.lt_succ_self k)
    have hbefore := ih (fun j hij hjk => h j hij (by omega)) (by omega)
    exact (call_of_silent hsilent hrestart).trans hbefore

theorem QuietBetween.succ {i k : ℕ} (h : sender.QuietBetween calls i k)
    (hsilent : sender.emissionAt calls k = none) (hrestart : ¬ (calls k).IsRestart) :
    sender.QuietBetween calls i (k + 1) := by
  intro j hij hjk
  rcases Nat.lt_succ_iff_lt_or_eq.mp hjk with hlt | rfl
  · exact h j hij hlt
  · exact ⟨hsilent, hrestart⟩

/-- The numbers after a telegram do not depend on the encodes that failed in between. -/
theorem emissionAt_following {i k : ℕ} (hik : i < k) (hquiet : sender.QuietBetween calls i k)
    {first next : UInt32} (hfirst : sender.emissionAt calls i = some first)
    (hnext : sender.emissionAt calls k = some next) : next = following first := by
  rw [(call_of_emission hnext).1, hquiet.senderAt_eq hik]
  exact (call_of_emission hfirst).2

/-- The sender holds the number zero only by a restart at zero that no telegram has used. -/
theorem exists_restart_of_zero (hstart : sender.consecutiveNumber ≠ 0) {n : ℕ}
    (hzero : (sender.senderAt calls n).consecutiveNumber = 0) :
    ∃ k < n, calls k = .restartSequence 0 ∧ sender.QuietBetween calls k n := by
  induction n with
  | zero => exact absurd hzero hstart
  | succ n ih =>
    have hstep : sender.senderAt calls (n + 1) = (sender.senderAt calls n).call (calls n) := rfl
    rw [hstep] at hzero
    cases hemission : sender.emissionAt calls n with
    | some number =>
      rw [(call_of_emission hemission).2] at hzero
      exact absurd hzero (following_ne_zero number)
    | none =>
      by_cases hrestart : (calls n).IsRestart
      · cases hc : calls n with
        | encode payload status out =>
          rw [hc] at hrestart
          exact hrestart.elim
        | restartSequence start =>
          rw [hc] at hzero
          obtain rfl : start = 0 := hzero
          exact ⟨n, Nat.lt_succ_self n, hc, fun j hj hjn => absurd hjn (by omega)⟩
      · rw [call_of_silent hemission hrestart] at hzero
        obtain ⟨k, hk, hc, hquiet⟩ := ih hzero
        exact ⟨k, hk.trans (Nat.lt_succ_self n), hc, hquiet.succ hemission hrestart⟩

theorem emissionAt_of_restart_zero {k n : ℕ} (hkn : k < n) (hc : calls k = .restartSequence 0)
    (hquiet : sender.QuietBetween calls k n) {number : UInt32}
    (hemission : sender.emissionAt calls n = some number) : number = 0 := by
  have hstep : sender.senderAt calls (k + 1) = (sender.senderAt calls k).call (calls k) := rfl
  rw [(call_of_emission hemission).1, hquiet.senderAt_eq hkn, hstep, hc]
  rfl

end History

/-- The telegrams of a sender are well numbered exactly when the first call after a restart at zero
that is not an encode of an oversized payload is another restart. -/
theorem wellNumbered_iff (address : SafetyAddress) (calls : ℕ → SenderCall) :
    ({ address } : SafetySender).WellNumbered calls ↔
      ∀ k n, k < n → calls k = .restartSequence 0 →
        (∀ j, k < j → j < n → (calls j).Oversized) →
        (calls n).Oversized ∨ (calls n).IsRestart := by
  constructor
  · intro hnumbered k n hkn hc hquiet
    rw [← emission_eq_none_iff (({ address } : SafetySender).senderAt calls n)]
    cases hemission : ({ address } : SafetySender).emissionAt calls n with
    | none => exact hemission
    | some number =>
      obtain rfl := emissionAt_of_restart_zero hkn hc (quietBetween_iff.mpr hquiet) hemission
      exact absurd hemission (hnumbered.nonzero n)
  · intro hunused
    constructor
    · intro n hzero
      have hfresh : ({ address } : SafetySender).consecutiveNumber ≠ 0 :=
        show (1 : UInt32) ≠ 0 by decide
      obtain ⟨k, hkn, hc, hquiet⟩ :=
        exists_restart_of_zero hfresh (call_of_emission hzero).1.symm
      have hsilent := hunused k n hkn hc (quietBetween_iff.mp hquiet)
      rw [← emission_eq_none_iff (({ address } : SafetySender).senderAt calls n)] at hsilent
      rw [emissionAt, hsilent] at hzero
      cases hzero
    · intro i k hik hquiet first next hfirst hnext
      rw [emissionAt_following hik hquiet hfirst hnext]
      exact following_toNat first

/-- A restart at zero, then a telegram. -/
def zeroCalls : ℕ → SenderCall
  | 0 => .restartSequence 0
  | _ => .encode [] 0 blankTelegram

theorem zero_on_the_wire :
    ({ address := {} } : SafetySender).emissionAt zeroCalls 1 = some 0 ∧
      ¬ ({ address := {} } : SafetySender).WellNumbered zeroCalls := by
  have hzero : ({ address := {} } : SafetySender).emissionAt zeroCalls 1 = some 0 := by
    decide +kernel
  exact ⟨hzero, fun hnumbered => hnumbered.nonzero 1 hzero⟩

end SafetySender
end SafeEdge.Safety
