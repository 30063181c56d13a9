import SafeEdge.Safety.Addressing
import SafeEdge.Safety.SenderRun

/-! A sender and a receiver of one relationship joined by an arbitrary network: what the
receiver accepts between two acknowledgements is an unbroken run of the telegrams sent. -/
namespace SafeEdge.Safety
open Library

/-- A telegram the sender has handed to the network. -/
structure SentTelegram where
  payload : List UInt8
  status : UInt8
  bytes : List UInt8

/-- An acceptance: the telegram delivered, when, and what the caller was given. -/
structure Acceptance where
  index : ℕ
  nowNs : ℤ
  payload : List UInt8
  status : UInt8

/-- Both ends of a relationship, the telegrams sent so far and the acceptances since the last
acknowledgement. -/
structure SafetyLink where
  sender : SafetySender
  receiver : SafetyReceiver
  sent : List SentTelegram := []
  accepted : List Acceptance := []

/-- What can happen next: the sender encodes, the network delivers any telegram sent so far,
or the receiving side polls or is acknowledged. -/
inductive LinkAction where
  | encode (payload : List UInt8) (status : UInt8) (out : Telegram)
  | deliver (index : ℕ) (nowNs : ℤ) (payloadOut : List UInt8)
  | poll (nowNs : ℤ)
  | acknowledgeAndReset (nowNs : ℤ)

namespace SafetyLink

/-- A sender started at `start` and a fresh receiver. -/
def construct (address : SafetyAddress) (start : UInt32) (watchdogNs : ℤ) : SafetyLink where
  sender := SafetySender.restartSequence { address } start
  receiver := SafetyReceiver.construct address watchdogNs

def encode (link : SafetyLink) (payload : List UInt8) (status : UInt8) (out : Telegram) :
    SafetyLink :=
  let result := link.sender.encode payload status out
  if result.2.1 then
    { link with
      sender := result.1
      sent := link.sent ++ [⟨payload, status, result.2.2.view⟩] }
  else { link with sender := result.1 }

def deliver (link : SafetyLink) (index : ℕ) (nowNs : ℤ) (payloadOut : List UInt8) :
    SafetyLink :=
  match link.sent[index]? with
  | none => link
  | some telegram =>
    let result := link.receiver.receive telegram.bytes nowNs payloadOut
    if result.2.status = .valid then
      { link with
        receiver := result.1
        accepted := link.accepted ++ [⟨index, nowNs,
          result.2.payloadOut.take result.2.payloadSize, result.2.statusOut⟩] }
    else { link with receiver := result.1 }

def act (link : SafetyLink) : LinkAction → SafetyLink
  | .encode payload status out => link.encode payload status out
  | .deliver index nowNs payloadOut => link.deliver index nowNs payloadOut
  | .poll nowNs => { link with receiver := (link.receiver.poll nowNs).1 }
  | .acknowledgeAndReset nowNs =>
    { link with receiver := link.receiver.acknowledgeAndReset nowNs, accepted := [] }

/-- The link before action `n`. -/
def linkAt (link : SafetyLink) (actions : ℕ → LinkAction) (n : ℕ) : SafetyLink :=
  stateAt act link actions n

/-- The telegrams sent carry consecutive numbers from `start` on. -/
structure Numbered (address : SafetyAddress) (start : UInt32) (link : SafetyLink) : Prop where
  sender_address : link.sender.address = address
  receiver_address : link.receiver.address = address
  number : link.sender.consecutiveNumber = following^[link.sent.length] start
  frames : ∀ k telegram, link.sent[k]? = some telegram →
    telegram.payload.length ≤ kMaxPayloadBytes ∧
      telegram.bytes = frame address telegram.payload telegram.status (following^[k] start)

/-- The acceptances of the current epoch are an unbroken run of the telegrams sent, delivered
unmodified and each within the watchdog window of the one before. -/
structure InOrder (watchdogNs : ℤ) (link : SafetyLink) : Prop where
  unbroken : ∃ first, link.accepted.map Acceptance.index =
    List.range' first link.accepted.length
  unmodified : ∀ acceptance ∈ link.accepted, ∃ telegram,
    link.sent[acceptance.index]? = some telegram ∧
      acceptance.payload = telegram.payload ∧ acceptance.status = telegram.status
  timely : link.accepted.IsChain fun earlier later => later.nowNs - earlier.nowNs ≤ watchdogNs

/-- The receiver remembers the last acceptance of the epoch. -/
structure Remembers (start : UInt32) (watchdogNs : ℤ) (link : SafetyLink) : Prop where
  watchdog : link.receiver.watchdogNs = watchdogNs
  last : ∀ acceptance, link.accepted.getLast? = some acceptance →
    link.receiver.synchronised = true ∧ link.receiver.lastValidNs = acceptance.nowNs ∧
      link.receiver.lastConsecutiveNumber = following^[acceptance.index] start

section Step
variable {address : SafetyAddress} {start : UInt32} {watchdogNs : ℤ} {link : SafetyLink}

theorem encode_of_oversized {payload : List UInt8} (h : ¬ payload.length ≤ kMaxPayloadBytes)
    (status : UInt8) (out : Telegram) : link.encode payload status out = link := by
  simp only [encode, SafetySender.encode_of_oversized h, Bool.false_eq_true, if_false]

theorem encode_of_fits {payload : List UInt8} (h : payload.length ≤ kMaxPayloadBytes)
    (status : UInt8) (out : Telegram) : link.encode payload status out =
      { link with
        sender := { link.sender with
          consecutiveNumber := following link.sender.consecutiveNumber }
        sent := link.sent ++ [⟨payload, status,
          frame link.sender.address payload status link.sender.consecutiveNumber⟩] } := by
  have hok := (link.sender.encode_ok_iff payload status out).mpr h
  simp only [encode, hok, if_true, encode_fst _ h, encode_view _ h]

theorem deliver_of_valid {index : ℕ} {nowNs : ℤ} {payloadOut : List UInt8}
    {telegram : SentTelegram} (hsent : link.sent[index]? = some telegram)
    (hvalid : (link.receiver.receive telegram.bytes nowNs payloadOut).2.status = .valid) :
    link.deliver index nowNs payloadOut =
      { link with
        receiver := link.receiver.accept (receivedNumber telegram.bytes) nowNs
        accepted := link.accepted ++ [⟨index, nowNs, receivedPayload telegram.bytes,
          receivedStatus telegram.bytes⟩] } := by
  have hcopy : (copyTo (receivedPayload telegram.bytes) payloadOut).take
      (telegram.bytes.length - kOverheadBytes) = receivedPayload telegram.bytes := by
    rw [← length_receivedPayload, copyTo, List.take_left]
  simp only [deliver, hsent, if_pos hvalid]
  rw [SafetyReceiver.receive_of_valid hvalid]
  simp only [hcopy]

/-- The ways a delivery can end. -/
inductive Delivery (link : SafetyLink) (index : ℕ) (nowNs : ℤ) (payloadOut : List UInt8) :
    SafetyLink → Prop
  | unsent : Delivery link index nowNs payloadOut link
  | rejected {raw : List UInt8}
      (hrejected : (link.receiver.receive raw nowNs payloadOut).2.status ≠ .valid) :
      Delivery link index nowNs payloadOut
        { link with receiver := (link.receiver.receive raw nowNs payloadOut).1 }
  | accepted {telegram : SentTelegram} (hsent : link.sent[index]? = some telegram)
      (hvalid : (link.receiver.receive telegram.bytes nowNs payloadOut).2.status = .valid) :
      Delivery link index nowNs payloadOut
        { link with
          receiver := link.receiver.accept (receivedNumber telegram.bytes) nowNs
          accepted := link.accepted ++ [⟨index, nowNs, receivedPayload telegram.bytes,
            receivedStatus telegram.bytes⟩] }

theorem deliver_delivery (link : SafetyLink) (index : ℕ) (nowNs : ℤ) (payloadOut : List UInt8) :
    Delivery link index nowNs payloadOut (link.deliver index nowNs payloadOut) := by
  cases hsent : link.sent[index]? with
  | none =>
    simp only [deliver, hsent]
    exact .unsent
  | some telegram =>
    by_cases hvalid : (link.receiver.receive telegram.bytes nowNs payloadOut).2.status = .valid
    · rw [deliver_of_valid hsent hvalid]
      exact .accepted hsent hvalid
    · simp only [deliver, hsent, if_neg hvalid]
      exact .rejected hvalid

theorem act_sent_length_le (link : SafetyLink) (action : LinkAction) :
    link.sent.length ≤ (link.act action).sent.length := by
  cases action with
  | encode payload status out =>
    by_cases h : payload.length ≤ kMaxPayloadBytes
    · simp [act, encode_of_fits h]
    · simp [act, encode_of_oversized h]
  | deliver index nowNs payloadOut =>
    have hdelivery := deliver_delivery link index nowNs payloadOut
    rw [act]
    generalize link.deliver index nowNs payloadOut = next at hdelivery
    cases hdelivery <;> exact le_rfl
  | poll nowNs => exact le_rfl
  | acknowledgeAndReset nowNs => exact le_rfl

theorem Numbered.of_sender_eq {next : SafetyLink} (h : Numbered address start link)
    (hsender : next.sender = link.sender) (hsent : next.sent = link.sent)
    (haddress : next.receiver.address = link.receiver.address) : Numbered address start next where
  sender_address := by rw [hsender, h.sender_address]
  receiver_address := by rw [haddress, h.receiver_address]
  number := by rw [hsender, hsent, h.number]
  frames := by rw [hsent]; exact h.frames

theorem Numbered.encode (h : Numbered address start link) (payload : List UInt8)
    (status : UInt8) (out : Telegram) :
    Numbered address start (link.encode payload status out) := by
  by_cases hfits : payload.length ≤ kMaxPayloadBytes
  · rw [encode_of_fits hfits]
    refine ⟨h.sender_address, h.receiver_address, ?_, ?_⟩
    · simp only [List.length_append, List.length_singleton]
      rw [h.number, Function.iterate_succ_apply']
    · intro k telegram hk
      simp only [List.getElem?_append] at hk
      split_ifs at hk with hold
      · exact h.frames k telegram hk
      · rw [List.getElem?_singleton] at hk
        split_ifs at hk with hindex
        obtain rfl : k = link.sent.length := by omega
        obtain rfl := Option.some.inj hk
        refine ⟨hfits, ?_⟩
        rw [h.sender_address, h.number]
  · rw [encode_of_oversized hfits]
    exact h

theorem Numbered.act (h : Numbered address start link) (action : LinkAction) :
    Numbered address start (link.act action) := by
  cases action with
  | encode payload status out => exact h.encode payload status out
  | deliver index nowNs payloadOut =>
    have hdelivery := deliver_delivery link index nowNs payloadOut
    rw [SafetyLink.act]
    generalize link.deliver index nowNs payloadOut = next at hdelivery
    cases hdelivery with
    | unsent => exact h
    | rejected hrejected => exact h.of_sender_eq rfl rfl SafetyReceiver.receive_address
    | accepted hsent hvalid => exact h.of_sender_eq rfl rfl rfl
  | poll nowNs => exact h.of_sender_eq rfl rfl (SafetyReceiver.poll_fields _ nowNs).2.2.2
  | acknowledgeAndReset nowNs => exact h.of_sender_eq rfl rfl rfl

/-- A genuine telegram that arrives in time and in sequence is accepted as it was encoded. -/
theorem receive_of_genuine (hnumbered : Numbered address start link) {index : ℕ} {nowNs : ℤ}
    {payloadOut : List UInt8} {telegram : SentTelegram}
    (hsent : link.sent[index]? = some telegram) (hclear : link.receiver.safeState = false)
    (hbuffer : telegram.payload.length ≤ payloadOut.length) (htime : link.receiver.Timely nowNs)
    (hseq : link.receiver.synchronised = true →
      following^[index] start = following link.receiver.lastConsecutiveNumber) :
    link.receiver.receive telegram.bytes nowNs payloadOut =
      (link.receiver.accept (following^[index] start) nowNs,
        { status := .valid
          payloadOut := copyTo telegram.payload payloadOut
          payloadSize := telegram.payload.length
          statusOut := telegram.status }) := by
  obtain ⟨hpayload, hframe⟩ := hnumbered.frames index telegram hsent
  rw [hframe, ← hnumbered.receiver_address]
  exact SafetyReceiver.receive_frame hpayload hbuffer telegram.status hclear htime hseq

theorem deliver_of_genuine (hnumbered : Numbered address start link) {index : ℕ} {nowNs : ℤ}
    {payloadOut : List UInt8} {telegram : SentTelegram}
    (hsent : link.sent[index]? = some telegram) (hclear : link.receiver.safeState = false)
    (hbuffer : telegram.payload.length ≤ payloadOut.length) (htime : link.receiver.Timely nowNs)
    (hseq : link.receiver.synchronised = true →
      following^[index] start = following link.receiver.lastConsecutiveNumber) :
    link.deliver index nowNs payloadOut =
      { link with
        receiver := link.receiver.accept (following^[index] start) nowNs
        accepted := link.accepted ++ [⟨index, nowNs, telegram.payload, telegram.status⟩] } := by
  have hresult := receive_of_genuine hnumbered hsent hclear hbuffer htime hseq
  have hcopy : (copyTo telegram.payload payloadOut).take telegram.payload.length =
      telegram.payload := List.take_left
  simp only [deliver, hsent, hresult, if_true, hcopy]

/-- More telegrams sent leave the acceptances of the epoch in order. -/
theorem InOrder.of_sent {next : SafetyLink} (h : InOrder watchdogNs link)
    (haccepted : next.accepted = link.accepted)
    (hsent : ∀ (k : ℕ) telegram, link.sent[k]? = some telegram →
      next.sent[k]? = some telegram) :
    InOrder watchdogNs next where
  unbroken := by rw [haccepted]; exact h.unbroken
  unmodified := by
    rw [haccepted]
    intro acceptance hmem
    obtain ⟨telegram, hk, hsame⟩ := h.unmodified acceptance hmem
    exact ⟨telegram, hsent _ _ hk, hsame⟩
  timely := by rw [haccepted]; exact h.timely

theorem Remembers.of_receiver {next : SafetyLink} (h : Remembers start watchdogNs link)
    (haccepted : next.accepted = link.accepted)
    (hwatchdog : next.receiver.watchdogNs = link.receiver.watchdogNs)
    (hsync : next.receiver.synchronised = link.receiver.synchronised)
    (htime : next.receiver.lastValidNs = link.receiver.lastValidNs)
    (hnumber : next.receiver.lastConsecutiveNumber = link.receiver.lastConsecutiveNumber) :
    Remembers start watchdogNs next where
  watchdog := hwatchdog.trans h.watchdog
  last := by
    rw [haccepted, hsync, htime, hnumber]
    exact h.last

/-- The telegram accepted next is the one sent after the last accepted. -/
theorem accepted_index_succ (hstart : start ≠ 0) (hnumbered : Numbered address start link)
    (hcount : link.sent.length ≤ 4294967294) (horder : InOrder watchdogNs link)
    (hlast : Remembers start watchdogNs link) {index : ℕ} {telegram : SentTelegram}
    (hsent : link.sent[index]? = some telegram)
    (hseq : link.receiver.InSequence telegram.bytes) {acceptance : Acceptance}
    (hacceptance : link.accepted.getLast? = some acceptance) : index = acceptance.index + 1 := by
  obtain ⟨hsync, _, hnumber⟩ := hlast.last acceptance hacceptance
  obtain ⟨earlier, hearlier, _⟩ :=
    horder.unmodified acceptance (List.mem_of_getLast? hacceptance)
  have hindex := (List.getElem?_eq_some_iff.mp hsent).1
  have hprevious := (List.getElem?_eq_some_iff.mp hearlier).1
  have hframe := (hnumbered.frames index telegram hsent).2
  have hnext := hseq hsync
  rw [hframe, frame, receivedNumber_wire, hnumber, ← Function.iterate_succ_apply' following]
    at hnext
  exact following_iterate_inj hstart (by omega) (by omega) hnext

theorem InOrder.accept (hstart : start ≠ 0) (hnumbered : Numbered address start link)
    (hcount : link.sent.length ≤ 4294967294) (horder : InOrder watchdogNs link)
    (hlast : Remembers start watchdogNs link) {index : ℕ} {nowNs : ℤ}
    {payloadOut : List UInt8} {telegram : SentTelegram}
    (hsent : link.sent[index]? = some telegram)
    (hvalid : (link.receiver.receive telegram.bytes nowNs payloadOut).2.status = .valid) :
    InOrder watchdogNs { link with
      receiver := link.receiver.accept (receivedNumber telegram.bytes) nowNs
      accepted := link.accepted ++ [⟨index, nowNs, receivedPayload telegram.bytes,
        receivedStatus telegram.bytes⟩] } := by
  obtain ⟨_, _, _, htime, hseq⟩ := (SafetyReceiver.receive_valid_iff _ _ _ _).mp hvalid
  have hframe := (hnumbered.frames index telegram hsent).2
  refine ⟨?_, ?_, ?_⟩
  · obtain ⟨first, hfirst⟩ := horder.unbroken
    rcases List.eq_nil_or_concat link.accepted with hnil | ⟨before, acceptance, hconcat⟩
    · refine ⟨index, ?_⟩
      simp [hnil]
    · rw [List.concat_eq_append] at hconcat
      have hindex := accepted_index_succ hstart hnumbered hcount horder hlast hsent hseq
        (show link.accepted.getLast? = some acceptance by simp [hconcat])
      refine ⟨first, ?_⟩
      have hprevious : acceptance.index = first + before.length := by
        rw [hconcat, List.map_append, List.length_append, List.length_singleton,
          List.range'_1_concat] at hfirst
        exact List.singleton_inj.mp (List.append_inj_right' hfirst rfl)
      simp only [List.map_append, List.length_append, List.length_singleton,
        List.range'_1_concat, hfirst, List.map_cons, List.map_nil]
      rw [hindex, hprevious, hconcat, List.length_append, List.length_singleton, Nat.add_assoc]
  · intro acceptance hmem
    rcases List.mem_append.mp hmem with hold | hnew
    · exact horder.unmodified acceptance hold
    · obtain rfl := List.mem_singleton.mp hnew
      refine ⟨telegram, hsent, ?_, ?_⟩
      · simp only [hframe, frame, receivedPayload_wire]
      · simp only [hframe, frame, receivedStatus_wire]
  · apply horder.timely.append (List.isChain_singleton _)
    intro earlier hearlier later hlater
    obtain ⟨hsync, hthen, _⟩ := hlast.last earlier hearlier
    obtain rfl := Option.some.inj hlater
    have hwindow := htime hsync
    rw [SafetyReceiver.Overdue, hthen, hlast.watchdog] at hwindow
    exact not_lt.mp hwindow

theorem Remembers.accept (hnumbered : Numbered address start link)
    (hlast : Remembers start watchdogNs link) {index : ℕ} {nowNs : ℤ}
    {telegram : SentTelegram} (hsent : link.sent[index]? = some telegram) :
    Remembers start watchdogNs { link with
      receiver := link.receiver.accept (receivedNumber telegram.bytes) nowNs
      accepted := link.accepted ++ [⟨index, nowNs, receivedPayload telegram.bytes,
        receivedStatus telegram.bytes⟩] } := by
  have hframe := (hnumbered.frames index telegram hsent).2
  refine ⟨hlast.watchdog, ?_⟩
  intro acceptance hacceptance
  rw [List.getLast?_concat] at hacceptance
  obtain rfl := Option.some.inj hacceptance
  refine ⟨rfl, rfl, ?_⟩
  rw [SafetyReceiver.accept, hframe, frame, receivedNumber_wire]

/-- One action keeps the epoch in order and remembered. -/
theorem InOrder.act (hstart : start ≠ 0) (hnumbered : Numbered address start link)
    (hcount : link.sent.length ≤ 4294967294) (horder : InOrder watchdogNs link)
    (hlast : Remembers start watchdogNs link) (action : LinkAction) :
    InOrder watchdogNs (link.act action) ∧ Remembers start watchdogNs (link.act action) := by
  cases action with
  | encode payload status out =>
    by_cases hfits : payload.length ≤ kMaxPayloadBytes
    · rw [SafetyLink.act, encode_of_fits hfits]
      refine ⟨horder.of_sent rfl ?_, hlast.of_receiver rfl rfl rfl rfl rfl⟩
      intro k telegram hk
      exact (List.getElem?_append_left (List.getElem?_eq_some_iff.mp hk).1).trans hk
    · rw [SafetyLink.act, encode_of_oversized hfits]
      exact ⟨horder, hlast⟩
  | deliver index nowNs payloadOut =>
    have hdelivery := deliver_delivery link index nowNs payloadOut
    rw [SafetyLink.act]
    generalize link.deliver index nowNs payloadOut = next at hdelivery
    cases hdelivery with
    | unsent => exact ⟨horder, hlast⟩
    | rejected hrejected =>
      obtain ⟨htime, hsync, hnumber⟩ := SafetyReceiver.receive_of_not_valid hrejected
      exact ⟨horder.of_sent rfl fun _ _ hk => hk,
        hlast.of_receiver rfl SafetyReceiver.receive_watchdogNs hsync htime hnumber⟩
    | accepted hsent hvalid =>
      exact ⟨horder.accept hstart hnumbered hcount hlast hsent hvalid,
        hlast.accept hnumbered hsent⟩
  | poll nowNs =>
    obtain ⟨htime, hsync, hwatchdog, _⟩ := SafetyReceiver.poll_fields link.receiver nowNs
    have hnumber := SafetyReceiver.poll_lastConsecutiveNumber link.receiver nowNs
    exact ⟨horder.of_sent rfl fun _ _ hk => hk,
      hlast.of_receiver rfl hwatchdog hsync htime hnumber⟩
  | acknowledgeAndReset nowNs =>
    refine ⟨⟨⟨0, rfl⟩, ?_, List.isChain_nil⟩, hlast.watchdog, ?_⟩
    · intro acceptance hmem
      exact absurd hmem List.not_mem_nil
    · intro acceptance hacceptance
      exact absurd hacceptance (by simp [SafetyLink.act])

end Step

section Run
variable (address : SafetyAddress) (start : UInt32) (watchdogNs : ℤ)
  (actions : ℕ → LinkAction)

theorem linkAt_numbered (n : ℕ) :
    Numbered address start ((construct address start watchdogNs).linkAt actions n) := by
  apply stateAt_invariant (fun _ (link : SafetyLink) => Numbered address start link)
  · refine ⟨rfl, rfl, rfl, ?_⟩
    intro k telegram hk
    exact absurd hk (by simp [construct])
  · intro k hk
    exact hk.act (actions k)

/-- Whatever the network drops, duplicates, reorders or delays, the receiver accepts between
two acknowledgements an unbroken run of the telegrams sent, in order, unmodified and without
a pause longer than the watchdog, as long as at most `2 ^ 32 - 2` telegrams were sent. -/
theorem stream_in_order (hstart : start ≠ 0) (n : ℕ)
    (hcount : ((construct address start watchdogNs).linkAt actions n).sent.length ≤
      2 ^ 32 - 2) :
    InOrder watchdogNs ((construct address start watchdogNs).linkAt actions n) := by
  have hinvariant : ((construct address start watchdogNs).linkAt actions n).sent.length ≤
      4294967294 →
      InOrder watchdogNs ((construct address start watchdogNs).linkAt actions n) ∧
        Remembers start watchdogNs ((construct address start watchdogNs).linkAt actions n) := by
    apply stateAt_invariant (fun _ (link : SafetyLink) => link.sent.length ≤ 4294967294 →
      InOrder watchdogNs link ∧ Remembers start watchdogNs link)
    · intro _
      refine ⟨⟨⟨0, rfl⟩, ?_, List.isChain_nil⟩, rfl, ?_⟩
      · intro acceptance hmem
        exact absurd hmem List.not_mem_nil
      · intro acceptance hacceptance
        exact absurd hacceptance (by simp [construct])
    · intro k hk hlength
      have hbefore := (act_sent_length_le _ (actions k)).trans hlength
      obtain ⟨horder, hlast⟩ := hk hbefore
      exact horder.act hstart (linkAt_numbered address start watchdogNs actions k) hbefore hlast
        (actions k)
  exact (hinvariant hcount).1

end Run

/-- Two telegrams sent and delivered in order. -/
def healthyActions : ℕ → LinkAction
  | 0 => .encode [0x11] 0 {}
  | 1 => .encode [0x22] 0 {}
  | 2 => .deliver 0 0 [0]
  | 3 => .deliver 1 5 [0]
  | _ => .poll 10

theorem stream_in_order_healthyActions :
    (((construct {} 1 10).linkAt healthyActions 4).accepted.map Acceptance.index = [0, 1]) ∧
      InOrder 10 ((construct {} 1 10).linkAt healthyActions 4) := by
  have hrun : ((construct {} 1 10).linkAt healthyActions 4).accepted.map Acceptance.index =
        [0, 1] ∧
      ((construct {} 1 10).linkAt healthyActions 4).sent.length = 2 := by decide +kernel
  refine ⟨hrun.1, stream_in_order {} 1 10 healthyActions (by decide) 4 ?_⟩
  rw [hrun.2]
  decide

/-- A whole cycle of telegrams is sent before the last and then the first of them arrive. -/
def wrapActions (count : ℕ) (k : ℕ) : LinkAction :=
  if k < count then .encode [] 0 {}
  else if k = count then .deliver (count - 1) 0 (List.replicate kMaxPayloadBytes 0)
  else .deliver 0 0 (List.replicate kMaxPayloadBytes 0)

theorem linkAt_wrapActions (count : ℕ) {k : ℕ} (hk : k ≤ count) :
    ((construct {} 1 0).linkAt (wrapActions count) k).sent.length = k ∧
      ((construct {} 1 0).linkAt (wrapActions count) k).receiver =
        SafetyReceiver.construct {} 0 ∧
      ((construct {} 1 0).linkAt (wrapActions count) k).accepted = [] := by
  induction k with
  | zero => exact ⟨rfl, rfl, rfl⟩
  | succ k ih =>
    obtain ⟨hlength, hreceiver, haccepted⟩ := ih (by omega)
    have hact : (construct {} 1 0).linkAt (wrapActions count) (k + 1) =
        ((construct {} 1 0).linkAt (wrapActions count) k).encode [] 0 {} := by
      rw [linkAt, stateAt_succ, wrapActions, if_pos (by omega)]
      rfl
    rw [hact, encode_of_fits (Nat.zero_le _)]
    exact ⟨by simp [hlength], hreceiver, haccepted⟩

/-- When the number after the last telegram of a cycle is that of the first, the first is
accepted after the last. -/
theorem accepted_wrapActions {count : ℕ} (hpos : 0 < count)
    (hwrap : following (following^[count - 1] 1) = 1) :
    ((construct {} 1 0).linkAt (wrapActions count) (count + 2)).sent.length = count ∧
      ((construct {} 1 0).linkAt (wrapActions count) (count + 2)).accepted.map
        Acceptance.index = [count - 1, 0] := by
  obtain ⟨hlength, hreceiver, haccepted⟩ := linkAt_wrapActions count le_rfl
  have hnumbered := linkAt_numbered {} 1 0 (wrapActions count) count
  have hsteps : (construct {} 1 0).linkAt (wrapActions count) (count + 2) =
      (((construct {} 1 0).linkAt (wrapActions count) count).deliver (count - 1) 0
        (List.replicate kMaxPayloadBytes 0)).deliver 0 0 (List.replicate kMaxPayloadBytes 0) := by
    rw [linkAt, stateAt_succ, stateAt_succ, wrapActions, wrapActions, if_neg (by omega),
      if_pos rfl, if_neg (by omega), if_neg (by omega)]
    rfl
  rw [hsteps]
  generalize (construct {} 1 0).linkAt (wrapActions count) count = link at *
  obtain ⟨last, hlast⟩ : ∃ last, link.sent[count - 1]? = some last :=
    ⟨_, List.getElem?_eq_getElem (by omega)⟩
  obtain ⟨first, hfirst⟩ : ∃ first, link.sent[0]? = some first :=
    ⟨_, List.getElem?_eq_getElem (by omega)⟩
  have hfits : ∀ (k : ℕ) telegram, link.sent[k]? = some telegram →
      telegram.payload.length ≤ (List.replicate kMaxPayloadBytes (0 : UInt8)).length := by
    intro k telegram hk
    rw [List.length_replicate]
    exact (hnumbered.frames k telegram hk).1
  have hfresh : link.receiver.safeState = false ∧ ¬ link.receiver.synchronised = true := by
    rw [hreceiver]
    exact ⟨rfl, Bool.false_ne_true⟩
  have hone : link.deliver (count - 1) 0 (List.replicate kMaxPayloadBytes 0) = _ :=
    deliver_of_genuine hnumbered hlast hfresh.1 (hfits _ _ hlast)
      (fun h => absurd h hfresh.2) fun h => absurd h hfresh.2
  have hnumbered' : Numbered {} 1 (link.deliver (count - 1) 0
      (List.replicate kMaxPayloadBytes 0)) := hnumbered.act (.deliver _ _ _)
  rw [hone] at hnumbered' ⊢
  rw [deliver_of_genuine hnumbered' hfirst hfresh.1 (hfits _ _ hfirst) ?_ ?_]
  · simp [hlength, haccepted]
  · intro _
    simp [SafetyReceiver.Overdue, SafetyReceiver.accept, hreceiver, SafetyReceiver.construct]
  · intro _
    exact hwrap.symm

/-- With `2 ^ 32 - 1` telegrams the first one sent is accepted after the last. -/
theorem full_cycle_accepted :
    ((construct {} 1 0).linkAt (wrapActions (2 ^ 32 - 1)) (2 ^ 32 - 1 + 2)).sent.length =
        2 ^ 32 - 1 ∧
      ((construct {} 1 0).linkAt (wrapActions (2 ^ 32 - 1)) (2 ^ 32 - 1 + 2)).accepted.map
        Acceptance.index = [2 ^ 32 - 2, 0] := by
  apply accepted_wrapActions (by decide)
  have hlast : (following^[2 ^ 32 - 1 - 1] 1).toNat = 2 ^ 32 - 1 := by
    rw [following_iterate_toNat (by decide)]
    rfl
  rw [UInt32.toNat_inj.mp (hlast.trans (show _ = (0xFFFFFFFF : UInt32).toNat from rfl))]
  decide

end SafetyLink
end SafeEdge.Safety
