import SafeEdge.Opcua.Publisher

/-! An event on its way to a subscriber: the calls of the stack that fire it, and the callback of
the probe that counts what it is told. -/
namespace SafeEdge.Opcua

/-- The fields of an event, in the order in which they are written. -/
inductive EventField where
  | transitionMonotonicNs
  | safetySequence
  | missedTransitions
  | safetyState
  | torquePermitted
  | severity
  | message
  deriving DecidableEq

/-- What the calls of the stack return that fire one event. -/
structure FireCalls where
  created : Bool
  writes : EventField → Bool
  triggered : Bool

/-- What a subscriber gets: a field that was not written is empty. -/
structure FiredEvent where
  transitionMonotonicNs : Option Int64
  safetySequence : Option UInt64
  missedTransitions : Option UInt64
  safetyState : Option UInt32
  torquePermitted : Option Bool
  severity : Option UInt16
  message : Option String
  deriving DecidableEq

namespace SafetyTransitionEvent
variable (event : SafetyTransitionEvent)

def severity : UInt16 := if event.torquePermitted then 100 else 500

def message : String :=
  "safety transition: torque " ++
    (if event.torquePermitted then "permitted" else "not permitted") ++ ", sequence " ++
    toString event.safetySequence.toNat ++
    (if event.missedTransitions > 0 then
      ", " ++ toString event.missedTransitions.toNat ++ " transition(s) coalesced"
    else "")

/-- The five fields of its own are written until a write fails. -/
def fields (writes : EventField → Bool) : FiredEvent :=
  let instant := writes .transitionMonotonicNs
  let sequence := instant && writes .safetySequence
  let missed := sequence && writes .missedTransitions
  let state := missed && writes .safetyState
  let torque := state && writes .torquePermitted
  { transitionMonotonicNs := if instant then some event.transitionMonotonicNs else none
    safetySequence := if sequence then some event.safetySequence else none
    missedTransitions := if missed then some event.missedTransitions else none
    safetyState := if state then some event.safetyState else none
    torquePermitted := if torque then some event.torquePermitted else none
    severity := if writes .severity then some event.severity else none
    message := if writes .message then some event.message else none }

end SafetyTransitionEvent

/-- The event that reaches the subscribers, and what the caller is told. A field that cannot be
written does not keep the event from being triggered. -/
def fireSafetyTransition (namespaceIndex : UInt16) (event : SafetyTransitionEvent)
    (calls : FireCalls) : Option FiredEvent × Bool :=
  if namespaceIndex = 0 then (none, false)
  else if !calls.created then (none, false)
  else
    let fired := event.fields calls.writes
    (if calls.triggered then some fired else none,
      fired.torquePermitted.isSome && fired.severity.isSome && fired.message.isSome &&
        calls.triggered)

/-- Whoever is told that the event was fired can rely on every field having been sent. -/
theorem fireSafetyTransition_true {namespaceIndex : UInt16} {event : SafetyTransitionEvent}
    {calls : FireCalls} (h : (fireSafetyTransition namespaceIndex event calls).2 = true) :
    (fireSafetyTransition namespaceIndex event calls).1 =
      some
        { transitionMonotonicNs := some event.transitionMonotonicNs
          safetySequence := some event.safetySequence
          missedTransitions := some event.missedTransitions
          safetyState := some event.safetyState
          torquePermitted := some event.torquePermitted
          severity := some event.severity
          message := some event.message } := by
  unfold fireSafetyTransition at h ⊢
  split_ifs at h ⊢ <;> simp_all [SafetyTransitionEvent.fields]

/-- A number of missed transitions that is sent at all is the event's. -/
theorem fields_missedTransitions (event : SafetyTransitionEvent) (writes : EventField → Bool) :
    (event.fields writes).missedTransitions = none ∨
      (event.fields writes).missedTransitions = some event.missedTransitions := by
  simp only [SafetyTransitionEvent.fields]
  split_ifs <;> simp

/-- What the probe has counted from its event subscription. -/
structure EventProbe where
  eventLatencies : List UInt64 := []
  eventsReceived : UInt64 := 0
  eventsCoalescedByServer : UInt64 := 0
  deriving DecidableEq

/-- The callback of the probe, called at the instant given. -/
def EventProbe.onSafetyEvent (probe : EventProbe) (fields : FiredEvent) (now : UInt64) :
    EventProbe :=
  let received := { probe with
    eventsReceived := probe.eventsReceived + 1
    eventsCoalescedByServer :=
      probe.eventsCoalescedByServer + fields.missedTransitions.getD 0 }
  match fields.transitionMonotonicNs with
  | none => received
  | some instant =>
    let transition := instant.toUInt64
    if transition > 0 ∧ now > transition then
      { received with eventLatencies := received.eventLatencies ++ [now - transition] }
    else received

theorem EventProbe.onSafetyEvent_counts (probe : EventProbe) (fields : FiredEvent) (now : UInt64) :
    (probe.onSafetyEvent fields now).eventsReceived = probe.eventsReceived + 1 ∧
      (probe.onSafetyEvent fields now).eventsCoalescedByServer =
        probe.eventsCoalescedByServer + fields.missedTransitions.getD 0 := by
  simp only [onSafetyEvent]
  cases fields.transitionMonotonicNs with
  | none => exact ⟨rfl, rfl⟩
  | some instant =>
    simp only
    split_ifs <;> exact ⟨rfl, rfl⟩

end SafeEdge.Opcua
