import SafeEdge.Apps.TransitionCount
import SafeEdge.Ipc.StoredSequence
import SafeEdge.Opcua.DeadRuntime
import SafeEdge.Opcua.EventProbe

/-! Transitions from the control loop to a subscriber: the loop stores its snapshots, the publisher
loads them and fires events, and a client counts the events it is sent. -/
namespace SafeEdge.Apps
open Library Edge Ipc Opcua

/-- What happens to the event of one iteration: the calls that fire it, whether the subscription's
queue takes it, and the client's clock when it hears of it. -/
structure EventCalls where
  fire : FireCalls
  queued : Bool
  now : UInt64

/-- One access of the runtime or of the publisher. -/
inductive SessionTurn where
  | runtime (snapshot : RuntimeSnapshot)
  | publisher (calls : EventCalls)

/-- The publisher against its slot, the namespace it has registered, the probe that listens, the
numbers of the first and of the last snapshot that was loaded, and the transitions that the probe
was not told about. -/
structure EventSession where
  loop : PublisherLoop := {}
  namespaceIndex : UInt16 := 1
  probe : EventProbe := {}
  polled : Option (ℕ × ℕ) := none
  unheard : ℕ := 0

namespace EventSession
variable (session : EventSession)

/-- What the client gets of an event. -/
def heard (event : SafetyTransitionEvent) (calls : EventCalls) : Option FiredEvent :=
  if calls.queued then (fireSafetyTransition session.namespaceIndex event calls.fire).1 else none

/-- The event that the publisher's next access builds, if any. -/
def announced : Option SafetyTransitionEvent :=
  (session.loop.step (.publisher true)).2.bind Iteration.delivered

/-- The transitions that an event stands for and the client does not learn of. -/
def unheardOf (event : SafetyTransitionEvent) (calls : EventCalls) : ℕ :=
  match session.heard event calls with
  | none => event.missedTransitions.toNat + 1
  | some fields => event.missedTransitions.toNat - (fields.missedTransitions.getD 0).toNat

/-- The first and the last snapshot after another load. -/
def extend (polled : Option (ℕ × ℕ)) (source : ℕ) : ℕ × ℕ :=
  ((polled.map Prod.fst).getD source, source)

def step : SessionTurn → EventSession
  | .runtime snapshot => { session with loop := (session.loop.step (.runtime snapshot)).1 }
  | .publisher calls =>
    let (loop, iteration) :=
      session.loop.step (.publisher (calls.fire.created && calls.fire.triggered))
    let polled :=
      if iteration.any Iteration.fresh then
        some (extend session.polled (session.loop.execution.published.length - 1))
      else session.polled
    match session.announced with
    | none => { session with loop, polled }
    | some event =>
      { session with
        loop
        polled
        probe :=
          match session.heard event calls with
          | none => session.probe
          | some fields => session.probe.onSafetyEvent fields calls.now
        unheard := session.unheard + session.unheardOf event calls }

/-- The session before turn `n` of a schedule. -/
def sessionAt (schedule : ℕ → SessionTurn) (n : ℕ) : EventSession :=
  stateAt step session schedule n

end EventSession

theorem observe_fst (publisher : Publisher) (snapshot : RuntimeSnapshot) :
    (publisher.observe snapshot).1 =
      { haveSequence := true, lastSequence := snapshot.safetySequence } := by
  obtain ⟨haveSequence, lastSequence⟩ := publisher
  cases haveSequence with
  | false => rfl
  | true =>
    simp only [Publisher.observe, Bool.not_true, Bool.false_eq_true, if_false]
    split_ifs with hmoved
    · rfl
    · rw [not_not.mp hmoved]

theorem observe_snd (publisher : Publisher) (snapshot : RuntimeSnapshot) :
    (publisher.observe snapshot).2 =
      if publisher.haveSequence = true ∧ snapshot.safetySequence ≠ publisher.lastSequence then
        some (describeTransition snapshot publisher.lastSequence)
      else none := by
  obtain ⟨haveSequence, lastSequence⟩ := publisher
  cases haveSequence with
  | false => rfl
  | true =>
    simp only [Publisher.observe, Bool.not_true, Bool.false_eq_true, if_false, true_and]
    split_ifs <;> rfl

namespace EventSession
variable (session : EventSession)

/-- The slot and its threads after the publisher's next access. -/
def loading : Execution Unit RuntimeSnapshot × Event :=
  session.loop.execution.step (.reader () {} 32)

def snapshot : RuntimeSnapshot := (session.loading.1.readers ()).out

/-- What an access of the publisher can do. -/
inductive PublisherOutcome (calls : EventCalls) : EventSession → Prop
  | quiet {loop : PublisherLoop} (hexecution : loop.execution = session.loading.1)
      (hpublisher : loop.publisher = session.loop.publisher) :
      PublisherOutcome calls { session with loop }
  | seen {loop : PublisherLoop} (hloaded : session.loading.2 = .loaded true)
      (hexecution : loop.execution = session.loading.1)
      (hpublisher : loop.publisher =
        { haveSequence := true, lastSequence := session.snapshot.safetySequence })
      (hsame : session.loop.publisher.haveSequence = true →
        session.snapshot.safetySequence = session.loop.publisher.lastSequence) :
      PublisherOutcome calls
        { session with
          loop
          polled := some
            (extend session.polled (session.loop.execution.published.length - 1)) }
  | fired {loop : PublisherLoop} {event : SafetyTransitionEvent}
      (hloaded : session.loading.2 = .loaded true)
      (hexecution : loop.execution = session.loading.1)
      (hpublisher : loop.publisher =
        { haveSequence := true, lastSequence := session.snapshot.safetySequence })
      (hseeded : session.loop.publisher.haveSequence = true)
      (hmoved : session.snapshot.safetySequence ≠ session.loop.publisher.lastSequence)
      (hevent : event =
        describeTransition session.snapshot session.loop.publisher.lastSequence)
      (hannounced : session.announced = some event) :
      PublisherOutcome calls
        { session with
          loop
          polled := some (extend session.polled (session.loop.execution.published.length - 1))
          probe :=
            match session.heard event calls with
            | none => session.probe
            | some fields => session.probe.onSafetyEvent fields calls.now
          unheard := session.unheard + session.unheardOf event calls }

theorem step_publisher_outcome (calls : EventCalls) :
    session.PublisherOutcome calls (session.step (.publisher calls)) := by
  cases hevent : session.loading.2 with
  | running | stored =>
    have hstep (fires : Bool) : session.loop.step (.publisher fires) =
        ({ session.loop with execution := session.loading.1 }, none) := by
      rw [loading] at hevent
      simp only [PublisherLoop.step, hevent, loading]
    have hnone : session.announced = none := by rw [announced, hstep, Option.bind_none]
    simp only [step, hstep, hnone, Option.any_none, Bool.false_eq_true, if_false]
    exact .quiet rfl rfl
  | loaded fresh =>
    have hstep (fires : Bool) : session.loop.step (.publisher fires) =
        let next := ({ session.loop with execution := session.loading.1 } : PublisherLoop).afterLoad
          session.snapshot fresh fires
        (next.1, some next.2) := by
      rw [loading] at hevent
      simp only [PublisherLoop.step, hevent, loading, snapshot]
    cases fresh with
    | false =>
      have hnone : session.announced = none := by
        rw [announced, hstep]
        rfl
      simp only [step, hstep, hnone]
      exact .quiet rfl rfl
    | true =>
      have hannounced :
          session.announced = (session.loop.publisher.observe session.snapshot).2 := by
        rw [announced, hstep]
        rfl
      have hpublisher (fires : Bool) :
          (session.loop.step (.publisher fires)).1.publisher =
            { haveSequence := true, lastSequence := session.snapshot.safetySequence } := by
        rw [hstep]
        exact observe_fst session.loop.publisher session.snapshot
      have hexecution (fires : Bool) :
          (session.loop.step (.publisher fires)).1.execution = session.loading.1 := by
        rw [hstep]
        rfl
      have hfresh (fires : Bool) :
          (session.loop.step (.publisher fires)).2.any Iteration.fresh = true := by
        rw [hstep]
        rfl
      have hbuilt := observe_snd session.loop.publisher session.snapshot
      by_cases hfires : session.loop.publisher.haveSequence = true ∧
          session.snapshot.safetySequence ≠ session.loop.publisher.lastSequence
      · rw [if_pos hfires] at hbuilt
        have hsome := hannounced.trans hbuilt
        simp only [step, hfresh, if_true, hsome]
        exact .fired hevent (hexecution _) (hpublisher _) hfires.1 hfires.2 rfl hsome
      · rw [if_neg hfires] at hbuilt
        simp only [step, hfresh, if_true, hannounced.trans hbuilt]
        refine .seen hevent (hexecution _) (hpublisher _) fun hseeded => ?_
        by_contra hmoved
        exact hfires ⟨hseeded, hmoved⟩

/-- What the probe has counted, and what it was not told. -/
def total : ℕ :=
  session.probe.eventsReceived.toNat + session.probe.eventsCoalescedByServer.toNat +
    session.unheard

/-- The account of the session against the run of the control loop. -/
def Balanced (boot : Boot) (cycles : ℕ → SupervisedCycle) : Prop :=
  match session.polled with
  | none => session.loop.publisher.haveSequence = false ∧ session.total = 0
  | some (first, last) => session.loop.publisher =
        { haveSequence := true, lastSequence := (boot.publishedAt cycles last).safetySequence } ∧
      first ≤ last ∧ last ≤ session.loop.execution.published.length - 1 ∧
      session.total = transitionsBetween cycles first last

structure Accounted (boot : Boot) (cycles : ℕ → SupervisedCycle) : Prop where
  consistent : session.loop.execution.Consistent
  follows : session.loop.execution.FollowsSequence (boot.publishedAt cycles)
  balanced : session.Balanced boot cycles

variable {session : EventSession} {boot : Boot} {cycles : ℕ → SupervisedCycle}

theorem heard_missedTransitions {event : SafetyTransitionEvent} {calls : EventCalls}
    {fields : FiredEvent} (h : session.heard event calls = some fields) :
    fields.missedTransitions = none ∨ fields.missedTransitions = some event.missedTransitions := by
  unfold heard fireSafetyTransition at h
  split_ifs at h
  rw [← Option.some.inj h]
  exact fields_missedTransitions event calls.fire.writes

/-- An event adds what it stands for to the account. -/
theorem total_fired (event : SafetyTransitionEvent) (calls : EventCalls)
    (hfits : session.total + event.missedTransitions.toNat + 1 < 2 ^ 64) (loop : PublisherLoop)
    (polled : Option (ℕ × ℕ)) :
    total
      { session with
        loop
        polled
        probe :=
          match session.heard event calls with
          | none => session.probe
          | some fields => session.probe.onSafetyEvent fields calls.now
        unheard := session.unheard + session.unheardOf event calls } =
      session.total + (event.missedTransitions.toNat + 1) := by
  simp only [total] at hfits ⊢
  cases hheard : session.heard event calls with
  | none =>
    simp only [unheardOf, hheard]
    omega
  | some fields =>
    obtain ⟨hreceived, hcoalesced⟩ := session.probe.onSafetyEvent_counts fields calls.now
    have hnumber : (fields.missedTransitions.getD 0).toNat ≤ event.missedTransitions.toNat := by
      rcases heard_missedTransitions hheard with hnone | hsome
      · rw [hnone]
        exact Nat.zero_le _
      · rw [hsome, Option.getD_some]
    simp only [unheardOf, hheard, hreceived, hcoalesced, UInt64.toNat_add, UInt64.toNat_one]
    omega

/-- The snapshot that a successful load returns. -/
theorem Accounted.snapshot_eq (h : session.Accounted boot cycles)
    (hloaded : session.loading.2 = .loaded true) :
    session.snapshot =
      boot.publishedAt cycles (session.loop.execution.published.length - 1) :=
  (h.consistent.accepts hloaded).1.trans (h.follows.latest_eq rfl)

theorem Balanced.unseeded (h : session.Balanced boot cycles) (hnone : session.polled = none) :
    session.loop.publisher.haveSequence = false := by
  simp only [Balanced, hnone] at h
  exact h.1

theorem Balanced.total_of_none (h : session.Balanced boot cycles)
    (hnone : session.polled = none) : session.total = 0 := by
  simp only [Balanced, hnone] at h
  exact h.2

theorem Balanced.of_some (h : session.Balanced boot cycles) {first last : ℕ}
    (hpolled : session.polled = some (first, last)) :
    session.loop.publisher =
        { haveSequence := true, lastSequence := (boot.publishedAt cycles last).safetySequence } ∧
      first ≤ last ∧ last ≤ session.loop.execution.published.length - 1 ∧
      session.total = transitionsBetween cycles first last := by
  simp only [Balanced, hpolled] at h
  exact h

theorem Balanced.of_eq {next : EventSession} (h : session.Balanced boot cycles)
    (hpolled : next.polled = session.polled) (htotal : next.total = session.total)
    (hpublisher : next.loop.publisher = session.loop.publisher)
    (hlength : session.loop.execution.published.length ≤ next.loop.execution.published.length) :
    next.Balanced boot cycles := by
  unfold Balanced at h ⊢
  rw [hpolled, htotal, hpublisher]
  cases hcase : session.polled with
  | none => simpa only [hcase] using h
  | some bounds =>
    simp only [hcase] at h ⊢
    obtain ⟨hseen, hfirst, hlast, hsum⟩ := h
    exact ⟨hseen, hfirst, by omega, hsum⟩

/-- A successful load closes the account at the snapshot it returns. -/
theorem Balanced.loaded {next : EventSession} (h : session.Balanced boot cycles)
    {source : ℕ} (hsource : source = session.loop.execution.published.length - 1)
    (hpolled : next.polled = some (extend session.polled source))
    (hlength : next.loop.execution.published.length =
      session.loop.execution.published.length)
    (hpublisher : next.loop.publisher =
      { haveSequence := true, lastSequence := (boot.publishedAt cycles source).safetySequence })
    (hfirst : session.polled = none → next.total = 0)
    (htotal : ∀ first last, session.polled = some (first, last) → last ≤ source →
      next.total = session.total + transitionsBetween cycles last source) :
    next.Balanced boot cycles := by
  unfold Balanced at h ⊢
  cases hcase : session.polled with
  | none =>
    simp only [hpolled, hcase, extend, Option.map_none, Option.getD_none]
    exact ⟨hpublisher, le_rfl, by omega, by rw [hfirst hcase, transitionsBetween_self]⟩
  | some bounds =>
    obtain ⟨first, last⟩ := bounds
    simp only [hcase] at h
    obtain ⟨_, hle, hlast, hsum⟩ := h
    simp only [hpolled, hcase, extend, Option.map_some, Option.getD_some]
    refine ⟨hpublisher, by omega, by omega, ?_⟩
    rw [htotal first last hcase (by omega), hsum]
    exact (transitionsBetween_add cycles hle (by omega)).symm

theorem Accounted.step (h : session.Accounted boot cycles) {turn : SessionTurn}
    (hnext : ∀ snapshot, turn = .runtime snapshot →
      snapshot = boot.publishedAt cycles session.loop.execution.published.length)
    (hcount : (session.step turn).loop.execution.stores < 2 ^ 63) :
    (session.step turn).Accounted boot cycles := by
  cases turn with
  | runtime snapshot =>
    refine ⟨h.consistent.step _ hcount, h.follows.step fun value hvalue => ?_, ?_⟩
    · rw [← Turn.writer.inj hvalue]
      exact hnext snapshot rfl
    · exact h.balanced.of_eq rfl rfl rfl (Execution.published_step _ _)
  | publisher calls =>
    have hout := session.step_publisher_outcome calls
    generalize session.step (.publisher calls) = next at hout hcount
    have hstores : session.loading.1.stores < 2 ^ 63 := by
      cases hout with
      | quiet hexecution | seen _ hexecution | fired _ hexecution => rwa [← hexecution]
    have hconsistent : session.loading.1.Consistent := h.consistent.step _ hstores
    have hfollows : session.loading.1.FollowsSequence (boot.publishedAt cycles) :=
      h.follows.step fun _ hvalue => nomatch hvalue
    have hlength : session.loading.1.published.length =
        session.loop.execution.published.length := rfl
    have hsource : session.loop.execution.published.length - 1 < 2 ^ 63 := by
      have := session.loading.1.length_le_stores
      omega
    cases hout with
    | quiet hexecution hpublisher =>
      refine ⟨by rwa [hexecution], by rwa [hexecution], ?_⟩
      exact h.balanced.of_eq rfl rfl hpublisher (by rw [hexecution, hlength])
    | seen hloaded hexecution hpublisher hsame =>
      refine ⟨by rwa [hexecution], by rwa [hexecution], ?_⟩
      rw [h.snapshot_eq hloaded] at hpublisher hsame
      refine h.balanced.loaded rfl rfl (by rw [hexecution, hlength]) hpublisher
        (fun hnone => h.balanced.total_of_none hnone) fun first last hpolled hle => ?_
      obtain ⟨hseen, _, _, _⟩ := h.balanced.of_some hpolled
      rw [hseen] at hsame
      have hquiet := (boot.safetySequence_eq_iff cycles hle (by omega)).mp (hsame rfl)
      rw [hquiet, Nat.add_zero]
      rfl
    | fired hloaded hexecution hpublisher hseeded hmoved hevent _ =>
      refine ⟨by rwa [hexecution], by rwa [hexecution], ?_⟩
      rw [h.snapshot_eq hloaded] at hpublisher hmoved hevent
      refine h.balanced.loaded rfl rfl (by rw [hexecution, hlength]) hpublisher
        (fun hnone => ?_) fun first last hpolled hle => ?_
      · rw [h.balanced.unseeded hnone] at hseeded
        cases hseeded
      · obtain ⟨hseen, hfirst, _, htotal⟩ := h.balanced.of_some hpolled
        rw [hseen] at hmoved hevent
        have hmissed := missedTransitions_describe boot cycles hle (by omega)
        rw [← hevent] at hmissed
        have hpos : transitionsBetween cycles last
            (session.loop.execution.published.length - 1) ≠ 0 := fun hzero =>
          hmoved ((boot.safetySequence_eq_iff cycles hle (by omega)).mpr hzero)
        have hsum := transitionsBetween_le cycles first last
        have hmore := transitionsBetween_le cycles last
          (session.loop.execution.published.length - 1)
        rw [total_fired _ _ (by omega)]
        omega

theorem stores_step_le (session : EventSession) (turn : SessionTurn) :
    session.loop.execution.stores ≤ (session.step turn).loop.execution.stores := by
  cases turn with
  | runtime snapshot => exact Execution.stores_step _ _
  | publisher calls =>
    have hmore : session.loop.execution.stores ≤ session.loading.1.stores :=
      Execution.stores_step _ _
    have hout := session.step_publisher_outcome calls
    generalize session.step (.publisher calls) = next at hout
    cases hout with
    | quiet hexecution | seen _ hexecution | fired _ hexecution => rwa [hexecution]

/-- The publisher was told that the event was fired, and the queue took it. -/
def Conveyed (session : EventSession) (turn : SessionTurn) : Prop :=
  ∀ calls event, turn = .publisher calls → session.announced = some event →
    calls.queued = true ∧ (fireSafetyTransition session.namespaceIndex event calls.fire).2 = true

theorem unheard_step {turn : SessionTurn} (h : session.Conveyed turn) :
    (session.step turn).unheard = session.unheard := by
  cases turn with
  | runtime snapshot => rfl
  | publisher calls =>
    have hout := session.step_publisher_outcome calls
    generalize session.step (.publisher calls) = next at hout
    cases hout with
    | quiet | seen => rfl
    | fired _ _ _ _ _ _ hannounced =>
      obtain ⟨hqueued, hfired⟩ := h calls _ rfl hannounced
      simp [unheardOf, heard, hqueued, fireSafetyTransition_true hfired]

section Run
variable {schedule : ℕ → SessionTurn}

theorem sessionAt_stores_mono (session : EventSession) (schedule : ℕ → SessionTurn) :
    Monotone fun n => (session.sessionAt schedule n).loop.execution.stores :=
  monotone_nat_of_le_succ fun n => stores_step_le _ (schedule n)

theorem sessionAt_accounted (h : session.Accounted boot cycles)
    (hstores : ∀ k snapshot, schedule k = .runtime snapshot →
      snapshot = boot.publishedAt cycles
        (session.sessionAt schedule k).loop.execution.published.length) {n : ℕ}
    (hcount : (session.sessionAt schedule n).loop.execution.stores < 2 ^ 63) :
    (session.sessionAt schedule n).Accounted boot cycles := by
  induction n with
  | zero => exact h
  | succ n ih =>
    have hbefore := ih ((session.sessionAt_stores_mono schedule n.le_succ).trans_lt hcount)
    exact hbefore.step (hstores n) hcount

theorem sessionAt_unheard {n : ℕ}
    (h : ∀ k < n, (session.sessionAt schedule k).Conveyed (schedule k)) :
    (session.sessionAt schedule n).unheard = session.unheard := by
  induction n with
  | zero => rfl
  | succ n ih =>
    rw [← ih fun k hk => h k (Nat.lt_succ_of_lt hk)]
    exact unheard_step (h n n.lt_succ_self)

end Run

theorem initial_accounted (boot : Boot) (cycles : ℕ → SupervisedCycle) (namespaceIndex : UInt16) :
    ({ namespaceIndex } : EventSession).Accounted boot cycles where
  consistent := Execution.initial_consistent _
  follows := Execution.initial_followsSequence _ _
  balanced := ⟨rfl, rfl⟩

/-- Whatever the control loop and the publisher do to each other, and whatever becomes of the
events, the events a client has received, the transitions they say were coalesced and those it was
not told about are together the transitions that the control loop made between the first and the
last snapshot the publisher loaded. If the publisher was told of no failure and no queue overran,
the client has been told of all of them. -/
theorem events_accounted (boot : Boot) (cycles : ℕ → SupervisedCycle) (namespaceIndex : UInt16)
    (schedule : ℕ → SessionTurn)
    (hstores : ∀ k snapshot, schedule k = .runtime snapshot →
      snapshot = boot.publishedAt cycles (({ namespaceIndex } : EventSession).sessionAt schedule
        k).loop.execution.published.length) (n : ℕ)
    (hcount : (({ namespaceIndex } : EventSession).sessionAt schedule
      n).loop.execution.stores < 2 ^ 63) :
    ((({ namespaceIndex } : EventSession).sessionAt schedule n).polled = none →
      (({ namespaceIndex } : EventSession).sessionAt schedule n).total = 0) ∧
    (∀ first last,
      (({ namespaceIndex } : EventSession).sessionAt schedule n).polled = some (first, last) →
        first ≤ last ∧ (({ namespaceIndex } : EventSession).sessionAt schedule n).total =
          transitionsBetween cycles first last) ∧
    ((∀ k < n, (({ namespaceIndex } : EventSession).sessionAt schedule k).Conveyed (schedule k)) →
      (({ namespaceIndex } : EventSession).sessionAt schedule n).unheard = 0) := by
  have haccounted := sessionAt_accounted (initial_accounted boot cycles namespaceIndex) hstores
    hcount
  refine ⟨haccounted.balanced.total_of_none, fun first last hpolled => ?_,
    fun hconveyed => sessionAt_unheard hconveyed⟩
  obtain ⟨_, hfirst, _, htotal⟩ := haccounted.balanced.of_some hpolled
  exact ⟨hfirst, htotal⟩

/-- A loop that permits torque in its first cycle and denies it from then on. -/
def tripsAtOnce (k : ℕ) : SupervisedCycle := blinking (k + 1)

/-- The publisher loads before the first store and after the second. Every call succeeds. -/
def loadsTwice (k : ℕ) : SessionTurn :=
  if k / 24 = 0 ∨ 3 ≤ k / 24 then
    .publisher
      { fire := { created := true, writes := fun _ => true, triggered := true }
        queued := true, now := 0 }
  else .runtime (({ frequency := oneHertz } : Boot).publishedAt tripsAtOnce (k / 24 - 1))

theorem loadsTwice_stores (k : ℕ) (snapshot : RuntimeSnapshot)
    (hturn : loadsTwice k = .runtime snapshot) :
    snapshot = ({ frequency := oneHertz } : Boot).publishedAt tripsAtOnce
      (({} : EventSession).sessionAt loadsTwice k).loop.execution.published.length := by
  have hpublished : ∀ k < 72, (({} : EventSession).sessionAt loadsTwice
      k).loop.execution.published.length = k / 24 - 1 := by decide +kernel
  by_cases hload : k / 24 = 0 ∨ 3 ≤ k / 24
  · rw [loadsTwice, if_pos hload] at hturn
    cases hturn
  · rw [loadsTwice, if_neg hload] at hturn
    rw [hpublished k (by omega)]
    exact (SessionTurn.runtime.inj hturn).symm

theorem events_accounted_loadsTwice :
    (({} : EventSession).sessionAt loadsTwice 96).probe.eventsReceived = 1 ∧
      (({} : EventSession).sessionAt loadsTwice 96).total = transitionsBetween tripsAtOnce 0 1 := by
  have hrun : (({} : EventSession).sessionAt loadsTwice 96).polled = some (0, 1) ∧
      (({} : EventSession).sessionAt loadsTwice 96).loop.execution.stores < 2 ^ 63 ∧
      (({} : EventSession).sessionAt loadsTwice 96).probe.eventsReceived = 1 := by decide +kernel
  obtain ⟨hpolled, hcount, hreceived⟩ := hrun
  have haccounted := events_accounted { frequency := oneHertz } tripsAtOnce 1 loadsTwice
    loadsTwice_stores 96 hcount
  exact ⟨hreceived, (haccounted.2.1 0 1 hpolled).2⟩

end EventSession
end SafeEdge.Apps
