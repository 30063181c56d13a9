import SafeEdge.Apps.Endpoints
import SafeEdge.Apps.TransitionCount
import SafeEdge.Ipc.StoredSequence

/-! The safety endpoint from the control loop to its consumer: the loop stores its snapshots in the
slot, a handler loads one, and what the consumer reads off the connection is a snapshot that the
loop published. -/
namespace SafeEdge.Apps
open Library Edge Ipc

/-- What a consumer of the endpoint learns. -/
structure SafetyReport where
  sequence : ℕ
  torquePermitted : ℕ
  transitionMonotonicNs : ℕ
  deriving DecidableEq

def reportOf (snapshot : RuntimeSnapshot) : SafetyReport where
  sequence := snapshot.safetySequence.toNat
  torquePermitted := snapshot.torquePermitted.toNat
  transitionMonotonicNs := snapshot.safetyTransitionMonotonicNs.toNat

/-- The three numbers of a line. -/
def readLine (line : List Char) : Option SafetyReport := do
  let (sequence, rest) ← splitFirst ' ' line
  let (torquePermitted, rest) ← splitFirst ' ' rest
  let (instant, _) ← splitFirst '\n' rest
  return { sequence := ← readNat sequence, torquePermitted := ← readNat torquePermitted,
           transitionMonotonicNs := ← readNat instant }

/-- The consumer takes the numbers from the body of a response of any status. -/
def readReport (response : HttpResponse) : Option SafetyReport :=
  readLine (characters response.body)

section Line
variable (snapshot : RuntimeSnapshot)

theorem length_toDigits_uint64 (n : UInt64) : (Nat.toDigits 10 n.toNat).length ≤ 20 := by
  rw [Nat.length_toDigits_le_iff (by decide) (by decide)]
  exact n.toNat_lt.trans (by decide)

theorem length_toDigits_uint32 (n : UInt32) : (Nat.toDigits 10 n.toNat).length ≤ 10 := by
  rw [Nat.length_toDigits_le_iff (by decide) (by decide)]
  exact n.toNat_lt.trans (by decide)

/-- The line fits into its buffer. -/
theorem safetyLine_eq : safetyLine snapshot =
    Nat.toDigits 10 snapshot.safetySequence.toNat ++
      ' ' :: (Nat.toDigits 10 snapshot.torquePermitted.toNat ++
        ' ' :: (Nat.toDigits 10 snapshot.safetyTransitionMonotonicNs.toNat ++ ['\n'])) := by
  apply snprintf_of_lt
  have hsequence := length_toDigits_uint64 snapshot.safetySequence
  have htorque := length_toDigits_uint32 snapshot.torquePermitted
  have hinstant := length_toDigits_uint64 snapshot.safetyTransitionMonotonicNs
  simp only [List.length_append, List.length_cons, List.length_nil]
  omega

theorem readLine_safetyLine : readLine (safetyLine snapshot) = some (reportOf snapshot) := by
  have hdigits (n : ℕ) {c : Char} (hc : c.isDigit = false) : c ∉ Nat.toDigits 10 n :=
    notMem_of_digits (toDigits_all n) hc
  rw [readLine, safetyLine_eq, splitFirst_append (hdigits _ rfl)]
  simp only [Option.bind_eq_bind, Option.bind_some]
  rw [splitFirst_append (hdigits _ rfl)]
  simp only [Option.bind_some]
  rw [splitFirst_append (hdigits _ rfl)]
  simp only [Option.bind_some, readNat_toDigits]
  rfl

theorem characters_safetyLine :
    characters (bytesOf (safetyLine snapshot)) = safetyLine snapshot := by
  have hdigits (n : ℕ) : ∀ c ∈ Nat.toDigits 10 n, c.toNat < 256 := fun c hc =>
    toNat_lt_of_isDigit (List.all_eq_true.mp (toDigits_all n) c hc)
  apply characters_bytesOf
  intro c hc
  simp only [safetyLine_eq, List.mem_append, List.mem_cons, List.not_mem_nil, or_false] at hc
  rcases hc with hc | rfl | hc | rfl | hc | rfl
  · exact hdigits _ c hc
  · decide
  · exact hdigits _ c hc
  · decide
  · exact hdigits _ c hc
  · decide

end Line

/-- A consumer reads a report off a response exactly if a snapshot was loaded. -/
theorem readReport_safety (loaded : Option RuntimeSnapshot) :
    readReport (safety loaded) = loaded.map reportOf := by
  cases loaded with
  | none => decide
  | some snapshot =>
    change readLine (characters (bytesOf (safetyLine snapshot))) = _
    rw [characters_safetyLine, readLine_safetyLine]
    rfl

theorem safety_plainPath : PlainPath (ascii "/safety") where
  spaceless := by decide
  queryless := by decide
  unended := by decide

theorem routes_safety (observed : Observed) :
    (server observed).routes (ascii "/safety") = some (safety observed.snapshot) := by
  have hother : ascii "/safety" ≠ ascii "/metrics" := by decide
  simp [server, HttpServer.route, hother]

/-- A query of the endpoint: the thread that serves it, the turn at which its load of the snapshot
returns and whether it succeeds, what its handler finds otherwise, how the request arrives and how
the connection takes the response. -/
structure SafetyQuery (ι : Type*) where
  reader : ι
  turn : ℕ
  fresh : Bool
  forBody : Bool := true
  forStatus : Bool := true
  stream : List UInt8
  reads : List (List UInt8)
  rooms : List (Option ℕ)
  requests : Requests (ascii "/safety") stream
  arrives : Arrives stream reads

namespace SafetyQuery
variable {ι : Type*} [DecidableEq ι] (query : SafetyQuery ι)
  (e : Execution ι RuntimeSnapshot) (schedule : ℕ → Turn ι RuntimeSnapshot)

/-- The load returns at the turn given. -/
def Served : Prop := e.Returns schedule query.reader query.turn query.fresh

/-- What the handler finds. -/
def observed : Observed where
  forBody := query.forBody
  forStatus := query.forStatus
  snapshot :=
    if query.fresh then
      some ((e.executionAt schedule (query.turn + 1)).readers query.reader).out
    else none

/-- The whole response went out. -/
def delivered : Bool :=
  ((safety (query.observed e schedule).snapshot).transmit query.rooms).complete

/-- What the consumer reads off the connection. -/
def report : Option SafetyReport :=
  (received (query.observed e schedule) query.reads query.rooms).bind readReport

/-- The number of the latest snapshot at the turn of the load. -/
def source : ℕ := (e.executionAt schedule query.turn).published.length - 1

theorem report_eq : query.report e schedule =
    if query.delivered e schedule then (query.observed e schedule).snapshot.map reportOf
    else none := by
  rw [report, query.requests.received safety_plainPath (routes_safety _) query.arrives, delivered]
  split_ifs
  · rw [Option.bind_some, readReport_safety]
  · rfl

end SafetyQuery

section Transitions
variable (boot : Boot) (cycles : ℕ → SupervisedCycle)

theorem ControlThread.cycleWith_lastTransitionNs {thread : ControlThread}
    {cycle : SupervisedCycle} (hquiet : cycle.shown = thread.lastShown) :
    (thread.cycleWith cycle).lastTransitionNs = thread.lastTransitionNs := by
  obtain ⟨hstate, htorque, _⟩ := thread.exchange_transition cycle.nowNs
  obtain ⟨hshownState, hshownTorque⟩ := Prod.mk.inj hquiet
  have hexchange : (thread.exchange cycle.nowNs).lastTransitionNs = thread.lastTransitionNs := by
    unfold exchange
    split_ifs <;> rfl
  simp [cycleWith, noteTransition, hstate, htorque, hshownState, hshownTorque, hexchange]

theorem Boot.publishedAt_lastTransitionNs (n : ℕ) :
    (boot.publishedAt cycles (n + 1)).safetyTransitionMonotonicNs =
      (boot.threadAt cycles (n + 1)).lastTransitionNs := rfl

/-- Once a cycle has published it, the instant of the last transition stays until the next one. -/
theorem Boot.publishedAt_instant {m n : ℕ} (hm : 0 < m) (hmn : m ≤ n)
    (hquiet : transitionsBetween cycles m n = 0) :
    (boot.publishedAt cycles n).safetyTransitionMonotonicNs =
      (boot.publishedAt cycles m).safetyTransitionMonotonicNs := by
  induction n, hmn using Nat.le_induction with
  | base => rfl
  | succ n hmn ih =>
    rw [transitionsBetween_succ cycles hmn] at hquiet
    split_ifs at hquiet with hmoved
    obtain ⟨k, rfl⟩ := Nat.exists_eq_add_of_lt (hm.trans_le hmn)
    rw [← ih hquiet, publishedAt_lastTransitionNs, publishedAt_lastTransitionNs]
    apply ControlThread.cycleWith_lastTransitionNs
    exact (not_not.mp hmoved).trans (boot.threadAt_lastShown cycles _).symm

theorem Boot.sequence_toNat {n : ℕ} (hn : n < 2 ^ 64) :
    (boot.publishedAt cycles n).safetySequence.toNat = transitionsBetween cycles 0 n := by
  have hle := transitionsBetween_le cycles 0 n
  rw [boot.publishedAt_safetySequence cycles (Nat.zero_le n), counterAt_toNat]
  change (0 + transitionsBetween cycles 0 n) % 2 ^ 64 = _
  omega

/-- What two reports of the same sequence number have in common. -/
theorem Boot.report_of_sequence_eq {m n : ℕ} (hmn : m ≤ n) (hn : n < 2 ^ 64)
    (hsame : (reportOf (boot.publishedAt cycles n)).sequence =
      (reportOf (boot.publishedAt cycles m)).sequence) :
    (reportOf (boot.publishedAt cycles n)).torquePermitted =
        (reportOf (boot.publishedAt cycles m)).torquePermitted ∧
      (0 < m → reportOf (boot.publishedAt cycles n) = reportOf (boot.publishedAt cycles m)) := by
  have hquiet : transitionsBetween cycles m n = 0 :=
    (boot.safetySequence_eq_iff cycles hmn hn).mp (UInt64.toNat_inj.mp hsame)
  have htorque : (boot.publishedAt cycles n).torquePermitted =
      (boot.publishedAt cycles m).torquePermitted := by
    rw [(boot.publishedAt_fields cycles n).2.2, (boot.publishedAt_fields cycles m).2.2,
      shownAt_eq_of_no_transition cycles hmn hquiet]
  refine ⟨congrArg UInt32.toNat htorque, fun hm => ?_⟩
  rw [reportOf, reportOf, UInt64.toNat_inj.mp hsame, htorque,
    boot.publishedAt_instant cycles hm hmn hquiet]

end Transitions

section Run
variable {ι : Type*} [DecidableEq ι] {boot : Boot} {cycles : ℕ → SupervisedCycle}
  {outs : ι → RuntimeSnapshot} {schedule : ℕ → Turn ι RuntimeSnapshot}
  (hstores : (Execution.initial outs).StoresInOrder schedule (boot.publishedAt cycles))

include hstores in
/-- The consumer reads the snapshot that is the latest one at the load, unless the load failed or
part of the response is missing. -/
theorem SafetyQuery.report_eq_source {query : SafetyQuery ι}
    (hserved : query.Served (.initial outs) schedule)
    (hcount : ((Execution.initial outs).executionAt schedule query.turn).stores < 2 ^ 63) :
    query.report (.initial outs) schedule =
      if query.fresh ∧ query.delivered (.initial outs) schedule then
        some (reportOf (boot.publishedAt cycles (query.source (.initial outs) schedule)))
      else none := by
  rw [query.report_eq]
  cases hfresh : query.fresh with
  | false => simp [observed, hfresh]
  | true =>
    rw [Served, hfresh] at hserved
    have hload := Execution.load_eq_value hstores rfl hcount hserved
    simp [observed, hfresh, hload, source]

theorem SafetyQuery.source_lt {query : SafetyQuery ι} {e : Execution ι RuntimeSnapshot}
    (hcount : (e.executionAt schedule query.turn).stores < 2 ^ 63) :
    query.source e schedule < 2 ^ 63 := by
  have hle := (e.executionAt schedule query.turn).length_le_stores
  rw [source]
  omega

end Run

/-- Whatever the control loop, the threads of the server and the connections do to each other, a
consumer reads the snapshot that is the latest one at the load, with the number of transitions the
loop has made up to it, or nothing. Of two consumers the one served later reads no older snapshot,
the sequence numbers tell how many transitions lie between, and an equal number means equal torque
and, once the loop has published, an equal instant. -/
theorem safety_reports_in_order {ι : Type*} [DecidableEq ι] (boot : Boot)
    (cycles : ℕ → SupervisedCycle) (outs : ι → RuntimeSnapshot)
    (schedule : ℕ → Turn ι RuntimeSnapshot)
    (hstores : (Execution.initial outs).StoresInOrder schedule (boot.publishedAt cycles))
    (limit : ℕ) (hcount : ((Execution.initial outs).executionAt schedule limit).stores < 2 ^ 63) :
    (∀ query : SafetyQuery ι, query.turn ≤ limit → query.Served (.initial outs) schedule →
      query.report (.initial outs) schedule =
        if query.fresh ∧ query.delivered (.initial outs) schedule then
          some (reportOf (boot.publishedAt cycles (query.source (.initial outs) schedule)))
        else none) ∧
    (∀ query : SafetyQuery ι, query.turn ≤ limit → query.Served (.initial outs) schedule →
      ∀ report, query.report (.initial outs) schedule = some report →
        report.sequence = transitionsBetween cycles 0 (query.source (.initial outs) schedule) ∧
        report.torquePermitted =
          (shownAt cycles (query.source (.initial outs) schedule)).2.toNat) ∧
    ∀ earlier later : SafetyQuery ι, earlier.turn ≤ later.turn → later.turn ≤ limit →
      earlier.Served (.initial outs) schedule → later.Served (.initial outs) schedule →
      ∀ old new, earlier.report (.initial outs) schedule = some old →
        later.report (.initial outs) schedule = some new →
        new.sequence = old.sequence +
          transitionsBetween cycles (earlier.source (.initial outs) schedule)
            (later.source (.initial outs) schedule) ∧
        (new.sequence = old.sequence → new.torquePermitted = old.torquePermitted ∧
          (0 < earlier.source (.initial outs) schedule → new = old)) := by
  have hbefore {k : ℕ} (hk : k ≤ limit) :
      ((Execution.initial outs).executionAt schedule k).stores < 2 ^ 63 :=
    ((Execution.initial outs).stores_mono schedule hk).trans_lt hcount
  have hreport (query : SafetyQuery ι) (hturn : query.turn ≤ limit)
      (hserved : query.Served (.initial outs) schedule) :=
    SafetyQuery.report_eq_source hstores hserved (hbefore hturn)
  have hread (query : SafetyQuery ι) (hturn : query.turn ≤ limit)
      (hserved : query.Served (.initial outs) schedule) (report : SafetyReport)
      (h : query.report (.initial outs) schedule = some report) :
      reportOf (boot.publishedAt cycles (query.source (.initial outs) schedule)) = report := by
    rw [hreport query hturn hserved] at h
    split_ifs at h
    exact Option.some.inj h
  refine ⟨hreport, fun query hturn hserved report h => ?_,
    fun earlier later hturns hturn hearlier hlater old new hold hnew => ?_⟩
  · have hsource := query.source_lt (hbefore hturn)
    rw [← hread query hturn hserved report h]
    refine ⟨boot.sequence_toNat cycles (by omega), ?_⟩
    rw [reportOf, (boot.publishedAt_fields cycles _).2.2]
    cases (shownAt cycles (query.source (.initial outs) schedule)).2 <;> rfl
  · have hsource := later.source_lt (hbefore hturn)
    have horder : earlier.source (.initial outs) schedule ≤ later.source (.initial outs) schedule :=
      Nat.sub_le_sub_right ((Execution.initial outs).published_mono schedule hturns) 1
    rw [← hread earlier (hturns.trans hturn) hearlier old hold,
      ← hread later hturn hlater new hnew]
    refine ⟨?_, boot.report_of_sequence_eq cycles horder (by omega)⟩
    rw [reportOf, reportOf, boot.sequence_toNat cycles (by omega),
      boot.sequence_toNat cycles (by omega)]
    exact transitionsBetween_add cycles (Nat.zero_le _) horder

/-- The daemon stores the snapshots up to the one that grants torque, a handler loads, the daemon
stores the one that takes torque away, and the handler loads again. -/
def storedAndLoaded (k : ℕ) : Turn Unit RuntimeSnapshot :=
  if k < 72 ∨ 96 ≤ k ∧ k < 120 then
    .writer (({ frequency := oneHertz } : Boot).publishedAt blinking (min (k / 24) 3))
  else .reader () {} 32

theorem storedAndLoaded_inOrder : (Execution.initial fun _ => {}).StoresInOrder storedAndLoaded
    (({ frequency := oneHertz } : Boot).publishedAt blinking) := by
  have hpublished : ∀ k < 120, ((Execution.initial fun _ => {}).executionAt storedAndLoaded
      k).published.length = min (k / 24) 3 := by decide +kernel
  intro k value hturn
  unfold storedAndLoaded at hturn
  split_ifs at hturn with hk
  rw [hpublished k (by omega)]
  exact (Turn.writer.inj hturn).symm

def getSafety : List UInt8 := ascii "GET /safety HTTP/1.1\r\n\r\n"

theorem getSafety_requests : Requests (ascii "/safety") getSafety := ⟨by decide, by decide⟩

theorem getSafety_arrives : Arrives getSafety [getSafety] := ⟨by decide, by decide⟩

def loadedAt (turn : ℕ) : SafetyQuery Unit where
  reader := ()
  turn
  fresh := true
  stream := getSafety
  reads := [getSafety]
  rooms := [some 1000, some 1000]
  requests := getSafety_requests
  arrives := getSafety_arrives

/-- The second report tells that torque is gone and that this was one transition. -/
theorem safety_reports_in_order_blinking :
    (loadedAt 95).report (.initial fun _ => {}) storedAndLoaded =
      some { sequence := 1, torquePermitted := 1, transitionMonotonicNs := 0 } ∧
    (loadedAt 143).report (.initial fun _ => {}) storedAndLoaded =
      some { sequence := 2, torquePermitted := 0, transitionMonotonicNs := 0 } ∧
    2 = 1 + transitionsBetween blinking
      ((loadedAt 95).source (.initial fun _ => {}) storedAndLoaded)
      ((loadedAt 143).source (.initial fun _ => {}) storedAndLoaded) := by
  have hearlier : (loadedAt 95).Served (.initial fun _ => {}) storedAndLoaded :=
    ⟨⟨_, _, rfl⟩, by decide +kernel⟩
  have hlater : (loadedAt 143).Served (.initial fun _ => {}) storedAndLoaded :=
    ⟨⟨_, _, rfl⟩, by decide +kernel⟩
  obtain ⟨hreport, -, hordered⟩ := safety_reports_in_order { frequency := oneHertz } blinking
    (fun _ => {}) storedAndLoaded storedAndLoaded_inOrder 143 (by decide +kernel)
  have hold : (loadedAt 95).report (.initial fun _ => {}) storedAndLoaded =
      some { sequence := 1, torquePermitted := 1, transitionMonotonicNs := 0 } := by
    rw [hreport (loadedAt 95) (by decide) hearlier]
    decide +kernel
  have hnew : (loadedAt 143).report (.initial fun _ => {}) storedAndLoaded =
      some { sequence := 2, torquePermitted := 0, transitionMonotonicNs := 0 } := by
    rw [hreport (loadedAt 143) le_rfl hlater]
    decide +kernel
  have hsequence := (hordered (loadedAt 95) (loadedAt 143) (by decide) le_rfl hearlier hlater _ _
    hold hnew).1
  dsimp only at hsequence
  exact ⟨hold, hnew, hsequence⟩

end SafeEdge.Apps
