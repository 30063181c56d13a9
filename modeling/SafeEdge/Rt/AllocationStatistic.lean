import SafeEdge.Rt.ScopedAllocation

/-! The statistic of violations that a run of the executor leaves behind, read from a count that
all threads of the process share. -/
namespace SafeEdge.Rt
open Library

namespace GuardedProcess
variable {ι : Type*} [DecidableEq ι] {p : GuardedProcess ι}

section Statistic
variable {programs : ι → List GuardCall} {policy : AllocationPolicy} {executor : ι}

/-- The count a thread has read but not yet returned. -/
def inFlight : GuardPc → List UInt64
  | .reporting violations => [violations]
  | _ => []

/-- Nobody but one thread has a violation to come, and what that thread has read of the count and
will read of it is fixed. -/
structure SoleOffender (policy : AllocationPolicy) (executor : ι) (expected : List UInt64)
    (p : GuardedProcess ι) : Prop where
  running : p.guard.fatal = none
  policy : p.guard.policy = policy
  plain : ∀ id, Plain (p.remaining id)
  others : ∀ id, id ≠ executor → (p.guard.depth id).offences (p.remaining id) = []
  readings : (p.reports executor).map AllocationReport.violations ++
      inFlight (p.guard.threads executor).pc ++
      (p.guard.depth executor).readings p.guard.violations (p.remaining executor) = expected

theorem inFlight_pc_call {g : AllocationGuard ι} {id : ι} (hidle : (g.threads id).pc = .idle)
    (call : GuardCall) : inFlight ((g.call id call).threads id).pc =
      if call = .allocationReport then [g.violations] else [] := by
  rw [AllocationGuard.pc_call hidle]
  cases call with
  | noteAllocation bytes =>
    rw [if_neg nofun]
    dsimp only
    split_ifs <;> rfl
  | _ => rfl

theorem SoleOffender.call {expected : List UInt64} (h : SoleOffender policy executor expected p)
    {id : ι} (hidle : (p.guard.threads id).pc = .idle) {call : GuardCall} {rest : List GuardCall}
    (hremaining : p.remaining id = call :: rest) :
    SoleOffender policy executor expected { p with
      guard := p.guard.call id call
      remaining := Function.update p.remaining id rest } := by
  have hplain : Plain (call :: rest) := hremaining ▸ h.plain id
  obtain ⟨hreset, hpolicy⟩ := hplain call List.mem_cons_self
  refine ⟨(AllocationGuard.fatal_call id call).trans h.running,
    (AllocationGuard.policy_call hpolicy id).trans h.policy, fun other => ?_,
    fun other hother => ?_, ?_⟩
  · by_cases hself : other = id
    · subst hself
      simpa using hplain.tail
    · simpa [hself] using h.plain other
  · simp only [AllocationGuard.depth_call]
    by_cases hself : other = id
    · subst hself
      have hbefore := h.others other hother
      rw [hremaining, ScopeDepth.offences, List.append_eq_nil_iff] at hbefore
      rw [Function.update_self, Function.update_self]
      exact hbefore.2
    · rw [Function.update_of_ne hself, Function.update_of_ne hself]
      exact h.others other hother
  · simp only [AllocationGuard.depth_call, AllocationGuard.violations_call _ _ hreset]
    by_cases hself : executor = id
    · subst hself
      have hbefore := h.readings
      rw [hremaining, hidle] at hbefore
      rw [Function.update_self, Function.update_self, inFlight_pc_call hidle, ← hbefore,
        List.append_assoc, List.append_assoc]
      rfl
    · have hnone := h.others id (Ne.symm hself)
      rw [hremaining, ScopeDepth.offences, List.append_eq_nil_iff] at hnone
      rw [Function.update_of_ne hself, Function.update_of_ne hself, hnone.1,
        AllocationGuard.threads_call_other hself]
      simpa using h.readings

/-- A thread goes on inside a call. -/
theorem SoleOffender.moveTo {expected : List UInt64} (h : SoleOffender policy executor expected p)
    {id : ι} {pc : GuardPc} {reports : ι → List AllocationReport}
    (hothers : ∀ other, other ≠ id → reports other = p.reports other)
    (hself : (reports id).map AllocationReport.violations ++ inFlight pc =
      (p.reports id).map AllocationReport.violations ++ inFlight (p.guard.threads id).pc)
    (largestBytes : ℕ) :
    SoleOffender policy executor expected { p with
      guard := { p.guard with largestBytes }.moveTo id pc
      reports } where
  running := h.running
  policy := h.policy
  plain := h.plain
  others other hother := by
    simp only [AllocationGuard.depth_moveTo]
    exact h.others other hother
  readings := by
    simp only [AllocationGuard.depth_moveTo]
    by_cases hexecutor : executor = id
    · subst hexecutor
      rw [AllocationGuard.pc_moveTo, hself]
      exact h.readings
    · rw [AllocationGuard.threads_moveTo_other hexecutor, hothers executor hexecutor]
      exact h.readings

theorem SoleOffender.step {expected : List UInt64} (h : SoleOffender policy executor expected p)
    (turn : ProcessTurn ι) (hsurvives : policy ≠ .kAbort ∨ (p.step turn).guard.fatal = none) :
    SoleOffender policy executor expected (p.step turn) := by
  have hout := @step_outcome _ _ p turn h.running
  generalize p.step turn = next at hout hsurvives
  cases hout with
  | finished => exact h
  | call hidle hremaining => exact h.call hidle hremaining
  | report hreporting =>
    refine h.moveTo (fun other hother => Function.update_of_ne hother _ _) ?_ _
    rw [Function.update_self, hreporting]
    simp [inFlight]
  | access hbusy hother =>
    have haccess := p.guard.step_outcome
      { id := turn.id, call := .allocationReport, spurious := turn.spurious } h.running
    generalize (p.guard.step
      { id := turn.id, call := .allocationReport, spurious := turn.spurious }).1 = guard
      at haccess hsurvives
    have hnone : inFlight (p.guard.threads turn.id).pc = [] := by
      cases hpc : (p.guard.threads turn.id).pc with
      | reporting violations => exact absurd hpc (hother violations)
      | _ => rfl
    cases haccess with
    | call hidle => exact absurd hidle hbusy
    | report hreporting => exact absurd hreporting (hother _)
    | abort _ hpolicy =>
      rcases hsurvives with hcounts | halive
      · exact absurd (h.policy.symm.trans hpolicy) hcounts
      · cases halive
    | leave hraised =>
      exact @SoleOffender.moveTo _ _ p policy executor expected h turn.id .idle p.reports
        (fun _ _ => rfl) (by rw [hnone]; rfl) p.guard.largestBytes
    | reset hresetting =>
      exact h.moveTo (fun _ _ => rfl) (by rw [hnone]; rfl) 0
    | @raise raise hraising =>
      refine h.moveTo (fun _ _ => rfl) ?_ _
      rw [hnone]
      cases (raise.step p.guard.largestBytes turn.spurious).2 <;> rfl

/-- A thread comes to its end in a process that aborts on violations only if it has none. -/
theorem offences_of_finished (hplain : ∀ id, Plain (programs id)) {schedule : ℕ → ProcessTurn ι}
    {n : ℕ} (hfinished : ((start .kAbort programs).processAt schedule n).Finished executor) :
    ({} : ScopeDepth).offences (programs executor) = [] := by
  have hthread := (processAt_unforgiving hplain schedule n).threads executor
  rw [hfinished.1, hfinished.2] at hthread
  exact hthread.symm

/-- A process that aborts on violations survives if the one thread that may have any comes to its
end. -/
theorem fatal_of_finished (hplain : ∀ id, Plain (programs id))
    (hothers : ∀ id, id ≠ executor → ({} : ScopeDepth).offences (programs id) = [])
    {schedule : ℕ → ProcessTurn ι} {n : ℕ}
    (hfinished : ((start .kAbort programs).processAt schedule n).Finished executor) (k : ℕ) :
    ((start .kAbort programs).processAt schedule k).guard.fatal = none := by
  have hnone := offences_of_finished hplain hfinished
  by_contra hdied
  obtain ⟨message, hmessage⟩ := Option.ne_none_iff_exists'.mp hdied
  obtain ⟨id, bytes, hbytes, -⟩ := (processAt_unforgiving hplain schedule k).fatal message hmessage
  by_cases hid : id = executor
  · rw [hid, hnone] at hbytes
    cases hbytes
  · rw [hothers id hid] at hbytes
    cases hbytes

/-- What the one thread that may have violations has read of the count when it comes to its end. -/
theorem reports_of_finished (hplain : ∀ id, Plain (programs id))
    (hothers : ∀ id, id ≠ executor → ({} : ScopeDepth).offences (programs id) = [])
    {schedule : ℕ → ProcessTurn ι} {n : ℕ}
    (hfinished : ((start policy programs).processAt schedule n).Finished executor) :
    (((start policy programs).processAt schedule n).reports executor).map
        AllocationReport.violations =
      ({} : ScopeDepth).readings 0 (programs executor) := by
  have hsurvives (k : ℕ) : policy ≠ .kAbort ∨
      ((start policy programs).processAt schedule (k + 1)).guard.fatal = none := by
    by_cases hpolicy : policy = .kAbort
    · subst hpolicy
      exact .inr (fatal_of_finished hplain hothers hfinished (k + 1))
    · exact .inl hpolicy
  have hstart : SoleOffender policy executor (({} : ScopeDepth).readings 0 (programs executor))
      (start policy programs) := ⟨rfl, rfl, hplain, hothers, rfl⟩
  have hend : SoleOffender policy executor (({} : ScopeDepth).readings 0 (programs executor))
      ((start policy programs).processAt schedule n) :=
    stateAt_invariant (fun _ (p : GuardedProcess ι) => SoleOffender policy executor _ p) hstart
      (fun k ih => ih.step (schedule k) (hsurvives k)) n
  have hreadings := hend.readings
  rw [hfinished.1, hfinished.2] at hreadings
  simpa [inFlight, ScopeDepth.readings] using hreadings

theorem plain_append {calls rest : List GuardCall} (hcalls : Plain calls) (hrest : Plain rest) :
    Plain (calls ++ rest) := by
  intro call hcall
  rcases List.mem_append.mp hcall with hcall | hcall
  · exact hcalls call hcall
  · exact hrest call hcall

end Statistic
end GuardedProcess

section Executor
open GuardedProcess

/-- One cycle of `CyclicExecutor::run` as the guard sees it. -/
def cycleCode (guardAllocations : Bool) (callback : ScopedCode) : ScopedCode :=
  if guardAllocations then .noAllocScope callback .done else callback

/-- The calls of `CyclicExecutor::run`, which reads the report before its loop and after it. -/
def runCalls (guardAllocations : Bool) (callbacks : List ScopedCode) : List GuardCall :=
  .allocationReport ::
    (callbacks.flatMap (fun callback => (cycleCode guardAllocations callback).calls) ++
      [.allocationReport])

/-- The statistic `run` leaves behind, from the reports it has read. -/
def allocationViolations : List AllocationReport → Option UInt64
  | [atStart, atEnd] => some (atEnd.violations - atStart.violations)
  | _ => none

section Run
variable (guardAllocations : Bool) (callbacks : List ScopedCode)

theorem offences_cycleCode (callback : ScopedCode) :
    (cycleCode guardAllocations callback).offences false false =
      callback.offences guardAllocations false := by
  cases guardAllocations with
  | false => rfl
  | true => exact List.append_nil _

theorem cycles_afterAll (depth : ScopeDepth) :
    depth.afterAll
      (callbacks.flatMap fun callback => (cycleCode guardAllocations callback).calls) = depth := by
  induction callbacks with
  | nil => rfl
  | cons callback callbacks ih =>
    have hfirst := @ScopeDepth.afterAll_calls depth (cycleCode guardAllocations callback)
    rw [List.flatMap_cons]
    simp only [ScopeDepth.afterAll, List.foldl_append] at hfirst ih ⊢
    rw [hfirst, ih]

theorem cycles_offences :
    ({} : ScopeDepth).offences
        (callbacks.flatMap fun callback => (cycleCode guardAllocations callback).calls) =
      callbacks.flatMap fun callback => callback.offences guardAllocations false := by
  induction callbacks with
  | nil => rfl
  | cons callback callbacks ih =>
    rw [List.flatMap_cons, ScopeDepth.offences_append, ScopeDepth.afterAll_calls, ih,
      offences_code, offences_cycleCode, List.flatMap_cons]

theorem runCalls_plain : Plain (runCalls guardAllocations callbacks) := by
  intro call hcall
  simp only [runCalls, List.mem_cons, List.mem_append, List.mem_flatMap, List.not_mem_nil,
    or_false] at hcall
  rcases hcall with rfl | ⟨callback, _, hcall⟩ | rfl
  · exact ⟨nofun, nofun⟩
  · exact plain_calls _ call hcall
  · exact ⟨nofun, nofun⟩

theorem offences_runCalls : ({} : ScopeDepth).offences (runCalls guardAllocations callbacks) =
    callbacks.flatMap fun callback => callback.offences guardAllocations false := by
  have hreport : ({} : ScopeDepth).after .allocationReport = {} := rfl
  rw [runCalls, ScopeDepth.offences, hreport, ScopeDepth.offences_append, cycles_offences]
  simp [ScopeDepth.offences, ScopeDepth.offence]

theorem readings_runCalls (violations : UInt64) :
    ({} : ScopeDepth).readings violations (runCalls guardAllocations callbacks) =
      [violations, violations + UInt64.ofNat
        (callbacks.flatMap fun callback => callback.offences guardAllocations false).length] := by
  have hquiet : GuardCall.allocationReport ∉
      callbacks.flatMap fun callback => (cycleCode guardAllocations callback).calls := by
    simp [ScopedCode.report_notMem]
  have hreport : ({} : ScopeDepth).after .allocationReport = {} := rfl
  rw [runCalls, ScopeDepth.readings, if_pos rfl, hreport, ScopeDepth.readings_append,
    ScopeDepth.readings_of_notMem hquiet, cycles_afterAll, cycles_offences]
  simp [ScopeDepth.readings, ScopeDepth.offence]

end Run

theorem allocationViolations_of_map {reports : List AllocationReport} {atStart atEnd : UInt64}
    (h : reports.map AllocationReport.violations = [atStart, atEnd]) :
    allocationViolations reports = some (atEnd - atStart) := by
  match reports, h with
  | [_, _], h =>
    obtain ⟨hstart, hend⟩ := List.cons.inj h
    rw [allocationViolations, hstart, (List.cons.inj hend).1]

section Programs
variable {ι : Type*} [DecidableEq ι] {executor : ι} {codes : ι → ScopedCode}
  {guardAllocations : Bool} {callbacks : List ScopedCode}

/-- Every thread runs its code, and the executor's thread goes on with a run. -/
def programsOf (codes : ι → ScopedCode) (executor : ι) (guardAllocations : Bool)
    (callbacks : List ScopedCode) : ι → List GuardCall :=
  Function.update (fun id => (codes id).calls) executor
    ((codes executor).calls ++ runCalls guardAllocations callbacks)

theorem programsOf_executor : programsOf codes executor guardAllocations callbacks executor =
    (codes executor).calls ++ runCalls guardAllocations callbacks :=
  Function.update_self ..

theorem programsOf_plain (id : ι) :
    Plain (programsOf codes executor guardAllocations callbacks id) := by
  by_cases hid : id = executor
  · rw [hid, programsOf_executor]
    exact plain_append (plain_calls _) (runCalls_plain guardAllocations callbacks)
  · rw [programsOf, Function.update_of_ne hid]
    exact plain_calls _

theorem programsOf_offences
    (hothers : ∀ id, id ≠ executor → (codes id).offences false false = []) {id : ι}
    (hid : id ≠ executor) :
    ({} : ScopeDepth).offences (programsOf codes executor guardAllocations callbacks id) = [] := by
  rw [programsOf, Function.update_of_ne hid, offences_code]
  exact hothers id hid

/-- In every interleaving in which no other thread offends, the statistic of a run that returns is
the number of allocations its callbacks made against the guard: with the guard on, all of them that
no suspending block covers. What was reported before the run does not count. A run that returns
under the aborting policy has made none. -/
theorem statistic_counts_callbacks (policy : AllocationPolicy) (executor : ι)
    (codes : ι → ScopedCode)
    (hothers : ∀ id, id ≠ executor → (codes id).offences false false = [])
    (guardAllocations : Bool) (callbacks : List ScopedCode) (schedule : ℕ → ProcessTurn ι) (n : ℕ)
    (hfinished : ((start policy (programsOf codes executor guardAllocations callbacks)).processAt
      schedule n).Finished executor) :
    allocationViolations (((start policy (programsOf codes executor guardAllocations
        callbacks)).processAt schedule n).reports executor) =
      some (UInt64.ofNat
        (callbacks.flatMap fun callback => callback.offences guardAllocations false).length) ∧
    (policy = .kAbort →
      (callbacks.flatMap fun callback => callback.offences guardAllocations false) = []) := by
  constructor
  · have hreports := reports_of_finished programsOf_plain
      (fun _ hid => programsOf_offences hothers hid) hfinished
    rw [programsOf_executor, ScopeDepth.readings_append,
      ScopeDepth.readings_of_notMem (codes executor).report_notMem, ScopeDepth.afterAll_calls,
      readings_runCalls, List.nil_append] at hreports
    rw [allocationViolations_of_map hreports, UInt64.add_comm _ (UInt64.ofNat _),
      UInt64.add_sub_cancel]
  · rintro rfl
    have hnone := offences_of_finished programsOf_plain hfinished
    rw [programsOf_executor, ScopeDepth.offences_append, ScopeDepth.afterAll_calls,
      offences_runCalls] at hnone
    exact (List.append_eq_nil_iff.mp hnone).2

end Programs

/-- A callback that allocates twice, the second time in a block that suspends the guard. -/
def reportingCallback : ScopedCode := .allocate 32 (.allowAllocScope (.allocate 256 .done) .done)

/-- Another thread allocates outside any scope. If violations are counted the run has one; if they
abort, a run whose callback allocates in the suspending block only returns with none. -/
theorem statistic_counts_callbacks_reporting :
    allocationViolations (((start .kCount (programsOf (fun _ => .allocate 8 .done) true true
        [reportingCallback])).processAt (fun k => { id := k != 3 }) 15).reports true) = some 1 ∧
    allocationViolations (((start .kAbort (programsOf (fun _ => .allocate 8 .done) true true
        [.allowAllocScope (.allocate 256 .done) .done])).processAt (fun k => { id := k != 3 })
          15).reports true) = some 0 :=
  ⟨(statistic_counts_callbacks .kCount true (fun _ => .allocate 8 .done) (fun _ _ => rfl)
      true [reportingCallback] (fun k => { id := k != 3 }) 15 ⟨rfl, rfl⟩).1,
    (statistic_counts_callbacks .kAbort true (fun _ => .allocate 8 .done) (fun _ _ => rfl)
      true [.allowAllocScope (.allocate 256 .done) .done] (fun k => { id := k != 3 }) 15
      ⟨rfl, rfl⟩).1⟩

end Executor
end SafeEdge.Rt
