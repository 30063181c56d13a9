import Mathlib.Algebra.BigOperators.Group.Multiset.Basic
import Mathlib.Algebra.BigOperators.Fin
import SafeEdge.Rt.NoAllocGuard

/-! Scopes held by blocks of code. The depth counters of the guard mean what the nesting of the
code says, whatever else the process does. -/
namespace SafeEdge.Rt
open Library

/-- Code as the guard sees it: allocations, and blocks whose first object is a scope. -/
inductive ScopedCode where
  | done
  | allocate (bytes : ℕ) (rest : ScopedCode)
  | noAllocScope (body rest : ScopedCode)
  | allowAllocScope (body rest : ScopedCode)

namespace ScopedCode

/-- The calls of the guard the code makes. A scope is left where its block ends. -/
def calls : ScopedCode → List GuardCall
  | .done => []
  | .allocate bytes rest => .noteAllocation bytes :: rest.calls
  | .noAllocScope body rest =>
    .enterNoAllocScope :: (body.calls ++ .leaveNoAllocScope :: rest.calls)
  | .allowAllocScope body rest =>
    .enterAllowAllocScope :: (body.calls ++ .leaveAllowAllocScope :: rest.calls)

/-- The allocations that stand inside a block that forbids them and inside none that suspends the
guard. -/
def offences (guarded allowed : Bool) : ScopedCode → List ℕ
  | .done => []
  | .allocate bytes rest =>
    (if guarded && !allowed then [bytes] else []) ++ rest.offences guarded allowed
  | .noAllocScope body rest => body.offences true allowed ++ rest.offences guarded allowed
  | .allowAllocScope body rest => body.offences guarded true ++ rest.offences guarded allowed

end ScopedCode

/-- The two depth counters of a thread. -/
structure ScopeDepth where
  noAlloc : ℤ := 0
  allow : ℤ := 0

namespace ScopeDepth

def after (depth : ScopeDepth) : GuardCall → ScopeDepth
  | .enterNoAllocScope => { depth with noAlloc := depth.noAlloc + 1 }
  | .leaveNoAllocScope => { depth with noAlloc := depth.noAlloc - 1 }
  | .enterAllowAllocScope => { depth with allow := depth.allow + 1 }
  | .leaveAllowAllocScope => { depth with allow := depth.allow - 1 }
  | _ => depth

def offence (depth : ScopeDepth) : GuardCall → List ℕ
  | .noteAllocation bytes => if depth.noAlloc > 0 && depth.allow == 0 then [bytes] else []
  | _ => []

/-- The violations a thread reports in the rest of its calls. -/
def offences (depth : ScopeDepth) : List GuardCall → List ℕ
  | [] => []
  | call :: rest => depth.offence call ++ (depth.after call).offences rest

/-- The counts of violations a thread reads in the rest of its calls, if nobody else adds to
them. -/
def readings (depth : ScopeDepth) (violations : UInt64) : List GuardCall → List UInt64
  | [] => []
  | call :: rest =>
    (if call = .allocationReport then [violations] else []) ++
      (depth.after call).readings (violations + UInt64.ofNat (depth.offence call).length) rest

/-- Neither counter is below zero. -/
structure Nonneg (depth : ScopeDepth) : Prop where
  noAlloc : 0 ≤ depth.noAlloc
  allow : 0 ≤ depth.allow

def afterAll (depth : ScopeDepth) (calls : List GuardCall) : ScopeDepth := calls.foldl after depth

variable {depth : ScopeDepth}

theorem offences_append (calls rest : List GuardCall) :
    depth.offences (calls ++ rest) =
      depth.offences calls ++ (depth.afterAll calls).offences rest := by
  induction calls generalizing depth with
  | nil => rfl
  | cons call calls ih =>
    rw [List.cons_append, offences, ih, ← List.append_assoc]
    rfl

theorem readings_append (violations : UInt64) (calls rest : List GuardCall) :
    depth.readings violations (calls ++ rest) = depth.readings violations calls ++
      (depth.afterAll calls).readings
        (violations + UInt64.ofNat (depth.offences calls).length) rest := by
  induction calls generalizing depth violations with
  | nil => simp [readings, offences, afterAll]
  | cons call calls ih =>
    rw [List.cons_append, readings, ih, readings, List.append_assoc, offences,
      List.length_append, UInt64.ofNat_add, ← UInt64.add_assoc]
    rfl

/-- Every block leaves the scope it entered. -/
theorem afterAll_calls (code : ScopedCode) : depth.afterAll code.calls = depth := by
  induction code generalizing depth with
  | done => rfl
  | allocate bytes rest ih => exact ih
  | noAllocScope body rest ihBody ih =>
    simp only [afterAll] at ihBody ih ⊢
    simp [ScopedCode.calls, ihBody, ih, after]
  | allowAllocScope body rest ihBody ih =>
    simp only [afterAll] at ihBody ih ⊢
    simp [ScopedCode.calls, ihBody, ih, after]

theorem after_noAllocScope :
    (depth.after .enterNoAllocScope).after .leaveNoAllocScope = depth := by
  simp [after]

theorem after_allowAllocScope :
    (depth.after .enterAllowAllocScope).after .leaveAllowAllocScope = depth := by
  simp [after]

/-- The counters tell an offence by the nesting of the code. -/
theorem offences_calls (code : ScopedCode) (hdepth : depth.Nonneg) :
    depth.offences code.calls =
      code.offences (decide (0 < depth.noAlloc)) (decide (0 < depth.allow)) := by
  obtain ⟨hnoAlloc, hallow⟩ := hdepth
  induction code generalizing depth with
  | done => rfl
  | allocate bytes rest ih =>
    have hsuspended : (depth.allow == 0) = !decide (0 < depth.allow) := by
      rw [Bool.eq_iff_iff]
      simp only [beq_iff_eq, Bool.not_eq_true', decide_eq_false_iff_not]
      omega
    change depth.offence (.noteAllocation bytes) ++ depth.offences rest.calls = _
    rw [ih hnoAlloc hallow, offence, hsuspended]
    rfl
  | noAllocScope body rest ihBody ih =>
    have hinside : 0 < depth.noAlloc + 1 := by omega
    have hbody : (depth.after .enterNoAllocScope).offences body.calls = _ :=
      ihBody hinside.le hallow
    have hguarded : decide (0 < (depth.after .enterNoAllocScope).noAlloc) = true :=
      decide_eq_true hinside
    rw [ScopedCode.calls, offences, offences_append, afterAll_calls, offences,
      after_noAllocScope, ih hnoAlloc hallow, hbody, hguarded]
    rfl
  | allowAllocScope body rest ihBody ih =>
    have hinside : 0 < depth.allow + 1 := by omega
    have hbody : (depth.after .enterAllowAllocScope).offences body.calls = _ :=
      ihBody hnoAlloc hinside.le
    have hallowed : decide (0 < (depth.after .enterAllowAllocScope).allow) = true :=
      decide_eq_true hinside
    rw [ScopedCode.calls, offences, offences_append, afterAll_calls, offences,
      after_allowAllocScope, ih hnoAlloc hallow, hbody, hallowed]
    rfl

theorem readings_of_notMem {calls : List GuardCall} (h : GuardCall.allocationReport ∉ calls)
    (violations : UInt64) : depth.readings violations calls = [] := by
  induction calls generalizing depth violations with
  | nil => rfl
  | cons call calls ih =>
    rw [List.mem_cons, not_or] at h
    rw [readings, if_neg (Ne.symm h.1), ih h.2]
    rfl

end ScopeDepth

theorem ScopedCode.report_notMem (code : ScopedCode) :
    GuardCall.allocationReport ∉ code.calls := by
  induction code with
  | done => simp [calls]
  | allocate bytes rest ih => simp [calls, ih]
  | noAllocScope body rest ihBody ih | allowAllocScope body rest ihBody ih =>
    simp [calls, ihBody, ih]

namespace AllocationGuard
variable {ι : Type*}

def depth (g : AllocationGuard ι) (id : ι) : ScopeDepth where
  noAlloc := (g.threads id).noAllocDepth
  allow := (g.threads id).allowDepth

variable [DecidableEq ι] (g : AllocationGuard ι) (id : ι)

theorem depth_setThread (thread : GuardThread) : (g.setThread id thread).depth =
    Function.update g.depth id
      { noAlloc := thread.noAllocDepth, allow := thread.allowDepth } := by
  funext other
  by_cases hself : other = id
  · subst hself
    simp [depth, setThread]
  · simp [depth, setThread, hself]

@[simp] theorem depth_moveTo (pc : GuardPc) : (g.moveTo id pc).depth = g.depth := by
  rw [moveTo, depth_setThread]
  exact Function.update_eq_self id g.depth

/-- A call moves the depth counters of its thread, and nothing else moves any. -/
theorem depth_call (call : GuardCall) :
    (g.call id call).depth = Function.update g.depth id ((g.depth id).after call) := by
  cases call with
  | enterNoAllocScope | leaveNoAllocScope | enterAllowAllocScope | leaveAllowAllocScope =>
    exact depth_setThread g id _
  | noteAllocation bytes =>
    have hafter : (g.depth id).after (.noteAllocation bytes) = g.depth id := rfl
    rw [hafter, AllocationGuard.call, Function.update_eq_self]
    split_ifs
    · exact depth_moveTo _ id _
    · rfl
  | allocationReport | resetAllocationReport =>
    exact (depth_moveTo _ id _).trans (Function.update_eq_self id g.depth).symm
  | setAllocationPolicy policy => exact (Function.update_eq_self id g.depth).symm

omit [DecidableEq ι] in
theorem offence_noteAllocation (bytes : ℕ) : (g.depth id).offence (.noteAllocation bytes) =
    if (g.threads id).inNoAllocScope then [bytes] else [] := rfl

theorem started_call (call : GuardCall) :
    (g.call id call).started = g.started ++ (g.depth id).offence call := by
  cases call with
  | noteAllocation bytes =>
    rw [AllocationGuard.call, offence_noteAllocation]
    split_ifs
    · rfl
    · exact (List.append_nil _).symm
  | _ => exact (List.append_nil _).symm

theorem violations_call {call : GuardCall} (hreset : call ≠ .resetAllocationReport) :
    (g.call id call).violations =
      g.violations + UInt64.ofNat ((g.depth id).offence call).length := by
  cases call with
  | noteAllocation bytes =>
    rw [AllocationGuard.call, offence_noteAllocation]
    split_ifs
    · rfl
    · exact (UInt64.add_zero _).symm
  | resetAllocationReport => exact absurd rfl hreset
  | _ => exact (UInt64.add_zero _).symm

variable {g}

/-- A later access of a call moves no depth counter and counts nothing. -/
theorem step_of_busy {turn : GuardTurn ι} (hrunning : g.fatal = none)
    (hbusy : (g.threads turn.id).pc ≠ .idle) :
    (g.step turn).1.depth = g.depth ∧ (g.step turn).1.started = g.started ∧
      (g.step turn).1.violations = g.violations := by
  have hout := g.step_outcome turn hrunning
  generalize (g.step turn).1 = next at hout
  cases hout with
  | call hidle => exact absurd hidle hbusy
  | raise | leave | report | reset => exact ⟨depth_moveTo _ _ _, rfl, rfl⟩
  | abort => exact ⟨rfl, rfl, rfl⟩

theorem threads_moveTo_other {id other : ι} (h : other ≠ id) (pc : GuardPc) :
    (g.moveTo id pc).threads other = g.threads other := by
  simp [moveTo, setThread, h]

@[simp] theorem pc_moveTo (id : ι) (pc : GuardPc) : ((g.moveTo id pc).threads id).pc = pc := by
  simp [moveTo, setThread]

theorem threads_call_other {id other : ι} (h : other ≠ id) (call : GuardCall) :
    (g.call id call).threads other = g.threads other := by
  cases call with
  | enterNoAllocScope | leaveNoAllocScope | enterAllowAllocScope | leaveAllowAllocScope =>
    simp [AllocationGuard.call, setThread, h]
  | allocationReport | resetAllocationReport => exact threads_moveTo_other h _
  | setAllocationPolicy policy => rfl
  | noteAllocation bytes =>
    rw [AllocationGuard.call]
    split_ifs
    · exact threads_moveTo_other h _
    · rfl

/-- Where an idle thread stands after the first access of a call. -/
theorem pc_call {id : ι} (hidle : (g.threads id).pc = .idle) (call : GuardCall) :
    ((g.call id call).threads id).pc =
      match call with
      | .noteAllocation bytes =>
        if (g.threads id).inNoAllocScope then .raising (.loading bytes) else .idle
      | .allocationReport => .reporting g.violations
      | .resetAllocationReport => .resetting
      | _ => .idle := by
  cases call with
  | enterNoAllocScope | leaveNoAllocScope | enterAllowAllocScope | leaveAllowAllocScope =>
    simp [AllocationGuard.call, setThread, hidle]
  | allocationReport | resetAllocationReport => exact pc_moveTo id _
  | setAllocationPolicy policy => exact hidle
  | noteAllocation bytes =>
    rw [AllocationGuard.call]
    split_ifs
    · exact pc_moveTo id _
    · exact hidle

theorem policy_call {call : GuardCall} (h : ∀ policy, call ≠ .setAllocationPolicy policy)
    (id : ι) : (g.call id call).policy = g.policy := by
  cases call with
  | setAllocationPolicy policy => exact absurd rfl (h policy)
  | noteAllocation bytes =>
    rw [AllocationGuard.call]
    split_ifs <;> rfl
  | _ => rfl

theorem fatal_call (id : ι) (call : GuardCall) : (g.call id call).fatal = g.fatal := by
  cases call with
  | noteAllocation bytes =>
    rw [AllocationGuard.call]
    split_ifs <;> rfl
  | _ => rfl

end AllocationGuard

/-- All threads of a process, each with the calls of the guard it has still to make and the
reports it has read. -/
structure GuardedProcess (ι : Type*) where
  guard : AllocationGuard ι
  remaining : ι → List GuardCall
  reports : ι → List AllocationReport := fun _ => []

/-- One step of one thread, where a compare-exchange may fail spuriously. -/
structure ProcessTurn (ι : Type*) where
  id : ι
  spurious : Bool := false

namespace GuardedProcess
variable {ι : Type*} [DecidableEq ι]

def start (policy : AllocationPolicy) (programs : ι → List GuardCall) : GuardedProcess ι where
  guard := .fresh policy (fun _ => 0) fun _ => 0
  remaining := programs

/-- An idle thread makes its next call, a busy one takes the next access of the call it is in. -/
def step (p : GuardedProcess ι) (turn : ProcessTurn ι) : GuardedProcess ι :=
  if p.guard.fatal.isSome then p
  else if (p.guard.threads turn.id).pc matches .idle then
    match p.remaining turn.id with
    | [] => p
    | call :: rest =>
      { p with
        guard := (p.guard.step { id := turn.id, call, spurious := turn.spurious }).1
        remaining := Function.update p.remaining turn.id rest }
  else
    let result := p.guard.step
      { id := turn.id, call := .allocationReport, spurious := turn.spurious }
    { p with
      guard := result.1
      reports := Function.update p.reports turn.id (p.reports turn.id ++ result.2.toList) }

def processAt (p : GuardedProcess ι) (schedule : ℕ → ProcessTurn ι) (n : ℕ) : GuardedProcess ι :=
  stateAt step p schedule n

/-- A thread has made all its calls and is back from the last one. -/
def Finished (p : GuardedProcess ι) (id : ι) : Prop :=
  p.remaining id = [] ∧ (p.guard.threads id).pc = .idle

/-- No thread resets the report or changes the policy. -/
def Plain (calls : List GuardCall) : Prop :=
  ∀ call ∈ calls, call ≠ .resetAllocationReport ∧ ∀ policy, call ≠ .setAllocationPolicy policy

variable {p : GuardedProcess ι} {turn : ProcessTurn ι}

/-- What one step of a running process can do. -/
inductive Outcome (p : GuardedProcess ι) (turn : ProcessTurn ι) : GuardedProcess ι → Prop
  | finished (hfinished : p.Finished turn.id) : Outcome p turn p
  | call (hidle : (p.guard.threads turn.id).pc = .idle) {call : GuardCall}
      {rest : List GuardCall} (hremaining : p.remaining turn.id = call :: rest) :
      Outcome p turn { p with
        guard := p.guard.call turn.id call
        remaining := Function.update p.remaining turn.id rest }
  | report {violations : UInt64}
      (hreporting : (p.guard.threads turn.id).pc = .reporting violations) :
      Outcome p turn { p with
        guard := p.guard.moveTo turn.id .idle
        reports := Function.update p.reports turn.id
          (p.reports turn.id ++ [{ violations, largestBytes := p.guard.largestBytes }]) }
  | access (hbusy : (p.guard.threads turn.id).pc ≠ .idle)
      (hother : ∀ violations, (p.guard.threads turn.id).pc ≠ .reporting violations) :
      Outcome p turn { p with
        guard := (p.guard.step
          { id := turn.id, call := .allocationReport, spurious := turn.spurious }).1 }

/-- Only the second access of a report returns one. -/
theorem silent_of_not_reporting {g : AllocationGuard ι} {turn : GuardTurn ι}
    (h : ∀ violations, (g.threads turn.id).pc ≠ .reporting violations) :
    (g.step turn).2 = none := by
  by_cases hdead : g.fatal.isSome
  · rw [AllocationGuard.step, if_pos hdead]
  rw [AllocationGuard.step, if_neg hdead]
  cases hpc : (g.threads turn.id).pc with
  | reporting violations => exact absurd hpc (h violations)
  | raised bytes =>
    simp only
    split_ifs <;> rfl
  | idle | raising | resetting => rfl

theorem step_outcome (hrunning : p.guard.fatal = none) : Outcome p turn (p.step turn) := by
  have hsome : ¬ p.guard.fatal.isSome := by simp [hrunning]
  rw [step, if_neg hsome]
  cases hpc : (p.guard.threads turn.id).pc with
  | idle =>
    simp only [if_true]
    cases hremaining : p.remaining turn.id with
    | nil => exact .finished ⟨hremaining, hpc⟩
    | cons call rest =>
      have hcall : (p.guard.step { id := turn.id, call, spurious := turn.spurious }).1 =
          p.guard.call turn.id call := by
        rw [AllocationGuard.step, if_neg hsome]
        simp only [hpc]
      simp only [hcall]
      exact .call hpc hremaining
  | reporting violations =>
    have hstep : p.guard.step
        { id := turn.id, call := .allocationReport, spurious := turn.spurious } =
          (p.guard.moveTo turn.id .idle,
            some { violations, largestBytes := p.guard.largestBytes }) := by
      rw [AllocationGuard.step, if_neg hsome]
      simp only [hpc]
    simp only [hstep]
    exact .report hpc
  | raising | raised | resetting =>
    have hother : ∀ violations, (p.guard.threads turn.id).pc ≠ .reporting violations := by
      simp [hpc]
    have hsilent := @silent_of_not_reporting _ _ p.guard
      { id := turn.id, call := .allocationReport, spurious := turn.spurious } hother
    simp only [hsilent, Option.toList_none, List.append_nil, Function.update_eq_self]
    exact .access (by simp [hpc]) hother

theorem Plain.tail {call : GuardCall} {rest : List GuardCall} (h : Plain (call :: rest)) :
    Plain rest := fun other hother => h other (List.mem_cons_of_mem call hother)

section Account
variable [Fintype ι]

theorem sum_update_of_eq_add {M : Type*} [AddCommMonoid M] {f : ι → M} {i : ι}
    {a b : M} (h : f i = a + b) : a + ∑ j, Function.update f i b j = ∑ j, f j := by
  rw [Finset.sum_update_of_mem (Finset.mem_univ i), ← add_assoc, ← h]
  exact (Finset.sum_eq_add_sum_sdiff_singleton_of_mem (Finset.mem_univ i) f).symm

/-- The violations reported and those still to come are together those of the programs. -/
structure Conserved (programs : ι → List GuardCall) (p : GuardedProcess ι) : Prop where
  plain : ∀ id, Plain (p.remaining id)
  accounted : p.guard.Accounted
  depths : ∀ id, (p.guard.depth id).afterAll (p.remaining id) =
    ({} : ScopeDepth).afterAll (programs id)
  offences : (p.guard.started : Multiset ℕ) +
      ∑ id, ((p.guard.depth id).offences (p.remaining id) : Multiset ℕ) =
    ∑ id, (({} : ScopeDepth).offences (programs id) : Multiset ℕ)

variable {programs : ι → List GuardCall}

omit [DecidableEq ι] in
theorem start_conserved {policy : AllocationPolicy} (hpolicy : policy ≠ .kAbort)
    (hplain : ∀ id, Plain (programs id)) : Conserved programs (start policy programs) where
  plain := hplain
  accounted := AllocationGuard.fresh_accounted hpolicy _ _
  depths _ := rfl
  offences := zero_add _

omit [DecidableEq ι] in
/-- A step that moves no depth counter and reports no violation. -/
theorem Conserved.of_unmoved (h : Conserved programs p) {guard : AllocationGuard ι}
    (haccounted : guard.Accounted) (hdepth : guard.depth = p.guard.depth)
    (hstarted : guard.started = p.guard.started) (reports : ι → List AllocationReport) :
    Conserved programs { p with guard, reports } where
  plain := h.plain
  accounted := haccounted
  depths id := by
    simp only [hdepth]
    exact h.depths id
  offences := by
    simp only [hdepth, hstarted]
    exact h.offences

theorem Conserved.call (h : Conserved programs p) {id : ι}
    (hidle : (p.guard.threads id).pc = .idle) {call : GuardCall} {rest : List GuardCall}
    (hremaining : p.remaining id = call :: rest) :
    Conserved programs { p with
      guard := p.guard.call id call
      remaining := Function.update p.remaining id rest } := by
  have hplain : Plain (call :: rest) := hremaining ▸ h.plain id
  obtain ⟨hreset, hpolicy⟩ := hplain call List.mem_cons_self
  refine ⟨fun other => ?_, h.accounted.call hidle hreset (hpolicy _), fun other => ?_, ?_⟩
  · by_cases hself : other = id
    · subst hself
      simpa using hplain.tail
    · simpa [hself] using h.plain other
  · simp only [AllocationGuard.depth_call]
    by_cases hself : other = id
    · subst hself
      have hbefore := h.depths other
      rw [hremaining] at hbefore
      rw [Function.update_self, Function.update_self]
      exact hbefore
    · simpa [hself] using h.depths other
  · have hnext : (fun other => (((p.guard.call id call).depth other).offences
        (Function.update p.remaining id rest other) : Multiset ℕ)) =
        Function.update (fun other => ((p.guard.depth other).offences (p.remaining other) :
          Multiset ℕ)) id (((p.guard.depth id).after call).offences rest) := by
      funext other
      simp only [AllocationGuard.depth_call]
      by_cases hself : other = id
      · subst hself
        simp
      · simp [hself]
    have hsum := sum_update_of_eq_add (i := id)
      (f := fun other => ((p.guard.depth other).offences (p.remaining other) : Multiset ℕ))
      (a := ((p.guard.depth id).offence call : Multiset ℕ))
      (b := (((p.guard.depth id).after call).offences rest : Multiset ℕ))
      (by rw [hremaining]; rfl)
    rw [← h.offences, ← hsum, AllocationGuard.started_call, ← Multiset.coe_add, add_assoc]
    simp only [← hnext]

theorem Conserved.step (h : Conserved programs p) (turn : ProcessTurn ι) :
    Conserved programs (p.step turn) := by
  have hout := @step_outcome _ _ p turn h.accounted.running
  generalize p.step turn = next at hout
  cases hout with
  | finished => exact h
  | call hidle hremaining => exact h.call hidle hremaining
  | report hreporting =>
    have hfree : p.guard.pending turn.id = none := by
      rw [AllocationGuard.pending, hreporting]
      rfl
    have haccounted : (p.guard.moveTo turn.id .idle).Accounted :=
      h.accounted.setThread hfree (by simp) rfl
    exact h.of_unmoved haccounted (AllocationGuard.depth_moveTo _ _ _) rfl _
  | access hbusy =>
    obtain ⟨hdepth, hstarted, _⟩ := @AllocationGuard.step_of_busy _ _ p.guard
      { id := turn.id, call := .allocationReport, spurious := turn.spurious }
      h.accounted.running hbusy
    have hnext := @AllocationGuard.Accounted.step _ _ p.guard h.accounted
      { id := turn.id, call := .allocationReport, spurious := turn.spurious } (by simp) (by simp)
    exact h.of_unmoved hnext.1 hdepth hstarted p.reports

theorem processAt_conserved {policy : AllocationPolicy} (hpolicy : policy ≠ .kAbort)
    (hplain : ∀ id, Plain (programs id)) (schedule : ℕ → ProcessTurn ι) (n : ℕ) :
    Conserved programs ((start policy programs).processAt schedule n) :=
  stateAt_invariant (fun _ (p : GuardedProcess ι) => Conserved programs p)
    (start_conserved hpolicy hplain) (fun n ih => ih.step (schedule n)) n

end Account
section Abort
variable {programs : ι → List GuardCall}

/-- A thread that is not reporting a violation has committed none, and a violation being reported
is one of its program. -/
def Faultless (offences : List ℕ) (pc : GuardPc) (coming : List ℕ) : Prop :=
  match pc with
  | .raising raise => raise.value ∈ offences
  | .raised bytes => bytes ∈ offences
  | .idle | .reporting _ | .resetting => coming = offences

/-- The process has not survived a violation. -/
structure Unforgiving (programs : ι → List GuardCall) (p : GuardedProcess ι) : Prop where
  policy : p.guard.policy = .kAbort
  plain : ∀ id, Plain (p.remaining id)
  threads : ∀ id, Faultless (({} : ScopeDepth).offences (programs id)) (p.guard.threads id).pc
    ((p.guard.depth id).offences (p.remaining id))
  fatal : ∀ message, p.guard.fatal = some message →
    ∃ id, ∃ bytes ∈ ({} : ScopeDepth).offences (programs id), message = fatalMessage bytes

omit [DecidableEq ι] in
theorem start_unforgiving (hplain : ∀ id, Plain (programs id)) :
    Unforgiving programs (start .kAbort programs) where
  policy := rfl
  plain := hplain
  threads _ := rfl
  fatal _ hnone := nomatch hnone

theorem Unforgiving.call (h : Unforgiving programs p) {id : ι}
    (hidle : (p.guard.threads id).pc = .idle) {call : GuardCall} {rest : List GuardCall}
    (hremaining : p.remaining id = call :: rest) :
    Unforgiving programs { p with
      guard := p.guard.call id call
      remaining := Function.update p.remaining id rest } := by
  have hplain : Plain (call :: rest) := hremaining ▸ h.plain id
  obtain ⟨hreset, hpolicy⟩ := hplain call List.mem_cons_self
  refine ⟨(AllocationGuard.policy_call hpolicy id).trans h.policy, fun other => ?_,
    fun other => ?_, fun message hfatal => ?_⟩
  · by_cases hself : other = id
    · subst hself
      simpa using hplain.tail
    · simpa [hself] using h.plain other
  · simp only [AllocationGuard.depth_call]
    by_cases hself : other = id
    · subst hself
      have hbefore := h.threads other
      rw [hremaining] at hbefore
      simp only [Faultless, hidle, ScopeDepth.offences] at hbefore
      rw [Function.update_self, Function.update_self, AllocationGuard.pc_call hidle, ← hbefore]
      cases call with
      | noteAllocation bytes =>
        rw [AllocationGuard.offence_noteAllocation]
        dsimp only
        split_ifs
        · exact List.mem_cons_self
        · rfl
      | resetAllocationReport => exact absurd rfl hreset
      | enterNoAllocScope | leaveNoAllocScope | enterAllowAllocScope | leaveAllowAllocScope
      | allocationReport | setAllocationPolicy => rfl
    · rw [AllocationGuard.threads_call_other hself, Function.update_of_ne hself,
        Function.update_of_ne hself]
      exact h.threads other
  · exact h.fatal message ((AllocationGuard.fatal_call id call).symm.trans hfatal)

/-- A thread goes on inside a call. -/
theorem Unforgiving.moveTo (h : Unforgiving programs p) {id : ι} {pc : GuardPc}
    (hself : Faultless (({} : ScopeDepth).offences (programs id)) pc
      ((p.guard.depth id).offences (p.remaining id)))
    (largestBytes : ℕ) (reports : ι → List AllocationReport) :
    Unforgiving programs { p with
      guard := { p.guard with largestBytes }.moveTo id pc
      reports } where
  policy := h.policy
  plain := h.plain
  threads other := by
    simp only [AllocationGuard.depth_moveTo]
    by_cases hother : other = id
    · subst hother
      rw [AllocationGuard.pc_moveTo]
      exact hself
    · rw [AllocationGuard.threads_moveTo_other hother]
      exact h.threads other
  fatal := h.fatal

theorem Faultless.afterRaise {offences coming : List ℕ} {raise : Raise ℕ}
    (h : Faultless offences (.raising raise) coming) (cell : ℕ) (spurious : Bool) :
    Faultless offences (.afterRaise raise.value (raise.step cell spurious).2) coming := by
  have hout := raise.step_outcome cell spurious
  generalize raise.step cell spurious = result at hout
  cases hout with
  | exchange => exact h
  | read =>
    cases hretry : Raise.retry raise.value cell with
    | none => exact h
    | some again =>
      change again.value ∈ offences
      rw [Raise.value_of_retry hretry]
      exact h

theorem Unforgiving.step (h : Unforgiving programs p) (turn : ProcessTurn ι) :
    Unforgiving programs (p.step turn) := by
  by_cases hrunning : p.guard.fatal = none
  · have hout := @step_outcome _ _ p turn hrunning
    generalize p.step turn = next at hout
    have hthread := h.threads turn.id
    cases hout with
    | finished => exact h
    | call hidle hremaining => exact h.call hidle hremaining
    | report hreporting =>
      rw [hreporting] at hthread
      exact @Unforgiving.moveTo _ _ p programs h turn.id .idle hthread _ _
    | access hbusy hother =>
      have haccess := p.guard.step_outcome
        { id := turn.id, call := .allocationReport, spurious := turn.spurious } hrunning
      generalize (p.guard.step
        { id := turn.id, call := .allocationReport, spurious := turn.spurious }).1 = guard
        at haccess
      cases haccess with
      | call hidle => exact absurd hidle hbusy
      | report hreporting => exact absurd hreporting (hother _)
      | leave _ hpolicy => exact absurd h.policy hpolicy
      | abort hraised =>
        rw [hraised] at hthread
        refine ⟨h.policy, h.plain, h.threads, fun message hmessage => ?_⟩
        exact ⟨turn.id, _, hthread, (Option.some.inj hmessage).symm⟩
      | reset hresetting =>
        rw [hresetting] at hthread
        exact @Unforgiving.moveTo _ _ p programs h turn.id .idle hthread 0 p.reports
      | raise hraising =>
        rw [hraising] at hthread
        exact h.moveTo (hthread.afterRaise p.guard.largestBytes turn.spurious) _ p.reports
  · have hsome : p.guard.fatal.isSome := Option.isSome_iff_ne_none.mpr hrunning
    rw [GuardedProcess.step, if_pos hsome]
    exact h

theorem processAt_unforgiving (hplain : ∀ id, Plain (programs id))
    (schedule : ℕ → ProcessTurn ι) (n : ℕ) :
    Unforgiving programs ((start .kAbort programs).processAt schedule n) :=
  stateAt_invariant (fun _ (p : GuardedProcess ι) => Unforgiving programs p)
    (start_unforgiving hplain) (fun n ih => ih.step (schedule n)) n

end Abort

theorem plain_calls (code : ScopedCode) : Plain code.calls := by
  induction code with
  | done => simp [Plain, ScopedCode.calls]
  | allocate bytes rest ih => simpa [Plain, ScopedCode.calls] using ih
  | noAllocScope body rest ihBody ih | allowAllocScope body rest ihBody ih =>
    simp only [Plain] at ihBody ih
    simp only [Plain, ScopedCode.calls, List.mem_cons, List.mem_append]
    rintro call (rfl | hbody | rfl | hrest)
    · exact ⟨nofun, nofun⟩
    · exact ihBody call hbody
    · exact ⟨nofun, nofun⟩
    · exact ih call hrest

theorem offences_code (code : ScopedCode) :
    ({} : ScopeDepth).offences code.calls = code.offences false false :=
  ScopeDepth.offences_calls code ⟨le_rfl, le_rfl⟩

theorem foldr_max_le_iff {sizes : List ℕ} {bound : ℕ} :
    sizes.foldr max 0 ≤ bound ↔ ∀ bytes ∈ sizes, bytes ≤ bound := by
  induction sizes with
  | nil => simp
  | cons bytes sizes ih => simp [ih]

omit [DecidableEq ι] in
/-- Once all threads are through, the violations reported are those of the programs. -/
theorem Conserved.started_of_finished [Fintype ι] {programs : ι → List GuardCall}
    (h : Conserved programs p) (hfinished : ∀ id, p.Finished id) :
    (p.guard.started : Multiset ℕ) =
      ∑ id, (({} : ScopeDepth).offences (programs id) : Multiset ℕ) := by
  have hnone : ∀ id, ((p.guard.depth id).offences (p.remaining id) : Multiset ℕ) = 0 := by
    intro id
    rw [(hfinished id).1]
    rfl
  rw [← h.offences, Finset.sum_congr rfl fun id _ => hnone id, Finset.sum_const_zero, add_zero]

omit [DecidableEq ι] in
theorem Conserved.largestBytes_of_finished [Fintype ι] {programs : ι → List GuardCall}
    (h : Conserved programs p) (hfinished : ∀ id, p.Finished id) :
    p.guard.largestBytes =
      Finset.univ.sup fun id => (({} : ScopeDepth).offences (programs id)).foldr max 0 := by
  have hidle : ∀ id, p.guard.pending id = none := by
    intro id
    rw [AllocationGuard.pending, (hfinished id).2]
    rfl
  have hmem (bytes : ℕ) : bytes ∈ p.guard.started ↔
      ∃ id, bytes ∈ ({} : ScopeDepth).offences (programs id) := by
    rw [← Multiset.mem_coe, h.started_of_finished hfinished, Multiset.mem_sum]
    simp
  rw [h.accounted.raised.eq_max hidle]
  refine eq_of_forall_ge_iff fun bound => ?_
  change p.guard.started.foldr max 0 ≤ bound ↔ _
  rw [foldr_max_le_iff, Finset.sup_le_iff]
  simp only [hmem, foldr_max_le_iff]
  exact ⟨fun hall id _ bytes hbytes => hall bytes ⟨id, hbytes⟩,
    fun hall bytes hoffends =>
      hoffends.elim fun id hbytes => hall id (Finset.mem_univ id) bytes hbytes⟩

/-- What the nesting of its scopes makes of the code all threads run, in every interleaving. If
violations are counted, then once all threads are through, the report is the number and the
largest of the allocations that stand in a block that forbids them and in none that suspends the
guard, and no thread is in a scope. If violations abort, a thread that comes to its end has made
no such allocation, and the process dies only of one, naming its size. -/
theorem report_follows_nesting [Fintype ι] (codes : ι → ScopedCode)
    (schedule : ℕ → ProcessTurn ι) (n : ℕ) :
    (∀ policy, policy ≠ .kAbort →
      (∀ id, ((start policy fun id => (codes id).calls).processAt schedule n).Finished id) →
      ((start policy fun id => (codes id).calls).processAt schedule n).guard.violations.toNat =
          (∑ id, ((codes id).offences false false).length) % 2 ^ 64 ∧
        ((start policy fun id => (codes id).calls).processAt schedule n).guard.largestBytes =
          Finset.univ.sup (fun id => ((codes id).offences false false).foldr max 0) ∧
        ∀ id, ((start policy fun id => (codes id).calls).processAt schedule n).guard.depth id =
          {}) ∧
    (∀ id, ((start .kAbort fun id => (codes id).calls).processAt schedule n).Finished id →
      (codes id).offences false false = []) ∧
    ∀ message, ((start .kAbort fun id => (codes id).calls).processAt schedule n).guard.fatal =
        some message →
      ∃ id, ∃ bytes ∈ (codes id).offences false false, message = fatalMessage bytes := by
  have hplain : ∀ id, Plain (codes id).calls := fun id => plain_calls (codes id)
  have habort := processAt_unforgiving hplain schedule n
  refine ⟨fun policy hpolicy hfinished => ?_, fun id hfinished => ?_, fun message hmessage => ?_⟩
  · have hconserved := processAt_conserved hpolicy hplain schedule n
    have hstarted := congrArg Multiset.card (hconserved.started_of_finished hfinished)
    have hlargest := hconserved.largestBytes_of_finished hfinished
    simp only [Multiset.card_sum, Multiset.coe_card, offences_code] at hstarted hlargest
    refine ⟨?_, hlargest, fun id => ?_⟩
    · rw [hconserved.accounted.counted, UInt64.toNat_ofNat', hstarted]
    · have hdepth := hconserved.depths id
      rw [(hfinished id).1, ScopeDepth.afterAll_calls] at hdepth
      exact hdepth
  · have hthread := habort.threads id
    rw [hfinished.1, hfinished.2, offences_code] at hthread
    exact hthread.symm
  · obtain ⟨id, bytes, hbytes, hnames⟩ := habort.fatal message hmessage
    rw [offences_code] at hbytes
    exact ⟨id, bytes, hbytes, hnames⟩

/-- One thread allocates where it must not, the other one where the guard is suspended. -/
def racing : Bool → ScopedCode
  | true => .noAllocScope (.allocate 32 .done) .done
  | false => .allowAllocScope (.allocate 256 .done) .done

/-- If violations are counted the report is of the one, if they abort the process dies of it when
the other thread is through. -/
theorem report_follows_nesting_racing :
    let counting := (start .kCount fun id => (racing id).calls).processAt
      (fun k => { id := k % 2 = 0 }) 20
    let aborting := (start .kAbort fun id => (racing id).calls).processAt
      (fun k => { id := k % 2 = 0 }) 20
    ((∀ id, counting.Finished id) ∧ counting.guard.violations.toNat = 1 ∧
      counting.guard.largestBytes = 32) ∧
    (aborting.Finished false ∧ (racing false).offences false false = []) ∧
    aborting.guard.fatal = some (fatalMessage 32) ∧
      ∃ id, ∃ bytes ∈ (racing id).offences false false, fatalMessage 32 = fatalMessage bytes := by
  intro counting aborting
  have hfinished : ∀ id, counting.Finished id := by
    intro id
    cases id <;> exact ⟨rfl, rfl⟩
  have hthrough : aborting.Finished false := ⟨rfl, rfl⟩
  have hfatal : aborting.guard.fatal = some (fatalMessage 32) := rfl
  obtain ⟨hcounts, hends, hdies⟩ :=
    report_follows_nesting racing (fun k => { id := k % 2 = 0 }) 20
  obtain ⟨hviolations, hlargest, -⟩ := hcounts .kCount nofun hfinished
  exact ⟨⟨hfinished, hviolations, hlargest⟩, ⟨hthrough, hends false hthrough⟩, hfatal,
    hdies _ hfatal⟩

end GuardedProcess
end SafeEdge.Rt
