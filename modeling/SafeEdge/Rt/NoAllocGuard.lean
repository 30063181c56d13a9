import SafeEdge.Library.AtomicMax
import SafeEdge.Library.Run

/-! The allocation guard, taken apart into the single accesses of all threads to its shared
counters: under any interleaving no violation and no maximum is lost. -/
namespace SafeEdge.Rt
open Library

inductive AllocationPolicy where
  | kIgnore
  | kCount
  | kAbort
  deriving DecidableEq, Repr

structure AllocationReport where
  violations : UInt64 := 0
  largestBytes : ℕ := 0
  deriving DecidableEq, Repr

/-- Where a thread stands in a call of the guard. -/
inductive GuardPc where
  | idle
  | raising (raise : Raise ℕ)
  | raised (bytes : ℕ)
  | reporting (violations : UInt64)
  | resetting

namespace GuardPc

/-- The thread is inside `reportViolation`. -/
def inReport : GuardPc → Bool
  | .raising _ | .raised _ => true
  | .idle | .reporting _ | .resetting => false

/-- The loop on the largest size, while the thread is in it. -/
def raise? : GuardPc → Option (Raise ℕ)
  | .raising raise => some raise
  | .idle | .raised _ | .reporting _ | .resetting => none

/-- Where `reportViolation` goes on after an access of its loop. -/
def afterRaise (bytes : ℕ) : Option (Raise ℕ) → GuardPc
  | some raise => .raising raise
  | none => .raised bytes

@[simp] theorem raise?_afterRaise (bytes : ℕ) (rest : Option (Raise ℕ)) :
    (afterRaise bytes rest).raise? = rest := by
  cases rest <;> rfl

theorem afterRaise_ne_resetting (bytes : ℕ) (rest : Option (Raise ℕ)) :
    afterRaise bytes rest ≠ .resetting := by
  cases rest <;> exact nofun

theorem raise?_of_not_inReport {pc : GuardPc} (h : pc.inReport = false) : pc.raise? = none := by
  cases pc with
  | raising => simp [inReport] at h
  | _ => rfl

end GuardPc

/-- The thread-local state of the guard. -/
structure GuardThread where
  noAllocDepth : ℤ := 0
  allowDepth : ℤ := 0
  pc : GuardPc := .idle

def GuardThread.inNoAllocScope (thread : GuardThread) : Bool :=
  thread.noAllocDepth > 0 && thread.allowDepth == 0

/-- What an idle thread may do with the guard. -/
inductive GuardCall where
  | enterNoAllocScope
  | leaveNoAllocScope
  | enterAllowAllocScope
  | leaveAllowAllocScope
  | setAllocationPolicy (policy : AllocationPolicy)
  | allocationReport
  | resetAllocationReport
  | noteAllocation (bytes : ℕ)
  deriving DecidableEq

/-- One step of one thread. An idle thread makes the call given, a busy one takes the next
access of its call, where a compare-exchange may fail spuriously. -/
structure GuardTurn (ι : Type*) where
  id : ι
  call : GuardCall
  spurious : Bool := false

/-- What is written before the process is aborted. -/
def fatalMessage (bytes : ℕ) : String :=
  "\nsafeedge: FATAL -- allocation of " ++ toString bytes ++
    " bytes inside a NoAllocScope (real-time path)\n"

/-- The shared state of the guard, all threads, the last words of the process once it is
aborted, and the sizes of the calls of `reportViolation` so far. -/
structure AllocationGuard (ι : Type*) where
  violations : UInt64 := 0
  largestBytes : ℕ := 0
  policy : AllocationPolicy := .kAbort
  threads : ι → GuardThread := fun _ => {}
  fatal : Option String := none
  started : List ℕ := []

namespace AllocationGuard
variable {ι : Type*}

/-- A report just reset, and no thread in a call. -/
def fresh (policy : AllocationPolicy) (noAllocDepth allowDepth : ι → ℤ) : AllocationGuard ι where
  policy := policy
  threads id := { noAllocDepth := noAllocDepth id, allowDepth := allowDepth id }

/-- The loops on the largest size that are under way. -/
def pending (g : AllocationGuard ι) (id : ι) : Option (Raise ℕ) := (g.threads id).pc.raise?

variable [DecidableEq ι] (g : AllocationGuard ι)

def setThread (id : ι) (thread : GuardThread) : AllocationGuard ι :=
  { g with threads := Function.update g.threads id thread }

def moveTo (id : ι) (pc : GuardPc) : AllocationGuard ι :=
  g.setThread id { g.threads id with pc }

/-- The first access of a call. -/
def call (id : ι) : GuardCall → AllocationGuard ι
  | .enterNoAllocScope =>
    g.setThread id { g.threads id with noAllocDepth := (g.threads id).noAllocDepth + 1 }
  | .leaveNoAllocScope =>
    g.setThread id { g.threads id with noAllocDepth := (g.threads id).noAllocDepth - 1 }
  | .enterAllowAllocScope =>
    g.setThread id { g.threads id with allowDepth := (g.threads id).allowDepth + 1 }
  | .leaveAllowAllocScope =>
    g.setThread id { g.threads id with allowDepth := (g.threads id).allowDepth - 1 }
  | .setAllocationPolicy policy => { g with policy }
  | .allocationReport => g.moveTo id (.reporting g.violations)
  | .resetAllocationReport => { g with violations := 0 }.moveTo id .resetting
  | .noteAllocation bytes =>
    if (g.threads id).inNoAllocScope then
      { g with violations := g.violations + 1, started := g.started ++ [bytes] }.moveTo id
        (.raising (.loading bytes))
    else g

/-- One step, and the report it returns if a call of `allocationReport` ends there. -/
def step (turn : GuardTurn ι) : AllocationGuard ι × Option AllocationReport :=
  if g.fatal.isSome then (g, none)
  else match (g.threads turn.id).pc with
    | .idle => (g.call turn.id turn.call, none)
    | .raising raise =>
      let (largestBytes, rest) := raise.step g.largestBytes turn.spurious
      ({ g with largestBytes }.moveTo turn.id (.afterRaise raise.value rest), none)
    | .raised bytes =>
      if g.policy ≠ .kAbort then (g.moveTo turn.id .idle, none)
      else ({ g with fatal := some (fatalMessage bytes) }, none)
    | .reporting violations =>
      (g.moveTo turn.id .idle, some { violations, largestBytes := g.largestBytes })
    | .resetting => ({ g with largestBytes := 0 }.moveTo turn.id .idle, none)

/-- What one step of a running process can do. -/
inductive Outcome (turn : GuardTurn ι) : AllocationGuard ι → Prop
  | call (hidle : (g.threads turn.id).pc = .idle) : Outcome turn (g.call turn.id turn.call)
  | raise {raise : Raise ℕ} (hraising : (g.threads turn.id).pc = .raising raise) :
      Outcome turn
        ({ g with largestBytes := (raise.step g.largestBytes turn.spurious).1 }.moveTo turn.id
          (.afterRaise raise.value (raise.step g.largestBytes turn.spurious).2))
  | leave {bytes : ℕ} (hraised : (g.threads turn.id).pc = .raised bytes)
      (hpolicy : g.policy ≠ .kAbort) : Outcome turn (g.moveTo turn.id .idle)
  | abort {bytes : ℕ} (hraised : (g.threads turn.id).pc = .raised bytes)
      (hpolicy : g.policy = .kAbort) :
      Outcome turn { g with fatal := some (fatalMessage bytes) }
  | report {violations : UInt64} (hreporting : (g.threads turn.id).pc = .reporting violations) :
      Outcome turn (g.moveTo turn.id .idle)
  | reset (hresetting : (g.threads turn.id).pc = .resetting) :
      Outcome turn ({ g with largestBytes := 0 }.moveTo turn.id .idle)

theorem step_outcome (turn : GuardTurn ι) (hrunning : g.fatal = none) :
    g.Outcome turn (g.step turn).1 := by
  have hsome : ¬ g.fatal.isSome := by simp [hrunning]
  rw [step, if_neg hsome]
  split
  next hidle => exact .call hidle
  next raise hraising => exact .raise hraising
  next bytes hraised =>
    split_ifs with hpolicy
    · exact .leave hraised hpolicy
    · exact .abort hraised (not_not.mp hpolicy)
  next violations hreporting => exact .report hreporting
  next hresetting => exact .reset hresetting

/-- The guard before turn `n` of a schedule. -/
def guardAt (schedule : ℕ → GuardTurn ι) (n : ℕ) : AllocationGuard ι :=
  stateAt (fun g turn => (step g turn).1) g schedule n

/-- No call touches the largest size with its first access. -/
theorem call_largestBytes (id : ι) (call : GuardCall) :
    (g.call id call).largestBytes = g.largestBytes := by
  cases call with
  | noteAllocation bytes =>
    rw [AllocationGuard.call]
    split_ifs <;> rfl
  | _ => rfl

theorem pending_setThread (id : ι) (thread : GuardThread) :
    (g.setThread id thread).pending = Function.update g.pending id thread.pc.raise? := by
  funext other
  by_cases hself : other = id
  · subst hself
    simp [pending, setThread]
  · simp [pending, setThread, hself]

/-- Nobody resets the report or lets violations abort, every call is counted, and the largest
size is the maximum of those no longer being compared. -/
structure Accounted : Prop where
  policy : g.policy ≠ .kAbort
  running : g.fatal = none
  kept : ∀ id, (g.threads id).pc ≠ .resetting
  counted : g.violations = UInt64.ofNat g.started.length
  raised : Raised g.largestBytes g.pending g.started

variable {g}

omit [DecidableEq ι] in
theorem fresh_accounted {policy : AllocationPolicy} (hpolicy : policy ≠ .kAbort)
    (noAllocDepth allowDepth : ι → ℤ) : (fresh policy noAllocDepth allowDepth).Accounted where
  policy := hpolicy
  running := rfl
  kept _ := nofun
  counted := rfl
  raised := raised_nil

theorem setThread_kept (h : ∀ id, (g.threads id).pc ≠ .resetting) (id : ι) {thread : GuardThread}
    (hpc : thread.pc ≠ .resetting) (other : ι) :
    ((g.setThread id thread).threads other).pc ≠ .resetting := by
  by_cases hself : other = id
  · subst hself
    simpa [setThread] using hpc
  · simpa [setThread, hself] using h other

/-- A thread outside the loop that stays outside it leaves the account alone. -/
theorem Accounted.setThread (h : g.Accounted) {id : ι} (hfree : g.pending id = none)
    {thread : GuardThread} (hpc : thread.pc ≠ .resetting) (hraise : thread.pc.raise? = none) :
    (g.setThread id thread).Accounted where
  policy := h.policy
  running := h.running
  kept := setThread_kept h.kept id hpc
  counted := h.counted
  raised := by
    rw [pending_setThread, hraise, ← hfree, Function.update_eq_self]
    exact h.raised

theorem Accounted.call (h : g.Accounted) {id : ι} (hidle : (g.threads id).pc = .idle)
    {call : GuardCall} (hreset : call ≠ .resetAllocationReport)
    (habort : call ≠ .setAllocationPolicy .kAbort) : (g.call id call).Accounted := by
  have hfree : g.pending id = none := by rw [pending, hidle]; rfl
  cases call with
  | enterNoAllocScope | leaveNoAllocScope | enterAllowAllocScope | leaveAllowAllocScope =>
    exact h.setThread hfree (by simp [hidle]) (by simp [hidle, GuardPc.raise?])
  | setAllocationPolicy policy =>
    exact ⟨fun hsame => habort (congrArg _ hsame), h.running, h.kept, h.counted, h.raised⟩
  | allocationReport => exact h.setThread hfree nofun rfl
  | resetAllocationReport => exact absurd rfl hreset
  | noteAllocation bytes =>
    rw [AllocationGuard.call]
    split_ifs with hscope
    · refine ⟨h.policy, h.running, setThread_kept h.kept id nofun, ?_, ?_⟩
      · change g.violations + 1 = UInt64.ofNat (g.started ++ [bytes]).length
        rw [h.counted, List.length_append, List.length_singleton, UInt64.ofNat_add]
        rfl
      · change Raised g.largestBytes (g.setThread id _).pending (g.started ++ [bytes])
        rw [pending_setThread]
        exact h.raised.offer hfree bytes
    · exact h

/-- What a turn does to the account, as long as nobody resets it. -/
theorem Accounted.step (h : g.Accounted) {turn : GuardTurn ι}
    (hreset : turn.call ≠ .resetAllocationReport)
    (habort : turn.call ≠ .setAllocationPolicy .kAbort) :
    (g.step turn).1.Accounted ∧ g.largestBytes ≤ (g.step turn).1.largestBytes := by
  have hout := g.step_outcome turn h.running
  generalize (g.step turn).1 = next at hout
  cases hout with
  | call hidle =>
    exact ⟨h.call hidle hreset habort, (call_largestBytes g turn.id turn.call).ge⟩
  | @raise raise hraising =>
    have hpending : g.pending turn.id = some raise := by rw [pending, hraising]; rfl
    refine ⟨⟨h.policy, h.running, ?_, h.counted, ?_⟩, raise.le_step _ _⟩
    · exact setThread_kept h.kept turn.id (GuardPc.afterRaise_ne_resetting _ _)
    · have hstep := h.raised.step hpending turn.spurious
      change Raised _ (g.setThread turn.id _).pending g.started
      rw [pending_setThread, GuardPc.raise?_afterRaise]
      exact hstep
  | leave hpc | report hpc =>
    have hfree : g.pending turn.id = none := by rw [pending, hpc]; rfl
    exact ⟨h.setThread hfree nofun rfl, le_rfl⟩
  | abort _ hpolicy => exact absurd hpolicy h.policy
  | reset hresetting => exact absurd hresetting (h.kept turn.id)

/-- However many threads allocate in their scopes, under a policy that does not abort and with
nobody resetting the report: the largest size is that of a call already started and never
decreases, and once all calls have returned each of them is counted and none is larger. -/
theorem violations_accounted (policy : AllocationPolicy) (noAllocDepth allowDepth : ι → ℤ)
    (schedule : ℕ → GuardTurn ι) (hpolicy : policy ≠ .kAbort)
    (hreset : ∀ n, (schedule n).call ≠ .resetAllocationReport)
    (habort : ∀ n, (schedule n).call ≠ .setAllocationPolicy .kAbort) :
    (∀ n, ((fresh policy noAllocDepth allowDepth).guardAt schedule n).largestBytes = 0 ∨
      ((fresh policy noAllocDepth allowDepth).guardAt schedule n).largestBytes ∈
        ((fresh policy noAllocDepth allowDepth).guardAt schedule n).started) ∧
    Monotone (fun n =>
      ((fresh policy noAllocDepth allowDepth).guardAt schedule n).largestBytes) ∧
    ∀ n, (∀ id, (((fresh policy noAllocDepth allowDepth).guardAt schedule n).threads
        id).pc.inReport = false) →
      ((fresh policy noAllocDepth allowDepth).guardAt schedule n).violations.toNat =
        ((fresh policy noAllocDepth allowDepth).guardAt schedule n).started.length % 2 ^ 64 ∧
      ((fresh policy noAllocDepth allowDepth).guardAt schedule n).largestBytes =
        ((fresh policy noAllocDepth allowDepth).guardAt schedule n).started.foldr max 0 := by
  have haccounted : ∀ n,
      ((fresh policy noAllocDepth allowDepth).guardAt schedule n).Accounted := fun n =>
    stateAt_invariant (fun _ (g : AllocationGuard ι) => g.Accounted)
      (fresh_accounted hpolicy noAllocDepth allowDepth)
      (fun n ih => (ih.step (hreset n) (habort n)).1) n
  refine ⟨fun n => (haccounted n).raised.source, ?_, fun n hdone => ⟨?_, ?_⟩⟩
  · apply monotone_nat_of_le_succ
    intro n
    exact ((haccounted n).step (hreset n) (habort n)).2
  · rw [(haccounted n).counted, UInt64.toNat_ofNat']
  · exact (haccounted n).raised.eq_max fun id => GuardPc.raise?_of_not_inReport (hdone id)

/-- Two threads race for the largest size, and one exchange fails for no reason. -/
def racing (n : ℕ) : GuardTurn Bool where
  id := n = 1 ∨ n = 3 ∨ (5 ≤ n ∧ n ≤ 7) ∨ n = 9
  call := .noteAllocation (if n = 1 then 64 else 32)
  spurious := n = 6

theorem violations_accounted_racing :
    ((fresh .kCount (fun _ => 1) fun _ => 0).guardAt racing 10).violations.toNat = 2 % 2 ^ 64 ∧
      ((fresh .kCount (fun _ => 1) fun _ => 0).guardAt racing 10).largestBytes = 64 := by
  have haccounted := violations_accounted .kCount (fun _ => 1) (fun _ => 0) racing nofun
    (fun _ => nofun) (fun _ => nofun)
  exact haccounted.2.2 10 (by decide)

end AllocationGuard
end SafeEdge.Rt
