import SafeEdge.Library.Decimal

/-! What applying a thread configuration reports, and which bytes of the stack it touches. The
outcomes of the system calls are the environment's. -/
namespace SafeEdge.Rt
open Library

inductive SchedulingPolicy where
  | default
  | fifo
  | roundRobin
  deriving DecidableEq

/-- The constants `SCHED_FIFO`, `SCHED_RR` and `SCHED_OTHER`. -/
def toPosixPolicy : SchedulingPolicy → ℤ
  | .fifo => 1
  | .roundRobin => 2
  | .default => 0

structure ThreadConfig where
  policy : SchedulingPolicy := .default
  priority : Int32 := 0
  cpu : Int32 := -1
  lockMemory : Bool := false
  prefaultStack : Bool := false
  prefaultBytes : UInt64 := 512 * 1024

/-- The text after a further one has been appended in a buffer of 512 bytes, cut off where the
buffer ends. -/
def appendText (buffer text : List Char) : List Char :=
  let used := buffer.length
  let remaining := 512 - used - 1
  if remaining = 0 then buffer
  else if 0 < used ∧ 2 < remaining then buffer ++ ';' :: ' ' :: text.take (remaining - 2)
  else buffer ++ text.take remaining

theorem length_appendText_lt {buffer : List Char} (h : buffer.length < 512) (text : List Char) :
    (appendText buffer text).length < 512 := by
  simp only [appendText]
  split_ifs
  · exact h
  · simp only [List.length_append, List.length_cons, List.length_take]
    omega
  · simp only [List.length_append, List.length_take]
    omega

theorem length_appendText_le (buffer text : List Char) :
    (appendText buffer text).length ≤ buffer.length + 2 + text.length := by
  simp only [appendText]
  split_ifs
  · omega
  · simp only [List.length_append, List.length_cons, List.length_take]
    omega
  · simp only [List.length_append, List.length_take]
    omega

/-- With room enough the text is there in full. -/
theorem suffix_appendText {buffer text : List Char} (h : buffer.length + 2 + text.length < 512) :
    text <:+ appendText buffer text := by
  simp only [appendText]
  split_ifs
  · omega
  · rw [List.take_of_length_le (by omega)]
    exact ⟨buffer ++ [';', ' '], by simp⟩
  · rw [List.take_of_length_le (by omega)]
    exact List.suffix_append _ _

/-- The text in the diagnostics buffer, up to its terminating zero. -/
structure Diagnostics where
  text : List Char
  fits : text.length < 512

def appendDiagnostic (buffer : Diagnostics) (text : List Char) : Diagnostics where
  text := appendText buffer.text text
  fits := length_appendText_lt buffer.fits text

def appendErrno (buffer : Diagnostics) (call : List Char) (error : Int32) : Diagnostics :=
  appendDiagnostic buffer
    (snprintf 192 (call ++ " failed (errno ".toList ++ intText error.toInt ++ ")".toList))

theorem length_nil_lt : ([] : List Char).length < 512 := by decide

structure ThreadConfigReport where
  schedulingApplied : Bool := false
  affinityApplied : Bool := false
  memoryLocked : Bool := false
  stackPrefaulted : Bool := false
  effectivePolicy : ℤ := 0
  effectivePriority : Int32 := 0
  diagnostics : Diagnostics := { text := [], fits := length_nil_lt }

def ThreadConfigReport.fullyApplied (report : ThreadConfigReport) : Bool :=
  report.diagnostics.text.isEmpty

/-- What the system calls return: result codes, the scheduling read back, the processors of the
affinity mask read back, the error of a failed `mlockall`, and the page size. -/
structure ThreadCalls where
  setschedparam : Int32 := 0
  getschedparam : Option (ℤ × Int32) := none
  setaffinity : Int32 := 0
  getaffinity : Option (Finset ℕ) := none
  mlockall : Option Int32 := none
  pageSize : Int64 := 4096

section Apply
variable (config : ThreadConfig) (calls : ThreadCalls) (report : ThreadConfigReport)

/-- Nothing had to be set, or the call returned no error. -/
def setCallSucceeded : Bool := config.policy = .default ∨ calls.setschedparam = 0

def setScheduling : ThreadConfigReport :=
  if setCallSucceeded config calls then { report with schedulingApplied := true }
  else
    { report with
      diagnostics :=
        appendErrno report.diagnostics "pthread_setschedparam".toList calls.setschedparam }

/-- What is actually in force is compared with what was asked for. -/
def readBackScheduling : ThreadConfigReport :=
  match calls.getschedparam with
  | none => report
  | some (policy, priority) =>
    if setCallSucceeded config calls ∧ config.policy ≠ .default ∧
        policy ≠ toPosixPolicy config.policy then
      { report with
        effectivePolicy := policy
        effectivePriority := priority
        schedulingApplied := false
        diagnostics := appendDiagnostic report.diagnostics
          "scheduling policy did not take effect despite a successful call".toList }
    else { report with effectivePolicy := policy, effectivePriority := priority }

def applyAffinity : ThreadConfigReport :=
  if config.cpu < 0 then { report with affinityApplied := true }
  else if calls.setaffinity ≠ 0 then
    { report with
      diagnostics :=
        appendErrno report.diagnostics "pthread_setaffinity_np".toList calls.setaffinity }
  else if calls.getaffinity = some {config.cpu.toInt.toNat} then
    { report with affinityApplied := true }
  else
    { report with
      diagnostics :=
        appendDiagnostic report.diagnostics "cpu affinity did not take effect".toList }

def lockMemory : ThreadConfigReport :=
  if config.lockMemory then
    match calls.mlockall with
    | none => { report with memoryLocked := true }
    | some error =>
      { report with diagnostics := appendErrno report.diagnostics "mlockall".toList error }
  else { report with memoryLocked := true }

/-- The page size the prefault works with. -/
def pageSize : ℕ := if 0 < calls.pageSize.toInt then calls.pageSize.toInt.toNat else 4096

/-- The whole pages in the requested number of bytes. -/
def pages : ℕ := config.prefaultBytes.toNat / pageSize calls

def scratchSize : ℕ := 65536

/-- The loop over the scratch array: the offsets it writes to. -/
def touchFrom (pageSize touch offset : ℕ) : List ℕ :=
  if 0 < pageSize ∧ offset < touch then offset :: touchFrom pageSize touch (offset + pageSize)
  else []
termination_by touch - offset

/-- The report, and the offsets of the scratch array that were written. -/
def prefaultStack : ThreadConfigReport × List ℕ :=
  if !config.prefaultStack then ({ report with stackPrefaulted := true }, [])
  else if 0 < pages config calls ∧ pages config calls < 65536 then
    let touch := Min.min (pages config calls * pageSize calls) scratchSize
    ({ report with stackPrefaulted := true }, touchFrom (pageSize calls) touch 0)
  else
    ({ report with
      diagnostics :=
        appendDiagnostic report.diagnostics "prefault_bytes out of supported range".toList }, [])

/-- The report, and the bytes of the stack that were written, as offsets in the scratch array. -/
def applyThreadConfig : ThreadConfigReport × List ℕ :=
  let scheduled := setScheduling config calls {}
  let readBack := readBackScheduling config calls scheduled
  let pinned := applyAffinity config calls readBack
  let locked := lockMemory config calls pinned
  prefaultStack config calls locked

end Apply

section Diagnostics
variable (config : ThreadConfig) (calls : ThreadCalls) (report : ThreadConfigReport)

theorem length_appendErrno_le (buffer : Diagnostics) {call : List Char} (h : call.length ≤ 22)
    (error : Int32) : (appendErrno buffer call error).text.length ≤ buffer.text.length + 65 := by
  have hlow := error.le_toInt
  have hhigh := error.toInt_lt
  have hnumber := @length_intText_le error.toInt (by omega)
  have hwords : " failed (errno ".toList.length = 15 ∧ ")".toList.length = 1 := by decide
  refine (length_appendText_le _ _).trans ?_
  simp only [snprintf, List.length_take, List.length_append]
  omega

/-- What a step before the prefault does to the report: it adds at most one line to the
diagnostics, and it does not say that the stack is prefaulted. -/
structure AddsDiagnostic (before after : ThreadConfigReport) : Prop where
  stackPrefaulted : after.stackPrefaulted = before.stackPrefaulted
  length : after.diagnostics.text.length ≤ before.diagnostics.text.length + 65

theorem setScheduling_addsDiagnostic :
    AddsDiagnostic report (setScheduling config calls report) := by
  unfold setScheduling
  split_ifs
  · exact ⟨rfl, Nat.le_add_right _ _⟩
  · exact ⟨rfl, length_appendErrno_le _ (by decide) _⟩

theorem readBackScheduling_addsDiagnostic :
    AddsDiagnostic report (readBackScheduling config calls report) := by
  unfold readBackScheduling
  split
  · exact ⟨rfl, Nat.le_add_right _ _⟩
  · split_ifs
    · exact ⟨rfl, length_appendText_le _ _⟩
    · exact ⟨rfl, Nat.le_add_right _ _⟩

theorem applyAffinity_addsDiagnostic :
    AddsDiagnostic report (applyAffinity config calls report) := by
  unfold applyAffinity
  split_ifs
  · exact ⟨rfl, Nat.le_add_right _ _⟩
  · exact ⟨rfl, length_appendErrno_le _ (by decide) _⟩
  · exact ⟨rfl, Nat.le_add_right _ _⟩
  · have hline := length_appendText_le report.diagnostics.text
      "cpu affinity did not take effect".toList
    exact ⟨rfl, hline.trans (Nat.add_le_add_left (show 2 + 32 ≤ 65 by decide) _)⟩

theorem lockMemory_addsDiagnostic : AddsDiagnostic report (lockMemory config calls report) := by
  unfold lockMemory
  split_ifs
  · split
    · exact ⟨rfl, Nat.le_add_right _ _⟩
    · exact ⟨rfl, length_appendErrno_le _ (by decide) _⟩
  · exact ⟨rfl, Nat.le_add_right _ _⟩

/-- The report as the prefault of the stack finds it. -/
def beforePrefault : ThreadConfigReport :=
  lockMemory config calls
    (applyAffinity config calls (readBackScheduling config calls (setScheduling config calls {})))

/-- At most four diagnostics stand in the buffer by then. -/
theorem beforePrefault_spec : (beforePrefault config calls).stackPrefaulted = false ∧
    (beforePrefault config calls).diagnostics.text.length ≤ 260 := by
  have hset := setScheduling_addsDiagnostic config calls {}
  have hread := readBackScheduling_addsDiagnostic config calls (setScheduling config calls {})
  have hpinned := applyAffinity_addsDiagnostic config calls
    (readBackScheduling config calls (setScheduling config calls {}))
  have hlocked := lockMemory_addsDiagnostic config calls
    (applyAffinity config calls (readBackScheduling config calls (setScheduling config calls {})))
  have hempty : ({} : ThreadConfigReport).diagnostics.text.length = 0 := rfl
  unfold beforePrefault
  constructor
  · rw [hlocked.stackPrefaulted, hpinned.stackPrefaulted, hread.stackPrefaulted,
      hset.stackPrefaulted]
  · have hset' := hset.length
    have hread' := hread.length
    have hpinned' := hpinned.length
    have hlocked' := hlocked.length
    omega

end Diagnostics

section Prefault

theorem mem_touchFrom {pageSize : ℕ} (hpage : 0 < pageSize) {touch offset byte : ℕ} :
    byte ∈ touchFrom pageSize touch offset ↔ byte < touch ∧ ∃ k, byte = offset + k * pageSize := by
  induction offset using touchFrom.induct pageSize touch with
  | case1 offset hloop ih =>
    rw [touchFrom, if_pos hloop, List.mem_cons, ih]
    constructor
    · rintro (rfl | ⟨hlt, k, rfl⟩)
      · exact ⟨hloop.2, 0, by simp⟩
      · exact ⟨hlt, k + 1, by ring⟩
    · rintro ⟨hlt, k, rfl⟩
      cases k with
      | zero => exact Or.inl (by simp)
      | succ k => exact Or.inr ⟨hlt, k, by ring⟩
  | case2 offset hdone =>
    rw [touchFrom, if_neg hdone]
    constructor
    · exact fun h => absurd h (List.not_mem_nil)
    · rintro ⟨hlt, k, rfl⟩
      exact absurd ⟨hpage, (Nat.le_add_right _ _).trans_lt hlt⟩ hdone

/-- A byte is touched in each of so many consecutive pages, when the scratch array stands at the
given address. -/
def CoversPages (pageSize : ℕ) (touched : List ℕ) (base count : ℕ) : Prop :=
  ∃ first, ∀ k < count, ∃ offset ∈ touched, (base + offset) / pageSize = first + k

/-- Wherever the array stands, the loop covers so many pages exactly if it reaches the start of
the last one. -/
theorem coversPages_iff {pageSize : ℕ} (hpage : 0 < pageSize) (touch base count : ℕ) :
    CoversPages pageSize (touchFrom pageSize touch 0) base count ↔
      count = 0 ∨ (count - 1) * pageSize < touch := by
  constructor
  · rintro ⟨first, hpages⟩
    have hpage_of (k : ℕ) (hk : k < count) :
        ∃ l, l * pageSize < touch ∧ base / pageSize + l = first + k := by
      obtain ⟨offset, htouched, hplace⟩ := hpages k hk
      obtain ⟨hlt, l, rfl⟩ := (mem_touchFrom hpage).mp htouched
      rw [zero_add] at hlt hplace
      exact ⟨l, hlt, (Nat.add_mul_div_right _ _ hpage).symm.trans hplace⟩
    rcases Nat.eq_zero_or_pos count with hzero | hpos
    · exact Or.inl hzero
    · obtain ⟨_, _, hfirst⟩ := hpage_of 0 hpos
      obtain ⟨l, hlt, hlast⟩ := hpage_of (count - 1) (by omega)
      exact Or.inr ((Nat.mul_le_mul_right _ (by omega)).trans_lt hlt)
  · intro hreach
    refine ⟨base / pageSize, fun k hk => ⟨k * pageSize, (mem_touchFrom hpage).mpr ⟨?_, k, by simp⟩,
      Nat.add_mul_div_right _ _ hpage⟩⟩
    rcases hreach with hnone | hlast
    · omega
    · exact (Nat.mul_le_mul_right _ (by omega)).trans_lt hlast

end Prefault

/-- A reported prefault has touched every requested page, and otherwise a diagnostic says why,
exactly if the last page starts within the scratch array or the request is refused as too large.
The scratch array stands at `base`. -/
theorem prefault_reported_iff (config : ThreadConfig) (calls : ThreadCalls) (base : ℕ)
    (hprefault : config.prefaultStack = true) (hpage : 0 < calls.pageSize.toInt) :
    let result := applyThreadConfig config calls
    let size := calls.pageSize.toInt.toNat
    let count := config.prefaultBytes.toNat / size
    ((result.1.stackPrefaulted = true → CoversPages size result.2 base count) ∧
      (result.1.stackPrefaulted = false →
        "prefault_bytes out of supported range".toList <:+ result.1.diagnostics.text ∧
          result.1.fullyApplied = false)) ↔
      ((count - 1) * size < 65536 ∨ 65536 ≤ count) := by
  intro result size count
  have hsize : pageSize calls = size := if_pos hpage
  have hcount : pages config calls = count := by rw [pages, hsize]
  have hpos : 0 < size := by omega
  have hresult : result = prefaultStack config calls (beforePrefault config calls) := rfl
  rw [hresult, prefaultStack, hprefault, if_neg (by simp), hcount, hsize]
  split_ifs with hrange
  · have hreach : (count - 1) * size < Min.min (count * size) scratchSize ↔
        (count - 1) * size < 65536 := by
      have hless : (count - 1) * size < count * size :=
        Nat.mul_lt_mul_of_pos_right (by omega) hpos
      rw [lt_min_iff, and_iff_right hless]
      rfl
    have hcovers := coversPages_iff hpos (Min.min (count * size) scratchSize) base count
    rw [hreach, or_iff_right hrange.1.ne'] at hcovers
    rw [← hcovers, or_iff_left (not_le.mpr hrange.2)]
    simp
  · obtain ⟨hrefused, hroom⟩ := beforePrefault_spec config calls
    have hwords : "prefault_bytes out of supported range".toList.length = 37 := by decide
    have hsuffix := @suffix_appendText (beforePrefault config calls).diagnostics.text
      "prefault_bytes out of supported range".toList (by omega)
    refine iff_of_true ⟨fun h => ?_, fun _ => ⟨hsuffix, ?_⟩⟩ ?_
    · exact absurd (hrefused.symm.trans h) Bool.false_ne_true
    · have hne := hsuffix.length_le
      apply List.isEmpty_eq_false_iff.mpr
      intro hnil
      change appendText _ _ = [] at hnil
      rw [hnil, hwords] at hne
      exact absurd hne (by decide)
    · rcases Nat.eq_zero_or_pos count with hzero | hsome
      · exact Or.inl (by simp [hzero])
      · exact Or.inr (not_lt.mp fun hlt => hrange ⟨hsome, hlt⟩)

/-- Sixteen pages of 4096 bytes fill the scratch array. -/
theorem prefault_reported_iff_sixteen :
    (applyThreadConfig { prefaultStack := true, prefaultBytes := 65536 } {}).1.stackPrefaulted =
        true ∧
      CoversPages 4096 (applyThreadConfig { prefaultStack := true, prefaultBytes := 65536 } {}).2
        140000 16 := by
  have hreported := (prefault_reported_iff { prefaultStack := true, prefaultBytes := 65536 } {}
    140000 rfl (by decide)).mpr (by decide)
  exact ⟨by decide, hreported.1 (by decide)⟩

/-- The daemon's own request, the default of 512 KiB: all 128 pages are reported, and the loop
cannot have touched them, wherever the array stands. -/
theorem prefault_overreported :
    (applyThreadConfig { prefaultStack := true } {}).1.stackPrefaulted = true ∧
      ({ prefaultStack := true } : ThreadConfig).prefaultBytes.toNat / 4096 = 128 ∧
      ∀ base, ¬ CoversPages 4096 (applyThreadConfig { prefaultStack := true } {}).2 base 128 := by
  have htouched : (applyThreadConfig { prefaultStack := true } {}).2 = touchFrom 4096 65536 0 := rfl
  refine ⟨by decide, by decide, fun base => ?_⟩
  rw [htouched, coversPages_iff (by decide)]
  decide

end SafeEdge.Rt
