import SafeEdge.Edge.RuntimeSnapshot
import SafeEdge.Library.Decimal
import SafeEdge.Library.Exposition

/-! The metrics endpoint: a snapshot as a text of comments and samples. -/
namespace SafeEdge.Edge
open Library

section Lines

def helpLine (name help : List Char) : List Char :=
  "# HELP ".toList ++ name ++ ' ' :: help ++ ['\n']

def typeLine (name type : List Char) : List Char :=
  "# TYPE ".toList ++ name ++ ' ' :: type ++ ['\n']

def sampleLine (name value : List Char) : List Char := name ++ ' ' :: value ++ ['\n']

theorem length_helpLine (name help : List Char) :
    (helpLine name help).length = name.length + help.length + 9 := by
  unfold helpLine
  simp
  omega

theorem length_typeLine (name type : List Char) :
    (typeLine name type).length = name.length + type.length + 9 := by
  unfold typeLine
  simp
  omega

theorem length_sampleLine (name value : List Char) :
    (sampleLine name value).length = name.length + value.length + 2 := by
  simp only [sampleLine, List.length_append, List.length_cons, List.length_nil]
  omega

/-- A name with one label. -/
def labelled (name label value : List Char) : List Char :=
  name ++ "\x7b".toList ++ label ++ "=\"".toList ++ value ++ "\"\x7d".toList

/-- The text that is appended for a metric. -/
def appendMetric (name help type : List Char) (value : Binary64) : List Char :=
  snprintf 512 (helpLine name help ++ typeLine name type ++ sampleLine name (value.generalText 6))

/-- The text that is appended for a metric with a label. -/
def appendLabelled (name help type label labelValue : List Char) (value : Binary64) : List Char :=
  snprintf 512 (helpLine name help ++ typeLine name type ++
    sampleLine (labelled name label labelValue) (value.generalText 6))

/-- The text that is appended for a summary. -/
def appendQuantiles (name help : List Char) (p50 p99 p999 maximum : Int64) : List Char :=
  snprintf 256 (helpLine name help ++ typeLine name "summary".toList) ++
  snprintf 256 (sampleLine (labelled name "quantile".toList "0.5".toList) (intText p50.toInt)) ++
  snprintf 256 (sampleLine (labelled name "quantile".toList "0.99".toList) (intText p99.toInt)) ++
  snprintf 256 (sampleLine (labelled name "quantile".toList "0.999".toList)
    (intText p999.toInt)) ++
  snprintf 256 (sampleLine (name ++ "_max".toList) (intText maximum.toInt))

end Lines

def ofUInt64 (n : UInt64) : Binary64 := .ofInt n.toNat

def ofUInt32 (n : UInt32) : Binary64 := .ofInt n.toNat

/-- The pieces of the text in the order in which they are appended. -/
def metricBlocks (snapshot : RuntimeSnapshot) (snapshotIsFresh : Bool) : List (List Char) :=
  ["# safeedge runtime metrics\n".toList,
    "# Scraped from a seqlock snapshot published by the real-time loop; the\n".toList,
    "# scrape never blocks that loop and never takes a lock on its path.\n".toList,
    appendMetric "safeedge_snapshot_fresh".toList
      "1 if the last scrape read a complete snapshot, 0 if it gave up retrying".toList
      "gauge".toList (.ofInt (if snapshotIsFresh then 1 else 0)),
    appendMetric "safeedge_realtime_scheduling_granted".toList
      ("1 if the runtime obtained the real-time scheduling it requested. ".toList ++
        "When 0, every latency metric below describes the machine's load, not ".toList ++
        "this code".toList)
      "gauge".toList (ofUInt32 snapshot.realtimeSchedulingGranted),
    appendMetric "safeedge_cycles_total".toList "Control cycles executed".toList "counter".toList
      (ofUInt64 snapshot.cyclesExecuted),
    appendMetric "safeedge_overruns_total".toList
      "Cycles that completed after their successor was already due".toList "counter".toList
      (ofUInt64 snapshot.overruns),
    appendMetric "safeedge_skipped_cycles_total".toList
      "Deadlines passed without a cycle running".toList "counter".toList
      (ofUInt64 snapshot.skippedCycles),
    appendMetric "safeedge_allocation_violations_total".toList
      ("Allocations detected on the real-time path. Any value above zero is a ".toList ++
        "defect, not a warning".toList)
      "counter".toList (ofUInt64 snapshot.allocationViolations),
    appendQuantiles "safeedge_wakeup_jitter_nanoseconds".toList
      "Scheduled deadline to actual wakeup".toList snapshot.jitterP50Ns snapshot.jitterP99Ns
      snapshot.jitterP999Ns snapshot.jitterMaxNs,
    appendQuantiles "safeedge_execution_nanoseconds".toList
      "Callback entry to callback return".toList snapshot.executionP50Ns snapshot.executionP99Ns
      snapshot.executionP99Ns snapshot.executionMaxNs,
    appendMetric "safeedge_safety_state".toList
      "Supervisor state: 0=STO 1=SelfTest 2=Stopping 3=SOS 4=SLS 5=Operational".toList
      "gauge".toList (ofUInt32 snapshot.safetyState),
    appendMetric "safeedge_fault_reason".toList
      "Latched fault reason, 0 when none. See safety_state_machine.hpp".toList "gauge".toList
      (ofUInt32 snapshot.faultReason),
    appendMetric "safeedge_torque_permitted".toList "1 when torque is permitted".toList
      "gauge".toList (ofUInt32 snapshot.torquePermitted),
    appendMetric "safeedge_fault_latched".toList
      "1 while a fault is latched and awaiting acknowledgement".toList "gauge".toList
      (ofUInt32 snapshot.faultLatched),
    appendMetric "safeedge_estop_asserted".toList
      "1 when an external emergency stop is demanding a stop".toList "gauge".toList
      (ofUInt32 snapshot.estopAsserted),
    appendMetric "safeedge_safety_sequence".toList
      ("Increments on every safety state transition; lets a consumer tell a ".toList ++
        "repeated report from a new decision".toList)
      "counter".toList (ofUInt64 snapshot.safetySequence),
    appendMetric "safeedge_safety_state_age_seconds".toList
      "How long the runtime has been in its current safety state".toList "gauge".toList
      ((ofUInt64 snapshot.safetyStateAgeNs).divNat (10 ^ 9)),
    appendLabelled "safeedge_telegrams_total".toList "Safety telegrams processed".toList
      "counter".toList "result".toList "accepted".toList (ofUInt64 snapshot.telegramsAccepted),
    snprintf 256 (sampleLine (labelled "safeedge_telegrams_total".toList "result".toList
      "rejected".toList) ((ofUInt64 snapshot.telegramsRejected).generalText 6)),
    appendMetric "safeedge_uptime_seconds".toList "Time since the runtime started".toList
      "gauge".toList ((Binary64.ofInt snapshot.uptimeNs.toInt).divNat (10 ^ 9))]

def renderPrometheus (snapshot : RuntimeSnapshot) (snapshotIsFresh : Bool) : List Char :=
  (metricBlocks snapshot snapshotIsFresh).flatten

section Exposed

/-- A name that a line of the text may start with. -/
def plainName (name : List Char) : Bool :=
  name.all (fun c => c != ' ' && c != '\n') && name.head? != some '#'

def plainText (text : List Char) : Bool := text.all (· != '\n')

theorem newline_notMem_plainText {text : List Char} (h : plainText text = true) : '\n' ∉ text :=
  fun hmem => absurd (List.all_eq_true.mp h _ hmem) (by decide)

theorem newline_notMem_plainName {name : List Char} (h : plainName name = true) :
    '\n' ∉ name := by
  obtain ⟨hall, -⟩ := Bool.and_eq_true_iff.mp h
  exact fun hmem => absurd (List.all_eq_true.mp hall _ hmem) (by decide)

theorem exposes_sampleLine {name value : List Char} (hname : plainName name = true)
    (hvalue : '\n' ∉ value) : Exposes (sampleLine name value) [(name, value)] := by
  obtain ⟨hall, hhead⟩ := Bool.and_eq_true_iff.mp hname
  have hspace : ' ' ∉ name := fun hmem => absurd (List.all_eq_true.mp hall _ hmem) (by decide)
  exact Exposes.sampleLine hspace (by simpa using hhead) (newline_notMem_plainName hname) hvalue

theorem exposes_helpLine {name help : List Char} (hname : plainName name = true)
    (hhelp : plainText help = true) : Exposes (helpLine name help) [] :=
  Exposes.comment (" HELP ".toList ++ name ++ ' ' :: help)
    (by simp [newline_notMem_plainName hname, newline_notMem_plainText hhelp])

theorem exposes_typeLine {name type : List Char} (hname : plainName name = true)
    (htype : plainText type = true) : Exposes (typeLine name type) [] :=
  Exposes.comment (" TYPE ".toList ++ name ++ ' ' :: type)
    (by simp [newline_notMem_plainName hname, newline_notMem_plainText htype])

/-- The comments and a sample of any value have lines of their own and fit the buffer of
`appendMetric` and `appendLabelled`. -/
def fitsMetric (name help type sampleName : List Char) : Bool :=
  plainName name && plainText help && plainText type && plainName sampleName &&
    2 * name.length + help.length + type.length + sampleName.length + 34 < 512

variable {name help type sampleName : List Char}

theorem exposes_metric (h : fitsMetric name help type sampleName = true) (value : Binary64) :
    Exposes (snprintf 512 (helpLine name help ++ typeLine name type ++
      sampleLine sampleName (value.generalText 6))) [(sampleName, value.generalText 6)] := by
  simp only [fitsMetric, Bool.and_eq_true, decide_eq_true_eq] at h
  obtain ⟨⟨⟨⟨hname, hhelp⟩, htype⟩, hsample⟩, hlength⟩ := h
  have hvalue : (value.generalText 6).length ≤ 14 := value.length_generalText_le (by decide)
  have hfits : (helpLine name help ++ typeLine name type ++
      sampleLine sampleName (value.generalText 6)).length < 512 := by
    simp only [List.length_append, length_helpLine, length_typeLine, length_sampleLine]
    omega
  rw [snprintf_of_lt hfits]
  exact ((exposes_helpLine hname hhelp).append (exposes_typeLine hname htype)).append
    (exposes_sampleLine hsample (value.newline_notMem_generalText 6))

theorem exposes_appendMetric (h : fitsMetric name help type name = true) (value : Binary64) :
    Exposes (appendMetric name help type value) [(name, value.generalText 6)] :=
  exposes_metric h value

theorem exposes_appendLabelled {label labelValue : List Char}
    (h : fitsMetric name help type (labelled name label labelValue) = true) (value : Binary64) :
    Exposes (appendLabelled name help type label labelValue value)
      [(labelled name label labelValue, value.generalText 6)] :=
  exposes_metric h value

/-- A sample of any whole number fits a buffer of its own. -/
def fitsSample (name : List Char) : Bool := plainName name && name.length + 22 < 256

theorem exposes_sample {value : List Char} (h : fitsSample name = true)
    (hvalue : value.length ≤ 20) (hline : '\n' ∉ value) :
    Exposes (snprintf 256 (sampleLine name value)) [(name, value)] := by
  simp only [fitsSample, Bool.and_eq_true, decide_eq_true_eq] at h
  obtain ⟨hname, hlength⟩ := h
  have hfits : (sampleLine name value).length < 256 := by
    rw [length_sampleLine]
    omega
  rw [snprintf_of_lt hfits]
  exact exposes_sampleLine hname hline

theorem exposes_int (h : fitsSample name = true) (n : Int64) :
    Exposes (snprintf 256 (sampleLine name (intText n.toInt))) [(name, intText n.toInt)] := by
  have hlt := n.toInt_lt
  have hge := n.le_toInt
  exact exposes_sample h (length_intText_le (by omega)) (newline_notMem_intText _)

def quantileName (name order : List Char) : List Char := labelled name "quantile".toList order

def maxName (name : List Char) : List Char := name ++ "_max".toList

def summarySamples (name : List Char) (p50 p99 p999 maximum : Int64) :
    List (List Char × List Char) :=
  [(quantileName name "0.5".toList, intText p50.toInt),
    (quantileName name "0.99".toList, intText p99.toInt),
    (quantileName name "0.999".toList, intText p999.toInt),
    (maxName name, intText maximum.toInt)]

def fitsSummary (name help : List Char) : Bool :=
  plainName name && plainText help && 2 * name.length + help.length + 25 < 256 &&
    fitsSample (quantileName name "0.5".toList) && fitsSample (quantileName name "0.99".toList) &&
    fitsSample (quantileName name "0.999".toList) && fitsSample (maxName name)

theorem exposes_appendQuantiles (h : fitsSummary name help = true)
    (p50 p99 p999 maximum : Int64) :
    Exposes (appendQuantiles name help p50 p99 p999 maximum)
      (summarySamples name p50 p99 p999 maximum) := by
  simp only [fitsSummary, Bool.and_eq_true, decide_eq_true_eq] at h
  obtain ⟨⟨⟨⟨⟨⟨hname, hhelp⟩, hlength⟩, h50⟩, h99⟩, h999⟩, hmax⟩ := h
  have htype : "summary".toList.length = 7 := by simp
  have hfits : (helpLine name help ++ typeLine name "summary".toList).length < 256 := by
    simp only [List.length_append, length_helpLine, length_typeLine, htype]
    omega
  unfold appendQuantiles
  rw [snprintf_of_lt hfits]
  have hcomments := (exposes_helpLine hname hhelp).append
    (exposes_typeLine hname (by decide : plainText "summary".toList = true))
  exact (((hcomments.append (exposes_int h50 p50)).append (exposes_int h99 p99)).append
    (exposes_int h999 p999)).append (exposes_int hmax maximum)

/-- A comment on a line of its own. -/
def fitsComment (text : List Char) : Bool :=
  text.head? == some '#' && text.getLast? == some '\n' && plainText text.dropLast

theorem exposes_comment {text : List Char} (h : fitsComment text = true) : Exposes text [] := by
  simp only [fitsComment, Bool.and_eq_true, beq_iff_eq] at h
  obtain ⟨⟨hhead, hlast⟩, htext⟩ := h
  obtain ⟨front, rfl⟩ := List.getLast?_eq_some_iff.mp hlast
  cases front with
  | nil => exact absurd hhead (by decide)
  | cons c front =>
    obtain rfl : c = '#' := by simpa using hhead
    rw [List.dropLast_concat] at htext
    exact Exposes.comment front fun hmem =>
      newline_notMem_plainText htext (List.mem_cons_of_mem _ hmem)

/-- The samples of each block. -/
def metricSamples (snapshot : RuntimeSnapshot) (snapshotIsFresh : Bool) :
    List (List (List Char × List Char)) :=
  let metric (name : String) (value : Binary64) := [(name.toList, value.generalText 6)]
  let telegrams (result : String) (value : UInt64) :=
    [(labelled "safeedge_telegrams_total".toList "result".toList result.toList,
      (ofUInt64 value).generalText 6)]
  [[], [], [],
    metric "safeedge_snapshot_fresh" (.ofInt (if snapshotIsFresh then 1 else 0)),
    metric "safeedge_realtime_scheduling_granted" (ofUInt32 snapshot.realtimeSchedulingGranted),
    metric "safeedge_cycles_total" (ofUInt64 snapshot.cyclesExecuted),
    metric "safeedge_overruns_total" (ofUInt64 snapshot.overruns),
    metric "safeedge_skipped_cycles_total" (ofUInt64 snapshot.skippedCycles),
    metric "safeedge_allocation_violations_total" (ofUInt64 snapshot.allocationViolations),
    summarySamples "safeedge_wakeup_jitter_nanoseconds".toList snapshot.jitterP50Ns
      snapshot.jitterP99Ns snapshot.jitterP999Ns snapshot.jitterMaxNs,
    summarySamples "safeedge_execution_nanoseconds".toList snapshot.executionP50Ns
      snapshot.executionP99Ns snapshot.executionP99Ns snapshot.executionMaxNs,
    metric "safeedge_safety_state" (ofUInt32 snapshot.safetyState),
    metric "safeedge_fault_reason" (ofUInt32 snapshot.faultReason),
    metric "safeedge_torque_permitted" (ofUInt32 snapshot.torquePermitted),
    metric "safeedge_fault_latched" (ofUInt32 snapshot.faultLatched),
    metric "safeedge_estop_asserted" (ofUInt32 snapshot.estopAsserted),
    metric "safeedge_safety_sequence" (ofUInt64 snapshot.safetySequence),
    metric "safeedge_safety_state_age_seconds"
      ((ofUInt64 snapshot.safetyStateAgeNs).divNat (10 ^ 9)),
    telegrams "accepted" snapshot.telegramsAccepted,
    telegrams "rejected" snapshot.telegramsRejected,
    metric "safeedge_uptime_seconds" ((Binary64.ofInt snapshot.uptimeNs.toInt).divNat (10 ^ 9))]

theorem exposes_renderPrometheus (snapshot : RuntimeSnapshot) (snapshotIsFresh : Bool) :
    Exposes (renderPrometheus snapshot snapshotIsFresh)
      (metricSamples snapshot snapshotIsFresh).flatten := by
  have hlength (value : Binary64) : (value.generalText 6).length ≤ 20 :=
    (value.length_generalText_le (by decide)).trans (by decide)
  refine Exposes.flatten ?_
  unfold metricBlocks metricSamples
  exact .cons (exposes_comment (by decide +kernel)) <|
    .cons (exposes_comment (by decide +kernel)) <|
    .cons (exposes_comment (by decide +kernel)) <|
    .cons (exposes_appendMetric (by decide +kernel) _) <|
    .cons (exposes_appendMetric (by decide +kernel) _) <|
    .cons (exposes_appendMetric (by decide +kernel) _) <|
    .cons (exposes_appendMetric (by decide +kernel) _) <|
    .cons (exposes_appendMetric (by decide +kernel) _) <|
    .cons (exposes_appendMetric (by decide +kernel) _) <|
    .cons (exposes_appendQuantiles (by decide +kernel) _ _ _ _) <|
    .cons (exposes_appendQuantiles (by decide +kernel) _ _ _ _) <|
    .cons (exposes_appendMetric (by decide +kernel) _) <|
    .cons (exposes_appendMetric (by decide +kernel) _) <|
    .cons (exposes_appendMetric (by decide +kernel) _) <|
    .cons (exposes_appendMetric (by decide +kernel) _) <|
    .cons (exposes_appendMetric (by decide +kernel) _) <|
    .cons (exposes_appendMetric (by decide +kernel) _) <|
    .cons (exposes_appendMetric (by decide +kernel) _) <|
    .cons (exposes_appendLabelled (by decide +kernel) _) <|
    .cons (exposes_sample (by decide +kernel) (hlength _)
      (Binary64.newline_notMem_generalText 6 _)) <|
    .cons (exposes_appendMetric (by decide +kernel) _) .nil

end Exposed

section Shown

/-- The number that a text shows for a sample. -/
def shown (text name : List Char) : Option ℚ := ((samples text).lookup name).bind readDecimal

theorem lookup_of_mem {α β : Type*} [BEq α] [LawfulBEq α] {pairs : List (α × β)}
    (hnodup : (pairs.map Prod.fst).Nodup) {a : α} {b : β} (h : (a, b) ∈ pairs) :
    pairs.lookup a = some b := by
  induction pairs with
  | nil => exact absurd h List.not_mem_nil
  | cons pair pairs ih =>
    obtain ⟨hfirst, hrest⟩ := List.nodup_cons.mp hnodup
    rcases List.mem_cons.mp h with rfl | hlater
    · exact List.lookup_cons_self
    · have hne : (a == pair.1) = false :=
        beq_false_of_ne fun heq => hfirst (heq ▸ List.mem_map.mpr ⟨(a, b), hlater, rfl⟩)
      rw [List.lookup_cons, hne]
      exact ih hrest hlater

theorem nodup_metricSamples (snapshot : RuntimeSnapshot) (snapshotIsFresh : Bool) :
    ((metricSamples snapshot snapshotIsFresh).flatten.map Prod.fst).Nodup := by
  unfold metricSamples summarySamples
  simp only [List.flatten_cons, List.flatten_nil, List.cons_append, List.nil_append,
    List.append_nil, List.map_cons, List.map_nil]
  decide +kernel

theorem shown_of_mem {snapshot : RuntimeSnapshot} {snapshotIsFresh : Bool}
    {name value : List Char}
    (h : (name, value) ∈ (metricSamples snapshot snapshotIsFresh).flatten) :
    shown (renderPrometheus snapshot snapshotIsFresh) name = readDecimal value := by
  rw [shown, (exposes_renderPrometheus snapshot snapshotIsFresh).samples_eq,
    lookup_of_mem (nodup_metricSamples snapshot snapshotIsFresh) h, Option.bind_some]

end Shown
end SafeEdge.Edge
