import SafeEdge.Edge.RuntimeSnapshot
import SafeEdge.Library.Binary64

/-! The variables of the runtime object, and what publishing a snapshot writes to them. -/
namespace SafeEdge.Opcua
open Edge Library

/-- The variable nodes of the runtime object. -/
inductive NodeNumber where
  | kSafetyState
  | kTorquePermitted
  | kFaultLatched
  | kFaultReason
  | kEstopAsserted
  | kSafetySequence
  | kSafetyStateAgeSeconds
  | kSafetyTransitionMonotonicNs
  | kCyclesExecuted
  | kOverruns
  | kJitterP99Ns
  | kJitterMaxNs
  | kRealtimeSchedulingGranted
  | kUptimeSeconds
  deriving DecidableEq

def nodeIdOf : NodeNumber → UInt32
  | .kSafetyState => 1001
  | .kTorquePermitted => 1002
  | .kFaultLatched => 1003
  | .kFaultReason => 1004
  | .kEstopAsserted => 1005
  | .kSafetySequence => 1006
  | .kSafetyStateAgeSeconds => 1007
  | .kSafetyTransitionMonotonicNs => 1008
  | .kCyclesExecuted => 1010
  | .kOverruns => 1011
  | .kJitterP99Ns => 1012
  | .kJitterMaxNs => 1013
  | .kRealtimeSchedulingGranted => 1014
  | .kUptimeSeconds => 1015

inductive DataType where
  | boolean
  | uint32
  | uint64
  | int64
  | double
  deriving DecidableEq

/-- A scalar of one of the types the variables have. -/
inductive Variant where
  | boolean (value : Bool)
  | uint32 (value : UInt32)
  | uint64 (value : UInt64)
  | int64 (value : Int64)
  | double (value : Binary64)
  deriving DecidableEq

/-- The false or zero of a type. -/
def DataType.zero : DataType → Variant
  | .boolean => .boolean false
  | .uint32 => .uint32 0
  | .uint64 => .uint64 0
  | .int64 => .int64 0
  | .double => .double 0

inductive StatusCode where
  | good
  | badNoData
  deriving DecidableEq

structure DataValue where
  value : Variant
  status : StatusCode
  deriving DecidableEq

structure VariableSpec where
  number : NodeNumber
  name : String
  type : DataType

def specs : List VariableSpec :=
  [⟨.kSafetyState, "SafetyState", .uint32⟩,
    ⟨.kTorquePermitted, "TorquePermitted", .boolean⟩,
    ⟨.kFaultLatched, "FaultLatched", .boolean⟩,
    ⟨.kFaultReason, "FaultReason", .uint32⟩,
    ⟨.kEstopAsserted, "EmergencyStopAsserted", .boolean⟩,
    ⟨.kSafetySequence, "SafetySequence", .uint64⟩,
    ⟨.kSafetyStateAgeSeconds, "SafetyStateAgeSeconds", .double⟩,
    ⟨.kSafetyTransitionMonotonicNs, "SafetyTransitionMonotonicNanoseconds", .int64⟩,
    ⟨.kCyclesExecuted, "CyclesExecuted", .uint64⟩,
    ⟨.kOverruns, "Overruns", .uint64⟩,
    ⟨.kJitterP99Ns, "WakeupJitterP99Nanoseconds", .int64⟩,
    ⟨.kJitterMaxNs, "WakeupJitterMaxNanoseconds", .int64⟩,
    ⟨.kRealtimeSchedulingGranted, "RealtimeSchedulingGranted", .boolean⟩,
    ⟨.kUptimeSeconds, "UptimeSeconds", .double⟩]

/-- The values of the nodes in the server's namespace. -/
abbrev Server := UInt32 → Option DataValue

def writeValue (server : Server) (number : NodeNumber) (value : Variant) (fresh : Bool) : Server :=
  Function.update server (nodeIdOf number)
    (some { value, status := if fresh then .good else .badNoData })

/-- What `publishSnapshot` writes, in its order. -/
def variablesOf (s : RuntimeSnapshot) : List (NodeNumber × Variant) :=
  [(.kSafetyState, .uint32 s.safetyState),
    (.kTorquePermitted, .boolean (s.torquePermitted != 0)),
    (.kFaultLatched, .boolean (s.faultLatched != 0)),
    (.kFaultReason, .uint32 s.faultReason),
    (.kEstopAsserted, .boolean (s.estopAsserted != 0)),
    (.kSafetySequence, .uint64 s.safetySequence),
    (.kSafetyStateAgeSeconds,
      .double ((Binary64.ofInt s.safetyStateAgeNs.toNat).divNat 1000000000)),
    (.kSafetyTransitionMonotonicNs, .int64 s.safetyTransitionMonotonicNs.toInt64),
    (.kCyclesExecuted, .uint64 s.cyclesExecuted),
    (.kOverruns, .uint64 s.overruns),
    (.kJitterP99Ns, .int64 s.jitterP99Ns),
    (.kJitterMaxNs, .int64 s.jitterMaxNs),
    (.kRealtimeSchedulingGranted, .boolean (s.realtimeSchedulingGranted != 0)),
    (.kUptimeSeconds, .double ((Binary64.ofInt s.uptimeNs.toInt).divNat 1000000000))]

def publishSnapshot (server : Server) (snapshot : RuntimeSnapshot) (fresh : Bool) : Server :=
  (variablesOf snapshot).foldl (fun server (number, value) => writeValue server number value fresh)
    server

theorem nodeIdOf_injective : Function.Injective nodeIdOf := by
  intro a b h
  cases a <;> cases b <;> first | rfl | exact absurd h (by decide)

theorem writeValues_of_notMem (server : Server) (fresh : Bool)
    {writes : List (NodeNumber × Variant)} {number : NodeNumber}
    (h : number ∉ writes.map Prod.fst) :
    writes.foldl (fun server (n, value) => writeValue server n value fresh) server
      (nodeIdOf number) = server (nodeIdOf number) := by
  induction writes generalizing server with
  | nil => rfl
  | cons write writes ih =>
    rw [List.map_cons, List.mem_cons, not_or] at h
    rw [List.foldl_cons, ih _ h.2]
    exact Function.update_of_ne (fun heq => h.1 (nodeIdOf_injective heq)) ..

/-- Writes to distinct nodes all last. -/
theorem writeValues_of_mem (server : Server) (fresh : Bool)
    {writes : List (NodeNumber × Variant)} (hdistinct : (writes.map Prod.fst).Nodup)
    {number : NodeNumber} {value : Variant} (h : (number, value) ∈ writes) :
    writes.foldl (fun server (n, value) => writeValue server n value fresh) server
      (nodeIdOf number) = some { value, status := if fresh then .good else .badNoData } := by
  induction writes generalizing server with
  | nil => simp at h
  | cons write writes ih =>
    rw [List.map_cons, List.nodup_cons] at hdistinct
    rw [List.foldl_cons]
    rcases List.mem_cons.mp h with rfl | htail
    · rw [writeValues_of_notMem _ _ hdistinct.1]
      exact Function.update_self ..
    · exact ih _ hdistinct.2 htail

theorem variablesOf_numbers (s : RuntimeSnapshot) :
    (variablesOf s).map Prod.fst = specs.map VariableSpec.number := rfl

theorem publishSnapshot_of_mem (server : Server) (s : RuntimeSnapshot) (fresh : Bool)
    {number : NodeNumber} {value : Variant} (h : (number, value) ∈ variablesOf s) :
    publishSnapshot server s fresh (nodeIdOf number) =
      some { value, status := if fresh then .good else .badNoData } :=
  writeValues_of_mem server fresh (by rw [variablesOf_numbers]; decide) h

/-- The zeroed snapshot makes every variable the zero of its type. -/
theorem variablesOf_default :
    variablesOf {} = specs.map fun spec => (spec.number, spec.type.zero) := by
  decide +kernel

theorem publishSnapshot_stale (server : Server) {spec : VariableSpec} (h : spec ∈ specs) :
    publishSnapshot server {} false (nodeIdOf spec.number) =
      some { value := spec.type.zero, status := .badNoData } := by
  apply publishSnapshot_of_mem
  rw [variablesOf_default]
  exact List.mem_map_of_mem h

end SafeEdge.Opcua
