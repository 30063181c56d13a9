import SafeEdge.Apps.Environment
import SafeEdge.Library.Run
import SafeEdge.Opcua.EventProbe
import SafeEdge.Opcua.Security

/-! The OPC UA server program: its main thread, which sets the server up, serves and shuts down,
and its publisher thread, taking their steps in any order. -/
namespace SafeEdge.Apps
open Library Edge Opcua

structure LogLine where
  level : String
  msg : String
  detail : Option String := none
  deriving DecidableEq

/-- An object of the process that has to be released once and not to be used afterwards. -/
inductive Handle where
  | absent
  | live
  | released
  deriving DecidableEq

/-- Where the main thread stands. From `deleting` on it is about to return the code. -/
inductive ServerMainPc where
  | opening
  | creating
  | configuring
  | building
  | buildingEvents
  | starting
  | announcing
  | serving
  | clearing
  | joining
  | deleting (code : ℕ)
  | leaving (code : ℕ)
  | returned (code : ℕ)
  deriving DecidableEq

/-- Where the publisher stands. While it writes, the variables that are still to be written are
left, while it fires, the calls of the server that are still to be made. -/
inductive PublisherPc where
  | absent
  | checking
  | loading
  | writing (left : List (NodeNumber × Variant)) (poll : Option RuntimeSnapshot)
  | firing (left : ℕ) (event : SafetyTransitionEvent) (calls : FireCalls)
  | sleeping
  | finished
  | joined

/-- What does not change while the program runs: its environment, how it was built, the stack and
the files it finds, the config of a new server, and the index of the namespace it registers. -/
structure OpcuaSetup (ε : Type*) where
  environment : Environment
  encryptionAvailable : Bool
  library : Open62541 ε
  files : FileSystem
  config : ServerConfig ε
  namespaceIndex : UInt16

/-- Both threads, the flag between them, the objects they share, the values of the variables, what
the loads of the publisher returned, the lines logged, and whether an object was used or released
that was not live. -/
structure OpcuaProcess (ε : Type*) where
  main : ServerMainPc := .opening
  publisher : PublisherPc := .absent
  bookkeeping : Publisher := {}
  running : Bool := true
  region : Handle := .absent
  server : Handle := .absent
  config : Option (ServerConfig ε) := none
  posture : SecurityPosture := {}
  nodes : Opcua.Server := fun _ => none
  polls : List (Option RuntimeSnapshot) := []
  log : List LogLine := []
  misused : Bool := false

/-- One step of one thread, with what the call it makes returns. -/
inductive OpcuaTurn where
  | main (succeeds : Bool) (fault : Option String)
  | publisher (snapshot : Option RuntimeSnapshot) (calls : FireCalls)

namespace OpcuaSetup
variable {ε : Type*} (setup : OpcuaSetup ε)

def regionName : String :=
  environmentString setup.environment "SAFEEDGE_SNAPSHOT_SHM" "/safeedge-runtime"

def port : UInt16 :=
  UInt16.ofInt (environmentLong setup.environment "SAFEEDGE_OPCUA_PORT" 4840)

def trustListDirectory : String :=
  environmentString setup.environment "SAFEEDGE_OPCUA_TRUSTLIST" ""

def security : SecurityOptions where
  port := setup.port
  allowUnencrypted := environmentLong setup.environment "SAFEEDGE_OPCUA_INSECURE" 0 != 0
  certificatePath := environmentString setup.environment "SAFEEDGE_OPCUA_CERT" ""
  keyPath := environmentString setup.environment "SAFEEDGE_OPCUA_KEY" ""
  trustListDirectory := setup.trustListDirectory
  authentication :=
    if setup.trustListDirectory.isEmpty then .acceptAnyCertificate else .trustList

end OpcuaSetup

/-- What the operator is told about the security of a server that starts. -/
def securityLines (posture : SecurityPosture) : List LogLine :=
  (match posture.origin with
    | .loadedFromFiles => [⟨"info", "encrypted, stable identity", some posture.detail⟩]
    | .generatedSelfSigned =>
      [⟨"warn", "encrypted with a throwaway identity", some posture.detail⟩]
    | .none => [⟨"warn", "running without encryption", some posture.detail⟩]) ++
  (if posture.allowsUnencrypted then
    [⟨"warn", "SecurityPolicy#None is offered: traffic can be read and forged by anyone on this " ++
      "network", none⟩]
  else []) ++
  (match posture.authentication with
    | .trustList =>
      [⟨"info", "client certificates are checked against the trust list", none⟩]
    | .acceptAnyCertificate =>
      [⟨"warn", "any client certificate is accepted: set SAFEEDGE_OPCUA_TRUSTLIST to restrict " ++
        "who may connect", none⟩]) ++
  (if posture.allowsAnonymous then
    [⟨"info", "anonymous access permitted (the address space is read-only)", none⟩]
  else [])

/-- How many calls of the server `fireSafetyTransition` makes. The five fields of its own are
written until a write fails. -/
def fireAccesses (calls : FireCalls) : ℕ :=
  if !calls.created then 1
  else
    let own := [EventField.transitionMonotonicNs, .safetySequence, .missedTransitions,
      .safetyState, .torquePermitted]
    let written := (own.takeWhile calls.writes).length
    1 + min (written + 1) own.length + 3

namespace OpcuaProcess
variable {ε : Type*} (setup : OpcuaSetup ε) (p : OpcuaProcess ε)

def logEvent (level msg : String) (detail : Option String := none) : OpcuaProcess ε :=
  { p with log := p.log ++ [⟨level, msg, detail⟩] }

def useServer : OpcuaProcess ε := { p with misused := p.misused || p.server != .live }

def useRegion : OpcuaProcess ε := { p with misused := p.misused || p.region != .live }

/-- The call of `configureSecurity`, and what is logged of it. -/
def configure [Inhabited ε] : OpcuaProcess ε :=
  let (posture, config) := configureSecurity setup.library setup.files setup.security
    setup.encryptionAvailable p.config
  let configured := { p.useServer with posture, config }
  if posture.policyCount = 0 then
    { configured.logEvent "fatal" "could not configure security" (some posture.detail) with
      main := .deleting 2 }
  else { configured with log := configured.log ++ securityLines posture, main := .building }

/-- The next step of the main thread. -/
def mainStep [Inhabited ε] (succeeds : Bool) (fault : Option String) : OpcuaProcess ε :=
  match p.main with
  | .opening =>
    if succeeds then
      { p.logEvent "info" "reading snapshot from shared memory" (some setup.regionName) with
        region := .live
        main := .creating }
    else
      { p.logEvent "fatal"
          "snapshot region not available; is safeedged running with SAFEEDGE_SNAPSHOT_SHM set?"
          (some setup.regionName) with
        main := .returned 1 }
  | .creating =>
    if succeeds then
      { p with server := .live, config := some setup.config, main := .configuring }
    else { p.logEvent "fatal" "could not create the OPC UA server" with main := .leaving 2 }
  | .configuring => p.configure setup
  | .building =>
    if setup.namespaceIndex ≠ 0 ∧ succeeds = true then { p.useServer with main := .buildingEvents }
    else
      { p.useServer.logEvent "fatal" "could not build the address space" with
        main := .deleting 3 }
  | .buildingEvents =>
    if setup.namespaceIndex ≠ 0 ∧ succeeds = true then
      { p.useServer.logEvent "info" "address space ready" with main := .starting }
    else
      { p.useServer.logEvent "fatal" "could not build the safety event type" with
        main := .deleting 3 }
  | .starting => { p with running := true, publisher := .checking, main := .announcing }
  | .announcing =>
    { p.logEvent "info" "listening"
        (some ("opc.tcp://0.0.0.0:" ++ toString setup.port.toNat)) with
      main := .serving }
  | .serving =>
    match fault with
    | some status =>
      { p.useServer.logEvent "error" "server loop exited with a fault" (some status) with
        main := .clearing }
    | none =>
      if succeeds then { p.useServer with main := .clearing } else p.useServer
  | .clearing => { p with running := false, main := .joining }
  | .joining =>
    match p.publisher with
    | .finished => { p with publisher := .joined, main := .deleting 0 }
    | _ => p
  | .deleting code =>
    let deleted :=
      { p.useServer with server := .released, main := .leaving code }
    if code = 0 then deleted.logEvent "info" "stopped" else deleted
  | .leaving code => { p.useRegion with region := .released, main := .returned code }
  | .returned _ => p

/-- The next step of the publisher. -/
def publisherStep (snapshot : Option RuntimeSnapshot) (calls : FireCalls) : OpcuaProcess ε :=
  match p.publisher with
  | .absent | .finished | .joined => p
  | .checking => { p with publisher := if p.running then .loading else .finished }
  | .loading =>
    { p.useRegion with
      publisher := .writing (variablesOf (snapshot.getD {})) snapshot
      polls := p.polls ++ [snapshot] }
  | .writing ((number, value) :: left) poll =>
    { p.useServer with
      nodes := writeValue p.nodes number value poll.isSome
      publisher := .writing left poll }
  | .writing [] poll =>
    let (bookkeeping, event) := p.bookkeeping.iterate ⟨poll, true⟩
    { p with
      bookkeeping
      publisher :=
        match event with
        | none => .sleeping
        | some event => .firing (fireAccesses calls) event calls }
  | .firing (left + 1) event calls => { p.useServer with publisher := .firing left event calls }
  | .firing 0 event calls =>
    if (fireSafetyTransition setup.namespaceIndex event calls).2 then
      { p with publisher := .sleeping }
    else
      { p.logEvent "warn" "could not fire a safety transition event" with
        publisher := .sleeping }
  | .sleeping => { p with publisher := .checking }

def step [Inhabited ε] : OpcuaTurn → OpcuaProcess ε
  | .main succeeds fault => p.mainStep setup succeeds fault
  | .publisher snapshot calls => p.publisherStep setup snapshot calls

/-- The process before turn `n` of a schedule. -/
def processAt [Inhabited ε] (schedule : ℕ → OpcuaTurn) (n : ℕ) : OpcuaProcess ε :=
  stateAt (fun p turn => step setup p turn) p schedule n

end OpcuaProcess
end SafeEdge.Apps
