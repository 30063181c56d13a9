import SafeEdge.Library.Compaction

/-! Security of the OPC UA server: its certificate, the clients it trusts and the endpoints it
offers. -/
namespace SafeEdge.Opcua

inductive MessageSecurityMode where
  | invalid
  | none
  | sign
  | signAndEncrypt
  deriving DecidableEq

/-- An endpoint by its mode, the identity it claims for the server, and its other fields. -/
structure EndpointDescription (ε : Type*) where
  securityMode : MessageSecurityMode
  applicationUri : String
  rest : ε

/-- How client certificates are verified. -/
inductive CertificateVerification where
  | acceptAll
  | trustlist (certificates : List (List UInt8))
  deriving DecidableEq

structure ServerConfig (ε : Type*) where
  securityPoliciesSize : ℕ
  endpoints : List (EndpointDescription ε)
  applicationUri : String
  secureChannelPKI : CertificateVerification
  sessionPKI : CertificateVerification

/-- The calls into open62541, by what they return and what they leave in the config. Only that the
trust list passed to `setDefaultWithSecurityPolicies` is the one installed is assumed. -/
structure Open62541 (ε : Type*) where
  createCertificate (subject subjectAltName : List String) : Option (List UInt8 × List UInt8)
  setMinimal (config : ServerConfig ε) (port : UInt16) : Bool × ServerConfig ε
  setDefaultWithSecurityPolicies (config : ServerConfig ε) (port : UInt16)
    (certificate privateKey : List UInt8) (trustList : List (List UInt8)) : Bool × ServerConfig ε
  installed : ∀ config port certificate privateKey trustList,
    let result := setDefaultWithSecurityPolicies config port certificate privateKey trustList
    result.1 = true → result.2.secureChannelPKI = .trustlist trustList ∧
      result.2.sessionPKI = .trustlist trustList

/-- What reading an opened file meets: the size `ftell` tells, whether the buffer is allocated, and
the bytes that can be read. -/
structure OpenFile where
  size : ℤ
  allocated : Bool
  content : List UInt8

/-- An entry of a directory, and whether it is a regular file if that can be told. -/
structure DirectoryEntry where
  path : String
  isRegularFile : Option Bool

structure FileSystem where
  openFile : String → Option OpenFile
  listDirectory : String → Option (List DirectoryEntry)

/-- The bytes of the file, or none. -/
def readFile (files : FileSystem) (path : String) : List UInt8 :=
  if path.isEmpty then []
  else
    match files.openFile path with
    | none => []
    | some file =>
      if file.size ≤ 0 then []
      else if !file.allocated then []
      else
        let read := file.content.take file.size.toNat
        if read.length ≠ file.size.toNat then [] else read

/-- The end of the file name from its last dot on, unless the name starts with that dot. -/
def extension (path : String) : String :=
  let filename := (path.toList.reverse.takeWhile (· ≠ '/')).reverse
  let suffix := (filename.reverse.takeWhile (· ≠ '.')).reverse
  if suffix.length + 1 < filename.length then String.ofList ('.' :: suffix) else ""

/-- The certificates in the directory in the order of their paths. The last error of the iteration
counts, and a file that cannot be read is left out. -/
def readTrustList (files : FileSystem) (directory : String) : List (List UInt8) :=
  if directory.isEmpty then []
  else
    match files.listDirectory directory with
    | none => []
    | some entries =>
      if entries.getLast?.any (·.isRegularFile.isNone) then []
      else
        let candidates := entries.filter fun entry =>
          entry.isRegularFile = some true ∧ extension entry.path = ".der"
        let sorted := (candidates.map (·.path)).mergeSort fun first second => first ≤ second
        (sorted.map (readFile files)).filter fun bytes => bytes.length > 0

def kApplicationUri : String := "urn:safeedge:opcua"

inductive CertificateOrigin where
  | loadedFromFiles
  | generatedSelfSigned
  | none
  deriving DecidableEq

inductive ClientAuthentication where
  | acceptAnyCertificate
  | trustList
  deriving DecidableEq

structure SecurityOptions where
  port : UInt16 := 4840
  certificatePath : String := ""
  keyPath : String := ""
  trustListDirectory : String := ""
  allowUnencrypted : Bool := false
  authentication : ClientAuthentication := .acceptAnyCertificate

structure SecurityPosture where
  origin : CertificateOrigin := .none
  policyCount : ℕ := 0
  allowsUnencrypted : Bool := false
  allowsAnonymous : Bool := true
  authentication : ClientAuthentication := .acceptAnyCertificate
  trustedCertificateCount : ℕ := 0
  detail : String := ""
  deriving DecidableEq

variable {ε : Type*}

/-- An endpoint that claims the identity of the server's certificate. -/
def EndpointDescription.withApplicationUri (endpoint : EndpointDescription ε) :
    EndpointDescription ε :=
  { endpoint with applicationUri := kApplicationUri }

namespace ServerConfig

def setApplicationUri (config : ServerConfig ε) : ServerConfig ε :=
  { config with
    applicationUri := kApplicationUri
    endpoints := config.endpoints.map EndpointDescription.withApplicationUri }

def acceptAll (config : ServerConfig ε) : ServerConfig ε :=
  { config with secureChannelPKI := .acceptAll, sessionPKI := .acceptAll }

/-- What clearing an endpoint leaves. -/
def clearedEndpoint [Inhabited ε] : EndpointDescription ε := ⟨.invalid, "", default⟩

/-- The endpoints are compacted in place, and the number of the removed ones is returned. -/
def dropUnencryptedEndpoints [Inhabited ε] (config : ServerConfig ε) : ServerConfig ε × ℕ :=
  let compaction := Library.compact (fun endpoint : EndpointDescription ε =>
    endpoint.securityMode = .none) clearedEndpoint config.endpoints
  ({ config with endpoints := compaction.items.take compaction.kept }, compaction.removed)

end ServerConfig

section Configure
variable (library : Open62541 ε) (files : FileSystem) (options : SecurityOptions)

/-- Serving without encryption. The given detail is reported if the library agrees. -/
def configureMinimal (config : ServerConfig ε) (posture : SecurityPosture) (detail : String) :
    SecurityPosture × ServerConfig ε :=
  let minimal := library.setMinimal config options.port
  if minimal.1 then
    ({ posture with
        policyCount := minimal.2.securityPoliciesSize
        allowsUnencrypted := true
        detail },
      minimal.2)
  else (posture, minimal.2)

/-- The clients that are accepted. -/
def configureClients (config : ServerConfig ε) (posture : SecurityPosture) :
    SecurityPosture × ServerConfig ε :=
  if options.authentication = .trustList then
    ({ posture with
        detail := posture.detail ++ "; " ++ toString posture.trustedCertificateCount ++
          " trusted client certificate(s) loaded from " ++ options.trustListDirectory },
      config)
  else
    ({ posture with detail := posture.detail ++ "; any client certificate accepted" },
      config.acceptAll)

/-- The endpoints that are offered. -/
def configureEndpoints [Inhabited ε] (config : ServerConfig ε) (posture : SecurityPosture) :
    SecurityPosture × ServerConfig ε :=
  if !options.allowUnencrypted then
    let dropped := config.dropUnencryptedEndpoints
    ({ posture with
        detail := posture.detail ++ "; dropped " ++ toString dropped.2 ++
          " unencrypted endpoint(s)" },
      dropped.1)
  else (posture, config)

/-- The end of `configureSecurity`, with a certificate. -/
def configurePolicies [Inhabited ε] (config : ServerConfig ε) (posture : SecurityPosture)
    (certificate privateKey : List UInt8) (trustList : List (List UInt8)) :
    SecurityPosture × ServerConfig ε :=
  let configured := library.setDefaultWithSecurityPolicies config options.port certificate
    privateKey trustList
  if !configured.1 then
    ({ posture with origin := .none, detail := "could not apply security policies" }, configured.2)
  else
    let clients := configureClients options configured.2.setApplicationUri posture
    let endpoints := configureEndpoints options clients.2 clients.1
    ({ endpoints.1 with
        policyCount := endpoints.2.securityPoliciesSize
        allowsUnencrypted := options.allowUnencrypted
        allowsAnonymous := true },
      endpoints.2)

/-- The certificate is read, or else generated. -/
def configureCertificate [Inhabited ε] (config : ServerConfig ε) (posture : SecurityPosture)
    (trustList : List (List UInt8)) : SecurityPosture × ServerConfig ε :=
  let certificate := readFile files options.certificatePath
  let privateKey := readFile files options.keyPath
  if certificate.length > 0 ∧ privateKey.length > 0 then
    configurePolicies library options config
      { posture with
        origin := .loadedFromFiles
        detail := "certificate loaded from " ++ options.certificatePath }
      certificate privateKey trustList
  else
    match library.createCertificate ["C=DE", "O=safeedge", "CN=safeedge-opcua"]
      ["DNS:localhost", "URI:" ++ kApplicationUri] with
    | none =>
      let failed := { posture with detail := "could not generate a certificate" }
      if !options.allowUnencrypted then (failed, config)
      else configureMinimal library options config failed failed.detail
    | some (privateKey, certificate) =>
      configurePolicies library options config
        { posture with
          origin := .generatedSelfSigned
          detail := "self-signed certificate generated at startup; clients must re-trust it " ++
            "after every restart" }
        certificate privateKey trustList

/-- `configureSecurity` in a build with encryption. -/
def configureEncrypted [Inhabited ε] (config : ServerConfig ε) (posture : SecurityPosture) :
    SecurityPosture × ServerConfig ε :=
  if options.authentication = .trustList then
    if options.allowUnencrypted then
      ({ posture with
          detail := "a trust list cannot be combined with SecurityPolicy#None: the " ++
            "unencrypted endpoint needs no certificate, so it is a way around the " ++
            "trust list rather than a fallback beside it" },
        config)
    else
      let trustList := readTrustList files options.trustListDirectory
      let counted := { posture with trustedCertificateCount := trustList.length }
      if trustList.isEmpty then
        ({ counted with
            detail := "client authentication was requested but no certificates " ++
              "were loaded from '" ++ options.trustListDirectory ++
              "'; checking against nothing is not a policy" },
          config)
      else configureCertificate library files options config counted trustList
  else configureCertificate library files options config posture []

/-- `configureSecurity` in a build without encryption. -/
def configureUnencrypted (config : ServerConfig ε) (posture : SecurityPosture) :
    SecurityPosture × ServerConfig ε :=
  if options.authentication = .trustList then
    ({ posture with
        detail := "client authentication needs a crypto backend, and this build has none" },
      config)
  else if !options.allowUnencrypted then
    ({ posture with
        detail := "built without a crypto backend and unencrypted use not permitted" },
      config)
  else configureMinimal library options config posture "built without a crypto backend"

/-- What `configureSecurity` returns, and the config it leaves. -/
def configureSecurity [Inhabited ε] (encryptionAvailable : Bool)
    (config : Option (ServerConfig ε)) : SecurityPosture × Option (ServerConfig ε) :=
  let posture : SecurityPosture := { authentication := options.authentication }
  match config with
  | none => ({ posture with detail := "no server config" }, none)
  | some config =>
    let result :=
      if encryptionAvailable then configureEncrypted library files options config posture
      else configureUnencrypted library options config posture
    (result.1, some result.2)

variable {library files options}

/-- Exactly the endpoints with the mode None go. -/
theorem dropUnencryptedEndpoints_eq [Inhabited ε] (config : ServerConfig ε) :
    config.dropUnencryptedEndpoints =
      ({ config with endpoints := config.endpoints.filter (·.securityMode ≠ .none) },
        config.endpoints.countP (·.securityMode = .none)) := by
  simp [ServerConfig.dropUnencryptedEndpoints, Library.take_compact, Library.removed_compact]

theorem filter_map_withApplicationUri (endpoints : List (EndpointDescription ε)) :
    (endpoints.map EndpointDescription.withApplicationUri).filter (·.securityMode ≠ .none) =
      (endpoints.filter (·.securityMode ≠ .none)).map EndpointDescription.withApplicationUri :=
  List.filter_map

/-- A config with the library's policies, the endpoints that are permitted, and the trust list if
one was asked for. -/
structure PoliciesInstalled (library : Open62541 ε) (options : SecurityOptions)
    (config : ServerConfig ε) (trustList : List (List UInt8))
    (result : SecurityPosture × ServerConfig ε) : Prop where
  allowsUnencrypted : result.1.allowsUnencrypted = options.allowUnencrypted
  endpoints : ∃ certificate privateKey installed,
    library.setDefaultWithSecurityPolicies config options.port certificate privateKey trustList =
      (true, installed) ∧
    (options.allowUnencrypted = false → result.2.endpoints =
      (installed.endpoints.filter (·.securityMode ≠ .none)).map
        EndpointDescription.withApplicationUri)
  trusted : options.authentication = .trustList →
    result.2.secureChannelPKI = .trustlist trustList ∧ result.2.sessionPKI = .trustlist trustList

variable {config : ServerConfig ε} {posture : SecurityPosture}

theorem configureClients_trustList (h : options.authentication = .trustList) :
    (configureClients options config posture).2 = config := by
  simp [configureClients, h]

theorem configureClients_endpoints :
    (configureClients options config posture).2.endpoints = config.endpoints := by
  unfold configureClients
  split_ifs <;> rfl

theorem configureEndpoints_pki [Inhabited ε] :
    (configureEndpoints options config posture).2.secureChannelPKI = config.secureChannelPKI ∧
      (configureEndpoints options config posture).2.sessionPKI = config.sessionPKI := by
  unfold configureEndpoints
  split_ifs <;> exact ⟨rfl, rfl⟩

theorem configureEndpoints_closed [Inhabited ε] (h : options.allowUnencrypted = false) :
    (configureEndpoints options config posture).2.endpoints =
      config.endpoints.filter (·.securityMode ≠ .none) := by
  simp [configureEndpoints, h, dropUnencryptedEndpoints_eq]

theorem configurePolicies_started [Inhabited ε] {certificate privateKey : List UInt8}
    {trustList : List (List UInt8)} (hposture : posture.policyCount = 0)
    (hstarted : 0 < (configurePolicies library options config posture certificate privateKey
      trustList).1.policyCount) :
    PoliciesInstalled library options config trustList
      (configurePolicies library options config posture certificate privateKey trustList) := by
  have hinstalled := library.installed config options.port certificate privateKey trustList
  unfold configurePolicies at hstarted ⊢
  rcases hresult : library.setDefaultWithSecurityPolicies config options.port certificate
    privateKey trustList with ⟨good, installed⟩
  cases good with
  | false =>
    simp only [hresult, Bool.not_false, if_true, hposture] at hstarted
    exact absurd hstarted (lt_irrefl 0)
  | true =>
    simp only [hresult, forall_const, Bool.not_true] at hinstalled ⊢
    refine ⟨rfl, ⟨certificate, privateKey, installed, hresult, fun hclosed => ?_⟩, fun htrust => ?_⟩
    · simp only [Bool.false_eq_true, if_false, configureEndpoints_closed hclosed,
        configureClients_endpoints]
      exact filter_map_withApplicationUri installed.endpoints
    · simp only [Bool.false_eq_true, if_false, configureEndpoints_pki,
        configureClients_trustList htrust]
      exact hinstalled

/-- The certificate decides nothing about the clients. -/
theorem configureCertificate_clients [Inhabited ε] (library : Open62541 ε) (files : FileSystem)
    (options : SecurityOptions) (config : ServerConfig ε) (posture : SecurityPosture)
    (trustList : List (List UInt8)) :
    let result := configureCertificate library files options config posture trustList
    result.1.authentication = posture.authentication ∧
      result.1.trustedCertificateCount = posture.trustedCertificateCount := by
  have hpolicies (reported : SecurityPosture) (certificate privateKey : List UInt8) :
      let result := configurePolicies library options config reported certificate privateKey
        trustList
      result.1.authentication = reported.authentication ∧
        result.1.trustedCertificateCount = reported.trustedCertificateCount := by
    simp only [configurePolicies, configureEndpoints, configureClients]
    split_ifs <;> exact ⟨rfl, rfl⟩
  simp only [configureCertificate]
  split_ifs
  · exact hpolicies _ _ _
  · split
    · exact ⟨rfl, rfl⟩
    · exact hpolicies _ _ _
  · split
    · simp only [configureMinimal]
      split_ifs <;> exact ⟨rfl, rfl⟩
    · exact hpolicies _ _ _

/-- Without a certificate the server starts only if unencrypted use is permitted. -/
theorem configureCertificate_started [Inhabited ε] {trustList : List (List UInt8)}
    (hposture : posture.policyCount = 0)
    (hstarted : 0 < (configureCertificate library files options config posture
      trustList).1.policyCount) :
    options.allowUnencrypted = true ∨ PoliciesInstalled library options config trustList
      (configureCertificate library files options config posture trustList) := by
  cases hallow : options.allowUnencrypted with
  | true => exact Or.inl rfl
  | false =>
    refine Or.inr ?_
    simp only [configureCertificate, hallow, Bool.not_false, if_true] at hstarted ⊢
    split at hstarted
    · rename_i hfiles
      rw [if_pos hfiles]
      exact configurePolicies_started hposture hstarted
    · rename_i hfiles
      rw [if_neg hfiles]
      split at hstarted
      · exact absurd hstarted (by simp [hposture])
      · exact configurePolicies_started hposture hstarted

/-- Without encryption the server starts only if that is permitted, and no trust list is asked
for. -/
theorem configureUnencrypted_started (hposture : posture.policyCount = 0)
    (hstarted : 0 < (configureUnencrypted library options config posture).1.policyCount) :
    options.allowUnencrypted = true ∧ options.authentication ≠ .trustList ∧
      (configureUnencrypted library options config posture).1.authentication =
        posture.authentication := by
  simp only [configureUnencrypted] at hstarted ⊢
  split_ifs at hstarted ⊢ with htrust hallow
  · exact absurd hstarted (by simp [hposture])
  · exact absurd hstarted (by simp [hposture])
  · refine ⟨by simpa using hallow, htrust, ?_⟩
    simp only [configureMinimal]
    split_ifs <;> rfl

/-- With encryption a trust list is never empty and never stands beside unencrypted use. -/
theorem configureEncrypted_started [Inhabited ε] (hposture : posture.policyCount = 0)
    (hstarted : 0 < (configureEncrypted library files options config posture).1.policyCount) :
    (configureEncrypted library files options config posture).1.authentication =
        posture.authentication ∧
    ((options.allowUnencrypted = true ∧ options.authentication ≠ .trustList) ∨
      ∃ trustList,
        PoliciesInstalled library options config trustList
          (configureEncrypted library files options config posture) ∧
        (options.authentication = .trustList →
          options.allowUnencrypted = false ∧ trustList ≠ [] ∧ trustList.length =
            (configureEncrypted library files options config
              posture).1.trustedCertificateCount)) := by
  simp only [configureEncrypted] at hstarted ⊢
  split_ifs at hstarted ⊢ with htrust hallow hempty
  · exact absurd hstarted (by simp [hposture])
  · exact absurd hstarted (by simp [hposture])
  · obtain ⟨hauthentication, hcount⟩ := configureCertificate_clients library files options config
      { posture with
        trustedCertificateCount := (readTrustList files options.trustListDirectory).length }
      (readTrustList files options.trustListDirectory)
    refine ⟨hauthentication, Or.inr ⟨_, ?_, fun _ => ⟨by simpa using hallow, ?_, hcount.symm⟩⟩⟩
    · exact (configureCertificate_started (by exact hposture) hstarted).resolve_left hallow
    · simpa using hempty
  · refine ⟨(configureCertificate_clients library files options config posture []).1, ?_⟩
    rcases configureCertificate_started hposture hstarted with hallow | hinstalled
    · exact Or.inl ⟨hallow, htrust⟩
    · exact Or.inr ⟨[], hinstalled, fun h => absurd h htrust⟩

variable (library files options)

/-- A server that starts and may not serve unencrypted offers the endpoints the library installed
but those with the mode None, in their order, each with the identity of the certificate. If it
reports a trust list, it verifies client certificates against the ones it has read and counted. -/
theorem started_as_reported [Inhabited ε] (encryptionAvailable : Bool)
    (config : Option (ServerConfig ε)) :
    let result := configureSecurity library files options encryptionAvailable config
    0 < result.1.policyCount → ∃ before after, config = some before ∧ result.2 = some after ∧
      (options.allowUnencrypted = false → result.1.allowsUnencrypted = false ∧
        ∃ certificate privateKey trustList installed,
          library.setDefaultWithSecurityPolicies before options.port certificate privateKey
            trustList = (true, installed) ∧
          after.endpoints = (installed.endpoints.filter (·.securityMode ≠ .none)).map
            EndpointDescription.withApplicationUri) ∧
      (result.1.authentication = .trustList → encryptionAvailable = true ∧
        options.allowUnencrypted = false ∧ ∃ certificate privateKey trustList installed,
          library.setDefaultWithSecurityPolicies before options.port certificate privateKey
            trustList = (true, installed) ∧
          trustList ≠ [] ∧ trustList.length = result.1.trustedCertificateCount ∧
          after.secureChannelPKI = .trustlist trustList ∧
          after.sessionPKI = .trustlist trustList) := by
  intro result hstarted
  cases config with
  | none => exact absurd hstarted (lt_irrefl 0)
  | some before =>
    refine ⟨before, _, rfl, rfl, ?_⟩
    cases encryptionAvailable with
    | false =>
      obtain ⟨hallow, htrust, hreported⟩ := configureUnencrypted_started rfl hstarted
      exact ⟨fun hclosed => absurd hclosed (by simp [hallow]),
        fun h => absurd (hreported.symm.trans h) htrust⟩
    | true =>
      obtain ⟨hreported, ⟨hallow, htrust⟩ | ⟨trustList, hinstalled, htrusted⟩⟩ :=
        configureEncrypted_started rfl hstarted
      · exact ⟨fun hclosed => absurd hclosed (by simp [hallow]),
          fun h => absurd (hreported.symm.trans h) htrust⟩
      · obtain ⟨certificate, privateKey, installed, hpolicies, hendpoints⟩ := hinstalled.endpoints
        refine ⟨fun hclosed => ?_, fun h => ?_⟩
        · exact ⟨hinstalled.allowsUnencrypted.trans hclosed, certificate, privateKey, trustList,
            installed, hpolicies, hendpoints hclosed⟩
        · have hasked : options.authentication = .trustList := hreported.symm.trans h
          obtain ⟨hclosed, hnonempty, hcount⟩ := htrusted hasked
          exact ⟨rfl, hclosed, certificate, privateKey, trustList, installed, hpolicies, hnonempty,
            hcount, hinstalled.trusted hasked⟩

end Configure

/-- A library that installs one endpoint without and one with encryption. -/
def plainAndEncrypted : Open62541 Unit where
  createCertificate _ _ := some ([1], [2])
  setMinimal config _ := (false, config)
  setDefaultWithSecurityPolicies config _ _ _ trustList :=
    (true,
      { config with
        securityPoliciesSize := 2
        endpoints := [⟨.none, "", ()⟩, ⟨.signAndEncrypt, "", ()⟩]
        secureChannelPKI := .trustlist trustList
        sessionPKI := .trustlist trustList })
  installed _ _ _ _ _ _ := ⟨rfl, rfl⟩

/-- A directory with one certificate. -/
def oneCertificate : FileSystem where
  openFile path := if path = "clients/a.der" then some ⟨1, true, [7]⟩ else none
  listDirectory path := if path = "clients" then some [⟨"clients/a.der", some true⟩] else none

def emptyConfig : ServerConfig Unit := ⟨0, [], "", .acceptAll, .acceptAll⟩

def trusting : SecurityOptions :=
  { trustListDirectory := "clients", authentication := .trustList }

theorem readTrustList_oneCertificate : readTrustList oneCertificate "clients" = [[7]] := by
  have hextension : extension "clients/a.der" = ".der" := by decide
  have hread : readFile oneCertificate "clients/a.der" = [7] := by decide
  have hlisted : oneCertificate.listDirectory "clients" = some [⟨"clients/a.der", some true⟩] :=
    rfl
  simp [readTrustList, hlisted, hextension, hread]

theorem started_as_reported_trusting :
    let result := configureSecurity plainAndEncrypted oneCertificate trusting true
      (some emptyConfig)
    result.1.policyCount = 2 ∧ result.1.allowsUnencrypted = false ∧
      ∃ after trustList, result.2 = some after ∧ trustList ≠ [] ∧
        after.secureChannelPKI = .trustlist trustList := by
  intro result
  have hlist : readTrustList oneCertificate trusting.trustListDirectory = [[7]] :=
    readTrustList_oneCertificate
  have hcount : result.1.policyCount = 2 := by
    simp only [result, configureSecurity, configureEncrypted, hlist]
    rfl
  have hreported : result.1.authentication = .trustList := by
    simp only [result, configureSecurity, configureEncrypted, hlist]
    rfl
  obtain ⟨before, after, _, hafter, hclosed, htrusted⟩ := started_as_reported plainAndEncrypted
    oneCertificate trusting true (some emptyConfig) (hcount ▸ two_pos)
  obtain ⟨_, _, _, _, trustList, _, _, hnonempty, _, hinstalled, _⟩ := htrusted hreported
  exact ⟨hcount, (hclosed rfl).1, after, trustList, hafter, hnonempty, hinstalled⟩

end SafeEdge.Opcua
