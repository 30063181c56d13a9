import SafeEdge.Apps.OpcuaShutdown

/-! Who may talk to the OPC UA server program, from the variables its operator sets to the endpoints
it serves, and what the operator is told of it. -/
namespace SafeEdge.Opcua
variable {ε : Type*} {library : Open62541 ε} {files : FileSystem} {options : SecurityOptions}
  {config : ServerConfig ε} {posture : SecurityPosture}

theorem configureMinimal_allows (hposture : posture.policyCount = 0) {detail : String}
    (hstarted : 0 < (configureMinimal library options config posture detail).1.policyCount) :
    (configureMinimal library options config posture detail).1.allowsUnencrypted = true := by
  simp only [configureMinimal] at hstarted ⊢
  split_ifs at hstarted ⊢
  · rfl
  · exact absurd hstarted (by simp [hposture])

/-- A server that starts reports unencrypted use exactly if it was permitted. -/
theorem configureCertificate_allows [Inhabited ε] {trustList : List (List UInt8)}
    (hposture : posture.policyCount = 0)
    (hstarted : 0 < (configureCertificate library files options config posture
      trustList).1.policyCount) :
    (configureCertificate library files options config posture trustList).1.allowsUnencrypted =
      options.allowUnencrypted := by
  simp only [configureCertificate] at hstarted ⊢
  split_ifs at hstarted ⊢ with hfiles hallow
  · exact (configurePolicies_started (by exact hposture) hstarted).allowsUnencrypted
  · split at hstarted
    · exact absurd hstarted (by simp [hposture])
    · exact (configurePolicies_started (by exact hposture) hstarted).allowsUnencrypted
  · split at hstarted
    · have hpermitted : options.allowUnencrypted = true := by simpa using hallow
      rw [hpermitted]
      exact configureMinimal_allows (by exact hposture) hstarted
    · exact (configurePolicies_started (by exact hposture) hstarted).allowsUnencrypted

/-- Where unencrypted use is not permitted no endpoint offers it. -/
theorem PoliciesInstalled.encrypted {trustList : List (List UInt8)}
    {result : SecurityPosture × ServerConfig ε}
    (h : PoliciesInstalled library options config trustList result)
    (hclosed : options.allowUnencrypted = false) :
    ∀ endpoint ∈ result.2.endpoints, endpoint.securityMode ≠ .none := by
  obtain ⟨_, _, installed, -, hendpoints⟩ := h.endpoints
  rw [hendpoints hclosed]
  intro endpoint hmem
  obtain ⟨original, horiginal, rfl⟩ := List.mem_map.mp hmem
  exact of_decide_eq_true (List.mem_filter.mp horiginal).2

/-- Whom a server admits that has been started with the options. -/
structure Admission (files : FileSystem) (options : SecurityOptions) (encryptionAvailable : Bool)
    (posture : SecurityPosture) (config : ServerConfig ε) : Prop where
  authentication : posture.authentication = options.authentication
  allowsUnencrypted : posture.allowsUnencrypted = options.allowUnencrypted
  encrypted : options.allowUnencrypted = false →
    encryptionAvailable = true ∧ ∀ endpoint ∈ config.endpoints, endpoint.securityMode ≠ .none
  trusted : options.authentication = .trustList →
    options.allowUnencrypted = false ∧
      readTrustList files options.trustListDirectory ≠ [] ∧
      config.secureChannelPKI = .trustlist (readTrustList files options.trustListDirectory) ∧
      config.sessionPKI = .trustlist (readTrustList files options.trustListDirectory)

theorem configureUnencrypted_admission
    (hposture : posture.policyCount = 0) (hasked : posture.authentication = options.authentication)
    (hstarted : 0 < (configureUnencrypted library options config posture).1.policyCount) :
    Admission files options false (configureUnencrypted library options config posture).1
      (configureUnencrypted library options config posture).2 := by
  obtain ⟨hallow, htrust, hreported⟩ := configureUnencrypted_started hposture hstarted
  have hallows :
      (configureUnencrypted library options config posture).1.allowsUnencrypted = true := by
    simp only [configureUnencrypted, if_neg htrust, hallow, Bool.not_true, Bool.false_eq_true,
      if_false] at hstarted ⊢
    exact configureMinimal_allows hposture hstarted
  exact ⟨hreported.trans hasked, hallows.trans hallow.symm, fun h => absurd h (by simp [hallow]),
    fun h => absurd h htrust⟩

theorem configureEncrypted_admission [Inhabited ε]
    (hposture : posture.policyCount = 0) (hasked : posture.authentication = options.authentication)
    (hstarted : 0 < (configureEncrypted library files options config posture).1.policyCount) :
    Admission files options true (configureEncrypted library files options config posture).1
      (configureEncrypted library files options config posture).2 := by
  have hreported := (configureEncrypted_started hposture hstarted).1.trans hasked
  simp only [configureEncrypted] at hstarted hreported ⊢
  split_ifs at hstarted hreported ⊢ with htrust hallow hempty
  · exact absurd hstarted (by simp [hposture])
  · exact absurd hstarted (by simp [hposture])
  · have hinstalled :=
      (configureCertificate_started (by exact hposture) hstarted).resolve_left hallow
    have hclosed : options.allowUnencrypted = false := by simpa using hallow
    refine ⟨hreported, configureCertificate_allows (by exact hposture) hstarted,
      fun _ => ⟨rfl, hinstalled.encrypted hclosed⟩, fun _ => ⟨hclosed, ?_, ?_⟩⟩
    · simpa using hempty
    · exact hinstalled.trusted htrust
  · refine ⟨hreported, configureCertificate_allows hposture hstarted, fun hclosed => ⟨rfl, ?_⟩,
      fun h => absurd h htrust⟩
    rcases configureCertificate_started hposture hstarted with hallow | hinstalled
    · exact absurd hclosed (by simp [hallow])
    · exact hinstalled.encrypted hclosed

theorem configureSecurity_admission [Inhabited ε] {encryptionAvailable : Bool}
    {before : Option (ServerConfig ε)}
    (hstarted : (configureSecurity library files options encryptionAvailable before).1.policyCount
      ≠ 0) :
    ∃ after, (configureSecurity library files options encryptionAvailable before).2 = some after ∧
      Admission files options encryptionAvailable
        (configureSecurity library files options encryptionAvailable before).1 after := by
  cases before with
  | none => exact absurd rfl hstarted
  | some before =>
    refine ⟨_, rfl, ?_⟩
    cases encryptionAvailable with
    | false => exact configureUnencrypted_admission rfl rfl (Nat.pos_of_ne_zero hstarted)
    | true => exact configureEncrypted_admission rfl rfl (Nat.pos_of_ne_zero hstarted)

end SafeEdge.Opcua

namespace SafeEdge.Apps
open Library Edge Opcua

/-- Security has been configured and the server not yet been deleted. -/
def ServerMainPc.configured : ServerMainPc → Bool
  | .building | .buildingEvents | .starting | .announcing | .serving | .clearing | .joining => true
  | _ => false

theorem OpcuaSetup.authentication_trustList {ε : Type*} {setup : OpcuaSetup ε} :
    setup.security.authentication = .trustList ↔ setup.trustListDirectory ≠ "" := by
  simp only [OpcuaSetup.security]
  split_ifs with hempty
  · simpa using hempty
  · simpa using hempty

theorem OpcuaSetup.allowUnencrypted_eq_true {ε : Type*} {setup : OpcuaSetup ε} :
    setup.security.allowUnencrypted = true ↔
      environmentLong setup.environment "SAFEEDGE_OPCUA_INSECURE" 0 ≠ 0 := by
  simp [OpcuaSetup.security]

theorem mem_securityLines_of_unencrypted {posture : SecurityPosture}
    (h : posture.allowsUnencrypted = true) :
    ⟨"warn", "SecurityPolicy#None is offered: traffic can be read and forged by anyone on this " ++
      "network", none⟩ ∈ securityLines posture := by
  unfold securityLines
  rw [if_pos h]
  exact List.mem_append_left _ (List.mem_append_left _
    (List.mem_append_right _ List.mem_cons_self))

theorem mem_securityLines_of_acceptAny {posture : SecurityPosture}
    (h : posture.authentication = .acceptAnyCertificate) :
    ⟨"warn", "any client certificate is accepted: set SAFEEDGE_OPCUA_TRUSTLIST to restrict " ++
      "who may connect", none⟩ ∈ securityLines posture := by
  unfold securityLines
  rw [h]
  exact List.mem_append_left _ (List.mem_append_right _ List.mem_cons_self)

namespace OpcuaProcess
variable {ε : Type*} {setup : OpcuaSetup ε} {p : OpcuaProcess ε}

/-- The server admits whom its options say, and the operator has been told. -/
structure Told (setup : OpcuaSetup ε) (p : OpcuaProcess ε) : Prop where
  admission : ∃ config, p.config = some config ∧
    Admission setup.files setup.security setup.encryptionAvailable p.posture config
  logged : securityLines p.posture ⊆ p.log

/-- A step that only adds lines keeps what the operator has been told. -/
theorem Told.of_kept (h : p.Told setup) {next : OpcuaProcess ε} (lines : List LogLine)
    (hconfig : next.config = p.config) (hposture : next.posture = p.posture)
    (hlog : next.log = p.log ++ lines) : next.Told setup := by
  refine ⟨?_, ?_⟩
  · rw [hconfig, hposture]
    exact h.admission
  · rw [hposture, hlog]
    exact List.Subset.trans h.logged (List.subset_append_left _ _)

theorem Told.of_unlogged (h : p.Told setup) {next : OpcuaProcess ε}
    (hconfig : next.config = p.config) (hposture : next.posture = p.posture)
    (hlog : next.log = p.log) : next.Told setup :=
  h.of_kept [] hconfig hposture (hlog.trans (List.append_nil _).symm)

theorem told_configure [Inhabited ε] (hnext : (p.configure setup).main.configured = true) :
    (p.configure setup).Told setup := by
  unfold OpcuaProcess.configure at hnext ⊢
  dsimp only at hnext ⊢
  split_ifs at hnext ⊢ with hnone
  · exact (Bool.false_ne_true hnext).elim
  · exact ⟨configureSecurity_admission hnone, List.subset_append_right _ _⟩

theorem told_mainStep [Inhabited ε] (h : p.main.configured = true → p.Told setup)
    (succeeds : Bool) (fault : Option String)
    (hnext : (p.mainStep setup succeeds fault).main.configured = true) :
    (p.mainStep setup succeeds fault).Told setup := by
  unfold OpcuaProcess.mainStep at hnext ⊢
  cases hmain : p.main with
  | opening | creating =>
    simp only [hmain] at hnext
    split_ifs at hnext <;> exact (Bool.false_ne_true hnext).elim
  | configuring =>
    simp only [hmain] at hnext
    exact told_configure hnext
  | building =>
    have htold := h (by rw [hmain]; rfl)
    simp only [hmain] at hnext
    dsimp only
    split_ifs at hnext ⊢
    · exact htold.of_unlogged rfl rfl rfl
    · exact (Bool.false_ne_true hnext).elim
  | buildingEvents =>
    have htold := h (by rw [hmain]; rfl)
    simp only [hmain] at hnext
    dsimp only
    split_ifs at hnext ⊢
    · exact htold.of_kept [_] rfl rfl rfl
    · exact (Bool.false_ne_true hnext).elim
  | starting | clearing =>
    exact (h (by rw [hmain]; rfl)).of_unlogged rfl rfl rfl
  | announcing => exact (h (by rw [hmain]; rfl)).of_kept [_] rfl rfl rfl
  | serving =>
    have htold := h (by rw [hmain]; rfl)
    cases fault with
    | some status => exact htold.of_kept [_] rfl rfl rfl
    | none =>
      dsimp only
      split_ifs <;> exact htold.of_unlogged rfl rfl rfl
  | joining =>
    have htold := h (by rw [hmain]; rfl)
    dsimp only
    split
    · exact htold.of_unlogged rfl rfl rfl
    · exact htold
  | deleting code =>
    simp only [hmain] at hnext
    split_ifs at hnext <;> exact (Bool.false_ne_true hnext).elim
  | leaving code | returned code =>
    simp [hmain, ServerMainPc.configured] at hnext

/-- The publisher changes nothing about security. -/
theorem told_publisherStep (h : p.Told setup) (snapshot : Option RuntimeSnapshot)
    (calls : FireCalls) : (p.publisherStep setup snapshot calls).Told setup := by
  unfold OpcuaProcess.publisherStep
  split
  next => exact h
  next => exact h
  next => exact h
  next => exact h.of_unlogged rfl rfl rfl
  next => exact h.of_unlogged rfl rfl rfl
  next => exact h.of_unlogged rfl rfl rfl
  next => exact h.of_unlogged rfl rfl rfl
  next => exact h.of_unlogged rfl rfl rfl
  next =>
    split_ifs
    · exact h.of_unlogged rfl rfl rfl
    · exact h.of_kept [_] rfl rfl rfl
  next => exact h.of_unlogged rfl rfl rfl

theorem processAt_told [Inhabited ε] (setup : OpcuaSetup ε) (schedule : ℕ → OpcuaTurn) (n : ℕ) :
    (({} : OpcuaProcess ε).processAt setup schedule n).main.configured = true →
      (({} : OpcuaProcess ε).processAt setup schedule n).Told setup := by
  have hinitial (h : ({} : OpcuaProcess ε).main.configured = true) :
      ({} : OpcuaProcess ε).Told setup := (Bool.false_ne_true h).elim
  refine stateAt_invariant (fun _ (p : OpcuaProcess ε) =>
    p.main.configured = true → p.Told setup) hinitial (fun n ih => ?_) n
  cases schedule n with
  | main succeeds fault => exact told_mainStep ih succeeds fault
  | publisher snapshot calls =>
    intro hnext
    simp only [OpcuaProcess.step, publisherStep_main] at hnext
    exact told_publisherStep (ih hnext) snapshot calls

/-- While the server serves, and however its threads got there: it is encrypted and has no endpoint
without encryption unless SAFEEDGE_OPCUA_INSECURE is set to a number other than zero, and then the
operator has been warned that it is offered. With a directory in SAFEEDGE_OPCUA_TRUSTLIST there is
never such an endpoint, and clients are verified against the certificates read from it, of which
there is at least one; without it the operator has been warned that any certificate will do. -/
theorem opcua_server_admits_as_told [Inhabited ε] (setup : OpcuaSetup ε)
    (schedule : ℕ → OpcuaTurn) (n : ℕ) :
    let p := ({} : OpcuaProcess ε).processAt setup schedule n
    let insecure := environmentLong setup.environment "SAFEEDGE_OPCUA_INSECURE" 0
    let trustList := readTrustList setup.files setup.trustListDirectory
    p.main = .serving → ∃ config, p.config = some config ∧
      (insecure = 0 → setup.encryptionAvailable = true ∧
        ∀ endpoint ∈ config.endpoints, endpoint.securityMode ≠ .none) ∧
      (insecure ≠ 0 → ⟨"warn",
        "SecurityPolicy#None is offered: traffic can be read and forged by anyone on this " ++
        "network", none⟩ ∈ p.log) ∧
      (setup.trustListDirectory ≠ "" → insecure = 0 ∧ trustList ≠ [] ∧
        config.secureChannelPKI = .trustlist trustList ∧
        config.sessionPKI = .trustlist trustList) ∧
      (setup.trustListDirectory = "" → ⟨"warn",
        "any client certificate is accepted: set SAFEEDGE_OPCUA_TRUSTLIST to restrict " ++
        "who may connect", none⟩ ∈ p.log) := by
  intro p insecure trustList hserving
  have htold : p.Told setup := processAt_told setup schedule n (by
    change p.main.configured = true
    rw [hserving]
    rfl)
  obtain ⟨config, hconfig, hadmission⟩ := htold.admission
  have hclosed (h : insecure = 0) : setup.security.allowUnencrypted = false := by
    simpa using mt OpcuaSetup.allowUnencrypted_eq_true.mp (not_not.mpr h)
  refine ⟨config, hconfig, fun h => hadmission.encrypted (hclosed h), fun h => ?_, fun h => ?_,
    fun h => ?_⟩
  · have hallows : p.posture.allowsUnencrypted = true :=
      hadmission.allowsUnencrypted.trans (OpcuaSetup.allowUnencrypted_eq_true.mpr h)
    exact htold.logged (mem_securityLines_of_unencrypted hallows)
  · obtain ⟨hinsecure, hlist⟩ :=
      hadmission.trusted (OpcuaSetup.authentication_trustList.mpr h)
    refine ⟨?_, hlist⟩
    by_contra hne
    exact absurd (OpcuaSetup.allowUnencrypted_eq_true.mpr hne) (by simp [hinsecure])
  · have haccepts : p.posture.authentication = .acceptAnyCertificate := by
      rw [hadmission.authentication]
      simp [OpcuaSetup.security, h]
    exact htold.logged (mem_securityLines_of_acceptAny haccepts)

/-- A program whose operator named a directory of certificates. -/
def withTrustList : OpcuaSetup Unit :=
  { unconfigured with
    environment := fun name => if name = "SAFEEDGE_OPCUA_TRUSTLIST" then some "clients" else none }

theorem opcua_server_admits_as_told_withTrustList :
    let p := ({} : OpcuaProcess Unit).processAt withTrustList (fun _ => .main true none) 7
    p.main = .serving ∧ ∃ config, p.config = some config ∧
      (∀ endpoint ∈ config.endpoints, endpoint.securityMode ≠ .none) ∧
      config.sessionPKI = .trustlist [[7]] := by
  intro p
  have hserving : p.main = .serving := by decide +kernel
  have hdirectory : withTrustList.trustListDirectory = "clients" := by decide
  obtain ⟨config, hconfig, hencrypted, -, htrusted, -⟩ :=
    opcua_server_admits_as_told withTrustList (fun _ => .main true none) 7 hserving
  obtain ⟨hinsecure, -, -, hsession⟩ := htrusted (by rw [hdirectory]; decide)
  rw [hdirectory] at hsession
  exact ⟨hserving, config, hconfig, (hencrypted hinsecure).2,
    hsession.trans (congrArg _ readTrustList_oneCertificate)⟩

end OpcuaProcess
end SafeEdge.Apps
