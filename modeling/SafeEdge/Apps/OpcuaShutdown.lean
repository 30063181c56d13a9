import SafeEdge.Apps.OpcuaServer

/-! The shared objects of the OPC UA server program: neither thread uses one that is not live, each
is released once, and the shutdown comes to its end. -/
namespace SafeEdge.Apps
open Library Edge Opcua

/-- The turns the publisher still takes once it is no longer to run. -/
def PublisherPc.rank : PublisherPc → ℕ
  | .absent | .finished | .joined => 0
  | .checking => 1
  | .sleeping => 2
  | .firing left _ _ => left + 3
  | .writing left _ => left.length + 13
  | .loading => 28

/-- The thread has been started and not yet been joined. -/
def PublisherPc.Started : PublisherPc → Prop
  | .absent | .joined => False
  | .checking | .loading | .writing _ _ | .firing _ _ _ | .sleeping | .finished => True

/-- The main thread is on its way out with an error. -/
def ServerMainPc.failed : ServerMainPc → Bool
  | .deleting code | .leaving code | .returned code => code != 0
  | _ => false

/-- The thread as the main thread leaves it behind when it returns the code. -/
def PublisherPc.left (code : ℕ) : PublisherPc := if code = 0 then .joined else .absent

/-- A fatal error was logged. -/
def Failed (log : List LogLine) : Prop := ∃ line ∈ log, line.level = "fatal"

theorem failed_append (log lines : List LogLine) :
    Failed (log ++ lines) ↔ Failed log ∨ Failed lines := by
  simp only [Failed, List.mem_append, or_and_right, exists_or]

theorem failed_singleton (line : LogLine) : Failed [line] ↔ line.level = "fatal" := by
  simp [Failed]

theorem not_failed_nil : ¬ Failed [] := by
  simp [Failed]

theorem not_failed_securityLines (posture : SecurityPosture) :
    ¬ Failed (securityLines posture) := by
  simp only [securityLines, failed_append, not_or]
  refine ⟨⟨⟨?_, ?_⟩, ?_⟩, ?_⟩
  · cases posture.origin <;> simp [failed_singleton]
  · split_ifs <;> simp [failed_singleton, not_failed_nil]
  · cases posture.authentication <;> simp [failed_singleton]
  · split_ifs <;> simp [failed_singleton, not_failed_nil]

theorem fireAccesses_le (calls : FireCalls) : fireAccesses calls ≤ 9 := by
  unfold fireAccesses
  split_ifs
  · decide
  · have hfields : ([EventField.transitionMonotonicNs, .safetySequence, .missedTransitions,
        .safetyState, .torquePermitted] : List EventField).length = 5 := rfl
    simp only [hfields]
    omega

namespace OpcuaProcess
variable {ε : Type*} {setup : OpcuaSetup ε} {p : OpcuaProcess ε}

/-- What is live, and where the publisher stands, while the main thread is at each place. -/
def Phase (p : OpcuaProcess ε) : ServerMainPc → Prop
  | .opening => p.region = .absent ∧ p.server = .absent ∧ p.publisher = .absent
  | .creating => p.region = .live ∧ p.server = .absent ∧ p.publisher = .absent
  | .configuring | .building | .buildingEvents | .starting =>
    p.region = .live ∧ p.server = .live ∧ p.publisher = .absent
  | .announcing | .serving | .clearing =>
    p.region = .live ∧ p.server = .live ∧ p.publisher.Started
  | .joining =>
    p.region = .live ∧ p.server = .live ∧ p.publisher.Started ∧ p.running = false
  | .deleting code => p.region = .live ∧ p.server = .live ∧ p.publisher = .left code
  | .leaving code => p.region = .live ∧ p.server ≠ .live ∧ p.publisher = .left code
  | .returned code => p.region ≠ .live ∧ p.server ≠ .live ∧ p.publisher = .left code

/-- Nothing was misused, and the error code is told. -/
structure InOrder (p : OpcuaProcess ε) : Prop where
  phase : p.Phase p.main
  unmisused : p.misused = false
  rank : p.publisher.rank ≤ 28
  fatal : Failed p.log ↔ p.main.failed = true

theorem initial_inOrder : InOrder ({} : OpcuaProcess ε) where
  phase := ⟨rfl, rfl, rfl⟩
  unmisused := rfl
  rank := Nat.zero_le _
  fatal := by simp [ServerMainPc.failed, Failed]

theorem useServer_misused (h : p.misused = false) (hserver : p.server = .live) :
    p.useServer.misused = false := by
  simp [useServer, h, hserver]

theorem useRegion_misused (h : p.misused = false) (hregion : p.region = .live) :
    p.useRegion.misused = false := by
  simp [useRegion, h, hregion]

/-- A step that leaves everything in its phase and logs a fatal error if it fails. -/
theorem InOrder.advance (h : p.InOrder) {next : OpcuaProcess ε} (lines : List LogLine)
    (hphase : next.Phase next.main) (hmisused : next.misused = false)
    (hrank : next.publisher.rank ≤ 28) (hlog : next.log = p.log ++ lines)
    (hfailed : next.main.failed = true ↔ p.main.failed = true ∨ Failed lines) : next.InOrder :=
  ⟨hphase, hmisused, hrank, by rw [hlog, failed_append, h.fatal, hfailed]⟩

theorem InOrder.configure [Inhabited ε] (h : p.InOrder) (hmain : p.main = .configuring) :
    (p.configure setup).InOrder := by
  have hphase := h.phase
  rw [hmain] at hphase
  obtain ⟨hregion, hserver, hpublisher⟩ := hphase
  have hused := useServer_misused h.unmisused hserver
  unfold OpcuaProcess.configure
  dsimp only
  split_ifs with hnone
  · exact h.advance [_] ⟨hregion, hserver, hpublisher⟩ hused h.rank rfl
      (by simp [hmain, ServerMainPc.failed, failed_singleton])
  · exact h.advance (securityLines _) ⟨hregion, hserver, hpublisher⟩ hused h.rank rfl
      (by simp [hmain, ServerMainPc.failed, not_failed_securityLines])

theorem InOrder.mainStep [Inhabited ε] (h : p.InOrder) (succeeds : Bool) (fault : Option String) :
    (p.mainStep setup succeeds fault).InOrder := by
  have hphase := h.phase
  have hreleased : Handle.released ≠ .live := by decide
  unfold OpcuaProcess.mainStep
  cases hmain : p.main with
  | opening =>
    rw [hmain] at hphase
    obtain ⟨hregion, hserver, hpublisher⟩ := hphase
    cases succeeds with
    | true =>
      exact h.advance [_] ⟨rfl, hserver, hpublisher⟩ h.unmisused h.rank rfl
        (by simp [hmain, ServerMainPc.failed, failed_singleton])
    | false =>
      exact h.advance [_] ⟨by simp [logEvent, hregion], by simp [logEvent, hserver], hpublisher⟩
        h.unmisused h.rank rfl (by simp [hmain, ServerMainPc.failed, failed_singleton])
  | creating =>
    rw [hmain] at hphase
    obtain ⟨hregion, hserver, hpublisher⟩ := hphase
    cases succeeds with
    | true =>
      exact h.advance [] ⟨hregion, rfl, hpublisher⟩ h.unmisused h.rank (List.append_nil _).symm
        (by simp [hmain, ServerMainPc.failed, not_failed_nil])
    | false =>
      exact h.advance [_] ⟨hregion, by simp [logEvent, hserver], hpublisher⟩ h.unmisused h.rank rfl
        (by simp [hmain, ServerMainPc.failed, failed_singleton])
  | configuring => exact h.configure hmain
  | building =>
    rw [hmain] at hphase
    obtain ⟨hregion, hserver, hpublisher⟩ := hphase
    have hused := useServer_misused h.unmisused hserver
    dsimp only
    split_ifs
    · exact h.advance [] ⟨hregion, hserver, hpublisher⟩ hused h.rank (List.append_nil _).symm
        (by simp [hmain, ServerMainPc.failed, not_failed_nil])
    · exact h.advance [_] ⟨hregion, hserver, hpublisher⟩ hused h.rank rfl
        (by simp [hmain, ServerMainPc.failed, failed_singleton])
  | buildingEvents =>
    rw [hmain] at hphase
    obtain ⟨hregion, hserver, hpublisher⟩ := hphase
    have hused := useServer_misused h.unmisused hserver
    dsimp only
    split_ifs
    · exact h.advance [_] ⟨hregion, hserver, hpublisher⟩ hused h.rank rfl
        (by simp [hmain, ServerMainPc.failed, failed_singleton])
    · exact h.advance [_] ⟨hregion, hserver, hpublisher⟩ hused h.rank rfl
        (by simp [hmain, ServerMainPc.failed, failed_singleton])
  | starting =>
    rw [hmain] at hphase
    obtain ⟨hregion, hserver, -⟩ := hphase
    have hrank : PublisherPc.checking.rank ≤ 28 := by decide
    exact h.advance [] ⟨hregion, hserver, trivial⟩ h.unmisused hrank (List.append_nil _).symm
      (by simp [hmain, ServerMainPc.failed, not_failed_nil])
  | announcing =>
    rw [hmain] at hphase
    exact h.advance [_] hphase h.unmisused h.rank rfl
      (by simp [hmain, ServerMainPc.failed, failed_singleton])
  | serving =>
    rw [hmain] at hphase
    have hused := useServer_misused h.unmisused hphase.2.1
    cases fault with
    | some status =>
      exact h.advance [_] hphase hused h.rank rfl
        (by simp [hmain, ServerMainPc.failed, failed_singleton])
    | none =>
      dsimp only
      split_ifs
      · exact h.advance [] hphase hused h.rank (List.append_nil _).symm
          (by simp [hmain, ServerMainPc.failed, not_failed_nil])
      · exact h.advance [] h.phase hused h.rank (List.append_nil _).symm
          (by simp [useServer, not_failed_nil])
  | clearing =>
    rw [hmain] at hphase
    obtain ⟨hregion, hserver, hpublisher⟩ := hphase
    exact h.advance [] ⟨hregion, hserver, hpublisher, rfl⟩ h.unmisused h.rank
      (List.append_nil _).symm (by simp [hmain, ServerMainPc.failed, not_failed_nil])
  | joining =>
    rw [hmain] at hphase
    obtain ⟨hregion, hserver, hpublisher, -⟩ := hphase
    dsimp only
    split
    · exact h.advance [] ⟨hregion, hserver, rfl⟩ h.unmisused (Nat.zero_le _)
        (List.append_nil _).symm (by simp [hmain, ServerMainPc.failed, not_failed_nil])
    · exact h
  | deleting code =>
    rw [hmain] at hphase
    obtain ⟨hregion, hserver, hpublisher⟩ := hphase
    have hused := useServer_misused h.unmisused hserver
    dsimp only
    split_ifs with hcode
    · exact h.advance [_] ⟨hregion, hreleased, hpublisher⟩ hused h.rank rfl
        (by simp [hmain, logEvent, ServerMainPc.failed, failed_singleton])
    · exact h.advance [] ⟨hregion, hreleased, hpublisher⟩ hused h.rank (List.append_nil _).symm
        (by simp [hmain, ServerMainPc.failed, not_failed_nil])
  | leaving code =>
    rw [hmain] at hphase
    obtain ⟨hregion, hserver, hpublisher⟩ := hphase
    have hused := useRegion_misused h.unmisused hregion
    exact h.advance [] ⟨hreleased, hserver, hpublisher⟩ hused h.rank (List.append_nil _).symm
      (by simp [hmain, ServerMainPc.failed, not_failed_nil])
  | returned code => exact h

/-- A publisher that runs finds both objects live. -/
theorem InOrder.live (h : p.InOrder) (hstarted : p.publisher.Started) :
    p.region = .live ∧ p.server = .live := by
  have hphase := h.phase
  have hleft (code : ℕ) (hcode : p.publisher = .left code) : False := by
    rw [hcode, PublisherPc.left] at hstarted
    split_ifs at hstarted <;> exact hstarted
  cases hmain : p.main with
  | opening | creating | configuring | building | buildingEvents | starting =>
    rw [hmain] at hphase
    rw [hphase.2.2] at hstarted
    exact hstarted.elim
  | announcing | serving | clearing | joining =>
    rw [hmain] at hphase
    exact ⟨hphase.1, hphase.2.1⟩
  | deleting code | leaving code | returned code =>
    rw [hmain] at hphase
    exact (hleft code hphase.2.2).elim

/-- The phase tells nothing of a running publisher but that it runs. -/
theorem Phase.publisher {next : OpcuaProcess ε} {main : ServerMainPc} (h : p.Phase main)
    (hregion : next.region = p.region) (hserver : next.server = p.server)
    (hrunning : next.running = p.running) (hstarted : p.publisher.Started)
    (hnext : next.publisher.Started) : next.Phase main := by
  have hleft (code : ℕ) (hcode : p.publisher = .left code) : False := by
    rw [hcode, PublisherPc.left] at hstarted
    split_ifs at hstarted <;> exact hstarted
  cases main with
  | opening | creating | configuring | building | buildingEvents | starting =>
    rw [h.2.2] at hstarted
    exact hstarted.elim
  | announcing | serving | clearing => exact ⟨hregion.trans h.1, hserver.trans h.2.1, hnext⟩
  | joining => exact ⟨hregion.trans h.1, hserver.trans h.2.1, hnext, hrunning.trans h.2.2.2⟩
  | deleting code | leaving code | returned code => exact (hleft code h.2.2).elim

/-- A step of the publisher that leaves everything to the main thread. -/
theorem InOrder.published (h : p.InOrder) (hstarted : p.publisher.Started)
    {next : OpcuaProcess ε} (lines : List LogLine) (hmain : next.main = p.main)
    (hregion : next.region = p.region) (hserver : next.server = p.server)
    (hrunning : next.running = p.running) (hnext : next.publisher.Started)
    (hmisused : next.misused = false) (hrank : next.publisher.rank ≤ 28)
    (hlog : next.log = p.log ++ lines) (hquiet : ¬ Failed lines) : next.InOrder := by
  refine h.advance lines ?_ hmisused hrank hlog (by simp [hmain, hquiet])
  rw [hmain]
  exact h.phase.publisher hregion hserver hrunning hstarted hnext

theorem InOrder.publisherStep (h : p.InOrder) (snapshot : Option RuntimeSnapshot)
    (calls : FireCalls) : (p.publisherStep setup snapshot calls).InOrder := by
  have hbound := h.rank
  unfold OpcuaProcess.publisherStep
  split
  next => exact h
  next => exact h
  next => exact h
  next hchecking =>
    have hstarted : p.publisher.Started := by rw [hchecking]; trivial
    refine h.published hstarted [] rfl rfl rfl rfl ?_ h.unmisused ?_ (List.append_nil _).symm
      not_failed_nil
    · dsimp only
      split_ifs <;> trivial
    · dsimp only
      split_ifs <;> simp [PublisherPc.rank]
  next hloading =>
    have hstarted : p.publisher.Started := by rw [hloading]; trivial
    have hlength : (variablesOf (snapshot.getD {})).length = 14 := rfl
    have hused := useRegion_misused h.unmisused (h.live hstarted).1
    exact h.published hstarted [] rfl rfl rfl rfl trivial hused
      (by simp [PublisherPc.rank, hlength]) (List.append_nil _).symm not_failed_nil
  next number value left poll hwriting =>
    have hstarted : p.publisher.Started := by rw [hwriting]; trivial
    have hused := useServer_misused h.unmisused (h.live hstarted).2
    rw [hwriting, PublisherPc.rank, List.length_cons] at hbound
    exact h.published hstarted [] rfl rfl rfl rfl trivial hused
      (by simp only [PublisherPc.rank]; omega) (List.append_nil _).symm not_failed_nil
  next poll hwriting =>
    have hstarted : p.publisher.Started := by rw [hwriting]; trivial
    have haccesses := fireAccesses_le calls
    refine h.published hstarted [] rfl rfl rfl rfl ?_ h.unmisused ?_ (List.append_nil _).symm
      not_failed_nil
    · dsimp only
      split <;> trivial
    · dsimp only
      split
      · simp [PublisherPc.rank]
      · simp only [PublisherPc.rank]
        omega
  next left event calls hfiring =>
    have hstarted : p.publisher.Started := by rw [hfiring]; trivial
    have hused := useServer_misused h.unmisused (h.live hstarted).2
    rw [hfiring, PublisherPc.rank] at hbound
    exact h.published hstarted [] rfl rfl rfl rfl trivial hused
      (by simp only [PublisherPc.rank]; omega) (List.append_nil _).symm not_failed_nil
  next event calls hfiring =>
    have hstarted : p.publisher.Started := by rw [hfiring]; trivial
    have hrank : PublisherPc.sleeping.rank ≤ 28 := by decide
    split_ifs
    · exact h.published hstarted [] rfl rfl rfl rfl trivial h.unmisused hrank
        (List.append_nil _).symm not_failed_nil
    · exact h.published hstarted [_] rfl rfl rfl rfl trivial h.unmisused hrank rfl
        (by simp [failed_singleton])
  next hsleeping =>
    have hstarted : p.publisher.Started := by rw [hsleeping]; trivial
    have hrank : PublisherPc.checking.rank ≤ 28 := by decide
    exact h.published hstarted [] rfl rfl rfl rfl trivial h.unmisused hrank
      (List.append_nil _).symm not_failed_nil

theorem processAt_inOrder [Inhabited ε] (setup : OpcuaSetup ε) (schedule : ℕ → OpcuaTurn) (n : ℕ) :
    (({} : OpcuaProcess ε).processAt setup schedule n).InOrder := by
  refine stateAt_invariant (fun _ (p : OpcuaProcess ε) => p.InOrder) initial_inOrder
    (fun n ih => ?_) n
  cases schedule n with
  | main succeeds fault => exact ih.mainStep succeeds fault
  | publisher snapshot calls => exact ih.publisherStep snapshot calls

/-- However the two threads interleave and whatever their calls return: neither uses the server or
the mapping of the snapshot while it is not live, and neither is released twice. While the publisher
runs both are live; when the program returns both have been released, if there ever were any, and
the publisher has been joined, if it was ever started. The program returns zero exactly if it was,
and otherwise tells of a fatal error. -/
theorem opcua_server_in_order [Inhabited ε] (setup : OpcuaSetup ε) (schedule : ℕ → OpcuaTurn)
    (n : ℕ) :
    (({} : OpcuaProcess ε).processAt setup schedule n).misused = false ∧
    ((({} : OpcuaProcess ε).processAt setup schedule n).publisher.Started →
      (({} : OpcuaProcess ε).processAt setup schedule n).region = .live ∧
      (({} : OpcuaProcess ε).processAt setup schedule n).server = .live) ∧
    ∀ code, (({} : OpcuaProcess ε).processAt setup schedule n).main = .returned code →
      (({} : OpcuaProcess ε).processAt setup schedule n).region ≠ .live ∧
      (({} : OpcuaProcess ε).processAt setup schedule n).server ≠ .live ∧
      ((({} : OpcuaProcess ε).processAt setup schedule n).publisher =
        if code = 0 then .joined else .absent) ∧
      (code ≠ 0 ↔ ∃ line ∈ (({} : OpcuaProcess ε).processAt setup schedule n).log,
        line.level = "fatal") := by
  have h := processAt_inOrder setup schedule n
  refine ⟨h.unmisused, h.live, fun code hmain => ?_⟩
  have hphase := h.phase
  have hfatal := h.fatal
  rw [hmain] at hphase hfatal
  refine ⟨hphase.1, hphase.2.1, hphase.2.2, ?_⟩
  rw [ServerMainPc.failed, bne_iff_ne] at hfatal
  exact hfatal.symm

end OpcuaProcess

/-- The turns the main thread still takes after the publisher has finished. -/
def ServerMainPc.rank : ServerMainPc → ℕ
  | .joining => 3
  | .deleting _ => 2
  | .leaving _ => 1
  | _ => 0

/-- The publisher has been told to finish. -/
def ServerMainPc.Stopping : ServerMainPc → Prop
  | .joining | .deleting 0 | .leaving 0 | .returned 0 => True
  | _ => False

def OpcuaTurn.isMain : OpcuaTurn → Bool
  | .main _ _ => true
  | .publisher _ _ => false

namespace OpcuaProcess
variable {ε : Type*} {setup : OpcuaSetup ε} {p : OpcuaProcess ε}

/-- Once it is not to run any more, every turn brings the publisher nearer its end. -/
theorem rank_publisherStep (hrunning : p.running = false) (snapshot : Option RuntimeSnapshot)
    (calls : FireCalls) :
    (p.publisherStep setup snapshot calls).publisher.rank ≤ p.publisher.rank - 1 := by
  unfold OpcuaProcess.publisherStep
  split
  next habsent => simp [habsent, PublisherPc.rank]
  next hfinished => simp [hfinished, PublisherPc.rank]
  next hjoined => simp [hjoined, PublisherPc.rank]
  next hchecking => simp [hchecking, hrunning, PublisherPc.rank]
  next hloading =>
    have hlength : (variablesOf (snapshot.getD {})).length = 14 := rfl
    simp [hloading, PublisherPc.rank, hlength]
  next number value left poll hwriting => simp [hwriting, PublisherPc.rank]
  next poll hwriting =>
    have haccesses := fireAccesses_le calls
    rw [hwriting]
    dsimp only
    split
    · simp [PublisherPc.rank]
    · simp only [PublisherPc.rank, List.length_nil]
      omega
  next left event calls hfiring => simp [hfiring, PublisherPc.rank]
  next event calls hfiring =>
    rw [hfiring]
    split_ifs <;> simp [PublisherPc.rank]
  next hsleeping => simp [hsleeping, PublisherPc.rank]

theorem publisherStep_main (snapshot : Option RuntimeSnapshot) (calls : FireCalls) :
    (p.publisherStep setup snapshot calls).main = p.main := by
  unfold OpcuaProcess.publisherStep
  split <;> try rfl
  split_ifs <;> rfl

/-- A stopping program has joined its publisher, or waits for it and has told it to finish. -/
theorem InOrder.stopping (h : p.InOrder) (hstopping : p.main.Stopping) :
    (p.main = .joining ∧ p.publisher.Started ∧ p.running = false) ∨ p.publisher = .joined := by
  have hphase := h.phase
  cases hmain : p.main with
  | joining =>
    rw [hmain] at hphase
    exact .inl ⟨rfl, hphase.2.2.1, hphase.2.2.2⟩
  | deleting code | leaving code | returned code =>
    rw [hmain] at hphase hstopping
    cases code with
    | zero => exact .inr hphase.2.2
    | succ code => exact hstopping.elim
  | _ =>
    rw [hmain] at hstopping
    exact hstopping.elim

theorem PublisherPc.eq_finished {pc : PublisherPc} (hstarted : pc.Started) (hrank : pc.rank = 0) :
    pc = .finished := by
  cases pc with
  | finished => rfl
  | absent | joined => exact hstarted.elim
  | checking | loading | sleeping | firing | writing => simp [PublisherPc.rank] at hrank

/-- The main thread goes on once the publisher has finished. -/
theorem rank_mainStep [Inhabited ε] (h : p.InOrder) (hstopping : p.main.Stopping)
    (hfinished : p.publisher.rank = 0) (succeeds : Bool) (fault : Option String) :
    (p.mainStep setup succeeds fault).main.rank ≤ p.main.rank - 1 := by
  have hphase := h.phase
  unfold OpcuaProcess.mainStep
  cases hmain : p.main with
  | joining =>
    rw [hmain] at hphase
    rw [PublisherPc.eq_finished hphase.2.2.1 hfinished]
    exact le_rfl
  | deleting code =>
    dsimp only
    split_ifs <;> exact le_rfl
  | leaving code => exact le_rfl
  | returned code =>
    rw [hmain]
    exact le_rfl
  | _ =>
    rw [hmain] at hstopping
    exact hstopping.elim

/-- A program that stops goes on to stop, and leaves its publisher alone. -/
theorem stopping_mainStep [Inhabited ε] (hstopping : p.main.Stopping) (succeeds : Bool)
    (fault : Option String) :
    (p.mainStep setup succeeds fault).main.Stopping ∧
      (p.mainStep setup succeeds fault).publisher.rank ≤ p.publisher.rank := by
  unfold OpcuaProcess.mainStep
  cases hmain : p.main with
  | joining =>
    dsimp only
    split
    · exact ⟨trivial, Nat.zero_le _⟩
    · rw [hmain]
      exact ⟨trivial, le_rfl⟩
  | deleting code | leaving code =>
    rw [hmain] at hstopping
    cases code with
    | zero => exact ⟨trivial, le_rfl⟩
    | succ code => exact hstopping.elim
  | returned code => exact ⟨hstopping, le_rfl⟩
  | _ =>
    rw [hmain] at hstopping
    exact hstopping.elim

section Run
variable [Inhabited ε] {schedule : ℕ → OpcuaTurn}

theorem stopping_from {n k : ℕ} (hnk : n ≤ k)
    (hstop : (({} : OpcuaProcess ε).processAt setup schedule n).main.Stopping) :
    (({} : OpcuaProcess ε).processAt setup schedule k).main.Stopping := by
  induction k, hnk using Nat.le_induction with
  | base => exact hstop
  | succ k hnk ih =>
    change ((({} : OpcuaProcess ε).processAt setup schedule k).step setup
      (schedule k)).main.Stopping
    cases schedule k with
    | main succeeds fault => exact (stopping_mainStep ih succeeds fault).1
    | publisher snapshot calls =>
      rw [OpcuaProcess.step, publisherStep_main]
      exact ih

theorem publisherRank_step {j : ℕ}
    (hstop : (({} : OpcuaProcess ε).processAt setup schedule j).main.Stopping) :
    (({} : OpcuaProcess ε).processAt setup schedule (j + 1)).publisher.rank ≤
      (({} : OpcuaProcess ε).processAt setup schedule j).publisher.rank -
        if (schedule j).isMain = false then 1 else 0 := by
  have horder := processAt_inOrder setup schedule j
  change ((({} : OpcuaProcess ε).processAt setup schedule j).step setup
    (schedule j)).publisher.rank ≤ _
  cases schedule j with
  | main succeeds fault => exact (stopping_mainStep hstop succeeds fault).2
  | publisher snapshot calls =>
    rcases horder.stopping hstop with ⟨-, -, hrunning⟩ | hjoined
    · exact rank_publisherStep hrunning snapshot calls
    · simp [OpcuaProcess.step, OpcuaProcess.publisherStep, hjoined, PublisherPc.rank]

theorem mainRank_step {j : ℕ}
    (hstop : (({} : OpcuaProcess ε).processAt setup schedule j).main.Stopping)
    (hfinished : (({} : OpcuaProcess ε).processAt setup schedule j).publisher.rank = 0) :
    (({} : OpcuaProcess ε).processAt setup schedule (j + 1)).main.rank ≤
      (({} : OpcuaProcess ε).processAt setup schedule j).main.rank -
        if (schedule j).isMain = true then 1 else 0 := by
  have horder := processAt_inOrder setup schedule j
  change ((({} : OpcuaProcess ε).processAt setup schedule j).step setup
    (schedule j)).main.rank ≤ _
  cases schedule j with
  | main succeeds fault => exact rank_mainStep horder hstop hfinished succeeds fault
  | publisher snapshot calls => rw [OpcuaProcess.step, publisherStep_main]; exact le_rfl

end Run

/-- The shutdown comes to its end: once the publisher has had 28 turns after the main thread began
to wait for it, three turns of the main thread are enough for the program to return zero. -/
theorem opcua_server_stops [Inhabited ε] (setup : OpcuaSetup ε) (schedule : ℕ → OpcuaTurn)
    (n m k : ℕ) (hjoining : (({} : OpcuaProcess ε).processAt setup schedule n).main = .joining)
    (hnm : n ≤ m) (hmk : m ≤ k)
    (hpublisher : 28 ≤ occurrences (fun j => (schedule j).isMain = false) n m)
    (hmain : 3 ≤ occurrences (fun j => (schedule j).isMain = true) m k) :
    (({} : OpcuaProcess ε).processAt setup schedule k).main = .returned 0 := by
  have hstopping (j : ℕ) (hnj : n ≤ j) :
      (({} : OpcuaProcess ε).processAt setup schedule j).main.Stopping :=
    stopping_from hnj (by rw [hjoining]; trivial)
  have hfinished (j : ℕ) (hmj : m ≤ j) :
      (({} : OpcuaProcess ε).processAt setup schedule j).publisher.rank = 0 := by
    have hrank := rank_le_sub_occurrences (fun i => (schedule i).isMain = false)
      (fun i => (({} : OpcuaProcess ε).processAt setup schedule i).publisher.rank) (hnm.trans hmj)
      fun i hni _ => publisherRank_step (hstopping i hni)
    have hmore := occurrences_mono (fun i => (schedule i).isMain = false) n hmj
    have hbound := (processAt_inOrder setup schedule n).rank
    omega
  have hrank := rank_le_sub_occurrences (fun i => (schedule i).isMain = true)
    (fun i => (({} : OpcuaProcess ε).processAt setup schedule i).main.rank) hmk
    fun i hmi _ => mainRank_step (hstopping i (hnm.trans hmi)) (hfinished i hmi)
  have hfirst : (({} : OpcuaProcess ε).processAt setup schedule m).main.rank ≤ 3 := by
    cases (({} : OpcuaProcess ε).processAt setup schedule m).main <;> simp [ServerMainPc.rank]
  have hlast : (({} : OpcuaProcess ε).processAt setup schedule k).main.rank = 0 := by omega
  have hstop := hstopping k (hnm.trans hmk)
  cases hend : (({} : OpcuaProcess ε).processAt setup schedule k).main with
  | returned code =>
    rw [hend] at hstop
    cases code with
    | zero => rfl
    | succ code => exact hstop.elim
  | joining | deleting | leaving =>
    rw [hend] at hlast
    simp [ServerMainPc.rank] at hlast
  | _ =>
    rw [hend] at hstop
    exact hstop.elim

/-- A program without any variable set, with a stack that grants it everything. -/
def unconfigured : OpcuaSetup Unit where
  environment _ := none
  encryptionAvailable := true
  library := plainAndEncrypted
  files := oneCertificate
  config := emptyConfig
  namespaceIndex := 2

/-- The server is interrupted while the publisher writes its variables. -/
def interruptedWriting (j : ℕ) : OpcuaTurn :=
  if 7 ≤ j ∧ j < 11 ∨ 13 ≤ j ∧ j < 41 then .publisher (some {}) ⟨true, fun _ => true, true⟩
  else .main true none

theorem opcua_server_stops_interrupted :
    (∃ next left poll, (({} : OpcuaProcess Unit).processAt unconfigured interruptedWriting
        13).publisher = .writing (next :: left) poll) ∧
      (({} : OpcuaProcess Unit).processAt unconfigured interruptedWriting 44).main = .returned 0 :=
  ⟨⟨_, _, _, rfl⟩, opcua_server_stops unconfigured interruptedWriting 13 41 44 (by decide +kernel)
    (by decide) (by decide) (by decide) (by decide)⟩

end OpcuaProcess
end SafeEdge.Apps
