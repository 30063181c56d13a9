import SafeEdge.Apps.OpcuaShutdown

/-! What clients of the OPC UA server program read while it writes: the variables of at most two
polls. -/
namespace SafeEdge.Opcua
open Edge

/-- What a variable holds after a poll that wrote it. -/
def variableAfter (poll : Option RuntimeSnapshot) (i : ℕ) : Option DataValue :=
  (variablesOf (poll.getD {}))[i]?.map fun written =>
    { value := written.2, status := if poll.isSome then .good else .badNoData }

/-- The writes of an iteration, or of a part of it. -/
def writeVariables (server : Server) (writes : List (NodeNumber × Variant)) (fresh : Bool) :
    Server :=
  writes.foldl (fun server (number, value) => writeValue server number value fresh) server

theorem writeVariables_append (server : Server) (writes : List (NodeNumber × Variant))
    (number : NodeNumber) (value : Variant) (fresh : Bool) :
    writeVariables server (writes ++ [(number, value)]) fresh =
      writeValue (writeVariables server writes fresh) number value fresh := by
  rw [writeVariables, List.foldl_append]
  rfl

/-- The values after complete iterations. -/
def published (polls : List (Option RuntimeSnapshot)) : Server :=
  polls.foldl (fun server poll => publishSnapshot server (poll.getD {}) poll.isSome) fun _ => none

theorem published_append (polls : List (Option RuntimeSnapshot)) (poll : Option RuntimeSnapshot) :
    published (polls ++ [poll]) =
      writeVariables (published polls) (variablesOf (poll.getD {})) poll.isSome := by
  rw [published, List.foldl_append]
  rfl

theorem variablesOf_getElem (snapshot : RuntimeSnapshot) {i : ℕ} (hi : i < specs.length) :
    ∃ value, (variablesOf snapshot)[i]? = some ((specs.get ⟨i, hi⟩).number, value) := by
  have hlength : (variablesOf snapshot).length = specs.length := rfl
  have hnumber : ((variablesOf snapshot).map Prod.fst)[i]? =
      (specs.map VariableSpec.number)[i]? := by rw [variablesOf_numbers]
  rw [List.getElem?_map, List.getElem?_map, List.getElem?_eq_getElem (hlength ▸ hi),
    List.getElem?_eq_getElem hi, Option.map_some, Option.map_some, Option.some.injEq] at hnumber
  refine ⟨(variablesOf snapshot)[i].2, ?_⟩
  rw [List.getElem?_eq_getElem (hlength ▸ hi), Option.some.injEq]
  exact Prod.ext hnumber rfl

/-- While an iteration writes, the variables it has come to hold its values and the others those
from before. -/
theorem writeVariables_take (server : Server) (poll : Option RuntimeSnapshot) (k : ℕ) {i : ℕ}
    (hi : i < specs.length) :
    writeVariables server ((variablesOf (poll.getD {})).take k) poll.isSome
        (nodeIdOf (specs.get ⟨i, hi⟩).number) =
      if i < k then variableAfter poll i else server (nodeIdOf (specs.get ⟨i, hi⟩).number) := by
  obtain ⟨value, hvalue⟩ := variablesOf_getElem (poll.getD {}) hi
  have hdistinct : ((variablesOf (poll.getD {})).map Prod.fst).Nodup := by
    rw [variablesOf_numbers]
    decide
  split_ifs with hik
  · rw [variableAfter, hvalue]
    refine writeValues_of_mem server poll.isSome ?_ ?_
    · rw [List.map_take]
      exact hdistinct.take
    · exact List.mem_of_getElem? ((List.getElem?_take_of_lt hik).trans hvalue)
  · refine writeValues_of_notMem server poll.isSome fun hmem => ?_
    rw [List.map_take] at hmem
    have hlater : (specs.get ⟨i, hi⟩).number ∈
        ((variablesOf (poll.getD {})).map Prod.fst).drop k := by
      refine List.mem_of_getElem? (i := i - k) ?_
      rw [List.getElem?_drop, Nat.add_sub_cancel' (not_lt.mp hik), List.getElem?_map, hvalue,
        Option.map_some]
    exact List.disjoint_take_drop hdistinct le_rfl hmem hlater

/-- After complete iterations every variable holds what the last one wrote. -/
theorem published_apply (polls : List (Option RuntimeSnapshot)) {i : ℕ} (hi : i < specs.length) :
    published polls (nodeIdOf (specs.get ⟨i, hi⟩).number) =
      polls.getLast?.bind fun poll => variableAfter poll i := by
  rcases List.eq_nil_or_concat polls with rfl | ⟨before, poll, rfl⟩
  · rfl
  · have hwhole : (variablesOf (poll.getD {})).take specs.length = variablesOf (poll.getD {}) :=
      List.take_of_length_le le_rfl
    rw [List.concat_eq_append, published_append, List.getLast?_concat, ← hwhole,
      writeVariables_take _ _ _ hi, if_pos hi]
    rfl

end SafeEdge.Opcua

namespace SafeEdge.Apps
open Library Edge Opcua

namespace OpcuaProcess
variable {ε : Type*} {setup : OpcuaSetup ε} {p : OpcuaProcess ε}

/-- The values are those of complete iterations, or of a part of the last one on top of them. -/
def Shows (p : OpcuaProcess ε) : PublisherPc → Prop
  | .writing left poll => ∃ before done, p.polls = before ++ [poll] ∧
      done ++ left = variablesOf (poll.getD {}) ∧
      p.nodes = writeVariables (published before) done poll.isSome
  | _ => p.nodes = published p.polls

theorem Shows.congr {next : OpcuaProcess ε} {publisher : PublisherPc} (h : p.Shows publisher)
    (hnodes : next.nodes = p.nodes) (hpolls : next.polls = p.polls) : next.Shows publisher := by
  cases publisher with
  | writing left poll =>
    obtain ⟨before, done, hbefore, hdone, hwritten⟩ := h
    exact ⟨before, done, hpolls.trans hbefore, hdone, hnodes.trans hwritten⟩
  | _ =>
    change next.nodes = published next.polls
    rw [hnodes, hpolls]
    exact h

theorem shows_publisherStep (h : p.Shows p.publisher) (snapshot : Option RuntimeSnapshot)
    (calls : FireCalls) :
    (p.publisherStep setup snapshot calls).Shows
      (p.publisherStep setup snapshot calls).publisher := by
  unfold OpcuaProcess.publisherStep
  split
  next => exact h
  next => exact h
  next => exact h
  next hchecking =>
    rw [hchecking] at h
    dsimp only
    split_ifs <;> exact h
  next hloading =>
    rw [hloading] at h
    exact ⟨p.polls, [], rfl, rfl, h⟩
  next number value left poll hwriting =>
    rw [hwriting] at h
    obtain ⟨before, done, hpolls, hdone, hnodes⟩ := h
    refine ⟨before, done ++ [(number, value)], hpolls, ?_, ?_⟩
    · rw [← hdone, List.append_assoc, List.singleton_append]
    · rw [writeVariables_append, ← hnodes]
  next poll hwriting =>
    rw [hwriting] at h
    obtain ⟨before, done, hpolls, hdone, hnodes⟩ := h
    have hcomplete : p.nodes = published p.polls := by
      rw [hnodes, hpolls, published_append, ← hdone, List.append_nil]
    dsimp only
    split <;> exact hcomplete
  next left event calls hfiring =>
    rw [hfiring] at h
    exact h
  next event calls hfiring =>
    rw [hfiring] at h
    split_ifs <;> exact h
  next hsleeping =>
    rw [hsleeping] at h
    exact h

/-- The main thread writes no variable. -/
theorem mainStep_nodes [Inhabited ε] (succeeds : Bool) (fault : Option String) :
    (p.mainStep setup succeeds fault).nodes = p.nodes ∧
      (p.mainStep setup succeeds fault).polls = p.polls := by
  unfold OpcuaProcess.mainStep
  split
  next => split_ifs <;> exact ⟨rfl, rfl⟩
  next => split_ifs <;> exact ⟨rfl, rfl⟩
  next =>
    unfold OpcuaProcess.configure
    dsimp only
    split_ifs <;> exact ⟨rfl, rfl⟩
  next => split_ifs <;> exact ⟨rfl, rfl⟩
  next => split_ifs <;> exact ⟨rfl, rfl⟩
  next => exact ⟨rfl, rfl⟩
  next => exact ⟨rfl, rfl⟩
  next =>
    split
    · exact ⟨rfl, rfl⟩
    · split_ifs <;> exact ⟨rfl, rfl⟩
  next => exact ⟨rfl, rfl⟩
  next => split <;> exact ⟨rfl, rfl⟩
  next =>
    dsimp only
    split_ifs <;> exact ⟨rfl, rfl⟩
  next => exact ⟨rfl, rfl⟩
  next => exact ⟨rfl, rfl⟩

/-- It changes the publisher only when it starts it and when it has finished. -/
theorem mainStep_publisher [Inhabited ε] (h : p.InOrder) (succeeds : Bool)
    (fault : Option String) :
    (p.mainStep setup succeeds fault).publisher = p.publisher ∨
      (p.publisher = .absent ∧ (p.mainStep setup succeeds fault).publisher = .checking) ∨
      (p.publisher = .finished ∧ (p.mainStep setup succeeds fault).publisher = .joined) := by
  have hphase := h.phase
  unfold OpcuaProcess.mainStep
  cases hmain : p.main with
  | starting =>
    rw [hmain] at hphase
    exact .inr (.inl ⟨hphase.2.2, rfl⟩)
  | joining =>
    dsimp only
    split
    next hfinished => exact .inr (.inr ⟨hfinished, rfl⟩)
    next => exact .inl rfl
  | configuring =>
    left
    dsimp only
    unfold OpcuaProcess.configure
    dsimp only
    split_ifs <;> rfl
  | serving =>
    left
    dsimp only
    split
    · rfl
    · split_ifs <;> rfl
  | _ =>
    left
    dsimp only
    try split_ifs
    all_goals rfl

theorem shows_mainStep [Inhabited ε] (horder : p.InOrder) (h : p.Shows p.publisher)
    (succeeds : Bool) (fault : Option String) :
    (p.mainStep setup succeeds fault).Shows (p.mainStep setup succeeds fault).publisher := by
  obtain ⟨hnodes, hpolls⟩ := @mainStep_nodes _ setup p _ succeeds fault
  refine Shows.congr (p := p) ?_ hnodes hpolls
  rcases @mainStep_publisher _ setup p _ horder succeeds fault with
    hsame | ⟨habsent, hnext⟩ | ⟨hfinished, hnext⟩
  · rwa [hsame]
  · rw [hnext]
    rw [habsent] at h
    exact h
  · rw [hnext]
    rw [hfinished] at h
    exact h

theorem processAt_shows [Inhabited ε] (setup : OpcuaSetup ε) (schedule : ℕ → OpcuaTurn) (n : ℕ) :
    (({} : OpcuaProcess ε).processAt setup schedule n).Shows
      (({} : OpcuaProcess ε).processAt setup schedule n).publisher := by
  have hinitial : ({} : OpcuaProcess ε).Shows .absent := rfl
  refine stateAt_invariant (fun _ (p : OpcuaProcess ε) => p.Shows p.publisher) hinitial
    (fun n ih => ?_) n
  have horder := processAt_inOrder setup schedule n
  cases schedule n with
  | main succeeds fault => exact shows_mainStep horder ih succeeds fault
  | publisher snapshot calls => exact shows_publisherStep ih snapshot calls

/-- At any moment of any interleaving the variables before some place in their order hold what the
latest poll wrote to them and the others what the poll before it wrote: a client that reads several
of them mixes at most two polls. Unless the publisher is writing they are all of the latest one. -/
theorem variables_of_two_polls [Inhabited ε] (setup : OpcuaSetup ε) (schedule : ℕ → OpcuaTurn)
    (n : ℕ) :
    (∃ k ≤ specs.length, ∀ i, ∀ hi : i < specs.length,
      (({} : OpcuaProcess ε).processAt setup schedule n).nodes
          (nodeIdOf (specs.get ⟨i, hi⟩).number) =
        (if i < k then (({} : OpcuaProcess ε).processAt setup schedule n).polls.getLast?
          else (({} : OpcuaProcess ε).processAt setup schedule n).polls.dropLast.getLast?).bind
          fun poll => variableAfter poll i) ∧
    ((∀ left poll, (({} : OpcuaProcess ε).processAt setup schedule n).publisher ≠
        .writing left poll) →
      ∀ i, ∀ hi : i < specs.length,
        (({} : OpcuaProcess ε).processAt setup schedule n).nodes
            (nodeIdOf (specs.get ⟨i, hi⟩).number) =
          (({} : OpcuaProcess ε).processAt setup schedule n).polls.getLast?.bind
            fun poll => variableAfter poll i) := by
  have hshows := processAt_shows setup schedule n
  generalize ({} : OpcuaProcess ε).processAt setup schedule n = p at hshows
  have hidle (h : p.nodes = published p.polls) (i : ℕ) (hi : i < specs.length) :
      p.nodes (nodeIdOf (specs.get ⟨i, hi⟩).number) =
        p.polls.getLast?.bind fun poll => variableAfter poll i := by
    rw [h, published_apply _ hi]
  cases hpublisher : p.publisher with
  | writing left poll =>
    rw [hpublisher] at hshows
    obtain ⟨before, done, hpolls, hdone, hnodes⟩ := hshows
    refine ⟨⟨done.length, ?_, fun i hi => ?_⟩, fun h => absurd rfl (h left poll)⟩
    · have hlength := congrArg List.length hdone
      rw [List.length_append] at hlength
      exact (Nat.le_add_right _ _).trans hlength.le
    · have htake : done = (variablesOf (poll.getD {})).take done.length := by
        rw [← hdone, List.take_left]
      rw [hnodes, htake, writeVariables_take _ _ _ hi, ← htake, hpolls, List.getLast?_concat,
        List.dropLast_concat, published_apply _ hi]
      split_ifs <;> rfl
  | _ =>
    rw [hpublisher] at hshows
    refine ⟨⟨specs.length, le_rfl, fun i hi => ?_⟩, fun _ => hidle hshows⟩
    rw [if_pos hi]
    exact hidle hshows i hi

end OpcuaProcess
end SafeEdge.Apps
