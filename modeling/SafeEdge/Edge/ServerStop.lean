import SafeEdge.Edge.ServerLifecycle

/-! How `stop` comes to its end. The accept loop may be anywhere in a connection when it is called,
and has at most the rest of one request to read and one response to write. -/
namespace SafeEdge.Edge
open Library

/-- Reads that have brought this much of a request and have not ended it. -/
structure Received (reads : List (List UInt8)) (request : List UInt8) : Prop where
  incomplete : requestComplete request = false
  resumes (more : List (List UInt8)) :
    readUntil requestComplete [] (reads ++ more) = readUntil requestComplete request more

namespace Received
variable {reads : List (List UInt8)} {request bytes : List UInt8}

theorem empty : Received [] [] where
  incomplete := by decide
  resumes _ := rfl

theorem length_lt (h : Received reads request) : request.length < kMaxRequestBytes := by
  have hopen := h.incomplete
  simp only [requestComplete, decide_eq_false_iff_not, not_or] at hopen
  exact not_le.mp hopen.2

theorem resumes_read (h : Received reads request) (hbytes : bytes ≠ [])
    (more : List (List UInt8)) : readUntil requestComplete [] (reads ++ [bytes] ++ more) =
      readUntil requestComplete (request ++ bytes) more := by
  rw [List.append_assoc, h.resumes, List.singleton_append, readUntil, h.incomplete,
    if_neg Bool.false_ne_true, if_neg hbytes]

theorem append (h : Received reads request) (hbytes : bytes ≠ [])
    (hopen : requestComplete (request ++ bytes) = false) :
    Received (reads ++ [bytes]) (request ++ bytes) where
  incomplete := hopen
  resumes := h.resumes_read hbytes

/-- The read that completes the request. -/
theorem serveConnection_eq (h : Received reads request) (hbytes : bytes ≠ [])
    (hcomplete : requestComplete (request ++ bytes) = true) (server : HttpServer) :
    (server.serveConnection (reads ++ [bytes])).2 =
      some (answer server.routes (request ++ bytes)) := by
  have hread := h.resumes_read hbytes []
  rw [List.append_nil, readUntil_of_complete hcomplete] at hread
  rw [HttpServer.serveConnection, hread]

end Received

/-- What a connection has come to: the reads so far, or a response that `serveConnection` gives,
not all of it written and no write failed. -/
def InService (server : HttpServer) : AcceptPc → Prop
  | .waiting _ request | .reading _ request => ∃ reads, Received reads request
  | .writing _ response rooms =>
    (∃ reads answer, (server.serveConnection reads).2 = some answer ∧
      answer.response = response) ∧
    (response.transmit rooms).complete = false ∧ ∀ room ∈ rooms, ∃ space, room = some (space + 1)
  | .checking | .polling | .accepting | .closing _ | .ended => True

theorem transmit_nil (response : HttpResponse) : (response.transmit []).complete = false := by
  have hhead : response.head ≠ [] := by simp [HttpResponse.head, ascii]
  simp [HttpResponse.transmit, writeAll, hhead]

/-- A write after which the response is not at its end has written something. -/
theorem written_of_not_lastWrite {response : HttpResponse} {rooms : List (Option ℕ)}
    {room : Option ℕ} (h : response.lastWrite rooms room = false) :
    (∃ space, room = some (space + 1)) ∧
      (response.transmit (rooms ++ [room])).complete = false := by
  simp only [HttpResponse.lastWrite, decide_eq_false_iff_not, not_or, Bool.not_eq_true] at h
  refine ⟨?_, h.2⟩
  match room, h.1 with
  | none, hroom | some 0, hroom => exact absurd rfl hroom
  | some (space + 1), _ => exact ⟨space, rfl⟩

theorem inService_afterRead (server : HttpServer) {request : List UInt8}
    (h : ∃ reads, Received reads request) (connection : ℕ) (bytes : List UInt8) :
    InService server (afterRead server.routes connection request bytes) := by
  obtain ⟨reads, hreads⟩ := h
  unfold afterRead
  split_ifs with hbytes hcomplete
  · trivial
  · exact ⟨⟨_, _, hreads.serveConnection_eq hbytes hcomplete server, rfl⟩, transmit_nil _, nofun⟩
  · exact ⟨_, hreads.append hbytes (by simpa using hcomplete)⟩

namespace ServerProcess
variable {p : ServerProcess} {server : HttpServer}

/-- The process of a server serves its connections as `serveConnection` does. -/
structure Serving (server : HttpServer) (p : ServerProcess) : Prop where
  routes : p.server.routes = server.routes
  thread : ∀ pc, p.thread = some pc → InService server pc

theorem Serving.moved (h : p.Serving server) {next : ServerProcess}
    (hroutes : next.server.routes = p.server.routes) {pc : AcceptPc}
    (hthread : next.thread = some pc) (hpc : InService server pc) : next.Serving server where
  routes := hroutes.trans h.routes
  thread _ hother := Option.some.inj (hthread.symm.trans hother) ▸ hpc

/-- The owner only creates the thread and collects it. -/
theorem ownerStep_frame (p : ServerProcess) (call : OwnerCall) (fd : Option ℕ) (succeeds : Bool)
    (bound : UInt16) (message : String) :
    (p.ownerStep call fd succeeds bound message).1.server = p.server ∧
    ((p.ownerStep call fd succeeds bound message).1.thread = p.thread ∨
      (p.ownerStep call fd succeeds bound message).1.thread = none ∨
      (p.ownerStep call fd succeeds bound message).1.thread = some .checking) := by
  unfold ownerStep giveUp
  split <;> (repeat' split) <;> simp

theorem Serving.ownerStep (h : p.Serving server) (call : OwnerCall) (fd : Option ℕ)
    (succeeds : Bool) (bound : UInt16) (message : String) :
    (p.ownerStep call fd succeeds bound message).1.Serving server := by
  obtain ⟨hserver, hthread⟩ := p.ownerStep_frame call fd succeeds bound message
  refine ⟨by rw [hserver, h.routes], fun pc hpc => ?_⟩
  rcases hthread with hthread | hthread | hthread
  · exact h.thread pc (hthread ▸ hpc)
  · cases hthread.symm.trans hpc
  · cases hthread.symm.trans hpc
    trivial

theorem Serving.acceptStep (h : p.Serving server) (fd : Option ℕ) (ready : Bool)
    (bytes : List UInt8) (room : Option ℕ) : (p.acceptStep fd ready bytes room).Serving server := by
  unfold ServerProcess.acceptStep
  split
  next => exact h
  next => exact h
  next =>
    refine h.moved rfl rfl ?_
    split_ifs <;> trivial
  next =>
    refine h.moved rfl rfl ?_
    split_ifs <;> trivial
  next =>
    split
    · exact h.moved rfl rfl trivial
    · exact h.moved rfl rfl ⟨[], .empty⟩
  next connection request hthread =>
    refine h.moved rfl rfl ?_
    split_ifs
    · exact h.thread (.waiting connection request) hthread
    · trivial
  next connection request hthread =>
    refine h.moved rfl rfl ?_
    rw [h.routes]
    exact inService_afterRead server (h.thread _ hthread) connection _
  next connection response rooms hthread =>
    obtain ⟨hanswer, _, hrooms⟩ := h.thread _ hthread
    split_ifs with hlast
    · exact h.moved rfl rfl trivial
    · obtain ⟨hroom, hopen⟩ := written_of_not_lastWrite (by simpa using hlast)
      refine h.moved rfl rfl ⟨hanswer, hopen, fun other hother => ?_⟩
      rcases List.mem_append.mp hother with hother | hother
      · exact hrooms other hother
      · exact List.mem_singleton.mp hother ▸ hroom
  next => exact h.moved rfl rfl trivial

theorem Serving.step (h : p.Serving server) (turn : ServerTurn) :
    (p.step turn).1.Serving server := by
  cases turn with
  | owner call fd succeeds bound message => exact h.ownerStep call fd succeeds bound message
  | accept fd ready bytes room => exact h.acceptStep fd ready bytes room

theorem constructed_serving (server : HttpServer) : (constructed server).Serving server where
  routes := rfl
  thread _ hthread := nomatch (hthread : none = some _)

theorem processAt_serving (server : HttpServer) (schedule : ℕ → ServerTurn) (n : ℕ) :
    ((constructed server).processAt schedule n).Serving server :=
  stateAt_invariant (fun _ (p : ServerProcess) => p.Serving server)
    (constructed_serving server) (fun k h => h.step (schedule k)) n

end ServerProcess

/-- The turns the accept loop needs to end once the server is no longer running, if no response is
longer than the limit: two for each byte of a request, one for each of a response. -/
def AcceptPc.rank (limit : ℕ) : AcceptPc → ℕ
  | .polling => 2 * kMaxRequestBytes + limit + 5
  | .accepting => 2 * kMaxRequestBytes + limit + 4
  | .waiting _ request => 2 * (kMaxRequestBytes - request.length) + limit + 3
  | .reading _ request => 2 * (kMaxRequestBytes - request.length) + limit + 2
  | .writing _ _ rooms => limit - rooms.length + 2
  | .closing _ => 2
  | .checking => 1
  | .ended => 0

/-- The turns the owner needs to return from `stop` once the accept loop has ended. -/
def OwnerPc.rank : OwnerPc → ℕ
  | .joining => 2
  | .closing => 1
  | _ => 0

def ServerTurn.isOwner : ServerTurn → Bool
  | .owner _ _ _ _ _ => true
  | .accept _ _ _ _ => false

theorem rank_le (limit : ℕ) (pc : AcceptPc) :
    pc.rank limit ≤ 2 * kMaxRequestBytes + limit + 5 := by
  cases pc <;> simp only [AcceptPc.rank] <;> omega

/-- A read brings the connection nearer its end, whatever it returns. -/
theorem rank_afterRead (limit : ℕ) (routes : List UInt8 → Option HttpResponse) (connection : ℕ)
    {request : List UInt8} (hlength : request.length < kMaxRequestBytes) (bytes : List UInt8) :
    (afterRead routes connection request bytes).rank limit <
      (AcceptPc.reading connection request).rank limit := by
  unfold afterRead
  split_ifs with hbytes hcomplete
  · simp only [AcceptPc.rank]
    omega
  · simp only [AcceptPc.rank, List.length_nil]
    omega
  · have hpos := List.length_pos_iff.mpr hbytes
    simp only [AcceptPc.rank, List.length_append]
    omega

/-- As long as a response is being written there is something left of it for each write. -/
theorem InService.rooms_lt {server : HttpServer} {limit connection : ℕ} {response : HttpResponse}
    {rooms : List (Option ℕ)} (h : InService server (.writing connection response rooms))
    (hlimit : ∀ request, (answer server.routes request).response.text.length ≤ limit) :
    rooms.length < limit := by
  obtain ⟨⟨reads, answer, hanswer, rfl⟩, hopen, hrooms⟩ := h
  have hlength : answer.response.text.length ≤ limit := by
    unfold HttpServer.serveConnection at hanswer
    split at hanswer
    · cases hanswer
    · exact Option.some.inj hanswer ▸ hlimit _
  by_contra hlong
  rw [HttpResponse.transmit_complete hrooms (by omega)] at hopen
  cases hopen

namespace ServerProcess

def threadRank (limit : ℕ) (p : ServerProcess) : ℕ := p.thread.elim 0 (AcceptPc.rank limit)

/-- The owner is inside `stop`. -/
def Stopping (p : ServerProcess) : Prop := p.owner = .joining ∨ p.owner = .closing

theorem threadRank_le (limit : ℕ) (p : ServerProcess) :
    p.threadRank limit ≤ 2 * kMaxRequestBytes + limit + 5 := by
  unfold threadRank
  cases p.thread with
  | none => exact Nat.zero_le _
  | some pc => exact rank_le limit pc

variable {p : ServerProcess} {server : HttpServer} {limit : ℕ}

theorem Stopping.running (h : p.Stopping) (horderly : p.Orderly) : p.running = false := by
  have hphase := horderly.phase
  rcases h with howner | howner <;> rw [howner] at hphase <;> exact hphase.1

/-- Once the server is no longer running every turn of the accept loop brings it nearer its end. -/
theorem threadRank_acceptStep (hserving : p.Serving server)
    (hlimit : ∀ request, (answer server.routes request).response.text.length ≤ limit)
    (hrunning : p.running = false) (fd : Option ℕ) (ready : Bool) (bytes : List UInt8)
    (room : Option ℕ) :
    (p.acceptStep fd ready bytes room).threadRank limit ≤ p.threadRank limit - 1 := by
  unfold acceptStep threadRank
  split
  next hnone => simp [hnone]
  next hended => simp [hended, AcceptPc.rank]
  next hchecking => simp [hchecking, hrunning, AcceptPc.rank]
  next hpolling => cases ready <;> simp [hpolling, AcceptPc.rank]
  next haccepting =>
    rw [haccepting]
    split <;> simp [AcceptPc.rank]
  next connection request hwaiting => cases ready <;> simp [hwaiting, AcceptPc.rank]
  next connection request hreading =>
    obtain ⟨reads, hreads⟩ := hserving.thread _ hreading
    rw [hreading]
    exact Nat.le_sub_one_of_lt
      (rank_afterRead limit p.server.routes connection hreads.length_lt (bytes.take 1024))
  next connection response rooms hwriting =>
    have hrooms := InService.rooms_lt (hserving.thread _ hwriting) hlimit
    rw [hwriting]
    split_ifs
    · simp only [Option.elim_some, AcceptPc.rank]
      omega
    · simp only [Option.elim_some, AcceptPc.rank, List.length_append, List.length_singleton]
      omega
  next connection hclosing => simp [hclosing, AcceptPc.rank]

/-- The accept loop moves only in its own turns, but that `stop` collects it when it has ended. -/
theorem threadRank_ownerStep (h : p.Stopping) (call : OwnerCall) (fd : Option ℕ) (succeeds : Bool)
    (bound : UInt16) (message : String) :
    (p.ownerStep call fd succeeds bound message).1.threadRank limit ≤ p.threadRank limit := by
  rcases h with howner | howner
  · simp only [ownerStep, howner, threadRank]
    split
    next hnone => simp [hnone]
    next hended => simp [hended]
    next => exact le_rfl
  · simp only [ownerStep, howner, threadRank]
    split <;> exact le_rfl

theorem acceptStep_owner (p : ServerProcess) (fd : Option ℕ) (ready : Bool) (bytes : List UInt8)
    (room : Option ℕ) : (p.acceptStep fd ready bytes room).owner = p.owner := by
  unfold acceptStep
  split <;> try rfl
  all_goals split <;> rfl

/-- Until `stop` returns its owner stays inside it. -/
theorem Stopping.step (h : p.Stopping) {turn : ServerTurn} (hopen : (p.step turn).2 ≠ .stopped) :
    (p.step turn).1.Stopping := by
  cases turn with
  | accept fd ready bytes room =>
    simpa only [Stopping, ServerProcess.step, acceptStep_owner] using h
  | owner call fd succeeds bound message =>
    rcases h with howner | howner
    · simp only [ServerProcess.step, ownerStep, howner, Stopping]
      split <;> simp [howner]
    · exfalso
      apply hopen
      simp only [ServerProcess.step, ownerStep, howner]
      split <;> rfl

/-- With the accept loop at its end every turn of the owner brings `stop` nearer its return. -/
theorem ownerRank_step (h : p.Stopping) (hrank : p.threadRank limit = 0) {turn : ServerTurn}
    (hopen : (p.step turn).2 ≠ .stopped) :
    (p.step turn).1.owner.rank ≤ p.owner.rank - if turn.isOwner then 1 else 0 := by
  cases turn with
  | accept fd ready bytes room =>
    simp [ServerProcess.step, ServerTurn.isOwner, acceptStep_owner]
  | owner call fd succeeds bound message =>
    rcases h with howner | howner
    · simp only [ServerProcess.step, ownerStep, howner]
      split
      next => simp [OwnerPc.rank, ServerTurn.isOwner]
      next => simp [OwnerPc.rank, ServerTurn.isOwner]
      next pc hpc hsome =>
        rw [threadRank, hsome] at hrank
        cases pc <;> simp [AcceptPc.rank] at hrank hpc
    · exfalso
      apply hopen
      simp only [ServerProcess.step, ownerStep, howner]
      split <;> rfl

section Run
variable {schedule : ℕ → ServerTurn}

theorem stopping_until {n k : ℕ} (hnk : n ≤ k)
    (hstop : ((constructed server).processAt schedule n).Stopping)
    (hopen : ∀ j, n ≤ j → j < k → (constructed server).eventAt schedule j ≠ .stopped) :
    ((constructed server).processAt schedule k).Stopping := by
  induction k, hnk using Nat.le_induction with
  | base => exact hstop
  | succ k hnk ih =>
    exact (ih fun j hj hjk => hopen j hj (by omega)).step (hopen k hnk k.lt_succ_self)

theorem threadRank_step
    (hlimit : ∀ request, (answer server.routes request).response.text.length ≤ limit) {j : ℕ}
    (hstop : ((constructed server).processAt schedule j).Stopping) :
    ((constructed server).processAt schedule (j + 1)).threadRank limit ≤
      ((constructed server).processAt schedule j).threadRank limit -
        if (schedule j).isOwner = false then 1 else 0 := by
  change (((constructed server).processAt schedule j).step (schedule j)).1.threadRank limit ≤ _
  cases schedule j with
  | accept fd ready bytes room =>
    exact threadRank_acceptStep (processAt_serving server schedule j) hlimit
      (hstop.running (processAt_orderly server schedule j)) fd ready bytes room
  | owner call fd succeeds bound message =>
    exact threadRank_ownerStep hstop call fd succeeds bound message

end Run

/-- `stop` does not hang: wherever the accept loop stands in a connection, two turns for each byte
a request may have, one for each byte of the longest response and five more end it, and then two
turns of the owner are enough for `stop` to return, with every descriptor closed. -/
theorem stop_returns (server : HttpServer) (limit : ℕ)
    (hlimit : ∀ request, (answer server.routes request).response.text.length ≤ limit)
    (schedule : ℕ → ServerTurn) (n m k : ℕ)
    (hstop : ((constructed server).processAt schedule n).owner = .joining) (hnm : n ≤ m)
    (hmk : m ≤ k) (haccept : 2 * kMaxRequestBytes + limit + 5 ≤
      occurrences (fun j => (schedule j).isOwner = false) n m)
    (howner : 2 ≤ occurrences (fun j => (schedule j).isOwner = true) m k) :
    ∃ j, n ≤ j ∧ j < k ∧ (constructed server).eventAt schedule j = .stopped ∧
      ((constructed server).processAt schedule (j + 1)).table.live = ∅ ∧
      ((constructed server).processAt schedule (j + 1)).thread = none := by
  by_cases hreturned : ∃ j, n ≤ j ∧ j < k ∧ (constructed server).eventAt schedule j = .stopped
  · obtain ⟨j, hnj, hjk, hevent⟩ := hreturned
    have htruth := (processAt_orderly server schedule j).truthful (schedule j)
    rw [eventAt] at hevent
    rw [hevent] at htruth
    exact ⟨j, hnj, hjk, hevent, htruth.2⟩
  · push Not at hreturned
    have hstopping (j : ℕ) (hnj : n ≤ j) (hjk : j ≤ k) :
        ((constructed server).processAt schedule j).Stopping :=
      stopping_until hnj (Or.inl hstop) fun i hni hij => hreturned i hni (by omega)
    have hended (j : ℕ) (hmj : m ≤ j) (hjk : j ≤ k) :
        ((constructed server).processAt schedule j).threadRank limit = 0 := by
      have hrank := rank_le_sub_occurrences (fun i => (schedule i).isOwner = false)
        (fun i => ((constructed server).processAt schedule i).threadRank limit) (hnm.trans hmj)
        fun i hni hij => threadRank_step hlimit (hstopping i hni (by omega))
      have hmore := occurrences_mono (fun i => (schedule i).isOwner = false) n hmj
      have hmost := threadRank_le limit ((constructed server).processAt schedule n)
      omega
    have hrank := rank_le_sub_occurrences (fun i => (schedule i).isOwner = true)
      (fun i => ((constructed server).processAt schedule i).owner.rank) hmk
      fun i hmi hik => ownerRank_step (hstopping i (hnm.trans hmi) hik.le) (hended i hmi hik.le)
        (hreturned i (hnm.trans hmi) hik)
    have htwo : ((constructed server).processAt schedule m).owner.rank ≤ 2 := by
      rcases hstopping m hnm hmk with hm | hm <;> simp [hm, OwnerPc.rank]
    have hone : 1 ≤ ((constructed server).processAt schedule k).owner.rank := by
      rcases hstopping k (hnm.trans hmk) le_rfl with hk | hk <;> simp [hk, OwnerPc.rank]
    omega

theorem okServer_text_length (request : List UInt8) :
    (answer okServer.routes request).response.text.length ≤ 200 := by
  refine @answer_response _ (fun response => response.text.length ≤ 200) (by decide +kernel)
    (by decide +kernel) (by decide +kernel) (fun path response hroute => ?_) request
  rw [okServer_response hroute]
  decide +kernel

/-- The server is started, accepts a connection and is stopped while it waits for the request. -/
def stoppedWhileServing (k : ℕ) : ServerTurn :=
  if k ≤ 5 then .owner (.start 9100) (some 3) true 9100 ""
  else if k = 9 then .owner .stop none true 0 ""
  else if k < 16599 then .accept (some 4) true (ascii "GET /healthz HTTP/1.1\r\n\r\n") (some 1)
  else .owner .stop none true 0 ""

theorem stop_returns_serving :
    ∃ j, 10 ≤ j ∧ j < 16601 ∧ (constructed okServer).eventAt stoppedWhileServing j = .stopped ∧
      ((constructed okServer).processAt stoppedWhileServing (j + 1)).table.live = ∅ ∧
      ((constructed okServer).processAt stoppedWhileServing (j + 1)).thread = none := by
  have haccept : occurrences (fun j => (stoppedWhileServing j).isOwner = false) 10 16599 = 16589 :=
    occurrences_eq_sub fun j hj hjm => by
      simp [stoppedWhileServing, ServerTurn.isOwner, hjm, show ¬ j ≤ 5 by omega,
        show j ≠ 9 by omega]
  exact stop_returns okServer 200 okServer_text_length stoppedWhileServing 10 16599 16601
    (by decide +kernel) (by decide) (by decide) (by rw [haccept]; decide) (by decide)

end ServerProcess
end SafeEdge.Edge
