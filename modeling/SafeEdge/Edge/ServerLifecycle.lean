import SafeEdge.Edge.HttpTransmission
import SafeEdge.Library.DescriptorTable
import SafeEdge.Library.Run

/-! The HTTP server between `start` and `stop`: the thread that owns it and the thread of its
accept loop, taking their steps in any order, with every outcome of the system calls. -/
namespace SafeEdge.Edge
open Library

def systemError (operation message : String) : String := operation ++ ": " ++ message

/-- Where the owner stands in a call of `start` or `stop`. -/
inductive OwnerPc where
  | idle
  | binding (port : UInt16)
  | listening (port : UInt16)
  | naming (port : UInt16)
  | launching
  | spawning
  | joining
  | closing
  deriving DecidableEq

/-- Where the accept loop stands: at a call of its own, or at one that `serveConnection` makes, with
what has been read of the request or the writes made of the response. -/
inductive AcceptPc where
  | checking
  | polling
  | accepting
  | waiting (connection : ℕ) (request : List UInt8)
  | reading (connection : ℕ) (request : List UInt8)
  | writing (connection : ℕ) (response : HttpResponse) (rooms : List (Option ℕ))
  | closing (connection : ℕ)
  | ended
  deriving DecidableEq

def AcceptPc.connection : AcceptPc → Option ℕ
  | .waiting connection _ | .reading connection _ | .writing connection _ _
  | .closing connection => some connection
  | .checking | .polling | .accepting | .ended => none

/-- Where `serveConnection` goes from a read. -/
def afterRead (routes : List UInt8 → Option HttpResponse) (connection : ℕ)
    (request bytes : List UInt8) : AcceptPc :=
  if bytes = [] then .closing connection
  else if requestComplete (request ++ bytes) then
    .writing connection (answer routes (request ++ bytes)).response []
  else .waiting connection (request ++ bytes)

/-- Whether a write is the last one of a response: it fails, or nothing is left. -/
def HttpResponse.lastWrite (response : HttpResponse) (rooms : List (Option ℕ))
    (room : Option ℕ) : Bool :=
  room.getD 0 = 0 ∨ (response.transmit (rooms ++ [room])).complete

/-- The server, its two threads, the descriptors of the process, and the connections accepted
since `stop` was called. -/
structure ServerProcess where
  server : HttpServer := {}
  listenFd : Option ℕ := none
  port : UInt16 := 0
  running : Bool := false
  error : String := ""
  owner : OwnerPc := .idle
  thread : Option AcceptPc := none
  table : DescriptorTable := {}
  late : ℕ := 0

/-- What an idle owner calls. -/
inductive OwnerCall where
  | start (port : UInt16)
  | stop

/-- One step of one thread, with what the system call it makes returns: a descriptor, success, the
port the kernel chose, the message of an error, what there is to read, or the room for a write. -/
inductive ServerTurn where
  | owner (call : OwnerCall) (fd : Option ℕ) (succeeds : Bool) (bound : UInt16) (message : String)
  | accept (fd : Option ℕ) (ready : Bool) (bytes : List UInt8) (room : Option ℕ)

/-- What a step returns to the owner, if a call ends there. -/
inductive ServerEvent where
  | none
  | started (success : Bool)
  | stopped
  deriving DecidableEq

namespace ServerProcess
variable (p : ServerProcess)

/-- The end of `start` after `bind` or `listen` has failed. -/
def giveUp (operation message : String) : ServerProcess × ServerEvent :=
  ({ p with
      error := systemError operation message
      table := p.table.close p.listenFd
      listenFd := none
      owner := .idle }, .started false)

/-- The next step of the owner. While it joins a thread that has not ended it waits. -/
def ownerStep (call : OwnerCall) (fd : Option ℕ) (succeeds : Bool) (bound : UInt16)
    (message : String) : ServerProcess × ServerEvent :=
  match p.owner with
  | .idle =>
    match call with
    | .start port =>
      if p.running then (p, .started true)
      else
        match p.table.create fd with
        | (table, some fd) =>
          ({ p with table, listenFd := some fd, owner := .binding port }, .none)
        | (table, Option.none) =>
          ({ p with table, listenFd := none, error := systemError "socket" message },
            .started false)
    | .stop =>
      if p.running then ({ p with running := false, owner := .joining, late := 0 }, .none)
      else (p, .stopped)
  | .binding port =>
    let called := { p with table := p.table.use p.listenFd }
    if succeeds then ({ called with owner := .listening port }, .none)
    else called.giveUp "bind" message
  | .listening port =>
    let called := { p with table := p.table.use p.listenFd }
    if succeeds then ({ called with owner := .naming port }, .none)
    else called.giveUp "listen" message
  | .naming port =>
    ({ p with
        table := p.table.use p.listenFd
        port := if succeeds then bound else port
        owner := .launching }, .none)
  | .launching => ({ p with running := true, owner := .spawning }, .none)
  | .spawning => ({ p with thread := some .checking, error := "", owner := .idle }, .started true)
  | .joining =>
    match p.thread with
    | Option.none => ({ p with owner := .closing }, .none)
    | some .ended => ({ p with thread := none, owner := .closing }, .none)
    | some _ => (p, .none)
  | .closing =>
    match p.listenFd with
    | Option.none => ({ p with owner := .idle }, .stopped)
    | some fd =>
      ({ p with table := p.table.close (some fd), listenFd := none, owner := .idle }, .stopped)

/-- The next step of the accept loop. A read takes what fits into the buffer. -/
def acceptStep (fd : Option ℕ) (ready : Bool) (bytes : List UInt8) (room : Option ℕ) :
    ServerProcess :=
  match p.thread with
  | none | some .ended => p
  | some .checking => { p with thread := some (if p.running then .polling else .ended) }
  | some .polling =>
    { p with
      table := p.table.use p.listenFd
      thread := some (if ready then .accepting else .checking) }
  | some .accepting =>
    match (p.table.use p.listenFd).create fd with
    | (table, none) => { p with table, thread := some .checking }
    | (table, some connection) =>
      { p with
        table
        thread := some (.waiting connection [])
        late := if p.running then p.late else p.late + 1 }
  | some (.waiting connection request) =>
    { p with
      table := p.table.use (some connection)
      thread := some (if ready then .reading connection request else .closing connection) }
  | some (.reading connection request) =>
    { p with
      table := p.table.use (some connection)
      thread := some (afterRead p.server.routes connection request (bytes.take 1024)) }
  | some (.writing connection response rooms) =>
    if response.lastWrite rooms room then
      { p with
        table := p.table.use (some connection)
        server := { p.server with requests := p.server.requests + 1 }
        thread := some (.closing connection) }
    else
      { p with
        table := p.table.use (some connection)
        thread := some (.writing connection response (rooms ++ [room])) }
  | some (.closing connection) =>
    { p with table := p.table.close (some connection), thread := some .checking }

def step : ServerTurn → ServerProcess × ServerEvent
  | .owner call fd succeeds bound message => p.ownerStep call fd succeeds bound message
  | .accept fd ready bytes room => (p.acceptStep fd ready bytes room, .none)

/-- The process before turn `n` of a schedule. -/
def processAt (schedule : ℕ → ServerTurn) (n : ℕ) : ServerProcess :=
  stateAt (fun p turn => (step p turn).1) p schedule n

/-- What turn `n` of a schedule returns. -/
def eventAt (schedule : ℕ → ServerTurn) (n : ℕ) : ServerEvent :=
  ((p.processAt schedule n).step (schedule n)).2

end ServerProcess

/-- Who holds a descriptor: the server itself, or the accept loop for the connection it serves. -/
inductive Holder where
  | listener
  | connection
  deriving DecidableEq

namespace ServerProcess
variable (p : ServerProcess)

def held : Holder → Option ℕ
  | .listener => p.listenFd
  | .connection => p.thread.bind AcceptPc.connection

/-- Which phases of the two threads go together. -/
def InPhase : OwnerPc → Bool → Option AcceptPc → Option ℕ → Prop
  | .idle, running, thread, listenFd =>
    if running then thread ≠ none ∧ thread ≠ some .ended ∧ listenFd ≠ none
    else thread = none ∧ listenFd = none
  | .binding _, running, thread, listenFd | .listening _, running, thread, listenFd
  | .naming _, running, thread, listenFd | .launching, running, thread, listenFd
  | .closing, running, thread, listenFd =>
    running = false ∧ thread = none ∧ listenFd ≠ none
  | .spawning, running, thread, listenFd => running = true ∧ thread = none ∧ listenFd ≠ none
  | .joining, running, thread, listenFd => running = false ∧ thread ≠ none ∧ listenFd ≠ none

/-- How many connections may have been accepted since `stop` was called: none while the accept
loop has not come back to its check. -/
def LateWithin : OwnerPc → Option AcceptPc → ℕ → Prop
  | .joining, some .polling, late | .joining, some .accepting, late => late = 0
  | .joining, _, late | .closing, _, late => late ≤ 1
  | _, _, _ => True

structure Orderly : Prop where
  kept : p.table.Kept p.held
  phase : InPhase p.owner p.running p.thread p.listenFd
  late : LateWithin p.owner p.thread p.late

theorem connection_afterRead (routes : List UInt8 → Option HttpResponse) (connection : ℕ)
    (request bytes : List UInt8) :
    (afterRead routes connection request bytes).connection = some connection := by
  unfold afterRead
  split_ifs <;> rfl

theorem lateWithin_iff {pc : AcceptPc} {connection : ℕ} (h : pc.connection = some connection)
    (late : ℕ) : LateWithin .joining (some pc) late ↔ late ≤ 1 := by
  cases pc with
  | checking | polling | accepting | ended => cases h
  | waiting | reading | writing | closing => rfl

theorem held_listenFd (table : DescriptorTable) (fd : Option ℕ) (error : String) (owner : OwnerPc) :
    { p with table, listenFd := fd, error, owner }.held =
      Function.update p.held .listener fd := by
  funext holder
  cases holder <;> rfl

theorem held_thread (table : DescriptorTable) (server : HttpServer) (thread : Option AcceptPc)
    (late : ℕ) : { p with table, server, thread, late }.held =
      Function.update p.held .connection (thread.bind AcceptPc.connection) := by
  funext holder
  cases holder <;> rfl

variable {p}

theorem Orderly.use_listenFd (h : p.Orderly) (hopen : p.listenFd ≠ none) :
    p.table.use p.listenFd = p.table := by
  obtain ⟨fd, hfd⟩ := Option.ne_none_iff_exists'.mp hopen
  have hheld : p.held .listener = some fd := hfd
  exact h.kept.use_eq hheld

theorem Orderly.close_listenFd (h : p.Orderly) (hopen : p.listenFd ≠ none) :
    (p.table.close p.listenFd).Kept (Function.update p.held .listener none) := by
  obtain ⟨fd, hfd⟩ := Option.ne_none_iff_exists'.mp hopen
  have hheld : p.held .listener = some fd := hfd
  exact h.kept.close hheld

/-- Giving up closes what `socket` opened. -/
theorem Orderly.giveUp (h : p.Orderly) (hphase : p.running = false ∧ p.thread = none ∧
    p.listenFd ≠ none) (operation message : String) :
    (p.giveUp operation message).1.Orderly := by
  obtain ⟨hrunning, hthread, hopen⟩ := hphase
  refine ⟨?_, ?_, trivial⟩
  · rw [ServerProcess.giveUp, held_listenFd]
    exact h.close_listenFd hopen
  · simp [ServerProcess.giveUp, InPhase, hrunning, hthread]

theorem Orderly.start (h : p.Orderly) (hidle : p.owner = .idle) (port : UInt16) (fd : Option ℕ)
    (succeeds : Bool) (bound : UInt16) (message : String) :
    (p.ownerStep (.start port) fd succeeds bound message).1.Orderly := by
  have hphase := h.phase
  simp only [ServerProcess.ownerStep, hidle]
  split_ifs with hrunning
  · exact h
  · rw [hidle, InPhase, if_neg hrunning] at hphase
    obtain ⟨hthread, hclosed⟩ := hphase
    have hcreated := p.table.create_created fd
    generalize p.table.create fd = result at hcreated
    cases hcreated with
    | failed =>
      refine ⟨?_, ?_, ?_⟩
      · have hsame : Function.update p.held .listener none = p.held := by
          rw [← hclosed]
          exact Function.update_eq_self ..
        rw [held_listenFd, hsame]
        exact h.kept
      · simp [InPhase, hrunning, hthread]
      · simp [LateWithin]
    | @fresh x hfresh =>
      have hheld : p.held .listener = none := hclosed
      refine ⟨?_, ⟨by simpa using hrunning, hthread, nofun⟩, trivial⟩
      rw [held_listenFd]
      exact h.kept.create hheld hfresh

theorem Orderly.ownerStep (h : p.Orderly) (call : OwnerCall) (fd : Option ℕ) (succeeds : Bool)
    (bound : UInt16) (message : String) :
    (p.ownerStep call fd succeeds bound message).1.Orderly := by
  have hphase := h.phase
  cases howner : p.owner with
  | idle =>
    cases call with
    | start port => exact h.start howner port fd succeeds bound message
    | stop =>
      simp only [ServerProcess.ownerStep, howner]
      split_ifs with hrunning
      · rw [howner, InPhase, if_pos hrunning] at hphase
        refine ⟨h.kept, ⟨rfl, hphase.1, hphase.2.2⟩, ?_⟩
        unfold LateWithin
        split <;> simp
      · exact h
  | binding port | listening port =>
    rw [howner] at hphase
    simp only [ServerProcess.ownerStep, howner, h.use_listenFd hphase.2.2]
    split_ifs
    · exact ⟨h.kept, hphase, trivial⟩
    · exact h.giveUp hphase _ _
  | naming port =>
    rw [howner] at hphase
    simp only [ServerProcess.ownerStep, howner, h.use_listenFd hphase.2.2]
    exact ⟨h.kept, hphase, trivial⟩
  | launching =>
    rw [howner] at hphase
    simp only [ServerProcess.ownerStep, howner]
    exact ⟨h.kept, ⟨rfl, hphase.2⟩, trivial⟩
  | spawning =>
    rw [howner] at hphase
    obtain ⟨hrunning, hthread, hopen⟩ := hphase
    simp only [ServerProcess.ownerStep, howner]
    refine ⟨?_, ?_, trivial⟩
    · have hsame : { p with thread := some .checking, error := "", owner := .idle }.held =
          p.held := by
        funext holder
        cases holder <;> simp [held, hthread, AcceptPc.connection]
      rw [hsame]
      exact h.kept
    · simp [InPhase, hrunning, hopen]
  | joining =>
    have hlate := h.late
    rw [howner] at hphase hlate
    obtain ⟨hrunning, hthread, hopen⟩ := hphase
    simp only [ServerProcess.ownerStep, howner]
    split
    next hnone => exact absurd hnone hthread
    next hended =>
      rw [hended] at hlate
      refine ⟨?_, ⟨hrunning, rfl, hopen⟩, hlate⟩
      have hsame : { p with thread := none, owner := .closing }.held = p.held := by
        funext holder
        cases holder <;> simp [held, hended, AcceptPc.connection]
      rw [hsame]
      exact h.kept
    next => exact h
  | closing =>
    rw [howner] at hphase
    obtain ⟨hrunning, hthread, hopen⟩ := hphase
    obtain ⟨fd, hfd⟩ := Option.ne_none_iff_exists'.mp hopen
    simp only [ServerProcess.ownerStep, howner, hfd]
    refine ⟨?_, ?_, trivial⟩
    · rw [held_listenFd, ← hfd]
      exact h.close_listenFd hopen
    · simp [InPhase, hrunning, hthread]

/-- While the accept loop is there the server listens, and its owner does nothing or waits. -/
theorem Orderly.of_thread (h : p.Orderly) (hthread : p.thread ≠ none) : p.listenFd ≠ none ∧
    (p.owner = .idle ∧ p.running = true ∧ p.thread ≠ some .ended ∨
      p.owner = .joining ∧ p.running = false) := by
  have hphase := h.phase
  cases howner : p.owner with
  | idle =>
    rw [howner, InPhase] at hphase
    split_ifs at hphase with hrunning
    · exact ⟨hphase.2.2, Or.inl ⟨rfl, hrunning, hphase.2.1⟩⟩
    · exact absurd hphase.1 hthread
  | joining =>
    rw [howner] at hphase
    exact ⟨hphase.2.2, Or.inr ⟨rfl, hphase.1⟩⟩
  | binding | listening | naming | launching | spawning | closing =>
    rw [howner] at hphase
    exact absurd hphase.2.1 hthread

/-- The accept loop may go anywhere as far as the owner is concerned, but it ends only once the
server is no longer running. -/
theorem Orderly.moved (h : p.Orderly) (hthread : p.thread ≠ none) {table : DescriptorTable}
    {server : HttpServer} {next : AcceptPc} {late : ℕ}
    (hkept : table.Kept (Function.update p.held .connection next.connection))
    (hended : next = .ended → p.running = false)
    (hlate : p.owner = .joining → LateWithin .joining (some next) late) :
    { p with table, server, thread := some next, late }.Orderly := by
  obtain ⟨hopen, hphase⟩ := h.of_thread hthread
  refine ⟨?_, ?_, ?_⟩
  · rw [held_thread]
    exact hkept
  · rcases hphase with ⟨howner, hrunning, _⟩ | ⟨howner, hrunning⟩
    · have hlives : next ≠ .ended := by
        intro hend
        rw [hended hend] at hrunning
        cases hrunning
      simp [InPhase, howner, hrunning, hopen, hlives]
    · simp [InPhase, howner, hrunning, hopen]
  · rcases hphase with ⟨howner, _, _⟩ | ⟨howner, _⟩
    · simp [howner, LateWithin]
    · rw [howner]
      exact hlate howner

theorem Orderly.kept_of_same (h : p.Orderly) {pc next : AcceptPc} (hthread : p.thread = some pc)
    (hnext : next.connection = pc.connection) :
    p.table.Kept (Function.update p.held .connection next.connection) := by
  have hheld : p.held .connection = pc.connection := by simp [held, hthread]
  rw [hnext, ← hheld, Function.update_eq_self]
  exact h.kept

/-- A call that `serveConnection` makes names the connection and leaves it open. -/
theorem Orderly.served (h : p.Orderly) {pc next : AcceptPc} {connection : ℕ}
    (hthread : p.thread = some pc) (hpc : pc.connection = some connection)
    (hnext : next.connection = some connection) {server : HttpServer} :
    { p with table := p.table.use (some connection), server, thread := some next }.Orderly := by
  have hheld : p.held .connection = some connection := by simp [held, hthread, hpc]
  have huse := h.kept.use_eq hheld
  have hlives : next ≠ .ended := by
    rintro rfl
    cases hnext
  have hlate := h.late
  rw [hheld] at huse
  rw [huse]
  refine h.moved (by simp [hthread]) (h.kept_of_same hthread (hnext.trans hpc.symm))
    (absurd · hlives) fun howner => ?_
  rw [howner, hthread] at hlate
  exact (lateWithin_iff hnext _).mpr ((lateWithin_iff hpc _).mp hlate)

/-- A connection that is accepted is served next; after `stop` was called it is the only one. -/
theorem Orderly.accepted (h : p.Orderly) (hthread : p.thread = some .accepting) (fd : Option ℕ)
    (ready : Bool) (bytes : List UInt8) (room : Option ℕ) :
    (p.acceptStep fd ready bytes room).Orderly := by
  have hthere : p.thread ≠ none := by simp [hthread]
  have hheld : p.held .connection = none := by simp [held, hthread, AcceptPc.connection]
  have hnone (howner : p.owner = .joining) : p.late = 0 := by
    have hlate := h.late
    rwa [howner, hthread] at hlate
  have hcreated := p.table.create_created fd
  simp only [ServerProcess.acceptStep, hthread, h.use_listenFd (h.of_thread hthere).1]
  generalize p.table.create fd = result at hcreated
  cases hcreated with
  | failed =>
    refine h.moved hthere (h.kept_of_same hthread rfl) nofun fun howner => ?_
    exact (hnone howner).le.trans (Nat.zero_le 1)
  | @fresh x hfresh =>
    refine h.moved hthere (h.kept.create hheld hfresh) nofun fun howner => ?_
    have hzero := hnone howner
    change (if p.running then p.late else p.late + 1) ≤ 1
    split_ifs <;> omega

theorem Orderly.acceptStep (h : p.Orderly) (fd : Option ℕ) (ready : Bool) (bytes : List UInt8)
    (room : Option ℕ) : (p.acceptStep fd ready bytes room).Orderly := by
  cases hthread : p.thread with
  | none => simpa only [ServerProcess.acceptStep, hthread] using h
  | some pc =>
    have hthere : p.thread ≠ none := by simp [hthread]
    have hlate := h.late
    cases pc with
    | ended => simpa only [ServerProcess.acceptStep, hthread] using h
    | checking =>
      simp only [ServerProcess.acceptStep, hthread]
      split_ifs with hrunning
      · refine h.moved hthere (h.kept_of_same hthread rfl) nofun fun howner => ?_
        have hphase := h.phase
        rw [howner] at hphase
        rw [hphase.1] at hrunning
        cases hrunning
      · refine h.moved hthere (h.kept_of_same hthread rfl) (fun _ => by simpa using hrunning)
          fun howner => ?_
        rwa [howner, hthread] at hlate
    | polling =>
      simp only [ServerProcess.acceptStep, hthread, h.use_listenFd (h.of_thread hthere).1]
      split_ifs
      · refine h.moved hthere (h.kept_of_same hthread rfl) nofun fun howner => ?_
        rwa [howner, hthread] at hlate
      · refine h.moved hthere (h.kept_of_same hthread rfl) nofun fun howner => ?_
        rw [howner, hthread] at hlate
        exact hlate.le.trans (Nat.zero_le 1)
    | accepting => exact h.accepted hthread fd ready bytes room
    | waiting connection request =>
      simp only [ServerProcess.acceptStep, hthread]
      split_ifs <;> exact h.served hthread rfl rfl
    | reading connection request =>
      simp only [ServerProcess.acceptStep, hthread]
      exact h.served hthread rfl (connection_afterRead ..)
    | writing connection response rooms =>
      simp only [ServerProcess.acceptStep, hthread]
      split_ifs <;> exact h.served hthread rfl rfl
    | closing connection =>
      have hheld : p.held .connection = some connection := by
        simp [held, hthread, AcceptPc.connection]
      have hclosed := h.kept.close hheld
      rw [hheld] at hclosed
      simp only [ServerProcess.acceptStep, hthread]
      refine h.moved hthere hclosed nofun fun howner => ?_
      rwa [howner, hthread] at hlate

theorem Orderly.step (h : p.Orderly) (turn : ServerTurn) : (p.step turn).1.Orderly := by
  cases turn with
  | owner call fd succeeds bound message => exact h.ownerStep call fd succeeds bound message
  | accept fd ready bytes room => exact h.acceptStep fd ready bytes room

/-- A server just constructed, with any routes. -/
def constructed (server : HttpServer) : ServerProcess := { server }

theorem constructed_orderly (server : HttpServer) : (constructed server).Orderly where
  kept := DescriptorTable.kept_empty fun holder => by cases holder <;> rfl
  phase := ⟨rfl, rfl⟩
  late := trivial

theorem processAt_orderly (server : HttpServer) (schedule : ℕ → ServerTurn) (n : ℕ) :
    ((constructed server).processAt schedule n).Orderly :=
  stateAt_invariant (fun _ (p : ServerProcess) => p.Orderly) (constructed_orderly server)
    (fun k h => h.step (schedule k)) n

/-- Every call names an open descriptor; open are the one the server listens on and the one of the
connection being served; a server that is stopped has none and no thread; and while `stop` waits
at most one more connection has been accepted. -/
structure WellKept (p : ServerProcess) : Prop where
  sound : p.table.badCalls = 0
  live : ∀ fd, fd ∈ p.table.live ↔
    p.listenFd = some fd ∨ p.thread.bind AcceptPc.connection = some fd
  distinct : ∀ fd, p.listenFd = some fd → p.thread.bind AcceptPc.connection ≠ some fd
  stopped : p.owner = .idle → p.running = false → p.table.live = ∅ ∧ p.thread = none
  late : p.owner = .joining ∨ p.owner = .closing → p.late ≤ 1

/-- What the caller is told of a server is so when its call returns. -/
def Truthful (next : ServerProcess) : ServerEvent → Prop
  | .none => True
  | .started true => next.running = true ∧ next.thread ≠ none ∧ next.listenFd ≠ none
  | .started false => next.running = false ∧ next.table.live = ∅ ∧ next.error ≠ ""
  | .stopped => next.running = false ∧ next.table.live = ∅ ∧ next.thread = none

theorem Orderly.stopped (h : p.Orderly) (howner : p.owner = .idle) (hrunning : p.running = false) :
    p.table.live = ∅ ∧ p.thread = none := by
  have hphase := h.phase
  rw [howner, InPhase, if_neg (by simp [hrunning])] at hphase
  obtain ⟨hthread, hclosed⟩ := hphase
  refine ⟨h.kept.live_eq_empty fun holder => ?_, hthread⟩
  cases holder <;> simp [held, hthread, hclosed]

theorem Orderly.wellKept (h : p.Orderly) : p.WellKept where
  sound := h.kept.sound
  live fd := by
    have hmem := h.kept.exclusive.mem_iff fd
    rw [Finset.mem_coe] at hmem
    rw [hmem]
    constructor
    · rintro ⟨holder, hheld⟩
      cases holder
      · exact Or.inl hheld
      · exact Or.inr hheld
    · rintro (hheld | hheld)
      · exact ⟨.listener, hheld⟩
      · exact ⟨.connection, hheld⟩
  distinct fd hlisten hserve := by
    have hlistener : p.held .listener = some fd := hlisten
    have hconnection : p.held .connection = some fd := hserve
    exact nomatch h.kept.exclusive.unique hlistener hconnection
  stopped := h.stopped
  late howner := by
    have hlate := h.late
    rcases howner with howner | howner
    · cases hthread : p.thread with
      | none =>
        rw [howner, hthread] at hlate
        exact hlate
      | some pc =>
        rw [howner, hthread] at hlate
        cases pc with
        | polling | accepting => exact hlate.le.trans (Nat.zero_le 1)
        | _ => exact hlate
    · rw [howner] at hlate
      exact hlate

theorem systemError_ne_empty (operation message : String) :
    systemError operation message ≠ "" := by
  intro hempty
  have hlength := congrArg String.length hempty
  simp [systemError] at hlength

/-- What a step of the owner returns is so in the process it leaves behind. -/
theorem Orderly.truthful_ownerStep (h : p.Orderly) (call : OwnerCall) (fd : Option ℕ)
    (succeeds : Bool) (bound : UInt16) (message : String) :
    Truthful (p.ownerStep call fd succeeds bound message).1
      (p.ownerStep call fd succeeds bound message).2 := by
  have hnext := h.ownerStep call fd succeeds bound message
  have hphase := h.phase
  cases howner : p.owner with
  | idle =>
    rw [howner] at hphase
    cases call with
    | start port =>
      simp only [ServerProcess.ownerStep, howner] at hnext ⊢
      split_ifs with hrunning
      · rw [InPhase, if_pos hrunning] at hphase
        exact ⟨hrunning, hphase.1, hphase.2.2⟩
      · rw [if_neg hrunning] at hnext
        cases hcreate : p.table.create fd with
        | mk table created =>
          cases created with
          | some fd => exact trivial
          | none =>
            simp only [hcreate] at hnext
            exact ⟨by simpa using hrunning, (hnext.stopped rfl (by simpa using hrunning)).1,
              systemError_ne_empty _ _⟩
    | stop =>
      simp only [ServerProcess.ownerStep, howner]
      split_ifs with hrunning
      · exact trivial
      · have hstopped : p.running = false := by simpa using hrunning
        exact ⟨hstopped, h.stopped howner hstopped⟩
  | binding port | listening port =>
    rw [howner] at hphase
    simp only [ServerProcess.ownerStep, howner] at hnext ⊢
    split_ifs with hsucceeds
    · exact trivial
    · rw [if_neg hsucceeds] at hnext
      exact ⟨hphase.1, (hnext.stopped rfl hphase.1).1, systemError_ne_empty _ _⟩
  | naming port => simp only [ServerProcess.ownerStep, howner, Truthful]
  | launching => simp only [ServerProcess.ownerStep, howner, Truthful]
  | spawning =>
    rw [howner] at hphase
    simp only [ServerProcess.ownerStep, howner]
    exact ⟨hphase.1, nofun, hphase.2.2⟩
  | joining =>
    simp only [ServerProcess.ownerStep, howner]
    split <;> exact trivial
  | closing =>
    rw [howner] at hphase
    obtain ⟨fd, hfd⟩ := Option.ne_none_iff_exists'.mp hphase.2.2
    simp only [ServerProcess.ownerStep, howner, hfd] at hnext ⊢
    exact ⟨hphase.1, hnext.stopped rfl hphase.1⟩

theorem Orderly.truthful (h : p.Orderly) (turn : ServerTurn) :
    Truthful (p.step turn).1 (p.step turn).2 := by
  cases turn with
  | accept fd ready bytes room => exact trivial
  | owner call fd succeeds bound message =>
    exact h.truthful_ownerStep call fd succeeds bound message

/-- However the owner and the accept loop interleave and whatever the system calls return, the
server keeps its descriptors in order, and what `start` and `stop` tell their caller is so. -/
theorem descriptors_in_order (server : HttpServer) (schedule : ℕ → ServerTurn) (n : ℕ) :
    ((constructed server).processAt schedule n).WellKept ∧
      Truthful ((constructed server).processAt schedule (n + 1))
        ((constructed server).eventAt schedule n) :=
  ⟨(processAt_orderly server schedule n).wellKept,
    (processAt_orderly server schedule n).truthful (schedule n)⟩

end ServerProcess

end SafeEdge.Edge
