import SafeEdge.Edge.HttpTransmission
import SafeEdge.Edge.Metrics

/-! The endpoints of the daemon, from the request that arrives to the response the client reads. -/
namespace SafeEdge.Apps
open Library Edge

/-- Liveness: the flag of the control loop is loaded once for the body and once for the status. -/
def healthz (forBody forStatus : Bool) : HttpResponse where
  status := if forStatus then 200 else 503
  body := if forBody then ascii "ok\n" else ascii "starting\n"

/-- Readiness, from the snapshot that was loaded, if any. -/
def readyz : Option RuntimeSnapshot → HttpResponse
  | none => { status := 503, body := ascii "snapshot unavailable\n" }
  | some snapshot =>
    if snapshot.faultLatched ≠ 0 then { status := 503, body := ascii "safety fault latched\n" }
    else { body := ascii "ready\n" }

/-- The sequence number, the torque permission and the instant of the transition. -/
def safetyLine (snapshot : RuntimeSnapshot) : List Char :=
  snprintf 128 (Nat.toDigits 10 snapshot.safetySequence.toNat ++
    ' ' :: (Nat.toDigits 10 snapshot.torquePermitted.toNat ++
      ' ' :: (Nat.toDigits 10 snapshot.safetyTransitionMonotonicNs.toNat ++ ['\n'])))

def safety : Option RuntimeSnapshot → HttpResponse
  | none =>
    { status := 503, contentType := ascii "text/plain", body := ascii "snapshot unavailable\n" }
  | some snapshot =>
    { contentType := ascii "text/plain", body := bytesOf (safetyLine snapshot) }

/-- Without a snapshot the default one is rendered. -/
def metrics (loaded : Option RuntimeSnapshot) : HttpResponse where
  contentType := ascii "text/plain; version=0.0.4; charset=utf-8"
  body := bytesOf (renderPrometheus (loaded.getD {}) loaded.isSome)

/-- What the handler of one request can find: the two loads of the loop's flag, and the snapshot
if its load succeeds. -/
structure Observed where
  forBody : Bool
  forStatus : Bool
  snapshot : Option RuntimeSnapshot

/-- The server as the daemon sets it up. -/
def server (observed : Observed) : HttpServer :=
  (((({} : HttpServer).route
    (ascii "/healthz") (healthz observed.forBody observed.forStatus)).route
    (ascii "/readyz") (readyz observed.snapshot)).route
    (ascii "/safety") (safety observed.snapshot)).route
    (ascii "/metrics") (metrics observed.snapshot)

/-- What the client of one request reads. -/
def received (observed : Observed) (reads : List (List UInt8)) (rooms : List (Option ℕ)) :
    Option HttpResponse :=
  ((server observed).serveConnection reads).2.bind fun answer =>
    readResponse (answer.response.transmit rooms).bytes

theorem readyz_contentType (loaded : Option RuntimeSnapshot) :
    (readyz loaded).contentType = ascii "text/plain; charset=utf-8" := by
  unfold readyz
  split
  · rfl
  · split_ifs <;> rfl

theorem safety_contentType (loaded : Option RuntimeSnapshot) :
    (safety loaded).contentType = ascii "text/plain" := by
  cases loaded <;> rfl

theorem server_plain (observed : Observed) (path : List UInt8) (response : HttpResponse)
    (h : (server observed).routes path = some response) : 13 ∉ response.contentType := by
  simp only [server, HttpServer.route, Function.update_apply] at h
  split_ifs at h
  · rw [← Option.some.inj h]
    exact (by decide : 13 ∉ ascii "text/plain; version=0.0.4; charset=utf-8")
  · rw [← Option.some.inj h, safety_contentType]
    decide
  · rw [← Option.some.inj h, readyz_contentType]
    decide
  · rw [← Option.some.inj h]
    exact (by decide : 13 ∉ ascii "text/plain; charset=utf-8")

/-- The stream of a request for a path: `GET`, the path, and an empty line within the limit. -/
structure Requests (path stream : List UInt8) : Prop where
  starts : ascii "GET" ++ space :: (path ++ [space]) <+: stream
  headed : headerEnd <:+: stream.take kMaxRequestBytes

/-- A path that a request line can hold. -/
structure PlainPath (path : List UInt8) : Prop where
  spaceless : space ∉ path
  queryless : beforeFirst (ascii "?") path = path
  unended : ¬ headerEnd <:+: ascii "GET" ++ space :: (path ++ [space])

/-- However the request arrives, its path is looked up. -/
theorem Requests.answer {path stream : List UInt8} (h : Requests path stream)
    (hpath : PlainPath path) (server : HttpServer) {reads : List (List UInt8)}
    (harrives : Arrives stream reads) :
    (server.serveConnection reads).2 = some (answerTo server.routes (ascii "GET") path) := by
  obtain ⟨header, trailing, rfl⟩ := RequestHeader.exists_header h.headed
  obtain ⟨k, -, hserved⟩ := header.serveConnection_arrives server harrives
  have hstart : ascii "GET" ++ space :: (path ++ [space]) <+: header.bytes := by
    rcases List.prefix_or_prefix_of_prefix h.starts (List.prefix_append header.bytes trailing)
      with hshort | hlong
    · exact hshort
    · exact absurd (header.ends.isInfix.trans hlong.isInfix) hpath.unended
  rw [hserved, RequestHeader.answer_append hstart rfl (by decide) hpath.spaceless]

/-- The client reads the response of the path's handler, or knows that part of it is missing. -/
theorem Requests.received {path stream : List UInt8} (h : Requests path stream)
    (hpath : PlainPath path) {observed : Observed} {response : HttpResponse}
    (hroute : (server observed).routes path = some response) {reads : List (List UInt8)}
    (harrives : Arrives stream reads) (rooms : List (Option ℕ)) :
    received observed reads rooms =
      if (response.transmit rooms).complete then some response else none := by
  have hanswer : ((server observed).serveConnection reads).2 =
      some { handler := some path, response } := by
    rw [h.answer hpath (server observed) harrives]
    simp [answerTo, hpath.queryless, hroute]
  rw [Apps.received, hanswer, Option.bind_some]
  exact HttpResponse.readResponse_transmit (server_plain observed path response hroute) rooms

end SafeEdge.Apps
