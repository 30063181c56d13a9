import SafeEdge.Apps.Endpoints

/-! The health probe, which is the daemon's own binary asking the running one, against the liveness
endpoint. -/
namespace SafeEdge.Apps
open Library Edge

/-- What the system calls of the probe return: whether there is a socket and it connects, how much
of the request one write takes, and what one read returns, nothing on failure or end. -/
structure ProbeCalls where
  socket : Bool
  connects : Bool
  written : ℤ
  read : List UInt8

def probeRequest : List UInt8 :=
  ascii "GET /healthz HTTP/1.1\r\nHost: localhost\r\nConnection: close\r\n\r\n"

/-- The size of the response buffer, whose last byte stays zero. -/
def probeBufferSize : ℕ := 64

/-- The text in the zeroed buffer ends at the first zero byte. -/
def cString (bytes : List UInt8) : List UInt8 := bytes.takeWhile (· ≠ 0)

def runHealthcheck (calls : ProbeCalls) : ℤ :=
  if !calls.socket then 1
  else if !calls.connects then 1
  else if calls.written ≠ probeRequest.length then 1
  else if calls.read = [] then 1
  else if ascii " 200 " <:+: cString (calls.read.take (probeBufferSize - 1)) then 0
  else 1

theorem healthz_plainPath : PlainPath (ascii "/healthz") where
  spaceless := by decide
  queryless := by decide
  unended := by decide

theorem routes_healthz (observed : Observed) : (server observed).routes (ascii "/healthz") =
    some (healthz observed.forBody observed.forStatus) := by
  have hmetrics : ascii "/healthz" ≠ ascii "/metrics" := by decide
  have hsafety : ascii "/healthz" ≠ ascii "/safety" := by decide
  have hreadyz : ascii "/healthz" ≠ ascii "/readyz" := by decide
  simp [server, HttpServer.route, hmetrics, hsafety, hreadyz]

theorem probeRequest_requests : Requests (ascii "/healthz") probeRequest := ⟨by decide, by decide⟩

/-- In what the buffer can hold of the response, the status shows after thirteen bytes. -/
theorem status_shows_iff (forBody forStatus : Bool) {length : ℕ}
    (h : length < probeBufferSize) :
    ascii " 200 " <:+: cString ((healthz forBody forStatus).text.take length) ↔
      forStatus = true ∧ 13 ≤ length := by
  have hall : ∀ forBody forStatus : Bool, ∀ length < probeBufferSize,
      (ascii " 200 " <:+: cString ((healthz forBody forStatus).text.take length) ↔
        forStatus = true ∧ 13 ≤ length) := by decide +kernel
  exact hall forBody forStatus length h

/-- However its request and the response are cut into packets, the probe passes exactly if all its
calls succeed, the control loop was running when the handler chose the status, and the first read
got as far as the status. -/
theorem healthcheck_passes_iff (observed : Observed) (reads : List (List UInt8))
    (harrives : Arrives probeRequest reads) (answer : Answer)
    (hanswer : ((server observed).serveConnection reads).2 = some answer)
    (rooms : List (Option ℕ)) (calls : ProbeCalls)
    (hread : calls.read <+: (answer.response.transmit rooms).bytes) :
    runHealthcheck calls = 0 ↔
      calls.socket = true ∧ calls.connects = true ∧ calls.written = probeRequest.length ∧
        observed.forStatus = true ∧ 13 ≤ calls.read.length := by
  have hresponse : answer.response = healthz observed.forBody observed.forStatus := by
    rw [probeRequest_requests.answer healthz_plainPath (server observed) harrives] at hanswer
    rw [← Option.some.inj hanswer]
    simp [answerTo, healthz_plainPath.queryless, routes_healthz]
  have htext : calls.read.take (probeBufferSize - 1) =
      answer.response.text.take (min (probeBufferSize - 1) calls.read.length) := by
    have hstart := List.prefix_iff_eq_take.mp (hread.trans (answer.response.transmit_spec rooms).1)
    exact (congrArg (List.take _) hstart).trans List.take_take
  have hshows : ascii " 200 " <:+: cString (calls.read.take (probeBufferSize - 1)) ↔
      observed.forStatus = true ∧ 13 ≤ calls.read.length := by
    rw [htext, hresponse, status_shows_iff _ _ (by simp [probeBufferSize])]
    simp [probeBufferSize]
  have hempty : 13 ≤ calls.read.length → calls.read ≠ [] := by
    rintro hlong hnil
    simp [hnil] at hlong
  simp only [runHealthcheck, hshows]
  split_ifs <;> simp_all

/-- The probe's request arrives in two packets, and its read gets the status line. -/
theorem healthcheck_passes_iff_twoPackets :
    runHealthcheck
      { socket := true, connects := true, written := 61, read := ascii "HTTP/1.1 200 OK\r\n" } =
        0 := by
  have hserved : ((server { forBody := true, forStatus := true, snapshot := none }).serveConnection
      [probeRequest.take 20, probeRequest.drop 20]).2 =
        some { handler := some (ascii "/healthz"), response := healthz true true } := by
    decide +kernel
  exact (healthcheck_passes_iff { forBody := true, forStatus := true, snapshot := none }
    [probeRequest.take 20, probeRequest.drop 20] ⟨by decide, by decide⟩ _ hserved
    [some 17, some 100, some 100] _ (by decide +kernel)).mpr
      ⟨rfl, rfl, by decide, rfl, by decide⟩

end SafeEdge.Apps
