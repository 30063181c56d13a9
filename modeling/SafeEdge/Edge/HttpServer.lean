import SafeEdge.Library.Scanning

/-! The HTTP server of the observability endpoints, which answers one request per connection. -/
namespace SafeEdge.Edge
open Library

def ascii (text : String) : List UInt8 := text.toList.map Char.toUInt8

def space : UInt8 := 32

def crlf : List UInt8 := ascii "\r\n"

/-- The empty line after the header fields. -/
def headerEnd : List UInt8 := ascii "\r\n\r\n"

def kMaxRequestBytes : ℕ := 8192

structure HttpResponse where
  status : ℤ := 200
  contentType : List UInt8 := ascii "text/plain; charset=utf-8"
  body : List UInt8 := []
  deriving DecidableEq

/-- The path whose handler was invoked, if any, and the response. -/
structure Answer where
  handler : Option (List UInt8) := none
  response : HttpResponse
  deriving DecidableEq

/-- The registered paths, with what their handlers respond, and the requests served. -/
structure HttpServer where
  routes : List UInt8 → Option HttpResponse := fun _ => none
  requests : UInt64 := 0

def reasonPhrase (status : ℤ) : List UInt8 :=
  if status = 200 then ascii "OK"
  else if status = 400 then ascii "Bad Request"
  else if status = 404 then ascii "Not Found"
  else if status = 405 then ascii "Method Not Allowed"
  else if status = 503 then ascii "Service Unavailable"
  else ascii "Error"

/-- Everything in front of the body. -/
def HttpResponse.head (response : HttpResponse) : List UInt8 :=
  ascii "HTTP/1.1 " ++ ascii (toString response.status) ++ [space] ++
    reasonPhrase response.status ++ crlf ++
    ascii "Content-Type: " ++ response.contentType ++ crlf ++
    ascii "Content-Length: " ++ ascii (toString response.body.length) ++ crlf ++
    ascii "Connection: close\r\n\r\n"

/-- The bytes that are written. -/
def HttpResponse.text (response : HttpResponse) : List UInt8 := response.head ++ response.body

/-- When reading stops. -/
def requestComplete (request : List UInt8) : Bool :=
  headerEnd <:+: request ∨ kMaxRequestBytes ≤ request.length

def malformed : Answer := { response := { status := 400, body := ascii "malformed request\n" } }

/-- The query is cut off the target before it is looked up. -/
def answerTo (routes : List UInt8 → Option HttpResponse) (method target : List UInt8) : Answer :=
  let path := beforeFirst (ascii "?") target
  if method ≠ ascii "GET" then
    { response := { status := 405, body := ascii "only GET is supported\n" } }
  else
    match routes path with
    | some response => { handler := some path, response }
    | none => { response := { status := 404, body := ascii "no such endpoint\n" } }

/-- The method and the target end at the first two spaces of what has been read. -/
def answer (routes : List UInt8 → Option HttpResponse) (request : List UInt8) : Answer :=
  match splitFirst space request with
  | none => malformed
  | some (method, rest) =>
    match splitFirst space rest with
    | none => malformed
    | some (target, _) => answerTo routes method target

namespace HttpServer

/-- Registers a handler. -/
def route (server : HttpServer) (path : List UInt8) (response : HttpResponse) : HttpServer :=
  { server with routes := Function.update server.routes path (some response) }

/-- The reads are what `read` returns one after the other. A client that stalls, or whose `read`
returns nothing, is dropped without an answer. -/
def serveConnection (server : HttpServer) (reads : List (List UInt8)) :
    HttpServer × Option Answer :=
  match readUntil requestComplete [] reads with
  | none => (server, none)
  | some request =>
    ({ server with requests := server.requests + 1 }, some (answer server.routes request))

end HttpServer

/-- A way for the stream to arrive. -/
structure Arrives (stream : List UInt8) (reads : List (List UInt8)) : Prop where
  flatten : reads.flatten = stream
  size : ∀ read ∈ reads, 1 ≤ read.length ∧ read.length ≤ 1024

def requestLine (stream : List UInt8) : List UInt8 := beforeFirst crlf stream

/-- The stream up to and with its first empty line. -/
def headerOf (stream : List UInt8) : List UInt8 := beforeFirst headerEnd stream ++ headerEnd

/-- The line asks for a registered path: `GET`, a space, the target and a further space. -/
def RoutedLine (routes : List UInt8 → Option HttpResponse) (line : List UInt8) : Prop :=
  ∃ target rest, line = ascii "GET" ++ space :: (target ++ space :: rest) ∧ space ∉ target ∧
    (routes (beforeFirst (ascii "?") target)).isSome

/-- However the stream arrives, the answer is the same, and a handler runs exactly for a routed
line. -/
structure PacketIndependent (server : HttpServer) (stream : List UInt8) : Prop where
  same : ∀ {first second}, Arrives stream first → Arrives stream second →
    ∃ one other, (server.serveConnection first).2 = some one ∧
      (server.serveConnection second).2 = some other ∧
      one.response.status = other.response.status ∧ one.handler = other.handler
  routed : ∀ {reads answer}, Arrives stream reads → (server.serveConnection reads).2 = some answer →
    (answer.handler.isSome ↔ RoutedLine server.routes (requestLine stream))

/-- What is read at least: the stream up to its first empty line, within the limit. -/
structure RequestHeader where
  bytes : List UInt8
  ends : headerEnd <:+ bytes
  first : ¬ headerEnd <:+: bytes.dropLast
  fits : bytes.length ≤ kMaxRequestBytes

namespace RequestHeader
variable (header : RequestHeader)

theorem bytes_ne_nil : header.bytes ≠ [] := by
  intro hempty
  have hnil : headerEnd = [] := List.suffix_nil.mp (hempty ▸ header.ends)
  exact absurd hnil (by decide)

theorem complete_append (more : List UInt8) : requestComplete (header.bytes ++ more) = true :=
  decide_eq_true (Or.inl (header.ends.isInfix.trans (List.prefix_append _ _).isInfix))

/-- Before the end of the header reading goes on. -/
theorem not_complete {text : List UInt8} (hstart : text <+: header.bytes)
    (hlength : text.length < header.bytes.length) : requestComplete text = false := by
  have hfront : text <+: header.bytes.dropLast := by
    refine List.prefix_of_prefix_length_le hstart (List.dropLast_prefix _) ?_
    simp only [List.length_dropLast]
    omega
  refine decide_eq_false (not_or.mpr ⟨fun h => header.first (h.trans hfront.isInfix), ?_⟩)
  have := header.fits
  omega

/-- Every stream with an empty line within the limit begins with a header. -/
theorem exists_header {stream : List UInt8} (h : headerEnd <:+: stream.take kMaxRequestBytes) :
    ∃ (header : RequestHeader) (trailing : List UInt8), stream = header.bytes ++ trailing := by
  obtain ⟨front, rest, hfront, hends, hfirst⟩ := exists_front_of_infix (by decide) h
  have hfits : front.length ≤ kMaxRequestBytes := by
    have hlength := congrArg List.length hfront
    simp only [List.length_take, List.length_append] at hlength
    omega
  refine ⟨⟨front, hends, hfirst, hfits⟩, rest ++ stream.drop kMaxRequestBytes, ?_⟩
  rw [← List.append_assoc, ← hfront, List.take_append_drop]

theorem headerOf_append (trailing : List UInt8) :
    headerOf (header.bytes ++ trailing) = header.bytes := by
  rw [headerOf, beforeFirst_append (by decide) header.ends.isInfix,
    beforeFirst_append_pattern header.ends header.first]

/-- What is read when the header is complete ends with it or with some of the bytes that follow, at
most as many as one read can bring besides the last byte of the header. -/
theorem serveConnection_arrives (server : HttpServer) {trailing : List UInt8}
    {reads : List (List UInt8)} (h : Arrives (header.bytes ++ trailing) reads) :
    ∃ k ≤ 1023, (server.serveConnection reads).2 =
      some (answer server.routes (header.bytes ++ trailing.take k)) := by
  have hreads : ∀ read ∈ reads, read ≠ [] := fun read hread =>
    List.ne_nil_of_length_pos (h.size read hread).1
  have hall : requestComplete ([] ++ reads.flatten) = true := by
    rw [List.nil_append, h.flatten]
    exact header.complete_append trailing
  obtain ⟨request, hrequest, hcomplete, hstart⟩ := readUntil_spec [] hreads hall
  rw [List.nil_append, h.flatten] at hstart
  have hlong : header.bytes.length ≤ request.length := by
    by_contra hshort
    have hfront := List.prefix_of_prefix_length_le hstart (List.prefix_append _ trailing)
      (by omega : request.length ≤ header.bytes.length)
    exact absurd hcomplete (by simp [header.not_complete hfront (by omega)])
  obtain ⟨extra, rfl⟩ :=
    List.prefix_of_prefix_length_le (List.prefix_append _ trailing) hstart hlong
  have hextra := List.prefix_iff_eq_take.mp ((List.prefix_append_right_inj header.bytes).mp hstart)
  refine ⟨extra.length, ?_, by rw [← hextra]; simp [HttpServer.serveConnection, hrequest]⟩
  rcases readUntil_overshoot (fun read hread => (h.size read hread).2) hrequest with
    hempty | ⟨before, hopen, hbefore, hlength⟩
  · exact absurd (List.append_eq_nil_iff.mp hempty).1 header.bytes_ne_nil
  · have hshort : before.length < header.bytes.length := by
      by_contra hlonger
      obtain ⟨more, rfl⟩ := List.prefix_of_prefix_length_le (List.prefix_append _ extra) hbefore
        (not_lt.mp hlonger)
      exact Bool.false_ne_true (hopen.symm.trans (header.complete_append more))
    rw [List.length_append] at hlength
    omega

/-- The stream arrives byte by byte, but for the last byte of the header and some that follow it. -/
def arrival (extra rest : List UInt8) : List (List UInt8) :=
  header.bytes.dropLast.map ([·]) ++
    (header.bytes.getLast header.bytes_ne_nil :: extra) :: rest.map ([·])

theorem flatten_map_singleton (text : List UInt8) : (text.map ([·])).flatten = text := by
  rw [← List.flatMap_def, List.flatMap_singleton']

theorem dropLast_append_cons (more : List UInt8) :
    header.bytes.dropLast ++ header.bytes.getLast header.bytes_ne_nil :: more =
      header.bytes ++ more := by
  rw [List.append_cons, List.dropLast_concat_getLast]

theorem arrives_arrival (extra rest : List UInt8) (hextra : extra.length < 1024) :
    Arrives (header.bytes ++ (extra ++ rest)) (header.arrival extra rest) where
  flatten := by
    simp only [arrival, List.flatten_append, List.flatten_cons, flatten_map_singleton,
      List.cons_append]
    exact header.dropLast_append_cons _
  size read hread := by
    simp only [arrival, List.mem_append, List.mem_cons, List.mem_map] at hread
    rcases hread with ⟨byte, _, rfl⟩ | rfl | ⟨byte, _, rfl⟩
    · exact ⟨le_rfl, by simp⟩
    · simp only [List.length_cons]
      omega
    · exact ⟨le_rfl, by simp⟩

theorem serveConnection_arrival (server : HttpServer) (extra rest : List UInt8) :
    (server.serveConnection (header.arrival extra rest)).2 =
      some (answer server.routes (header.bytes ++ extra)) := by
  have hread : readUntil requestComplete [] (header.arrival extra rest) =
      some (header.bytes ++ extra) := by
    have hlength : header.bytes.dropLast.length < header.bytes.length := by
      have := List.length_pos_of_ne_nil header.bytes_ne_nil
      simp only [List.length_dropLast]
      omega
    have hreads : ∀ read ∈ header.bytes.dropLast.map ([·]), read ≠ [] := by
      intro read hread
      obtain ⟨byte, _, rfl⟩ := List.mem_map.mp hread
      exact List.cons_ne_nil byte []
    rw [arrival, readUntil_append [] hreads]
    · have hopen := header.not_complete (List.dropLast_prefix _) hlength
      simp only [List.nil_append, flatten_map_singleton, readUntil, hopen, Bool.false_eq_true,
        if_false, reduceCtorEq, dropLast_append_cons]
      exact readUntil_of_complete (header.complete_append extra) _
    · intro k hk
      rw [List.length_map] at hk
      simp only [List.nil_append, ← List.map_take, flatten_map_singleton]
      refine header.not_complete ((List.take_prefix k _).trans (List.dropLast_prefix _)) ?_
      simp only [List.length_take]
      omega
  simp [HttpServer.serveConnection, hread]

end RequestHeader

section Answers
variable {routes : List UInt8 → Option HttpResponse} {method target : List UInt8}

theorem answer_of_spaces (hmethod : space ∉ method) (htarget : space ∉ target)
    (rest : List UInt8) :
    answer routes (method ++ space :: (target ++ space :: rest)) =
      answerTo routes method target := by
  simp [answer, splitFirst_append hmethod, splitFirst_append htarget]

theorem exists_spaces {text : List UInt8} (h : 2 ≤ text.count space) :
    ∃ method target rest, text = method ++ space :: (target ++ space :: rest) ∧
      space ∉ method ∧ space ∉ target := by
  obtain ⟨method, after, rfl, hmethod⟩ :=
    List.eq_append_cons_of_mem (List.count_pos_iff.mp (by omega : 0 < text.count space))
  have hafter : 0 < after.count space := by
    simp only [List.count_append, List.count_cons_self, List.count_eq_zero_of_not_mem hmethod] at h
    omega
  obtain ⟨target, rest, rfl, htarget⟩ := List.eq_append_cons_of_mem (List.count_pos_iff.mp hafter)
  exact ⟨method, target, rest, rfl, hmethod, htarget⟩

/-- A request is malformed exactly if it lacks one of the two spaces. -/
theorem answer_of_count {text : List UInt8} (h : text.count space < 2) :
    answer routes text = malformed := by
  unfold answer
  split
  · rfl
  · rename_i method rest hfirst
    obtain ⟨rfl, hmethod⟩ := eq_of_splitFirst hfirst
    have hrest : space ∉ rest := by
      rw [← List.count_eq_zero]
      simp only [List.count_append, List.count_cons_self] at h
      omega
    simp [splitFirst_eq_none.mpr hrest]

theorem handler_answerTo :
    (answerTo routes method target).handler.isSome ↔
      method = ascii "GET" ∧ (routes (beforeFirst (ascii "?") target)).isSome := by
  by_cases hmethod : method = ascii "GET"
  · cases hroute : routes (beforeFirst (ascii "?") target) <;> simp [answerTo, hmethod, hroute]
  · simp [answerTo, hmethod]

/-- A request with both spaces that runs no handler is not answered as a malformed one. -/
theorem status_answerTo (h : (answerTo routes method target).handler = none) :
    (answerTo routes method target).response.status ≠ 400 := by
  by_cases hmethod : method = ascii "GET"
  · cases hroute : routes (beforeFirst (ascii "?") target) with
    | none => simp [answerTo, hmethod, hroute]
    | some response => simp [answerTo, hmethod, hroute] at h
  · simp [answerTo, hmethod]

theorem routedLine_iff (hmethod : space ∉ method) (htarget : space ∉ target)
    (rest : List UInt8) :
    RoutedLine routes (method ++ space :: (target ++ space :: rest)) ↔
      method = ascii "GET" ∧ (routes (beforeFirst (ascii "?") target)).isSome := by
  constructor
  · rintro ⟨target', rest', hline, htarget', hroute⟩
    have hsplit := splitFirst_append hmethod (target ++ space :: rest)
    rw [hline, splitFirst_append (by decide)] at hsplit
    obtain ⟨rfl, hafter⟩ := Prod.mk.inj (Option.some.inj hsplit)
    have hsplit' := splitFirst_append htarget rest
    rw [← hafter, splitFirst_append htarget'] at hsplit'
    obtain ⟨rfl, -⟩ := Prod.mk.inj (Option.some.inj hsplit')
    exact ⟨rfl, hroute⟩
  · rintro ⟨rfl, hroute⟩
    exact ⟨target, rest, rfl, htarget, hroute⟩

/-- A routed line has both its spaces. -/
theorem RoutedLine.two_le_count {line : List UInt8} (h : RoutedLine routes line) :
    2 ≤ line.count space := by
  obtain ⟨target, rest, rfl, _, _⟩ := h
  simp only [List.count_append, List.count_cons_self]
  omega

theorem RoutedLine.append {line : List UInt8} (h : RoutedLine routes line) (more : List UInt8) :
    RoutedLine routes (line ++ more) := by
  obtain ⟨target, rest, rfl, htarget, hroute⟩ := h
  exact ⟨target, rest ++ more, by simp, htarget, hroute⟩

end Answers

namespace RequestHeader
variable (header : RequestHeader)

theorem requestLine_append (trailing : List UInt8) :
    requestLine (header.bytes ++ trailing) = requestLine header.bytes := by
  have hcrlf : crlf <:+: headerEnd := by decide
  exact beforeFirst_append (by decide) (hcrlf.trans header.ends.isInfix) trailing

variable {header} {server : HttpServer} {trailing : List UInt8}

/-- What follows the two spaces does not matter. -/
theorem answer_append {text method target rest : List UInt8} (hfront : text <+: header.bytes)
    (htext : text = method ++ space :: (target ++ space :: rest)) (hmethod : space ∉ method)
    (htarget : space ∉ target) (extra : List UInt8) :
    answer server.routes (header.bytes ++ extra) = answerTo server.routes method target := by
  obtain ⟨more, hmore⟩ := hfront
  rw [← hmore, htext]
  simpa using answer_of_spaces hmethod htarget (rest ++ (more ++ extra))

theorem packetIndependent_of_answer {result : Answer}
    (hanswer : ∀ k ≤ 1023, answer server.routes (header.bytes ++ trailing.take k) = result)
    (hrouted : result.handler.isSome ↔ RoutedLine server.routes (requestLine header.bytes)) :
    PacketIndependent server (header.bytes ++ trailing) where
  same hfirst hsecond := by
    obtain ⟨one, hle, hone⟩ := header.serveConnection_arrives server hfirst
    obtain ⟨other, hle', hother⟩ := header.serveConnection_arrives server hsecond
    rw [hanswer one hle] at hone
    rw [hanswer other hle'] at hother
    exact ⟨result, result, hone, hother, rfl, rfl⟩
  routed hreads hserved := by
    obtain ⟨k, hle, hk⟩ := header.serveConnection_arrives server hreads
    rw [hserved, hanswer k hle] at hk
    rw [Option.some.inj hk, requestLine_append]
    exact hrouted

theorem packetIndependent_of_line (h : 2 ≤ (requestLine header.bytes).count space) :
    PacketIndependent server (header.bytes ++ trailing) := by
  obtain ⟨method, target, rest, htext, hmethod, htarget⟩ := exists_spaces h
  refine packetIndependent_of_answer
    (fun k _ => answer_append (beforeFirst_isPrefix crlf _) htext hmethod htarget _) ?_
  rw [htext, handler_answerTo, routedLine_iff hmethod htarget]

theorem packetIndependent_of_header (h : 2 ≤ header.bytes.count space)
    (hunrouted : ¬ RoutedLine server.routes header.bytes) :
    PacketIndependent server (header.bytes ++ trailing) := by
  obtain ⟨method, target, rest, htext, hmethod, htarget⟩ := exists_spaces h
  refine packetIndependent_of_answer
    (fun k _ => answer_append (List.prefix_refl _) htext hmethod htarget _) ?_
  have hline : ¬ RoutedLine server.routes (requestLine header.bytes) := fun hrouted => by
    obtain ⟨more, hmore⟩ := beforeFirst_isPrefix crlf header.bytes
    exact hunrouted (hmore ▸ hrouted.append more)
  rw [htext, routedLine_iff hmethod htarget] at hunrouted
  rw [handler_answerTo, iff_false_right hline]
  exact hunrouted

theorem packetIndependent_of_malformed
    (h : (header.bytes ++ trailing.take 1023).count space < 2) :
    PacketIndependent server (header.bytes ++ trailing) := by
  refine packetIndependent_of_answer (fun k hle => answer_of_count (lt_of_le_of_lt ?_ h)) ?_
  · have hfront : trailing.take k <+: trailing.take 1023 := List.take_prefix_take_left hle
    exact ((List.prefix_append_right_inj header.bytes).mpr hfront).sublist.count_le space
  · have hline := (beforeFirst_isPrefix crlf header.bytes).trans
      (List.prefix_append header.bytes (trailing.take 1023))
    have hcount := hline.sublist.count_le space
    have hunrouted : ¬ RoutedLine server.routes (requestLine header.bytes) := fun hrouted => by
      have htwo := hrouted.two_le_count
      unfold requestLine at htwo
      omega
    simp [malformed, hunrouted]

/-- A handler must not run for a header that has its two spaces beyond the request line. -/
theorem not_routedLine_of_packetIndependent
    (h : PacketIndependent server (header.bytes ++ trailing))
    (hline : (requestLine header.bytes).count space < 2) :
    ¬ RoutedLine server.routes header.bytes := by
  rintro ⟨target, rest, htext, htarget, hroute⟩
  have hserved := header.serveConnection_arrival server [] trailing
  rw [List.append_nil, htext, answer_of_spaces (by decide) htarget] at hserved
  have hrouted := (h.routed (header.arrives_arrival [] trailing (by decide)) hserved).mp
    (handler_answerTo.mpr ⟨rfl, hroute⟩)
  rw [requestLine_append] at hrouted
  have htwo := hrouted.two_le_count
  omega

/-- Nor may a space that comes in one read with the end of the header be the second one. -/
theorem count_lt_of_packetIndependent (h : PacketIndependent server (header.bytes ++ trailing))
    (hheader : header.bytes.count space < 2) :
    (header.bytes ++ trailing.take 1023).count space < 2 := by
  by_contra hmany
  have harrives := header.arrives_arrival (trailing.take 1023) (trailing.drop 1023)
    (by rw [List.length_take]; omega)
  rw [List.take_append_drop] at harrives
  obtain ⟨one, other, hone, hother, hstatus, hhandler⟩ := h.same
    (header.arrives_arrival [] trailing (by decide)) harrives
  rw [serveConnection_arrival, List.append_nil, answer_of_count hheader] at hone
  obtain ⟨method, target, rest, htext, hmethod, htarget⟩ := exists_spaces (not_lt.mp hmany)
  rw [serveConnection_arrival, htext, answer_of_spaces hmethod htarget] at hother
  rw [← Option.some.inj hone, ← Option.some.inj hother] at hstatus hhandler
  exact status_answerTo hhandler.symm hstatus.symm

end RequestHeader

/-- Nothing that depends on the packets decides: the request line has both spaces, or the header has
them and no handler runs for it, or they do not even stand in the longest start of the stream that
may have been read when the header is complete. -/
def Decided (server : HttpServer) (stream : List UInt8) : Prop :=
  2 ≤ (requestLine stream).count space ∨
    2 ≤ (headerOf stream).count space ∧ ¬ RoutedLine server.routes (headerOf stream) ∨
    (stream.take ((headerOf stream).length + 1023)).count space < 2

open RequestHeader in
/-- Which streams a server answers in the same way however they arrive. -/
theorem packetIndependent_iff (server : HttpServer) {stream : List UInt8}
    (h : headerEnd <:+: stream.take kMaxRequestBytes) :
    PacketIndependent server stream ↔ Decided server stream := by
  obtain ⟨header, trailing, rfl⟩ := exists_header h
  rw [Decided, requestLine_append, headerOf_append, List.take_length_add_append]
  constructor
  · intro hindependent
    by_cases hline : 2 ≤ (requestLine header.bytes).count space
    · exact .inl hline
    by_cases hheader : 2 ≤ header.bytes.count space
    · exact .inr (.inl ⟨hheader, not_routedLine_of_packetIndependent hindependent (by omega)⟩)
    · exact .inr (.inr (count_lt_of_packetIndependent hindependent (by omega)))
  · rintro (hline | ⟨hheader, hunrouted⟩ | hfew)
    · exact packetIndependent_of_line hline
    · exact packetIndependent_of_header hheader hunrouted
    · exact packetIndependent_of_malformed hfew

/-- A server of the metrics answers a line without a second space as malformed however it arrives,
unless bytes with a space follow the header. -/
theorem packetIndependent_iff_metrics :
    let server := ({} : HttpServer).route (ascii "/metrics") {}
    PacketIndependent server (ascii "GET /metrics\r\n\r\n") ∧
      ¬ PacketIndependent server (ascii "GET /metrics\r\n\r\n x") ∧
      PacketIndependent server (ascii "PUT /metrics\r\nHost: x\r\n\r\n") ∧
      ¬ PacketIndependent server (ascii "GET /metrics?\r\nHost: x\r\n\r\n") := by
  intro server
  have hput : ¬ RoutedLine server.routes
      (headerOf (ascii "PUT /metrics\r\nHost: x\r\n\r\n")) := by
    rintro ⟨target, rest, hline, -⟩
    have hget : ascii "GET" <+: headerOf (ascii "PUT /metrics\r\nHost: x\r\n\r\n") :=
      ⟨_, hline.symm⟩
    exact absurd hget (by decide)
  have hquery : RoutedLine server.routes
      (headerOf (ascii "GET /metrics?\r\nHost: x\r\n\r\n")) :=
    ⟨ascii "/metrics?\r\nHost:", ascii "x\r\n\r\n", by decide, by decide, by decide⟩
  refine ⟨?_, ?_, ?_, ?_⟩
  · exact (packetIndependent_iff server (by decide)).mpr (.inr (.inr (by decide)))
  · rw [packetIndependent_iff server (by decide)]
    rintro (hline | ⟨hheader, -⟩ | hfew)
    · exact absurd hline (by decide)
    · exact absurd hheader (by decide)
    · exact absurd hfew (by decide)
  · exact (packetIndependent_iff server (by decide)).mpr (.inr (.inl ⟨by decide, hput⟩))
  · rw [packetIndependent_iff server (by decide)]
    rintro (hline | ⟨-, hunrouted⟩ | hfew)
    · exact absurd hline (by decide)
    · exact hunrouted hquery
    · exact absurd hfew (by decide)

/-- A request line that ends with its target. In two reads the answer is that the request is
malformed, in one read that the target is unknown. After a query the handler runs, for the second
space is found in a header field. -/
theorem answer_depends_on_packets :
    let server := ({} : HttpServer).route (ascii "/metrics") {}
    let stream := ascii "GET /metrics\r\n\r\n x"
    let parts := [ascii "GET /metrics\r\n\r\n", ascii " x"]
    let queried := ascii "GET /metrics?\r\nHost: x\r\n\r\n"
    Arrives stream parts ∧ Arrives stream [stream] ∧ Arrives queried [queried] ∧
    (server.serveConnection parts).2.map (·.response.status) = some 400 ∧
    (server.serveConnection [stream]).2.map (·.response.status) = some 404 ∧
    (server.serveConnection [queried]).2.map (·.handler) = some (some (ascii "/metrics")) ∧
    ¬ RoutedLine server.routes (requestLine queried) := by
  refine ⟨⟨by decide, by decide⟩, ⟨by decide, by decide⟩, ⟨by decide, by decide⟩, by decide,
    by decide, by decide, fun hrouted => ?_⟩
  exact absurd hrouted.two_le_count (by decide)

end SafeEdge.Edge
