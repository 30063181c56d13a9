import SafeEdge.Edge.HttpServer
import SafeEdge.Library.Decimal
import SafeEdge.Library.Framing

/-! The response on its way to the client: the writes of the server, and what a client makes of
the bytes that reach it. -/
namespace SafeEdge.Edge
open Library

/-- The lines of the head. -/
def HttpResponse.headLines (response : HttpResponse) : List (List UInt8) :=
  [ascii "HTTP/1.1 " ++ ascii (toString response.status) ++ [space] ++
      reasonPhrase response.status,
    ascii "Content-Type: " ++ response.contentType,
    ascii "Content-Length: " ++ ascii (toString response.body.length),
    ascii "Connection: close"]

/-- The head is written, and the body after it if the whole head went out. -/
def HttpResponse.transmit (response : HttpResponse) (rooms : List (Option ℕ)) : Written UInt8 :=
  let head := writeAll response.head rooms
  if head.complete then
    let body := writeAll response.body head.rooms
    { body with bytes := head.bytes ++ body.bytes }
  else head

section Client

def bytesOf (text : List Char) : List UInt8 := text.map Char.toUInt8

/-- The characters that bytes stand for. -/
def characters (bytes : List UInt8) : List Char := bytes.map Char.ofUInt8

/-- The value of the first header field of the given name. -/
def fieldValue (name : List UInt8) (lines : List (List UInt8)) : Option (List UInt8) :=
  lines.findSome? fun line =>
    if name ++ ascii ": " <+: line then some (line.drop (name ++ ascii ": ").length) else none

/-- The number in a status line. -/
def statusOf (line : List UInt8) : Option ℤ :=
  if ascii "HTTP/1.1 " <+: line then
    (splitFirst space (line.drop 9)).bind fun split => readInt (characters split.1)
  else none

/-- What a client makes of the bytes it has received when the connection is closed. A body shorter
than announced is no response. -/
def readResponse (bytes : List UInt8) : Option HttpResponse := do
  let (lines, rest) ← readLines 13 10 [] bytes
  let status ← statusOf (← lines.head?)
  let contentType ← fieldValue (ascii "Content-Type") lines
  let length ← readNat (characters (← fieldValue (ascii "Content-Length") lines))
  if length ≤ rest.length then some { status, contentType, body := rest.take length } else none

end Client

theorem ofUInt8_toUInt8 {c : Char} (h : c.toNat < 256) : Char.ofUInt8 c.toUInt8 = c := by
  apply Char.ext
  apply UInt32.toNat_inj.mp
  change c.val.toUInt8.toUInt32.toNat = c.val.toNat
  rw [UInt8.toNat_toUInt32, UInt32.toNat_toUInt8]
  exact Nat.mod_eq_of_lt h

theorem characters_bytesOf {text : List Char} (h : ∀ c ∈ text, c.toNat < 256) :
    characters (bytesOf text) = text := by
  rw [characters, bytesOf, List.map_map]
  exact (List.map_congr_left fun c hc => ofUInt8_toUInt8 (h c hc)).trans (List.map_id _)

theorem characters_ascii {text : String} (h : ∀ c ∈ text.toList, c.toNat < 256) :
    characters (ascii text) = text.toList :=
  characters_bytesOf h

theorem notMem_ascii {text : String} (h : ∀ c ∈ text.toList, c.toNat < 256) {byte : UInt8}
    (hbyte : Char.ofUInt8 byte ∉ text.toList) : byte ∉ ascii text := by
  intro hmem
  rw [← characters_ascii h] at hbyte
  exact hbyte (List.mem_map_of_mem hmem)

theorem toList_toString_int (z : ℤ) : (toString z).toList = intText z := by
  cases z with
  | ofNat n => simp [intText, toString, Int.repr]
  | negSucc n => simp [intText, toString, Int.repr]

theorem toNat_lt_of_isDigit {c : Char} (h : c.isDigit = true) : c.toNat < 256 :=
  (Char.isDigit_iff_toNat.mp h).2.trans_lt (by decide)

theorem toNat_lt_of_mem_intText {z : ℤ} {c : Char} (h : c ∈ intText z) : c.toNat < 256 := by
  rcases mem_intText h with rfl | hdigit
  · decide
  · exact toNat_lt_of_isDigit hdigit

/-- The text of a number as bytes: it is read back, and has nothing in it but digits and a sign. -/
theorem ascii_toString_int (z : ℤ) : characters (ascii (toString z)) = intText z ∧
    (13 : UInt8) ∉ ascii (toString z) ∧ space ∉ ascii (toString z) := by
  have hchars : ∀ c ∈ (toString z).toList, c.toNat < 256 := by
    rw [toList_toString_int]
    exact fun c hc => toNat_lt_of_mem_intText hc
  refine ⟨(characters_ascii hchars).trans (toList_toString_int z), notMem_ascii hchars ?_,
    notMem_ascii hchars ?_⟩
  · rw [toList_toString_int]
    exact fun hmem => absurd (mem_intText hmem) (by decide)
  · rw [toList_toString_int]
    exact fun hmem => absurd (mem_intText hmem) (by decide)

theorem toString_natCast (n : ℕ) : toString n = toString (n : ℤ) := rfl

theorem reasonPhrase_plain (status : ℤ) : (13 : UInt8) ∉ reasonPhrase status := by
  unfold reasonPhrase
  split_ifs <;> decide

/-- A name that differs from a text in the latter's range does not begin any longer text. -/
theorem not_isPrefix_append {name front : List UInt8} (h : ¬ name.take front.length <+: front)
    (rest : List UInt8) : ¬ name <+: front ++ rest := by
  intro hname
  refine h (List.prefix_of_prefix_length_le ((List.take_prefix _ _).trans hname)
    (List.prefix_append _ rest) ?_)
  simp

namespace HttpResponse
variable (response : HttpResponse)

theorem head_eq : response.head = unlines 13 10 response.headLines := by
  have hcrlf : crlf = [13, 10] := by decide
  have hlast : ascii "Connection: close\r\n\r\n" =
      ascii "Connection: close" ++ [13, 10] ++ [13, 10] := by decide
  simp [head, headLines, unlines, hcrlf, hlast]

variable {response}

theorem headLines_plain (htype : 13 ∉ response.contentType) :
    ∀ line ∈ response.headLines, line ≠ [] ∧ 13 ∉ line := by
  have hstatus := (ascii_toString_int response.status).2.1
  have hlength := (ascii_toString_int response.body.length).2.1
  have hreason := reasonPhrase_plain response.status
  rw [← toString_natCast] at hlength
  have hversion : (13 : UInt8) ∉ ascii "HTTP/1.1 " := by decide
  have htypeName : (13 : UInt8) ∉ ascii "Content-Type: " := by decide
  have hlengthName : (13 : UInt8) ∉ ascii "Content-Length: " := by decide
  have hclose : (13 : UInt8) ∉ ascii "Connection: close" := by decide
  have hspace : (13 : UInt8) ∉ [space] := by decide
  intro line hline
  simp only [headLines, List.mem_cons, List.not_mem_nil, or_false] at hline
  rcases hline with rfl | rfl | rfl | rfl
  · exact ⟨by simp [ascii], by simp_all⟩
  · exact ⟨by simp [ascii], by simp_all⟩
  · exact ⟨by simp [ascii], by simp_all⟩
  · exact ⟨by decide, hclose⟩

variable (response)

theorem statusOf_headLine :
    statusOf (ascii "HTTP/1.1 " ++ ascii (toString response.status) ++ [space] ++
      reasonPhrase response.status) = some response.status := by
  obtain ⟨hchars, _, hspace⟩ := ascii_toString_int response.status
  have hline : ascii "HTTP/1.1 " ++ ascii (toString response.status) ++ [space] ++
      reasonPhrase response.status = ascii "HTTP/1.1 " ++
        (ascii (toString response.status) ++ space :: reasonPhrase response.status) := by simp
  have hversion : (ascii "HTTP/1.1 ").length = 9 := by decide
  rw [hline, statusOf, if_pos (List.prefix_append _ _), List.drop_left' hversion,
    splitFirst_append hspace, Option.bind_some, hchars, readInt_intText]

theorem fieldValue_contentType :
    fieldValue (ascii "Content-Type") response.headLines = some response.contentType := by
  have hname : ascii "Content-Type" ++ ascii ": " = ascii "Content-Type: " := by decide
  have hstatus := @not_isPrefix_append (ascii "Content-Type: ") (ascii "HTTP/1.1 ") (by decide)
  simp [fieldValue, headLines, hname, hstatus]

theorem fieldValue_contentLength :
    fieldValue (ascii "Content-Length") response.headLines =
      some (ascii (toString response.body.length)) := by
  have hname : ascii "Content-Length" ++ ascii ": " = ascii "Content-Length: " := by decide
  have hstatus := @not_isPrefix_append (ascii "Content-Length: ") (ascii "HTTP/1.1 ") (by decide)
  have htype :=
    @not_isPrefix_append (ascii "Content-Length: ") (ascii "Content-Type: ") (by decide)
  simp [fieldValue, headLines, hname, hstatus, htype]

variable {response}

/-- With the whole head at hand the length of the body decides. -/
theorem readResponse_head (htype : 13 ∉ response.contentType) (rest : List UInt8) :
    readResponse (response.head ++ rest) =
      if response.body.length ≤ rest.length then
        some { response with body := rest.take response.body.length }
      else none := by
  obtain ⟨hlength, _, _⟩ := ascii_toString_int response.body.length
  rw [← toString_natCast] at hlength
  have hnumber : readNat (characters (ascii (toString response.body.length))) =
      some response.body.length := by
    rw [hlength]
    exact readNat_toDigits _
  rw [readResponse, head_eq, readLines_unlines (headLines_plain htype)]
  have hfirst : response.headLines.head? = some (ascii "HTTP/1.1 " ++
      ascii (toString response.status) ++ [space] ++ reasonPhrase response.status) := rfl
  simp only [Option.bind_eq_bind, Option.bind_some, hfirst, statusOf_headLine,
    fieldValue_contentType, fieldValue_contentLength, hnumber]

/-- A client that has received part of the text knows it. -/
theorem readResponse_of_isPrefix (htype : 13 ∉ response.contentType) {bytes : List UInt8}
    (hstart : bytes <+: response.text) :
    readResponse bytes = if bytes = response.text then some response else none := by
  rw [text] at hstart ⊢
  by_cases hhead : response.head <+: bytes
  · obtain ⟨rest, rfl⟩ := hhead
    have hrest : rest <+: response.body := (List.prefix_append_right_inj _).mp hstart
    rw [readResponse_head htype]
    by_cases hwhole : rest = response.body
    · simp [hwhole]
    · have hshort : rest.length < response.body.length :=
        hrest.length_le.lt_of_ne fun heq => hwhole (hrest.eq_of_length heq)
      rw [if_neg (by omega), if_neg fun heq => hwhole (List.append_cancel_left heq)]
  · have hpart : bytes <+: response.head ∧ bytes ≠ response.head := by
      refine ⟨?_, fun heq => hhead (heq ▸ List.prefix_refl _)⟩
      exact (List.prefix_or_prefix_of_prefix hstart (List.prefix_append _ _)).resolve_right hhead
    have hnone : readLines 13 10 [] bytes = none := by
      rw [head_eq] at hpart
      exact readLines_truncated (headLines_plain htype) hpart.1 hpart.2
    have hshort : bytes ≠ response.head ++ response.body := by
      rintro rfl
      exact hhead (List.prefix_append _ _)
    rw [if_neg hshort, readResponse, hnone]
    rfl

/-- A start of the text goes out. -/
theorem transmit_spec (response : HttpResponse) (rooms : List (Option ℕ)) :
    (response.transmit rooms).bytes <+: response.text ∧
      ((response.transmit rooms).complete = true ↔
        (response.transmit rooms).bytes = response.text) := by
  obtain ⟨hhead, hwhole⟩ := writeAll_spec response.head rooms
  rw [text, transmit]
  split_ifs with hcomplete
  · rw [hwhole.mp hcomplete]
    obtain ⟨hbody, hwholeBody⟩ := writeAll_spec response.body (writeAll response.head rooms).rooms
    refine ⟨(List.prefix_append_right_inj _).mpr hbody, ?_⟩
    rw [List.append_cancel_left_eq]
    exact hwholeBody
  · refine ⟨hhead.trans (List.prefix_append _ _), iff_of_false hcomplete fun heq => ?_⟩
    have hlength : response.head.length ≤ (writeAll response.head rooms).bytes.length := by
      rw [heq, List.length_append]
      exact Nat.le_add_right _ _
    exact hcomplete (hwhole.mpr (hhead.eq_of_length_le hlength))

/-- The client reads the response if all of it went out, and otherwise knows that it did not. -/
theorem readResponse_transmit (htype : 13 ∉ response.contentType) (rooms : List (Option ℕ)) :
    readResponse (response.transmit rooms).bytes =
      if (response.transmit rooms).complete then some response else none := by
  obtain ⟨hstart, hwhole⟩ := response.transmit_spec rooms
  rw [readResponse_of_isPrefix htype hstart]
  simp only [hwhole]

/-- Where no write fails the whole text goes out. -/
theorem transmit_complete {rooms : List (Option ℕ)}
    (hrooms : ∀ room ∈ rooms, ∃ space, room = some (space + 1))
    (hlength : response.text.length ≤ rooms.length) :
    (response.transmit rooms).complete = true := by
  rw [text, List.length_append] at hlength
  have hhead : (writeAll response.head rooms).complete = true :=
    writeAll_complete hrooms (by omega)
  obtain ⟨hsuffix, hleft⟩ := writeAll_rooms response.head rooms
  rw [transmit, if_pos hhead]
  exact writeAll_complete (fun room hroom => hrooms room (hsuffix.subset hroom)) (by omega)

end HttpResponse

/-- The response is a handler's or one of three fixed ones. -/
theorem answer_response {routes : List UInt8 → Option HttpResponse} {P : HttpResponse → Prop}
    (hmalformed : P malformed.response)
    (hmethod : P { status := 405, body := ascii "only GET is supported\n" })
    (hmissing : P { status := 404, body := ascii "no such endpoint\n" })
    (hroutes : ∀ path response, routes path = some response → P response)
    (request : List UInt8) : P (answer routes request).response := by
  unfold answer
  split
  · exact hmalformed
  · split
    · exact hmalformed
    · simp only [answerTo]
      split_ifs
      · exact hmethod
      · split
        next response hroute => exact hroutes _ response hroute
        next => exact hmissing

/-- Only a handler can set another content type. -/
theorem answer_contentType {routes : List UInt8 → Option HttpResponse}
    (hroutes : ∀ path response, routes path = some response → 13 ∉ response.contentType)
    (request : List UInt8) : 13 ∉ (answer routes request).response.contentType := by
  have hplain : (13 : UInt8) ∉ ascii "text/plain; charset=utf-8" := by decide
  exact answer_response hplain hplain hplain hroutes request

/-- However the request has arrived and however the connection takes the answer, the client reads
exactly the server's answer, or knows that it has not received all of it. Where no write fails it
reads the answer. -/
theorem client_reads_answer (server : HttpServer)
    (hroutes : ∀ path response, server.routes path = some response → 13 ∉ response.contentType)
    (reads : List (List UInt8)) (answer : Answer)
    (hanswer : (server.serveConnection reads).2 = some answer) (rooms : List (Option ℕ)) :
    (answer.response.transmit rooms).bytes <+: answer.response.text ∧
    readResponse (answer.response.transmit rooms).bytes =
      (if (answer.response.transmit rooms).complete then some answer.response else none) ∧
    ((∀ room ∈ rooms, ∃ space, room = some (space + 1)) →
      answer.response.text.length ≤ rooms.length →
      readResponse (answer.response.transmit rooms).bytes = some answer.response) := by
  have htype : 13 ∉ answer.response.contentType := by
    unfold HttpServer.serveConnection at hanswer
    split at hanswer
    · cases hanswer
    next request _ =>
      rw [← Option.some.inj hanswer]
      exact answer_contentType hroutes request
  have hread := HttpResponse.readResponse_transmit htype rooms
  refine ⟨(answer.response.transmit_spec rooms).1, hread, fun hrooms hlength => ?_⟩
  rw [hread, if_pos (HttpResponse.transmit_complete hrooms hlength)]

/-- A server with one route. -/
def okServer : HttpServer := ({} : HttpServer).route (ascii "/healthz") { body := ascii "ok\n" }

theorem okServer_response {path : List UInt8} {response : HttpResponse}
    (hroute : okServer.routes path = some response) : response = { body := ascii "ok\n" } := by
  simp only [okServer, HttpServer.route, Function.update_apply] at hroute
  split_ifs at hroute
  exact (Option.some.inj hroute).symm

/-- The head goes out in three writes, and nothing of the body does. -/
theorem client_reads_answer_cutOff :
    readResponse (HttpResponse.transmit { body := ascii "ok\n" }
      [some 10, some 7, some 200, none]).bytes = none := by
  have hserved : (okServer.serveConnection [ascii "GET /healthz HTTP/1.1\r\n\r\n"]).2 =
      some { handler := some (ascii "/healthz"), response := { body := ascii "ok\n" } } := by
    decide
  have hplain (path : List UInt8) (response : HttpResponse)
      (hroute : okServer.routes path = some response) : 13 ∉ response.contentType := by
    rw [okServer_response hroute]
    decide
  exact (client_reads_answer okServer hplain _ _ hserved [some 10, some 7, some 200, none]).2.1

end SafeEdge.Edge
