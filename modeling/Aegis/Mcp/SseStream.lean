import Aegis.Lib.Chunked
import Aegis.Lib.EventStream
import Aegis.Lib.Json
import Aegis.Mcp.SseServer

/-! The bytes of an event stream: what `_handle_sse` writes, in the chunks of
`http_chunked_data_sink_impl` (`http_common_patch.cc`). -/
namespace Aegis.Mcp

def endpointText (sessionId : Bytes) : Bytes :=
  ascii "event: endpoint\ndata: /message?sessionId=" ++ sessionId ++ ascii "\n\n"

def messageText (msg : Bytes) : Bytes := ascii "data: " ++ msg ++ ascii "\n\n"

/-- All that the stream of a session has written. -/
def SseServer.streamText {cores : ℕ} (s : SseServer cores) (sessionId : Bytes) : Bytes :=
  endpointText sessionId ++ (s.net.taken sessionId).flatMap messageText

/-- `do_put`: an empty buffer is ignored. -/
def doPut (buf : Bytes) : Bytes :=
  if buf = [] then []
  else Chunked.hexSize buf.length ++ ascii "\r\n" ++ buf ++ ascii "\r\n"

/-- What the client makes of the endpoint event and of a message. -/
def endpointEvent (sessionId : Bytes) : EventStream.Event :=
  ⟨ascii "endpoint", ascii "/message?sessionId=" ++ sessionId⟩

def messageEvent (msg : Bytes) : EventStream.Event := ⟨ascii "message", msg⟩

theorem text_endpointEvent (sessionId : Bytes) :
    (endpointEvent sessionId).text = endpointText sessionId := by
  have hlines : (endpointEvent sessionId).lines = [ascii "event: endpoint",
      ascii "data: " ++ (ascii "/message?sessionId=" ++ sessionId), []] := by
    have htype : ascii "endpoint" ≠ ascii "message" := by decide
    unfold EventStream.Event.lines endpointEvent
    rw [if_neg htype]
    rfl
  have hend : ascii "\n\n" = [10] ++ [10] := by decide
  have hstart : ascii "event: endpoint\ndata: /message?sessionId=" =
      ascii "event: endpoint" ++ ([10] ++ (ascii "data: " ++ ascii "/message?sessionId=")) := by decide
  unfold EventStream.Event.text Fields.unlines endpointText
  rw [hlines, hend, hstart]
  simp only [List.flatMap_cons, List.flatMap_nil, List.append_assoc, List.append_nil, List.nil_append]

theorem text_messageEvent (msg : Bytes) : (messageEvent msg).text = messageText msg := by
  have hlines : (messageEvent msg).lines = [ascii "data: " ++ msg, []] := by
    unfold EventStream.Event.lines messageEvent
    rw [if_pos rfl, List.nil_append]
  have hend : ascii "\n\n" = [10] ++ [10] := by decide
  unfold EventStream.Event.text Fields.unlines messageText
  rw [hlines, hend]
  simp only [List.flatMap_cons, List.flatMap_nil, List.append_assoc, List.append_nil, List.nil_append]

theorem streamText_eq {cores : ℕ} (s : SseServer cores) (sessionId : Bytes) :
    s.streamText sessionId =
      (endpointEvent sessionId :: (s.net.taken sessionId).map messageEvent).flatMap
        EventStream.Event.text := by
  unfold SseServer.streamText
  rw [List.flatMap_cons, text_endpointEvent, List.flatMap_map]
  simp only [text_messageEvent]

/-- The buffers of the output stream as chunks: the empty ones are left out. -/
theorem doPut_eq (bufs : List Bytes) :
    bufs.flatMap doPut = (bufs.filter (· ≠ [])).flatMap Chunked.chunk := by
  induction bufs with
  | nil => rfl
  | cons buf bufs ih =>
    rw [List.flatMap_cons, ih]
    by_cases hbuf : buf = []
    · rw [List.filter_cons_of_neg (by simpa using hbuf), hbuf]
      rfl
    · rw [List.filter_cons_of_pos (by simpa using hbuf), List.flatMap_cons]
      congr 1
      exact if_neg hbuf

theorem flatten_filter_ne_nil (bufs : List Bytes) : (bufs.filter (· ≠ [])).flatten = bufs.flatten := by
  induction bufs with
  | nil => rfl
  | cons buf bufs ih =>
    by_cases hbuf : buf = []
    · rw [List.filter_cons_of_neg (by simpa using hbuf), ih, hbuf]
      rfl
    · rw [List.filter_cons_of_pos (by simpa using hbuf), List.flatten_cons, ih, List.flatten_cons]

/-- What was put is read back, and the reader goes on with what follows. -/
theorem decode_doPut (bufs : List Bytes) (fuel : ℕ) (rest : Bytes) :
    Chunked.decode ((bufs.filter (· ≠ [])).length + fuel) (bufs.flatMap doPut ++ rest) =
      (bufs.flatten ++ (Chunked.decode fuel rest).1, (Chunked.decode fuel rest).2) := by
  have hpieces : ∀ piece ∈ bufs.filter (· ≠ []), piece ≠ [] := by
    intro piece hmem
    simpa using (List.mem_filter.mp hmem).2
  rw [doPut_eq, Chunked.decode_chunks hpieces, flatten_filter_ne_nil]

theorem notMem_newId {b : UInt8} (hdigit : Strtoul.isDigit b = false) (hs : b ≠ 115) (hline : b ≠ 95)
    (core c : ℕ) : b ∉ SseTransport.httpSse.newId core c := by
  rw [SseTransport.newId_httpSse, List.mem_cons, List.mem_append, List.mem_cons]
  rintro (rfl | hmem | rfl | hmem)
  · exact hs rfl
  · exact SseTransport.notMem_decimal hdigit core hmem
  · exact hline rfl
  · exact SseTransport.notMem_decimal hdigit c hmem

theorem plain_endpointEvent (core c : ℕ) :
    (endpointEvent (SseTransport.httpSse.newId core c)).Plain where
  typed := by
    have hne : ascii "endpoint" ≠ [] := by decide
    exact hne
  type_line := by
    have hline : 10 ∉ ascii "endpoint" ∧ 13 ∉ ascii "endpoint" := by decide
    exact hline
  data_line := by
    have hline : 10 ∉ ascii "/message?sessionId=" ∧ 13 ∉ ascii "/message?sessionId=" := by decide
    unfold endpointEvent
    rw [List.mem_append, List.mem_append, not_or, not_or]
    exact ⟨⟨hline.1, notMem_newId (by decide) (by decide) (by decide) core c⟩,
      hline.2, notMem_newId (by decide) (by decide) (by decide) core c⟩

theorem plain_messageEvent {msg : Bytes} (h : 10 ∉ msg ∧ 13 ∉ msg) : (messageEvent msg).Plain where
  typed := by
    have hne : ascii "message" ≠ [] := by decide
    exact hne
  type_line := by
    have hline : 10 ∉ ascii "message" ∧ 13 ∉ ascii "message" := by decide
    exact hline
  data_line := h

section Received
variable {cores : ℕ} {floatText : FloatVal → Bytes}

/-- Only what was addressed to a session is popped by its stream. -/
theorem SseServer.addressed_of_taken {es : List (SseEvent cores)} {sessionId : Bytes} (hsession : sessionId ≠ []) {msg : Bytes}
    (h : msg ∈ ((machine cores).run es).net.taken sessionId) :
    ∃ e ∈ es, e.addressed sessionId = some msg := by
  have hmem : msg ∈ ((machine cores).run es).net.account sessionId := by
    unfold Mailbox.Network.account
    rw [Multiset.mem_add, Multiset.mem_add, Multiset.mem_add]
    exact Or.inl (Or.inl (Or.inl (Multiset.mem_coe.mpr h)))
  exact List.mem_filterMap.mp (Multiset.mem_coe.mp (Multiset.mem_of_le (account_run_le es hsession) hmem))

/-- The events of a stream stand on a line each, if its messages are dumps. -/
theorem plain_events (hfloat : ∀ x, 10 ∉ floatText x ∧ 13 ∉ floatText x) {es : List (SseEvent cores)}
    {sessionId : Bytes} {core c : ℕ}
    (hid : sessionId = SseTransport.httpSse.newId core c)
    (hmsgs : ∀ e ∈ es, ∀ msg, e.addressed sessionId = some msg → ∃ v, Json.dump floatText v = some msg) :
    ∀ e ∈ endpointEvent sessionId ::
      (((SseServer.machine cores).run es).net.taken sessionId).map messageEvent, e.Plain := by
  rw [List.forall_mem_cons, hid]
  refine ⟨plain_endpointEvent core c, fun e he => ?_⟩
  obtain ⟨msg, hmsg, rfl⟩ := List.mem_map.mp he
  obtain ⟨e, hmem, hadd⟩ := SseServer.addressed_of_taken (List.cons_ne_nil _ _) hmsg
  obtain ⟨v, hdump⟩ := hmsgs e hmem msg (hid ▸ hadd)
  exact plain_messageEvent ⟨Json.control_notMem_dump (by decide) (fun x => (hfloat x).1) v msg hdump,
    Json.control_notMem_dump (by decide) (fun x => (hfloat x).2) v msg hdump⟩

/-- Whatever buffers the output stream of a session makes of its text, and however much of
the chunked body has come through: the client parses the endpoint event, which names the
session, and after it the first of the messages that the stream popped, each as it was sent
and in this order; all of them once the body has come through. -/
theorem received_stream (hfloat : ∀ x, 10 ∉ floatText x ∧ 13 ∉ floatText x) {es : List (SseEvent cores)}
    {sessionId : Bytes} {core c : ℕ}
    (hid : sessionId = SseTransport.httpSse.newId core c)
    (hmsgs : ∀ e ∈ es, ∀ msg, e.addressed sessionId = some msg → ∃ v, Json.dump floatText v = some msg)
    {bufs : List Bytes} (hbufs : bufs.flatten = ((SseServer.machine cores).run es).streamText sessionId)
    {received missing : Bytes} (hreceived : received ++ missing = bufs.flatMap doPut) {fuel : ℕ}
    (hfuel : bufs.length ≤ fuel) :
    EventStream.parse (Chunked.decode fuel received).1 <+: endpointEvent sessionId ::
        (((SseServer.machine cores).run es).net.taken sessionId).map messageEvent ∧
      (missing = [] → EventStream.parse (Chunked.decode fuel received).1 = endpointEvent sessionId ::
        (((SseServer.machine cores).run es).net.taken sessionId).map messageEvent) := by
  have hplain := plain_events hfloat hid hmsgs
  have hpieces : (bufs.filter (· ≠ [])).length ≤ fuel := (List.length_filter_le _ _).trans hfuel
  obtain ⟨more, rfl⟩ := Nat.exists_eq_add_of_le hpieces
  have hbody : (Chunked.decode ((bufs.filter (· ≠ [])).length + more) (bufs.flatMap doPut)).1 =
      ((SseServer.machine cores).run es).streamText sessionId := by
    have hall := decode_doPut bufs more []
    rw [List.append_nil, Chunked.decode_nil] at hall
    rw [hall, List.append_nil, hbufs]
  have hparsed := EventStream.parse_flatMap_text hplain
  rw [← streamText_eq, ← hbody] at hparsed
  rw [← hparsed, ← hreceived]
  constructor
  · obtain ⟨rest, hrest⟩ := Chunked.decode_prefix ((bufs.filter (· ≠ [])).length + more) received missing
    rw [← hrest]
    apply EventStream.parse_prefix
    rw [hrest, hreceived, hbody, streamText_eq]
    exact EventStream.return_notMem_text hplain
  · rintro rfl
    rw [List.append_nil]

theorem received_stream_sample :
    EventStream.parse (Chunked.decode 2 (([endpointText (ascii "s0_1"), messageText (ascii "null")].flatMap doPut))).1 =
      [endpointEvent (ascii "s0_1"), messageEvent (ascii "null")] := by
  have hdump : Json.dump (fun _ => []) .null = some (ascii "null") := rfl
  have hmsgs : ∀ e ∈ [@SseEvent.connect 1 0, .respond 0 (ascii "s0_1") (ascii "null"),
      .pop 0 (ascii "s0_1")], ∀ msg, e.addressed (ascii "s0_1") = some msg →
        ∃ v, Json.dump (fun _ => []) v = some msg := by
    simp only [List.forall_mem_cons]
    refine ⟨fun msg h => ?_, fun msg h => ?_, fun msg h => ?_, List.forall_mem_nil _⟩
    · cases h
    · exact ⟨.null, hdump.trans h⟩
    · cases h
  have hid : ascii "s0_1" = SseTransport.httpSse.newId 0 1 := by decide
  have hbufs : [endpointText (ascii "s0_1"), messageText (ascii "null")].flatten =
      ((SseServer.machine 1).run [.connect 0, .respond 0 (ascii "s0_1") (ascii "null"),
        .pop 0 (ascii "s0_1")]).streamText (ascii "s0_1") := by decide
  exact (received_stream (fun _ => ⟨List.not_mem_nil, List.not_mem_nil⟩) hid hmsgs hbufs
    (List.append_nil _) le_rfl).2 rfl

end Received

end Aegis.Mcp
