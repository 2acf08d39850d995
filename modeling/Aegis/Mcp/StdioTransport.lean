import Aegis.Lib.Transducer
import Aegis.Mcp.Dispatcher

/-! The thread that reads requests from stdin, `stdio_transport.hh`. -/
namespace Aegis.Mcp

/-- A line of stdin, and the machine while the line is handled. -/
structure LineIn where
  host : Host
  line : Bytes

/-- An exception ends the thread; nothing is said about the thread after undefined behaviour. -/
inductive Status where
  | serving
  | ended
  | undefined

structure Loop where
  status : Status
  firewall : Firewall

/-- The loop over the lines, as long as no stop is requested, with its insertions into stdout. -/
def stdioLoop (S : Server) : Transducer Loop LineIn (List Bytes) where
  init := ⟨.serving, {}⟩
  step s i :=
    match s.status with
    | .serving =>
      if i.line = [] then (s, [])
      else
        match S.handleRequest i.host i.line s.firewall with
        | ⟨fw, log, .returns (some result)⟩ => (⟨.serving, fw⟩, log ++ [result, ascii "\n"])
        | ⟨fw, log, .returns none⟩ => (⟨.serving, fw⟩, log)
        | ⟨fw, log, .throws _⟩ => (⟨.ended, fw⟩, log)
        | ⟨fw, log, .undefined⟩ => (⟨.undefined, fw⟩, log)
    | _ => (s, [])

theorem after_ended (S : Server) (fw : Firewall) (later : List LineIn) :
    (stdioLoop S).after ⟨.ended, fw⟩ later = ⟨.ended, fw⟩ := by
  induction later with
  | nil => rfl
  | cons i later ih => exact ih

/-- Once the thread has ended, no line is answered. -/
theorem ended_silent (S : Server) (fw : Firewall) (later : List LineIn) :
    (stdioLoop S).outputs ⟨.ended, fw⟩ later = later.map fun _ => [] := by
  induction later with
  | nil => rfl
  | cons i later ih =>
    rw [Transducer.outputs_cons, List.map_cons]
    exact congrArg _ ih

/-- A `tools/call` of `analyze_process_behavior` with a pid that converts to `int`. -/
structure AnalyzeRequest (S : Server) where
  line : Bytes
  request : Json Bytes
  parsed : S.parse line = some request
  version : request.field (ascii "jsonrpc") = some (.str (ascii "2.0"))
  method : request.field (ascii "method") = some (.str (ascii "tools/call"))
  id : Json Bytes
  hasId : request.field (ascii "id") = some id
  call : ToolCall
  hasParams : request.field (ascii "params") = some call.params
  analyzes : call.tool = .osTools
  pidArg : Json Bytes
  hasPid : call.arguments.field (ascii "pid") = some pidArg
  pid : ℤ
  isInt : toInt S.truncate pidArg = .returns pid

namespace AnalyzeRequest
variable {S : Server} (r : AnalyzeRequest S) (host : Host) (fw : Firewall)

def reply : Json Bytes :=
  match host.cmdline r.pid with
  | none => OsTools.notFound
  | some content => OsTools.analysed (content.map OsTools.blanked)

/-- The command line of the process cannot be opened, or is UTF-8. -/
def Readable : Prop := ∀ content, host.cmdline r.pid = some content → Text.isUtf8 content

/-! The handling of the line comes down to the dump of one response. -/

theorem execute_eq : r.call.tool.execute S.truncate host r.call.arguments =
    .lift (.returns (r.reply host)) := by
  have hexecute : OsTools.execute S.truncate host.cmdline r.call.arguments =
      .returns (r.reply host) := by
    unfold OsTools.execute reply
    rw [constIndex_eq r.hasPid, Completion.returns_bind, r.isInt, Completion.mapError,
      Completion.returns_bind]
    cases host.cmdline r.pid <;> rfl
  rw [r.analyzes, ← hexecute]
  rfl

theorem reply_object : ∃ fields, r.reply host = .obj fields := by
  unfold reply
  cases host.cmdline r.pid with
  | none => exact ⟨_, rfl⟩
  | some content => exact ⟨_, rfl⟩

theorem exists_withIsError : ∃ w, withIsError (r.reply host) = .returns w := by
  obtain ⟨fields, hfields⟩ := r.reply_object host
  rw [hfields]
  rcases withIsError_cases fields with hw | hw
  · exact ⟨_, hw⟩
  · exact ⟨_, hw⟩

theorem isRequest_request : Server.isRequest r.request := by
  unfold Server.isRequest
  rw [r.version, r.method]
  rfl

theorem findMethod_toolsCall : S.findMethod host (ascii "tools/call") = some (S.toolsCall host) :=
  if_pos rfl

theorem handleSingle_eq : S.handleSingle host r.request =
    S.respond r.id r.call.params (S.toolsCall host r.call.params) >>= S.dumped := by
  unfold Server.handleSingle
  rw [if_pos r.isRequest_request, constIndex_eq r.method, Completion.returns_bind, toStdString,
    Routine.lift_returns_bind, valueOr_eq r.hasParams, Routine.lift_returns_bind, r.hasId]
  dsimp only
  rw [findMethod_toolsCall]

theorem handleRequest_eq : S.handleRequest host r.line =
    S.respond r.id r.call.params (S.toolsCall host r.call.params) >>= S.dumped := by
  have hid := r.hasId
  unfold Server.handleRequest
  rw [r.parsed, ← r.handleSingle_eq]
  cases hreq : r.request with
  | arr elems =>
    rw [hreq] at hid
    cases hid
  | null | bool | int | float | str | obj => rfl

theorem isSome_dump_reply : ((r.reply host).dump S.floatText).isSome ↔ r.Readable host := by
  unfold reply Readable
  cases host.cmdline r.pid with
  | none => exact iff_of_true OsTools.isSome_dump_notFound fun _ h => absurd h (by simp)
  | some content =>
    show ((OsTools.analysed _).dump S.floatText).isSome ↔ _
    rw [OsTools.isSome_dump_analysed, OsTools.isUtf8_blanked]
    simp

theorem isSome_dump_id : (r.id.dump S.floatText).isSome :=
  Json.isSome_dump_field r.hasId (S.parse_hasText r.line r.request r.parsed)

theorem respond_eq {w : Json Bytes} (hw : withIsError (r.reply host) = .returns w) :
    S.respond r.id r.call.params (S.toolsCall host r.call.params) =
      .lift (.returns (resultResponse r.id w)) := by
  unfold Server.respond
  rw [ToolCall.toolsCall_eq, callTool, findTool_getName]
  dsimp only
  rw [r.execute_eq host, Routine.lift_returns_bind, hw]
  rfl

/-- The line is answered by one response; if that has no text, the thread ends. -/
theorem step_eq : ∃ w, ((w.dump S.floatText).isSome ↔ ((r.reply host).dump S.floatText).isSome) ∧
    (stdioLoop S).step ⟨.serving, fw⟩ ⟨host, r.line⟩ =
      match (resultResponse r.id w).dump S.floatText with
      | some text => (⟨.serving, fw⟩, [text, ascii "\n"])
      | none => (⟨.ended, fw⟩, []) := by
  obtain ⟨w, hw⟩ := r.exists_withIsError host
  refine ⟨w, isSome_dump_withIsError hw (r.reply_object host), ?_⟩
  have hline : r.line ≠ [] := by
    intro h
    have hparsed := r.parsed
    rw [h, S.parse_nil] at hparsed
    cases hparsed
  have hhandled : S.handleRequest host r.line fw = S.dumped (resultResponse r.id w) fw := by
    rw [handleRequest_eq, respond_eq r host hw, Routine.lift_returns_bind]
  unfold stdioLoop
  dsimp only
  rw [if_neg hline, hhandled]
  unfold Server.dumped
  rw [Routine.lift_apply]
  cases (resultResponse r.id w).dump S.floatText <;> rfl

/-- The thread writes a response that carries the id, and goes on with the next line. -/
def Served : Prop :=
  (∃ (response : Json Bytes) (text : Bytes), response.dump S.floatText = some text ∧
    ((stdioLoop S).step ⟨.serving, fw⟩ ⟨host, r.line⟩).2 = [text, ascii "\n"] ∧
    response.field (ascii "id") = some r.id ∧
    ((response.field (ascii "result")).isSome ∨ (response.field (ascii "error")).isSome)) ∧
  ((stdioLoop S).step ⟨.serving, fw⟩ ⟨host, r.line⟩).1.status = .serving

theorem served_iff_hasText : r.Served host fw ↔ ((r.reply host).dump S.floatText).isSome := by
  obtain ⟨w, hw, hstep⟩ := r.step_eq host fw
  rw [← hw, ← isSome_dump_resultResponse r.isSome_dump_id]
  unfold Served
  rw [hstep]
  cases htext : (resultResponse r.id w).dump S.floatText with
  | none => simp
  | some text =>
    refine iff_of_true ⟨⟨resultResponse r.id w, text, htext, rfl, ?_, Or.inl ?_⟩, rfl⟩ rfl
    · exact Json.field_object _ _
    · exact Option.isSome_iff_exists.mpr ⟨w, Json.field_object _ _⟩

theorem after_step : (stdioLoop S).step ⟨.serving, fw⟩ ⟨host, r.line⟩ =
      (⟨.serving, fw⟩, ((stdioLoop S).step ⟨.serving, fw⟩ ⟨host, r.line⟩).2) ∧ r.Readable host ∨
    (stdioLoop S).step ⟨.serving, fw⟩ ⟨host, r.line⟩ = (⟨.ended, fw⟩, []) ∧ ¬ r.Readable host := by
  obtain ⟨w, hw, hstep⟩ := r.step_eq host fw
  rw [← isSome_dump_reply, ← hw, ← isSome_dump_resultResponse r.isSome_dump_id, hstep]
  cases htext : (resultResponse r.id w).dump S.floatText with
  | none => exact Or.inr ⟨rfl, by simp⟩
  | some text => exact Or.inl ⟨rfl, rfl⟩

/-- The first process that cannot be read ends the thread, which writes nothing from then on. -/
theorem silent_of_unreadable (h : ¬ r.Readable host) (later : List LineIn) :
    (stdioLoop S).outputs ⟨.serving, fw⟩ (⟨host, r.line⟩ :: later) = [] :: later.map fun _ => [] := by
  rcases r.after_step host fw with ⟨-, hreadable⟩ | ⟨hstep, -⟩
  · exact absurd hreadable h
  · rw [Transducer.outputs_cons, hstep, ended_silent]

/-- A thread that has been asked about processes is still serving if each could be read. -/
theorem serving_after_iff (rs : List (Host × AnalyzeRequest S)) :
    ((stdioLoop S).after ⟨.serving, fw⟩ (rs.map fun p => ⟨p.1, p.2.line⟩)).status = .serving ↔
      ∀ p ∈ rs, p.2.Readable p.1 := by
  induction rs with
  | nil => exact iff_of_true rfl (List.forall_mem_nil _)
  | cons p rs ih =>
    rw [List.map_cons, Transducer.after_cons, List.forall_mem_cons]
    rcases p.2.after_step p.1 fw with ⟨hstep, hreadable⟩ | ⟨hstep, hunreadable⟩
    · rw [hstep, and_iff_right hreadable]
      exact ih
    · rw [hstep, after_ended]
      exact iff_of_false (fun h => nomatch h) fun h => hunreadable h.1

/-- A process can be analysed exactly when its command line is UTF-8 or cannot be read. Over
runs: the thread goes on exactly as long as it is asked about such processes, and after the
first other one nothing is answered any more. -/
theorem served_iff : (r.Served host fw ↔ r.Readable host) ∧
    (∀ rs : List (Host × AnalyzeRequest S),
      ((stdioLoop S).after ⟨.serving, fw⟩ (rs.map fun p => ⟨p.1, p.2.line⟩)).status = .serving ↔
        ∀ p ∈ rs, p.2.Readable p.1) ∧
    (¬ r.Readable host → ∀ later : List LineIn,
      (stdioLoop S).outputs ⟨.serving, fw⟩ (⟨host, r.line⟩ :: later) = [] :: later.map fun _ => []) :=
  ⟨(r.served_iff_hasText host fw).trans (r.isSome_dump_reply host), serving_after_iff fw,
    r.silent_of_unreadable host fw⟩

end AnalyzeRequest

def sampleAnalyze : AnalyzeRequest sampleServer where
  line := analyzeLine
  request := sampleRequest analyzeParams
  parsed := by
    have hparse : sampleServer.parse = sampleParse := rfl
    rw [hparse, sampleParse_analyzeLine]
  version := Json.field_object _ _
  method := Json.field_object _ _
  id := .int 7
  hasId := Json.field_object _ _
  call := ⟨.osTools, analyzeParams, by decide +kernel⟩
  hasParams := Json.field_object _ _
  analyzes := rfl
  pidArg := .int 4242
  hasPid := rfl
  pid := 4242
  isInt := congrArg Completion.returns (by decide)

/-- One byte of the command line that is not UTF-8 ends the thread. -/
theorem unreadable_cmdline_ends_thread :
    ¬ sampleAnalyze.Served (sampleHost [0x61, 0x00, 0xFF, 0x00]) {} := by
  rw [AnalyzeRequest.served_iff_hasText, AnalyzeRequest.isSome_dump_reply]
  intro h
  have hutf8 := h [0x61, 0x00, 0xFF, 0x00] rfl
  revert hutf8
  decide +kernel

end Aegis.Mcp
