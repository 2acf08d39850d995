import Aegis.Mcp.Registry

/-! The JSON-RPC dispatcher, `dispatcher.hh`, and the handler of `tools/call`. -/
namespace Aegis.Mcp

def parseError : ℤ := -32700
def invalidRequest : ℤ := -32600
def methodNotFound : ℤ := -32601
def internalError : ℤ := -32603

def errorObject (code : ℤ) (message : Bytes) (data : Json Bytes) : Json Bytes :=
  .object [(ascii "code", .int code), (ascii "message", .str message), (ascii "data", data)]

def resultResponse (id result : Json Bytes) : Json Bytes :=
  .object [(ascii "jsonrpc", .str (ascii "2.0")), (ascii "id", id), (ascii "result", result)]

def errorResponse (id error : Json Bytes) : Json Bytes :=
  .object [(ascii "jsonrpc", .str (ascii "2.0")), (ascii "id", id), (ascii "error", error)]

/-- What the dispatcher is given: `json::parse`, which accepts UTF-8 text only, the text of
floats, the texts of the exceptions that the accesses to a request's parameters throw, the
conversion of floats to `int`, and the handlers of the other methods. -/
structure Server where
  parse : Bytes → Option (Json Bytes)
  floatText : FloatVal → Bytes
  what : Json Bytes → JsonError → Bytes
  truncate : FloatVal → ℤ
  otherMethods : Bytes → Option (Json Bytes → Completion Exn (Json Bytes))
  parse_nil : parse [] = none
  parse_hasText : ∀ line v, parse line = some v → (v.dump floatText).isSome

namespace Server
variable (S : Server) (host : Host)

/-- The handler of `tools/call`. -/
def toolsCall (params : Json Bytes) : Routine Firewall Bytes Exn (Json Bytes) := do
  let name ← .lift ((Completion.ofExcept (stringValue params (ascii "name") [])).mapError .json)
  let args ← .lift ((valueOr params (ascii "arguments") (.obj [])).mapError .json)
  callTool S.truncate host name args

def findMethod (method : Bytes) : Option (Json Bytes → Routine Firewall Bytes Exn (Json Bytes)) :=
  if method = ascii "tools/call" then some (S.toolsCall host)
  else (S.otherMethods method).map (fun handler params => .lift (handler params))

/-- The two `catch` clauses. -/
def errorOf (params : Json Bytes) : Exn → Json Bytes
  | .rpc code message data => errorObject code message data
  | .json e => errorObject internalError (S.what params e) .null
  | .filesystem e => errorObject internalError e.what .null

/-- The `try` block around the handler. -/
def respond (id params : Json Bytes) (handler : Routine Firewall Bytes Exn (Json Bytes)) :
    Routine Firewall Bytes JsonError (Json Bytes) :=
  (do return resultResponse id (← handler)).mapCompletion
    (Completion.recover fun e => errorResponse id (S.errorOf params e))

/-- `json(response).dump()`, which is outside the `try` block. -/
def dumped (response : Json Bytes) : Routine Firewall Bytes JsonError (Option Bytes) :=
  .lift (match response.dump S.floatText with
    | some text => .returns (some text)
    | none => .throws (.typeError 316))

def isRequest (req : Json Bytes) : Bool :=
  (match req.field (ascii "jsonrpc") with
    | some (.str version) => version = ascii "2.0"
    | _ => false) && (req.field (ascii "method")).isSome

/-- `_handle_single`; a request without an id is a notification, whose handler runs in the
background. -/
def handleSingle (req : Json Bytes) : Routine Firewall Bytes JsonError (Option Bytes) :=
  if isRequest req then do
    let method ← .lift (constIndex req (ascii "method") >>= toStdString)
    let params ← .lift (valueOr req (ascii "params") (.obj []))
    match req.field (ascii "id") with
    | none => return none
    | some id =>
      match S.findMethod host method with
      | none => S.dumped (errorResponse id
          (errorObject methodNotFound (ascii "Method not found: " ++ method) .null))
      | some handler => S.respond id params (handler params) >>= S.dumped
  else do
    let id ← .lift (valueOr req (ascii "id") .null)
    S.dumped (errorResponse id (errorObject invalidRequest (ascii "Invalid Request") .null))

def handleBatch : List (Json Bytes) → Routine Firewall Bytes JsonError (List (Json Bytes))
  | [] => return []
  | elem :: rest => do
    let response ← S.handleSingle host elem
    let responses ← handleBatch rest
    return (response.bind S.parse).toList ++ responses

def handleRequest (rawBody : Bytes) : Routine Firewall Bytes JsonError (Option Bytes) :=
  match S.parse rawBody with
  | none => S.dumped (errorResponse .null (errorObject parseError (ascii "Parse error") .null))
  | some (.arr []) => S.dumped (errorResponse .null
      (errorObject invalidRequest (ascii "Invalid Request: empty batch") .null))
  | some (.arr elems) => do
    let responses ← S.handleBatch host elems
    if responses.isEmpty then return none else S.dumped (.arr responses)
  | some req => S.handleSingle host req

end Server

theorem isSome_dump_resultResponse {floatText : FloatVal → Bytes} {id : Json Bytes}
    (hid : (id.dump floatText).isSome) (result : Json Bytes) :
    ((resultResponse id result).dump floatText).isSome ↔ (result.dump floatText).isSome := by
  unfold resultResponse
  simp only [Json.isSome_dump_object, List.forall_mem_cons, Json.isSome_dump_str]
  constructor
  · intro h
    exact h.2.2.1.2
  · intro h
    exact ⟨by decide +kernel, ⟨by decide +kernel, hid⟩, ⟨by decide +kernel, h⟩,
      List.forall_mem_nil _⟩

/-! The parameters of a call of one of the three tools. -/

structure ToolCall where
  tool : ProbeTool
  params : Json Bytes
  named : stringValue params (ascii "name") [] = .ok tool.getName

namespace ToolCall
variable (S : Server) (host : Host) (fw : Firewall) (id : Json Bytes) (c : ToolCall)

/-- What `execute` is given: an empty object when there are no arguments. -/
def arguments : Json Bytes := (c.params.field (ascii "arguments")).getD (.obj [])

def execution : Completion Exn (Json Bytes) :=
  (c.tool.execute S.truncate host c.arguments fw).completion

def response : Completion JsonError (Json Bytes) :=
  (S.respond id c.params (S.toolsCall host c.params) fw).completion

/-- `execute` completes with a status, or raises what the dispatcher makes an error of. -/
def Contained : Prop :=
  (∃ result, c.execution S host fw = .returns result ∧ HasStatus result ∧
    ∃ r v, c.response S host fw id = .returns r ∧ r.field (ascii "id") = some id ∧
      r.field (ascii "result") = some v ∧ HasStatus v) ∨
  (∃ e, c.execution S host fw = .throws e ∧
    ∃ r v, c.response S host fw id = .returns r ∧ r.field (ascii "id") = some id ∧
      r.field (ascii "error") = some v)

/-! The answer follows the execution. -/

theorem toolsCall_eq :
    S.toolsCall host c.params = callTool S.truncate host c.tool.getName c.arguments := by
  have hargs : valueOr c.params (ascii "arguments") (.obj []) = .returns c.arguments := by
    have hnamed := c.named
    unfold arguments
    cases hparams : c.params with
    | obj fields => rfl
    | null | bool | int | float | str | arr =>
      rw [hparams] at hnamed
      cases hnamed
  unfold Server.toolsCall
  rw [c.named, hargs]
  rfl

theorem response_eq : c.response S host fw id =
    ((c.execution S host fw >>= fun result => (withIsError result).mapError .json) >>= fun w => .returns (resultResponse id w)).recover
        fun e => errorResponse id (S.errorOf c.params e) := by
  unfold response Server.respond execution
  rw [toolsCall_eq, callTool, findTool_getName]
  simp only [Routine.mapCompletion_apply, Routine.completion_bind, Routine.lift_apply, Routine.pure_eq]

theorem contained_iff_safe :
    c.Contained S host fw id ↔ (c.execution S host fw).Safe HasStatus := by
  unfold Contained
  rw [Completion.safe_iff, response_eq]
  constructor
  · intro h
    rcases h with ⟨result, hresult, hstatus, -⟩ | ⟨e, he, -⟩
    · exact Or.inl ⟨result, hresult, hstatus⟩
    · exact Or.inr ⟨e, he⟩
  · intro h
    rcases h with ⟨result, hresult, hstatus⟩ | ⟨e, he⟩
    · obtain ⟨w, hw, hws⟩ := withIsError_of_hasStatus hstatus
      refine Or.inl ⟨result, hresult, hstatus, resultResponse id w, w, ?_, ?_, ?_, hws⟩
      · rw [hresult]
        show Completion.recover _ (((withIsError result).mapError Exn.json) >>= _) = _
        rw [hw]
        rfl
      · exact Json.field_object _ _
      · exact Json.field_object _ _
    · refine Or.inr ⟨e, he, errorResponse id (S.errorOf c.params e), S.errorOf c.params e, ?_, ?_, ?_⟩
      · rw [he]
        rfl
      · exact Json.field_object _ _
      · exact Json.field_object _ _

/-- A call is contained exactly when its arguments are no object or hold the keys that the tool
looks up. -/
theorem contained_iff :
    c.Contained S host fw id ↔ ∀ fields, c.arguments = .obj fields → c.tool.FindsKeys c.arguments :=
  (contained_iff_safe S host fw id c).trans
    (ProbeTool.execute_safe_iff S.truncate host fw c.tool c.arguments)

/-- `get_pid_by_connection` without arguments. -/
def omittedArguments : ToolCall where
  tool := .netTools
  params := .obj [(ascii "name", .str (ascii "get_pid_by_connection"))]
  named := by decide +kernel

end ToolCall

def sampleRequest (params : Json Bytes) : Json Bytes :=
  .object [(ascii "jsonrpc", .str (ascii "2.0")), (ascii "id", .int 7),
    (ascii "method", .str (ascii "tools/call")), (ascii "params", params)]

def analyzeParams : Json Bytes :=
  .obj [(ascii "arguments", .obj [(ascii "pid", .int 4242)]),
    (ascii "name", .str (ascii "analyze_process_behavior"))]

def omittedLine : Bytes := ascii "\x7b\"jsonrpc\":\"2.0\",\"id\":7,\"method\":\"tools/call\"," ++
  ascii "\"params\":\x7b\"name\":\"get_pid_by_connection\"\x7d\x7d"

def analyzeLine : Bytes := ascii "\x7b\"jsonrpc\":\"2.0\",\"id\":7,\"method\":\"tools/call\"," ++
  ascii "\"params\":\x7b\"name\":\"analyze_process_behavior\",\"arguments\":\x7b\"pid\":4242\x7d\x7d\x7d"

def sampleParse (line : Bytes) : Option (Json Bytes) :=
  if line = omittedLine then some (sampleRequest ToolCall.omittedArguments.params)
  else if line = analyzeLine then some (sampleRequest analyzeParams)
  else none

theorem sampleParse_analyzeLine : sampleParse analyzeLine = some (sampleRequest analyzeParams) := by
  have hne : analyzeLine ≠ omittedLine := by decide +kernel
  unfold sampleParse
  rw [if_neg hne, if_pos rfl]

def halfText (_ : FloatVal) : Bytes := ascii "0.5"

theorem sampleParse_hasText (line : Bytes) (v : Json Bytes) (h : sampleParse line = some v) :
    (v.dump halfText).isSome := by
  unfold sampleParse at h
  split_ifs at h
  · cases h
    decide +kernel
  · cases h
    decide +kernel

def sampleServer : Server where
  parse := sampleParse
  floatText := halfText
  what := fun _ _ => ascii "[json.exception.type_error.302] type must be string, but is number"
  truncate := fun _ => 0
  otherMethods := fun _ => none
  parse_nil := by decide +kernel
  parse_hasText := sampleParse_hasText

def sampleHost (cmdline : Bytes) : Host := ⟨⟨none, []⟩, fun _ => some cmdline, ⟨true, true, true⟩⟩

/-- The lookup of `ip` in an empty object has no defined result. -/
theorem omitted_arguments_undefined :
    ¬ ToolCall.omittedArguments.Contained sampleServer (sampleHost []) {} (.int 7) := by
  rw [ToolCall.contained_iff_safe]
  have h : ToolCall.omittedArguments.execution sampleServer (sampleHost []) {} = .undefined := rfl
  rw [h]
  exact Completion.safe_undefined _

end Aegis.Mcp
