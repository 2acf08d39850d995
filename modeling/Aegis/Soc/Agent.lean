import Aegis.Soc.MessagePump
import Aegis.Soc.PyValue

/-! The single agent, `agent.py`: it sends a request over the probe's stdin and takes the
next JSON line of the probe's stdout for the answer. `json.loads` and the language model
are parameters. -/
namespace Aegis.Soc

/-- How `read_rpc_message` ends: a message, the end of the stream, or an exception. -/
inductive Read where
  | message (msg : Json Text)
  | ended
  | raises

/-- The next request id and the part of the stream that is still unread. -/
structure Client where
  requestId : ℤ
  unread : List Text

/-- A request, the state in which it is sent, and what is read after it. -/
structure Exchange where
  before : Client
  request : Json Text
  answer : Read

/-- A tool call of the language model; the arguments are a JSON text. -/
structure LlmCall where
  name : Text
  arguments : Text

structure ToolEntry where
  name : Json Text
  description : Json Text
  parameters : Json Text

section Agent
variable (loads : Text → Loaded) (D : CaseData)

/-- `read_rpc_message`. -/
def readRpcMessage : List Text → Read × List Text
  | [] => (.ended, [])
  | line :: rest =>
    match loads (Text.strip line) with
    | .value msg => (.message msg, rest)
    | .decodeError => readRpcMessage rest
    | .raises => (.raises, rest)

/-- `send_rpc_request` and the read after it. -/
def exchange (c : Client) (method : Text) (params : Json Text) : Exchange × Client :=
  let (answer, unread) := readRpcMessage loads c.unread
  (⟨c, rpcRequest c.requestId method params, answer⟩, ⟨c.requestId + 1, unread⟩)

/-- `description.split()[0].lower()`. -/
def firstWord : Json Text → Option Text
  | .str s =>
    let word := ((s.dropWhile Text.isSpace).takeWhile fun c => !Text.isSpace c)
    if word.isEmpty then none else some (D.lower word)
  | _ => none

/-- The entry of one tool, or nothing for a tool without a schema. The default of `get`
is computed even when there is a name. -/
def toolEntry (t : Json Text) : Option (Option ToolEntry) := do
  if ← inValue "inputSchema".toList t then
    match t with
    | .obj _ =>
      let word ← firstWord D ((t.field "description".toList).getD (.str []))
      let description ← t.field "description".toList
      let parameters ← t.field "inputSchema".toList
      return some ⟨(t.field "name".toList).getD (.str word), description, parameters⟩
    | _ => none
  else return none

/-- `tools_schema`, whose first three entries are renamed. A value of `tools` that is no
list leads to an exception in any case. -/
def toolsSchemaOf : Json Text → Option (List ToolEntry)
  | .arr rawTools => do
    let entries ← rawTools.mapM (toolEntry D)
    match entries.reduceOption with
    | t0 :: t1 :: t2 :: rest =>
      return { t0 with name := .str "block_malicious_ip".toList } ::
        { t1 with name := .str "analyze_process_behavior".toList } ::
        { t2 with name := .str "get_pid_by_connection".toList } :: rest
    | _ => none
  | _ => none

/-- What the answer to `tools/list` is used for; an answer without tools leaves the list
empty. -/
def mountTools : Read → Option (List ToolEntry)
  | .raises => none
  | .ended => some []
  | .message msg => do
    if ← holdsKey "result".toList msg then
      let result ← msg.field "result".toList
      if ← inValue "tools".toList result then
        let rawTools ← result.field "tools".toList
        toolsSchemaOf D rawTools
      else return []
    else return []

/-- `result_msg['result']`. -/
def resultOf : Read → Option (Json Text)
  | .message msg => msg.field "result".toList
  | _ => none

/-- The loop over the tool calls, up to the first exception. -/
def callTools : Client → List LlmCall → List Exchange
  | _, [] => []
  | c, call :: rest =>
    match loads call.arguments with
    | .value functionArgs =>
      let (e, c) := exchange loads c "tools/call".toList
        (.obj [("name".toList, .str call.name), ("arguments".toList, functionArgs)])
      e :: match resultOf e.answer with
        | some _ => callTools c rest
        | none => []
    | _ => []

/-- `run_agent_loop`: the exchanges it makes with the probe. -/
def runAgentLoop (llm : List ToolEntry → Option (List LlmCall)) (stdout : List Text) :
    List Exchange :=
  let (e, c) := exchange loads ⟨1, stdout⟩ "tools/list".toList .null
  e :: match (mountTools D e.answer).bind llm with
    | some calls => callTools loads c calls
    | none => []

end Agent

/-! What the probe writes, and whether the answers are the right ones. -/

def messages (loads : Text → Loaded) (lines : List Text) : List (Json Text) :=
  lines.filterMap fun line => match loads (Text.strip line) with
    | .value msg => some msg
    | _ => none

def IsNotification (msg : Json Text) : Prop :=
  msg.field "method".toList = some (.str threatMethod) ∧ msg.field "id".toList = none

def IsResponse (id : ℤ) (msg : Json Text) : Prop :=
  msg.field "id".toList = some (.int id) ∧ msg.field "method".toList = none

/-- Notifications at any place, and the responses in the order of their requests. -/
def InOrder : ℤ → List (Json Text) → Prop
  | _, [] => True
  | id, msg :: rest => IsNotification msg ∧ InOrder id rest ∨ IsResponse id msg ∧ InOrder (id + 1) rest

/-- Anything the probe may write: log lines, notifications and responses. -/
structure ProbeOutput (loads : Text → Loaded) where
  lines : List Text
  readable : ∀ line ∈ lines, loads (Text.strip line) ≠ .raises
  inOrder : InOrder 1 (messages loads lines)

/-- What is used as the answer is the response to the request. -/
def Exchange.Correlated (e : Exchange) : Prop :=
  ∃ msg, e.answer = .message msg ∧ IsResponse e.before.requestId msg

/-- The next JSON line of the stream is a response. -/
def Client.ResponseNext (loads : Text → Loaded) (c : Client) : Prop :=
  ∃ id msg rest, messages loads c.unread = msg :: rest ∧ IsResponse id msg

section Correlation
variable {loads : Text → Loaded} {D : CaseData}

/-- A read takes the first message and leaves the others. -/
theorem readRpcMessage_spec {lines : List Text}
    (h : ∀ line ∈ lines, loads (Text.strip line) ≠ .raises) :
    (readRpcMessage loads lines).1 = (messages loads lines).head?.elim .ended .message ∧
      messages loads (readRpcMessage loads lines).2 = (messages loads lines).tail ∧
      ∀ line ∈ (readRpcMessage loads lines).2, loads (Text.strip line) ≠ .raises := by
  induction lines with
  | nil => exact ⟨rfl, rfl, h⟩
  | cons line lines ih =>
    obtain ⟨hline, hlines⟩ := List.forall_mem_cons.mp h
    have hmessages : messages loads (line :: lines) = match loads (Text.strip line) with
        | .value msg => msg :: messages loads lines
        | _ => messages loads lines := by
      unfold messages
      rw [List.filterMap_cons]
      cases loads (Text.strip line) <;> rfl
    rw [readRpcMessage, hmessages]
    cases hloads : loads (Text.strip line) with
    | value v => exact ⟨rfl, rfl, hlines⟩
    | decodeError => exact ih hlines
    | raises => exact absurd hloads hline

/-- The client is in step with the probe: the responses it has not read are those to
its next requests. -/
structure InStep (loads : Text → Loaded) (c : Client) : Prop where
  readable : ∀ line ∈ c.unread, loads (Text.strip line) ≠ .raises
  inOrder : InOrder c.requestId (messages loads c.unread)

/-- One exchange: if a response is next it is the right one, and the client stays in step. -/
theorem exchange_correlated {c : Client} (hc : InStep loads c) (hnext : c.ResponseNext loads)
    (method : Text) (params : Json Text) :
    (exchange loads c method params).1.Correlated ∧
      InStep loads (exchange loads c method params).2 := by
  obtain ⟨id, msg, rest, hmsg, hresponse⟩ := hnext
  have horder := hc.inOrder
  rw [hmsg, InOrder] at horder
  have hown : IsResponse c.requestId msg ∧ InOrder (c.requestId + 1) rest := by
    rcases horder with hnotify | hown
    · have hmethod := hresponse.2
      rw [hnotify.1.1] at hmethod
      cases hmethod
    · exact hown
  obtain ⟨hanswer, hrest, hreadable⟩ := readRpcMessage_spec hc.readable
  rw [hmsg] at hanswer hrest
  refine ⟨⟨msg, hanswer, hown.1⟩, hreadable, ?_⟩
  show InOrder (c.requestId + 1) (messages loads (readRpcMessage loads c.unread).2)
  rw [hrest]
  exact hown.2

theorem responseNext_of_correlated {c : Client} (hc : InStep loads c) {method : Text}
    {params : Json Text} (h : (exchange loads c method params).1.Correlated) :
    c.ResponseNext loads := by
  obtain ⟨msg, hanswer, hresponse⟩ := h
  change (readRpcMessage loads c.unread).1 = .message msg at hanswer
  obtain ⟨hread, -⟩ := readRpcMessage_spec hc.readable
  rw [hread] at hanswer
  cases hmsg : messages loads c.unread with
  | nil =>
    rw [hmsg] at hanswer
    cases hanswer
  | cons first rest =>
    rw [hmsg] at hanswer
    have heq : first = msg := Read.message.inj hanswer
    rw [heq] at hmsg
    exact ⟨_, msg, rest, hmsg, hresponse⟩

/-- Exchanges one after the other, each from where the last one left the stream. -/
inductive Session (loads : Text → Loaded) : Client → List Exchange → Prop where
  | nil (c : Client) : Session loads c []
  | cons {c : Client} {trace : List Exchange} (method : Text) (params : Json Text)
      (rest : Session loads (exchange loads c method params).2 trace) :
      Session loads c ((exchange loads c method params).1 :: trace)

theorem session_callTools (c : Client) (calls : List LlmCall) :
    Session loads c (callTools loads c calls) := by
  induction calls generalizing c with
  | nil => exact .nil c
  | cons call calls ih =>
    rw [callTools]
    cases loads call.arguments with
    | value functionArgs =>
      dsimp only
      apply Session.cons
      split
      · exact ih _
      · exact .nil _
    | decodeError => exact .nil c
    | raises => exact .nil c

theorem session_runAgentLoop (llm : List ToolEntry → Option (List LlmCall))
    (stdout : List Text) : Session loads ⟨1, stdout⟩ (runAgentLoop loads D llm stdout) := by
  unfold runAgentLoop
  apply Session.cons
  split
  · exact session_callTools _ _
  · exact .nil _

/-- In a session that starts in step, the answers are the right ones as long as a response
is next whenever one is read. -/
theorem Session.correlated_iff {c : Client} {trace : List Exchange} (h : Session loads c trace)
    (hc : InStep loads c) :
    (∀ e ∈ trace, e.Correlated) ↔ ∀ e ∈ trace, e.before.ResponseNext loads := by
  induction h with
  | nil c =>
    exact iff_of_true (fun _ he => absurd he List.not_mem_nil)
      (fun _ he => absurd he List.not_mem_nil)
  | cons method params rest ih =>
    rw [List.forall_mem_cons, List.forall_mem_cons]
    constructor
    · intro hall
      have hnext := responseNext_of_correlated hc hall.1
      have hstep := (exchange_correlated hc hnext method params).2
      exact ⟨hnext, (ih hstep).mp hall.2⟩
    · intro hall
      obtain ⟨hcorrelated, hstep⟩ := exchange_correlated hc hall.1 method params
      exact ⟨hcorrelated, (ih hstep).mpr hall.2⟩

end Correlation

/-- For anything the probe may write and everything the language model may ask for: each
answer that is used is the response to its request exactly if, whenever the agent reads,
a response stands before the next notification. -/
theorem agent_correlated_iff (loads : Text → Loaded) (D : CaseData)
    (llm : List ToolEntry → Option (List LlmCall)) (out : ProbeOutput loads) :
    (∀ e ∈ runAgentLoop loads D llm out.lines, e.Correlated) ↔
      ∀ e ∈ runAgentLoop loads D llm out.lines, e.before.ResponseNext loads :=
  (session_runAgentLoop llm out.lines).correlated_iff ⟨out.readable, out.inOrder⟩

def sampleAlert : Json Text :=
  .obj [("jsonrpc".toList, .str "2.0".toList), ("method".toList, .str threatMethod)]

def sampleResponse : Json Text := .obj [("id".toList, .int 1), ("result".toList, .obj [])]

/-- The line `a` is an alert and the line `r` a response. -/
def shortLoads (line : Text) : Loaded :=
  if line = ['a'] then .value sampleAlert
  else if line = ['r'] then .value sampleResponse
  else .decodeError

theorem messages_alertFirst :
    messages shortLoads [['a', '\n'], ['r', '\n']] = [sampleAlert, sampleResponse] := rfl

def alertFirst : ProbeOutput shortLoads where
  lines := [['a', '\n'], ['r', '\n']]
  readable := by
    have ha : shortLoads (Text.strip ['a', '\n']) = .value sampleAlert := rfl
    have hr : shortLoads (Text.strip ['r', '\n']) = .value sampleResponse := rfl
    simp [ha, hr]
  inOrder := by
    rw [messages_alertFirst]
    exact Or.inl ⟨⟨rfl, rfl⟩, Or.inr ⟨⟨rfl, rfl⟩, trivial⟩⟩

/-- A notification that comes first is taken for the answer to `tools/list`. -/
theorem alert_taken_for_answer :
    ¬ ∀ e ∈ runAgentLoop shortLoads asciiCaseData (fun _ => none) alertFirst.lines,
      e.Correlated := by
  intro h
  obtain ⟨msg, hanswer, hresponse⟩ := h _ List.mem_cons_self
  obtain ⟨hread, -⟩ := readRpcMessage_spec alertFirst.readable
  have hfirst : (readRpcMessage shortLoads alertFirst.lines).1 = .message sampleAlert := hread
  have hmsg : sampleAlert = msg := Read.message.inj (hfirst.symm.trans hanswer)
  rw [← hmsg] at hresponse
  cases hresponse.1

end Aegis.Soc
