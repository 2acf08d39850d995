import Aegis.Mcp.Methods
import Aegis.Mcp.PidLookup
import Aegis.Mcp.StdioTransport

/-! What the probe answers to the lines it is sent over stdin, one by one and in batches:
`dispatcher.hh` and `stdio_transport.hh` on the methods of `mcp_server.cc`. -/
namespace Aegis.Mcp

/-- What `block_malicious_ip` inserts into stdout. -/
def SecTools.blockingLog (ip : Bytes) : List Bytes :=
  [ascii "[SecTools] Blocking IP: ", ip, ascii "\n"]

/-- The log of any number of blocked addresses. -/
def IsSecLog (log : List Bytes) : Prop := ∃ ips : List Bytes, log = ips.flatMap SecTools.blockingLog

theorem IsSecLog.nil : IsSecLog [] := ⟨[], rfl⟩

theorem IsSecLog.append (a b : List Bytes) (ha : IsSecLog a) (hb : IsSecLog b) : IsSecLog (a ++ b) := by
  obtain ⟨ips, rfl⟩ := ha
  obtain ⟨ips', rfl⟩ := hb
  exact ⟨ips ++ ips', List.flatMap_append.symm⟩

/-! The tools. -/

section Tools
variable {floatText : FloatVal → Bytes}

/-- An exception of a tool; a file system exception has a text in UTF-8. -/
def Exn.OfTool : Exn → Prop
  | .json _ => True
  | .filesystem e => Text.isUtf8 e.what
  | .rpc .. => False

/-- An object that can be written. -/
def IsObjectText (floatText : FloatVal → Bytes) (v : Json Bytes) : Prop :=
  (∃ fields, v = .obj fields) ∧ (v.dump floatText).isSome

theorem settles_constIndex {v : Json Bytes} {key : Bytes}
    (h : ∀ fields, v = .obj fields → ∃ w, v.field key = some w) :
    (constIndex v key).Settles (fun _ => True) fun w => v.field key = some w := by
  cases v with
  | obj fields =>
    obtain ⟨w, hw⟩ := h fields rfl
    rw [constIndex_eq hw]
    exact hw
  | null | bool | int | float | str | arr => trivial

theorem settles_toStdString (v : Json Bytes) :
    (toStdString v).Settles (fun _ => True) fun s => v = .str s := by
  cases v <;> trivial

theorem settles_toInt (truncate : FloatVal → ℤ) (v : Json Bytes) :
    (toInt truncate v).Settles (fun _ => True) fun _ => True := by
  cases v <;> trivial

theorem settles_readInt (truncate : FloatVal → ℤ) {v : Json Bytes} {key : Bytes}
    (h : ∀ fields, v = .obj fields → ∃ w, v.field key = some w) :
    ((constIndex v key >>= toInt truncate).mapError .json).Settles Exn.OfTool fun _ => True := by
  have hread := (settles_constIndex h).bind fun w _ => settles_toInt truncate w
  exact hread.mapError fun _ _ => trivial

theorem settles_readString {v : Json Bytes} {key : Bytes}
    (h : ∀ fields, v = .obj fields → ∃ w, v.field key = some w) :
    ((constIndex v key >>= toStdString).mapError .json).Settles Exn.OfTool
      fun s => v.field key = some (.str s) := by
  have hread : (constIndex v key >>= toStdString).Settles (fun _ => True) _ :=
    (settles_constIndex h).bind fun w hw => (settles_toStdString w).mono fun s hs => hs ▸ hw
  exact hread.mapError fun _ _ => trivial

/-- The exceptions that the search of `/proc` meets have a text in UTF-8. -/
def Proc.Tells (proc : Proc) : Prop :=
  (∀ e, .throws e ∈ proc.items → Text.isUtf8 e.what) ∧
    ∀ entry e, .entry entry ∈ proc.items → entry.fd = .throws e → Text.isUtf8 e.what

theorem NetTools.settles_parseProcNetTcp {proc : Proc} (hproc : proc.Tells) (ip : Bytes) (port : ℤ) :
    ((Completion.ofExcept (parseProcNetTcp ip port proc)).mapError .filesystem).Settles Exn.OfTool
      fun _ => True := by
  rw [parseProcNetTcp_eq]
  cases (selectedInodes port proc).head? with
  | none => trivial
  | some inode =>
    rw [Option.elim_some]
    split_ifs
    · trivial
    · cases hsearch : searchProc inode proc.items with
      | ok pid => trivial
      | error e =>
        rcases mem_of_searchProc_error hsearch with hmem | ⟨entry, hmem, hfd⟩
        · exact hproc.1 e hmem
        · exact hproc.2 entry e hmem hfd

theorem NetTools.settles_execute (truncate : FloatVal → ℤ) {proc : Proc} (hproc : proc.Tells)
    {args : Json Bytes}
    (hkeys : ∀ fields, args = .obj fields → ProbeTool.netTools.FindsKeys args) :
    (NetTools.execute truncate proc args).Settles Exn.OfTool (IsObjectText floatText) := by
  have hreply : ∀ pid, IsObjectText floatText (if 0 < pid then found pid else notFound) := by
    intro pid
    split_ifs
    · exact ⟨⟨_, rfl⟩, rfl⟩
    · exact ⟨⟨_, rfl⟩, rfl⟩
  unfold NetTools.execute
  apply (settles_readString fun fields hobj => ?_).bind
  · intro ip hip
    apply (settles_readInt truncate fun fields hobj => ?_).bind
    · intro port _
      apply (settles_parseProcNetTcp hproc ip port).bind
      exact fun pid _ => hreply pid
    · obtain ⟨ip', hip', hport⟩ := hkeys fields hobj
      rw [hip] at hip'
      exact hport ip (Option.some.inj hip').symm
  · obtain ⟨ip, hip, -⟩ := hkeys fields hobj
    exact ⟨ip, hip⟩

theorem OsTools.settles_execute (truncate : FloatVal → ℤ) {cmdlineFile : ℤ → Option Bytes}
    (hcmdline : ∀ pid content, cmdlineFile pid = some content → Text.isUtf8 content) {args : Json Bytes}
    (hkeys : ∀ fields, args = .obj fields → ProbeTool.osTools.FindsKeys args) :
    (OsTools.execute truncate cmdlineFile args).Settles Exn.OfTool (IsObjectText floatText) := by
  unfold OsTools.execute
  apply (settles_readInt truncate hkeys).bind
  intro pid _
  cases hfile : cmdlineFile pid with
  | none => exact ⟨⟨_, rfl⟩, isSome_dump_notFound⟩
  | some content =>
    refine ⟨⟨_, rfl⟩, (isSome_dump_analysed _).mpr ?_⟩
    rw [isUtf8_blanked]
    exact hcmdline pid content hfile

/-- `block_malicious_ip` always comes back, and logs only what it blocks. -/
theorem SecTools.settles_execute (os : Os) (fw : Firewall) {args : Json Bytes}
    (hargs : (args.dump floatText).isSome) :
    IsSecLog (SecTools.execute os fw args).stdout ∧
      (Completion.ofExcept (SecTools.execute os fw args).reply).Settles (fun _ => True)
        (IsObjectText floatText) := by
  have hblocked : ∀ (method ip : Bytes), Text.isUtf8 method → Text.isUtf8 ip →
      IsObjectText floatText (blocked method ip) := by
    intro method ip hmethod hip
    refine ⟨⟨_, rfl⟩, ?_⟩
    unfold blocked
    simp only [Json.isSome_dump_object, List.forall_mem_cons, Json.isSome_dump_str]
    exact ⟨⟨by decide +kernel, by decide +kernel⟩, ⟨by decide +kernel, hmethod⟩,
      ⟨by decide +kernel, hip⟩, List.forall_mem_nil _⟩
  have hfallback : ∀ log (ip : Bytes), IsSecLog log → Text.isUtf8 ip →
      IsSecLog (SecTools.fallback os fw log ip).stdout ∧
        (Completion.ofExcept (SecTools.fallback os fw log ip).reply).Settles (fun _ => True)
          (IsObjectText floatText) := by
    intro log ip hlog hip
    unfold SecTools.fallback
    cases iptablesBlock os fw.inputRules ip with
    | none => exact ⟨hlog, ⟨_, rfl⟩, rfl⟩
    | some rules => exact ⟨hlog, hblocked _ ip (by decide +kernel) hip⟩
  unfold SecTools.execute
  cases hvalue : stringValue args (ascii "ip") [] with
  | error e => exact ⟨.nil, trivial⟩
  | ok ip =>
    have hip : Text.isUtf8 ip := isUtf8_stringValue hargs rfl hvalue
    have hlog : IsSecLog (blockingLog ip) := ⟨[ip], (List.append_nil _).symm⟩
    dsimp only
    cases Inet.inetPton ip with
    | none => exact ⟨.nil, ⟨_, rfl⟩, rfl⟩
    | some addr =>
      dsimp only
      split_ifs
      · cases rawBpfMapUpdate os fw.blacklist addr.sAddr 1 with
        | none => exact hfallback _ ip hlog hip
        | some m => exact ⟨hlog, hblocked _ ip (by decide +kernel) hip⟩
      · exact hfallback _ ip hlog hip

/-- The tool can be called: it finds its keys, and neither a command line nor the text of an
exception stops its reply. -/
def ProbeTool.Callable (tool : ProbeTool) (host : Host) (args : Json Bytes) : Prop :=
  (∀ fields, args = .obj fields → tool.FindsKeys args) ∧
    (tool = .netTools → host.proc.Tells) ∧
    (tool = .osTools → ∀ pid content, host.cmdline pid = some content → Text.isUtf8 content)

theorem ProbeTool.settles_execute (truncate : FloatVal → ℤ) {host : Host} {tool : ProbeTool}
    {args : Json Bytes} (hargs : (args.dump floatText).isSome) (h : tool.Callable host args) :
    (tool.execute truncate host args).Settles IsSecLog Exn.OfTool (IsObjectText floatText) := by
  obtain ⟨hkeys, hproc, hcmdline⟩ := h
  cases tool with
  | netTools => exact Routine.settles_lift .nil (NetTools.settles_execute truncate (hproc rfl) hkeys)
  | osTools => exact Routine.settles_lift .nil (OsTools.settles_execute truncate (hcmdline rfl) hkeys)
  | secTools =>
    intro fw
    obtain ⟨hlog, hreply⟩ := SecTools.settles_execute host.os fw hargs
    exact ⟨hlog, hreply.mapError fun _ _ => trivial⟩

end Tools

/-! One request. -/

namespace Server
variable (S : Server) (host : Host)

/-- The id under which an element of a batch is answered; a notification has none. -/
def replyId (elem : Json Bytes) : Option (Json Bytes) :=
  if isRequest elem then elem.field (ascii "id") else some ((elem.field (ascii "id")).getD .null)

/-- A JSON-RPC response under an id: a result or an error. -/
def IsResponse (id response : Json Bytes) : Prop :=
  response.field (ascii "jsonrpc") = some (.str (ascii "2.0")) ∧
    response.field (ascii "id") = some id ∧
    ((response.field (ascii "result")).isSome ∨ (response.field (ascii "error")).isSome)

/-- The text of a response under an id. -/
def IsReply (id : Json Bytes) (text : Bytes) : Prop :=
  ∃ v, (resultResponse id v).dump S.floatText = some text ∨
    (errorResponse id v).dump S.floatText = some text

/-- The tool that the parameters of a `tools/call` name, if there is one, can be called. -/
def CallableParams (params : Json Bytes) : Prop :=
  ∀ name tool, stringValue params (ascii "name") [] = .ok name → findTool name = some tool →
    tool.Callable host ((params.field (ascii "arguments")).getD (.obj []))

/-- An object whose method, if it is a request, is a string; and a tool that is called can
be called. -/
def WellFormed (elem : Json Bytes) : Prop :=
  (∃ fields, elem = .obj fields) ∧
    (isRequest elem → ∃ method, elem.field (ascii "method") = some (.str method) ∧
      (method = ascii "tools/call" →
        CallableParams host ((elem.field (ascii "params")).getD (.obj []))))

/-- `json::parse` reads a response under the id back from its text. -/
def ReadsBack (id : Json Bytes) : Prop :=
  ∀ text, S.IsReply id text → ∃ response, S.parse text = some response ∧ IsResponse id response

/-- The responses to the elements of a batch are read back by the server itself. -/
def WellFormedLine (line : Bytes) : Prop :=
  match S.parse line with
  | none => True
  | some (.arr elems) => ∀ elem ∈ elems, WellFormed host elem ∧ ∀ id ∈ replyId elem, S.ReadsBack id
  | some req => WellFormed host req

/-- An array with one response for each id that a batch asks about, in order, or nothing if
there is none. -/
def BatchAnswered (ids : List (Json Bytes)) (reply : Option Bytes) : Prop :=
  if ids = [] then reply = none
  else ∃ responses text, reply = some text ∧ (Json.arr responses).dump S.floatText = some text ∧
    List.Forall₂ IsResponse ids responses

/-- What a line asks for is what it gets. -/
def Answered (line : Bytes) (reply : Option Bytes) : Prop :=
  match S.parse line with
  | none => Option.Rel S.IsReply (some .null) reply
  | some (.arr []) => Option.Rel S.IsReply (some .null) reply
  | some (.arr elems) => S.BatchAnswered (elems.filterMap replyId) reply
  | some req => Option.Rel S.IsReply (replyId req) reply

end Server

/-- The server with the methods of the probe. The texts of the JSON library's exceptions
are UTF-8. -/
structure Probe extends Server where
  tools : List ProbeTool
  registered : tools.Perm [.netTools, .osTools, .secTools]
  methods : otherMethods = Methods.find tools
  what_utf8 : ∀ params e, Text.isUtf8 (what params e)

theorem stringParam_eq {params : Json Bytes} {key fallback s : Bytes}
    (h : stringParam params key fallback = .returns s) : stringValue params key fallback = .ok s := by
  unfold stringParam at h
  cases hvalue : stringValue params key fallback with
  | error e =>
    rw [hvalue] at h
    cases h
  | ok s' =>
    rw [hvalue] at h
    rw [Completion.returns.inj h]

theorem objectParam_eq {params v : Json Bytes} {key : Bytes} (h : objectParam params key = .returns v) :
    (params.field key).getD (.obj []) = v := by
  cases params with
  | obj fields => exact Completion.returns.inj h
  | null | bool | int | float | str | arr => cases h

theorem settles_withIsError {floatText : FloatVal → Bytes} {E : JsonError → Prop} {v : Json Bytes}
    (h : IsObjectText floatText v) :
    (withIsError v).Settles E fun w => (w.dump floatText).isSome := by
  obtain ⟨⟨fields, rfl⟩, htext⟩ := h
  have hsome : ∀ w, withIsError (.obj fields) = .returns w → (w.dump floatText).isSome := fun w hw =>
    (isSome_dump_withIsError hw ⟨fields, rfl⟩).mpr htext
  rcases withIsError_cases fields with hw | hw
  · rw [hw]
    exact hsome _ hw
  · rw [hw]
    exact hsome _ hw

namespace Probe
variable (S : Probe) {host : Host}

theorem settles_callTool {told args : Json Bytes} {name : Bytes} (hname : Text.isUtf8 name)
    (hargs : (args.dump S.floatText).isSome)
    (h : ∀ tool, findTool name = some tool → tool.Callable host args) :
    (callTool S.truncate host name args).Settles IsSecLog (S.Tellable told)
      fun v => (v.dump S.floatText).isSome := by
  unfold callTool
  cases hfind : findTool name with
  | none =>
    apply Routine.settles_lift .nil
    apply tellable_rpc
    rw [Text.isUtf8_append (by decide +kernel)]
    exact hname
  | some tool =>
    have htell : ∀ e, Exn.OfTool e → S.Tellable told e := by
      intro e he
      cases e with
      | json e => exact tellable_json S.what_utf8 e
      | filesystem e => exact (isSome_dump_errorObject _ _ _).mpr ⟨he, Json.isSome_dump_null⟩
      | rpc => exact he.elim
    have hexecute := ProbeTool.settles_execute S.truncate hargs (h tool hfind)
    have htold : (tool.execute S.truncate host args).Settles IsSecLog (S.Tellable told) _ :=
      fun fw => ⟨(hexecute fw).1, (hexecute fw).2.imp htell⟩
    apply htold.bind IsSecLog.append
    intro result hresult
    have hflag := settles_withIsError (E := fun _ => True) hresult
    exact Routine.settles_lift .nil (hflag.mapError fun e _ => tellable_json S.what_utf8 e)

theorem settles_toolsCall {params : Json Bytes} (hparams : (params.dump S.floatText).isSome)
    (h : Server.CallableParams host params) :
    (S.toServer.toolsCall host params).Settles IsSecLog (S.Tellable params)
      fun v => (v.dump S.floatText).isSome := by
  have hname : (stringParam params (ascii "name") []).Settles (S.Tellable params) _ :=
    (settles_stringParam S.what_utf8 hparams (ascii "name") rfl).returned
  have hargs : (objectParam params (ascii "arguments")).Settles (S.Tellable params) _ :=
    (settles_objectParam S.what_utf8 hparams (ascii "arguments")).returned
  unfold Server.toolsCall
  apply (Routine.settles_lift IsSecLog.nil hname).bind IsSecLog.append
  rintro name ⟨hutf8, heq⟩
  apply (Routine.settles_lift IsSecLog.nil hargs).bind IsSecLog.append
  rintro args ⟨htext, heq'⟩
  apply S.settles_callTool hutf8 htext
  intro tool hfind
  rw [← objectParam_eq heq']
  exact h name tool (stringParam_eq heq) hfind

theorem isSome_dump_getD {v : Json Bytes} (hv : (v.dump S.floatText).isSome) (key : Bytes)
    {fallback : Json Bytes} (hfallback : (fallback.dump S.floatText).isSome) :
    (((v.field key).getD fallback).dump S.floatText).isSome := by
  cases hfield : v.field key with
  | none => exact hfallback
  | some w => exact Json.isSome_dump_field hfield hv

/-- A response is written under its id. -/
theorem settles_dumped {id response : Json Bytes} (hresponse : (response.dump S.floatText).isSome)
    (h : ∃ v, response = resultResponse id v ∨ response = errorResponse id v) :
    (S.toServer.dumped response).Settles IsSecLog (fun _ => False)
      (Option.Rel S.IsReply (some id)) := by
  obtain ⟨text, htext⟩ := Option.isSome_iff_exists.mp hresponse
  obtain ⟨v, hv⟩ := h
  unfold Server.dumped
  rw [htext]
  apply Routine.settles_lift .nil
  refine .some ⟨v, ?_⟩
  rcases hv with rfl | rfl
  · exact Or.inl htext
  · exact Or.inr htext

theorem isSome_dump_errorResponse {id error : Json Bytes} (hid : (id.dump S.floatText).isSome)
    (herror : (error.dump S.floatText).isSome) :
    ((errorResponse id error).dump S.floatText).isSome := by
  unfold errorResponse
  simp only [Json.isSome_dump_object, List.forall_mem_cons, Json.isSome_dump_str]
  exact ⟨⟨by decide +kernel, by decide +kernel⟩, ⟨by decide +kernel, hid⟩, ⟨by decide +kernel, herror⟩,
    List.forall_mem_nil _⟩

/-- The `try` block and the writing of what it leaves. -/
theorem settles_respond {id params : Json Bytes} (hid : (id.dump S.floatText).isSome)
    {handler : Routine Firewall Bytes Exn (Json Bytes)}
    (hhandler : handler.Settles IsSecLog (S.Tellable params) fun v => (v.dump S.floatText).isSome) :
    (S.toServer.respond id params handler >>= S.toServer.dumped).Settles IsSecLog (fun _ => False)
      (Option.Rel S.IsReply (some id)) := by
  have hresponse : (S.toServer.respond id params handler).Settles IsSecLog (fun _ => False)
      fun response => (response.dump S.floatText).isSome ∧
        ∃ v, response = resultResponse id v ∨ response = errorResponse id v := by
    have hresult : (do return resultResponse id (← handler) :
        Routine Firewall Bytes Exn (Json Bytes)).Settles IsSecLog (S.Tellable params)
          fun response => (response.dump S.floatText).isSome ∧
            ∃ v, response = resultResponse id v ∨ response = errorResponse id v := by
      apply hhandler.bind IsSecLog.append
      intro v hv
      exact Routine.settles_lift .nil ⟨(isSome_dump_resultResponse hid v).mpr hv, v, Or.inl rfl⟩
    apply hresult.mapCompletion
    intro c hc
    exact hc.recover fun e he => ⟨S.isSome_dump_errorResponse hid he, _, Or.inr rfl⟩
  apply hresponse.bind IsSecLog.append
  rintro response ⟨htext, hform⟩
  exact S.settles_dumped htext hform

theorem settles_handler {params : Json Bytes} (hparams : (params.dump S.floatText).isSome)
    {method : Bytes}
    (hcall : method = ascii "tools/call" → Server.CallableParams host params)
    {handler : Json Bytes → Routine Firewall Bytes Exn (Json Bytes)}
    (h : S.findMethod host method = some handler) :
    (handler params).Settles IsSecLog (S.Tellable params) fun v => (v.dump S.floatText).isSome := by
  unfold Server.findMethod at h
  split_ifs at h with htool
  · rw [← Option.some.inj h]
    exact S.settles_toolsCall hparams (hcall htool)
  · rw [S.methods] at h
    obtain ⟨f, hf, rfl⟩ := Option.map_eq_some_iff.mp h
    exact Routine.settles_lift .nil (Methods.answers_find S.what_utf8 hf params hparams)

/-- A well-formed element is answered under its id, and a notification is not answered;
whatever the firewall, the handling comes back. -/
theorem settles_handleSingle {elem : Json Bytes} (helem : (elem.dump S.floatText).isSome)
    (hform : Server.WellFormed host elem) :
    (S.handleSingle host elem).Settles IsSecLog (fun _ => False)
      (Option.Rel S.IsReply (Server.replyId elem)) := by
  obtain ⟨⟨fields, hobj⟩, hmethod⟩ := hform
  have hvalue : ∀ key fallback, valueOr elem key fallback =
      .returns ((elem.field key).getD fallback) := by
    intro key fallback
    rw [hobj]
    rfl
  unfold Server.handleSingle Server.replyId
  split_ifs with hreq
  · obtain ⟨method, hfield, hcall⟩ := hmethod hreq
    have hempty : ((Json.obj []).dump S.floatText).isSome := rfl
    have hparams := S.isSome_dump_getD helem (ascii "params") hempty
    rw [constIndex_eq hfield, Completion.returns_bind, toStdString, Routine.lift_returns_bind,
      hvalue, Routine.lift_returns_bind]
    cases hid : elem.field (ascii "id") with
    | none => exact Routine.settles_lift .nil .none
    | some id =>
      have htext : (id.dump S.floatText).isSome := Json.isSome_dump_field hid helem
      dsimp only
      cases hfind : S.findMethod host method with
      | none =>
        have hutf8 : Text.isUtf8 method := (Json.isSome_dump_str method).mp
          (Json.isSome_dump_field hfield helem)
        apply S.settles_dumped
        · apply S.isSome_dump_errorResponse htext
          rw [isSome_dump_errorObject, Text.isUtf8_append (by decide +kernel)]
          exact ⟨hutf8, Json.isSome_dump_null⟩
        · exact ⟨_, Or.inr rfl⟩
      | some handler => exact S.settles_respond htext (S.settles_handler hparams hcall hfind)
  · rw [hvalue, Routine.lift_returns_bind]
    apply S.settles_dumped
    · apply S.isSome_dump_errorResponse (S.isSome_dump_getD helem (ascii "id") Json.isSome_dump_null)
      exact (isSome_dump_errorObject _ _ _).mpr ⟨by decide +kernel, Json.isSome_dump_null⟩
    · exact ⟨_, Or.inr rfl⟩

theorem settles_handleBatch {elems : List (Json Bytes)}
    (htexts : ∀ elem ∈ elems, (elem.dump S.floatText).isSome)
    (hform : ∀ elem ∈ elems, Server.WellFormed host elem ∧ ∀ id ∈ Server.replyId elem, S.ReadsBack id) :
    (S.handleBatch host elems).Settles IsSecLog (fun _ => False) fun responses =>
      (∀ response ∈ responses, (response.dump S.floatText).isSome) ∧
        List.Forall₂ Server.IsResponse (elems.filterMap Server.replyId) responses := by
  induction elems with
  | nil => exact Routine.settles_lift .nil ⟨List.forall_mem_nil _, .nil⟩
  | cons elem elems ih =>
    obtain ⟨htext, htexts⟩ := List.forall_mem_cons.mp htexts
    obtain ⟨⟨hwell, hreads⟩, hform⟩ := List.forall_mem_cons.mp hform
    unfold Server.handleBatch
    apply (S.settles_handleSingle htext hwell).bind IsSecLog.append
    rintro response hrel
    apply (ih htexts hform).bind IsSecLog.append
    rintro responses ⟨hall, hresponses⟩
    apply Routine.settles_lift .nil
    cases hid : Server.replyId elem with
    | none =>
      rw [hid] at hrel
      cases hrel
      rw [List.filterMap_cons_none hid]
      exact ⟨hall, hresponses⟩
    | some id =>
      rw [hid] at hrel
      cases hrel with
      | some hreply =>
        rename_i text
        obtain ⟨parsed, hparse, hresponse⟩ := hreads id hid text hreply
        rw [List.filterMap_cons_some hid, Option.bind_some, hparse]
        exact ⟨List.forall_mem_cons.mpr ⟨S.parse_hasText text parsed hparse, hall⟩,
          .cons hresponse hresponses⟩

theorem settles_batch {elems : List (Json Bytes)}
    (htexts : ∀ elem ∈ elems, (elem.dump S.floatText).isSome)
    (hform : ∀ elem ∈ elems, Server.WellFormed host elem ∧ ∀ id ∈ Server.replyId elem, S.ReadsBack id) :
    (do
      let responses ← S.handleBatch host elems
      if responses.isEmpty then return none else S.toServer.dumped (.arr responses)).Settles
        IsSecLog (fun _ => False) (S.BatchAnswered (elems.filterMap Server.replyId)) := by
  apply (S.settles_handleBatch htexts hform).bind IsSecLog.append
  rintro responses ⟨hall, hresponses⟩
  unfold Server.BatchAnswered
  cases responses with
  | nil =>
    simp only [if_pos (List.forall₂_nil_right_iff.mp hresponses)]
    exact Routine.settles_lift .nil rfl
  | cons response responses =>
    have hsome : elems.filterMap Server.replyId ≠ [] := by
      intro hnil
      rw [hnil] at hresponses
      cases hresponses
    obtain ⟨text, hdump⟩ := Option.isSome_iff_exists.mp
      ((Json.isSome_dump_arr _).mpr hall)
    simp only [if_neg hsome]
    show (S.toServer.dumped (.arr (response :: responses))).Settles _ _ _
    unfold Server.dumped
    rw [hdump]
    exact Routine.settles_lift .nil ⟨_, text, rfl, hdump, hresponses⟩

/-- A line is answered as it asks for, and the log holds nothing but blocked addresses. -/
theorem settles_handleRequest {line : Bytes} (hform : S.WellFormedLine host line) :
    (S.handleRequest host line).Settles IsSecLog (fun _ => False) (S.Answered line) := by
  have herror : ∀ code (message : Bytes), Text.isUtf8 message →
      (S.toServer.dumped (errorResponse .null (errorObject code message .null))).Settles IsSecLog
        (fun _ => False) (Option.Rel S.IsReply (some .null)) := by
    intro code message hmessage
    apply S.settles_dumped _ ⟨_, Or.inr rfl⟩
    exact S.isSome_dump_errorResponse Json.isSome_dump_null
      ((isSome_dump_errorObject _ _ _).mpr ⟨hmessage, Json.isSome_dump_null⟩)
  unfold Server.handleRequest Server.Answered
  unfold Server.WellFormedLine at hform
  cases hparse : S.parse line with
  | none => exact herror _ _ (by decide +kernel)
  | some v =>
    rw [hparse] at hform
    have htext : (v.dump S.floatText).isSome := S.parse_hasText line v hparse
    cases v with
    | arr elems =>
      cases elems with
      | nil => exact herror _ _ (by decide +kernel)
      | cons elem elems =>
        exact S.settles_batch ((Json.isSome_dump_arr _).mp htext) hform
    | obj fields => exact S.settles_handleSingle htext hform
    | null | bool | int | float | str => exact S.settles_handleSingle htext hform

/-- The insertions of the thread for a line: the log of the tools, and then the reply. -/
def LineServed (line : Bytes) (written : List Bytes) : Prop :=
  if line = [] then written = []
  else ∃ log reply, IsSecLog log ∧ S.Answered line reply ∧
    written = log ++ reply.elim [] fun text => [text, ascii "\n"]

theorem step_served {fw : Firewall} {i : LineIn} (hform : S.WellFormedLine i.host i.line) :
    ((stdioLoop S.toServer).step ⟨.serving, fw⟩ i).1.status = .serving ∧
      S.LineServed i.line ((stdioLoop S.toServer).step ⟨.serving, fw⟩ i).2 := by
  unfold stdioLoop LineServed
  dsimp only
  split_ifs with hline
  · exact ⟨rfl, rfl⟩
  · obtain ⟨hlog, hc⟩ := S.settles_handleRequest hform fw
    obtain ⟨reply, hreply, hanswered⟩ := Completion.settles_false_iff.mp hc
    cases hend : S.handleRequest i.host i.line fw with
    | mk fw' log completion =>
      rw [hend] at hlog hreply
      rw [show completion = .returns reply from hreply]
      cases reply with
      | none => exact ⟨rfl, log, none, hlog, hanswered, (List.append_nil _).symm⟩
      | some text => exact ⟨rfl, log, some text, hlog, hanswered, rfl⟩

/-- Whatever it is sent, as long as the requests are objects, their methods strings, and
the tools that are called find their keys and readable command lines, the thread goes on,
and answers every line as it asks for: a request under its id, a batch by one response for
each of its requests in their order, notifications by nothing. -/
theorem lines_served {is : List LineIn} (hform : ∀ i ∈ is, S.WellFormedLine i.host i.line) :
    ((stdioLoop S.toServer).run is).status = .serving ∧
      List.Forall₂ (fun i written => S.LineServed i.line written) is
        ((stdioLoop S.toServer).answers is) := by
  have hstep : ∀ (s : Loop) (i : LineIn), s.status = .serving → S.WellFormedLine i.host i.line →
      ((stdioLoop S.toServer).step s i).1.status = .serving ∧
        S.LineServed i.line ((stdioLoop S.toServer).step s i).2 := by
    rintro ⟨status, fw⟩ i hserving hi
    cases hserving
    exact S.step_served hi
  exact Transducer.forall₂_outputs hstep rfl hform

end Probe

/-! A batch of a request and a notification. -/

def pingRequest : Json Bytes :=
  .object [(ascii "jsonrpc", .str (ascii "2.0")), (ascii "id", .int 7), (ascii "method", .str (ascii "ping"))]

def initialized : Json Bytes :=
  .object [(ascii "jsonrpc", .str (ascii "2.0")),
    (ascii "method", .str (ascii "notifications/initialized"))]

def batchLine : Bytes := ascii "[\x7b\"jsonrpc\":\"2.0\",\"id\":7,\"method\":\"ping\"\x7d," ++
  ascii "\x7b\"jsonrpc\":\"2.0\",\"method\":\"notifications/initialized\"\x7d]"

/-- What a response begins with. -/
def resultHead : Bytes := ascii "\x7b" ++ Json.quote (ascii "id") ++ ascii ":"
def errorHead : Bytes := ascii "\x7b" ++ Json.quote (ascii "error") ++ ascii ":"

/-- Reads the batch, and of a response under the id 7 what kind it is. -/
def batchParse (line : Bytes) : Option (Json Bytes) :=
  if line = batchLine then some (.arr [pingRequest, initialized])
  else if resultHead <+: line then some (resultResponse (.int 7) (.obj []))
  else if errorHead <+: line then some (errorResponse (.int 7) .null)
  else none

theorem batchParse_hasText (line : Bytes) (v : Json Bytes) (h : batchParse line = some v) :
    (v.dump halfText).isSome := by
  unfold batchParse at h
  split_ifs at h
  · cases h
    decide +kernel
  · cases h
    decide +kernel
  · cases h
    decide +kernel

def sampleProbe : Probe where
  parse := batchParse
  floatText := halfText
  what := fun _ _ => ascii "[json.exception.type_error.302] type must be string, but is number"
  truncate := fun _ => 0
  otherMethods := Methods.find [.netTools, .osTools, .secTools]
  parse_nil := by decide +kernel
  parse_hasText := batchParse_hasText
  tools := [.netTools, .osTools, .secTools]
  registered := List.Perm.refl _
  methods := rfl
  what_utf8 := fun _ _ => by decide +kernel

theorem readsBack_seven : sampleProbe.ReadsBack (.int 7) := by
  have hbatch : ¬ resultHead <+: batchLine ∧ ¬ errorHead <+: batchLine := by decide +kernel
  rintro text ⟨v, hresult | herror⟩
  · have hhead : resultHead <+: text := Json.prefix_of_dump_obj hresult
    have hne : text ≠ batchLine := fun heq => hbatch.1 (heq ▸ hhead)
    refine ⟨resultResponse (.int 7) (.obj []), ?_, rfl, rfl, Or.inl rfl⟩
    show batchParse text = _
    unfold batchParse
    rw [if_neg hne, if_pos hhead]
  · have hhead : errorHead <+: text := Json.prefix_of_dump_obj herror
    have hne : text ≠ batchLine := fun heq => hbatch.2 (heq ▸ hhead)
    have hother : ¬ resultHead <+: text := by
      intro hresult
      rcases List.prefix_or_prefix_of_prefix hresult hhead with hle | hle
      · exact absurd hle (by decide +kernel)
      · exact absurd hle (by decide +kernel)
    refine ⟨errorResponse (.int 7) .null, ?_, rfl, rfl, Or.inr rfl⟩
    show batchParse text = _
    unfold batchParse
    rw [if_neg hne, if_neg hother, if_pos hhead]

theorem wellFormedLine_batchLine (host : Host) :
    sampleProbe.WellFormedLine host batchLine := by
  have hparse : sampleProbe.parse batchLine = some (.arr [pingRequest, initialized]) := by
    show batchParse batchLine = _
    unfold batchParse
    rw [if_pos rfl]
  unfold Server.WellFormedLine
  rw [hparse]
  refine List.forall_mem_cons.mpr ⟨⟨⟨⟨_, rfl⟩, fun _ => ⟨ascii "ping", rfl, ?_⟩⟩, ?_⟩,
    List.forall_mem_singleton.mpr ⟨⟨⟨_, rfl⟩, fun _ => ⟨_, rfl, ?_⟩⟩, ?_⟩⟩
  · exact fun h => absurd h (by decide +kernel)
  · intro id hid
    cases hid
    exact readsBack_seven
  · exact fun h => absurd h (by decide +kernel)
  · intro id hid
    cases hid

def sampleLines : List LineIn := [⟨sampleHost [], batchLine⟩]

example : (stdioLoop sampleProbe.toServer).answers sampleLines =
    [[ascii "[\x7b\"id\":7,\"jsonrpc\":\"2.0\",\"result\":\x7b\x7d\x7d]", ascii "\n"]] := by decide +kernel

theorem lines_served_sample :
    ((stdioLoop sampleProbe.toServer).run sampleLines).status = .serving ∧
      List.Forall₂ (fun (i : LineIn) written => sampleProbe.LineServed i.line written) sampleLines
        ((stdioLoop sampleProbe.toServer).answers sampleLines) :=
  sampleProbe.lines_served (List.forall_mem_singleton.mpr (wellFormedLine_batchLine _))

end Aegis.Mcp
