import Aegis.Mcp.Dispatcher
import Aegis.Mcp.Pagination

/-! The methods that `McpShard::_register_mcp_methods` of `mcp_server.cc` registers beside
`tools/call`, on a registry with the three tools of the probe, no resource and no prompt. -/
namespace Aegis.Mcp

/-- What `get_tools_list` makes of a definition: the title is the name. -/
def ProbeTool.listed (tool : ProbeTool) : Json Bytes :=
  .object (tool.definition ++ [(ascii "title", .str tool.getName)])

abbrev MethodHandler := Json Bytes → Completion Exn (Json Bytes)

/-- `params.value(key, fallback)`. -/
def stringParam (params : Json Bytes) (key fallback : Bytes) : Completion Exn Bytes :=
  (Completion.ofExcept (stringValue params key fallback)).mapError .json

def objectParam (params : Json Bytes) (key : Bytes) : Completion Exn (Json Bytes) :=
  (valueOr params key (.obj [])).mapError .json

namespace Methods

def initializeServer : MethodHandler := fun _ =>
  let listChanged : Bytes × Json Bytes := (ascii "listChanged", .bool false)
  return .object [(ascii "protocolVersion", .str (ascii "2025-11-25")),
    (ascii "serverInfo", .object [(ascii "name", .str (ascii "aegis-mcp-server")),
      (ascii "version", .str (ascii "1.0.0"))]),
    (ascii "capabilities", .object [(ascii "tools", .object [listChanged]),
      (ascii "resources", .object [listChanged, (ascii "subscribe", .bool true)]),
      (ascii "prompts", .object [listChanged]), (ascii "logging", .obj [])])]

def ping : MethodHandler := fun _ => return .obj []

/-- The three paged lists differ in their key and in what is listed. -/
def list (key : Bytes) (all : List (Json Bytes)) : MethodHandler := fun params =>
  return listPage key all params

def resourcesTemplatesList : MethodHandler := fun _ =>
  return .object [(ascii "resourceTemplates", .arr [.object [
    (ascii "uriTemplate", .str (ascii "sys://metrics/\x7bcomponent\x7d")),
    (ascii "name", .str (ascii "system_metrics_template")),
    (ascii "description", .str (Text.encode
      "动态获取系统各组件的指标（component 可为 cpu / disk / network）".toList))]])]

def metricsPrefix : Bytes := ascii "sys://metrics/"

def metricsText (component : Bytes) : Bytes :=
  Text.encode "动态组件 [".toList ++ component ++ Text.encode "] 状态: 运行良好, 负载极低。".toList

def resourcesRead : MethodHandler := fun params => do
  let uri ← stringParam params (ascii "uri") []
  if metricsPrefix <+: uri then
    return .object [(ascii "contents", .arr [.object [(ascii "uri", .str uri),
      (ascii "mimeType", .str (ascii "text/plain")),
      (ascii "text", .str (metricsText (uri.drop metricsPrefix.length)))]])]
  else .throws (.rpc invalidParams (ascii "Resource not found: " ++ uri) .null)

/-- `resources/subscribe` and `resources/unsubscribe`, as far as the caller sees them; a
request without a session subscribes to nothing. -/
def resourcesSubscribe : MethodHandler := fun params => do
  let _ ← stringParam params (ascii "uri") []
  return .obj []

def promptsGet : MethodHandler := fun params => do
  let name ← stringParam params (ascii "name") []
  let _ ← objectParam params (ascii "arguments")
  .throws (.rpc invalidParams (ascii "Prompt not found: " ++ name) .null)

/-- The levels of the loggers change, which no response shows. -/
def loggingSetLevel : MethodHandler := fun params => do
  let _ ← stringParam params (ascii "level") (ascii "info")
  return .obj []

def rootsList : MethodHandler := fun _ => return .object [(ascii "roots", .arr [])]

/-- The completions of the one argument that has any. -/
def focusValues (input : Bytes) : List (Json Bytes) :=
  ([ascii "memory", ascii "cpu", ascii "disk", ascii "network"].filter (input <+: ·)).map .str

def completions (values : List (Json Bytes)) : Json Bytes :=
  .object [(ascii "completion", .object [(ascii "values", .arr values),
    (ascii "total", .int values.length), (ascii "hasMore", .bool false)])]

def completionComplete : MethodHandler := fun params => do
  let ref ← objectParam params (ascii "ref")
  let argument ← objectParam params (ascii "argument")
  if (← stringParam ref (ascii "type") []) ≠ ascii "prompt" then return completions []
  else if (← stringParam ref (ascii "name") []) ≠ ascii "analyze_server_health" then
    return completions []
  else if (← stringParam argument (ascii "name") []) ≠ ascii "focus" then return completions []
  else return completions (focusValues (← stringParam argument (ascii "value") []))

/-- The registered methods; `tools` are the tools in the order of the hash map. -/
def table (tools : List ProbeTool) : List (Bytes × MethodHandler) :=
  [(ascii "initialize", initializeServer), (ascii "ping", ping),
    (ascii "tools/list", list (ascii "tools") (tools.map ProbeTool.listed)),
    (ascii "resources/list", list (ascii "resources") []),
    (ascii "resources/templates/list", resourcesTemplatesList),
    (ascii "resources/read", resourcesRead),
    (ascii "resources/subscribe", resourcesSubscribe),
    (ascii "resources/unsubscribe", resourcesSubscribe),
    (ascii "prompts/list", list (ascii "prompts") []), (ascii "prompts/get", promptsGet),
    (ascii "logging/setLevel", loggingSetLevel), (ascii "roots/list", rootsList),
    (ascii "completion/complete", completionComplete)]

def find (tools : List ProbeTool) (method : Bytes) : Option MethodHandler :=
  ((table tools).find? fun entry => entry.1 = method).map Prod.snd

end Methods

/-! Every method ends with a value or an exception that can be told, whatever its
parameters, as long as these have a text themselves. -/

section HasText
variable {floatText : FloatVal → Bytes}

theorem isSome_dump_errorObject (code : ℤ) (message : Bytes) (data : Json Bytes) :
    ((errorObject code message data).dump floatText).isSome ↔
      Text.isUtf8 message ∧ (data.dump floatText).isSome := by
  unfold errorObject
  simp only [Json.isSome_dump_object, List.forall_mem_cons, Json.isSome_dump_str]
  constructor
  · intro h
    exact ⟨h.2.1.2, h.2.2.1.2⟩
  · intro h
    exact ⟨⟨by decide +kernel, Json.isSome_dump_int code⟩, ⟨by decide +kernel, h.1⟩,
      ⟨by decide +kernel, h.2⟩, List.forall_mem_nil _⟩

theorem isUtf8_decimal (n : ℕ) : Text.isUtf8 (Printf.decimal n) := by
  apply Text.isUtf8_of_ascii
  intro b hb
  exact UInt8.lt_of_le_of_lt (Printf.decimal_digits n b hb).2 (by decide)

theorem isSome_dump_listPage {key : Bytes} (hkey : Text.isUtf8 key) {all : List (Json Bytes)}
    (hall : ∀ v ∈ all, (v.dump floatText).isSome) (params : Json Bytes) :
    ((listPage key all params).dump floatText).isSome := by
  have hpage : ((Json.arr ((all.drop (pageOffset params)).take pageSize)).dump floatText).isSome := by
    rw [Json.isSome_dump_arr]
    exact fun v hv => hall v (List.mem_of_mem_drop (List.mem_of_mem_take hv))
  unfold listPage
  dsimp only
  split_ifs
  · simp only [Json.isSome_dump_object, List.forall_mem_cons]
    exact ⟨⟨hkey, rfl⟩, List.forall_mem_nil _⟩
  · simp only [Json.isSome_dump_object, List.forall_mem_cons, Json.isSome_dump_str]
    exact ⟨⟨hkey, hpage⟩, ⟨by decide +kernel, isUtf8_decimal _⟩, List.forall_mem_nil _⟩
  · simp only [Json.isSome_dump_object, List.forall_mem_cons]
    exact ⟨⟨hkey, hpage⟩, List.forall_mem_nil _⟩

theorem isSome_dump_listed (tool : ProbeTool) : (tool.listed.dump floatText).isSome := by
  cases tool <;> rfl

end HasText

/-- A string in a value that has a text is UTF-8. -/
theorem isUtf8_stringValue {floatText : FloatVal → Bytes} {params : Json Bytes}
    (hparams : (params.dump floatText).isSome) {key fallback s : Bytes}
    (hfallback : Text.isUtf8 fallback) (h : stringValue params key fallback = .ok s) :
    Text.isUtf8 s := by
  unfold stringValue at h
  cases params with
  | obj fields =>
    dsimp only at h
    cases hfield : (Json.obj fields).field key with
    | none =>
      rw [hfield] at h
      rwa [← Except.ok.inj h]
    | some v =>
      have hv := Json.isSome_dump_field hfield hparams
      rw [hfield] at h
      cases v with
      | str s' =>
        rw [← Except.ok.inj h]
        exact (Json.isSome_dump_str s').mp hv
      | null | bool | int | float | arr | obj => cases h
  | null | bool | int | float | str | arr => cases h

/-- An exception whose response has a text. -/
def Server.Tellable (S : Server) (params : Json Bytes) (e : Exn) : Prop :=
  ((S.errorOf params e).dump S.floatText).isSome

section Settles
variable {S : Server} (hwhat : ∀ params e, Text.isUtf8 (S.what params e)) {told : Json Bytes}

theorem tellable_rpc {message : Bytes} (h : Text.isUtf8 message) (code : ℤ) :
    S.Tellable told (.rpc code message .null) :=
  (isSome_dump_errorObject _ _ _).mpr ⟨h, Json.isSome_dump_null⟩

include hwhat

theorem tellable_json (e : JsonError) : S.Tellable told (.json e) :=
  (isSome_dump_errorObject _ _ _).mpr ⟨hwhat told e, Json.isSome_dump_null⟩

theorem settles_stringParam {params : Json Bytes} (hparams : (params.dump S.floatText).isSome)
    (key : Bytes) {fallback : Bytes} (hfallback : Text.isUtf8 fallback) :
    (stringParam params key fallback).Settles (S.Tellable told) (Text.isUtf8 ·) := by
  unfold stringParam
  cases hvalue : stringValue params key fallback with
  | error e => exact tellable_json hwhat e
  | ok s => exact isUtf8_stringValue hparams hfallback hvalue

theorem settles_objectParam {params : Json Bytes} (hparams : (params.dump S.floatText).isSome)
    (key : Bytes) : (objectParam params key).Settles (S.Tellable told)
      fun v => (v.dump S.floatText).isSome := by
  unfold objectParam valueOr
  cases params with
  | obj fields =>
    dsimp only
    cases hfield : (Json.obj fields).field key with
    | none => exact rfl
    | some v => exact Json.isSome_dump_field hfield hparams
  | null | bool | int | float | str | arr => exact tellable_json hwhat _

end Settles

namespace Methods

section HasText
variable {floatText : FloatVal → Bytes}

theorem isSome_dump_completions {values : List (Json Bytes)}
    (h : ∀ v ∈ values, (v.dump floatText).isSome) :
    ((completions values).dump floatText).isSome := by
  unfold completions
  simp only [Json.isSome_dump_object, List.forall_mem_cons, Json.isSome_dump_arr]
  exact ⟨⟨by decide +kernel, ⟨by decide +kernel, h⟩, ⟨by decide +kernel, Json.isSome_dump_int _⟩,
    ⟨by decide +kernel, Json.isSome_dump_bool false⟩, List.forall_mem_nil _⟩, List.forall_mem_nil _⟩

theorem isSome_dump_focusValues (input : Bytes) :
    ∀ v ∈ focusValues input, (v.dump floatText).isSome := by
  intro v hv
  unfold focusValues at hv
  obtain ⟨s, hs, rfl⟩ := List.mem_map.mp hv
  have hmem := List.mem_of_mem_filter hs
  simp only [List.mem_cons, List.not_mem_nil, or_false] at hmem
  rcases hmem with rfl | rfl | rfl | rfl <;> rfl

end HasText

/-- The handler ends with a value or an exception that can be told. -/
def Answers (S : Server) (handler : MethodHandler) : Prop :=
  ∀ params, (params.dump S.floatText).isSome →
    (handler params).Settles (S.Tellable params) fun v => (v.dump S.floatText).isSome

section Answers
variable {S : Server}

theorem answers_constant {v : Json Bytes} (h : (v.dump S.floatText).isSome) :
    Answers S fun _ => return v := fun _ _ => h

theorem answers_list {key : Bytes} (hkey : Text.isUtf8 key) {all : List (Json Bytes)}
    (hall : ∀ v ∈ all, (v.dump S.floatText).isSome) : Answers S (list key all) :=
  fun params _ => isSome_dump_listPage hkey hall params

variable (hwhat : ∀ params e, Text.isUtf8 (S.what params e))
include hwhat

theorem answers_resourcesRead : Answers S resourcesRead := by
  intro params hparams
  apply (settles_stringParam hwhat hparams _ rfl).bind
  intro uri huri
  split_ifs with hmetrics
  · obtain ⟨component, rfl⟩ := hmetrics
    have hcomponent : Text.isUtf8 component := by
      rw [Text.isUtf8_append (by decide +kernel)] at huri
      exact huri
    have htext : Text.isUtf8 (metricsText component) := by
      unfold metricsText
      rw [List.append_assoc, Text.isUtf8_append (by decide +kernel), Text.isUtf8_append hcomponent]
      decide +kernel
    show ((Json.object _).dump S.floatText).isSome
    rw [List.drop_left]
    simp only [Json.isSome_dump_object, List.forall_mem_cons, Json.isSome_dump_arr,
      Json.isSome_dump_str]
    exact ⟨⟨by decide +kernel, ⟨⟨by decide +kernel, huri⟩, ⟨by decide +kernel, by decide +kernel⟩,
      ⟨by decide +kernel, htext⟩, List.forall_mem_nil _⟩, List.forall_mem_nil _⟩, List.forall_mem_nil _⟩
  · apply tellable_rpc
    rw [Text.isUtf8_append (by decide +kernel)]
    exact huri

theorem answers_resourcesSubscribe : Answers S resourcesSubscribe := fun _ hparams =>
  (settles_stringParam hwhat hparams _ rfl).bind fun _ _ => rfl

theorem answers_loggingSetLevel : Answers S loggingSetLevel := fun _ hparams =>
  (settles_stringParam hwhat hparams _ (by decide +kernel)).bind fun _ _ => rfl

theorem answers_promptsGet : Answers S promptsGet := by
  intro params hparams
  apply (settles_stringParam hwhat hparams _ rfl).bind
  intro name hname
  apply (settles_objectParam hwhat hparams _).bind
  intro arguments _
  apply tellable_rpc
  rw [Text.isUtf8_append (by decide +kernel)]
  exact hname

theorem answers_completionComplete : Answers S completionComplete := by
  intro params hparams
  have hnone : ((completions []).dump S.floatText).isSome := rfl
  apply (settles_objectParam hwhat hparams _).bind
  intro ref href
  apply (settles_objectParam hwhat hparams _).bind
  intro argument hargument
  apply (settles_stringParam hwhat href _ rfl).bind
  intro type _
  split_ifs
  · exact hnone
  · apply (settles_stringParam hwhat href _ rfl).bind
    intro name _
    split_ifs
    · exact hnone
    · apply (settles_stringParam hwhat hargument _ rfl).bind
      intro argumentName _
      split_ifs
      · exact hnone
      · apply (settles_stringParam hwhat hargument _ rfl).bind
        intro input _
        exact isSome_dump_completions (isSome_dump_focusValues input)

theorem answers_table (tools : List ProbeTool) : ∀ entry ∈ table tools, Answers S entry.2 := by
  have htools : ∀ v ∈ tools.map ProbeTool.listed, (v.dump S.floatText).isSome := by
    intro v hv
    obtain ⟨tool, -, rfl⟩ := List.mem_map.mp hv
    exact isSome_dump_listed tool
  unfold table
  simp only [List.forall_mem_cons]
  exact ⟨answers_constant rfl, answers_constant rfl, answers_list (by decide +kernel) htools,
    answers_list (by decide +kernel) (List.forall_mem_nil _), answers_constant rfl,
    answers_resourcesRead hwhat, answers_resourcesSubscribe hwhat, answers_resourcesSubscribe hwhat,
    answers_list (by decide +kernel) (List.forall_mem_nil _), answers_promptsGet hwhat,
    answers_loggingSetLevel hwhat, answers_constant rfl, answers_completionComplete hwhat,
    List.forall_mem_nil _⟩

theorem answers_find {tools : List ProbeTool} {method : Bytes} {handler : MethodHandler}
    (h : find tools method = some handler) : Answers S handler := by
  obtain ⟨entry, hentry, rfl⟩ := Option.map_eq_some_iff.mp h
  exact answers_table hwhat tools entry (List.mem_of_find?_eq_some hentry)

end Answers

end Methods

end Aegis.Mcp
