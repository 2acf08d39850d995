import Aegis.Lib.Completion
import Aegis.Mcp.NetTools
import Aegis.Mcp.SecTools

/-! The three tools of the probe and the registry that calls them, `registry.hh`. -/
namespace Aegis.Mcp

/-- `v[key]` on a const value: on an object without the key it is undefined. -/
def constIndex (v : Json Bytes) (key : Bytes) : Completion JsonError (Json Bytes) :=
  match v with
  | .obj _ =>
    match v.field key with
    | some w => .returns w
    | none => .undefined
  | _ => .throws (.typeError 305)

/-- `v.value(key, fallback)` for a value of any type. -/
def valueOr (v : Json Bytes) (key : Bytes) (fallback : Json Bytes) :
    Completion JsonError (Json Bytes) :=
  match v with
  | .obj _ => .returns ((v.field key).getD fallback)
  | _ => .throws (.typeError 306)

def toStdString : Json Bytes → Completion JsonError Bytes
  | .str s => .returns s
  | _ => .throws (.typeError 302)

/-- The conversion to `int` keeps the low 32 bits; `truncate` is what the compiled code
makes of a floating-point value. -/
def toInt (truncate : FloatVal → ℤ) : Json Bytes → Completion JsonError ℤ
  | .int z => .returns (z.bmod (2 ^ 32))
  | .bool b => .returns (if b then 1 else 0)
  | .float x => .returns (truncate x)
  | _ => .throws (.typeError 302)

theorem constIndex_eq {v w : Json Bytes} {key : Bytes} (h : v.field key = some w) :
    constIndex v key = .returns w := by
  cases v with
  | obj fields => simp only [constIndex, h]
  | null | bool | int | float | str | arr => cases h

theorem valueOr_eq {v w : Json Bytes} {key : Bytes} (h : v.field key = some w)
    (fallback : Json Bytes) : valueOr v key fallback = .returns w := by
  cases v with
  | obj fields => simp only [valueOr, h, Option.getD_some]
  | null | bool | int | float | str | arr => cases h

/-- What the tools read and call on the machine: `/proc`, the command line of each process
whose file opens, and how the system calls turn out. -/
structure Host where
  proc : Proc
  cmdline : ℤ → Option Bytes
  os : Os

/-- An exception of the JSON library or of `std::filesystem`, or a `JsonRpcException`. -/
inductive Exn where
  | json (e : JsonError)
  | filesystem (e : FilesystemError)
  | rpc (code : ℤ) (message : Bytes) (data : Json Bytes)

namespace NetTools

def found (pid : ℤ) : Json Bytes :=
  .object [(ascii "status", .str (ascii "success")), (ascii "pid", .int pid)]

def notFound : Json Bytes :=
  .object [(ascii "status", .str (ascii "failed")),
    (ascii "error", .str (ascii "Connection not found or process exited."))]

def execute (truncate : FloatVal → ℤ) (proc : Proc) (args : Json Bytes) :
    Completion Exn (Json Bytes) := do
  let ip ← (constIndex args (ascii "ip") >>= toStdString).mapError .json
  let port ← (constIndex args (ascii "port") >>= toInt truncate).mapError .json
  let pid ← (Completion.ofExcept (parseProcNetTcp ip port proc)).mapError .filesystem
  return if 0 < pid then found pid else notFound

end NetTools

namespace OsTools

def notFound : Json Bytes :=
  .object [(ascii "status", .str (ascii "failed")),
    (ascii "error", .str (ascii "Process not found or access denied."))]

/-- The arguments of a command line end with a NUL each. -/
def blanked (b : UInt8) : UInt8 := if b = 0 then 32 else b

def analysed (cmdline : Bytes) : Json Bytes :=
  .object [(ascii "status", .str (ascii "success")),
    (ascii "process_info", .object [(ascii "cmdline", .str cmdline)])]

def execute (truncate : FloatVal → ℤ) (cmdlineFile : ℤ → Option Bytes) (args : Json Bytes) :
    Completion Exn (Json Bytes) := do
  let pid ← (constIndex args (ascii "pid") >>= toInt truncate).mapError .json
  match cmdlineFile pid with
  | none => return notFound
  | some content => return analysed (content.map blanked)

end OsTools

inductive ProbeTool where
  | netTools
  | osTools
  | secTools
  deriving DecidableEq

/-- The definition of a tool whose arguments are all required. -/
def definitionOf (description : Bytes) (properties : List (Bytes × Json Bytes)) :
    List (Bytes × Json Bytes) :=
  [(ascii "description", .str description),
    (ascii "inputSchema", .object [(ascii "type", .str (ascii "object")),
      (ascii "properties", .object properties),
      (ascii "required", .arr (properties.map fun p => .str p.1))])]

def property (type description : Bytes) : Json Bytes :=
  .object [(ascii "type", .str type), (ascii "description", .str description)]

namespace ProbeTool

def getName : ProbeTool → Bytes
  | netTools => ascii "get_pid_by_connection"
  | osTools => ascii "analyze_process_behavior"
  | secTools => ascii "block_malicious_ip"

/-- The members of `get_definition()`. -/
def definition : ProbeTool → List (Bytes × Json Bytes)
  | netTools => definitionOf
      (ascii "Find the process ID (PID) associated with a given IPv4 address and port.")
      [(ascii "ip", property (ascii "string") (ascii "The IPv4 address (e.g., 1.2.3.4)")),
        (ascii "port", property (ascii "integer") (ascii "The network port number (e.g., 443)"))]
  | osTools => definitionOf
      (ascii ("Analyze a running process's memory maps and command line " ++
        "to identify malicious behavior."))
      [(ascii "pid", property (ascii "integer") (ascii "The Process ID (PID) to inspect."))]
  | secTools => definitionOf
      (ascii "Block a malicious IPv4 address using system iptables firewall.")
      [(ascii "ip", property (ascii "string") (ascii "The malicious IPv4 address to block."))]

/-- Only `block_malicious_ip` writes: to the firewall and to stdout. -/
def execute (truncate : FloatVal → ℤ) (host : Host) (tool : ProbeTool) (args : Json Bytes) :
    Routine Firewall Bytes Exn (Json Bytes) :=
  match tool with
  | netTools => .lift (NetTools.execute truncate host.proc args)
  | osTools => .lift (OsTools.execute truncate host.cmdline args)
  | secTools => fun fw =>
    let e := SecTools.execute host.os fw args
    ⟨e.firewall, e.stdout, (Completion.ofExcept e.reply).mapError .json⟩

end ProbeTool

def invalidParams : ℤ := -32602

def findTool (name : Bytes) : Option ProbeTool :=
  [ProbeTool.netTools, .osTools, .secTools].find? (fun tool => tool.getName = name)

/-- `isError` is added to a result that does not have it. -/
def withIsError : Json Bytes → Completion JsonError (Json Bytes)
  | .obj fields =>
    match (Json.obj fields).field (ascii "isError") with
    | some _ => .returns (.obj fields)
    | none => .returns (.object ((ascii "isError", .bool false) :: fields))
  | .null => .returns (.object [(ascii "isError", .bool false)])
  | _ => .throws (.typeError 305)

def callTool (truncate : FloatVal → ℤ) (host : Host) (name : Bytes) (args : Json Bytes) :
    Routine Firewall Bytes Exn (Json Bytes) :=
  match findTool name with
  | none => .lift (.throws (.rpc invalidParams (ascii "Tool not found: " ++ name) .null))
  | some tool => do
    let result ← tool.execute truncate host args
    .lift ((withIsError result).mapError .json)

/-! Which arguments the tools can read. -/

def HasStatus (result : Json Bytes) : Prop := ∃ s, result.field (ascii "status") = some (.str s)

/-- No const lookup of the tool, up to the first exception, misses its key. -/
def ProbeTool.FindsKeys (tool : ProbeTool) (args : Json Bytes) : Prop :=
  match tool with
  | netTools => ∃ ip, args.field (ascii "ip") = some ip ∧
      ∀ s, ip = .str s → ∃ port, args.field (ascii "port") = some port
  | osTools => ∃ pid, args.field (ascii "pid") = some pid
  | secTools => True

theorem constIndex_safe_iff (P : Json Bytes → Prop) (v : Json Bytes) (key : Bytes) :
    (constIndex v key).Safe P ↔ ∀ fields, v = .obj fields → ∃ w, v.field key = some w ∧ P w := by
  cases v with
  | obj fields =>
    unfold constIndex
    cases (Json.obj fields).field key <;> simp
  | null | bool | int | float | str | arr => simp [constIndex]

theorem toStdString_safe_iff (P : Bytes → Prop) (v : Json Bytes) :
    (toStdString v).Safe P ↔ ∀ s, v = .str s → P s := by
  cases v <;> simp [toStdString]

theorem toInt_safe {P : ℤ → Prop} (truncate : FloatVal → ℤ) (h : ∀ z, P z) (v : Json Bytes) :
    (toInt truncate v).Safe P := by
  cases v <;> simp [toInt, h]

theorem NetTools.execute_safe_iff (truncate : FloatVal → ℤ) (proc : Proc) (args : Json Bytes) :
    (NetTools.execute truncate proc args).Safe HasStatus ↔
      ∀ fields, args = .obj fields → ProbeTool.netTools.FindsKeys args := by
  have hreply : ∀ pid : ℤ, HasStatus (if 0 < pid then found pid else notFound) := by
    intro pid
    split_ifs
    · exact ⟨_, Json.field_object _ _⟩
    · exact ⟨_, Json.field_object _ _⟩
  unfold NetTools.execute ProbeTool.FindsKeys
  simp only [Completion.safe_bind_iff, Completion.safe_mapError_iff, constIndex_safe_iff,
    toStdString_safe_iff]
  constructor
  · intro h fields hobj
    obtain ⟨ip, hip, hread⟩ := h fields hobj
    refine ⟨ip, hip, fun s hs => ?_⟩
    obtain ⟨port, hport, -⟩ := hread s hs fields hobj
    exact ⟨port, hport⟩
  · intro h fields hobj
    obtain ⟨ip, hip, hread⟩ := h fields hobj
    refine ⟨ip, hip, fun s hs _ _ => ?_⟩
    obtain ⟨port, hport⟩ := hread s hs
    refine ⟨port, hport, toInt_safe truncate (fun z => ?_) port⟩
    rw [Completion.safe_ofExcept]
    exact fun pid _ => hreply pid

theorem OsTools.execute_safe_iff (truncate : FloatVal → ℤ) (cmdlineFile : ℤ → Option Bytes)
    (args : Json Bytes) :
    (OsTools.execute truncate cmdlineFile args).Safe HasStatus ↔
      ∀ fields, args = .obj fields → ProbeTool.osTools.FindsKeys args := by
  have hreply : ∀ pid, Completion.Safe HasStatus (match cmdlineFile pid with
      | none => (return notFound : Completion Exn (Json Bytes))
      | some content => return analysed (content.map blanked)) := by
    intro pid
    cases cmdlineFile pid with
    | none => exact ⟨_, Json.field_object _ _⟩
    | some content => exact ⟨_, Json.field_object _ _⟩
  unfold OsTools.execute ProbeTool.FindsKeys
  simp only [Completion.safe_bind_iff, Completion.safe_mapError_iff, constIndex_safe_iff]
  constructor
  · intro h fields hobj
    obtain ⟨pid, hpid, -⟩ := h fields hobj
    exact ⟨pid, hpid⟩
  · intro h fields hobj
    obtain ⟨pid, hpid⟩ := h fields hobj
    exact ⟨pid, hpid, toInt_safe truncate hreply pid⟩

theorem SecTools.execute_safe (os : Os) (fw : Firewall) (args : Json Bytes) :
    (Completion.ofExcept (SecTools.execute os fw args).reply).Safe HasStatus := by
  have hfallback : ∀ log ip, (Completion.ofExcept (SecTools.fallback os fw log ip).reply).Safe HasStatus := by
    intro log ip
    unfold SecTools.fallback
    cases iptablesBlock os fw.inputRules ip with
    | none => exact ⟨_, Json.field_object _ _⟩
    | some rules => exact ⟨_, Json.field_object _ _⟩
  unfold SecTools.execute
  cases stringValue args (ascii "ip") [] with
  | error e => trivial
  | ok ip =>
    dsimp only
    cases Inet.inetPton ip with
    | none => exact ⟨_, Json.field_object _ _⟩
    | some addr =>
      dsimp only
      split_ifs
      · cases rawBpfMapUpdate os fw.blacklist addr.sAddr 1 with
        | none => exact hfallback _ ip
        | some m => exact ⟨_, Json.field_object _ _⟩
      · exact hfallback _ ip

/-- A tool is left by a reply with a status or by an exception exactly when it finds its keys
in an argument object; what is no object leads to an exception. -/
theorem ProbeTool.execute_safe_iff (truncate : FloatVal → ℤ) (host : Host) (fw : Firewall)
    (tool : ProbeTool) (args : Json Bytes) :
    (tool.execute truncate host args fw).completion.Safe HasStatus ↔
      ∀ fields, args = .obj fields → tool.FindsKeys args := by
  cases tool with
  | netTools => exact NetTools.execute_safe_iff truncate host.proc args
  | osTools => exact OsTools.execute_safe_iff truncate host.cmdline args
  | secTools =>
    refine iff_of_true ?_ fun _ _ => trivial
    exact (Completion.safe_mapError_iff _ _ _).mpr (SecTools.execute_safe host.os fw args)

theorem findTool_getName (tool : ProbeTool) : findTool tool.getName = some tool := by
  cases tool <;> decide +kernel

theorem withIsError_cases (fields : List (Bytes × Json Bytes)) :
    withIsError (.obj fields) = .returns (.obj fields) ∨
      withIsError (.obj fields) = .returns (.object ((ascii "isError", .bool false) :: fields)) := by
  cases hflag : (Json.obj fields).field (ascii "isError") with
  | some v => exact Or.inl (by simp only [withIsError, hflag])
  | none => exact Or.inr (by simp only [withIsError, hflag])

/-- `isError` does not stand in the way of a status. -/
theorem withIsError_of_hasStatus {result : Json Bytes} (h : HasStatus result) :
    ∃ w, withIsError result = .returns w ∧ HasStatus w := by
  obtain ⟨s, hs⟩ := h
  cases result with
  | obj fields =>
    rcases withIsError_cases fields with hw | hw
    · exact ⟨_, hw, s, hs⟩
    · refine ⟨_, hw, s, ?_⟩
      rw [Json.field_object, ← hs]
      rfl
  | null | bool | int | float | str | arr => cases hs

/-! Which replies have a text. -/

section HasText
variable {floatText : FloatVal → Bytes}

theorem OsTools.isSome_dump_notFound : (OsTools.notFound.dump floatText).isSome := by
  unfold OsTools.notFound
  simp only [Json.isSome_dump_object, List.forall_mem_cons, Json.isSome_dump_str]
  exact ⟨by decide +kernel, by decide +kernel, List.forall_mem_nil _⟩

theorem OsTools.isSome_dump_analysed (cmdline : Bytes) :
    ((OsTools.analysed cmdline).dump floatText).isSome ↔ Text.isUtf8 cmdline := by
  unfold OsTools.analysed
  simp only [Json.isSome_dump_object, List.forall_mem_cons, Json.isSome_dump_str]
  constructor
  · intro h
    exact h.2.1.2.1.2
  · intro h
    exact ⟨by decide +kernel, ⟨by decide +kernel, ⟨by decide +kernel, h⟩, List.forall_mem_nil _⟩,
      List.forall_mem_nil _⟩

theorem OsTools.isUtf8_blanked (content : Bytes) :
    Text.isUtf8 (content.map OsTools.blanked) = Text.isUtf8 content := by
  apply Text.isUtf8_map
  · intro b hb
    unfold OsTools.blanked
    split_ifs
    · decide
    · exact hb
  · intro b hb
    apply if_neg
    rintro rfl
    exact hb (by decide)

theorem isSome_dump_withIsError {result w : Json Bytes} (h : withIsError result = .returns w)
    (hobj : ∃ fields, result = .obj fields) :
    (w.dump floatText).isSome ↔ (result.dump floatText).isSome := by
  obtain ⟨fields, rfl⟩ := hobj
  rcases withIsError_cases fields with hw | hw
  · rw [hw] at h
    rw [← Completion.returns.inj h]
  · rw [hw] at h
    rw [← Completion.returns.inj h, Json.isSome_dump_object, List.forall_mem_cons,
      Json.isSome_dump_obj]
    exact and_iff_right ⟨by decide +kernel, Json.isSome_dump_bool false⟩

end HasText

end Aegis.Mcp
