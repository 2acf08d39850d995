import Aegis.DataPlane.Callback
import Aegis.Lib.StreamLines
import Aegis.Mcp.SecTools

/-! The probe's stdout: the thread of the data plane writes notifications and the log of
its engine and its sniffer to it, the reactor the log of `SecTools` and the responses of
the StdIO transport. Only `write_mcp_message` takes `cout_mtx`. -/
namespace Aegis.Mcp

open SharedStream

inductive Thread where
  | dataPlane
  | reactor
  deriving DecidableEq

/-- `write_mcp_message`. -/
def writeMcpMessage (msg : Bytes) : List Op :=
  [.lock, .insert msg, .insert (ascii "\n"), .flush, .unlock]

/-- What the thread of the data plane writes to stdout. -/
inductive DataPlaneWrite where
  | modelLoaded (modelPath : Bytes) (nIn nOut : ℕ)
  | listening (interface : Bytes)
  | heuristicHit (sig : Bytes)
  | message (msg : Bytes)
  deriving DecidableEq

def DataPlaneWrite.ops : DataPlaneWrite → List Op
  | .modelLoaded modelPath nIn nOut =>
    [ascii "[ONNXEngine] Model loaded: ", modelPath, ascii " | inputs=", Printf.decimal nIn,
      ascii " outputs=", Printf.decimal nOut, ascii "\n"].map Op.insert
  | .listening interface =>
    [ascii "[PcapSniffer] Successfully listening on ", interface,
      ascii " using libpcap.\n"].map Op.insert
  | .heuristicHit sig => [ascii "[ONNXEngine] Heuristic hit: '", sig, ascii "'\n"].map Op.insert
  | .message msg => writeMcpMessage msg

def DataPlaneWrite.message? : DataPlaneWrite → Option Bytes
  | .message msg => some msg
  | _ => none

/-- What is passed to `write_mcp_message`. -/
def mcpMessages (dataPlane : List DataPlaneWrite) : List Bytes :=
  dataPlane.filterMap DataPlaneWrite.message?

/-- What the reactor writes to stdout. -/
inductive ReactorWrite where
  | secTools (os : Os) (fw : Firewall) (args : Json Bytes)
  | response (result : Bytes)

def ReactorWrite.ops : ReactorWrite → List Op
  | .secTools os fw args => (SecTools.execute os fw args).stdout.map Op.insert
  | .response result => [.insert result, .insert (ascii "\n"), .flush]

/-- Both threads before their first operation. -/
def process (dataPlane : List DataPlaneWrite) (writes : List ReactorWrite) : Config Thread where
  rest
    | .dataPlane => dataPlane.flatMap DataPlaneWrite.ops
    | .reactor => writes.flatMap ReactorWrite.ops

/-- The text of a notification for a captured source. -/
def IsAlert (floatText : FloatVal → Bytes) (msg : Bytes) : Prop :=
  ∃ (score : FloatVal) (src : Inet.IPv4) (dstPort : ℕ),
    Json.dump floatText (DataPlane.threatDetected score (Inet.inetNtop src) dstPort) = some msg

theorem IsAlert.newline_notMem {floatText : FloatVal → Bytes} (hfloat : ∀ x, 10 ∉ floatText x)
    {msg : Bytes} (h : IsAlert floatText msg) : 10 ∉ msg := by
  obtain ⟨score, src, dstPort, hdump⟩ := h
  exact Json.newline_notMem_dump hfloat _ _ hdump

/-- Every write of the data plane ends its line; a message is written under the mutex. -/
theorem DataPlaneWrite.writes (w : DataPlaneWrite) (h : ∀ m ∈ w.message?, 10 ∉ m) :
    Writes w.ops w.message? := by
  have hplain : ∀ (ss : List Bytes) (last : Bytes),
      Writes ((ss ++ [last ++ [10]]).map Op.insert) none := by
    intro ss last
    refine .plain _ ?_ (by simp)
    rw [text_inserts, List.flatten_append, List.flatten_singleton, ← List.append_assoc]
    exact atLineStart_concat _
  cases w with
  | modelLoaded modelPath nIn nOut => exact hplain [_, _, _, _, _, _] []
  | listening interface => exact hplain [_, _] (ascii " using libpcap.")
  | heuristicHit sig => exact hplain [_, _] (ascii "'")
  | message msg => exact .framed msg (h msg rfl)

/-- Alert framing on the shared stream. In a run in which no thread inserts into a line
the other one has begun, the notifications whose writing has returned are complete
lines, in order, and in the end all of them are. -/
theorem alerts_are_lines {floatText : FloatVal → Bytes} (hfloat : ∀ x, 10 ∉ floatText x)
    {dataPlane : List DataPlaneWrite} (halerts : ∀ m ∈ mcpMessages dataPlane, IsAlert floatText m)
    (writes : List ReactorWrite) {schedule : List Thread} {c : Config Thread}
    (hrun : run schedule (process dataPlane writes) = some c)
    (hord : OrderlyRun schedule (process dataPlane writes)) :
    ((mcpMessages dataPlane).take (c.released .dataPlane)).Sublist (completeLines c.stream) ∧
      (c.rest .dataPlane = [] → (mcpMessages dataPlane).Sublist (completeLines c.stream)) := by
  have hwrites : ∀ w ∈ dataPlane, Writes w.ops w.message? := fun w hw => w.writes fun m hm =>
    (halerts m (List.mem_filterMap.mpr ⟨w, hw, hm⟩)).newline_notMem hfloat
  exact messages_are_lines hwrites rfl rfl rfl rfl hord hrun

/-- The text of the score 0.99f, as the library prints it. -/
def sampleFloatText (_ : FloatVal) : Bytes := ascii "0.9900000095367432"

def sampleAlert : Bytes :=
  ascii ("\x7b\"jsonrpc\":\"2.0\",\"method\":\"notifications/threat_detected\",\"params\":" ++
    "\x7b\"confidence\":0.9900000095367432,\"dst_port\":443,\"severity\":\"CRITICAL\"," ++
    "\"src_ip\":\"1.2.3.4\",\"type\":\"High_Threat_Detected\"\x7d\x7d")

theorem isAlert_sample : IsAlert sampleFloatText sampleAlert :=
  ⟨.fin 0.99, ⟨1, 2, 3, 4⟩, 443, by decide +kernel⟩

def sampleReply : Bytes := ascii "\x7b\"id\":1,\"jsonrpc\":\"2.0\",\"result\":\x7b\x7d\x7d"

/-- The notification is written between a response and its newline, and is no line. -/
theorem alert_glued_to_response :
    ¬ ∀ schedule c, run schedule (process [.message sampleAlert] [.response sampleReply]) = some c →
      c.rest .dataPlane = [] → [sampleAlert].Sublist (completeLines c.stream) := by
  intro h
  have hglued : (run [.reactor, .dataPlane, .dataPlane, .dataPlane, .dataPlane, .dataPlane,
      .reactor, .reactor] (process [.message sampleAlert] [.response sampleReply])).any
        (fun c => c.rest .dataPlane = [] ∧ ¬ [sampleAlert].Sublist (completeLines c.stream)) =
      true := by decide +kernel
  obtain ⟨c, hc, hno⟩ := (Option.any_eq_true _ _).mp hglued
  obtain ⟨hrest, hnot⟩ := of_decide_eq_true hno
  exact hnot (h _ c hc hrest)

/-- Written one after the other, the notification and the response are lines. -/
theorem alerts_are_lines_sample :
    ∃ c, run [.dataPlane, .dataPlane, .dataPlane, .dataPlane, .dataPlane, .reactor, .reactor,
        .reactor] (process [.message sampleAlert] [.response sampleReply]) = some c ∧
      [sampleAlert].Sublist (completeLines c.stream) := by
  have hends : (run [.dataPlane, .dataPlane, .dataPlane, .dataPlane, .dataPlane, .reactor, .reactor,
      .reactor] (process [.message sampleAlert] [.response sampleReply])).any
        (fun c => c.rest .dataPlane = []) = true := by decide +kernel
  obtain ⟨c, hc, hrest⟩ := (Option.any_eq_true _ _).mp hends
  have halert : ∀ m ∈ mcpMessages [.message sampleAlert], IsAlert sampleFloatText m := by
    intro m hm
    rw [List.mem_singleton.mp hm]
    exact isAlert_sample
  have hfloat : 10 ∉ ascii "0.9900000095367432" := by decide
  have h := alerts_are_lines (fun _ => hfloat) halert _ hc (by decide +kernel)
  exact ⟨c, hc, h.2 (of_decide_eq_true hrest)⟩

end Aegis.Mcp
