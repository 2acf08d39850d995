import Aegis.Lib.TextReader
import Aegis.Mcp.StdoutLines
import Aegis.Soc.MessagePump
import Aegis.Soc.Suppression

/-! The way of an alert, from the frame that raises it in `main.cpp` to the investigation
in `multi_agent_soc.py`. What `json.loads` makes of a line is a parameter. -/
namespace Aegis.Soc

open DataPlane (Alert)
open Mcp (DataPlaneWrite ReactorWrite Surroundings Thread OwnLines mcpMessages threadWrites unloaded
  wgetAlert wgetSurroundings)
open SharedStream
open Text (Readable lineText readLines)

def addrText (x : Inet.IPv4) : Text := Text.decodeIgnore (Inet.inetNtop x)

/-- The call an alert asks for. -/
def callFor (a : Alert) : AlertCall :=
  ⟨.str (addrText a.src), .int a.dstPort, Json.decodedFloat a.score⟩

theorem alertCall_notification (a : Alert) : alertCall a.notification.decoded = some (callFor a) := rfl

theorem methodIsThreat_notification (a : Alert) : methodIsThreat a.notification.decoded = some true := rfl

/-! What the pump makes of the lines of the probe. -/

/-- A response of the dispatcher, to one request or to a batch. -/
inductive IsReplyValue : Json Bytes → Prop where
  | result (id v : Json Bytes) : IsReplyValue (Mcp.resultResponse id v)
  | error (id v : Json Bytes) : IsReplyValue (Mcp.errorResponse id v)
  | batch (responses : List (Json Bytes)) (h : ∀ r ∈ responses, ∃ fields, r = .obj fields) :
      IsReplyValue (.arr responses)

section Lines
variable (loads : Text → Loaded) (floatText : FloatVal → Bytes)

/-- The line of a value is read as that value. -/
def ReadsAs (line : Bytes) (v : Json Bytes) : Prop :=
  loads (Text.strip (lineText line)) = .value v.decoded

/-- The logs of `SecTools`, `ONNXEngine` and `PcapSniffer` are no JSON: behind the bracket
would have to come a value, and none begins with these letters. -/
def RefusesLogs : Prop := ∀ c ∈ ['S', 'O', 'P'], ∀ t, loads ('[' :: c :: t) = .decodeError

/-- The reactor's write is its log, which names an address without a line break, or a response. -/
def Understood : ReactorWrite → Prop
  | .secTools _ _ args => ∀ ip ∈ Mcp.SecTools.logged args, 10 ∉ ip ∧ Readable ip
  | .response result => ∃ v, IsReplyValue v ∧ v.dump floatText = some result ∧ ReadsAs loads result v

/-- The numbers are written in printable ASCII. -/
def Printable : Prop := ∀ x, ∀ b ∈ floatText x, 0x20 ≤ b ∧ b < 0x80

variable {loads floatText}

theorem Printable.newline_notMem (h : Printable floatText) (x : FloatVal) : 10 ∉ floatText x :=
  fun hmem => absurd (h x 10 hmem).1 (by decide)

theorem readable_dump (hfloat : Printable floatText) (v : Json Bytes) (text : Bytes)
    (h : v.dump floatText = some text) : Readable text :=
  ⟨Json.utf8_ofPieces.dump (fun x => Text.isUtf8_of_ascii fun b hb => (hfloat x b hb).2) v text h,
    Json.control_notMem_dump (by decide) (fun x hmem => absurd (hfloat x 13 hmem).1 (by decide)) v text h⟩

section DataPlane
variable {α : Type*} {infer : List α → FloatVal} {hit : List α → Option Bytes} {threshold : FloatVal}
  {tag : Capture.Frame → List α} {s : Surroundings}

end DataPlane

/-! What the pump makes of a line. -/

/-- A line that leads to no call and that the pump survives. -/
def Quiet (loads : Text → Loaded) (line : Bytes) : Prop :=
  callOf loads (lineText line) = none ∧
    ∀ callback earlier, Harmless loads callback earlier (lineText line)

theorem quiet_log (hloads : RefusesLogs loads) {y : UInt8}
    (hy : y = 83 ∨ y = 79 ∨ y = 80) (rest : Bytes) : Quiet loads (91 :: y :: rest) := by
  have hletter : y < 0x80 ∧ Text.isSpace (Char.ofNat y.toNat) = false ∧
      Char.ofNat y.toNat ∈ ['S', 'O', 'P'] := by
    rcases hy with rfl | rfl | rfl <;> decide
  obtain ⟨t, ht⟩ := Text.strip_lineText (x := 91) (by decide) hletter.1 (by decide) hletter.2.1 rest
  have herror : loads (Text.strip (lineText (91 :: y :: rest))) = .decodeError := by
    rw [ht]
    exact hloads _ hletter.2.2 t
  unfold Quiet callOf Harmless
  rw [herror]
  exact ⟨rfl, fun _ _ => trivial⟩

theorem IsReplyValue.quiet {v : Json Bytes} (hv : IsReplyValue v) {line : Bytes}
    (h : ReadsAs loads line v) : Quiet loads line := by
  have hobj : ∀ fields, v.decoded = .obj fields →
      (Json.obj fields).field "method".toList = none → Quiet loads line := by
    intro fields hdecoded hfield
    unfold Quiet callOf Harmless
    rw [h, hdecoded]
    dsimp only [HarmlessValue]
    unfold methodIsThreat
    rw [hfield]
    exact ⟨rfl, fun _ _ hthreat => by cases hthreat⟩
  cases hv with
  | result id w => exact hobj _ rfl rfl
  | error id w => exact hobj _ rfl rfl
  | batch responses hall =>
    have hnot : Json.str "method".toList ∉ Json.decodedElems responses := by
      rw [Json.decodedElems_eq]
      intro hmem
      obtain ⟨r, hr, heq⟩ := List.mem_map.mp hmem
      obtain ⟨fields, rfl⟩ := hall r hr
      cases heq
    unfold Quiet callOf Harmless
    rw [h]
    exact ⟨rfl, fun _ _ => hnot⟩

theorem Understood.quiet (hloads : RefusesLogs loads) {w : ReactorWrite}
    (h : Understood loads floatText w) : ∀ l ∈ w.lines, Quiet loads l := by
  intro l hl
  cases w with
  | secTools os fw args =>
    obtain ⟨ip, -, rfl⟩ := Option.mem_map.mp (Option.mem_toList.mp hl)
    exact quiet_log hloads (y := 83) (Or.inl rfl) _
  | response result =>
    obtain ⟨v, hv, -, hreads⟩ := h
    rw [List.mem_singleton.mp hl]
    exact hv.quiet hreads

theorem callOf_alert {a : Alert} {line : Bytes} (h : ReadsAs loads line a.notification) :
    callOf loads (lineText line) = some (callFor a) := by
  unfold callOf
  rw [h]
  dsimp only
  rw [methodIsThreat_notification, if_pos rfl, alertCall_notification]

end Lines

/-! From the frames to the calls. -/

section Path
variable {loads : Text → Loaded} {callback : Callback} {floatText : FloatVal → Bytes}

variable {logged : List DataPlaneWrite} {alerts : List Alert} {writes : List ReactorWrite}
  {c : Config Thread} {tagged : List (Thread × Bytes)}

theorem OwnLines.quiet (h : OwnLines logged writes c tagged) (hloads : RefusesLogs loads)
    (hwrites : ∀ w ∈ writes, Understood loads floatText w) {t : Thread} {l : Bytes}
    (hl : (t, l) ∈ tagged) (ht : t ≠ .dataPlane) : Quiet loads l := by
  cases t with
  | dataPlane => exact absurd rfl ht
  | reactor =>
    obtain ⟨w, hw, hmem⟩ := List.mem_flatMap.mp (h.reactor.subset (mem_linesOf.mpr hl))
    exact (hwrites w hw).quiet hloads l hmem

end Path

/-! The deduplication of the calls. -/

section Dedup
variable (w : ℚ) (alerts : List Alert) (nows : List ℚ)

/-- The call of `should_process` for an alert at a reading of the clock. -/
def ask (p : Alert × ℚ) : Call := ⟨addrText p.1.src, p.2⟩

/-- The answers that `dedup_callback` gets on the calls for some alerts. -/
def verdicts : List Bool := (deduplication w).answers ((alerts.zip nows).map ask)

/-- The alerts that are passed on to `on_threat_detected`, and when. -/
def investigated : List (Alert × ℚ) :=
  (((alerts.zip nows).zip (verdicts w alerts nows)).filter Prod.snd).map Prod.fst

/-- For each alert its source is investigated, at once or within the window before, and no
source is investigated twice within a window. -/
structure Covered : Prop where
  each : ∀ p ∈ alerts.zip nows, ∃ q ∈ investigated w alerts nows,
    q.1.src = p.1.src ∧ 0 ≤ p.2 - q.2 ∧ p.2 - q.2 < w
  apart : ∀ src, ((investigated w alerts nows).filter fun q => q.1.src = src).Pairwise
    fun p q => w ≤ q.2 - p.2

variable {w alerts nows}

end Dedup

def replyValue : Json Bytes := Mcp.resultResponse (.int 1) (.obj [])

/-- `json.loads` on the alert and on the response. -/
def probeLoads (text : Text) : Loaded :=
  if text = Text.strip (lineText (wgetAlert.text Mcp.sampleFloatText)) then
    .value wgetAlert.notification.decoded
  else if text = Text.strip (lineText Mcp.sampleReply) then .value replyValue.decoded
  else .decodeError

theorem printable_sample : Printable Mcp.sampleFloatText := by
  have hall : (ascii "0.9900000095367432").all (fun b => 0x20 ≤ b && b < 0x80) = true := by decide
  intro x b hb
  simpa using List.all_eq_true.mp hall b hb

def returning : Callback := fun _ _ => .returns

/-- An address, a NUL, and an alert on a line of its own. -/
def forgingIp (floatText : FloatVal → Bytes) (x : Inet.IPv4) (a : Alert) : Bytes :=
  Inet.inetNtop x ++ 0 :: 10 :: a.text floatText

def forgingArgs (floatText : FloatVal → Bytes) (x : Inet.IPv4) (a : Alert) : Json Bytes :=
  .obj [(ascii "ip", .str (forgingIp floatText x a))]

theorem inetPton_forgingIp (floatText : FloatVal → Bytes) (x : Inet.IPv4) (a : Alert) :
    Inet.inetPton (forgingIp floatText x a) = some x := by
  have hbyte : ∀ b ∈ Inet.inetNtop x, b ≠ 0 := by
    rintro b hb rfl
    exact absurd (Inet.inetNtop_chars x 0 hb).1 (by decide)
  rw [Inet.inetPton_eq_some_iff]
  unfold forgingIp Inet.cString
  rw [List.takeWhile_append_of_pos fun b hb => decide_eq_true (hbyte b hb),
    List.takeWhile_cons_of_neg (by decide), List.append_nil]

theorem logged_forgingArgs (floatText : FloatVal → Bytes) (x : Inet.IPv4) (a : Alert) :
    Mcp.SecTools.logged (forgingArgs floatText x a) = some (forgingIp floatText x a) := by
  show (some (forgingIp floatText x a)).filter _ = _
  rw [Option.filter_some, inetPton_forgingIp]
  rfl

/-- The argument is a string that JSON can carry. -/
theorem isSome_dump_forgingArgs {floatText : FloatVal → Bytes}
    (hfloat : ∀ y, ∀ b ∈ floatText y, b < 0x80) (x : Inet.IPv4) (a : Alert) :
    ((forgingArgs floatText x a).dump floatText).isSome := by
  have hutf8 : Text.isUtf8 (forgingIp floatText x a) := by
    unfold forgingIp
    rw [Text.isUtf8_append (DataPlane.isUtf8_inetNtop x)]
    apply Text.isUtf8_of_ascii
    simp only [List.forall_mem_cons]
    exact ⟨by decide, by decide, a.text_ascii hfloat⟩
  unfold forgingArgs
  simp only [Json.isSome_dump_obj, List.forall_mem_cons, Json.isSome_dump_str]
  exact ⟨⟨by decide +kernel, hutf8⟩, List.forall_mem_nil _⟩

/-- The lines of the log of a forged block: the pump calls for the second. -/
theorem calls_forged {loads : Text → Loaded} (callback : Callback) {log line : Bytes} {a : Alert}
    (hlog : loads (Text.strip (lineText log)) = .decodeError) (hreads : ReadsAs loads line a.notification) :
    ((messagePump loads callback).run [lineText log, lineText line]).calls = [callFor a] := by
  set M := messagePump loads callback
  have hfirst := step_spec loads callback (p := M.init) rfl (lineText log)
  have hnone : callOf loads (lineText log) = none := by
    unfold callOf
    rw [hlog]
  have halive : (M.step M.init (lineText log)).1.alive = true := by
    apply hfirst.alive.mpr
    unfold Harmless
    rw [hlog]
    trivial
  have hsecond := step_spec loads callback halive (lineText line)
  have hcalls := hsecond.calls
  rw [hsecond.call_eq, callOf_alert hreads, hfirst.calls, hfirst.call_eq, hnone] at hcalls
  exact hcalls

/-- Who may ask for a block can make the pump call for any alert, though no frame has been
captured: the argument is a string that JSON can carry, and its address is blocked. -/
theorem alert_forged {floatText : FloatVal → Bytes} (hfloat : Printable floatText)
    (x : Inet.IPv4) (a : Alert) {loads : Text → Loaded}
    (hreads : ReadsAs loads (a.text floatText) a.notification)
    (hlog : loads (Text.strip (lineText (Mcp.SecTools.logLine (Inet.inetNtop x ++ [0])))) = .decodeError)
    (callback : Callback) (os : Mcp.Os) (fw : Mcp.Firewall) :
    ∃ args schedule c lines, (args.dump floatText).isSome ∧ Mcp.SecTools.target args = some x ∧
      run schedule (Mcp.process [] [.secTools os fw args]) = some c ∧
      readLines c.stream = some lines ∧
      ((messagePump loads callback).run lines).calls = [callFor a] := by
  set args := forgingArgs floatText x a
  have hlogged : Mcp.SecTools.logged args = some (forgingIp floatText x a) := logged_forgingArgs _ _ _
  have hrest : (Mcp.process [] [.secTools os fw args]).rest .reactor =
      (Mcp.SecTools.blockingLog (forgingIp floatText x a)).map Op.insert := by
    show (Mcp.SecTools.execute os fw args).stdout.map Op.insert ++ [] = _
    rw [List.append_nil, Mcp.SecTools.stdout_execute, hlogged]
    rfl
  obtain ⟨c, hrun, hstream⟩ := run_inserts Thread.reactor _ _ hrest
  have hstream' : c.stream = Fields.unlines
      [Mcp.SecTools.logLine (Inet.inetNtop x ++ [0]), a.text floatText] := by
    rw [hstream]
    show [] ++ (ascii "[SecTools] Blocking IP: " ++ ((Inet.inetNtop x ++ 0 :: 10 :: a.text floatText) ++
      ([10] ++ []))) = (ascii "[SecTools] Blocking IP: " ++ (Inet.inetNtop x ++ [0])) ++ [10] ++
        (a.text floatText ++ [10] ++ [])
    simp
  have hquad : ∀ b ∈ Inet.inetNtop x, 0x20 ≤ b ∧ b < 0x80 := fun b hb =>
    ⟨UInt8.le_trans (by decide) (Inet.inetNtop_chars x b hb).1,
      UInt8.lt_of_le_of_lt (Inet.inetNtop_chars x b hb).2 (by decide)⟩
  have hreadable : Readable c.stream := by
    have hlog : Readable (Mcp.SecTools.logLine (Inet.inetNtop x ++ [0])) :=
      Readable.append _ _ (by decide +kernel)
        (Readable.append _ _ (Text.readable_of_printable hquad) (by decide +kernel))
    have hnotification := readable_dump hfloat _ _ (a.dump_eq floatText)
    rw [hstream']
    exact Readable.append _ _ (Readable.append _ _ hlog (by decide +kernel))
      (Readable.append _ _ (Readable.append _ _ hnotification (by decide +kernel)) (by decide +kernel))
  have hlines : completeLines c.stream =
      [Mcp.SecTools.logLine (Inet.inetNtop x ++ [0]), a.text floatText] := by
    rw [hstream', completeLines_unlines]
    have hnotification : 10 ∉ a.text floatText :=
      Json.newline_notMem_dump hfloat.newline_notMem _ _ (a.dump_eq floatText)
    simp only [List.forall_mem_cons]
    refine ⟨?_, hnotification, List.forall_mem_nil _⟩
    unfold Mcp.SecTools.logLine
    simp only [List.mem_append, not_or]
    exact ⟨by decide, fun hmem => absurd (hquad 10 hmem).1 (by decide), by decide⟩
  refine ⟨args, _, c, _, isSome_dump_forgingArgs (fun y b hb => (hfloat y b hb).2) x a,
    inetPton_forgingIp floatText x a, hrun, Text.readLines_eq hreadable, ?_⟩
  show ((messagePump loads callback).run ((completeLines c.stream).map lineText)).calls = _
  rw [hlines]
  exact calls_forged callback hlog hreads

theorem alert_forged_sample :
    ∃ args schedule c lines,
      run schedule (Mcp.process [] [.secTools ⟨true, true, true⟩ {} args]) = some c ∧
      readLines c.stream = some lines ∧
      ((messagePump probeLoads returning).run lines).calls = [callFor wgetAlert] := by
  have hlog : probeLoads (Text.strip (lineText
      (Mcp.SecTools.logLine (Inet.inetNtop ⟨1, 2, 3, 4⟩ ++ [0])))) = .decodeError := by
    unfold probeLoads
    rw [if_neg (by decide +kernel), if_neg (by decide +kernel)]
  have hreads : ReadsAs probeLoads (wgetAlert.text Mcp.sampleFloatText) wgetAlert.notification :=
    if_pos rfl
  obtain ⟨args, schedule, c, lines, -, -, hrun, hlines, hcalls⟩ := alert_forged printable_sample
    ⟨1, 2, 3, 4⟩ wgetAlert hreads hlog returning ⟨true, true, true⟩ {}
  exact ⟨args, schedule, c, lines, hrun, hlines, hcalls⟩

end Aegis.Soc
