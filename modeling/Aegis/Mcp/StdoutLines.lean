import Aegis.DataPlane.Alerts
import Aegis.Mcp.Serving
import Aegis.Mcp.Stdout

/-! The lines of the probe's stdout, and who has written them. -/
namespace Aegis.Mcp

open SharedStream

/-- The address `block_malicious_ip` logs: the whole argument, of which only what stands
before a NUL has been read as an address. -/
def SecTools.logged (args : Json Bytes) : Option Bytes :=
  (stringValue args (ascii "ip") []).toOption.filter fun ip => (Inet.inetPton ip).isSome

def SecTools.logLine (ip : Bytes) : Bytes := ascii "[SecTools] Blocking IP: " ++ ip

theorem SecTools.stdout_fallback (os : Os) (fw : Firewall) (log : List Bytes) (ip : Bytes) :
    (fallback os fw log ip).stdout = log := by
  unfold fallback
  cases iptablesBlock os fw.inputRules ip <;> rfl

theorem SecTools.stdout_execute (os : Os) (fw : Firewall) (args : Json Bytes) :
    (execute os fw args).stdout = (logged args).elim [] blockingLog := by
  unfold execute logged
  cases stringValue args (ascii "ip") [] with
  | error e => rfl
  | ok ip =>
    rw [Except.toOption, Option.filter_some]
    dsimp only
    cases Inet.inetPton ip with
    | none => rfl
    | some addr =>
      rw [Option.isSome_some, if_pos rfl]
      dsimp only
      split_ifs
      · cases rawBpfMapUpdate os fw.blacklist addr.sAddr 1 with
        | none => exact stdout_fallback os fw _ ip
        | some m => rfl
      · exact stdout_fallback os fw _ ip

/-! What the thread of the data plane writes. -/

section Thread
variable {α : Type*} (infer : List α → FloatVal) (hit : List α → Option Bytes) (threshold : FloatVal)
  (tag : Capture.Frame → List α) (floatText : FloatVal → Bytes)

/-- What the thread meets: its model with the numbers of inputs and outputs, if it loads,
and its interface with the frames captured there, if it opens. -/
structure Surroundings where
  model : Option (Bytes × ℕ × ℕ)
  device : Option (Bytes × List DataPlane.Captured)

def Surroundings.frames (s : Surroundings) : List DataPlane.Captured := s.device.elim [] Prod.snd

/-- A frame whose payload is scored: the engine may log a signature before the notification. -/
def frameWrites (o : DataPlane.Outcome α) : List DataPlaneWrite :=
  ((o.scored.bind hit).map DataPlaneWrite.heuristicHit).toList ++
    ((o.notification.bind (Json.dump floatText)).map DataPlaneWrite.message).toList

/-- The engine is made, then the sniffer is started, which calls back for each frame. -/
def threadWrites (s : Surroundings) : List DataPlaneWrite :=
  (s.model.map fun m => DataPlaneWrite.modelLoaded m.1 m.2.1 m.2.2).toList ++
    s.device.elim [] fun d => DataPlaneWrite.listening d.1 ::
      ((DataPlane.dataPlane infer threshold tag).answers d.2).flatMap (frameWrites hit floatText)

variable {infer hit threshold tag floatText}

end Thread

/-! The lines of both threads. -/

/-- The line of a write, unless it has newlines of its own. -/
def DataPlaneWrite.line : DataPlaneWrite → Bytes
  | .modelLoaded modelPath nIn nOut => ascii "[ONNXEngine] Model loaded: " ++ modelPath ++
    ascii " | inputs=" ++ Printf.decimal nIn ++ ascii " outputs=" ++ Printf.decimal nOut
  | .listening interface =>
    ascii "[PcapSniffer] Successfully listening on " ++ interface ++ ascii " using libpcap."
  | .heuristicHit sig => ascii "[ONNXEngine] Heuristic hit: '" ++ sig ++ ascii "'"
  | .message msg => msg

def ReactorWrite.lines : ReactorWrite → List Bytes
  | .secTools _ _ args => ((SecTools.logged args).map SecTools.logLine).toList
  | .response result => [result]

def ReactorWrite.OneLine (w : ReactorWrite) : Prop := ∀ l ∈ w.lines, 10 ∉ l

theorem DataPlaneWrite.text_ops (w : DataPlaneWrite) : text w.ops = Fields.unlines [w.line] := by
  cases w with
  | message msg =>
    show msg ++ ([10] ++ []) = (msg ++ [10]) ++ []
    simp
  | modelLoaded modelPath nIn nOut =>
    unfold ops line Fields.unlines
    rw [text_inserts, List.flatMap_singleton]
    simp only [List.flatten_cons, List.flatten_nil, List.append_nil, List.append_assoc]
    rfl
  | listening interface | heuristicHit sig =>
    unfold ops line Fields.unlines
    rw [text_inserts, List.flatMap_singleton]
    simp only [List.flatten_cons, List.flatten_nil, List.append_nil, List.append_assoc]
    rfl

theorem ReactorWrite.text_ops (w : ReactorWrite) : text w.ops = Fields.unlines w.lines := by
  cases w with
  | secTools os fw args =>
    unfold ReactorWrite.ops ReactorWrite.lines
    dsimp only
    rw [SecTools.stdout_execute]
    cases SecTools.logged args with
    | none => rfl
    | some ip =>
      show SecTools.logLine [] ++ (ip ++ ([10] ++ [])) = (SecTools.logLine [] ++ ip) ++ [10] ++ []
      simp
  | response result =>
    show result ++ ([10] ++ []) = result ++ [10] ++ []
    simp

theorem text_flatMap {β : Type*} {ops : β → List Op} {lines : β → List Bytes}
    (h : ∀ w, text (ops w) = Fields.unlines (lines w)) (ws : List β) :
    text (ws.flatMap ops) = Fields.unlines (ws.flatMap lines) := by
  induction ws with
  | nil => rfl
  | cons w ws ih =>
    rw [List.flatMap_cons, text_append, ih, h, List.flatMap_cons]
    exact List.flatMap_append.symm

/-- Whose lines are on the stream, and which of them: each thread's own in its order. -/
structure OwnLines (logged : List DataPlaneWrite) (writes : List ReactorWrite) (c : Config Thread)
    (tagged : List (Thread × Bytes)) : Prop where
  stream : completeLines c.stream = tagged.map Prod.snd
  dataPlane : linesOf .dataPlane tagged <+: logged.map DataPlaneWrite.line
  reactor : linesOf .reactor tagged <+: writes.flatMap ReactorWrite.lines
  dataPlane_all : c.rest .dataPlane = [] →
    linesOf .dataPlane tagged = logged.map DataPlaneWrite.line
  reactor_all : c.rest .reactor = [] → linesOf .reactor tagged = writes.flatMap ReactorWrite.lines

theorem ownLines_process {dataPlane : List DataPlaneWrite} {writes : List ReactorWrite}
    (hdataPlane : ∀ w ∈ dataPlane, 10 ∉ w.line) (hwrites : ∀ w ∈ writes, w.OneLine)
    {schedule : List Thread} {c : Config Thread} (hord : OrderlyRun schedule (process dataPlane writes))
    (hrun : run schedule (process dataPlane writes) = some c) :
    ∃ tagged, OwnLines dataPlane writes c tagged := by
  obtain ⟨tagged, hstream, hlines⟩ := lines_attributed rfl rfl hord hrun
  have hdata : completeLines (text (dataPlane.flatMap DataPlaneWrite.ops)) =
      dataPlane.map DataPlaneWrite.line := by
    rw [text_flatMap DataPlaneWrite.text_ops, ← List.map_eq_flatMap, completeLines_unlines]
    intro l hl
    obtain ⟨w, hw, rfl⟩ := List.mem_map.mp hl
    exact hdataPlane w hw
  have hreactor : completeLines (text (writes.flatMap ReactorWrite.ops)) =
      writes.flatMap ReactorWrite.lines := by
    rw [text_flatMap ReactorWrite.text_ops, completeLines_unlines]
    intro l hl
    obtain ⟨w, hw, hl⟩ := List.mem_flatMap.mp hl
    exact hwrites w hw l hl
  -- the operations done are the first ones, so their lines are
  have hown : ∀ t, linesOf t tagged <+: completeLines (text ((process dataPlane writes).rest t)) ∧
      (c.rest t = [] →
        linesOf t tagged = completeLines (text ((process dataPlane writes).rest t))) := by
    intro t
    obtain ⟨did, hrest, -, heq⟩ := hlines t
    rw [hrest, text_append, heq]
    refine ⟨completeLines_mono _ _, fun hnil => ?_⟩
    rw [hnil]
    exact congrArg completeLines (List.append_nil _).symm
  exact ⟨tagged, hstream, hdata ▸ (hown .dataPlane).1, hreactor ▸ (hown .reactor).1,
    hdata ▸ (hown .dataPlane).2, hreactor ▸ (hown .reactor).2⟩

/-- The names that are logged are written in one line. -/
structure Surroundings.OneLine (s : Surroundings) : Prop where
  model : ∀ m ∈ s.model, 10 ∉ m.1
  device : ∀ d ∈ s.device, 10 ∉ d.1

theorem newline_notMem_written {α : Type*} {infer : List α → FloatVal} {threshold : FloatVal}
    {tag : Capture.Frame → List α} {floatText : FloatVal → Bytes} (hfloat : ∀ x, 10 ∉ floatText x)
    {cs : List DataPlane.Captured} :
    ∀ m ∈ DataPlane.written infer threshold tag floatText cs, 10 ∉ m := by
  intro m hm
  rw [DataPlane.written_eq] at hm
  obtain ⟨a, -, rfl⟩ := List.mem_map.mp hm
  exact Json.newline_notMem_dump hfloat _ _ (a.dump_eq floatText)

theorem mem_threadWrites {α : Type*} {infer : List α → FloatVal} {hit : List α → Option Bytes}
    {threshold : FloatVal} {tag : Capture.Frame → List α} {floatText : FloatVal → Bytes}
    {s : Surroundings} {w : DataPlaneWrite} (hw : w ∈ threadWrites infer hit threshold tag floatText s) :
    (∃ m ∈ s.model, w = .modelLoaded m.1 m.2.1 m.2.2) ∨ (∃ d ∈ s.device, w = .listening d.1) ∨
      (∃ p, ∃ sig ∈ hit p, w = .heuristicHit sig) ∨
      ∃ m ∈ DataPlane.written infer threshold tag floatText s.frames, w = .message m := by
  unfold threadWrites at hw
  rcases List.mem_append.mp hw with hmodel | hdevice
  · obtain ⟨m, hm, rfl⟩ := Option.mem_map.mp (Option.mem_toList.mp hmodel)
    exact Or.inl ⟨m, hm, rfl⟩
  · refine Or.inr ?_
    unfold Surroundings.frames
    cases hd : s.device with
    | none =>
      rw [hd] at hdevice
      cases hdevice
    | some d =>
      rw [hd] at hdevice
      rcases List.mem_cons.mp hdevice with rfl | hframe
      · exact Or.inl ⟨d, rfl, rfl⟩
      · refine Or.inr ?_
        obtain ⟨o, ho, hmem⟩ := List.mem_flatMap.mp hframe
        rcases List.mem_append.mp hmem with hhit | hmessage
        · obtain ⟨sig, hsig, rfl⟩ := Option.mem_map.mp (Option.mem_toList.mp hhit)
          obtain ⟨p, -, hp⟩ := Option.mem_bind_iff.mp hsig
          exact Or.inl ⟨p, sig, hp, rfl⟩
        · obtain ⟨m, hm, rfl⟩ := Option.mem_map.mp (Option.mem_toList.mp hmessage)
          exact Or.inr ⟨m, List.mem_filterMap.mpr ⟨o, ho, hm⟩, rfl⟩

theorem newline_notMem_line {α : Type*} {infer : List α → FloatVal} {hit : List α → Option Bytes}
    (hhit : ∀ p, ∀ sig ∈ hit p, sig ∈ Inference.signatures) {threshold : FloatVal}
    {tag : Capture.Frame → List α} {floatText : FloatVal → Bytes} (hfloat : ∀ x, 10 ∉ floatText x)
    {s : Surroundings} (hs : s.OneLine) :
    ∀ w ∈ threadWrites infer hit threshold tag floatText s, 10 ∉ w.line := by
  have hdigits : ∀ n, 10 ∉ Printf.decimal n := fun n hmem =>
    absurd (Printf.decimal_digits n 10 hmem).1 (by decide)
  have hsigs : ∀ sig ∈ Inference.signatures, 10 ∉ sig := by decide
  intro w hw
  rcases mem_threadWrites hw with ⟨m, hm, rfl⟩ | ⟨d, hd, rfl⟩ | ⟨p, sig, hsig, rfl⟩ | ⟨m, hm, rfl⟩
  · simp only [DataPlaneWrite.line, List.mem_append, not_or]
    exact ⟨⟨⟨⟨⟨by decide, hs.model m hm⟩, by decide⟩, hdigits _⟩, by decide⟩, hdigits _⟩
  · simp only [DataPlaneWrite.line, List.mem_append, not_or]
    exact ⟨⟨by decide, hs.device d hd⟩, by decide⟩
  · simp only [DataPlaneWrite.line, List.mem_append, not_or]
    exact ⟨⟨by decide, hsigs sig (hhit p sig hsig)⟩, by decide⟩
  · exact newline_notMem_written hfloat m hm

/-- The lines of stdout. In a run in which no thread inserts into a line the other one has
begun, every complete line is a line that one of the two threads wrote, each of them once and
in the order of its thread. -/
theorem stdout_lines {α : Type*} (infer : List α → FloatVal) {hit : List α → Option Bytes}
    (hhit : ∀ p, ∀ sig ∈ hit p, sig ∈ Inference.signatures) (threshold : FloatVal)
    (tag : Capture.Frame → List α) {floatText : FloatVal → Bytes} (hfloat : ∀ x, 10 ∉ floatText x)
    {s : Surroundings} (hs : s.OneLine) {writes : List ReactorWrite} (hwrites : ∀ w ∈ writes, w.OneLine)
    {schedule : List Thread} {c : Config Thread}
    (hord : OrderlyRun schedule (process (threadWrites infer hit threshold tag floatText s) writes))
    (hrun : run schedule (process (threadWrites infer hit threshold tag floatText s) writes) = some c) :
    ∃ tagged, OwnLines (threadWrites infer hit threshold tag floatText s) writes c tagged :=
  ownLines_process (newline_notMem_line hhit hfloat hs) hwrites hord hrun

/-- An engine without a model, and a frame that its heuristics know. -/
def unloaded : Inference.ONNXEngine := ⟨false, 0, fun _ => none⟩

def wgetFrame : Capture.Frame := DataPlane.triggerFrame.take 507 ++ ascii "wget "

def wgetSurroundings : Surroundings := ⟨none, some (ascii "ens33", [⟨wgetFrame, 0, 0⟩])⟩

def wgetAlert : DataPlane.Alert := ⟨Inference.heuristicHit, ⟨10, 0, 0, 9⟩, 80⟩

theorem threadWrites_wget :
    threadWrites unloaded.score unloaded.logged (.fin 0.95) id sampleFloatText wgetSurroundings =
      [.listening (ascii "ens33"), .heuristicHit (ascii "wget "),
        .message (wgetAlert.text sampleFloatText)] := by decide +kernel

def wgetSchedule : List Thread :=
  List.replicate 3 .reactor ++ List.replicate 11 .dataPlane

/-- A response, and then the log of the data plane and its alert. -/
theorem stdout_lines_sample :
    ∃ c tagged, run wgetSchedule (process (threadWrites unloaded.score unloaded.logged (.fin 0.95) id
        sampleFloatText wgetSurroundings) [.response sampleReply]) = some c ∧
      OwnLines (threadWrites unloaded.score unloaded.logged (.fin 0.95) id sampleFloatText
        wgetSurroundings) [.response sampleReply] c tagged := by
  have hends : (run wgetSchedule (process [.listening (ascii "ens33"), .heuristicHit (ascii "wget "),
      .message (wgetAlert.text sampleFloatText)] [.response sampleReply])).isSome := by
    decide +kernel
  obtain ⟨c, hc⟩ := Option.isSome_iff_exists.mp hends
  have horderly : OrderlyRun wgetSchedule (process [.listening (ascii "ens33"),
      .heuristicHit (ascii "wget "), .message (wgetAlert.text sampleFloatText)]
      [.response sampleReply]) := by decide +kernel
  have hfloat : 10 ∉ ascii "0.9900000095367432" := by decide
  have hone : ∀ w ∈ [ReactorWrite.response sampleReply], w.OneLine := by
    intro w hw l hl
    rw [List.mem_singleton.mp hw] at hl
    rw [List.mem_singleton.mp hl]
    decide
  have hs : wgetSurroundings.OneLine := ⟨by decide, by decide⟩
  rw [← threadWrites_wget] at hc horderly
  obtain ⟨tagged, htagged⟩ := stdout_lines unloaded.score (fun _ _ => unloaded.mem_of_logged) (.fin 0.95)
    id (fun _ => hfloat) hs hone horderly hc
  exact ⟨c, tagged, hc, htagged⟩

end Aegis.Mcp
