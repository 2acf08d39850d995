import Aegis.DataPlane.Truncation

/-! The alerts of the data plane, as the texts it passes to `write_mcp_message`. -/
namespace Aegis.DataPlane

open Capture

/-- What a notification tells: a score, and where the frame came from and went to. -/
structure Alert where
  score : FloatVal
  src : Inet.IPv4
  dstPort : ℕ
  deriving DecidableEq

def Alert.notification (a : Alert) : Json Bytes :=
  threatDetected a.score (Inet.inetNtop a.src) a.dstPort

theorem isUtf8_inetNtop (x : Inet.IPv4) : Text.isUtf8 (Inet.inetNtop x) := by
  apply Text.isUtf8_of_ascii
  intro b hb
  exact UInt8.lt_of_le_of_lt (Inet.inetNtop_chars x b hb).2 (by decide)

theorem plain_inetNtop (x : Inet.IPv4) : (Inet.inetNtop x).flatMap Json.escapeByte = Inet.inetNtop x := by
  have hbyte : ∀ b : UInt8, 46 ≤ b ∧ b ≤ 57 → Json.escapeByte b = [b] :=
    forall_byte (by decide +kernel)
  calc (Inet.inetNtop x).flatMap Json.escapeByte
      = (Inet.inetNtop x).flatMap ([·]) :=
        List.flatMap_congr fun b hb => hbyte b (Inet.inetNtop_chars x b hb)
    _ = Inet.inetNtop x := List.flatMap_singleton' _

/-- A string in which nothing has to be escaped. -/
theorem dumpStr_plain {s : Bytes} (hutf8 : Text.isUtf8 s) (hplain : s.flatMap Json.escapeByte = s) :
    Json.dumpStr s = some (ascii "\"" ++ (s ++ ascii "\"")) := by
  unfold Json.dumpStr Json.quote
  rw [if_pos hutf8, hplain, List.append_assoc]

/-- An object whose strings are UTF-8 has a text. -/
theorem Alert.isSome_dump (floatText : FloatVal → Bytes) (a : Alert) :
    (a.notification.dump floatText).isSome := by
  have htext : ∀ s : Bytes, Text.isUtf8 s → ((Json.str s).dump floatText).isSome :=
    fun s hs => (Json.isSome_dump_str s).mpr hs
  have hparams : ∀ fields : List (Bytes × Json Bytes),
      (∀ f ∈ fields, Text.isUtf8 f.1 ∧ (f.2.dump floatText).isSome) →
        ((Json.object fields).dump floatText).isSome :=
    fun fields h => (Json.isSome_dump_object fields).mpr h
  unfold notification threatDetected
  apply hparams
  simp only [List.forall_mem_cons]
  refine ⟨⟨by decide +kernel, htext _ (by decide +kernel)⟩,
    ⟨by decide +kernel, htext _ (by decide +kernel)⟩, ⟨by decide +kernel, hparams _ ?_⟩,
    List.forall_mem_nil _⟩
  simp only [List.forall_mem_cons]
  exact ⟨⟨by decide +kernel, htext _ (by decide +kernel)⟩,
    ⟨by decide +kernel, htext _ (by decide +kernel)⟩, ⟨by decide +kernel, rfl⟩,
    ⟨by decide +kernel, htext _ (isUtf8_inetNtop a.src)⟩, ⟨by decide +kernel, rfl⟩, List.forall_mem_nil _⟩

/-- `notification.dump()`. -/
def Alert.text (floatText : FloatVal → Bytes) (a : Alert) : Bytes :=
  (a.notification.dump floatText).getD []

theorem Alert.dump_eq (floatText : FloatVal → Bytes) (a : Alert) :
    a.notification.dump floatText = some (a.text floatText) := by
  obtain ⟨text, htext⟩ := Option.isSome_iff_exists.mp (a.isSome_dump floatText)
  rw [Alert.text, htext, Option.getD_some]

set_option maxRecDepth 8000 in
/-- The text of a notification, with the keys in the order of the map. -/
theorem Alert.text_eq (floatText : FloatVal → Bytes) (a : Alert) : a.text floatText =
    ascii ("\x7b\"jsonrpc\":\"2.0\",\"method\":\"notifications/threat_detected\",\"params\":" ++
      "\x7b\"confidence\":") ++ floatText a.score ++ ascii ",\"dst_port\":" ++
    Printf.signed a.dstPort ++ ascii ",\"severity\":\"CRITICAL\",\"src_ip\":\"" ++
    Inet.inetNtop a.src ++ ascii "\",\"type\":\"High_Threat_Detected\"\x7d\x7d" := by
  have hsrc : Json.dumpStr (Inet.inetNtop a.src) =
      some (ascii "\"" ++ (Inet.inetNtop a.src ++ ascii "\"")) :=
    dumpStr_plain (isUtf8_inetNtop a.src) (plain_inetNtop a.src)
  have hkey : ∀ s : String, Text.isUtf8 (ascii s) → (ascii s).flatMap Json.escapeByte = ascii s →
      Json.dumpStr (ascii s) = some (ascii "\"" ++ (ascii s ++ ascii "\"")) :=
    fun s => dumpStr_plain
  have hfields : a.notification = .obj [(ascii "jsonrpc", .str (ascii "2.0")),
      (ascii "method", .str (ascii "notifications/threat_detected")),
      (ascii "params", .obj [(ascii "confidence", .float a.score), (ascii "dst_port", .int a.dstPort),
        (ascii "severity", .str (ascii "CRITICAL")), (ascii "src_ip", .str (Inet.inetNtop a.src)),
        (ascii "type", .str (ascii "High_Threat_Detected"))])] := rfl
  unfold text
  rw [hfields]
  simp only [Json.dump, Json.dumpFields, hsrc, hkey "jsonrpc" rfl rfl, hkey "2.0" rfl rfl,
    hkey "method" rfl rfl, hkey "notifications/threat_detected" rfl rfl,
    hkey "params" rfl rfl, hkey "confidence" rfl rfl, hkey "dst_port" rfl rfl, hkey "severity" rfl rfl,
    hkey "CRITICAL" rfl rfl, hkey "src_ip" rfl rfl, hkey "type" rfl rfl,
    hkey "High_Threat_Detected" rfl rfl, Option.bind_eq_bind, Option.bind_some, Option.pure_def,
    Option.getD_some, List.append_assoc]
  rfl

theorem Alert.text_ascii {floatText : FloatVal → Bytes} (hfloat : ∀ x, ∀ b ∈ floatText x, b < 0x80)
    (a : Alert) : ∀ b ∈ a.text floatText, b < 0x80 := by
  have hlit : ∀ s : Bytes, s.all (· < 0x80) = true → ∀ b ∈ s, b < 0x80 :=
    fun s hs b hb => of_decide_eq_true (List.all_eq_true.mp hs b hb)
  have hdigits : ∀ b ∈ Printf.signed a.dstPort, b < 0x80 := fun b hb =>
    UInt8.lt_of_le_of_lt (Printf.decimal_digits _ b hb).2 (by decide)
  have hsrc : ∀ b ∈ Inet.inetNtop a.src, b < 0x80 := fun b hb =>
    UInt8.lt_of_le_of_lt (Inet.inetNtop_chars a.src b hb).2 (by decide)
  rw [a.text_eq]
  simp only [List.forall_mem_append]
  exact ⟨⟨⟨⟨⟨⟨hlit _ (by decide +kernel), hfloat a.score⟩, hlit _ (by decide +kernel)⟩, hdigits⟩,
    hlit _ (by decide +kernel)⟩, hsrc⟩, hlit _ (by decide +kernel)⟩

section Run
variable {α : Type*} (infer : List α → FloatVal) (threshold : FloatVal) (tag : Frame → List α)

/-- The alert that a frame raises, given what was made of it: its payload is complete and
scores above the threshold. -/
def alertOf (c : Captured) (o : Outcome α) : Option Alert :=
  o.scored.bind fun payload =>
    if threshold < infer payload then some ⟨infer payload, c.frame.srcAddr, c.frame.dstPort⟩ else none

/-- The alerts of a capture, in the order of their frames. -/
def alerts (cs : List Captured) : List Alert :=
  (cs.zip ((dataPlane infer threshold tag).answers cs)).filterMap fun p =>
    alertOf infer threshold p.1 p.2

/-- What is passed to `write_mcp_message`. -/
def written (floatText : FloatVal → Bytes) (cs : List Captured) : List Bytes :=
  ((dataPlane infer threshold tag).answers cs).filterMap fun o =>
    o.notification.bind (Json.dump floatText)

variable {infer threshold tag}

theorem notification_step {s : State α} (hs : s.tracker.Small) (c : Captured) :
    ((dataPlane infer threshold tag).step s c).2.notification =
      (alertOf infer threshold c ((dataPlane infer threshold tag).step s c).2).map
        Alert.notification := by
  rw [dataPlane_step]
  split_ifs with haccepted
  · set d : Delivery α :=
      ⟨c.seen, c.swept, Inet.inetNtop c.frame.srcAddr, c.frame.dstPort, tag c.frame⟩
    by_cases hfull : s.Completes d
    · obtain ⟨hscored, hnotification, -⟩ := onPacket_completes infer threshold hs hfull
      rw [hnotification, alertOf, hscored, Option.bind_some]
      split_ifs <;> rfl
    · rw [onPacket_stored infer threshold hs hfull]
      rfl
  · rfl

/-- The notifications of a run are those of its alerts. -/
theorem notifications_eq (cs : List Captured) :
    ((dataPlane infer threshold tag).answers cs).filterMap Outcome.notification =
      (alerts infer threshold tag cs).map Alert.notification := by
  set M := dataPlane infer threshold tag
  induction cs using List.reverseRecOn with
  | nil => rfl
  | append_singleton cs c ih =>
    have hsmall : (M.run cs).tracker.Small := small_dataPlane cs
    have hstep : (M.step (M.run cs) c).2.notification =
        (alertOf infer threshold c (M.step (M.run cs) c).2).map Alert.notification :=
      notification_step hsmall c
    have hzip : (cs ++ [c]).zip (M.answers (cs ++ [c])) =
        cs.zip (M.answers cs) ++ [(c, (M.step (M.run cs) c).2)] := by
      rw [Transducer.answers_concat, List.zip_append (by simp)]
      rfl
    have halerts : alerts infer threshold tag (cs ++ [c]) = alerts infer threshold tag cs ++
        (alertOf infer threshold c (M.step (M.run cs) c).2).toList := by
      unfold alerts
      rw [hzip, List.filterMap_append]
      rfl
    rw [Transducer.answers_concat, List.filterMap_append, ih, halerts, List.map_append]
    congr 1
    rw [List.filterMap_cons, hstep]
    cases alertOf infer threshold c (M.step (M.run cs) c).2 with
    | none => rfl
    | some a => rfl

theorem written_eq (floatText : FloatVal → Bytes) (cs : List Captured) :
    written infer threshold tag floatText cs =
      (alerts infer threshold tag cs).map (Alert.text floatText) := by
  have hdump : Json.dump floatText ∘ Alert.notification = some ∘ Alert.text floatText :=
    funext fun a => a.dump_eq floatText
  calc written infer threshold tag floatText cs
      = (((dataPlane infer threshold tag).answers cs).filterMap Outcome.notification).filterMap
          (Json.dump floatText) := by
        rw [List.filterMap_filterMap]
        rfl
    _ = (alerts infer threshold tag cs).map (Alert.text floatText) := by
        rw [notifications_eq, List.filterMap_map, hdump, List.filterMap_eq_map]

end Run

end Aegis.DataPlane
