import Aegis.Capture.FlowTracker
import Aegis.Capture.PcapSniffer
import Aegis.Lib.Json

/-! The data-plane thread, `main.cpp`: every reported frame goes to the tracker, a
payload goes to the model, and now and then stale flows are dropped. As in the
tracker, the byte type is a parameter. -/
namespace Aegis.DataPlane

open Capture

/-- The key the callback builds: only three of its fields are filled in. An address
that is not a dotted quad leaves the zeroed `in_addr`. -/
def flowKeyOf (srcIp : Bytes) (dstPort : ℤ) : FlowKey where
  srcIp := (Inet.inetPton srcIp).elim 0 Inet.IPv4.sAddr
  dstIp := 0
  srcPort := 0
  dstPort := UInt16.ofInt dstPort
  protocol := 6

/-- `notifications/threat_detected`. -/
def threatDetected (threatScore : FloatVal) (srcIp : Bytes) (dstPort : ℤ) : Json Bytes :=
  .object [(ascii "jsonrpc", .str (ascii "2.0")),
    (ascii "method", .str (ascii "notifications/threat_detected")),
    (ascii "params", .object [(ascii "type", .str (ascii "High_Threat_Detected")),
      (ascii "severity", .str (ascii "CRITICAL")), (ascii "confidence", .float threatScore),
      (ascii "src_ip", .str srcIp), (ascii "dst_port", .int dstPort)])]

structure State (α : Type*) where
  tracker : FlowTracker α := {}
  pktCount : ℤ := 0

/-- A call of the callback, with the clock readings of the tracker under it. -/
structure Delivery (α : Type*) where
  seen : ℤ
  swept : ℤ
  srcIp : Bytes
  dstPort : ℤ
  rawPkt : List α

/-- What a call passes on: the payload given to `infer`, the notification written
and the cleanup made. -/
structure Outcome (α : Type*) where
  scored : Option (List α) := none
  notification : Option (Json Bytes) := none
  cleanup : Option Sweep := none

section Model
variable {α : Type*} (infer : List α → FloatVal) (threshold : FloatVal)

def onPacket (s : State α) (d : Delivery α) : State α × Outcome α :=
  let key := flowKeyOf d.srcIp d.dstPort
  let tracker := (s.tracker.processPacket d.seen key d.rawPkt).1
  let payload := (s.tracker.processPacket d.seen key d.rawPkt).2
  if payload.isEmpty then ({ s with tracker := tracker }, {})
  else
    let threatScore := infer payload
    let notification :=
      if threshold < threatScore then some (threatDetected threatScore d.srcIp d.dstPort) else none
    -- `++pkt_count` on an int of 32 bits
    let pktCount := Int.bmod (s.pktCount + 1) (2 ^ 32)
    if Int.tmod pktCount 1000 = 0 then
      (⟨tracker.cleanupStale d.swept 60, pktCount⟩, ⟨some payload, notification, some ⟨d.swept, 60⟩⟩)
    else (⟨tracker, pktCount⟩, ⟨some payload, notification, none⟩)

def callback : Transducer (State α) (Delivery α) (Outcome α) := ⟨{}, onPacket infer threshold⟩

/-- A captured frame, with the clock readings of the tracker when it is handled. -/
structure Captured where
  frame : Frame
  seen : ℤ
  swept : ℤ

/-- The call the capture loop makes for a frame, if it makes one. -/
def Captured.delivery (tag : Frame → List α) (c : Captured) : Option (Delivery α) :=
  ((startCapture c.frame).getD none).map fun r => ⟨c.seen, c.swept, r.srcIp, r.dstPort, tag r.payload⟩

/-- The thread as a whole: the capture loop and the callback. -/
def dataPlane (tag : Frame → List α) : Transducer (State α) Captured (Outcome α) where
  init := {}
  step s c :=
    match c.delivery tag with
    | some d => onPacket infer threshold s d
    | none => (s, {})

end Model

section Lemmas
variable {α : Type*} {infer : List α → FloatVal} {threshold : FloatVal}

def State.waiting (s : State α) (d : Delivery α) : List α :=
  s.tracker.pending (flowKeyOf d.srcIp d.dstPort)

def State.Completes (s : State α) (d : Delivery α) : Prop :=
  512 ≤ (s.waiting d ++ d.rawPkt).length

instance (s : State α) (d : Delivery α) : Decidable (s.Completes d) :=
  inferInstanceAs (Decidable (_ ≤ _))

def State.nextCount (s : State α) : ℤ := Int.bmod (s.pktCount + 1) (2 ^ 32)

variable (infer) (threshold) in
/-- A delivery that does not fill its entry is stored and nothing else happens. -/
theorem onPacket_stored {s : State α} (hs : s.tracker.Small) {d : Delivery α}
    (h : ¬ s.Completes d) :
    onPacket infer threshold s d = ({ s with tracker :=
      (s.tracker.processPacket d.seen (flowKeyOf d.srcIp d.dstPort) d.rawPkt).1 }, {}) := by
  have heq := FlowTracker.processPacket_eq hs d.seen (flowKeyOf d.srcIp d.dstPort) d.rawPkt
  unfold State.Completes State.waiting at h
  have hnone : (s.tracker.processPacket d.seen (flowKeyOf d.srcIp d.dstPort) d.rawPkt).2 = [] := by
    rw [heq, if_neg h]
  unfold onPacket
  simp only [hnone, List.isEmpty_nil, if_true]

variable (infer) (threshold) in
/-- A delivery that fills its entry has the waiting bytes and its own scored, and is
counted; every thousandth count drops the stale flows. -/
theorem onPacket_completes {s : State α} (hs : s.tracker.Small) {d : Delivery α}
    (h : s.Completes d) :
    (onPacket infer threshold s d).2.scored = some (s.waiting d ++ d.rawPkt) ∧
    (onPacket infer threshold s d).2.notification =
      (if threshold < infer (s.waiting d ++ d.rawPkt) then
        some (threatDetected (infer (s.waiting d ++ d.rawPkt)) d.srcIp d.dstPort) else none) ∧
    (onPacket infer threshold s d).1.pktCount = s.nextCount ∧
    (onPacket infer threshold s d).1.tracker =
      (if Int.tmod s.nextCount 1000 = 0 then
        ({ activeFlows := s.tracker.activeFlows.erase (flowKeyOf d.srcIp d.dstPort) } :
          FlowTracker α).cleanupStale d.swept 60
      else { activeFlows := s.tracker.activeFlows.erase (flowKeyOf d.srcIp d.dstPort) }) ∧
    (onPacket infer threshold s d).2.cleanup =
      (if Int.tmod s.nextCount 1000 = 0 then some ⟨d.swept, 60⟩ else none) := by
  have heq := FlowTracker.processPacket_eq hs d.seen (flowKeyOf d.srcIp d.dstPort) d.rawPkt
  unfold State.Completes at h
  unfold State.waiting State.nextCount at *
  rw [if_pos h] at heq
  have hne : ¬ (s.tracker.pending (flowKeyOf d.srcIp d.dstPort) ++ d.rawPkt).isEmpty := by
    intro hempty
    rw [List.isEmpty_iff.mp hempty, List.length_nil] at h
    omega
  unfold onPacket
  simp only [heq, if_neg hne]
  split_ifs <;> exact ⟨rfl, rfl, rfl, rfl, rfl⟩

theorem onPacket_scored_iff {s : State α} (hs : s.tracker.Small) {d : Delivery α}
    {payload : List α} : (onPacket infer threshold s d).2.scored = some payload ↔
      s.Completes d ∧ payload = s.waiting d ++ d.rawPkt := by
  by_cases hfull : s.Completes d
  · obtain ⟨hscored, -⟩ := onPacket_completes infer threshold hs hfull
    rw [hscored, Option.some.injEq]
    exact ⟨fun h => ⟨hfull, h.symm⟩, fun h => h.2.symm⟩
  · rw [onPacket_stored infer threshold hs hfull]
    constructor
    · intro h
      cases h
    · intro h
      exact absurd h.1 hfull

variable (infer) (threshold) in
theorem onPacket_tracker (s : State α) (d : Delivery α) :
    let t := (s.tracker.processPacket d.seen (flowKeyOf d.srcIp d.dstPort) d.rawPkt).1
    (onPacket infer threshold s d).1.tracker = t ∨
      (onPacket infer threshold s d).1.tracker = t.cleanupStale d.swept 60 := by
  unfold onPacket
  dsimp only
  by_cases hempty : (s.tracker.processPacket d.seen (flowKeyOf d.srcIp d.dstPort) d.rawPkt).2.isEmpty
  · rw [if_pos hempty]
    exact Or.inl rfl
  rw [if_neg hempty]
  by_cases hmod : Int.tmod (Int.bmod (s.pktCount + 1) (2 ^ 32)) 1000 = 0
  · rw [if_pos hmod]
    exact Or.inr rfl
  · rw [if_neg hmod]
    exact Or.inl rfl

theorem small_onPacket {s : State α} (hs : s.tracker.Small) (d : Delivery α) :
    (onPacket infer threshold s d).1.tracker.Small := by
  have hnext := FlowTracker.small_processPacket hs d.seen (flowKeyOf d.srcIp d.dstPort) d.rawPkt
  rcases onPacket_tracker infer threshold s d with h | h
  · rw [h]
    exact hnext
  · rw [h]
    exact FlowTracker.small_cleanupStale hnext _ _

variable (infer) (threshold) in
theorem small_callback (ds : List (Delivery α)) :
    ((callback infer threshold).run ds).tracker.Small :=
  Transducer.run_preserves (M := callback infer threshold) (P := fun s => s.tracker.Small)
    FlowTracker.small_empty (fun _ d hs => small_onPacket hs d) ds

theorem mem_pending_onPacket {s : State α} (hs : s.tracker.Small) {d : Delivery α}
    {key : FlowKey} {x : α} (h : x ∈ (onPacket infer threshold s d).1.tracker.pending key) :
    x ∈ s.tracker.pending key ∨ (key = flowKeyOf d.srcIp d.dstPort ∧ x ∈ d.rawPkt) := by
  apply @FlowTracker.mem_pending_processPacket _ _ hs d.seen
  rcases onPacket_tracker infer threshold s d with htracker | htracker
  · rw [htracker] at h
    exact h
  · rw [htracker] at h
    exact FlowTracker.mem_pending_cleanupStale h

/-- A payload takes along what waited under its key. -/
theorem mem_pending_of_completes {s : State α} (hs : s.tracker.Small) {d : Delivery α}
    (hfull : s.Completes d) {key : FlowKey} {x : α}
    (h : x ∈ (onPacket infer threshold s d).1.tracker.pending key) :
    x ∈ s.tracker.pending key := by
  obtain ⟨-, -, -, htracker, -⟩ := onPacket_completes infer threshold hs hfull
  have herased : x ∈ (⟨s.tracker.activeFlows.erase (flowKeyOf d.srcIp d.dstPort)⟩ :
      FlowTracker α).pending key := by
    rw [htracker] at h
    split_ifs at h
    · exact FlowTracker.mem_pending_cleanupStale h
    · exact h
  by_cases hkey : key = flowKeyOf d.srcIp d.dstPort
  · rw [FlowTracker.pending, hkey, AList.lookup_erase] at herased
    exact absurd herased List.not_mem_nil
  · rwa [FlowTracker.pending, AList.lookup_erase_ne hkey, ← FlowTracker.pending] at herased

theorem delivery_eq {tag : Frame → List α} (c : Captured) :
    c.delivery tag = if c.frame.Accepted then
      some ⟨c.seen, c.swept, Inet.inetNtop c.frame.srcAddr, c.frame.dstPort, tag c.frame⟩
      else none := by
  unfold Captured.delivery
  rw [startCapture_eq, Option.getD_some]
  split_ifs <;> rfl

variable (infer) (threshold) in
/-- One frame: a call of the callback, if the frame is reported at all. -/
theorem dataPlane_step (tag : Frame → List α) (s : State α) (c : Captured) :
    (dataPlane infer threshold tag).step s c = if c.frame.Accepted then
      onPacket infer threshold s
        ⟨c.seen, c.swept, Inet.inetNtop c.frame.srcAddr, c.frame.dstPort, tag c.frame⟩
      else (s, {}) := by
  unfold dataPlane
  dsimp only
  rw [delivery_eq]
  split_ifs <;> rfl

/-- A frame leaves every buffer below the trigger. -/
theorem small_dataPlane_step {tag : Frame → List α} {s : State α} (hs : s.tracker.Small)
    (c : Captured) : ((dataPlane infer threshold tag).step s c).1.tracker.Small := by
  rw [dataPlane_step]
  split_ifs
  · exact small_onPacket hs _
  · exact hs

theorem small_dataPlane {tag : Frame → List α} (cs : List Captured) :
    ((dataPlane infer threshold tag).run cs).tracker.Small :=
  Transducer.run_preserves (M := dataPlane infer threshold tag) (P := fun s => s.tracker.Small)
    FlowTracker.small_empty (fun _ c hs => small_dataPlane_step hs c) cs

theorem flowKeyOf_inetNtop (x : Inet.IPv4) (dstPort : ℤ) :
    flowKeyOf (Inet.inetNtop x) dstPort = ⟨x.sAddr, 0, 0, UInt16.ofInt dstPort, 6⟩ := by
  unfold flowKeyOf
  rw [Inet.inetPton_inetNtop]
  rfl

end Lemmas

end Aegis.DataPlane
