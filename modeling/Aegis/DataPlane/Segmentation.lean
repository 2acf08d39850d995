import Aegis.DataPlane.Callback
import Aegis.Inference.Infer
import Aegis.Lib.Pieces

/-! One TCP stream, cut into segments. The tracker is handed whole frames, so between two
pieces of the stream a payload holds the headers of the next frame. -/
namespace Aegis.DataPlane

open Capture Inference

/-- `th_off * 4`. -/
def tcpLen (frame : Frame) : ℕ := (frame.byte (26 + frame.ipLen)).toNat / 16 * 4

/-- A segment of a connection as it is captured: link, IP and TCP header, then data. -/
structure Segment (conn : Connection) where
  header : Bytes
  data : Bytes
  seen : ℤ
  swept : ℤ
  accepted : Frame.Accepted (header ++ data)
  connection : Frame.connection (header ++ data) = conn
  ipLen_ge : 20 ≤ Frame.ipLen (header ++ data)
  tcpLen_ge : 20 ≤ tcpLen (header ++ data)
  header_length : header.length = 14 + Frame.ipLen (header ++ data) + tcpLen (header ++ data)

namespace Segment
variable {conn : Connection} (seg : Segment conn)

def frame : Frame := seg.header ++ seg.data

def captured : Captured := ⟨seg.frame, seg.seen, seg.swept⟩

theorem frame_length_ge : 54 ≤ seg.frame.length := by
  have hheader := seg.header_length
  have hip := seg.ipLen_ge
  have htcp := seg.tcpLen_ge
  unfold frame
  rw [List.length_append]
  omega

end Segment

/-- A way of cutting a stream. -/
structure Segmentation (conn : Connection) (stream : Bytes) where
  segments : List (Segment conn)
  cuts : (segments.map Segment.data).flatten = stream

section Run
variable {conn : Connection} (infer : Bytes → FloatVal) (threshold : FloatVal)

def connectionKey (conn : Connection) : FlowKey :=
  flowKeyOf (Inet.inetNtop conn.srcAddr) conn.dstPort

/-- The payloads the tracker emits in a run on the segments. -/
def emitted (segments : List (Segment conn)) : List Bytes :=
  ((dataPlane infer threshold id).answers (segments.map Segment.captured)).filterMap Outcome.scored

/-- The frames of a stream, gathered until they have 512 bytes. -/
def bursts (segments : List (Segment conn)) : List (List Frame) :=
  Pieces.groups 512 [] (segments.map Segment.frame)

variable {infer threshold}

theorem segment_step (s : State UInt8) (seg : Segment conn) :
    (dataPlane infer threshold id).step s seg.captured = onPacket infer threshold s
      ⟨seg.seen, seg.swept, Inet.inetNtop conn.srcAddr, conn.dstPort, seg.frame⟩ := by
  have hsrc : seg.frame.srcAddr = conn.srcAddr := congrArg Connection.srcAddr seg.connection
  have hport : seg.frame.dstPort = conn.dstPort := congrArg Connection.dstPort seg.connection
  rw [dataPlane_step, if_pos (show seg.captured.frame.Accepted from seg.accepted)]
  show onPacket infer threshold s
    ⟨seg.seen, seg.swept, Inet.inetNtop seg.frame.srcAddr, seg.frame.dstPort, seg.frame⟩ = _
  rw [hsrc, hport]

/-- One segment is added to what waits, and emitted with it once 512 bytes are there. -/
theorem segment_effect {s : State UInt8} (hs : s.tracker.Small) (seg : Segment conn) :
    ((dataPlane infer threshold id).step s seg.captured).2.scored =
        (if 512 ≤ (s.tracker.pending (connectionKey conn) ++ seg.frame).length then
          some (s.tracker.pending (connectionKey conn) ++ seg.frame) else none) ∧
      ((dataPlane infer threshold id).step s seg.captured).1.tracker.pending (connectionKey conn) =
        (if 512 ≤ (s.tracker.pending (connectionKey conn) ++ seg.frame).length then []
          else s.tracker.pending (connectionKey conn) ++ seg.frame) := by
  rw [segment_step]
  set d : Delivery UInt8 :=
    ⟨seg.seen, seg.swept, Inet.inetNtop conn.srcAddr, conn.dstPort, seg.frame⟩ with hd
  have hpending := FlowTracker.pending_processPacket_self hs d.seen (connectionKey conn) seg.frame
  by_cases hfull : s.Completes d
  · obtain ⟨hscored, -⟩ := onPacket_completes infer threshold hs hfull
    have hlen : 512 ≤ (s.tracker.pending (connectionKey conn) ++ seg.frame).length := hfull
    rw [if_pos hlen] at hpending ⊢
    rw [if_pos hlen]
    refine ⟨hscored, ?_⟩
    rcases onPacket_tracker infer threshold s d with htracker | htracker
    · rw [htracker]
      exact hpending
    · rw [htracker]
      rcases FlowTracker.pending_cleanupStale _ d.swept 60 (connectionKey conn) with hkeep | hdrop
      · rw [hkeep]
        exact hpending
      · exact hdrop
  · have hlen : ¬ 512 ≤ (s.tracker.pending (connectionKey conn) ++ seg.frame).length := hfull
    rw [onPacket_stored infer threshold hs hfull, if_neg hlen, if_neg hlen]
    rw [if_neg hlen] at hpending
    exact ⟨rfl, hpending⟩

theorem outputs_scored {s : State UInt8} (hs : s.tracker.Small) (segments : List (Segment conn))
    {group : List Frame} (hgroup : s.tracker.pending (connectionKey conn) = group.flatten) :
    ((dataPlane infer threshold id).outputs s (segments.map Segment.captured)).filterMap
        Outcome.scored =
      (Pieces.groups 512 group (segments.map Segment.frame)).map List.flatten := by
  induction segments generalizing s group with
  | nil => rfl
  | cons seg rest ih =>
    obtain ⟨hscored, hpending⟩ := @segment_effect conn infer threshold s hs seg
    have hnext : ((dataPlane infer threshold id).step s seg.captured).1.tracker.Small := by
      rw [segment_step]
      exact small_onPacket hs _
    have hflatten : s.tracker.pending (connectionKey conn) ++ seg.frame =
        (group ++ [seg.frame]).flatten := by
      rw [hgroup]
      simp
    rw [hflatten] at hscored hpending
    rw [List.map_cons, List.map_cons, Transducer.outputs_cons, List.filterMap_cons, hscored,
      Pieces.groups]
    by_cases hlen : 512 ≤ (group ++ [seg.frame]).flatten.length
    · rw [if_pos hlen] at hpending
      rw [if_pos hlen, if_pos hlen, List.map_cons]
      exact congrArg _ (@ih _ hnext [] hpending)
    · rw [if_neg hlen] at hpending
      rw [if_neg hlen, if_neg hlen]
      exact ih hnext hpending

theorem emitted_eq (segments : List (Segment conn)) :
    emitted infer threshold segments = (bursts segments).map List.flatten :=
  outputs_scored FlowTracker.small_empty segments rfl

end Run

/-! Two ways of cutting one stream. -/

section Compare
variable {conn : Connection} {stream : Bytes}

/-- What is emitted are the frames up to some point, and no data comes after it. -/
def Segmentation.Covered (cut : Segmentation conn stream) (emitted : List Bytes) : Prop :=
  ∃ done rest, cut.segments = done ++ rest ∧
    emitted.flatten = (done.map Segment.frame).flatten ∧ ∀ seg ∈ rest, seg.data = []

/-- The rules score some emitted payload 0.99. -/
def Caught (emitted : List Bytes) : Prop :=
  ∃ payload ∈ emitted, heuristicScore payload = heuristicHit

/-- Some signature lies in one frame, or in two frames that follow each other in a burst:
the end of one and the beginning of the next, with its headers. -/
def Segmentation.KeepsSignature (cut : Segmentation conn stream) : Prop :=
  ∃ burst ∈ bursts cut.segments, ∃ sig ∈ signatures, Pieces.Within sig burst

theorem signatures_length : ∀ sig ∈ signatures, sig ≠ [] ∧ sig.length ≤ 10 := by decide +kernel

theorem burst_frames_long {segments : List (Segment conn)} {burst : List Frame}
    (hburst : burst ∈ bursts segments) : ∀ frame ∈ burst, 54 ≤ frame.length := by
  intro frame hframe
  have hmem := Pieces.mem_of_mem_groups hburst hframe
  rw [List.nil_append] at hmem
  obtain ⟨seg, -, rfl⟩ := List.mem_map.mp hmem
  exact seg.frame_length_ge

theorem caught_iff (infer : Bytes → FloatVal) (threshold : FloatVal)
    (cut : Segmentation conn stream) :
    Caught (emitted infer threshold cut.segments) ↔ cut.KeepsSignature := by
  have hburst : ∀ burst ∈ bursts cut.segments,
      heuristicScore burst.flatten = heuristicHit ↔ ∃ sig ∈ signatures, Pieces.Within sig burst := by
    intro burst hburst
    rw [heuristicScore_eq_hit_iff]
    refine exists_congr (fun sig => and_congr_right (fun hsig => ?_))
    obtain ⟨hne, hshort⟩ := signatures_length sig hsig
    apply Pieces.infix_flatten_iff hne
    intro frame hframe
    have hlong := burst_frames_long hburst frame hframe
    omega
  unfold Caught Segmentation.KeepsSignature
  rw [emitted_eq]
  constructor
  · intro h
    obtain ⟨payload, hpayload, hhit⟩ := h
    obtain ⟨burst, hmem, rfl⟩ := List.mem_map.mp hpayload
    exact ⟨burst, hmem, (hburst burst hmem).mp hhit⟩
  · intro h
    obtain ⟨burst, hmem, hkeeps⟩ := h
    exact ⟨burst.flatten, List.mem_map_of_mem hmem, (hburst burst hmem).mpr hkeeps⟩

def SameVerdict (infer : Bytes → FloatVal) (threshold : FloatVal)
    (cut cut' : Segmentation conn stream) : Prop :=
  cut.Covered (emitted infer threshold cut.segments) →
    cut'.Covered (emitted infer threshold cut'.segments) →
      (Caught (emitted infer threshold cut.segments) ↔
        Caught (emitted infer threshold cut'.segments))

/-- Two ways of cutting a stream that is covered have the same verdict exactly if both
keep some signature or neither does. -/
theorem sameVerdict_iff (infer : Bytes → FloatVal) (threshold : FloatVal)
    (cut cut' : Segmentation conn stream) :
    SameVerdict infer threshold cut cut' ↔
      (cut.Covered (emitted infer threshold cut.segments) →
        cut'.Covered (emitted infer threshold cut'.segments) →
          (cut.KeepsSignature ↔ cut'.KeepsSignature)) := by
  unfold SameVerdict
  rw [caught_iff, caught_iff]

end Compare

/-- 10.0.0.9:51201 to 10.0.0.1:80. -/
def sampleConnection : Connection := ⟨⟨10, 0, 0, 9⟩, ⟨10, 0, 0, 1⟩, 51201, 80, 6⟩

def sampleHeader : Bytes :=
  List.replicate 12 0 ++ [8, 0, 0x45, 0, 2, 28] ++ [0, 0, 0, 0, 64, 6, 0, 0] ++
    [10, 0, 0, 9, 10, 0, 0, 1] ++ [200, 1, 0, 80] ++ List.replicate 8 0 ++ [0x50, 0x18] ++
    List.replicate 6 0

def firstHalf : Bytes := List.replicate 245 0x41 ++ ascii "wge"

def secondHalf : Bytes := ascii "t " ++ List.replicate 250 0x41

def sampleSegment (data : Bytes) (h : Frame.Accepted (sampleHeader ++ data))
    (hconn : Frame.connection (sampleHeader ++ data) = sampleConnection)
    (hip : Frame.ipLen (sampleHeader ++ data) = 20) (htcp : tcpLen (sampleHeader ++ data) = 20) :
    Segment sampleConnection where
  header := sampleHeader
  data := data
  seen := 0
  swept := 0
  accepted := h
  connection := hconn
  ipLen_ge := hip.ge
  tcpLen_ge := htcp.ge
  header_length := by
    rw [hip, htcp]
    rfl

def oneSegment : Segmentation sampleConnection (firstHalf ++ secondHalf) where
  segments := [sampleSegment (firstHalf ++ secondHalf) (by decide +kernel) (by decide +kernel)
    (by decide +kernel) (by decide +kernel)]
  cuts := List.append_nil _

def twoSegments : Segmentation sampleConnection (firstHalf ++ secondHalf) where
  segments := [sampleSegment firstHalf (by decide +kernel) (by decide +kernel)
      (by decide +kernel) (by decide +kernel),
    sampleSegment secondHalf (by decide +kernel) (by decide +kernel) (by decide +kernel)
      (by decide +kernel)]
  cuts := by
    show firstHalf ++ (secondHalf ++ []) = firstHalf ++ secondHalf
    rw [List.append_nil]

/-- `wget ` in one segment is caught, cut in two it is not. -/
theorem split_signature_missed :
    ¬ SameVerdict heuristicScore (.fin 0.95) oneSegment twoSegments := by
  have hone : emitted heuristicScore (.fin 0.95) oneSegment.segments =
      [sampleHeader ++ (firstHalf ++ secondHalf)] := by
    rw [emitted_eq]
    decide +kernel
  have htwo : emitted heuristicScore (.fin 0.95) twoSegments.segments =
      [(sampleHeader ++ firstHalf) ++ (sampleHeader ++ secondHalf)] := by
    rw [emitted_eq]
    decide +kernel
  intro h
  unfold SameVerdict at h
  rw [hone, htwo] at h
  have hcaught : Caught [sampleHeader ++ (firstHalf ++ secondHalf)] :=
    ⟨_, List.mem_singleton.mpr rfl, by decide +kernel⟩
  have hcovered : oneSegment.Covered [sampleHeader ++ (firstHalf ++ secondHalf)] :=
    ⟨oneSegment.segments, [], (List.append_nil _).symm, rfl, fun _ hno => absurd hno List.not_mem_nil⟩
  have hcovered' : twoSegments.Covered
      [(sampleHeader ++ firstHalf) ++ (sampleHeader ++ secondHalf)] := by
    refine ⟨twoSegments.segments, [], (List.append_nil _).symm, ?_,
      fun _ hno => absurd hno List.not_mem_nil⟩
    show (sampleHeader ++ firstHalf) ++ (sampleHeader ++ secondHalf) ++ [] =
      (sampleHeader ++ firstHalf) ++ ((sampleHeader ++ secondHalf) ++ [])
    rw [List.append_assoc]
  have hsame := h hcovered hcovered'
  obtain ⟨payload, hmem, hhit⟩ := hsame.mp hcaught
  rw [List.mem_singleton.mp hmem] at hhit
  exact absurd hhit (by decide +kernel)

end Aegis.DataPlane
