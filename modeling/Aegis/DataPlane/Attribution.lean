import Aegis.DataPlane.Provenance

/-! Whom an alert blames. The payload is collected over many frames and the blamed
address is read from the last one, so what waits under a key has to agree with it. -/
namespace Aegis.DataPlane

open Capture

section Swept
variable {α β : Type*} (infer : List α → FloatVal) (threshold : FloatVal)

/-- The data plane with cleanups at any moment, besides those it makes itself. -/
def sweptPlane (tag : Frame → List α) : Transducer (State α) (Captured ⊕ Sweep) (Outcome α) where
  init := {}
  step
    | s, .inl c => (dataPlane infer threshold tag).step s c
    | s, .inr sweep =>
      ({ s with tracker := s.tracker.cleanupStale sweep.now sweep.timeoutSeconds }, {})

variable {infer : List β → FloatVal} {threshold : FloatVal} (g : α → β)

variable (infer) (threshold) in
theorem swept_simulation (tag : Frame → List α) :
    Transducer.Simulation (sweptPlane (fun payload => infer (payload.map g)) threshold tag)
      (sweptPlane infer threshold (fun frame => (tag frame).map g)) id (Outcome.map g)
      (Transducer.Environment.free (Captured ⊕ Sweep)) ()
      (fun _ s s' => Relabels g s.tracker s'.tracker ∧ s'.pktCount = s.pktCount) where
  init := (relabel_simulation g infer threshold tag).init
  step := by
    intro u s s' e _ h
    cases e with
    | inl c => exact (relabel_simulation g infer threshold tag).step (g := u) trivial h
    | inr sweep => exact ⟨⟨h.1.cleanupStale sweep.now sweep.timeoutSeconds, h.2⟩, rfl⟩

end Swept

variable (infer : Bytes → FloatVal) (threshold : FloatVal)

/-- The run on bytes that carry the frame they were captured in. -/
def taggedSweptPlane : Transducer (State Tagged) (Captured ⊕ Sweep) (Outcome Tagged) :=
  sweptPlane (fun payload => infer (payload.map Prod.fst)) threshold tagBytes

theorem answers_untag_swept (events : List (Captured ⊕ Sweep)) :
    (sweptPlane infer threshold id).answers events =
      ((taggedSweptPlane infer threshold).answers events).map (Outcome.map Prod.fst) := by
  have hsim := (swept_simulation infer threshold Prod.fst tagBytes).answers_eq
    (Transducer.Environment.free_admissible () events)
  rw [List.map_id, untag_comp_tagBytes] at hsim
  exact hsim

/-- Every waiting byte comes from one of these frames, and is filed under its key. -/
structure Attributed (frames : Set Frame) (s : State Tagged) : Prop where
  small : s.tracker.Small
  origin : ∀ key, ∀ x ∈ s.tracker.pending key,
    (x.1 ∈ x.2 ∧ x.2 ∈ frames) ∧ x.2.Accepted ∧ frameKey x.2 = key

variable {infer : Bytes → FloatVal} {threshold : FloatVal} {frames : Set Frame}

theorem Attributed.init : Attributed frames {} where
  small := FlowTracker.small_empty
  origin _ _ hx := absurd hx List.not_mem_nil

theorem Attributed.mono {frames' : Set Frame} (hsub : frames ⊆ frames') {s : State Tagged}
    (h : Attributed frames s) : Attributed frames' s where
  small := h.small
  origin key x hx := (h.origin key x hx).imp_left (fun hmem => ⟨hmem.1, hsub hmem.2⟩)

theorem Attributed.captured {s : State Tagged} (h : Attributed frames s) {c : Captured}
    (hc : c.frame ∈ frames) :
    Attributed frames ((taggedPlane infer threshold).step s c).1 := by
  refine ⟨small_dataPlane_step h.small c, fun key x hx => ?_⟩
  rcases mem_pending_step h.small hx with hold | ⟨hacc, hkey, hnew⟩
  · exact h.origin key x hold
  · have hbyte := byte_mem_of_mem_tagBytes hnew
    rw [mem_tagBytes hnew, hkey]
    exact ⟨⟨hbyte, hc⟩, hacc, rfl⟩

theorem Attributed.swept {s : State Tagged} (h : Attributed frames s) (sweep : Sweep) :
    Attributed frames
      { s with tracker := s.tracker.cleanupStale sweep.now sweep.timeoutSeconds } where
  small := FlowTracker.small_cleanupStale h.small _ _
  origin key x hx := h.origin key x (FlowTracker.mem_pending_cleanupStale hx)

theorem attributed_run (events : List (Captured ⊕ Sweep)) :
    Attributed {frame | ∃ c, Sum.inl c ∈ events ∧ c.frame = frame}
      ((taggedSweptPlane infer threshold).run events) := by
  induction events using List.reverseRecOn with
  | nil => exact Attributed.init
  | append_singleton events e ih =>
    have hsub : {frame | ∃ c, Sum.inl c ∈ events ∧ c.frame = frame} ⊆
        {frame | ∃ c, Sum.inl c ∈ events ++ [e] ∧ c.frame = frame} := by
      intro frame hframe
      obtain ⟨c, hc, heq⟩ := hframe
      exact ⟨c, List.mem_append_left _ hc, heq⟩
    have hbefore := ih.mono hsub
    rw [Transducer.run_concat]
    cases e with
    | inl c => exact hbefore.captured ⟨c, by simp, rfl⟩
    | inr sweep => exact hbefore.swept sweep

/-- The notification names the source address and the destination port that the capture
loop reads from the frame. -/
def Blames (notification : Json Bytes) (frame : Frame) : Prop :=
  ∃ report params, startCapture frame = some (some report) ∧
    notification.field (ascii "params") = some params ∧
    params.field (ascii "src_ip") = some (.str report.srcIp) ∧
    params.field (ascii "dst_port") = some (.int report.dstPort)

theorem blames_threatDetected {frame : Frame} (h : frame.Accepted) (threatScore : FloatVal) :
    Blames (threatDetected threatScore (Inet.inetNtop frame.srcAddr) frame.dstPort) frame := by
  refine ⟨⟨Inet.inetNtop frame.srcAddr, frame.dstPort, frame⟩, _, ?_, rfl, rfl, rfl⟩
  rw [startCapture_eq, if_pos h]

theorem blames_of_frameKey_eq {f g : Frame} (hf : f.Accepted)
    (hkey : frameKey f = frameKey g) (threatScore : FloatVal) :
    Blames (threatDetected threatScore (Inet.inetNtop g.srcAddr) g.dstPort) f := by
  obtain ⟨hsrc, hport⟩ := (frameKey_eq_iff f g).mp hkey
  rw [← hsrc, ← hport]
  exact blames_threatDetected hf threatScore

/-- A frame that raises an alert: what waited under its key was scored with it. -/
theorem step_notification {s : State Tagged} (hs : s.tracker.Small) {c : Captured}
    {notification : Json Bytes}
    (h : ((taggedPlane infer threshold).step s c).2.notification = some notification) :
    c.frame.Accepted ∧
      ((taggedPlane infer threshold).step s c).2.scored =
        some (s.tracker.pending (frameKey c.frame) ++ tagBytes c.frame) ∧
      notification = threatDetected
        (infer ((s.tracker.pending (frameKey c.frame) ++ tagBytes c.frame).map Prod.fst))
        (Inet.inetNtop c.frame.srcAddr) c.frame.dstPort := by
  rw [taggedPlane, dataPlane_step] at h ⊢
  by_cases hacc : c.frame.Accepted
  swap
  · rw [if_neg hacc] at h
    cases h
  rw [if_pos hacc] at h ⊢
  set d : Delivery Tagged :=
    ⟨c.seen, c.swept, Inet.inetNtop c.frame.srcAddr, c.frame.dstPort, tagBytes c.frame⟩
  by_cases hfull : s.Completes d
  · obtain ⟨hscored, hnotified, -⟩ :=
      onPacket_completes (fun p => infer (p.map Prod.fst)) threshold hs hfull
    rw [hnotified] at h
    split_ifs at h with hscore
    exact ⟨hacc, hscored, (Option.some.inj h).symm⟩
  · rw [onPacket_stored _ _ hs hfull] at h
    cases h

/-- Alert attribution. The answers are those of the run on tagged bytes, and there each
notification stands beside the payload whose score it carries; every byte of that payload
is a byte of a frame captured by then, and the notification blames this very frame. -/
theorem alert_attribution (infer : Bytes → FloatVal) (threshold : FloatVal)
    (events : List (Captured ⊕ Sweep)) :
    (sweptPlane infer threshold id).answers events =
      ((taggedSweptPlane infer threshold).answers events).map (Outcome.map Prod.fst) ∧
    ∀ pre e post, events = pre ++ e :: post → ∀ notification,
      ((taggedSweptPlane infer threshold).step
        ((taggedSweptPlane infer threshold).run pre) e).2.notification = some notification →
      ∃ payload, ((taggedSweptPlane infer threshold).step
          ((taggedSweptPlane infer threshold).run pre) e).2.scored = some payload ∧
        (notification.field (ascii "params")).bind (Json.field · (ascii "confidence")) =
          some (.float (infer (payload.map Prod.fst))) ∧
        ∀ x ∈ payload, x.1 ∈ x.2 ∧ (∃ c, Sum.inl c ∈ pre ++ [e] ∧ c.frame = x.2) ∧
          Blames notification x.2 := by
  refine ⟨answers_untag_swept infer threshold events, ?_⟩
  intro pre e post _ notification h
  have hbefore := @attributed_run infer threshold pre
  cases e with
  | inr sweep => cases h
  | inl c =>
    obtain ⟨hacc, hscored, rfl⟩ := step_notification hbefore.small h
    refine ⟨_, hscored, rfl, fun x hx => ?_⟩
    rcases List.mem_append.mp hx with hold | hnew
    · obtain ⟨⟨hbyte, c', hc', hframe⟩, haccx, hkey⟩ := hbefore.origin _ x hold
      exact ⟨hbyte, ⟨c', List.mem_append_left _ hc', hframe⟩, blames_of_frameKey_eq haccx hkey _⟩
    · have hbyte := byte_mem_of_mem_tagBytes hnew
      rw [mem_tagBytes hnew]
      exact ⟨hbyte, ⟨c, by simp, rfl⟩, blames_threatDetected hacc _⟩

end Aegis.DataPlane
