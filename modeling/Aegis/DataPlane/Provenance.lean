import Aegis.DataPlane.Callback

/-! Where the bytes of a payload come from. A run on bytes that carry the frame they
were captured in is the run of the data plane, once the frames are forgotten. -/
namespace Aegis.DataPlane

open Capture

/-! Relabelling the bytes commutes with everything the data plane does. -/

section Relabel
variable {α β : Type*} (g : α → β)

def Delivery.map (d : Delivery α) : Delivery β := ⟨d.seen, d.swept, d.srcIp, d.dstPort, d.rawPkt.map g⟩

def Outcome.map (o : Outcome α) : Outcome β := ⟨o.scored.map (List.map g), o.notification, o.cleanup⟩

/-- Two trackers hold the same flows up to relabelling. -/
structure Relabels (t : FlowTracker α) (t' : FlowTracker β) : Prop where
  small : t.Small
  small' : t'.Small
  lookup : ∀ key, t'.activeFlows.lookup key =
    (t.activeFlows.lookup key).map (fun state => ⟨state.buffer.map g, state.lastSeen⟩)

variable {g}

theorem Relabels.pending {t : FlowTracker α} {t' : FlowTracker β} (h : Relabels g t t')
    (key : FlowKey) : t'.pending key = (t.pending key).map g := by
  unfold FlowTracker.pending
  rw [h.lookup]
  cases t.activeFlows.lookup key <;> rfl

theorem Relabels.processPacket {t : FlowTracker α} {t' : FlowTracker β} (h : Relabels g t t')
    (now : ℤ) (key : FlowKey) (pkt : List α) :
    Relabels g (t.processPacket now key pkt).1 (t'.processPacket now key (pkt.map g)).1 ∧
      (t'.processPacket now key (pkt.map g)).2 = (t.processPacket now key pkt).2.map g := by
  have hbytes : t'.pending key ++ pkt.map g = (t.pending key ++ pkt).map g := by
    rw [h.pending, List.map_append]
  have heq := FlowTracker.processPacket_eq h.small now key pkt
  have heq' := FlowTracker.processPacket_eq h.small' now key (pkt.map g)
  rw [hbytes, List.length_map] at heq'
  refine ⟨⟨FlowTracker.small_processPacket h.small _ _ _,
    FlowTracker.small_processPacket h.small' _ _ _, ?_⟩, ?_⟩
  · intro key'
    by_cases hk : key' = key
    · rw [heq, heq', hk]
      split_ifs
      · rw [AList.lookup_erase, AList.lookup_erase]
        rfl
      · rw [AList.lookup_insert, AList.lookup_insert]
        rfl
    · rw [FlowTracker.lookup_processPacket_ne t' now hk, FlowTracker.lookup_processPacket_ne t now hk]
      exact h.lookup key'
  · rw [heq, heq']
    split_ifs <;> rfl

theorem Relabels.cleanupStale {t : FlowTracker α} {t' : FlowTracker β} (h : Relabels g t t')
    (now timeoutSeconds : ℤ) :
    Relabels g (t.cleanupStale now timeoutSeconds) (t'.cleanupStale now timeoutSeconds) where
  small := FlowTracker.small_cleanupStale h.small _ _
  small' := FlowTracker.small_cleanupStale h.small' _ _
  lookup key := by
    rw [FlowTracker.lookup_cleanupStale, FlowTracker.lookup_cleanupStale, h.lookup]
    cases t.activeFlows.lookup key with
    | none => rfl
    | some state =>
      simp only [Option.map_some, Option.filter_some, FlowTracker.idle]
      split_ifs <;> rfl

variable {infer : List β → FloatVal} {threshold : FloatVal}

theorem onPacket_map {s : State α} {s' : State β} (h : Relabels g s.tracker s'.tracker)
    (hcount : s'.pktCount = s.pktCount) (d : Delivery α) :
    let r := onPacket (fun payload => infer (payload.map g)) threshold s d
    let r' := onPacket infer threshold s' (d.map g)
    (Relabels g r.1.tracker r'.1.tracker ∧ r'.1.pktCount = r.1.pktCount) ∧ r'.2 = r.2.map g := by
  obtain ⟨hnext, hpayload⟩ := h.processPacket d.seen (flowKeyOf d.srcIp d.dstPort) d.rawPkt
  intro r r'
  simp only [r, r', onPacket, Delivery.map, hpayload, List.isEmpty_map, hcount]
  split_ifs
  · exact ⟨⟨hnext, rfl⟩, rfl⟩
  all_goals first
    | exact ⟨⟨hnext.cleanupStale _ _, rfl⟩, rfl⟩
    | exact ⟨⟨hnext, rfl⟩, rfl⟩

theorem delivery_map (tag : Frame → List α) (c : Captured) :
    c.delivery (fun frame => (tag frame).map g) = (c.delivery tag).map (Delivery.map g) := by
  rw [delivery_eq, delivery_eq]
  split_ifs <;> rfl

variable (g infer threshold) in
theorem relabel_simulation (tag : Frame → List α) :
    Transducer.Simulation (dataPlane (fun payload => infer (payload.map g)) threshold tag)
      (dataPlane infer threshold (fun frame => (tag frame).map g)) id (Outcome.map g)
      (Transducer.Environment.free Captured) ()
      (fun _ s s' => Relabels g s.tracker s'.tracker ∧ s'.pktCount = s.pktCount) where
  init := ⟨⟨FlowTracker.small_empty, FlowTracker.small_empty, fun _ => rfl⟩, rfl⟩
  step := by
    intro u s s' c _ h
    unfold dataPlane
    dsimp only [id]
    rw [delivery_map]
    cases c.delivery tag with
    | none => exact ⟨h, rfl⟩
    | some d => exact onPacket_map h.1 h.2 d

end Relabel

/-- A byte and the frame it was captured in. -/
abbrev Tagged := UInt8 × Frame

def tagBytes (frame : Frame) : List Tagged := frame.map (fun b => (b, frame))

theorem untag_tagBytes (frame : Frame) : (tagBytes frame).map Prod.fst = frame := by
  unfold tagBytes
  rw [List.map_map]
  exact List.map_id frame

theorem untag_comp_tagBytes :
    (fun frame => (tagBytes frame).map Prod.fst) = (id : Frame → Bytes) :=
  funext untag_tagBytes

theorem mem_tagBytes {frame : Frame} {x : Tagged} (h : x ∈ tagBytes frame) : x.2 = frame := by
  obtain ⟨b, -, hx⟩ := List.mem_map.mp h
  rw [← hx]

theorem byte_mem_of_mem_tagBytes {frame : Frame} {x : Tagged} (h : x ∈ tagBytes frame) :
    x.1 ∈ frame := by
  obtain ⟨b, hb, hx⟩ := List.mem_map.mp h
  rw [← hx]
  exact hb

variable (infer : Bytes → FloatVal) (threshold : FloatVal)

/-- The data plane on tagged bytes; the model does not see the tags. -/
def taggedPlane : Transducer (State Tagged) Captured (Outcome Tagged) :=
  dataPlane (fun payload => infer (payload.map Prod.fst)) threshold tagBytes

theorem answers_untag (cs : List Captured) :
    (dataPlane infer threshold id).answers cs =
      ((taggedPlane infer threshold).answers cs).map (Outcome.map Prod.fst) := by
  have hsim := (relabel_simulation Prod.fst infer threshold tagBytes).answers_eq
    (Transducer.Environment.free_admissible () cs)
  rw [List.map_id, untag_comp_tagBytes] at hsim
  exact hsim

variable {infer : Bytes → FloatVal} {threshold : FloatVal}

def frameKey (frame : Frame) : FlowKey := flowKeyOf (Inet.inetNtop frame.srcAddr) frame.dstPort

/-- A waiting byte was waiting before the frame or came with it, under its key. -/
theorem mem_pending_step {s : State Tagged} (hs : s.tracker.Small) {c : Captured} {key : FlowKey}
    {x : Tagged} (h : x ∈ ((taggedPlane infer threshold).step s c).1.tracker.pending key) :
    x ∈ s.tracker.pending key ∨
      (c.frame.Accepted ∧ key = frameKey c.frame ∧ x ∈ tagBytes c.frame) := by
  rw [taggedPlane, dataPlane_step] at h
  by_cases hacc : c.frame.Accepted
  · rw [if_pos hacc] at h
    exact (mem_pending_onPacket hs h).imp_right (fun hnew => ⟨hacc, hnew⟩)
  · rw [if_neg hacc] at h
    exact Or.inl h

/-- Every waiting byte comes from a reported frame that is filed under the same key. -/
theorem waiting_origin (cs : List Captured) (key : FlowKey) :
    ∀ x ∈ ((taggedPlane infer threshold).run cs).tracker.pending key,
      x.2.Accepted ∧ frameKey x.2 = key := by
  induction cs using List.reverseRecOn generalizing key with
  | nil => exact fun x hx => absurd hx List.not_mem_nil
  | append_singleton cs c ih =>
    intro x hx
    rw [Transducer.run_concat] at hx
    rcases mem_pending_step (small_dataPlane cs) hx with hold | ⟨hacc, hkey, hnew⟩
    · exact ih key x hold
    · rw [mem_tagBytes hnew, hkey]
      exact ⟨hacc, rfl⟩

theorem toNat_ofInt_port {n : ℕ} (h : n < 65536) : (UInt16.ofInt n).toNat = n := by
  have hmod : (n : ℤ) % 2 ^ 16 = n := by omega
  unfold UInt16.ofInt
  rw [hmod, Int.toNat_natCast, UInt16.toNat_ofNat', Nat.mod_eq_of_lt h]

theorem frameKey_eq_iff (f g : Frame) :
    frameKey f = frameKey g ↔ f.srcAddr = g.srcAddr ∧ f.dstPort = g.dstPort := by
  unfold frameKey
  rw [flowKeyOf_inetNtop, flowKeyOf_inetNtop]
  constructor
  · intro h
    simp only [FlowKey.mk.injEq, true_and, and_true] at h
    have hports := congrArg UInt16.toNat h.2
    rw [toNat_ofInt_port f.dstPort_lt, toNat_ofInt_port g.dstPort_lt] at hports
    exact ⟨Inet.IPv4.sAddr_injective h.1, hports⟩
  · intro h
    rw [h.1, h.2]

end Aegis.DataPlane
