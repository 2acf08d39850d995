import Aegis.DataPlane.Provenance

/-! Which connections a scored payload mixes. The key carries the source address and
the destination port, so frames of different connections can meet in one entry. -/
namespace Aegis.DataPlane

open Capture

/-- All bytes come from frames of one connection direction. -/
def OneConnection (payload : List Tagged) : Prop :=
  ∀ x ∈ payload, ∀ y ∈ payload, x.2.connection = y.2.connection

/-- What a frame finds waiting under its key comes from its own connection. The key
settles the source address and the destination port; these are the rest. -/
def WaitingAgrees (s : State Tagged) (c : Captured) : Prop :=
  ∀ d, c.delivery tagBytes = some d → s.Completes d →
    ∀ x ∈ s.waiting d, x.2.dstAddr = c.frame.dstAddr ∧ x.2.srcPort = c.frame.srcPort

variable {infer : Bytes → FloatVal} {threshold : FloatVal}

theorem connection_eq_iff {cs : List Captured} {f : Frame} (hf : f.Accepted) {x : Tagged}
    (hx : x ∈ ((taggedPlane infer threshold).run cs).tracker.pending (frameKey f)) :
    x.2.connection = f.connection ↔ x.2.dstAddr = f.dstAddr ∧ x.2.srcPort = f.srcPort := by
  obtain ⟨hacc, hkey⟩ := waiting_origin cs _ x hx
  obtain ⟨hsrc, hport⟩ := (frameKey_eq_iff x.2 f).mp hkey
  have hproto : x.2.protocol = f.protocol := hacc.2.2.1.trans hf.2.2.1.symm
  unfold Frame.connection
  rw [Connection.mk.injEq]
  constructor
  · intro h
    exact ⟨h.2.1, h.2.2.1⟩
  · intro h
    exact ⟨hsrc, h.1, h.2, hport, hproto⟩

theorem step_scored {cs : List Captured} {c : Captured} {payload : List Tagged} :
    ((taggedPlane infer threshold).step ((taggedPlane infer threshold).run cs) c).2.scored =
        some payload ↔
      c.frame.Accepted ∧ ∃ d, c.delivery tagBytes = some d ∧
        ((taggedPlane infer threshold).run cs).Completes d ∧
        payload = ((taggedPlane infer threshold).run cs).waiting d ++ tagBytes c.frame := by
  set s := (taggedPlane infer threshold).run cs with hs
  have hsmall : s.tracker.Small := small_dataPlane cs
  rw [taggedPlane, dataPlane_step, delivery_eq]
  by_cases hacc : c.frame.Accepted
  swap
  · rw [if_neg hacc]
    constructor
    · intro h
      cases h
    · intro h
      exact absurd h.1 hacc
  rw [if_pos hacc, if_pos hacc]
  set d : Delivery Tagged :=
    ⟨c.seen, c.swept, Inet.inetNtop c.frame.srcAddr, c.frame.dstPort, tagBytes c.frame⟩
  rw [onPacket_scored_iff hsmall]
  constructor
  · intro h
    exact ⟨hacc, d, rfl, h⟩
  · intro h
    obtain ⟨-, d', hd', h⟩ := h
    rw [← Option.some.inj hd'] at h
    exact h

/-- Each scored payload is of one connection if and only if no frame fills an entry in
which bytes of another connection wait. -/
theorem scored_oneConnection_iff (infer : Bytes → FloatVal) (threshold : FloatVal)
    (cs : List Captured) :
    (∀ o ∈ (taggedPlane infer threshold).answers cs, ∀ payload, o.scored = some payload →
        OneConnection payload) ↔
      ∀ pre c post, cs = pre ++ c :: post →
        WaitingAgrees ((taggedPlane infer threshold).run pre) c := by
  constructor
  · intro h pre c post hcs d hd hfull x hx
    have hacc : c.frame.Accepted := by
      by_contra hno
      rw [delivery_eq, if_neg hno] at hd
      cases hd
    have hkey : flowKeyOf d.srcIp d.dstPort = frameKey c.frame := by
      rw [delivery_eq, if_pos hacc] at hd
      rw [← Option.some.inj hd]
      rfl
    have hscored := step_scored.mpr ⟨hacc, d, hd, hfull, rfl⟩
    have hmem := (taggedPlane infer threshold).mem_answers_iff.mpr ⟨pre, c, post, hcs, rfl⟩
    have hone := h _ hmem _ hscored
    have hlen := hacc.length_ge
    have hy : (c.frame.byte 0, c.frame) ∈ tagBytes c.frame := by
      apply List.mem_map_of_mem
      exact List.mem_of_getElem? (Frame.getElem?_eq_byte (by omega))
    have hconn := hone x (List.mem_append_left _ hx) _ (List.mem_append_right _ hy)
    unfold State.waiting at hx
    rw [hkey] at hx
    exact (connection_eq_iff hacc hx).mp hconn
  · intro h o ho payload hpayload
    obtain ⟨pre, c, post, hcs, rfl⟩ := (taggedPlane infer threshold).mem_answers_iff.mp ho
    obtain ⟨hacc, d, hd, hfull, rfl⟩ := step_scored.mp hpayload
    have hall : ∀ x ∈ ((taggedPlane infer threshold).run pre).waiting d ++ tagBytes c.frame,
        x.2.connection = c.frame.connection := by
      intro x hx
      rcases List.mem_append.mp hx with hold | hnew
      · have hagree := h pre c post hcs d hd hfull x hold
        rw [delivery_eq, if_pos hacc] at hd
        rw [← Option.some.inj hd] at hold
        exact (connection_eq_iff hacc hold).mpr hagree
      · rw [mem_tagBytes hnew]
    intro x hx y hy
    rw [hall x hx, hall y hy]

/-- Connection isolation of the data plane, exactly: the answers are those of the run
on tagged bytes, and there each scored payload is of one connection if and only if
no frame brings an entry to the trigger in which bytes wait whose destination
address or source port is not its own. -/
theorem connection_isolation (infer : Bytes → FloatVal) (threshold : FloatVal)
    (cs : List Captured) :
    (dataPlane infer threshold id).answers cs =
      ((taggedPlane infer threshold).answers cs).map (Outcome.map Prod.fst) ∧
    ((∀ o ∈ (taggedPlane infer threshold).answers cs, ∀ payload, o.scored = some payload →
        OneConnection payload) ↔
      ∀ pre c post, cs = pre ++ c :: post →
        WaitingAgrees ((taggedPlane infer threshold).run pre) c) :=
  ⟨answers_untag infer threshold cs, scored_oneConnection_iff infer threshold cs⟩

/-- A frame of 300 bytes from 10.0.0.9 to port 80 of 10.0.0.1, with the given source port. -/
def sampleFrame (sourcePort : UInt8) : Frame :=
  List.replicate 12 0 ++ [8, 0, 0x45, 0, 1, 30] ++ [0, 0, 0, 0, 64, 6, 0, 0] ++
    [10, 0, 0, 9, 10, 0, 0, 1] ++ [200, sourcePort, 0, 80] ++ List.replicate 262 0

/-- Two connections of one host to one port: their frames are scored as one payload. -/
theorem two_connections_mixed :
    ¬ ∀ o ∈ (taggedPlane (fun _ => .fin 0) (.fin 0.95)).answers
        [⟨sampleFrame 1, 0, 0⟩, ⟨sampleFrame 2, 1, 1⟩],
      ∀ payload, o.scored = some payload → OneConnection payload := by
  intro h
  have hiff := (scored_oneConnection_iff _ _ _).mp h
  have hagree := hiff [⟨sampleFrame 1, 0, 0⟩] ⟨sampleFrame 2, 1, 1⟩ [] rfl _
    (by rw [delivery_eq, if_pos (by decide +kernel)]) (by decide +kernel)
    (0, sampleFrame 1) (by decide +kernel)
  exact absurd hagree.2 (by decide +kernel)

end Aegis.DataPlane
