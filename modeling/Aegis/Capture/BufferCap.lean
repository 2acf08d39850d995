import Aegis.Capture.FlowTracker

/-! How large the buffers of the flow tracker get. The cap is tested against the size
before a packet is appended. -/
namespace Aegis.Capture

namespace FlowTracker
variable {α : Type*}

/-- The buffer of the flow once the packet has been dealt with, before the trigger. -/
def collected (t : FlowTracker α) (key : FlowKey) (pkt : List α) : List α :=
  if (t.pending key).length < maxFlowBuffer then t.pending key ++ pkt else t.pending key

theorem processPacket_eq_collected (t : FlowTracker α) (now : ℤ) (key : FlowKey) (pkt : List α) :
    t.processPacket now key pkt =
      if 512 ≤ (t.collected key pkt).length then
        ({ activeFlows := t.activeFlows.erase key }, t.collected key pkt)
      else ({ activeFlows := t.activeFlows.insert key ⟨t.collected key pkt, now⟩ }, []) := by
  unfold processPacket collected
  simp only [← pending_eq_buffer]
  by_cases hguard : (t.pending key).length < maxFlowBuffer
  · simp only [if_pos hguard]
  · simp only [if_neg hguard]

/-- In a run the guard is always open. -/
theorem collected_run (events : List (FlowEvent α)) (key : FlowKey) (pkt : List α) :
    ((machine α).run events).collected key pkt = ((machine α).run events).pending key ++ pkt := by
  have hsmall := small_run events key
  exact if_pos (lt_trans hsmall (by decide))

/-- What is emitted is the whole buffer, which is then gone. -/
theorem emitted_eq (t : FlowTracker α) (now : ℤ) (key : FlowKey) (pkt : List α) :
    (t.processPacket now key pkt).2 = t.collected key pkt ∨
      (t.processPacket now key pkt).2 = [] := by
  rw [processPacket_eq_collected]
  split_ifs
  · exact Or.inl rfl
  · exact Or.inr rfl

end FlowTracker

variable {α : Type*}

/-- At every point of the run, the emission included, no buffer is above the cap. -/
structure Capped (events : List (FlowEvent α)) : Prop where
  stored : ∀ pre post, events = pre ++ post →
    ∀ key, (((FlowTracker.machine α).run pre).pending key).length ≤ maxFlowBuffer
  collected : ∀ pre key p post, events = pre ++ .at key p :: post →
    (((FlowTracker.machine α).run pre).collected key p.bytes).length ≤ maxFlowBuffer
  emitted : ∀ o ∈ (FlowTracker.machine α).answers events,
    ∀ payload, o = some payload → payload.length ≤ maxFlowBuffer

/-- Every packet finds enough room below the cap. -/
def FitsCap (events : List (FlowEvent α)) : Prop :=
  ∀ pre key p post, events = pre ++ .at key p :: post →
    (((FlowTracker.machine α).run pre).pending key).length + p.bytes.length ≤ maxFlowBuffer

/-- A bound on what the buffers hold before the trigger bounds the payloads. -/
theorem emitted_le {events : List (FlowEvent α)} {n : ℕ}
    (h : ∀ pre key p post, events = pre ++ .at key p :: post →
      (((FlowTracker.machine α).run pre).collected key p.bytes).length ≤ n) :
    ∀ o ∈ (FlowTracker.machine α).answers events, ∀ payload, o = some payload →
      payload.length ≤ n := by
  rintro o ho payload rfl
  obtain ⟨pre, e, post, hsplit, hanswer⟩ := (FlowTracker.machine α).mem_answers_iff.mp ho
  cases e with
  | all s => cases hanswer
  | «at» key p =>
    rw [FlowTracker.machine_step_at, Option.some.injEq] at hanswer
    rw [hanswer]
    rcases FlowTracker.emitted_eq ((FlowTracker.machine α).run pre) p.now key p.bytes with he | he
    · rw [he]
      exact h pre key p post hsplit
    · rw [he]
      exact Nat.zero_le n

/-- The cap holds in exactly the runs whose every packet fits under it. -/
theorem capped_iff (events : List (FlowEvent α)) : Capped events ↔ FitsCap events := by
  constructor
  · intro h pre key p post hsplit
    have hlen := h.collected pre key p post hsplit
    rwa [FlowTracker.collected_run, List.length_append] at hlen
  · intro h
    have hcollected : ∀ pre key p post, events = pre ++ .at key p :: post →
        (((FlowTracker.machine α).run pre).collected key p.bytes).length ≤ maxFlowBuffer := by
      intro pre key p post hsplit
      rw [FlowTracker.collected_run, List.length_append]
      exact h pre key p post hsplit
    refine ⟨fun pre _ _ key => ?_, hcollected, emitted_le hcollected⟩
    have hsmall := FlowTracker.small_run pre key
    exact le_of_lt (lt_trans hsmall (by decide))

/-- No packet is longer than the snap length of the sniffer. -/
def Snapped (events : List (FlowEvent α)) : Prop :=
  ∀ key p, Keyed.Event.at key p ∈ events → p.bytes.length ≤ 65535

/-- What bounds the payloads is the trigger and the snap length. -/
theorem emitted_le_of_snapped {events : List (FlowEvent α)} (h : Snapped events) :
    ∀ o ∈ (FlowTracker.machine α).answers events, ∀ payload, o = some payload →
      payload.length ≤ 511 + 65535 := by
  refine emitted_le (fun pre key p post hsplit => ?_)
  have hsmall := FlowTracker.small_run pre key
  have hpkt : p.bytes.length ≤ 65535 := by
    apply h key p
    rw [hsplit]
    exact List.mem_append_cons_self
  rw [FlowTracker.collected_run, List.length_append]
  omega

/-- One packet of 4097 bytes is enough. -/
theorem cap_exceeded : ¬ ∀ events : List (FlowEvent UInt8), Snapped events → Capped events := by
  intro h
  let key : FlowKey := ⟨0x0100007F, 0, 0, 443, 6⟩
  have hsnapped : Snapped [Keyed.Event.at key ⟨0, List.replicate 4097 (0 : UInt8)⟩] := by
    intro key' p hmem
    obtain ⟨-, rfl⟩ := Keyed.Event.at.inj (List.mem_singleton.mp hmem)
    rw [List.length_replicate]
    decide
  have hcollected := (h _ hsnapped).collected [] key _ [] rfl
  rw [FlowTracker.collected_run, List.length_append, List.length_replicate] at hcollected
  exact absurd (le_trans (Nat.le_add_left _ _) hcollected) (by decide)

end Aegis.Capture
