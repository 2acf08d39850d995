import Aegis.Capture.FlowTracker

/-! What the tracker is for: one independent accumulator for each key. The tracker
refines the family of all accumulators, so the statements about one key follow
from runs of a single accumulator. -/
namespace Aegis.Capture

variable {α : Type*}

/-- One flow: append, emit everything and start over once 512 bytes are there,
forget the bytes when a cleanup finds the flow idle for too long. -/
def flowAccumulator (α : Type*) : Keyed.Component (Option (FlowState α)) (Packet α) Sweep (List α) where
  init := none
  input a p :=
    let buffer := a.elim [] FlowState.buffer ++ p.bytes
    if 512 ≤ buffer.length then (none, buffer) else (some ⟨buffer, p.now⟩, [])
  broadcast a s := a.filter (fun state => !FlowTracker.idle s.now s.timeoutSeconds state)

/-- The entry of every key is the state of its accumulator. -/
def Tracks (t : FlowTracker α) (f : FlowKey → Option (FlowState α)) : Prop :=
  t.Small ∧ ∀ key, t.activeFlows.lookup key = f key

theorem tracks_processPacket {t : FlowTracker α} {f : FlowKey → Option (FlowState α)}
    (h : Tracks t f) (key : FlowKey) (p : Packet α) :
    Tracks (t.processPacket p.now key p.bytes).1
        (Function.update f key ((flowAccumulator α).input (f key) p).1) ∧
      ((flowAccumulator α).input (f key) p).2 = (t.processPacket p.now key p.bytes).2 := by
  obtain ⟨hsmall, hlookup⟩ := h
  have hpending : (f key).elim [] FlowState.buffer = t.pending key := by
    rw [FlowTracker.pending, hlookup]
  have heq := FlowTracker.processPacket_eq hsmall p.now key p.bytes
  refine ⟨⟨FlowTracker.small_processPacket hsmall _ _ _, fun key' => ?_⟩, ?_⟩
  · by_cases hk : key' = key
    · subst hk
      rw [heq, Function.update_self]
      simp only [flowAccumulator, hpending]
      split_ifs
      · exact AList.lookup_erase _ _
      · exact AList.lookup_insert _
    · rw [FlowTracker.lookup_processPacket_ne t _ hk, Function.update_of_ne hk, hlookup]
  · rw [heq]
    simp only [flowAccumulator, hpending]
    split_ifs <;> rfl

theorem tracks_cleanupStale {t : FlowTracker α} {f : FlowKey → Option (FlowState α)}
    (h : Tracks t f) (s : Sweep) :
    Tracks (t.cleanupStale s.now s.timeoutSeconds)
      (fun key => (flowAccumulator α).broadcast (f key) s) := by
  refine ⟨FlowTracker.small_cleanupStale h.1 _ _, fun key => ?_⟩
  rw [FlowTracker.lookup_cleanupStale, h.2]
  rfl

theorem tracker_simulation : Transducer.Simulation (FlowTracker.machine α)
    ((flowAccumulator α).family FlowKey) id id (Transducer.Environment.free (FlowEvent α)) ()
    (fun _ => Tracks) where
  init := ⟨FlowTracker.small_empty, fun _ => rfl⟩
  step := by
    intro g t f e _ h
    cases e with
    | «at» key p =>
      obtain ⟨htracks, hout⟩ := tracks_processPacket h key p
      exact ⟨htracks, congrArg some hout⟩
    | all s => exact ⟨tracks_cleanupStale h s, rfl⟩

theorem answers_eq_accumulator (events : List (FlowEvent α)) (key : FlowKey) :
    Keyed.answersAt key events ((FlowTracker.machine α).answers events) =
      ((flowAccumulator α).machine.answers (Keyed.project key events)).reduceOption := by
  have hsim := tracker_simulation.answers_eq (Transducer.Environment.free_admissible () events)
  rw [List.map_id, List.map_id] at hsim
  rw [← hsim]
  exact Keyed.family_outputs _ key _ events

theorem lookup_eq_accumulator (events : List (FlowEvent α)) (key : FlowKey) :
    ((FlowTracker.machine α).run events).activeFlows.lookup key =
      (flowAccumulator α).machine.run (Keyed.project key events) := by
  obtain ⟨_, hrel⟩ := tracker_simulation.run_related
    (Transducer.Environment.free_admissible () events)
  rw [List.map_id] at hrel
  rw [hrel.2 key]
  exact Keyed.family_after _ key _ events

/-! What one key sends and receives. -/

/-- The bytes of a key's own packets. -/
def bytesSent (key : FlowKey) : List (FlowEvent α) → List α
  | [] => []
  | .at key' p :: events => if key' = key then p.bytes ++ bytesSent key events
      else bytesSent key events
  | .all _ :: events => bytesSent key events

/-- No cleanup of the run evicts the key. -/
def NoEviction (key : FlowKey) : FlowTracker α → List (FlowEvent α) → Prop
  | _, [] => True
  | t, .at key' p :: events => NoEviction key (t.processPacket p.now key' p.bytes).1 events
  | t, .all s :: events =>
    (t.cleanupStale s.now s.timeoutSeconds).activeFlows.lookup key = t.activeFlows.lookup key ∧
      NoEviction key (t.cleanupStale s.now s.timeoutSeconds) events

/-- One packet: what was buffered and what came in is what went out and what is
buffered now. -/
theorem processPacket_conserves {t : FlowTracker α} (ht : t.Small) (now : ℤ) (key : FlowKey)
    (pkt : List α) : t.pending key ++ pkt =
      (t.processPacket now key pkt).2 ++ (t.processPacket now key pkt).1.pending key := by
  rw [FlowTracker.pending_processPacket_self ht, FlowTracker.processPacket_eq ht]
  split_ifs <;> simp

theorem outputs_conserve (key : FlowKey) {t : FlowTracker α} (ht : t.Small)
    (events : List (FlowEvent α)) (hno : NoEviction key t events) :
    t.pending key ++ bytesSent key events =
      (Keyed.answersAt key events ((FlowTracker.machine α).outputs t events)).flatten ++
        ((FlowTracker.machine α).after t events).pending key := by
  induction events generalizing t with
  | nil => simp [bytesSent]
  | cons e events ih =>
    cases e with
    | «at» key' p =>
      have hrest := ih (FlowTracker.small_processPacket ht p.now key' p.bytes) hno
      simp only [Transducer.outputs_cons, Transducer.after_cons, FlowTracker.machine_step_at,
        Keyed.answersAt_at, bytesSent]
      by_cases hk : key' = key
      · subst hk
        have hstep := processPacket_conserves ht p.now key' p.bytes
        rw [if_pos rfl, if_pos rfl, ← List.append_assoc, hstep, List.append_assoc, hrest]
        simp
      · rw [if_neg hk, if_neg hk, ← hrest,
          FlowTracker.pending_processPacket_ne t p.now (Ne.symm hk)]
    | all s =>
      obtain ⟨hkeep, hno⟩ := hno
      have hrest := ih (FlowTracker.small_cleanupStale ht s.now s.timeoutSeconds) hno
      have hpending : (t.cleanupStale s.now s.timeoutSeconds).pending key = t.pending key := by
        rw [FlowTracker.pending, hkeep, FlowTracker.pending]
      rw [hpending] at hrest
      exact hrest

theorem accumulator_payload (events : List (Packet α ⊕ Sweep)) :
    ∀ o ∈ (flowAccumulator α).machine.answers events,
      ∀ payload, o = some payload → payload ≠ [] → 512 ≤ payload.length := by
  refine Transducer.answers_forall (P := fun _ => True)
    (Q := fun o => ∀ payload, o = some payload → payload ≠ [] → 512 ≤ payload.length)
    trivial (fun _ _ _ => trivial) ?_ events
  intro a i _ payload ho hne
  cases i with
  | inl p =>
    simp only [Keyed.machine_step_inl, Option.some.injEq, flowAccumulator] at ho
    split_ifs at ho with h
    · exact ho ▸ h
    · exact absurd ho.symm hne
  | inr s => cases ho

/-- The tracker refines one accumulator for each key. Hence, as long as no cleanup
evicts a key, its payloads and its buffer are its packets, byte for byte; payloads
have at least 512 bytes, stored buffers fewer, and the size guard never bites. -/
theorem flowTracker_refines_accumulators (events : List (FlowEvent α)) (key : FlowKey) :
    (Keyed.answersAt key events ((FlowTracker.machine α).answers events) =
        ((flowAccumulator α).machine.answers (Keyed.project key events)).reduceOption ∧
      ((FlowTracker.machine α).run events).activeFlows.lookup key =
        (flowAccumulator α).machine.run (Keyed.project key events)) ∧
    (∀ pre seg, events = pre ++ seg →
      NoEviction key ((FlowTracker.machine α).run pre) seg →
      ((FlowTracker.machine α).run pre).pending key ++ bytesSent key seg =
        (Keyed.answersAt key seg
          ((FlowTracker.machine α).outputs ((FlowTracker.machine α).run pre) seg)).flatten ++
          ((FlowTracker.machine α).run events).pending key) ∧
    (∀ payload ∈ Keyed.answersAt key events ((FlowTracker.machine α).answers events),
      payload ≠ [] → 512 ≤ payload.length) ∧
    (∀ state, ((FlowTracker.machine α).run events).activeFlows.lookup key = some state →
      state.buffer.length < 512) ∧
    ∀ pre p post, events = pre ++ .at key p :: post →
      (((FlowTracker.machine α).run pre).pending key).length < maxFlowBuffer := by
  refine ⟨⟨answers_eq_accumulator events key, lookup_eq_accumulator events key⟩, ?_, ?_, ?_, ?_⟩
  · rintro pre seg rfl hno
    rw [Transducer.run_append]
    exact outputs_conserve key (FlowTracker.small_run pre) seg hno
  · intro payload hpayload hne
    rw [answers_eq_accumulator, List.reduceOption_mem_iff] at hpayload
    exact accumulator_payload _ _ hpayload payload rfl hne
  · intro state hstate
    have hsmall := FlowTracker.small_run events key
    rwa [FlowTracker.pending, hstate] at hsmall
  · rintro pre p post -
    exact lt_trans (FlowTracker.small_run pre key) (by decide)

end Aegis.Capture
