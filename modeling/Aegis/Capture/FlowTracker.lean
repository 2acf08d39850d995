import Aegis.Lib.Keyed
import Aegis.Lib.Table

/-! Flow reassembly, `flow_tracker.hpp` and `flow_tracker.cpp`. The byte type is a
parameter, so that a byte can carry the frame it was captured in. -/
namespace Aegis.Capture

structure FlowKey where
  srcIp : UInt32
  dstIp : UInt32
  srcPort : UInt16
  dstPort : UInt16
  protocol : UInt8
  deriving DecidableEq

/-- The steady clock is read in nanoseconds. -/
structure FlowState (α : Type*) where
  buffer : List α := []
  lastSeen : ℤ := 0

structure FlowTracker (α : Type*) where
  activeFlows : Table FlowKey (FlowState α) := ∅

def maxFlowBuffer : ℕ := 4096

namespace FlowTracker
variable {α : Type*}

/-- Collect a packet; the payload is returned once 512 bytes are assembled. -/
def processPacket (t : FlowTracker α) (now : ℤ) (key : FlowKey) (pkt : List α) :
    FlowTracker α × List α :=
  -- `active_flows_[key]` creates a missing entry
  let state := { (t.activeFlows.lookup key).getD {} with lastSeen := now }
  let state :=
    if state.buffer.length < maxFlowBuffer then { state with buffer := state.buffer ++ pkt }
    else state
  if 512 ≤ state.buffer.length then
    ({ activeFlows := t.activeFlows.erase key }, state.buffer)
  else
    ({ activeFlows := t.activeFlows.insert key state }, [])

def idle (now timeoutSeconds : ℤ) (state : FlowState α) : Bool :=
  timeoutSeconds * 1000000000 < now - state.lastSeen

/-- Drop the flows that have been idle for too long. -/
def cleanupStale (t : FlowTracker α) (now timeoutSeconds : ℤ) : FlowTracker α :=
  { activeFlows := t.activeFlows.eraseIf (fun _ state => idle now timeoutSeconds state) }

def pending (t : FlowTracker α) (key : FlowKey) : List α :=
  (t.activeFlows.lookup key).elim [] FlowState.buffer

/-- No buffer has reached the trigger. -/
def Small (t : FlowTracker α) : Prop := ∀ key, (t.pending key).length < 512

theorem pending_eq_buffer (t : FlowTracker α) (key : FlowKey) :
    t.pending key = ((t.activeFlows.lookup key).getD {}).buffer := by
  rw [pending]
  cases t.activeFlows.lookup key <;> rfl

/-- While no buffer has reached the trigger the size guard always lets the packet in. -/
theorem processPacket_eq {t : FlowTracker α} (ht : t.Small) (now : ℤ) (key : FlowKey)
    (pkt : List α) :
    t.processPacket now key pkt =
      if 512 ≤ (t.pending key ++ pkt).length then
        ({ activeFlows := t.activeFlows.erase key }, t.pending key ++ pkt)
      else ({ activeFlows := t.activeFlows.insert key ⟨t.pending key ++ pkt, now⟩ }, []) := by
  have hguard : (t.pending key).length < maxFlowBuffer := lt_trans (ht key) (by decide)
  simp only [processPacket, ← pending_eq_buffer, if_pos hguard]

theorem lookup_processPacket_ne (t : FlowTracker α) (now : ℤ) {key key' : FlowKey}
    (hk : key' ≠ key) (pkt : List α) :
    (t.processPacket now key pkt).1.activeFlows.lookup key' = t.activeFlows.lookup key' := by
  unfold processPacket
  dsimp only
  split_ifs
  all_goals first
    | exact AList.lookup_erase_ne hk
    | exact AList.lookup_insert_ne hk

theorem lookup_cleanupStale (t : FlowTracker α) (now timeoutSeconds : ℤ) (key : FlowKey) :
    (t.cleanupStale now timeoutSeconds).activeFlows.lookup key =
      (t.activeFlows.lookup key).filter (fun state => !idle now timeoutSeconds state) :=
  Table.lookup_eraseIf _ _ _

theorem pending_processPacket_ne (t : FlowTracker α) (now : ℤ) {key key' : FlowKey}
    (hk : key' ≠ key) (pkt : List α) :
    (t.processPacket now key pkt).1.pending key' = t.pending key' := by
  rw [pending, lookup_processPacket_ne t now hk, pending]

theorem pending_processPacket_self {t : FlowTracker α} (ht : t.Small) (now : ℤ) (key : FlowKey)
    (pkt : List α) :
    (t.processPacket now key pkt).1.pending key =
      if 512 ≤ (t.pending key ++ pkt).length then [] else t.pending key ++ pkt := by
  rw [processPacket_eq ht]
  split_ifs <;> simp [pending]

theorem small_empty : Small ({} : FlowTracker α) := by
  intro key
  simp [pending]

theorem small_processPacket {t : FlowTracker α} (ht : t.Small) (now : ℤ) (key : FlowKey)
    (pkt : List α) : (t.processPacket now key pkt).1.Small := by
  intro key'
  by_cases hk : key' = key
  · subst hk
    rw [pending_processPacket_self ht]
    split_ifs with h
    · simp
    · omega
  · rw [pending_processPacket_ne t now hk]
    exact ht key'

theorem pending_cleanupStale (t : FlowTracker α) (now timeoutSeconds : ℤ) (key : FlowKey) :
    (t.cleanupStale now timeoutSeconds).pending key = t.pending key ∨
      (t.cleanupStale now timeoutSeconds).pending key = [] := by
  rw [pending, lookup_cleanupStale, pending]
  cases t.activeFlows.lookup key with
  | none => exact Or.inr rfl
  | some state =>
    rw [Option.filter_some]
    split_ifs
    · exact Or.inl rfl
    · exact Or.inr rfl

theorem small_cleanupStale {t : FlowTracker α} (ht : t.Small) (now timeoutSeconds : ℤ) :
    (t.cleanupStale now timeoutSeconds).Small := by
  intro key
  rcases pending_cleanupStale t now timeoutSeconds key with h | h
  · rw [h]; exact ht key
  · rw [h]; exact Nat.zero_lt_succ _

theorem mem_pending_processPacket {t : FlowTracker α} (ht : t.Small) {now : ℤ}
    {key key' : FlowKey} {pkt : List α} {x : α}
    (h : x ∈ (t.processPacket now key pkt).1.pending key') :
    x ∈ t.pending key' ∨ (key' = key ∧ x ∈ pkt) := by
  by_cases hk : key' = key
  · subst hk
    rw [pending_processPacket_self ht] at h
    split_ifs at h
    · exact absurd h List.not_mem_nil
    · exact (List.mem_append.mp h).imp_right (fun hx => ⟨rfl, hx⟩)
  · rw [pending_processPacket_ne t now hk] at h
    exact Or.inl h

theorem mem_pending_cleanupStale {t : FlowTracker α} {now timeoutSeconds : ℤ} {key : FlowKey}
    {x : α} (h : x ∈ (t.cleanupStale now timeoutSeconds).pending key) : x ∈ t.pending key := by
  rcases pending_cleanupStale t now timeoutSeconds key with hp | hp
  · rwa [hp] at h
  · rw [hp] at h
    exact absurd h List.not_mem_nil

end FlowTracker

/-- A call of `process_packet` for some key, with the clock it reads. -/
structure Packet (α : Type*) where
  now : ℤ
  bytes : List α

/-- A call of `cleanup_stale`, with the clock it reads. -/
structure Sweep where
  now : ℤ
  timeoutSeconds : ℤ

abbrev FlowEvent (α : Type*) := Keyed.Event FlowKey (Packet α) Sweep

namespace FlowTracker
variable {α : Type*}

def machine (α : Type*) : Transducer (FlowTracker α) (FlowEvent α) (Option (List α)) where
  init := {}
  step
    | t, .at key p => ((t.processPacket p.now key p.bytes).1,
        some (t.processPacket p.now key p.bytes).2)
    | t, .all s => (t.cleanupStale s.now s.timeoutSeconds, none)

@[simp] theorem machine_step_at (t : FlowTracker α) (key : FlowKey) (p : Packet α) :
    (machine α).step t (.at key p) = ((t.processPacket p.now key p.bytes).1,
      some (t.processPacket p.now key p.bytes).2) := rfl

theorem small_step (t : FlowTracker α) (e : FlowEvent α) (ht : t.Small) :
    ((machine α).step t e).1.Small := by
  cases e with
  | «at» key p => exact small_processPacket ht _ _ _
  | all s => exact small_cleanupStale ht _ _

theorem small_run (events : List (FlowEvent α)) : ((machine α).run events).Small :=
  Transducer.run_preserves small_empty small_step events

end FlowTracker

end Aegis.Capture
