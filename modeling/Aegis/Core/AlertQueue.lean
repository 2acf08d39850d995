import Aegis.Lib.FloatVal
import Aegis.Lib.Monitor
import Aegis.Lib.Text

/-! The queue between the capture threads and the agents, `alert_queue.hpp`: `push`
notifies under the mutex, `pop` waits until the queue is not empty. -/
namespace Aegis.Core

structure Alert where
  type : Bytes
  score : FloatVal
  deriving DecidableEq

namespace AlertQueue

/-- `queue_.push({type, score})`. -/
def push (queue : List Alert) (alert : Alert) : List Alert := queue ++ [alert]

/-- `queue_.front()` and `queue_.pop()`, if the predicate of the wait holds. -/
def pop : List Alert → Option (Alert × List Alert)
  | [] => none
  | alert :: queue => some (alert, queue)

def monitor : Monitor (List Alert) Alert Alert := ⟨[], push, pop⟩

variable {κ : Type*} [DecidableEq κ] {s s' : Monitor.Config κ (List Alert) Alert Alert}

/-- The queue is changed under the mutex, and one thread at a time is inside. -/
theorem changed_by_owner (hs : monitor.Reachable s) (h : monitor.Step s s')
    (hne : s'.data ≠ s.data) : ∃ t, s.owner = some t ∧ ∀ u, (s.phase u).Holds → u = t := by
  obtain ⟨t, ht⟩ := h.owner_of_data_ne hs.ownerHolds hne
  have htin : (s.phase t).Holds := (hs.ownerHolds t).mpr ht
  exact ⟨t, ht, fun u hu => hs.exclusive hu htin⟩

theorem pop_eq_some {queue queue' : List Alert} {alert : Alert}
    (h : pop queue = some (alert, queue')) : queue = alert :: queue' := by
  cases queue with
  | nil => cases h
  | cons a q =>
    cases h
    rfl

/-- What was pushed is what was popped, followed by what is still there. -/
theorem given_eq (hs : monitor.Reachable s) : s.given = s.taken ++ s.data := by
  refine hs.history (P := fun queue pushed popped => pushed = popped ++ queue) rfl ?_ ?_
  · intro queue pushed popped alert h
    show pushed ++ [alert] = popped ++ (queue ++ [alert])
    rw [h, List.append_assoc]
  · intro queue queue' pushed popped alert h hpop
    rw [h, pop_eq_some hpop, List.append_assoc]
    rfl

theorem length_le_notified [Fintype κ] (hs : monitor.Reachable s)
    (hasleep : Monitor.SomeAsleep s.phase) : s.data.length ≤ (Monitor.notified s.phase).card := by
  refine hs.size_le_notified List.length ?_ ?_ ?_ hasleep
  · intro queue alert
    exact List.length_append
  · intro queue hpop
    cases queue with
    | nil => rfl
    | cons a q => cases hpop
  · intro queue alert queue' hpop
    rw [pop_eq_some hpop]
    rfl

/-- Alerts leave in the order they came, and while alerts are queued and a consumer
sleeps, there are as many notified consumers on their way as there are alerts. -/
theorem nothing_lost [Fintype κ] (hs : monitor.Reachable s) :
    s.taken <+: s.given ∧ s.given = s.taken ++ s.data ∧
      (s.data ≠ [] → Monitor.SomeAsleep s.phase →
        s.data.length ≤ (Monitor.notified s.phase).card ∧ ∃ t, (s.phase t).Notified) := by
  have heq := given_eq hs
  refine ⟨⟨s.data, heq.symm⟩, heq, fun hne hasleep => ?_⟩
  have hle := length_le_notified hs hasleep
  have hpos : 0 < s.data.length := List.length_pos_of_ne_nil hne
  have hcard : 0 < (Monitor.notified s.phase).card := by omega
  obtain ⟨t, ht⟩ := Finset.card_pos.mp hcard
  exact ⟨hle, t, Monitor.mem_notified.mp ht⟩

def sampleAlert : Alert := ⟨ascii "DDoS", .fin 0.9⟩

/-- Two consumers sleep, a producer pushes and wakes one of them. -/
theorem sample_reachable : ∃ s : Monitor.Config (Fin 3) (List Alert) Alert Alert,
    monitor.Reachable s ∧ s.data = [sampleAlert] ∧ s.phase 1 = .woken true ∧ s.phase 2 = .asleep := by
  have h0 : monitor.Reachable (monitor.start : Monitor.Config (Fin 3) _ _ _) := .start
  have h1 := h0.step (.lockTake 1 rfl rfl)
  have h2 := h1.step (.wait 1 false rfl rfl)
  have h3 := h2.step (.lockTake 2 rfl rfl)
  have h4 := h3.step (.wait 2 false rfl rfl)
  have h5 := h4.step (.lockGive 0 sampleAlert rfl rfl)
  have h6 := h5.step (.notifyOne 0 1 sampleAlert rfl rfl)
  exact ⟨_, h6, rfl, rfl, rfl⟩

theorem nothing_lost_sample : ∃ s : Monitor.Config (Fin 3) (List Alert) Alert Alert,
    s.data = [sampleAlert] ∧ s.phase 2 = .asleep ∧ s.data.length ≤ (Monitor.notified s.phase).card := by
  obtain ⟨s, hs, hdata, -, hasleep⟩ := sample_reachable
  have hne : s.data ≠ [] := by simp [hdata]
  exact ⟨s, hdata, hasleep, ((nothing_lost hs).2.2 hne ⟨2, hasleep⟩).1⟩

end AlertQueue

end Aegis.Core
