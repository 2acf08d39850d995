import Aegis.DataPlane.Callback

/-! When stale flows are dropped. The counter stands behind the early return, so it
counts payloads and not frames. -/
namespace Aegis.DataPlane

open Capture

variable {α : Type*} (infer : List α → FloatVal) (threshold : FloatVal)

/-- Every frame whose number is a multiple of 1000 has the cleanup made, and leaves no
flow that has been idle for more than 60 seconds. -/
def SweptOnTime (ds : List (Delivery α)) : Prop :=
  ∀ pre d post, ds = pre ++ d :: post → 1000 ∣ pre.length + 1 →
    (onPacket infer threshold ((callback infer threshold).run pre) d).2.cleanup = some ⟨d.swept, 60⟩ ∧
    ∀ key state, (onPacket infer threshold ((callback infer threshold).run pre) d).1.tracker.activeFlows.lookup
      key = some state → FlowTracker.idle d.swept 60 state = false

def scoredCount (ds : List (Delivery α)) : ℕ :=
  ((callback infer threshold).answers ds).countP (fun o => o.scored.isSome)

theorem scored_isSome_iff {s : State α} (hs : s.tracker.Small) (d : Delivery α) :
    (onPacket infer threshold s d).2.scored.isSome ↔ s.Completes d := by
  by_cases h : s.Completes d
  · obtain ⟨hscored, -⟩ := onPacket_completes infer threshold hs h
    rw [hscored]
    exact iff_of_true rfl h
  · rw [onPacket_stored _ _ hs h]
    exact iff_of_false Bool.false_ne_true h

theorem scoredCount_concat (ds : List (Delivery α)) (d : Delivery α) :
    scoredCount infer threshold (ds ++ [d]) = scoredCount infer threshold ds +
      if ((callback infer threshold).run ds).Completes d then 1 else 0 := by
  have hiff := scored_isSome_iff infer threshold (small_callback infer threshold ds) d
  unfold scoredCount
  rw [Transducer.answers_concat, List.countP_append, List.countP_singleton]
  congr 1
  exact if_congr hiff rfl rfl

theorem scoredCount_le_length (ds : List (Delivery α)) :
    scoredCount infer threshold ds ≤ ds.length := by
  have h := ((callback infer threshold).answers ds).countP_le_length
    (p := fun o => o.scored.isSome)
  rwa [Transducer.length_answers] at h

theorem scoredCount_append (ds es : List (Delivery α)) :
    scoredCount infer threshold ds ≤ scoredCount infer threshold (ds ++ es) ∧
      scoredCount infer threshold (ds ++ es) ≤ scoredCount infer threshold ds + es.length := by
  have hrest : (((callback infer threshold).outputs ((callback infer threshold).run ds) es).countP
      (fun o => o.scored.isSome)) ≤ es.length := by
    have h := ((callback infer threshold).outputs ((callback infer threshold).run ds)
      es).countP_le_length (p := fun o => o.scored.isSome)
    rwa [Transducer.length_outputs] at h
  unfold scoredCount
  rw [Transducer.answers_append, List.countP_append]
  omega

theorem pktCount_run (ds : List (Delivery α)) :
    ((callback infer threshold).run ds).pktCount =
      Int.bmod (scoredCount infer threshold ds) (2 ^ 32) := by
  induction ds using List.reverseRecOn with
  | nil => exact Int.zero_bmod.symm
  | append_singleton ds d ih =>
    have hs := small_callback infer threshold ds
    rw [Transducer.run_concat, scoredCount_concat]
    change (onPacket infer threshold _ d).1.pktCount = _
    by_cases h : ((callback infer threshold).run ds).Completes d
    · obtain ⟨-, -, hcount, -⟩ := onPacket_completes infer threshold hs h
      rw [hcount, State.nextCount, ih, if_pos h, Int.bmod_add_bmod]
      norm_cast
    · rw [onPacket_stored _ _ hs h, if_neg h]
      exact ih

theorem all_scored_concat_iff (ds : List (Delivery α)) (d : Delivery α) :
    scoredCount infer threshold (ds ++ [d]) = (ds ++ [d]).length ↔
      scoredCount infer threshold ds = ds.length ∧
        ((callback infer threshold).run ds).Completes d := by
  have hle := scoredCount_le_length infer threshold ds
  rw [scoredCount_concat, List.length_append, List.length_singleton]
  split_ifs with h
  · exact ⟨fun heq => ⟨by omega, h⟩, fun heq => by omega⟩
  · exact ⟨fun heq => by omega, fun heq => absurd heq.2 h⟩

/-- A run in which every frame is a payload holds no bytes back. -/
theorem pending_of_all_scored {ds : List (Delivery α)}
    (h : scoredCount infer threshold ds = ds.length) (key : FlowKey) :
    ((callback infer threshold).run ds).tracker.pending key = [] := by
  induction ds using List.reverseRecOn with
  | nil => rfl
  | append_singleton ds d ih =>
    obtain ⟨hprev, hfull⟩ := (all_scored_concat_iff infer threshold ds d).mp h
    rw [List.eq_nil_iff_forall_not_mem]
    intro x hx
    rw [Transducer.run_concat] at hx
    have hold := mem_pending_of_completes (small_callback infer threshold ds) hfull hx
    rw [ih hprev] at hold
    exact absurd hold List.not_mem_nil

/-- Every frame is a payload exactly if every frame reaches the trigger alone. -/
theorem all_scored_iff (ds : List (Delivery α)) :
    scoredCount infer threshold ds = ds.length ↔ ∀ d ∈ ds, 512 ≤ d.rawPkt.length := by
  induction ds using List.reverseRecOn with
  | nil => exact iff_of_true rfl (fun _ hd => absurd hd List.not_mem_nil)
  | append_singleton ds d ih =>
    rw [all_scored_concat_iff, List.forall_mem_append, List.forall_mem_singleton, ← ih]
    apply and_congr_right
    intro hall
    unfold State.Completes State.waiting
    rw [pending_of_all_scored infer threshold hall, List.nil_append]

/-- The cleanup is made for the frames that complete a payload whose number, in 32
bits, is a multiple of 1000. -/
theorem cleanup_iff (pre : List (Delivery α)) (d : Delivery α) :
    (onPacket infer threshold ((callback infer threshold).run pre) d).2.cleanup =
        some ⟨d.swept, 60⟩ ↔
      ((callback infer threshold).run pre).Completes d ∧
        Int.tmod (Int.bmod (scoredCount infer threshold pre + 1) (2 ^ 32)) 1000 = 0 := by
  have hs := small_callback infer threshold pre
  have hnext : ((callback infer threshold).run pre).nextCount =
      Int.bmod (scoredCount infer threshold pre + 1) (2 ^ 32) := by
    rw [State.nextCount, pktCount_run infer threshold, Int.bmod_add_bmod]
  by_cases h : ((callback infer threshold).run pre).Completes d
  · obtain ⟨-, -, -, -, hcleanup⟩ := onPacket_completes infer threshold hs h
    rw [hcleanup, hnext, and_iff_right h]
    split_ifs with hmod
    · exact iff_of_true rfl hmod
    · exact iff_of_false not_false hmod
  · rw [onPacket_stored _ _ hs h]
    exact iff_of_false (Option.some_ne_none _).symm (fun hno => h hno.1)

/-- Within a thousand counts one is a multiple of 1000, unless the counter has wrapped:
then it is negative, and it stays clear of -2147483000. -/
theorem counter_multiple {e j : ℕ} (hlow : 1000 * j < e) (hhigh : e ≤ 1000 * (j + 1))
    (hrange : 1000 * j < 2147484000) (hmod : Int.tmod (Int.bmod e (2 ^ 32)) 1000 = 0) :
    e < 2 ^ 31 ∧ e = 1000 * (j + 1) := by
  have hdvd := Int.dvd_of_tmod_eq_zero hmod
  by_cases hover : e < 2 ^ 31
  · have hid : Int.bmod e (2 ^ 32) = e := by
      apply Int.bmod_eq_of_le <;> omega
    rw [hid] at hdvd
    omega
  · have hwrap : Int.bmod e (2 ^ 32) = e - 2 ^ 32 := by
      unfold Int.bmod
      dsimp only
      split_ifs <;> omega
    rw [hwrap] at hdvd
    omega

variable {infer threshold} in
/-- Cleanups on time leave no frame unscored: a multiple of 1000 payloads within 1000
frames is all of them, and past the range of the counter there is none. -/
theorem sweptOnTime_scored {ds : List (Delivery α)} (h : SweptOnTime infer threshold ds) {j : ℕ}
    (hj : 1000 * j ≤ ds.length) :
    1000 * j < 2147484000 ∧
      scoredCount infer threshold (ds.take (1000 * j)) = 1000 * j := by
  induction j with
  | zero => exact ⟨by decide, rfl⟩
  | succ j ih =>
    obtain ⟨hrange, hcount⟩ := ih (by omega)
    have hn : 1000 * j + 999 < ds.length := by omega
    set pre := ds.take (1000 * j + 999) with hpre
    have hprelen : pre.length = 1000 * j + 999 := List.length_take_of_le hn.le
    have hsplit : ds = pre ++ ds[1000 * j + 999] :: ds.drop (1000 * j + 999 + 1) := by simp [hpre]
    have htake : pre = ds.take (1000 * j) ++ (ds.drop (1000 * j)).take 999 := by
      rw [hpre, List.take_add]
    have hrest : ((ds.drop (1000 * j)).take 999).length = 999 := by
      rw [List.length_take, List.length_drop]
      omega
    obtain ⟨hlow, hhigh⟩ := scoredCount_append infer threshold
      (ds.take (1000 * j)) ((ds.drop (1000 * j)).take 999)
    rw [← htake, hcount] at hlow hhigh
    rw [hrest] at hhigh
    have hswept := (h pre _ _ hsplit (by omega)).1
    obtain ⟨hfull, hmod⟩ := (cleanup_iff infer threshold pre _).mp hswept
    have hfits := counter_multiple (e := scoredCount infer threshold pre + 1) (j := j)
      (by omega) (by omega) hrange (by exact_mod_cast hmod)
    have hnext : ds.take (1000 * (j + 1)) = pre ++ [ds[1000 * j + 999]] := by
      rw [hpre, show 1000 * (j + 1) = 1000 * j + 999 + 1 by ring, List.take_succ_eq_append_getElem hn]
    rw [hnext, scoredCount_concat, if_pos hfull]
    omega

theorem lookup_after_sweep {s : State α} (hs : s.tracker.Small) {d : Delivery α}
    (hfull : s.Completes d) (hmod : Int.tmod s.nextCount 1000 = 0) {key : FlowKey}
    {state : FlowState α}
    (h : (onPacket infer threshold s d).1.tracker.activeFlows.lookup key = some state) :
    FlowTracker.idle d.swept 60 state = false := by
  obtain ⟨-, -, -, htracker, -⟩ := onPacket_completes infer threshold hs hfull
  rw [htracker, if_pos hmod, FlowTracker.lookup_cleanupStale, Option.filter_eq_some_iff] at h
  simpa using h.2

/-- The cleanup comes on time exactly in the runs whose frames, up to the last multiple
of 1000, all have 512 bytes, and that are too short for the counter to wrap. -/
theorem sweptOnTime_iff (ds : List (Delivery α)) :
    SweptOnTime infer threshold ds ↔
      (∀ d ∈ ds.take (1000 * (ds.length / 1000)), 512 ≤ d.rawPkt.length) ∧
        ds.length < 2147484000 := by
  constructor
  · intro h
    have hle : 1000 * (ds.length / 1000) ≤ ds.length := Nat.mul_div_le _ _
    obtain ⟨hrange, hcount⟩ := sweptOnTime_scored h hle
    refine ⟨(all_scored_iff infer threshold _).mp ?_, by omega⟩
    rw [hcount, List.length_take_of_le hle]
  · intro h pre d post hds hdvd
    obtain ⟨hlarge, hrange⟩ := h
    have hds' : ds.length = pre.length + (post.length + 1) := by
      rw [hds, List.length_append, List.length_cons]
    have hlen : pre.length + 1 ≤ 1000 * (ds.length / 1000) := by omega
    have hstart : pre ++ [d] = (ds.take (1000 * (ds.length / 1000))).take (pre.length + 1) := by
      rw [List.take_take, min_eq_left hlen, hds, List.take_length_add_append]
      rfl
    have hall : ∀ e ∈ pre ++ [d], 512 ≤ e.rawPkt.length := by
      intro e he
      rw [hstart] at he
      exact hlarge e (List.mem_of_mem_take he)
    have hcount := (all_scored_iff infer threshold _).mpr hall
    have hpre := (all_scored_iff infer threshold pre).mpr
      (fun e he => hall e (List.mem_append_left _ he))
    rw [scoredCount_concat, hpre, List.length_append, List.length_singleton] at hcount
    have hfull : ((callback infer threshold).run pre).Completes d := by
      by_contra hno
      rw [if_neg hno] at hcount
      omega
    have hmod : Int.tmod (Int.bmod (scoredCount infer threshold pre + 1) (2 ^ 32)) 1000 = 0 := by
      have hid : Int.bmod ((pre.length : ℤ) + 1) (2 ^ 32) = pre.length + 1 := by
        apply Int.bmod_eq_of_le <;> omega
      rw [hpre, hid, ← Int.dvd_iff_tmod_eq_zero]
      exact_mod_cast hdvd
    refine ⟨(cleanup_iff infer threshold pre d).mpr ⟨hfull, hmod⟩, fun key state hlook => ?_⟩
    refine lookup_after_sweep infer threshold (small_callback infer threshold pre) hfull ?_ hlook
    rw [State.nextCount, pktCount_run infer threshold, Int.bmod_add_bmod]
    exact hmod

/-- A scan: a frame of 60 bytes for each of 1000 ports, one in a second. -/
def scan : List (Delivery UInt8) := (List.range 1000).map fun i : ℕ =>
  ⟨(i : ℤ) * 1000000000, (i : ℤ) * 1000000000, ascii "10.0.0.9", i + 1, List.replicate 60 0⟩

/-- The thousandth frame of the scan comes and goes without a cleanup. -/
theorem scan_not_swept :
    scan.Pairwise (fun d e => d.seen ≤ e.seen) ∧
      ¬ SweptOnTime (fun _ => .fin 0) (.fin 0.95) scan := by
  have hlen : scan.length = 1000 := by rw [scan, List.length_map, List.length_range]
  refine ⟨?_, fun h => ?_⟩
  · rw [scan, List.pairwise_map]
    refine List.pairwise_lt_range.imp ?_
    intro i j hij
    dsimp only
    omega
  · obtain ⟨-, hcount⟩ := sweptOnTime_scored h (j := 1) (by omega)
    have htake : scan.take (1000 * 1) = scan := List.take_of_length_le (by omega)
    rw [htake, mul_one, ← hlen, all_scored_iff] at hcount
    have hfirst := hcount ⟨0, 0, ascii "10.0.0.9", 1, List.replicate 60 0⟩
      (List.mem_map.mpr ⟨0, by simp, rfl⟩)
    rw [List.length_replicate] at hfirst
    omega

end Aegis.DataPlane
