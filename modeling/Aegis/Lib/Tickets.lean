import Aegis.Lib.Transducer
import Mathlib.Algebra.Order.Ring.Nat
import Mathlib.Data.List.Nodup

/-! Promises under numbers: each is handed out once and settled at most once. -/
namespace Tickets

inductive Op (υ : Type*) where
  | issue
  | settle (n : ℕ) (v : υ)
  | settleAll (v : υ)
  | idle

/-- The numbers up to `issued` are handed out, those in `pending` not settled yet. -/
structure Desk where
  issued : ℕ := 0
  pending : List ℕ := []

variable {υ : Type*}

def Desk.step (d : Desk) : Op υ → Desk × List (ℕ × υ)
  | .issue => (⟨d.issued + 1, d.pending ++ [d.issued + 1]⟩, [])
  | .settle n v => if n ∈ d.pending then ({ d with pending := d.pending.erase n }, [(n, v)]) else (d, [])
  | .settleAll v => ({ d with pending := [] }, d.pending.map fun n => (n, v))
  | .idle => (d, [])

/-- What the operation settles a pending promise with. -/
def Op.value (n : ℕ) : Op υ → Option υ
  | .settle n' v => if n' = n then some v else none
  | .settleAll v => some v
  | .issue | .idle => none

def valueAt (n : ℕ) (settled : ℕ × υ) : Option υ := if settled.1 = n then some settled.2 else none

theorem valueAt_map_of_notMem {ns : List ℕ} {n : ℕ} (h : n ∉ ns) (v : υ) :
    (ns.map fun m => (m, v)).filterMap (valueAt n) = [] := by
  rw [List.filterMap_map, List.filterMap_eq_nil_iff]
  intro m hm
  have hne : m ≠ n := ne_of_mem_of_not_mem hm h
  exact if_neg hne

structure Desk.Valid (d : Desk) : Prop where
  nodup : d.pending.Nodup
  issued : ∀ n ∈ d.pending, 0 < n ∧ n ≤ d.issued

theorem valid_empty : ({} : Desk).Valid := ⟨List.nodup_nil, List.forall_mem_nil _⟩

theorem Desk.Valid.step {d : Desk} (h : d.Valid) (op : Op υ) : (d.step op).1.Valid := by
  cases op with
  | issue =>
    have hfresh : d.issued + 1 ∉ d.pending := fun hmem =>
      absurd (h.issued _ hmem).2 (Nat.not_succ_le_self _)
    constructor
    · exact List.nodup_append.mpr ⟨h.nodup, List.nodup_singleton _, by
        rintro n hn m hm rfl
        rw [List.mem_singleton.mp hm] at hn
        exact hfresh hn⟩
    · intro n hn
      rcases List.mem_append.mp hn with hn | hn
      · exact ⟨(h.issued n hn).1, Nat.le_succ_of_le (h.issued n hn).2⟩
      · rw [List.mem_singleton.mp hn]
        exact ⟨Nat.succ_pos _, le_rfl⟩
  | settle n v =>
    unfold Desk.step
    dsimp only
    split_ifs
    · exact ⟨h.nodup.erase n, fun m hm => h.issued m (List.mem_of_mem_erase hm)⟩
    · exact h
  | settleAll v => exact ⟨List.nodup_nil, List.forall_mem_nil _⟩
  | idle => exact h

theorem issued_le_step (d : Desk) (op : Op υ) : d.issued ≤ (d.step op).1.issued := by
  cases op with
  | issue => exact Nat.le_succ _
  | settle n v =>
    unfold Desk.step
    dsimp only
    split_ifs <;> exact le_rfl
  | settleAll | idle => exact le_rfl

/-- What is not pending is settled by no operation; only a new number becomes pending. -/
theorem step_of_notMem {d : Desk} {n : ℕ} (h : n ∉ d.pending) (op : Op υ) :
    (d.step op).2.filterMap (valueAt n) = [] ∧ (n ≤ d.issued → n ∉ (d.step op).1.pending) := by
  cases op with
  | issue =>
    refine ⟨rfl, fun hn hmem => ?_⟩
    rcases List.mem_append.mp hmem with hmem | hmem
    · exact h hmem
    · rw [List.mem_singleton.mp hmem] at hn
      exact absurd hn (Nat.not_succ_le_self _)
  | settle m v =>
    unfold Desk.step
    dsimp only
    split_ifs with hm
    · have hne : m ≠ n := fun heq => h (heq ▸ hm)
      exact ⟨List.filterMap_cons_none (if_neg hne), fun _ hmem => h (List.mem_of_mem_erase hmem)⟩
    · exact ⟨rfl, fun _ => h⟩
  | settleAll v =>
    exact ⟨valueAt_map_of_notMem h v, fun _ => List.not_mem_nil⟩
  | idle => exact ⟨rfl, fun _ => h⟩

/-- A pending promise is settled by the operation or still pending after it. -/
theorem step_of_mem {d : Desk} (hvalid : d.Valid) {n : ℕ} (h : n ∈ d.pending) (op : Op υ) :
    (d.step op).2.filterMap (valueAt n) = (op.value n).toList ∧
      (n ∈ (d.step op).1.pending ↔ op.value n = none) := by
  cases op with
  | issue => exact ⟨rfl, iff_of_true (List.mem_append_left _ h) rfl⟩
  | settle m v =>
    unfold Desk.step Op.value
    by_cases heq : m = n
    · subst heq
      simp [h, valueAt, hvalid.nodup.mem_erase_iff]
    · dsimp only
      rw [if_neg heq]
      split_ifs
      · exact ⟨List.filterMap_cons_none (if_neg heq), iff_of_true
          ((List.mem_erase_of_ne (Ne.symm heq)).mpr h) rfl⟩
      · exact ⟨rfl, iff_of_true h rfl⟩
  | settleAll v =>
    refine ⟨?_, iff_of_false List.not_mem_nil (Option.some_ne_none v)⟩
    show (d.pending.map fun m => (m, v)).filterMap (valueAt n) = [v]
    obtain ⟨before, after, hsplit⟩ := List.append_of_mem h
    have hnodup := hvalid.nodup
    rw [hsplit, List.nodup_middle, List.nodup_cons, List.mem_append, not_or] at hnodup
    obtain ⟨⟨hbefore, hafter⟩, -⟩ := hnodup
    have hown : valueAt n (n, v) = some v := if_pos rfl
    rw [hsplit, List.map_append, List.filterMap_append, valueAt_map_of_notMem hbefore, List.map_cons,
      List.filterMap_cons_some hown, valueAt_map_of_notMem hafter]
    rfl
  | idle => exact ⟨rfl, iff_of_true h rfl⟩

def machine (υ : Type*) : Transducer Desk (Op υ) (List (ℕ × υ)) := ⟨{}, Desk.step⟩

theorem valid_run (ops : List (Op υ)) : ((machine υ).run ops).Valid :=
  Transducer.run_preserves valid_empty (fun _ op h => h.step op) ops

theorem issued_le_after (d : Desk) (ops : List (Op υ)) : d.issued ≤ ((machine υ).after d ops).issued :=
  Transducer.after_preserves (P := fun d' : Desk => d.issued ≤ d'.issued)
    (fun d' op h => h.trans (issued_le_step d' op)) le_rfl ops

/-- A number that is not pending any more is never settled again. -/
theorem outputs_of_notMem {d : Desk} {n : ℕ} (h : n ∉ d.pending) (hissued : n ≤ d.issued)
    (ops : List (Op υ)) : ((machine υ).outputs d ops).flatten.filterMap (valueAt n) = [] := by
  induction ops generalizing d with
  | nil => rfl
  | cons op ops ih =>
    obtain ⟨hout, hstays⟩ := step_of_notMem h op
    rw [Transducer.outputs_cons, List.flatten_cons, List.filterMap_append]
    show (d.step op).2.filterMap _ ++ _ = _
    rw [hout, List.nil_append]
    exact ih (hstays hissued) (hissued.trans (issued_le_step d op))

/-- A pending promise is settled once, by the first operation that can. -/
theorem outputs_of_mem {d : Desk} (hvalid : d.Valid) {n : ℕ} (h : n ∈ d.pending) (ops : List (Op υ)) :
    ((machine υ).outputs d ops).flatten.filterMap (valueAt n) = (ops.findSome? (Op.value n)).toList := by
  induction ops generalizing d with
  | nil => rfl
  | cons op ops ih =>
    obtain ⟨hout, hpending⟩ := step_of_mem hvalid h op
    rw [Transducer.outputs_cons, List.flatten_cons, List.filterMap_append, List.findSome?_cons]
    show (d.step op).2.filterMap _ ++ _ = _
    rw [hout]
    cases hvalue : op.value n with
    | none => exact ih (hvalid.step op) (hpending.mpr hvalue)
    | some v =>
      have hgone : n ∉ (d.step op).1.pending := fun hmem => by
        rw [hpending.mp hmem] at hvalue
        cases hvalue
      have hlater := outputs_of_notMem hgone ((hvalid.issued n h).2.trans (issued_le_step d op)) ops
      exact congrArg ([v] ++ ·) hlater

/-- A number that is still to be handed out has not been settled. -/
theorem answers_of_lt (ops : List (Op υ)) {n : ℕ} (h : ((machine υ).run ops).issued < n) :
    ((machine υ).answers ops).flatten.filterMap (valueAt n) = [] := by
  induction ops using List.reverseRecOn with
  | nil => rfl
  | append_singleton ops op ih =>
    rw [Transducer.run_concat] at h
    have hbefore := lt_of_le_of_lt (issued_le_step ((machine υ).run ops) op) h
    have hnot : n ∉ ((machine υ).run ops).pending := fun hmem =>
      absurd ((valid_run ops).issued n hmem).2 (Nat.not_le_of_lt hbefore)
    rw [Transducer.answers_concat, List.flatten_append, List.filterMap_append, ih hbefore,
      List.flatten_singleton]
    exact (step_of_notMem hnot op).1

/-- Over a whole run a promise is settled exactly once, by the first operation after its
issue that can, or never. -/
theorem settled_run (pre post : List (Op υ)) :
    ((machine υ).answers (pre ++ .issue :: post)).flatten.filterMap
        (valueAt (((machine υ).run pre).issued + 1)) =
      (post.findSome? (Op.value (((machine υ).run pre).issued + 1))).toList := by
  have hvalid := (valid_run pre).step (.issue : Op υ)
  have hmem : ((machine υ).run pre).issued + 1 ∈ (((machine υ).run pre).step (.issue : Op υ)).1.pending :=
    List.mem_append_right _ (List.mem_singleton_self _)
  rw [Transducer.answers_append, List.flatten_append, List.filterMap_append,
    answers_of_lt pre (Nat.lt_succ_self _), List.nil_append]
  exact outputs_of_mem hvalid hmem post

end Tickets
