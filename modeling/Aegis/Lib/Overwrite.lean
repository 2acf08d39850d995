import Mathlib.Data.List.GetD
import Mathlib.Data.List.Nodup

/-! Lists that are written over in places, with a record of what stood there. -/
namespace Overwrite

variable {α : Type*}

/-- Put the recorded values back. -/
def restore (out : List α) (record : List (ℕ × α)) : List α :=
  record.foldl (fun out e => out.set e.1 e.2) out

/-- Outside of the recorded places nothing has changed, and each is recorded once with what
stood there. -/
structure Recorded (orig out : List α) (record : List (ℕ × α)) : Prop where
  length : out.length = orig.length
  label : ∀ e ∈ record, orig[e.1]? = some e.2
  frame : ∀ i, i ∉ record.map Prod.fst → out[i]? = orig[i]?
  nodup : (record.map Prod.fst).Nodup

theorem Recorded.start (orig : List α) : Recorded orig orig [] :=
  ⟨rfl, fun _ h => absurd h List.not_mem_nil, fun _ _ => rfl, List.nodup_nil⟩

theorem Recorded.perm {orig out : List α} {record record' : List (ℕ × α)} (h : Recorded orig out record)
    (hperm : record'.Perm record) : Recorded orig out record' where
  length := h.length
  label e he := h.label e (hperm.mem_iff.mp he)
  frame i hi := h.frame i (fun hin => hi ((hperm.map Prod.fst).mem_iff.mpr hin))
  nodup := (hperm.map Prod.fst).nodup_iff.mpr h.nodup

theorem places_append (record : List (ℕ × α)) (cells : List ℕ) (value : ℕ → α) :
    (record ++ cells.map (fun i => (i, value i))).map Prod.fst = record.map Prod.fst ++ cells := by
  rw [List.map_append, List.map_map]
  congr 1
  exact List.map_id _

/-- Writing over places that are not recorded yet, and recording what stood there. -/
theorem Recorded.write {orig out out' : List α} {record : List (ℕ × α)}
    (h : Recorded orig out record) {cells : List ℕ} (hnodup : cells.Nodup)
    (hnew : ∀ i ∈ cells, i ∉ record.map Prod.fst) (hinside : ∀ i ∈ cells, i < orig.length)
    (hlength : out'.length = out.length) (hframe : ∀ i, i ∉ cells → out'[i]? = out[i]?)
    (fallback : α) :
    Recorded orig out' (record ++ cells.map (fun i => (i, out.getD i fallback))) := by
  have hplaces := places_append record cells (fun i => out.getD i fallback)
  refine ⟨hlength.trans h.length, fun e he => ?_, fun i hi => ?_, ?_⟩
  · rcases List.mem_append.mp he with hold | hcell
    · exact h.label e hold
    · obtain ⟨i, hi, rfl⟩ := List.mem_map.mp hcell
      have hlt : i < out.length := h.length ▸ hinside i hi
      rw [← h.frame i (hnew i hi), List.getD_eq_getElem _ _ hlt]
      exact List.getElem?_eq_getElem hlt
  · rw [hplaces, List.mem_append, not_or] at hi
    rw [hframe i hi.2, h.frame i hi.1]
  · rw [hplaces]
    exact h.nodup.append hnodup fun i hold hcell => hnew i hcell hold

/-- The record undoes the writing. -/
theorem Recorded.undone {orig out : List α} {record : List (ℕ × α)} (h : Recorded orig out record) :
    restore out record = orig := by
  obtain ⟨hlength, hlabel, hframe, -⟩ := h
  induction record generalizing out with
  | nil => exact List.ext_getElem? fun i => hframe i List.not_mem_nil
  | cons e record ih =>
    obtain ⟨he, hrest⟩ := List.forall_mem_cons.mp hlabel
    refine ih ?_ hrest fun i hi => ?_
    · rw [List.length_set, hlength]
    · by_cases hie : e.1 = i
      · have hlt : e.1 < out.length := hlength ▸ (List.getElem?_eq_some_iff.mp he).1
        rw [← hie, List.getElem?_set_self hlt, he]
      · rw [List.getElem?_set_ne hie]
        apply hframe
        rw [List.map_cons, List.mem_cons, not_or]
        exact ⟨fun h => hie h.symm, hi⟩

/-- Writing at the places of a list, one after the other. -/
theorem getElem?_foldl_set (cells : List ℕ) (value : ℕ → α) (out : List α) {i : ℕ} (hi : i ∉ cells) :
    (cells.foldl (fun out c => out.set c (value c)) out)[i]? = out[i]? := by
  induction cells generalizing out with
  | nil => rfl
  | cons c cells ih =>
    rw [List.mem_cons, not_or] at hi
    rw [List.foldl_cons, ih _ hi.2, List.getElem?_set_ne fun h => hi.1 h.symm]

theorem getElem?_foldl_set_of_mem {cells : List ℕ} (value : ℕ → α) (out : List α) {i : ℕ}
    (hi : i ∈ cells) (hlt : i < out.length) :
    (cells.foldl (fun out c => out.set c (value c)) out)[i]? = some (value i) := by
  induction cells generalizing out with
  | nil => exact absurd hi List.not_mem_nil
  | cons c cells ih =>
    rw [List.foldl_cons]
    by_cases hrest : i ∈ cells
    · exact ih _ hrest (by rwa [List.length_set])
    · have hic : i = c := (List.mem_cons.mp hi).resolve_right hrest
      rw [getElem?_foldl_set _ _ _ hrest, ← hic, List.getElem?_set_self hlt]

theorem length_foldl_set (cells : List ℕ) (value : ℕ → α) (out : List α) :
    (cells.foldl (fun out c => out.set c (value c)) out).length = out.length := by
  induction cells generalizing out with
  | nil => rfl
  | cons c cells ih => rw [List.foldl_cons, ih, List.length_set]

end Overwrite
