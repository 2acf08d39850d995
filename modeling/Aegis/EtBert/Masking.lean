import Aegis.Lib.Overwrite
import Mathlib.Data.List.Sort
import Mathlib.Data.List.TakeWhile

/-! Masked language modelling, `mask_seq` of `uer/utils/data.py`, without whole words. What
is drawn at random is a parameter. -/
namespace Aegis.EtBert
open Overwrite

def padId : ℕ := 0

/-- `vocab.get` of the special tokens. -/
structure SpecialIds where
  cls : ℕ
  sep : ℕ
  mask : ℕ

def SpecialIds.Skipped (S : SpecialIds) (token : ℕ) : Prop := token = S.cls ∨ token = S.sep ∨ token = padId

instance (S : SpecialIds) (token : ℕ) : Decidable (S.Skipped token) := by
  unfold SpecialIds.Skipped
  infer_instance

/-- What happens to the tokens of one index set: a draw below 0.8, one below 0.9 with the
random ids, or a larger one. -/
inductive Draw where
  | mask
  | random (ids : ℕ → ℕ)
  | keep

/-- The positions of an index set, its start and its length. -/
def cells (span : ℕ × ℕ) : List ℕ := List.range' span.1 span.2

/-- `create_index` from position `i` on. With span masking the lengths are drawn, and a span
that is longer than the sequence is cut off. -/
def createIndex (S : SpecialIds) (spanLen : Option (ℕ → ℕ)) : ℕ → ℕ → List ℕ → List (ℕ × ℕ)
  | _, _, [] => []
  | i, spanEnd, token :: rest =>
    if S.Skipped token then createIndex S spanLen (i + 1) spanEnd rest
    else
      match spanLen with
      | none => (i, 1) :: createIndex S spanLen (i + 1) spanEnd rest
      | some draw =>
        if i < spanEnd then createIndex S spanLen (i + 1) spanEnd rest
        else (i, min (draw i) (rest.length + 1)) :: createIndex S spanLen (i + 1) (i + draw i) rest

def Draw.write (S : SpecialIds) (d : Draw) (span : ℕ × ℕ) (src : List ℕ) : List ℕ :=
  match d with
  | .mask => (cells span).foldl (fun src i => src.set i S.mask) src
  | .random ids => (cells span).foldl (fun src i => src.set i (ids i)) src
  | .keep => src

/-- What a draw makes of the token at a position. -/
def Draw.applied (S : SpecialIds) (d : Draw) (i token : ℕ) : ℕ :=
  match d with
  | .mask => S.mask
  | .random ids => ids i
  | .keep => token

/-- The loop over the index sets. For a single token the second test never holds. -/
def maskLoop (S : SpecialIds) (draw : ℕ × ℕ → Draw) (numToPredict : ℕ) :
    List (ℕ × ℕ) → List ℕ → List (ℕ × ℕ) → List ℕ × List (ℕ × ℕ)
  | [], src, tgtMlm => (src, tgtMlm)
  | span :: rest, src, tgtMlm =>
    if numToPredict ≤ tgtMlm.length then (src, tgtMlm)
    else if numToPredict < tgtMlm.length + span.2 then maskLoop S draw numToPredict rest src tgtMlm
    else
      maskLoop S draw numToPredict rest ((draw span).write S span src)
        (tgtMlm ++ (cells span).map (fun i => (i, src.getD i 0)))

/-- The sequence without the padding at its end; of nothing but padding the first id stays. -/
def srcNoPad (src : List ℕ) : List ℕ :=
  let kept := (src.reverse.dropWhile (· = padId)).reverse
  if kept = [] then src.take 1 else kept

/-- `mask_seq`; an empty sequence raises a `NameError`. `round15` is the rounded share. -/
def maskSeq (S : SpecialIds) (round15 : ℕ → ℕ) (spanLen : Option (ℕ → ℕ))
    (shuffle : List (ℕ × ℕ) → List (ℕ × ℕ)) (draw : ℕ × ℕ → Draw) (src : List ℕ) :
    Option (List ℕ × List (ℕ × ℕ)) :=
  if src = [] then none
  else
    let noPad := srcNoPad src
    let tokensIndex := shuffle (createIndex S spanLen 0 0 noPad)
    let src := noPad ++ List.replicate (src.length - noPad.length) padId
    let masked := maskLoop S draw (max 1 (round15 noPad.length)) tokensIndex src []
    some (masked.1, masked.2.mergeSort (fun a b => decide (a.1 ≤ b.1)))

/-! Index sets. -/

/-- The positions of the index sets come in order, inside the sequence and after the spans
that went before. -/
theorem cells_createIndex (S : SpecialIds) (spanLen : Option (ℕ → ℕ)) (i spanEnd : ℕ) (l : List ℕ) :
    ((createIndex S spanLen i spanEnd l).flatMap cells).Pairwise (· < ·) ∧
      ∀ c ∈ (createIndex S spanLen i spanEnd l).flatMap cells,
        i ≤ c ∧ c < i + l.length ∧ (spanLen.isSome → spanEnd ≤ c) := by
  induction l generalizing i spanEnd with
  | nil => exact ⟨List.Pairwise.nil, fun c hc => absurd hc List.not_mem_nil⟩
  | cons token rest ih =>
    have hskip : ((createIndex S spanLen (i + 1) spanEnd rest).flatMap cells).Pairwise (· < ·) ∧
        ∀ c ∈ (createIndex S spanLen (i + 1) spanEnd rest).flatMap cells,
          i ≤ c ∧ c < i + (token :: rest).length ∧ (spanLen.isSome → spanEnd ≤ c) := by
      refine ⟨(ih (i + 1) spanEnd).1, fun c hc => ?_⟩
      obtain ⟨hlow, hhigh, hend⟩ := (ih (i + 1) spanEnd).2 c hc
      rw [List.length_cons]
      exact ⟨by omega, by omega, hend⟩
    cases spanLen with
    | none =>
      rw [createIndex]
      split_ifs with hskipped
      · exact hskip
      · obtain ⟨horder, hbounds⟩ := hskip
        have hcells : cells (i, 1) = [i] := rfl
        rw [List.flatMap_cons, hcells, List.singleton_append]
        refine ⟨List.pairwise_cons.mpr ⟨fun c hc => ?_, horder⟩, fun c hc => ?_⟩
        · have hlow := ((ih (i + 1) spanEnd).2 c hc).1
          omega
        · rcases List.mem_cons.mp hc with rfl | hc
          · refine ⟨le_rfl, ?_, fun h => by cases h⟩
            rw [List.length_cons]
            omega
          · exact hbounds c hc
    | some draw =>
      rw [createIndex]
      split_ifs with hskipped hinside
      · exact hskip
      · exact hskip
      · obtain ⟨horder, hbounds⟩ := ih (i + 1) (i + draw i)
        have hmem : ∀ c, c ∈ cells (i, min (draw i) (rest.length + 1)) ↔
            i ≤ c ∧ c < i + min (draw i) (rest.length + 1) := fun c => List.mem_range'_1
        rw [List.flatMap_cons]
        refine ⟨List.pairwise_append.mpr ⟨List.pairwise_lt_range', horder, fun a ha c hc => ?_⟩,
          fun c hc => ?_⟩
        · have hspan := (hmem a).mp ha
          have hend := (hbounds c hc).2.2 rfl
          omega
        · rw [List.length_cons]
          rcases List.mem_append.mp hc with hc | hc
          · have hspan := (hmem c).mp hc
            exact ⟨by omega, by omega, fun _ => by omega⟩
          · obtain ⟨hlow, hhigh, hend⟩ := hbounds c hc
            have hafter := hend rfl
            exact ⟨by omega, by omega, fun _ => by omega⟩

-- a span goes on over a separator that it meets
example : createIndex ⟨2, 1, 4⟩ (some fun _ => 3) 0 0 [2, 7, 1, 8, 1] = [(1, 3)] := by decide

/-- Without span masking no special token is in an index set. -/
theorem createIndex_none_skipped (S : SpecialIds) (i spanEnd : ℕ) (l : List ℕ) :
    ∀ c ∈ (createIndex S none i spanEnd l).flatMap cells,
      ∃ token, l[c - i]? = some token ∧ ¬ S.Skipped token := by
  have hall : ∀ c ∈ (createIndex S none i spanEnd l).flatMap cells,
      i ≤ c ∧ ∃ token, l[c - i]? = some token ∧ ¬ S.Skipped token := by
    induction l generalizing i with
    | nil => exact fun c hc => absurd hc List.not_mem_nil
    | cons token rest ih =>
      have hrest : ∀ c ∈ (createIndex S none (i + 1) spanEnd rest).flatMap cells,
          i ≤ c ∧ ∃ t, (token :: rest)[c - i]? = some t ∧ ¬ S.Skipped t := by
        intro c hc
        obtain ⟨hlow, t, ht, hskip⟩ := ih (i + 1) c hc
        have hsub : c - i = c - (i + 1) + 1 := by omega
        rw [hsub, List.getElem?_cons_succ]
        exact ⟨by omega, t, ht, hskip⟩
      rw [createIndex]
      split_ifs with hskipped
      · exact hrest
      · intro c hc
        rw [List.flatMap_cons] at hc
        rcases List.mem_append.mp hc with hc | hc
        · have hi : c = i := List.mem_singleton.mp hc
          subst hi
          rw [Nat.sub_self]
          exact ⟨le_rfl, token, rfl, hskipped⟩
        · exact hrest c hc
  exact fun c hc => (hall c hc).2

/-- Without span masking each token that is no special one is an index set. -/
theorem createIndex_none (S : SpecialIds) (i spanEnd : ℕ) (l : List ℕ) :
    (createIndex S none i spanEnd l).length = l.countP (fun token => ¬ S.Skipped token) ∧
      ∀ span ∈ createIndex S none i spanEnd l, span.2 = 1 := by
  induction l generalizing i with
  | nil => exact ⟨rfl, List.forall_mem_nil _⟩
  | cons token rest ih =>
    obtain ⟨hlength, hone⟩ := ih (i + 1)
    rw [createIndex, List.countP_cons]
    split_ifs with hskipped htrue
    · exact absurd hskipped (of_decide_eq_true htrue)
    · exact ⟨hlength, hone⟩
    · exact ⟨by rw [List.length_cons, hlength], List.forall_mem_cons.mpr ⟨rfl, hone⟩⟩
    · exact absurd (decide_eq_true hskipped) ‹_›

/-! The loop. -/

theorem Draw.write_frame (S : SpecialIds) (d : Draw) (span : ℕ × ℕ) (src : List ℕ) {i : ℕ}
    (hi : i ∉ cells span) : (d.write S span src)[i]? = src[i]? := by
  cases d with
  | mask => exact getElem?_foldl_set _ _ _ hi
  | random ids => exact getElem?_foldl_set _ _ _ hi
  | keep => rfl

theorem Draw.length_write (S : SpecialIds) (d : Draw) (span : ℕ × ℕ) (src : List ℕ) :
    (d.write S span src).length = src.length := by
  cases d with
  | mask => exact length_foldl_set _ _ _
  | random ids => exact length_foldl_set _ _ _
  | keep => rfl

theorem Draw.write_cell (S : SpecialIds) (d : Draw) {span : ℕ × ℕ} {src : List ℕ} {i : ℕ}
    (hi : i ∈ cells span) (hlt : i < src.length) :
    (d.write S span src)[i]? = some (d.applied S i (src.getD i 0)) := by
  cases d with
  | mask => exact getElem?_foldl_set_of_mem _ _ hi hlt
  | random ids => exact getElem?_foldl_set_of_mem _ _ hi hlt
  | keep =>
    show src[i]? = some (src.getD i 0)
    rw [List.getD_eq_getElem _ _ hlt]
    exact List.getElem?_eq_getElem hlt

section Loop
variable (S : SpecialIds) (draw : ℕ × ℕ → Draw) (numToPredict : ℕ)

/-- The loop writes at the positions of the index sets only. -/
theorem maskLoop_frame (spans : List (ℕ × ℕ)) (src : List ℕ) (tgtMlm : List (ℕ × ℕ)) {i : ℕ}
    (hi : i ∉ spans.flatMap cells) :
    (maskLoop S draw numToPredict spans src tgtMlm).1[i]? = src[i]? := by
  induction spans generalizing src tgtMlm with
  | nil => rfl
  | cons span rest ih =>
    rw [List.flatMap_cons, List.mem_append, not_or] at hi
    rw [maskLoop]
    split_ifs
    · rfl
    · exact ih _ _ hi.2
    · rw [ih _ _ hi.2, Draw.write_frame S _ _ _ hi.1]

theorem maskLoop_extends (spans : List (ℕ × ℕ)) (src : List ℕ) (tgtMlm : List (ℕ × ℕ)) :
    tgtMlm <+: (maskLoop S draw numToPredict spans src tgtMlm).2 := by
  induction spans generalizing src tgtMlm with
  | nil => exact List.prefix_rfl
  | cons span rest ih =>
    rw [maskLoop]
    split_ifs
    · exact List.prefix_rfl
    · exact ih _ _
    · exact (List.prefix_append _ _).trans (ih _ _)

/-- An index set is labelled as a whole, unless there would be too many labels with it. -/
theorem maskLoop_full (spans : List (ℕ × ℕ)) (src : List ℕ) (tgtMlm : List (ℕ × ℕ)) :
    ∀ span ∈ spans,
      (∀ c ∈ cells span, c ∈ (maskLoop S draw numToPredict spans src tgtMlm).2.map Prod.fst) ∨
        numToPredict < (maskLoop S draw numToPredict spans src tgtMlm).2.length + span.2 := by
  induction spans generalizing src tgtMlm with
  | nil => exact List.forall_mem_nil _
  | cons span rest ih =>
    rw [maskLoop]
    split_ifs with hfull hlong
    · rintro ⟨start, length⟩ -
      cases length with
      | zero => exact Or.inl fun c hc => absurd hc List.not_mem_nil
      | succ n =>
        right
        dsimp only
        omega
    · refine List.forall_mem_cons.mpr ⟨Or.inr ?_, ih _ _⟩
      have hle := (maskLoop_extends S draw numToPredict rest src tgtMlm).length_le
      omega
    · refine List.forall_mem_cons.mpr ⟨Or.inl fun c hc => ?_, ih _ _⟩
      apply ((maskLoop_extends S draw numToPredict rest _ _).map Prod.fst).subset
      rw [places_append]
      exact List.mem_append_right _ hc

/-- Of single tokens as many are labelled as there are to be predicted, or all of them. -/
theorem length_maskLoop {spans : List (ℕ × ℕ)} (hone : ∀ span ∈ spans, span.2 = 1) (src : List ℕ)
    {tgtMlm : List (ℕ × ℕ)} (hcount : tgtMlm.length ≤ numToPredict) :
    (maskLoop S draw numToPredict spans src tgtMlm).2.length =
      min numToPredict (tgtMlm.length + spans.length) := by
  induction spans generalizing src tgtMlm with
  | nil => exact (Nat.min_eq_right hcount).symm
  | cons span rest ih =>
    obtain ⟨hspan, hrest⟩ := List.forall_mem_cons.mp hone
    have hlength : (tgtMlm ++ (cells span).map (fun i => (i, src.getD i 0))).length =
        tgtMlm.length + 1 := by
      rw [List.length_append, List.length_map, cells, List.length_range', hspan]
    rw [maskLoop, List.length_cons]
    split_ifs with hfull hlong
    · exact (Nat.le_antisymm hcount hfull).trans (Nat.min_eq_left (by omega)).symm
    · omega
    · rw [ih hrest _ (by omega), hlength]
      congr 1
      omega

end Loop

/-- Over index sets that are apart from each other and from what is labelled already, the loop
keeps the record and its bound, and writes what is drawn for the index sets. -/
theorem maskLoop_recorded (S : SpecialIds) (draw : ℕ × ℕ → Draw) (numToPredict : ℕ) {orig : List ℕ}
    {spans : List (ℕ × ℕ)} {src : List ℕ} {tgtMlm : List (ℕ × ℕ)} (h : Recorded orig src tgtMlm)
    (hcells : (spans.flatMap cells).Nodup) (hinside : ∀ c ∈ spans.flatMap cells, c < orig.length)
    (hnew : ∀ c ∈ spans.flatMap cells, c ∉ tgtMlm.map Prod.fst) (hcount : tgtMlm.length ≤ numToPredict) :
    Recorded orig (maskLoop S draw numToPredict spans src tgtMlm).1
        (maskLoop S draw numToPredict spans src tgtMlm).2 ∧
      (maskLoop S draw numToPredict spans src tgtMlm).2.length ≤ numToPredict ∧
      ∀ e ∈ (maskLoop S draw numToPredict spans src tgtMlm).2, e ∈ tgtMlm ∨
        ∃ span ∈ spans, e.1 ∈ cells span ∧ (maskLoop S draw numToPredict spans src tgtMlm).1[e.1]? =
          some ((draw span).applied S e.1 e.2) := by
  induction spans generalizing src tgtMlm with
  | nil => exact ⟨h, hcount, fun e he => Or.inl he⟩
  | cons span rest ih =>
    rw [List.flatMap_cons] at hcells hinside hnew
    obtain ⟨hspan, hrest, hapart⟩ := List.nodup_append'.mp hcells
    rw [maskLoop]
    split_ifs with hfull hlong
    · exact ⟨h, hcount, fun e he => Or.inl he⟩
    · obtain ⟨hrecorded, hbound, hfrom⟩ := ih h hrest
        (fun c hc => hinside c (List.mem_append_right _ hc))
        (fun c hc => hnew c (List.mem_append_right _ hc)) hcount
      refine ⟨hrecorded, hbound, fun e he => ?_⟩
      refine (hfrom e he).imp_right fun hlater => ?_
      obtain ⟨span', hmem, hdrawn⟩ := hlater
      exact ⟨span', List.mem_cons_of_mem _ hmem, hdrawn⟩
    · have hplaces := places_append tgtMlm (cells span) (fun i => src.getD i 0)
      have hframe : ∀ i, i ∉ cells span → ((draw span).write S span src)[i]? = src[i]? :=
        fun i hi => Draw.write_frame S (draw span) span src hi
      have hwritten := h.write hspan
        (fun c hc => hnew c (List.mem_append_left _ hc)) (fun c hc => hinside c (List.mem_append_left _ hc))
        (Draw.length_write S (draw span) span src) hframe 0
      have hlength : (tgtMlm ++ (cells span).map (fun i => (i, src.getD i 0))).length =
          tgtMlm.length + span.2 := by
        rw [List.length_append, List.length_map]
        congr 1
        exact List.length_range'
      obtain ⟨hrecorded, hbound, hfrom⟩ := ih hwritten hrest
        (fun c hc => hinside c (List.mem_append_right _ hc))
        (fun c hc => by
          rw [hplaces, List.mem_append, not_or]
          exact ⟨hnew c (List.mem_append_right _ hc), fun hin => hapart hin hc⟩)
        (by rw [hlength]; omega)
      refine ⟨hrecorded, hbound, fun e he => ?_⟩
      rcases hfrom e he with hold | hlater
      · rcases List.mem_append.mp hold with hold | hcell
        · exact Or.inl hold
        · -- the later index sets leave this position alone
          obtain ⟨i, hi, rfl⟩ := List.mem_map.mp hcell
          have hlt : i < src.length := h.length ▸ hinside i (List.mem_append_left _ hi)
          refine Or.inr ⟨span, List.mem_cons_self, hi, ?_⟩
          rw [maskLoop_frame S draw numToPredict rest _ _ fun hin => hapart hi hin]
          exact Draw.write_cell S (draw span) hi hlt
      · obtain ⟨span', hmem, hdrawn⟩ := hlater
        exact Or.inr ⟨span', List.mem_cons_of_mem _ hmem, hdrawn⟩

/-! Whole sequences. -/

theorem srcNoPad_append (src : List ℕ) :
    srcNoPad src ++ List.replicate (src.length - (srcNoPad src).length) padId = src := by
  obtain ⟨kept, hkept⟩ : ∃ kept, kept = (src.reverse.dropWhile (· = padId)).reverse := ⟨_, rfl⟩
  obtain ⟨pads, hpads⟩ : ∃ pads, pads = (src.reverse.takeWhile (· = padId)).reverse := ⟨_, rfl⟩
  have hsplit : kept ++ pads = src := by
    rw [hkept, hpads, ← List.reverse_append, List.takeWhile_append_dropWhile, List.reverse_reverse]
  have hall : ∀ x ∈ pads, x = padId := by
    intro x hx
    rw [hpads, List.mem_reverse] at hx
    have hpad := List.mem_takeWhile_imp (p := fun y => decide (y = padId)) hx
    exact of_decide_eq_true hpad
  have hpadded : pads = List.replicate pads.length padId := List.eq_replicate_of_mem hall
  unfold srcNoPad
  rw [← hkept]
  dsimp only
  split_ifs with hnil
  · rw [hnil, List.nil_append] at hsplit
    rw [← hsplit, hpadded]
    cases pads.length with
    | zero => rfl
    | succ n => simp [List.replicate_succ]
  · have hlen : src.length - kept.length = pads.length := by
      rw [← hsplit, List.length_append, Nat.add_sub_cancel_left]
    rw [hlen, ← hpadded, hsplit]

/-- Masking is undone by its labels. Whatever is drawn and however the index sets are shuffled,
the labels are those of different positions in order, no more than are to be predicted; the
rest of the sequence stays, and with the labels put back the whole is there again. A labelled
position shows what is drawn for its index set, and no index set for which there is room is
left out. Without span masking no special token is masked, and as many others are as are to be
predicted, or all. -/
theorem maskSeq_restore (S : SpecialIds) (round15 : ℕ → ℕ) (spanLen : Option (ℕ → ℕ))
    {shuffle : List (ℕ × ℕ) → List (ℕ × ℕ)} (hshuffle : ∀ l, (shuffle l).Perm l) (draw : ℕ × ℕ → Draw)
    {src : List ℕ} (hne : src ≠ []) :
    ∃ out tgtMlm, maskSeq S round15 spanLen shuffle draw src = some (out, tgtMlm) ∧
      out.length = src.length ∧ restore out tgtMlm = src ∧ (tgtMlm.map Prod.fst).Pairwise (· < ·) ∧
      tgtMlm.length ≤ max 1 (round15 (srcNoPad src).length) ∧
      (∀ i, i ∉ tgtMlm.map Prod.fst → out[i]? = src[i]?) ∧
      (∀ e ∈ tgtMlm, ∃ span ∈ createIndex S spanLen 0 0 (srcNoPad src), e.1 ∈ cells span ∧
        out[e.1]? = some ((draw span).applied S e.1 e.2)) ∧
      (∀ span ∈ createIndex S spanLen 0 0 (srcNoPad src),
        (∀ c ∈ cells span, c ∈ tgtMlm.map Prod.fst) ∨
          max 1 (round15 (srcNoPad src).length) < tgtMlm.length + span.2) ∧
      (spanLen = none → (∀ e ∈ tgtMlm, ¬ S.Skipped e.2) ∧
        tgtMlm.length = min (max 1 (round15 (srcNoPad src).length))
          ((srcNoPad src).countP fun token => ¬ S.Skipped token)) := by
  obtain ⟨horder, hbounds⟩ := cells_createIndex S spanLen 0 0 (srcNoPad src)
  have hsrc := srcNoPad_append src
  have hshort : (srcNoPad src).length ≤ src.length := by
    have hlens := congrArg List.length hsrc
    rw [List.length_append] at hlens
    omega
  have hindex := hshuffle (createIndex S spanLen 0 0 (srcNoPad src))
  have hperm := hindex.flatMap_right cells
  obtain ⟨hrecorded, hcount, hfrom⟩ := maskLoop_recorded S draw (max 1 (round15 (srcNoPad src).length))
    (Recorded.start src) (hperm.nodup_iff.mpr (horder.imp fun h => h.ne))
    (fun c hc => lt_of_lt_of_le ((hbounds c (hperm.mem_iff.mp hc)).2.1.trans_eq (Nat.zero_add _)) hshort)
    (fun c _ => List.not_mem_nil) (Nat.zero_le _)
  have hfull := maskLoop_full S draw (max 1 (round15 (srcNoPad src).length))
    (shuffle (createIndex S spanLen 0 0 (srcNoPad src))) src []
  have hnil : ([] : List (ℕ × ℕ)).length ≤ max 1 (round15 (srcNoPad src).length) := Nat.zero_le _
  have hsingle : (∀ span ∈ shuffle (createIndex S spanLen 0 0 (srcNoPad src)), span.2 = 1) → _ :=
    fun hone => length_maskLoop S draw (max 1 (round15 (srcNoPad src).length)) hone src hnil
  obtain ⟨masked, hmasked⟩ : ∃ masked, masked = maskLoop S draw (max 1 (round15 (srcNoPad src).length))
    (shuffle (createIndex S spanLen 0 0 (srcNoPad src))) src [] := ⟨_, rfl⟩
  rw [← hmasked] at hrecorded hcount hfrom hfull hsingle
  have hsorted := List.mergeSort_perm masked.2 (fun a b => decide (a.1 ≤ b.1))
  have hfinal := hrecorded.perm hsorted
  have hdrawn : ∀ e ∈ masked.2, ∃ span ∈ createIndex S spanLen 0 0 (srcNoPad src), e.1 ∈ cells span ∧
      masked.1[e.1]? = some ((draw span).applied S e.1 e.2) := by
    intro e he
    obtain ⟨span, hspan, hcell⟩ := (hfrom e he).resolve_left List.not_mem_nil
    exact ⟨span, hindex.mem_iff.mp hspan, hcell⟩
  refine ⟨masked.1, masked.2.mergeSort (fun a b => decide (a.1 ≤ b.1)), ?_, hfinal.length, hfinal.undone,
    ?_, ?_, hfinal.frame, fun e he => hdrawn e (hsorted.mem_iff.mp he), fun span hspan => ?_, ?_⟩
  · rw [maskSeq, if_neg hne, hmasked]
    dsimp only
    rw [hsrc]
  · have hle : (masked.2.mergeSort (fun a b => decide (a.1 ≤ b.1))).Pairwise (fun a b => a.1 ≤ b.1) := by
      refine (List.pairwise_mergeSort ?_ ?_ masked.2).imp fun h => of_decide_eq_true h
      · intro a b c hab hbc
        exact decide_eq_true ((of_decide_eq_true hab).trans (of_decide_eq_true hbc))
      · intro a b
        rw [Bool.or_eq_true, decide_eq_true_iff, decide_eq_true_iff]
        exact le_total _ _
    rw [List.pairwise_map]
    exact (hle.and (List.pairwise_map.mp hfinal.nodup)).imp fun h => lt_of_le_of_ne h.1 h.2
  · rw [hsorted.length_eq]
    exact hcount
  · rw [hsorted.length_eq]
    simp only [(hsorted.map Prod.fst).mem_iff]
    exact hfull span (hindex.mem_iff.mpr hspan)
  · rintro rfl
    obtain ⟨hlength, hone⟩ := createIndex_none S 0 0 (srcNoPad src)
    refine ⟨fun e he => ?_, ?_⟩
    · have hin := hsorted.mem_iff.mp he
      obtain ⟨span, hspan, hcell, -⟩ := hdrawn e hin
      obtain ⟨token, htoken, hskip⟩ :=
        createIndex_none_skipped S 0 0 (srcNoPad src) e.1 (List.mem_flatMap.mpr ⟨span, hspan, hcell⟩)
      have hlabel := hrecorded.label e hin
      have hlt := (List.getElem?_eq_some_iff.mp htoken).1
      rw [Nat.sub_zero] at hlt htoken
      rw [← hsrc, List.getElem?_append_left hlt, htoken, Option.some.injEq] at hlabel
      rw [← hlabel]
      exact hskip
    · rw [hsorted.length_eq, hsingle fun span hspan => hone span (hindex.mem_iff.mp hspan),
        hindex.length_eq, hlength, List.length_nil, Nat.zero_add]

/-- Two of three tokens are masked, and come back. -/
theorem maskSeq_restore_sample : ∃ out tgtMlm,
    maskSeq ⟨2, 1, 4⟩ (fun _ => 2) none List.reverse (fun _ => .mask) [2, 7, 8, 9, 1, 0, 0] =
      some (out, tgtMlm) ∧
      tgtMlm.length = 2 ∧ (∀ e ∈ tgtMlm, out[e.1]? = some 4) ∧
      restore out tgtMlm = [2, 7, 8, 9, 1, 0, 0] := by
  have hne : ([2, 7, 8, 9, 1, 0, 0] : List ℕ) ≠ [] := List.cons_ne_nil _ _
  obtain ⟨out, tgtMlm, hrun, -, hrestore, -, -, -, hdrawn, -, hnone⟩ :=
    maskSeq_restore ⟨2, 1, 4⟩ (fun _ => 2) none List.reverse_perm (fun _ => .mask) hne
  refine ⟨out, tgtMlm, hrun, (hnone rfl).2.trans (by decide), fun e he => ?_, hrestore⟩
  obtain ⟨span, -, -, hmasked⟩ := hdrawn e he
  exact hmasked

end Aegis.EtBert
