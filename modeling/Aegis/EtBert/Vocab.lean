import Aegis.Lib.Table
import Aegis.Lib.Text

/-! The vocabulary of ET-BERT, `uer/utils/vocab.py`, as a file and as the tables of the
tokenizers. -/
namespace Aegis.EtBert

/-- What `open` in text mode makes of the newlines of a file. -/
def universalNewlines : Text → Text
  | '\r' :: '\n' :: rest => '\n' :: universalNewlines rest
  | '\r' :: rest => '\n' :: universalNewlines rest
  | c :: rest => c :: universalNewlines rest
  | [] => []

/-- The lines of a text file; a last one without a newline counts if it is not empty. -/
def fileLines (content : Text) : List Text :=
  let pieces := (universalNewlines content).splitOn '\n'
  if pieces.getLast? = some [] then pieces.dropLast else pieces

theorem splitOn_lines {words : List Text} (h : ∀ w ∈ words, '\n' ∉ w) (rest : Text) :
    (words.flatMap (· ++ ['\n']) ++ rest).splitOn '\n' = words ++ rest.splitOn '\n' := by
  induction words with
  | nil => rfl
  | cons w words ih =>
    obtain ⟨hw, hwords⟩ := List.forall_mem_cons.mp h
    rw [List.flatMap_cons, List.append_assoc, List.append_assoc, List.singleton_append,
      List.splitOn_append_cons_self_of_not_mem hw, ih hwords]
    rfl

structure Vocab where
  w2i : Table Text ℕ := ∅
  i2w : List Text := []

namespace Vocab

/-- The word of a line: its first, or what there is of blanks. -/
def wordOf (line : Text) : Text :=
  if Text.strip line ≠ [] then (Text.split line).headD [] else line

/-- One line of the file; a word that comes again gets the later index. -/
def addLine (v : Vocab) (line : Text) : Vocab :=
  ⟨v.w2i.insert (wordOf line) v.i2w.length, v.i2w ++ [wordOf line]⟩

/-- `load`, on the content of the file, into an empty vocabulary. -/
def load (content : Text) : Vocab := (fileLines content).foldl addLine {}

def save (v : Vocab) : Text := v.i2w.flatMap (· ++ ['\n'])

/-- `{v: k for k, v in self.vocab.items()}`. -/
def invVocab (w2i : Table Text ℕ) : Table ℕ Text :=
  w2i.entries.foldl (fun inv e => inv.insert e.2 e.1) ∅

/-- Each index belongs to the word that stands there, and each word has one. -/
structure Consistent (v : Vocab) : Prop where
  index : ∀ w i, v.w2i.lookup w = some i → v.i2w[i]? = some w
  indexed : ∀ w ∈ v.i2w, w ∈ v.w2i

theorem consistent_addLine {v : Vocab} (hv : v.Consistent) (line : Text) :
    (v.addLine line).Consistent where
  index w i h := by
    unfold addLine at h ⊢
    dsimp only at h ⊢
    by_cases hw : w = wordOf line
    · rw [hw, AList.lookup_insert, Option.some.injEq] at h
      rw [← h, hw, List.getElem?_concat_length]
    · rw [AList.lookup_insert_ne hw] at h
      have hold := hv.index w i h
      rw [List.getElem?_append_left (List.getElem?_eq_some_iff.mp hold).1]
      exact hold
  indexed w hw := by
    unfold addLine at hw ⊢
    rw [AList.mem_insert]
    rcases List.mem_append.mp hw with hold | hnew
    · exact Or.inr (hv.indexed w hold)
    · exact Or.inl (List.mem_singleton.mp hnew)

theorem consistent_load (content : Text) : (load content).Consistent := by
  have hfold : ∀ (lines : List Text) (v : Vocab), v.Consistent → (lines.foldl addLine v).Consistent := by
    intro lines
    induction lines with
    | nil => exact fun _ hv => hv
    | cons line lines ih => exact fun v hv => ih _ (consistent_addLine hv line)
  apply hfold
  refine ⟨fun w i h => ?_, fun w h => absurd h List.not_mem_nil⟩
  rw [AList.lookup_empty] at h
  cases h

theorem i2w_load (content : Text) : (load content).i2w = (fileLines content).map wordOf := by
  have hfold : ∀ (lines : List Text) (v : Vocab),
      (lines.foldl addLine v).i2w = v.i2w ++ lines.map wordOf := by
    intro lines
    induction lines with
    | nil => exact fun v => (List.append_nil _).symm
    | cons line lines ih =>
      intro v
      rw [List.foldl_cons, ih]
      show v.i2w ++ [wordOf line] ++ lines.map wordOf = _
      rw [List.append_assoc]
      rfl
  exact hfold _ _

theorem universalNewlines_eq {t : Text} (h : '\r' ∉ t) : universalNewlines t = t := by
  induction t with
  | nil => rfl
  | cons c t ih =>
    rw [List.mem_cons, not_or] at h
    obtain ⟨hc, ht⟩ := h
    rw [universalNewlines, ih ht]
    · exact fun rest hcr => absurd hcr.symm hc
    · exact fun hcr => hc hcr.symm

theorem fileLines_save {v : Vocab} (h : ∀ w ∈ v.i2w, '\n' ∉ w ∧ '\r' ∉ w) : fileLines v.save = v.i2w := by
  have hread : universalNewlines v.save = v.save := by
    apply universalNewlines_eq
    intro hin
    obtain ⟨w, hw, hin⟩ := List.mem_flatMap.mp hin
    rcases List.mem_append.mp hin with hin | hin
    · exact (h w hw).2 hin
    · cases List.mem_singleton.mp hin
  unfold fileLines
  have hlines := splitOn_lines (fun w hw => (h w hw).1) []
  rw [List.append_nil] at hlines
  rw [hread, save, hlines]
  have hlast : List.splitOn '\n' ([] : Text) = [[]] := rfl
  rw [hlast]
  dsimp only
  rw [List.getLast?_concat, if_pos rfl, List.dropLast_concat]

/-- A word as tokenizers make them. -/
def IsWord (w : Text) : Prop := w ≠ [] ∧ ∀ c ∈ w, Text.isSpace c = false

theorem IsWord.not_mem_space {w : Text} (h : IsWord w) {c : Char} (hc : Text.isSpace c = true) :
    c ∉ w := by
  intro hin
  rw [h.2 c hin] at hc
  cases hc

theorem IsWord.wordOf {w : Text} (h : IsWord w) : wordOf w = w := by
  have hsplit := Text.split_word h.1 h.2
  unfold Vocab.wordOf
  rw [hsplit, if_pos]
  · rfl
  · intro hempty
    rw [← Text.split_strip, hempty] at hsplit
    cases hsplit

theorem i2w_load_save {v : Vocab} (hwords : ∀ w ∈ v.i2w, IsWord w) : (load v.save).i2w = v.i2w := by
  have hnewline : ∀ w ∈ v.i2w, '\n' ∉ w ∧ '\r' ∉ w :=
    fun w hw => ⟨(hwords w hw).not_mem_space rfl, (hwords w hw).not_mem_space rfl⟩
  rw [i2w_load, fileLines_save hnewline]
  exact (List.map_congr_left fun w hw => (hwords w hw).wordOf).trans (List.map_id _)

/-- A saved vocabulary of distinct words is loaded as it was. -/
theorem load_save {v : Vocab} (hwords : ∀ w ∈ v.i2w, IsWord w) (hnodup : v.i2w.Nodup) :
    (load v.save).i2w = v.i2w ∧ ∀ w i, (load v.save).w2i.lookup w = some i ↔ v.i2w[i]? = some w := by
  have hi2w := i2w_load_save hwords
  have hconsistent := consistent_load v.save
  refine ⟨hi2w, fun w i => ⟨fun h => hi2w ▸ hconsistent.index w i h, fun h => ?_⟩⟩
  have hmem : w ∈ (load v.save).w2i := hconsistent.indexed w (hi2w ▸ List.mem_of_getElem? h)
  obtain ⟨j, hj⟩ := Option.isSome_iff_exists.mp (AList.lookup_isSome.mpr hmem)
  have hsame := hi2w ▸ hconsistent.index w j hj
  obtain ⟨hjlt, hjword⟩ := List.getElem?_eq_some_iff.mp hsame
  obtain ⟨hilt, hiword⟩ := List.getElem?_eq_some_iff.mp h
  rw [hj, hnodup.getElem_inj_iff.mp (hjword.trans hiword.symm)]

theorem isWord_of_all {words : List Text}
    (h : words.all (fun w => !w.isEmpty && w.all (fun c => !Text.isSpace c)) = true) :
    ∀ w ∈ words, IsWord w := by
  intro w hw
  have hword := List.all_eq_true.mp h w hw
  rw [Bool.and_eq_true, List.all_eq_true] at hword
  exact ⟨by simpa using hword.1, fun c hc => by simpa using hword.2 c hc⟩

def sampleVocab : Vocab where
  i2w := ["[PAD]".toList, "[SEP]".toList, "[CLS]".toList, "45".toList, "##00".toList]

theorem load_save_sample : (load sampleVocab.save).w2i.lookup "##00".toList = some 4 :=
  ((load_save (isWord_of_all (by decide +kernel)) (by decide +kernel)).2 _ _).mpr rfl

/-! The table from indices to words. -/

theorem lookup_inverted {es : List (Sigma fun _ : Text => ℕ)}
    (hinj : ∀ e ∈ es, ∀ e' ∈ es, e.2 = e'.2 → e.1 = e'.1) (w : Text) (i : ℕ) :
    (es.foldl (fun (inv : Table ℕ Text) e => inv.insert e.2 e.1) ∅).lookup i = some w ↔
      (⟨w, i⟩ : Sigma fun _ : Text => ℕ) ∈ es := by
  induction es using List.reverseRecOn with
  | nil =>
    rw [List.foldl_nil, AList.lookup_empty]
    exact iff_of_false (fun h => by cases h) List.not_mem_nil
  | append_singleton es e ih =>
    have hold := ih fun a ha b hb => hinj a (List.mem_append_left _ ha) b (List.mem_append_left _ hb)
    rw [List.foldl_append, List.foldl_cons, List.foldl_nil, List.mem_append, List.mem_singleton]
    by_cases hi : i = e.2
    · subst hi
      rw [AList.lookup_insert, Option.some.injEq]
      constructor
      · rintro rfl
        exact Or.inr rfl
      · rintro (hin | heq)
        · exact (hinj ⟨w, e.2⟩ (List.mem_append_left _ hin) e (List.mem_append_right _ List.mem_cons_self)
            rfl).symm
        · rw [← heq]
    · rw [AList.lookup_insert_ne hi, hold]
      constructor
      · exact Or.inl
      · rintro (hin | rfl)
        · exact hin
        · exact absurd rfl hi

theorem Consistent.lookup_invVocab {v : Vocab} (hv : v.Consistent) (w : Text) (i : ℕ) :
    (invVocab v.w2i).lookup i = some w ↔ v.w2i.lookup w = some i := by
  rw [invVocab, lookup_inverted, Table.mem_entries_iff]
  rintro ⟨w, i⟩ he ⟨w', i'⟩ he' heq
  have hw := hv.index w i ((Table.mem_entries_iff _ _ _).mp he)
  have hw' := hv.index w' i' ((Table.mem_entries_iff _ _ _).mp he')
  rw [show i' = i from heq.symm, hw, Option.some.injEq] at hw'
  exact hw'

end Vocab

/-- `convert_by_vocab`; what is not in the table raises a `KeyError`. -/
def convertByVocab {κ υ : Type} [DecidableEq κ] (vocab : Table κ υ) (items : List κ) : Option (List υ) :=
  items.mapM vocab.lookup

theorem convertByVocab_cons {κ υ : Type} [DecidableEq κ] {vocab : Table κ υ} {item : κ} {items : List κ}
    {out : List υ} : convertByVocab vocab (item :: items) = some out ↔
      ∃ x later, vocab.lookup item = some x ∧ convertByVocab vocab items = some later ∧
        out = x :: later := by
  unfold convertByVocab
  rw [List.mapM_cons]
  constructor
  · intro h
    obtain ⟨x, hx, h⟩ := Option.bind_eq_some_iff.mp h
    obtain ⟨later, hlater, h⟩ := Option.bind_eq_some_iff.mp h
    cases h
    exact ⟨x, later, hx, hlater, rfl⟩
  · rintro ⟨x, later, hx, hlater, rfl⟩
    rw [hx, hlater]
    rfl

theorem convertByVocab_nil {κ υ : Type} [DecidableEq κ] (vocab : Table κ υ) :
    convertByVocab vocab [] = some [] := rfl

/-- Ids are read back as the tokens they were made of. -/
theorem Vocab.Consistent.convertByVocab_inv {v : Vocab} (hv : v.Consistent) {tokens : List Text}
    {ids : List ℕ} (h : convertByVocab v.w2i tokens = some ids) :
    convertByVocab (invVocab v.w2i) ids = some tokens := by
  induction tokens generalizing ids with
  | nil =>
    rw [convertByVocab_nil, Option.some.injEq] at h
    rw [← h, convertByVocab_nil]
  | cons token tokens ih =>
    obtain ⟨i, later, hi, hlater, rfl⟩ := convertByVocab_cons.mp h
    exact convertByVocab_cons.mpr ⟨token, tokens, (hv.lookup_invVocab token i).mpr hi, ih hlater, rfl⟩

theorem convertByVocab_take {κ υ : Type} [DecidableEq κ] {vocab : Table κ υ} {items : List κ}
    {out : List υ} (h : convertByVocab vocab items = some out) (n : ℕ) :
    convertByVocab vocab (items.take n) = some (out.take n) := by
  induction items generalizing n out with
  | nil =>
    rw [convertByVocab_nil, Option.some.injEq] at h
    rw [← h, List.take_nil, List.take_nil, convertByVocab_nil]
  | cons item items ih =>
    obtain ⟨x, later, hx, hlater, rfl⟩ := convertByVocab_cons.mp h
    cases n with
    | zero => rfl
    | succ n => exact convertByVocab_cons.mpr ⟨x, later.take n, hx, ih hlater n, rfl⟩

theorem isSome_convertByVocab {vocab : Table Text ℕ} {tokens : List Text}
    (h : ∀ token ∈ tokens, token ∈ vocab) : (convertByVocab vocab tokens).isSome := by
  induction tokens with
  | nil => rfl
  | cons token tokens ih =>
    obtain ⟨hin, hrest⟩ := List.forall_mem_cons.mp h
    obtain ⟨i, hi⟩ := Option.isSome_iff_exists.mp (AList.lookup_isSome.mpr hin)
    obtain ⟨ids, hids⟩ := Option.isSome_iff_exists.mp (ih hrest)
    exact Option.isSome_iff_exists.mpr ⟨i :: ids, convertByVocab_cons.mpr ⟨i, ids, hi, hids, rfl⟩⟩

end Aegis.EtBert
