import Aegis.EtBert.Datagram
import Aegis.EtBert.Tokenizers
import Aegis.EtBert.Vocab
import Aegis.Inference.OnnxEngine

/-! From the packets of a capture to a row of the classifier's dataset, `read_dataset` of
`fine-tuning/run_classifier.py`, and back to the bytes of the packet. -/
namespace Aegis.EtBert

def clsToken : Text := "[CLS]".toList

structure Row where
  src : List ℕ
  seg : List ℕ

/-- Cut off at `seq_length`, or filled up to it with zeros. -/
def fitted (seqLength : ℕ) (xs : List ℕ) : List ℕ :=
  xs.take seqLength ++ List.replicate (seqLength - xs.length) 0

/-- The row of a single text. -/
def datasetRow (U : UnicodeData) (vocab : Table Text ℕ) (seqLength : ℕ) (textA : Text) : Option Row :=
  (convertByVocab vocab (clsToken :: bertTokenize U vocab textA)).map fun src =>
    ⟨fitted seqLength src, fitted seqLength (List.replicate src.length 1)⟩

namespace Row

/-- The ids that are no filling. -/
def ids (row : Row) : List ℕ := ((row.src.zip row.seg).filter (fun e => e.2 ≠ 0)).map Prod.fst

def tokens (v : Vocab) (row : Row) : Option (List Text) := convertByVocab (Vocab.invVocab v.w2i) row.ids

end Row

/-! Rows of any text. -/

theorem length_fitted (seqLength : ℕ) (xs : List ℕ) : (fitted seqLength xs).length = seqLength := by
  unfold fitted
  rw [List.length_append, List.length_take, List.length_replicate]
  omega

theorem ids_fitted (seqLength : ℕ) (src : List ℕ) :
    Row.ids ⟨fitted seqLength src, fitted seqLength (List.replicate src.length 1)⟩ =
      src.take seqLength := by
  have hlen : (src.take seqLength).length = ((List.replicate src.length 1).take seqLength).length := by
    rw [List.length_take, List.length_take, List.length_replicate]
  have hkept : ∀ e ∈ (src.take seqLength).zip ((List.replicate src.length 1).take seqLength),
      decide (e.2 ≠ 0) = true := by
    intro e he
    have hone := List.eq_of_mem_replicate (List.mem_of_mem_take (List.of_mem_zip he).2)
    rw [hone]
    rfl
  have hdropped : ∀ e ∈ (List.replicate (seqLength - src.length) 0).zip
      (List.replicate (seqLength - src.length) 0), ¬ decide (e.2 ≠ 0) = true := by
    intro e he
    have hzero := List.eq_of_mem_replicate (List.of_mem_zip he).2
    rw [hzero]
    decide
  unfold Row.ids fitted
  rw [List.length_replicate]
  dsimp only
  rw [List.zip_append hlen, List.filter_append, List.filter_eq_self.mpr hkept,
    List.filter_eq_nil_iff.mpr hdropped, List.append_nil, List.map_fst_zip hlen.le]

/-- Of a text whose tokens the vocabulary has, a row keeps the tokens that fit. -/
theorem datasetRow_tokens {U : UnicodeData} {v : Vocab} (hv : v.Consistent) {textA : Text}
    (hcls : clsToken ∈ v.w2i) (hin : ∀ token ∈ bertTokenize U v.w2i textA, token ∈ v.w2i) (seqLength : ℕ) :
    ∃ row, datasetRow U v.w2i seqLength textA = some row ∧ row.src.length = seqLength ∧
      row.seg.length = seqLength ∧
      row.tokens v = some ((clsToken :: bertTokenize U v.w2i textA).take seqLength) := by
  have hall : ∀ token ∈ clsToken :: bertTokenize U v.w2i textA, token ∈ v.w2i :=
    List.forall_mem_cons.mpr ⟨hcls, hin⟩
  obtain ⟨src, hsrc⟩ := Option.isSome_iff_exists.mp (isSome_convertByVocab hall)
  have htake := convertByVocab_take (hv.convertByVocab_inv hsrc) seqLength
  refine ⟨_, by rw [datasetRow, hsrc, Option.map_some], length_fitted _ _, length_fitted _ _, ?_⟩
  rw [Row.tokens, ids_fitted]
  exact htake

/-! Hexadecimal words. -/

/-- The category of the digits, and that they are in normal form. -/
structure UnicodeData.KnowsHex (U : UnicodeData) : Prop where
  digit : ∀ c ∈ hexDigits, U.category c = ('N', 'd') ∨ U.category c = ('L', 'l')
  blank : U.category ' ' = ('Z', 's')
  nfd : ∀ w : Text, (∀ c ∈ w, c ∈ hexDigits) → U.nfd w = w

/-- Each digit has a token for the beginning of a word and one for inside of it, and `[CLS]`
is there. -/
structure HexVocab (vocab : Table Text ℕ) : Prop where
  digit : ∀ c ∈ hexDigits, ∀ first, WordpieceTokenizer.Accepts vocab first [c]
  cls : clsToken ∈ vocab

theorem forall_hexDigit {P : Char → Prop} [DecidablePred P]
    (h : hexDigits.all (fun c => decide (P c)) = true) : ∀ c ∈ hexDigits, P c :=
  fun c hc => of_decide_eq_true (List.all_eq_true.mp h c hc)

theorem UnicodeData.KnowsHex.plain {U : UnicodeData} (hU : U.KnowsHex) {c : Char} (hc : c ∈ hexDigits) :
    BasicTokenizer.Plain U c := by
  have hfacts : ∀ c ∈ hexDigits, (c.toNat ≠ 0 ∧ c.toNat ≠ 0xFFFD) ∧ isLayout c = false ∧ c ≠ ' ' ∧
      isChineseChar c.toNat = false ∧ Text.isSpace c = false ∧ (c.toNat < 128 ∧ c.toLower = c) ∧
      ((33 ≤ c.toNat && c.toNat ≤ 47) || (58 ≤ c.toNat && c.toNat ≤ 64) ||
        (91 ≤ c.toNat && c.toNat ≤ 96) || (123 ≤ c.toNat && c.toNat ≤ 126)) = false :=
    forall_hexDigit (by decide)
  obtain ⟨hkept, hlayout, hblank, hchinese, hspace, hlowered, hranges⟩ := hfacts c hc
  rcases hU.digit c hc with hcat | hcat
  all_goals
    exact {
      kept := ⟨hkept.1, hkept.2, by simp [isControl, hcat]⟩
      noWhitespace := by simp [isWhitespace, hlayout, hblank, hcat]
      noChinese := hchinese
      noSpace := hspace
      lowered := hlowered
      noMark := by simp [hcat]
      noPunctuation := by
        unfold isPunctuation
        dsimp only
        rw [hranges, hcat]
        rfl }

theorem hexByte_mem (b : UInt8) : ∀ c ∈ hexByte b, c ∈ hexDigits := by
  have hdigit : ∀ n < 16, hexDigits.getD n '0' ∈ hexDigits := by decide
  have hb := b.toNat_lt
  intro c hc
  rcases List.mem_pair.mp hc with rfl | rfl
  · exact hdigit _ (by omega)
  · exact hdigit _ (by omega)

theorem windowWord_mem (w : UInt8 × UInt8) : ∀ c ∈ windowWord w, c ∈ hexDigits := by
  intro c hc
  rcases List.mem_append.mp hc with hc | hc
  · exact hexByte_mem _ c hc
  · exact hexByte_mem _ c hc

theorem length_windowWord (w : UInt8 × UInt8) : (windowWord w).length = 4 := rfl

theorem bigramGeneration_spaced (p : Bytes) (packetLen : ℕ) :
    bigramGeneration (hexlify p) packetLen =
      BasicTokenizer.spaced (((windows p).take packetLen).map windowWord) := by
  rw [bigramGeneration_hexlify, BasicTokenizer.spaced, List.flatMap_map]

section Words
variable {U : UnicodeData} {vocab : Table Text ℕ} {words : List Text}

/-- Words of digits, not empty and not too long. -/
structure HexWord (w : Text) : Prop where
  digits : ∀ c ∈ w, c ∈ hexDigits
  ne_nil : w ≠ []
  short : w.length ≤ WordpieceTokenizer.maxInputCharsPerWord

theorem hexWord_windowWord (w : UInt8 × UInt8) : HexWord (windowWord w) where
  digits := windowWord_mem w
  ne_nil := List.ne_nil_of_length_pos (by rw [length_windowWord]; omega)
  short := by
    rw [length_windowWord]
    decide

theorem bertTokenize_spaced (hU : U.KnowsHex) (h : ∀ w ∈ words, HexWord w) :
    bertTokenize U vocab (BasicTokenizer.spaced words) =
      words.flatMap (WordpieceTokenizer.tokenizeWord vocab) := by
  have hplain : ∀ w ∈ words, ∀ c ∈ w, BasicTokenizer.Plain U c :=
    fun w hw c hc => hU.plain ((h w hw).digits c hc)
  have hblank : isControl U ' ' = false := by simp [isControl, hU.blank]
  unfold bertTokenize
  rw [BasicTokenizer.Plain.tokenize hplain (fun w hw => (h w hw).ne_nil) hblank
    fun w hw => hU.nfd w (h w hw).digits]
  apply List.flatMap_congr
  intro w hw
  rw [WordpieceTokenizer.tokenize, whitespaceTokenize_eq,
    Text.split_word (h w hw).ne_nil fun c hc => (hplain w hw c hc).noSpace, List.flatMap_singleton]

theorem HexWord.exists_cut (hvocab : HexVocab vocab) {w : Text} (hw : HexWord w) :
    ∃ pieces, LongestMatch.Cut (WordpieceTokenizer.Accepts vocab) true w pieces ∧
      WordpieceTokenizer.tokenizeWord vocab w = WordpieceTokenizer.markedFrom true pieces := by
  obtain ⟨pieces, hcut⟩ :=
    LongestMatch.exists_cut (fun c hc => hvocab.digit c (hw.digits c hc)) true
  exact ⟨pieces, hcut, WordpieceTokenizer.tokenizeWord_cut hw.short hcut⟩

theorem HexWord.tokens_mem (hvocab : HexVocab vocab) {w : Text} (hw : HexWord w) :
    ∀ token ∈ WordpieceTokenizer.tokenizeWord vocab w, token ∈ vocab := by
  obtain ⟨pieces, hcut, htokens⟩ := hw.exists_cut hvocab
  rw [htokens]
  exact WordpieceTokenizer.markedFrom_mem hcut

end Words

/-! Bytes read back from the words. -/

def readHex : Text → Bytes
  | hi :: lo :: rest => UInt8.ofNat (16 * hexDigits.idxOf hi + hexDigits.idxOf lo) :: readHex rest
  | _ => []

/-- The first word gives both of its bytes, each later one its second. -/
def readWords : List Text → Bytes
  | [] => []
  | word :: words => readHex word ++ words.flatMap (fun w => readHex (w.drop 2))

theorem readHex_hexByte (b : UInt8) (rest : Text) : readHex (hexByte b ++ rest) = b :: readHex rest := by
  have hdigit : ∀ n < 16, hexDigits.idxOf (hexDigits.getD n '0') = n := by decide
  have hb := b.toNat_lt
  have hhi := hdigit (b.toNat / 16) (by omega)
  have hlo := hdigit (b.toNat % 16) (by omega)
  show UInt8.ofNat (16 * hexDigits.idxOf (hexDigits.getD (b.toNat / 16) '0') +
    hexDigits.idxOf (hexDigits.getD (b.toNat % 16) '0')) :: readHex rest = _
  rw [hhi, hlo, Nat.div_add_mod, UInt8.ofNat_toNat]

theorem readHex_windowWord (w : UInt8 × UInt8) : readHex (windowWord w) = [w.1, w.2] := by
  have hsecond := readHex_hexByte w.2 []
  rw [List.append_nil] at hsecond
  rw [windowWord, readHex_hexByte, hsecond]
  rfl

theorem readHex_drop_windowWord (w : UInt8 × UInt8) : readHex ((windowWord w).drop 2) = [w.2] := by
  have hsecond := readHex_hexByte w.2 []
  rw [List.append_nil] at hsecond
  exact hsecond

theorem readWords_windows (a b : UInt8) (p : Bytes) (k : ℕ) :
    readWords (((windows (a :: b :: p)).take (k + 1)).map windowWord) = (a :: b :: p).take (k + 2) := by
  have hseconds : (windows (b :: p)).map Prod.snd = p := List.map_snd_zip (by simp)
  have hlater : ((windows (b :: p)).take k).flatMap (fun w => readHex ((windowWord w).drop 2)) =
      p.take k := by
    rw [List.flatMap_congr fun w _ => readHex_drop_windowWord w, ← List.map_eq_flatMap,
      List.map_take, hseconds]
  have hwindows : windows (a :: b :: p) = (a, b) :: windows (b :: p) := rfl
  rw [hwindows, List.take_succ_cons, List.map_cons, readWords, readHex_windowWord, List.flatMap_map, hlater]
  rfl

/-- The words of a packet. -/
def packetWords (packets : List Bytes) (payloadLen : ℕ) : List Text :=
  ((windows ((packets.headD []).drop 38)).take payloadLen).map windowWord

theorem hexWord_packetWords (packets : List Bytes) (payloadLen : ℕ) :
    ∀ w ∈ packetWords packets payloadLen, HexWord w := by
  intro w hw
  obtain ⟨window, -, rfl⟩ := List.mem_map.mp hw
  exact hexWord_windowWord window

theorem getFeaturePacket_spaced (packets : List Bytes) (payloadLen : ℕ) :
    getFeaturePacket packets payloadLen = BasicTokenizer.spaced (packetWords packets payloadLen) := by
  cases packets with
  | nil => simp [getFeaturePacket, packetWords, windows, BasicTokenizer.spaced]
  | cons packet packets =>
    have hdrop : (hexlify packet).drop 76 = hexlify (packet.drop 38) := drop_hexlify packet 38
    rw [getFeaturePacket, hdrop, bigramGeneration_spaced]
    rfl

/-- The bytes that the tokens of a row spell. -/
def Row.bytes (v : Vocab) (row : Row) : Option Bytes :=
  (row.tokens v).map fun tokens => readWords (WordpieceTokenizer.joinTokens tokens.tail)

theorem bertTokenize_packet {U : UnicodeData} (hU : U.KnowsHex) {vocab : Table Text ℕ}
    (packets : List Bytes) (payloadLen : ℕ) :
    bertTokenize U vocab (getFeaturePacket packets payloadLen) =
      (packetWords packets payloadLen).flatMap (WordpieceTokenizer.tokenizeWord vocab) := by
  rw [getFeaturePacket_spaced, bertTokenize_spaced hU (hexWord_packetWords packets payloadLen)]

theorem packet_tokens_mem {U : UnicodeData} (hU : U.KnowsHex) {vocab : Table Text ℕ}
    (hvocab : HexVocab vocab) (packets : List Bytes) (payloadLen : ℕ) :
    ∀ token ∈ bertTokenize U vocab (getFeaturePacket packets payloadLen), token ∈ vocab := by
  rw [bertTokenize_packet hU]
  intro token htoken
  obtain ⟨w, hw, htoken⟩ := List.mem_flatMap.mp htoken
  exact (hexWord_packetWords packets payloadLen w hw).tokens_mem hvocab token htoken

/-- The categories of digits, small letters and the blank; the rest is not asked for. -/
def hexUnicode : UnicodeData where
  category c := if c = ' ' then ('Z', 's') else if c.isDigit then ('N', 'd') else ('L', 'l')
  nfd := id
  case := asciiCaseData

theorem hexUnicode_knowsHex : hexUnicode.KnowsHex where
  digit := forall_hexDigit (by decide)
  blank := rfl
  nfd _ _ := rfl

/-- The special tokens and those of single digits, in the order of `encryptd_vocab.txt`. -/
def hexVocabulary : Vocab where
  i2w := ["[PAD]", "[SEP]", "[CLS]", "[UNK]", "[MASK]"].map String.toList ++
    hexDigits.map (WordpieceTokenizer.marked true [·]) ++
    hexDigits.map (WordpieceTokenizer.marked false [·])

theorem i2w_hexVocabulary : (Vocab.load hexVocabulary.save).i2w = hexVocabulary.i2w :=
  Vocab.i2w_load_save (Vocab.isWord_of_all (by decide +kernel))

theorem hexVocab_hexVocabulary : HexVocab (Vocab.load hexVocabulary.save).w2i := by
  have hmem : ∀ w ∈ hexVocabulary.i2w, w ∈ (Vocab.load hexVocabulary.save).w2i :=
    fun w hw => (Vocab.consistent_load _).indexed w (i2w_hexVocabulary ▸ hw)
  refine ⟨fun c hc first => hmem _ ?_, hmem _ ?_⟩
  · cases first with
    | true => exact List.mem_append_left _ (List.mem_append_right _ (List.mem_map_of_mem hc))
    | false => exact List.mem_append_right _ (List.mem_map_of_mem hc)
  · apply List.mem_append_left
    apply List.mem_append_left
    decide

def shownPacket : Bytes := List.replicate 38 0 ++ [0x45, 0x00, 0x28, 0xff]

def sepToken : Text := "[SEP]".toList

theorem head_datasetRow {U : UnicodeData} {vocab : Table Text ℕ} {seqLength : ℕ} (hpos : 0 < seqLength)
    {textA : Text} {row : Row} (h : datasetRow U vocab seqLength textA = some row) :
    ∃ i, vocab.lookup clsToken = some i ∧ row.src.head? = some i := by
  obtain ⟨src, hsrc, rfl⟩ := Option.map_eq_some_iff.mp h
  obtain ⟨i, ids, hi, -, rfl⟩ := convertByVocab_cons.mp hsrc
  obtain ⟨n, rfl⟩ := Nat.exists_eq_succ_of_ne_zero hpos.ne'
  exact ⟨i, hi, rfl⟩

/-- Where the vocabulary has `[SEP]` in its second line, as `encryptd_vocab.txt` does, no row
of a dataset is what the probe makes of any payload: the probe begins with id 1. -/
theorem probe_ids_differ {U : UnicodeData} {content : Text}
    (hsep : (Vocab.load content).i2w[1]? = some sepToken) {seqLength : ℕ} (hpos : 0 < seqLength)
    {textA : Text} {row : Row} (hrow : datasetRow U (Vocab.load content).w2i seqLength textA = some row)
    {payload : Bytes} (hlen : payload.length < 2 ^ 31) {e : Inference.Encoding}
    (he : Inference.ONNXEngine.tokenize payload {} = some e) :
      e.ids ≠ row.src.map (fun i : ℕ => (i : ℤ)) := by
  intro hsame
  obtain ⟨i, hi, hhead⟩ := head_datasetRow hpos hrow
  rw [Inference.ONNXEngine.tokenize_fresh hlen, Option.some.injEq] at he
  have hone : e.ids.head? = some 1 := by
    rw [← he]
    rfl
  rw [hsame, List.head?_map, hhead, Option.map_some, Option.some.injEq] at hone
  have hcls := (Vocab.consistent_load content).index clsToken i hi
  rw [Nat.cast_eq_one.mp hone, hsep, Option.some.injEq] at hcls
  cases hcls

theorem probe_ids_differ_sample : ∃ row e,
    datasetRow hexUnicode (Vocab.load hexVocabulary.save).w2i 16 (getFeaturePacket [shownPacket] 2) =
      some row ∧
      Inference.ONNXEngine.tokenize [0x45, 0x00, 0x28] {} = some e ∧
      e.ids ≠ row.src.map (fun i : ℕ => (i : ℤ)) := by
  have hlen : ([0x45, 0x00, 0x28] : Bytes).length < 2 ^ 31 := by decide
  have hsep : (Vocab.load hexVocabulary.save).i2w[1]? = some sepToken := by
    rw [i2w_hexVocabulary]
    rfl
  obtain ⟨row, hrow, -⟩ := datasetRow_tokens (Vocab.consistent_load hexVocabulary.save)
    hexVocab_hexVocabulary.cls
    (packet_tokens_mem hexUnicode_knowsHex hexVocab_hexVocabulary [shownPacket] 2) 16
  have he := Inference.ONNXEngine.tokenize_fresh hlen
  exact ⟨row, _, hrow, he, probe_ids_differ hsep (by decide) hrow hlen he⟩

end Aegis.EtBert
