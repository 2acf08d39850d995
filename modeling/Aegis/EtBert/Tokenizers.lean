import Aegis.Lib.LongestMatch
import Aegis.Lib.Table
import Aegis.Lib.Text
import Mathlib.Data.List.ModifyLast

/-! The tokenizers of ET-BERT, `uer/utils/tokenizers.py`, with a vocabulary file. What
Python knows of Unicode is a parameter. -/
namespace Aegis.EtBert

/-- `unicodedata.category` in its two letters, `unicodedata.normalize("NFD", ..)`, and
the data of `str.lower`. -/
structure UnicodeData where
  category : Char → Char × Char
  nfd : Text → Text
  case : CaseData

def whitespaceTokenize (text : Text) : List Text :=
  let text := Text.strip text
  if text = [] then [] else Text.split text

theorem whitespaceTokenize_eq (text : Text) : whitespaceTokenize text = Text.split text := by
  unfold whitespaceTokenize
  dsimp only
  rw [Text.split_strip]
  split_ifs with hempty
  · rw [← Text.split_strip, hempty]
    rfl
  · rfl

/-! The classes of characters. -/

section Characters
variable (U : UnicodeData)

/-- `\t`, `\n`, `\r`. -/
def isLayout (c : Char) : Bool := c = '\t' || c = '\n' || c = '\r'

def isWhitespace (c : Char) : Bool := c = ' ' || isLayout c || U.category c = ('Z', 's')

def isControl (c : Char) : Bool :=
  !isLayout c && (U.category c = ('C', 'c') || U.category c = ('C', 'f'))

/-- All ASCII that is no letter, digit, blank or control character, and category P. -/
def isPunctuation (c : Char) : Bool :=
  let cp := c.toNat
  (33 ≤ cp && cp ≤ 47) || (58 ≤ cp && cp ≤ 64) || (91 ≤ cp && cp ≤ 96) || (123 ≤ cp && cp ≤ 126) ||
    (U.category c).1 = 'P'

def isChineseChar (cp : ℕ) : Bool :=
  (0x4E00 ≤ cp && cp ≤ 0x9FFF) || (0x3400 ≤ cp && cp ≤ 0x4DBF) || (0x20000 ≤ cp && cp ≤ 0x2A6DF) ||
    (0x2A700 ≤ cp && cp ≤ 0x2B73F) || (0x2B740 ≤ cp && cp ≤ 0x2B81F) ||
    (0x2B820 ≤ cp && cp ≤ 0x2CEAF) || (0xF900 ≤ cp && cp ≤ 0xFAFF) || (0x2F800 ≤ cp && cp ≤ 0x2FA1F)

end Characters

/-! `BasicTokenizer`. -/

namespace BasicTokenizer
variable (U : UnicodeData)

def cleanText (text : Text) : Text :=
  text.flatMap fun c =>
    if c.toNat = 0 || c.toNat = 0xFFFD || isControl U c then []
    else if isWhitespace U c then [' ']
    else [c]

def tokenizeChineseChars (text : Text) : Text :=
  text.flatMap fun c => if isChineseChar c.toNat then [' ', c, ' '] else [c]

def runStripAccents (text : Text) : Text := (U.nfd text).filter (fun c => U.category c ≠ ('M', 'n'))

/-- A character goes to the word begun before, unless it is punctuation or follows it. -/
def splitStep (state : List Text × Bool) (c : Char) : List Text × Bool :=
  let (output, startNewWord) := state
  if isPunctuation U c then (output ++ [[c]], true)
  else
    let output := if startNewWord then output ++ [[]] else output
    (output.modifyLast (· ++ [c]), false)

def runSplitOnPunc (text : Text) : List Text := (text.foldl (splitStep U) ([], true)).1

def tokenize (doLowerCase : Bool) (text : Text) : List Text :=
  let text := cleanText U text
  let text := tokenizeChineseChars text
  let splitTokens := (whitespaceTokenize text).flatMap fun token =>
    let token := if doLowerCase then runStripAccents U (U.case.lower token) else token
    runSplitOnPunc U token
  whitespaceTokenize ([' '].intercalate splitTokens)

/-! Words of plain characters come through. -/

/-- A character that no step of the tokenizer touches. -/
structure Plain (c : Char) : Prop where
  kept : c.toNat ≠ 0 ∧ c.toNat ≠ 0xFFFD ∧ isControl U c = false
  noWhitespace : isWhitespace U c = false
  noChinese : isChineseChar c.toNat = false
  noSpace : Text.isSpace c = false
  lowered : c.toNat < 128 ∧ c.toLower = c
  noMark : U.category c ≠ ('M', 'n')
  noPunctuation : isPunctuation U c = false

/-- Words, each with a blank behind it. -/
def spaced (words : List Text) : Text := words.flatMap (· ++ [' '])

variable {U}

theorem Plain.cleanText {words : List Text} (h : ∀ w ∈ words, ∀ c ∈ w, Plain U c)
    (hblank : isControl U ' ' = false) : cleanText U (spaced words) = spaced words := by
  have hchar : ∀ c ∈ spaced words, (if c.toNat = 0 || c.toNat = 0xFFFD || isControl U c then []
      else if isWhitespace U c then [' '] else [c]) = [c] := by
    intro c hc
    obtain ⟨w, hw, hc⟩ := List.mem_flatMap.mp hc
    rcases List.mem_append.mp hc with hin | hlast
    · obtain ⟨⟨hzero, hreplacement, hcontrol⟩, hspace, -⟩ := h w hw c hin
      simp [hzero, hreplacement, hcontrol, hspace]
    · rw [List.mem_singleton.mp hlast]
      simp [hblank, isWhitespace]
  unfold BasicTokenizer.cleanText
  rw [List.flatMap_congr hchar]
  exact List.flatMap_singleton' _

theorem Plain.tokenizeChineseChars {words : List Text} (h : ∀ w ∈ words, ∀ c ∈ w, Plain U c) :
    tokenizeChineseChars (spaced words) = spaced words := by
  have hchar : ∀ c ∈ spaced words, (if isChineseChar c.toNat then [' ', c, ' '] else [c]) = [c] := by
    intro c hc
    obtain ⟨w, hw, hc⟩ := List.mem_flatMap.mp hc
    rcases List.mem_append.mp hc with hin | hlast
    · rw [(h w hw c hin).noChinese]
      rfl
    · rw [List.mem_singleton.mp hlast]
      rfl
  unfold BasicTokenizer.tokenizeChineseChars
  rw [List.flatMap_congr hchar]
  exact List.flatMap_singleton' _

theorem split_spaced {words : List Text} (h : ∀ w ∈ words, ∀ c ∈ w, Text.isSpace c = false)
    (hne : ∀ w ∈ words, w ≠ []) : Text.split (spaced words) = words := by
  induction words with
  | nil => rfl
  | cons w words ih =>
    obtain ⟨hw, hwords⟩ := List.forall_mem_cons.mp h
    obtain ⟨hwne, hwordsne⟩ := List.forall_mem_cons.mp hne
    have hcons : spaced (w :: words) = w ++ ' ' :: spaced words := by
      unfold spaced
      rw [List.flatMap_cons, List.append_assoc]
      rfl
    rw [hcons, Text.split_append _ _ rfl, Text.split_word hwne hw, ih hwords hwordsne]
    rfl

theorem split_intercalate {words : List Text} (h : ∀ w ∈ words, ∀ c ∈ w, Text.isSpace c = false)
    (hne : ∀ w ∈ words, w ≠ []) : Text.split ([' '].intercalate words) = words := by
  have hlast : words ≠ [] → spaced words = [' '].intercalate words ++ [' '] := by
    intro hwords
    clear h hne
    induction words with
    | nil => exact absurd rfl hwords
    | cons w words ih =>
      cases words with
      | nil => simp [spaced]
      | cons v words =>
        have hrest := ih (List.cons_ne_nil _ _)
        rw [List.intercalate_cons_cons, List.append_assoc, List.append_assoc, ← hrest, ← List.append_assoc]
        rfl
  by_cases hwords : words = []
  · rw [hwords]
    rfl
  · have hsplit := split_spaced h hne
    have hspace : ∀ c ∈ [' '], Text.isSpace c = true := by
      intro c hc
      rw [List.mem_singleton.mp hc]
      rfl
    rw [hlast hwords, Text.split_append_spaces _ hspace] at hsplit
    exact hsplit

theorem Plain.runStripAccents {w : Text} (h : ∀ c ∈ w, Plain U c) (hnfd : U.nfd w = w) :
    runStripAccents U (U.case.lower w) = w := by
  have hlower : U.case.lower w = w := by
    rw [U.case.lower_ascii fun c hc => (h c hc).lowered.1]
    exact (List.map_congr_left fun c hc => (h c hc).lowered.2).trans (List.map_id _)
  unfold BasicTokenizer.runStripAccents
  rw [hlower, hnfd, List.filter_eq_self]
  exact fun c hc => decide_eq_true (h c hc).noMark

theorem Plain.runSplitOnPunc {w : Text} (hne : w ≠ []) (h : ∀ c ∈ w, Plain U c) :
    runSplitOnPunc U w = [w] := by
  have hgo : ∀ (done rest : Text), (∀ c ∈ rest, Plain U c) →
      rest.foldl (splitStep U) ([done], false) = ([done ++ rest], false) := by
    intro done rest hrest
    induction rest generalizing done with
    | nil => rw [List.foldl_nil, List.append_nil]
    | cons c rest ih =>
      obtain ⟨hc, hrest⟩ := List.forall_mem_cons.mp hrest
      have hstep : splitStep U ([done], false) c = ([done ++ [c]], false) := by
        unfold splitStep
        rw [hc.noPunctuation]
        rfl
      rw [List.foldl_cons, hstep, ih _ hrest, List.append_assoc, List.singleton_append]
  obtain ⟨c, rest, rfl⟩ := List.exists_cons_of_ne_nil hne
  obtain ⟨hc, hrest⟩ := List.forall_mem_cons.mp h
  have hstep : splitStep U ([], true) c = ([[c]], false) := by
    unfold splitStep
    rw [hc.noPunctuation]
    rfl
  unfold BasicTokenizer.runSplitOnPunc
  rw [List.foldl_cons, hstep, hgo _ _ hrest]
  rfl

/-- A text of plain words is cut into these words. -/
theorem Plain.tokenize {words : List Text} (h : ∀ w ∈ words, ∀ c ∈ w, Plain U c)
    (hne : ∀ w ∈ words, w ≠ []) (hblank : isControl U ' ' = false) (hnfd : ∀ w ∈ words, U.nfd w = w) :
    tokenize U true (spaced words) = words := by
  have hwords : words.flatMap (fun w => BasicTokenizer.runSplitOnPunc U
      (BasicTokenizer.runStripAccents U (U.case.lower w))) = words := by
    have hword : ∀ w ∈ words, BasicTokenizer.runSplitOnPunc U
        (BasicTokenizer.runStripAccents U (U.case.lower w)) = [w] := by
      intro w hw
      rw [Plain.runStripAccents (h w hw) (hnfd w hw), Plain.runSplitOnPunc (hne w hw) (h w hw)]
    rw [List.flatMap_congr hword]
    exact List.flatMap_singleton' _
  have hspace : ∀ w ∈ words, ∀ c ∈ w, Text.isSpace c = false := fun w hw c hc => (h w hw c hc).noSpace
  unfold BasicTokenizer.tokenize
  simp only [Plain.cleanText h hblank, Plain.tokenizeChineseChars h, whitespaceTokenize_eq,
    split_spaced hspace hne, if_true, hwords, split_intercalate hspace hne]

end BasicTokenizer

/-! `WordpieceTokenizer`. -/

namespace WordpieceTokenizer
variable (vocab : Table Text ℕ)

def unkToken : Text := "[UNK]".toList

def maxInputCharsPerWord : ℕ := 200

/-- The piece of a word that a token stands for at its place. -/
def marked (first : Bool) (piece : Text) : Text := if first then piece else "##".toList ++ piece

/-- The search for a token from `start` on, with `end` going down: the token and its end. -/
def findSubstr (chars : Text) (start : ℕ) : ℕ → Option (Text × ℕ)
  | 0 => none
  | stop + 1 =>
    if start < stop + 1 then
      let substr := marked (start = 0) ((chars.take (stop + 1)).drop start)
      if substr ∈ vocab then some (substr, stop + 1) else findSubstr chars start stop
    else none

/-- The tokens of a word from `start` on; none if it is bad. The fuel is the number of
characters left. -/
def subTokens (chars : Text) : ℕ → ℕ → Option (List Text)
  | 0, _ => some []
  | fuel + 1, start =>
    if start < chars.length then
      match findSubstr vocab chars start chars.length with
      | none => none
      | some (substr, stop) => (subTokens chars fuel stop).map (substr :: ·)
    else some []

def tokenizeWord (chars : Text) : List Text :=
  if maxInputCharsPerWord < chars.length then [unkToken]
  else (subTokens vocab chars chars.length 0).getD [unkToken]

def tokenize (text : Text) : List Text := (whitespaceTokenize text).flatMap (tokenizeWord vocab)

/-! The tokens of a word mark the longest-match cut of the word. -/

/-- A token of the vocabulary stands for the piece. -/
def Accepts (first : Bool) (piece : Text) : Prop := marked first piece ∈ vocab

/-- The tokens of the pieces of a word. -/
def markedFrom : Bool → List Text → List Text
  | _, [] => []
  | first, piece :: pieces => marked first piece :: markedFrom false pieces

variable {vocab}

theorem findSubstr_some {chars substr : Text} {start stop found : ℕ}
    (h : findSubstr vocab chars start stop = some (substr, found)) :
    start < found ∧ found ≤ stop ∧ substr = marked (start = 0) ((chars.take found).drop start) ∧
      substr ∈ vocab ∧ ∀ later, found < later → later ≤ stop →
        ¬ Accepts vocab (start = 0) ((chars.take later).drop start) := by
  induction stop with
  | zero => cases h
  | succ stop ih =>
    rw [findSubstr] at h
    dsimp only at h
    split_ifs at h with hlt hmem
    · cases h
      refine ⟨hlt, le_rfl, rfl, hmem, fun later hgt hle => ?_⟩
      omega
    · obtain ⟨hstart, hle, heq, hin, hlater⟩ := ih h
      refine ⟨hstart, by omega, heq, hin, fun later hgt hle' => ?_⟩
      rcases Nat.lt_or_ge stop later with hlast | hsmall
      · have hstop : later = stop + 1 := by omega
        rw [hstop]
        exact hmem
      · exact hlater later hgt hsmall

theorem findSubstr_none {chars : Text} {start stop : ℕ} (h : findSubstr vocab chars start stop = none) :
    ∀ later, start < later → later ≤ stop →
      ¬ Accepts vocab (start = 0) ((chars.take later).drop start) := by
  induction stop with
  | zero =>
    intro later hlt hle
    omega
  | succ stop ih =>
    rw [findSubstr] at h
    intro later hlt hle
    rw [if_pos (by omega)] at h
    dsimp only at h
    split_ifs at h with hmem
    rcases Nat.lt_or_ge stop later with hlast | hsmall
    · have hstop : later = stop + 1 := by omega
      rw [hstop]
      exact hmem
    · exact ih h later hlt hsmall

theorem take_drop_beginning {chars piece : Text} {start : ℕ} (h : piece <+: chars.drop start) :
    (chars.take (start + piece.length)).drop start = piece := by
  obtain ⟨rest, hrest⟩ := h
  rw [List.drop_take, Nat.add_sub_cancel_left, ← hrest, List.take_left]

/-- The search finds the longest accepted piece. -/
theorem findSubstr_longest {chars substr : Text} {start found : ℕ}
    (h : findSubstr vocab chars start chars.length = some (substr, found)) :
    ∃ piece, piece ≠ [] ∧ substr = marked (start = 0) piece ∧ Accepts vocab (start = 0) piece ∧
      chars.drop start = piece ++ chars.drop found ∧ start < found ∧ found ≤ chars.length ∧
      ∀ more, more ≠ [] → more <+: chars.drop found → ¬ Accepts vocab (start = 0) (piece ++ more) := by
  obtain ⟨hlt, hle, heq, hmem, hlater⟩ := findSubstr_some h
  obtain ⟨piece, hpiece⟩ : ∃ piece, piece = (chars.take found).drop start := ⟨_, rfl⟩
  rw [← hpiece] at heq
  have hlen : piece.length = found - start := by
    rw [hpiece, List.length_drop, List.length_take_of_le hle]
  have hsplit : chars.drop start = piece ++ chars.drop found := by
    have hdrop : chars.drop found = (chars.drop start).drop (found - start) := by
      rw [List.drop_drop]
      congr 1
      omega
    have htake : piece = (chars.drop start).take (found - start) := hpiece.trans List.drop_take
    rw [hdrop, htake, List.take_append_drop]
  have haccepts : Accepts vocab (start = 0) piece := by
    unfold Accepts
    rw [← heq]
    exact hmem
  refine ⟨piece, ?_, heq, haccepts, hsplit, hlt, hle, fun more hmore hprefix hlong => ?_⟩
  · apply List.ne_nil_of_length_pos
    omega
  · have hwhole : piece ++ more <+: chars.drop start := by
      rw [hsplit]
      exact (List.prefix_append_right_inj piece).mpr hprefix
    have hmorelen := List.length_pos_of_ne_nil hmore
    have hbound := hwhole.length_le
    have happ : (piece ++ more).length = piece.length + more.length := List.length_append
    rw [List.length_drop] at hbound
    apply hlater (start + (piece ++ more).length) (by omega) (by omega)
    rw [take_drop_beginning hwhole]
    exact hlong

theorem cut_end {chars : Text} {start : ℕ} (hle : chars.length ≤ start) {tokens : List Text} :
    some [] = some tokens ↔
      ∃ pieces, LongestMatch.Cut (Accepts vocab) (start = 0) (chars.drop start) pieces ∧
        tokens = markedFrom (start = 0) pieces := by
  rw [List.drop_eq_nil_of_le hle, Option.some.injEq]
  constructor
  · rintro rfl
    exact ⟨[], .nil _, rfl⟩
  · rintro ⟨pieces, hcut, rfl⟩
    rw [← (LongestMatch.Cut.nil _).unique hcut]
    rfl

theorem subTokens_iff {chars : Text} {fuel start : ℕ} (hfuel : chars.length ≤ fuel + start)
    {tokens : List Text} : subTokens vocab chars fuel start = some tokens ↔
      ∃ pieces, LongestMatch.Cut (Accepts vocab) (start = 0) (chars.drop start) pieces ∧
        tokens = markedFrom (start = 0) pieces := by
  induction fuel generalizing start tokens with
  | zero => exact cut_end (by omega)
  | succ fuel ih =>
    rw [subTokens]
    split_ifs with hlt
    swap
    · exact cut_end (by omega)
    cases hfind : findSubstr vocab chars start chars.length with
    | none =>
      have hnone : ∀ pieces, ¬ LongestMatch.Cut (Accepts vocab) (start = 0) (chars.drop start) pieces := by
        intro pieces
        apply LongestMatch.not_cut
        · rw [ne_eq, List.drop_eq_nil_iff]
          omega
        · intro piece hne hprefix
          have hlen := hprefix.length_le
          have hpos := List.length_pos_of_ne_nil hne
          rw [List.length_drop] at hlen
          have hno := findSubstr_none hfind (start + piece.length) (by omega) (by omega)
          rwa [take_drop_beginning hprefix] at hno
      constructor
      · intro h
        cases h
      · rintro ⟨pieces, hcut, -⟩
        exact absurd hcut (hnone pieces)
    | some found =>
      obtain ⟨substr, stop⟩ := found
      obtain ⟨piece, hne, rfl, haccepts, hsplit, hgt, hle, hlongest⟩ := findSubstr_longest hfind
      have hnext : decide (stop = 0) = false := decide_eq_false (by omega)
      have hrest := @ih stop (by omega)
      rw [hnext] at hrest
      simp only [Option.map_eq_some_iff]
      rw [hsplit]
      constructor
      · rintro ⟨later, hlater, rfl⟩
        obtain ⟨pieces, hcut, rfl⟩ := hrest.mp hlater
        exact ⟨piece :: pieces, .cons hne haccepts hlongest hcut, rfl⟩
      · rintro ⟨pieces, hcut, rfl⟩
        obtain ⟨later, rfl, hlater⟩ := (LongestMatch.cut_append_iff hne haccepts hlongest).mp hcut
        exact ⟨_, hrest.mpr ⟨later, hlater, rfl⟩, rfl⟩

theorem markedFrom_mem {first : Bool} {word : Text} {pieces : List Text}
    (h : LongestMatch.Cut (Accepts vocab) first word pieces) :
    ∀ token ∈ markedFrom first pieces, token ∈ vocab := by
  induction h with
  | nil => exact List.forall_mem_nil _
  | cons hne haccepts hlongest hrest ih => exact List.forall_mem_cons.mpr ⟨haccepts, ih⟩

theorem tokenizeWord_cut {word : Text} (hlen : word.length ≤ maxInputCharsPerWord) {pieces : List Text}
    (h : LongestMatch.Cut (Accepts vocab) true word pieces) :
    tokenizeWord vocab word = markedFrom true pieces := by
  have hsub : subTokens vocab word word.length 0 = some (markedFrom true pieces) :=
    (subTokens_iff (by omega)).mpr ⟨pieces, h, rfl⟩
  unfold tokenizeWord
  rw [if_neg (by omega), hsub, Option.getD_some]

theorem tokenizeWord_unk {word : Text} (h : maxInputCharsPerWord < word.length ∨
    ∀ pieces, ¬ LongestMatch.Cut (Accepts vocab) true word pieces) :
    tokenizeWord vocab word = [unkToken] := by
  unfold tokenizeWord
  split_ifs with hlong
  · rfl
  · have hnone : subTokens vocab word word.length 0 = none := by
      rw [Option.eq_none_iff_forall_ne_some]
      intro tokens htokens
      obtain ⟨pieces, hcut, -⟩ := (subTokens_iff (by omega)).mp htokens
      rcases h with hlarge | hno
      · exact hlong hlarge
      · exact hno pieces hcut
    rw [hnone, Option.getD_none]

/-- The words of a text one by one: a word of at most 200 characters is cut into the longest
pieces that have tokens, which make up the word again; a word that is longer or has no such
cut is unknown as a whole. -/
theorem tokenize_spec (vocab : Table Text ℕ) (text : Text) :
    tokenize vocab text = (Text.split text).flatMap (tokenizeWord vocab) ∧
    ∀ word, (∀ pieces, word.length ≤ maxInputCharsPerWord →
        LongestMatch.Cut (Accepts vocab) true word pieces →
          tokenizeWord vocab word = markedFrom true pieces ∧ pieces.flatten = word) ∧
      (maxInputCharsPerWord < word.length ∨
        (∀ pieces, ¬ LongestMatch.Cut (Accepts vocab) true word pieces) →
          tokenizeWord vocab word = [unkToken]) := by
  refine ⟨?_, fun word => ⟨fun pieces hlen hcut => ?_, tokenizeWord_unk⟩⟩
  · rw [tokenize, whitespaceTokenize_eq]
  · exact ⟨tokenizeWord_cut hlen hcut, hcut.flatten⟩

/-! Tokens joined to words again. -/

/-- A token that is marked goes on with the word before it. -/
def addToken (words : List Text) (token : Text) : List Text :=
  if "##".toList <+: token then words.modifyLast (· ++ token.drop 2) else words ++ [token]

def joinTokens (tokens : List Text) : List Text := tokens.foldl addToken []

end WordpieceTokenizer

/-! `BertTokenizer`, which lowers the case. -/

def bertTokenize (U : UnicodeData) (vocab : Table Text ℕ) (text : Text) : List Text :=
  (BasicTokenizer.tokenize U true text).flatMap (WordpieceTokenizer.tokenize vocab)

end Aegis.EtBert
