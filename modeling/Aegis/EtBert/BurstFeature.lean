import Aegis.EtBert.DatagramTokens
import Mathlib.Data.List.SplitBy

/-! The corpus of the pre-training, `get_burst_feature` of `data_process/dataset_generation.py`,
and the documents that `BertDataset.worker` of `uer/utils/data.py` takes from it. -/
namespace Aegis.EtBert

/-- A burst that is over: its digits in halves, a line for each, and an empty line. There is
a `ValueError` if it has no digits. -/
def burstText (burstDataString : Text) : Option Text :=
  (cut burstDataString (burstDataString.length / 2)).map fun pieces =>
    pieces.flatMap (fun stringTxt => bigramGeneration stringTxt stringTxt.length ++ ['\n']) ++ ['\n']

/-- The packets after the first, with the direction of the one before. -/
def burstLoop (burstDataString : Text) (direction : ℤ) : List (ℤ × Text) → Option Text
  | [] => some []
  | (packetDirection, packetString) :: rest => do
    let finished ← if packetDirection ≠ direction then burstText burstDataString else some []
    let burstDataString :=
      if packetDirection ≠ direction then packetString else burstDataString ++ packetString
    let last ← if rest.isEmpty then burstText burstDataString else some []
    let later ← burstLoop burstDataString packetDirection rest
    return finished ++ last ++ later

/-- `get_burst_feature`: what is appended to the corpus. Nothing is if there is not a direction
for each packet. -/
def getBurstFeature (packetDirection : List ℤ) (packets : List Bytes) (payloadLen : ℕ) : Option Text :=
  if packetDirection.length = packets.length then
    match packetDirection.zip (packets.map fun packet => (hexlify packet).take (2 * payloadLen)) with
    | [] => some []
    -- the first packet alone begins a burst that is never over
    | (direction, packetString) :: rest => burstLoop packetString direction rest
  else some []

/-! Bursts. -/

/-- The bytes of neighbouring packets of one direction. -/
def bursts (packets : List (ℤ × Bytes)) : List Bytes :=
  (packets.splitBy (fun a b => a.1 == b.1)).map (fun run => run.flatMap Prod.snd)

/-- The bursts from one that has begun. -/
def burstsFrom (direction : ℤ) (burst : Bytes) : List (ℤ × Bytes) → List Bytes
  | [] => [burst]
  | (packetDirection, packet) :: rest =>
    if packetDirection = direction then burstsFrom packetDirection (burst ++ packet) rest
    else burst :: burstsFrom packetDirection packet rest

theorem map_splitBy_loop (rest : List (ℤ × Bytes)) (last : ℤ × Bytes) (run : List (ℤ × Bytes))
    (done : List (List (ℤ × Bytes))) :
    (List.splitBy.loop (fun a b => a.1 == b.1) rest last run done).map (fun run => run.flatMap Prod.snd) =
      done.reverse.map (fun run => run.flatMap Prod.snd) ++
        burstsFrom last.1 ((last :: run).reverse.flatMap Prod.snd) rest := by
  induction rest generalizing last run done with
  | nil => simp [List.splitBy.loop, burstsFrom]
  | cons e rest ih =>
    obtain ⟨direction, packet⟩ := e
    rw [List.splitBy.loop, burstsFrom]
    by_cases hsame : direction = last.1
    · have hbeq : (last.1 == direction) = true := beq_iff_eq.mpr hsame.symm
      simp only [hbeq]
      rw [ih, if_pos hsame]
      simp
    · have hbeq : (last.1 == direction) = false := beq_eq_false_iff_ne.mpr fun h => hsame h.symm
      simp only [hbeq]
      rw [ih, if_neg hsame]
      simp

theorem bursts_cons (direction : ℤ) (packet : Bytes) (rest : List (ℤ × Bytes)) :
    bursts ((direction, packet) :: rest) = burstsFrom direction packet rest := by
  have hloop := map_splitBy_loop rest (direction, packet) [] []
  unfold bursts List.splitBy
  rw [hloop]
  simp

theorem length_burstsFrom {direction : ℤ} {burst : Bytes} {rest : List (ℤ × Bytes)}
    (hburst : 2 ≤ burst.length) (hrest : ∀ e ∈ rest, 2 ≤ e.2.length) :
    ∀ b ∈ burstsFrom direction burst rest, 2 ≤ b.length := by
  induction rest generalizing direction burst with
  | nil =>
    intro b hb
    rw [List.mem_singleton.mp hb]
    exact hburst
  | cons e rest ih =>
    obtain ⟨he, hlater⟩ := List.forall_mem_cons.mp hrest
    rw [burstsFrom]
    split_ifs
    · exact ih (by rw [List.length_append]; omega) hlater
    · exact List.forall_mem_cons.mpr ⟨hburst, ih he hlater⟩

/-! The lines of a burst. -/

/-- What `cut` makes of the digits of a burst: the step grows until it is whole bytes. -/
def halves (b : Bytes) : List Bytes :=
  let k := (b.length + b.length % 4) / 2
  if b.length < 4 then [b] else [b.take k, b.drop k]

theorem cut_half {b : Bytes} (hb : 2 ≤ b.length) :
    cut (hexlify b) ((hexlify b).length / 2) = some ((halves b).map hexlify) := by
  have hlen := length_hexlify b
  have hsec : (hexlify b).length / 2 = b.length := by omega
  have hne : hexlify b ≠ [] := List.ne_nil_of_length_pos (by omega)
  obtain ⟨fuel, hfuel⟩ : ∃ fuel, (hexlify b).length = fuel + 2 := ⟨2 * b.length - 2, by omega⟩
  have hhead : ((slices b.length (hexlify b).length (hexlify b)).head?.map
      (fun slice => slice.length % 4)).getD 0 = b.length % 4 := by
    rw [hfuel, slices_succ hne, List.head?_cons, Option.map_some, Option.getD_some, List.length_take]
    congr 1
    omega
  obtain ⟨k, hk⟩ : ∃ k, k = (b.length + b.length % 4) / 2 := ⟨_, rfl⟩
  have htwice : b.length + b.length % 4 = 2 * k := by omega
  have hsplit : 4 ≤ b.length → slices (2 * k) (hexlify b).length (hexlify b) =
      [hexlify (b.take k), hexlify (b.drop k)] := by
    intro hlong
    rw [hfuel, slices_two (by omega) (by omega), take_hexlify, drop_hexlify]
  unfold cut halves
  rw [hsec, if_neg (by omega)]
  dsimp only
  rw [hhead, ← hk]
  split_ifs with hrem hshort
  · omega
  · have heven : b.length = 2 * k := by omega
    have htwo := hsplit (by omega)
    rw [← heven] at htwo
    rw [htwo]
    rfl
  · rw [hfuel, slices_one hne (by omega)]
    rfl
  · rw [htwice, hsplit (by omega)]
    rfl

theorem length_halves {b : Bytes} (hb : 2 ≤ b.length) : ∀ q ∈ halves b, 2 ≤ q.length := by
  intro q hq
  unfold halves at hq
  dsimp only at hq
  split_ifs at hq with hshort
  · rw [List.mem_singleton.mp hq]
    exact hb
  · rcases List.mem_pair.mp hq with rfl | rfl
    · rw [List.length_take]
      omega
    · rw [List.length_drop]
      omega

theorem flatten_halves (b : Bytes) : (halves b).flatten = b := by
  unfold halves
  dsimp only
  split_ifs
  · exact List.append_nil _
  · rw [List.flatten_cons, List.flatten_cons, List.flatten_nil, List.append_nil, List.take_append_drop]

/-- The line of some bytes. -/
def byteLine (q : Bytes) : Text := BasicTokenizer.spaced ((windows q).map windowWord)

def linesText (lines : List Text) : Text := lines.flatMap (· ++ ['\n']) ++ ['\n']

theorem length_windows (q : Bytes) : (windows q).length ≤ q.length := by
  unfold windows
  rw [List.length_zip]
  exact Nat.min_le_left _ _

theorem burstText_hexlify {b : Bytes} (hb : 2 ≤ b.length) :
    burstText (hexlify b) = some (linesText ((halves b).map byteLine)) := by
  have hline : ∀ q : Bytes, bigramGeneration (hexlify q) (hexlify q).length = byteLine q := by
    intro q
    have hall : (windows q).length ≤ (hexlify q).length := by
      have hwindows := length_windows q
      rw [length_hexlify]
      omega
    rw [bigramGeneration_spaced, List.take_of_length_le hall]
    rfl
  unfold burstText linesText
  rw [cut_half hb, Option.map_some, List.flatMap_map, List.flatMap_map]
  simp only [hline]

/-- The text of a capture, burst by burst. -/
theorem burstLoop_hexlify {rest : List (ℤ × Bytes)} (hne : rest ≠ []) {burst : Bytes} (direction : ℤ)
    (hburst : 2 ≤ burst.length) (hrest : ∀ e ∈ rest, 2 ≤ e.2.length) :
    burstLoop (hexlify burst) direction (rest.map fun e => (e.1, hexlify e.2)) =
      some ((burstsFrom direction burst rest).flatMap fun b => linesText ((halves b).map byteLine)) := by
  induction rest generalizing direction burst with
  | nil => exact absurd rfl hne
  | cons e rest ih =>
    obtain ⟨packetDirection, packet⟩ := e
    obtain ⟨hpacket, hlater⟩ := List.forall_mem_cons.mp hrest
    have hjoined : 2 ≤ (burst ++ packet).length := by
      rw [List.length_append]
      omega
    rw [List.map_cons, burstLoop, burstsFrom]
    by_cases hsame : packetDirection = direction
    · subst hsame
      simp only [ne_eq, not_true_eq_false, if_false, if_true, ← hexlify_append]
      cases rest with
      | nil => simp [burstLoop, burstsFrom, burstText_hexlify hjoined]
      | cons e' rest =>
        rw [ih (List.cons_ne_nil _ _) packetDirection hjoined hlater]
        simp
    · simp only [hsame, ne_eq, not_false_eq_true, if_false, if_true, burstText_hexlify hburst]
      cases rest with
      | nil => simp [burstLoop, burstsFrom, burstText_hexlify hpacket]
      | cons e' rest =>
        rw [ih (List.cons_ne_nil _ _) packetDirection hpacket hlater]
        simp

/-! The corpus read again. -/

/-- The documents of a corpus: blank lines stand between, and an empty document is none. -/
def documents (corpus : Text) : List (List Text) :=
  ((corpus.splitOn '\n').splitOnP (fun line => Text.strip line = [])).filter (fun document => document ≠ [])

theorem splitOn_linesText {docs : List (List Text)} (h : ∀ d ∈ docs, ∀ line ∈ d, '\n' ∉ line) :
    (docs.flatMap linesText).splitOn '\n' = docs.flatMap (· ++ [[]]) ++ [[]] := by
  induction docs with
  | nil => rfl
  | cons d docs ih =>
    obtain ⟨hd, hdocs⟩ := List.forall_mem_cons.mp h
    have hblank : ('\n' :: docs.flatMap linesText).splitOn '\n' =
        [] :: (docs.flatMap linesText).splitOn '\n' :=
      List.splitOn_append_cons_self_of_not_mem List.not_mem_nil _
    rw [List.flatMap_cons, linesText, List.append_assoc, splitOn_lines hd, List.singleton_append, hblank,
      ih hdocs, List.flatMap_cons, List.append_assoc, List.append_assoc]
    rfl

theorem documents_linesText {docs : List (List Text)} (hne : ∀ d ∈ docs, d ≠ [])
    (hbreak : ∀ d ∈ docs, ∀ line ∈ d, '\n' ∉ line) (hblank : ∀ d ∈ docs, ∀ line ∈ d, Text.strip line ≠ []) :
    documents (docs.flatMap linesText) = docs := by
  have hparts : (docs.flatMap (· ++ [[]]) ++ [[]]).splitOnP (fun line => decide (Text.strip line = [])) =
      docs ++ [[], []] := by
    clear hne hbreak
    induction docs with
    | nil => rfl
    | cons d docs ih =>
      obtain ⟨hd, hdocs⟩ := List.forall_mem_cons.mp hblank
      have hshape : (d :: docs).flatMap (· ++ [[]]) ++ [[]] =
          d ++ [] :: (docs.flatMap (· ++ [[]]) ++ [[]]) := by simp
      have hkept : ∀ line ∈ d, decide (Text.strip line = []) = false :=
        fun line hl => decide_eq_false (hd line hl)
      rw [hshape, List.splitOnP_append_cons_of_forall_mem hkept [] rfl, ih hdocs]
      rfl
  unfold documents
  rw [splitOn_linesText hbreak, hparts, List.filter_append,
    List.filter_eq_self.mpr fun d hd => decide_eq_true (hne d hd)]
  exact List.append_nil _

theorem split_byteLine (q : Bytes) : Text.split (byteLine q) = (windows q).map windowWord := by
  have hspace : ∀ c ∈ hexDigits, Text.isSpace c = false := forall_hexDigit (by decide)
  apply BasicTokenizer.split_spaced
  · intro w hw c hc
    obtain ⟨window, -, rfl⟩ := List.mem_map.mp hw
    exact hspace c (windowWord_mem window c hc)
  · intro w hw
    obtain ⟨window, -, rfl⟩ := List.mem_map.mp hw
    exact (hexWord_windowWord window).ne_nil

theorem readWords_byteLine {q : Bytes} (hq : 2 ≤ q.length) : readWords (Text.split (byteLine q)) = q := by
  obtain ⟨a, b, p, rfl⟩ : ∃ a b p, q = a :: b :: p := by
    match q, hq with
    | a :: b :: p, _ => exact ⟨a, b, p, rfl⟩
  have hall : (windows (a :: b :: p)).length ≤ p.length + 1 := by
    unfold windows
    rw [List.length_zip]
    exact Nat.min_le_right _ _
  have hread := readWords_windows a b p p.length
  rw [List.take_of_length_le hall, List.take_of_length_le (by simp)] at hread
  rw [split_byteLine, hread]

theorem break_not_mem_byteLine (q : Bytes) {c : Char} (hdigit : c ∉ hexDigits) (hblank : c ≠ ' ') :
    c ∉ byteLine q := by
  intro hin
  obtain ⟨w, hw, hin⟩ := List.mem_flatMap.mp hin
  obtain ⟨window, -, rfl⟩ := List.mem_map.mp hw
  rcases List.mem_append.mp hin with hin | hin
  · exact hdigit (windowWord_mem window _ hin)
  · exact hblank (List.mem_singleton.mp hin)

theorem strip_byteLine {q : Bytes} (hq : 2 ≤ q.length) : Text.strip (byteLine q) ≠ [] := by
  intro hstrip
  have hread := readWords_byteLine hq
  rw [← Text.split_strip, hstrip] at hread
  rw [← hread] at hq
  exact absurd hq (by decide)

/-- The bytes of a document. -/
def documentBytes (document : List Text) : Bytes := document.flatMap fun line => readWords (Text.split line)

theorem burst_lines {bs : List Bytes} (h : ∀ b ∈ bs, 2 ≤ b.length) :
    ∀ d ∈ bs.map (fun b => (halves b).map byteLine), ∀ line ∈ d, ∃ q, 2 ≤ q.length ∧ line = byteLine q := by
  intro d hd line hline
  obtain ⟨b, hb, rfl⟩ := List.mem_map.mp hd
  obtain ⟨q, hq, rfl⟩ := List.mem_map.mp hline
  exact ⟨q, length_halves (h b hb) q hq, rfl⟩

theorem burst_ne_nil {bs : List Bytes} (h : ∀ b ∈ bs, 2 ≤ b.length) :
    ∀ d ∈ bs.map (fun b => (halves b).map byteLine), d ≠ [] := by
  intro d hd hnil
  obtain ⟨b, hb, rfl⟩ := List.mem_map.mp hd
  have hflat := flatten_halves b
  rw [List.map_eq_nil_iff.mp hnil] at hflat
  have hlen := h b hb
  rw [← hflat] at hlen
  exact absurd hlen (by decide)

theorem documents_bursts {bs : List Bytes} (h : ∀ b ∈ bs, 2 ≤ b.length) :
    (documents (bs.flatMap fun b => linesText ((halves b).map byteLine))).map documentBytes = bs := by
  have hdocs : documents ((bs.map fun b => (halves b).map byteLine).flatMap linesText) =
      bs.map fun b => (halves b).map byteLine := by
    apply documents_linesText (burst_ne_nil h)
    · intro d hd line hline
      obtain ⟨q, -, rfl⟩ := burst_lines h d hd line hline
      exact break_not_mem_byteLine q (by decide) (by decide)
    · intro d hd line hline
      obtain ⟨q, hq, rfl⟩ := burst_lines h d hd line hline
      exact strip_byteLine hq
  rw [List.flatMap_map] at hdocs
  rw [hdocs, List.map_map]
  have hback : ∀ b ∈ bs, (documentBytes ∘ fun b => (halves b).map byteLine) b = b := by
    intro b hb
    show documentBytes ((halves b).map byteLine) = b
    unfold documentBytes
    rw [List.flatMap_map, List.flatMap_congr fun q hq => readWords_byteLine (length_halves (h b hb) q hq)]
    exact List.flatMap_id.trans (flatten_halves b)
  exact (List.map_congr_left hback).trans (List.map_id _)

/-- The corpus holds a document for each burst, and its bytes are those of the burst. -/
def BurstsKept (packetDirection : List ℤ) (packets : List Bytes) (payloadLen : ℕ) : Prop :=
  ∃ corpus, getBurstFeature packetDirection packets payloadLen = some corpus ∧
    (documents corpus).map documentBytes = bursts (packetDirection.zip (packets.map (·.take payloadLen)))

theorem zip_hexlify (packetDirection : List ℤ) (packets : List Bytes) (payloadLen : ℕ) :
    packetDirection.zip (packets.map fun packet => (hexlify packet).take (2 * payloadLen)) =
      (packetDirection.zip (packets.map (·.take payloadLen))).map fun e => (e.1, hexlify e.2) := by
  have hcut : (packets.map fun packet => (hexlify packet).take (2 * payloadLen)) =
      (packets.map (·.take payloadLen)).map hexlify := by
    rw [List.map_map]
    exact List.map_congr_left fun packet _ => take_hexlify packet payloadLen
  rw [hcut, List.zip_map_right]
  rfl

section Capture
variable {packetDirection : List ℤ} {packets : List Bytes} {payloadLen : ℕ}

theorem length_shown (packetDirection : List ℤ) (hpay : 2 ≤ payloadLen)
    (hbytes : ∀ p ∈ packets, 2 ≤ p.length) :
    ∀ e ∈ packetDirection.zip (packets.map (·.take payloadLen)), 2 ≤ e.2.length := by
  intro e he
  obtain ⟨p, hp, hpe⟩ := List.mem_map.mp (List.of_mem_zip he).2
  have hlong := hbytes p hp
  rw [← hpe, List.length_take]
  omega

/-- What two packets or more append to the corpus. -/
theorem getBurstFeature_eq (hlen : packetDirection.length = packets.length) (hpay : 2 ≤ payloadLen)
    (hbytes : ∀ p ∈ packets, 2 ≤ p.length) (htwo : 2 ≤ packets.length) :
    getBurstFeature packetDirection packets payloadLen =
        some ((bursts (packetDirection.zip (packets.map (·.take payloadLen)))).flatMap
          fun b => linesText ((halves b).map byteLine)) ∧
      ∀ b ∈ bursts (packetDirection.zip (packets.map (·.take payloadLen))), 2 ≤ b.length := by
  have hlong := length_shown packetDirection hpay hbytes
  have hcount : (packetDirection.zip (packets.map (·.take payloadLen))).length = packets.length := by
    rw [List.length_zip, List.length_map, hlen, Nat.min_self]
  unfold getBurstFeature
  rw [if_pos hlen, zip_hexlify]
  rw [← hcount] at htwo
  obtain ⟨es, hes⟩ : ∃ es, es = packetDirection.zip (packets.map (·.take payloadLen)) := ⟨_, rfl⟩
  rw [← hes] at hlong htwo ⊢
  cases es with
  | nil => cases htwo
  | cons e rest =>
    obtain ⟨direction, packet⟩ := e
    obtain ⟨hpacket, hrest⟩ := List.forall_mem_cons.mp hlong
    have hne : rest ≠ [] := by
      rintro rfl
      exact absurd htwo (by simp)
    rw [bursts_cons]
    exact ⟨burstLoop_hexlify hne direction hpacket hrest, length_burstsFrom hpacket hrest⟩

/-- A capture keeps its bursts, unless it is a single packet: that one is begun as a burst and
never written. -/
theorem burstsKept_iff (hlen : packetDirection.length = packets.length) (hpay : 2 ≤ payloadLen)
    (hbytes : ∀ p ∈ packets, 2 ≤ p.length) :
    BurstsKept packetDirection packets payloadLen ↔ packets.length ≠ 1 := by
  match packetDirection, packets, hlen with
  | [], [], _ => exact iff_of_true ⟨[], rfl, rfl⟩ Nat.zero_ne_one
  | [direction], [packet], _ =>
    refine iff_of_false ?_ fun h => h rfl
    rintro ⟨corpus, hcorpus, hdocs⟩
    cases hcorpus
    cases hdocs
  | direction :: direction' :: directions, packet :: packet' :: packets, hlen =>
    have htwo : 2 ≤ (packet :: packet' :: packets).length := by simp
    obtain ⟨hcorpus, hlong⟩ := getBurstFeature_eq hlen hpay hbytes htwo
    exact iff_of_true ⟨_, hcorpus, documents_bursts hlong⟩ (by simp)

theorem burstsKept_sample : BurstsKept [1, 1, -1] [[0x45, 0x00], [0x28, 0x29], [0xff, 0x01]] 64 :=
  (burstsKept_iff rfl (by decide) (by simp)).mpr (by decide)

end Capture

/-! The worker over the corpus. -/

/-- The lines that `BertDataset.worker` handles between `start` and `stop`, which is no more than
the lines there are: it stops at the line that takes it to `stop`, and leaves that one. -/
def handledLines (corpus : Text) (start stop : ℕ) : List Text :=
  ((fileLines corpus).drop start).take (stop - 1 - start)

/-- Its documents, each a list of sentences; one that is begun at the end is dropped. -/
def workerDocuments (sentence : Text → List ℕ) : List (List ℕ) → List Text → List (List (List ℕ))
  | _, [] => []
  | document, line :: lines =>
    if Text.strip line = [] then
      if document ≠ [] then document :: workerDocuments sentence [] lines
      else workerDocuments sentence [] lines
    else if sentence line ≠ [] then workerDocuments sentence (document ++ [sentence line]) lines
    else workerDocuments sentence document lines

/-- `count_lines`. -/
def countLines (corpus : Text) : ℕ := corpus.count '\n'

section Worker
variable {sentence : Text → List ℕ} {docs : List (List Text)}

theorem workerDocuments_lines {d : List Text} (hblank : ∀ line ∈ d, Text.strip line ≠ [])
    (hsentence : ∀ line ∈ d, sentence line ≠ []) (document : List (List ℕ)) (rest : List Text) :
    workerDocuments sentence document (d ++ rest) =
      workerDocuments sentence (document ++ d.map sentence) rest := by
  induction d generalizing document with
  | nil => rw [List.nil_append, List.map_nil, List.append_nil]
  | cons line d ih =>
    obtain ⟨hline, hlater⟩ := List.forall_mem_cons.mp hblank
    obtain ⟨hsome, hsomelater⟩ := List.forall_mem_cons.mp hsentence
    rw [List.cons_append, workerDocuments, if_neg hline, if_pos hsome, ih hlater hsomelater,
      List.append_assoc, List.map_cons]
    rfl

theorem workerDocuments_docs (hne : ∀ d ∈ docs, d ≠ [])
    (hblank : ∀ d ∈ docs, ∀ line ∈ d, Text.strip line ≠ [])
    (hsentence : ∀ d ∈ docs, ∀ line ∈ d, sentence line ≠ []) (rest : List Text) :
    workerDocuments sentence [] (docs.flatMap (· ++ [[]]) ++ rest) =
      docs.map (·.map sentence) ++ workerDocuments sentence [] rest := by
  induction docs with
  | nil => rfl
  | cons d docs ih =>
    obtain ⟨hd, hdocs⟩ := List.forall_mem_cons.mp hne
    obtain ⟨hb, hblanks⟩ := List.forall_mem_cons.mp hblank
    obtain ⟨hs, hsentences⟩ := List.forall_mem_cons.mp hsentence
    have hstrip : Text.strip [] = [] := rfl
    have hdocument : d.map sentence ≠ [] := fun h => hd (List.map_eq_nil_iff.mp h)
    rw [List.flatMap_cons, List.append_assoc, List.append_assoc, workerDocuments_lines hb hs,
      List.nil_append, List.singleton_append, workerDocuments, if_pos hstrip, if_pos hdocument,
      ih hdocs hblanks hsentences]
    rfl

theorem countLines_lines {lines : List Text} (h : ∀ line ∈ lines, '\n' ∉ line) :
    (lines.flatMap (· ++ ['\n'])).count '\n' = lines.length := by
  induction lines with
  | nil => rfl
  | cons line lines ih =>
    obtain ⟨hline, hlines⟩ := List.forall_mem_cons.mp h
    rw [List.flatMap_cons, List.count_append, List.count_append, List.count_eq_zero_of_not_mem hline,
      ih hlines, List.count_singleton_self, List.length_cons]
    omega

/-- One worker over a whole corpus finds every document but the last: the blank line behind
that one is the line it leaves. -/
theorem workerDocuments_corpus (hne : ∀ d ∈ docs, d ≠ [])
    (hbreak : ∀ d ∈ docs, ∀ line ∈ d, '\n' ∉ line ∧ '\r' ∉ line)
    (hblank : ∀ d ∈ docs, ∀ line ∈ d, Text.strip line ≠ [])
    (hsentence : ∀ d ∈ docs, ∀ line ∈ d, sentence line ≠ []) :
    workerDocuments sentence [] (handledLines (docs.flatMap linesText) 0
      (countLines (docs.flatMap linesText))) = docs.dropLast.map (·.map sentence) := by
  have hblankline : docs.flatMap linesText = (docs.flatMap (· ++ [[]])).flatMap (· ++ ['\n']) := by
    rw [List.flatMap_assoc]
    apply List.flatMap_congr
    intro d hd
    rw [List.flatMap_append]
    rfl
  have hmem : ∀ line ∈ docs.flatMap (· ++ [[]]), '\n' ∉ line ∧ '\r' ∉ line := by
    intro line hline
    obtain ⟨d, hd, hline⟩ := List.mem_flatMap.mp hline
    rcases List.mem_append.mp hline with hline | hline
    · exact hbreak d hd line hline
    · rw [List.mem_singleton.mp hline]
      exact ⟨List.not_mem_nil, List.not_mem_nil⟩
  have hlines : fileLines (docs.flatMap linesText) = docs.flatMap (· ++ [[]]) := by
    have hsaved := Vocab.fileLines_save (v := ⟨∅, docs.flatMap (· ++ [[]])⟩) hmem
    rw [hblankline]
    exact hsaved
  have hcount : countLines (docs.flatMap linesText) = (docs.flatMap (· ++ [[]])).length := by
    rw [hblankline]
    exact countLines_lines fun line hline => (hmem line hline).1
  rw [handledLines, hlines, hcount, List.drop_zero, Nat.sub_zero, ← List.dropLast_eq_take]
  rcases List.eq_nil_or_concat' docs with rfl | ⟨ds, d, rfl⟩
  · rfl
  · have hds : ∀ d' ∈ ds, d' ∈ ds ++ [d] := fun _ h => List.mem_append_left _ h
    have hd : d ∈ ds ++ [d] := List.mem_append_right _ List.mem_cons_self
    have hshape : ((ds ++ [d]).flatMap (· ++ [[]])).dropLast = ds.flatMap (· ++ [[]]) ++ d := by
      rw [List.flatMap_append, List.flatMap_singleton, ← List.append_assoc, List.dropLast_concat]
    have hlast := workerDocuments_lines (hblank d hd) (hsentence d hd) [] []
    rw [List.append_nil] at hlast
    rw [hshape, workerDocuments_docs (fun d' h => hne d' (hds d' h)) (fun d' h => hblank d' (hds d' h))
      (fun d' h => hsentence d' (hds d' h)), hlast, List.dropLast_concat]
    exact List.append_nil _

end Worker

/-- Of a capture of two packets or more, the last burst never reaches the instances: the worker
over the corpus of the capture finds the documents of the others. -/
theorem last_burst_lost {packetDirection : List ℤ} {packets : List Bytes} {payloadLen : ℕ}
    (hlen : packetDirection.length = packets.length) (hpay : 2 ≤ payloadLen)
    (hbytes : ∀ p ∈ packets, 2 ≤ p.length) (htwo : 2 ≤ packets.length) {sentence : Text → List ℕ}
    (hsentence : ∀ q : Bytes, 2 ≤ q.length → sentence (byteLine q) ≠ []) :
    ∃ corpus, getBurstFeature packetDirection packets payloadLen = some corpus ∧
      workerDocuments sentence [] (handledLines corpus 0 (countLines corpus)) =
        (bursts (packetDirection.zip (packets.map (·.take payloadLen)))).dropLast.map
          fun b => (halves b).map fun q => sentence (byteLine q) := by
  obtain ⟨hcorpus, hlong⟩ := getBurstFeature_eq hlen hpay hbytes htwo
  obtain ⟨bs, hbs⟩ : ∃ bs, bs = bursts (packetDirection.zip (packets.map (·.take payloadLen))) := ⟨_, rfl⟩
  rw [← hbs] at hcorpus hlong ⊢
  have hbreak : ∀ d ∈ bs.map (fun b => (halves b).map byteLine), ∀ line ∈ d,
      '\n' ∉ line ∧ '\r' ∉ line := by
    intro d hd line hline
    obtain ⟨q, -, rfl⟩ := burst_lines hlong d hd line hline
    constructor
    · exact break_not_mem_byteLine q (by decide) (by decide)
    · exact break_not_mem_byteLine q (by decide) (by decide)
  have hblank : ∀ d ∈ bs.map (fun b => (halves b).map byteLine), ∀ line ∈ d, Text.strip line ≠ [] := by
    intro d hd line hline
    obtain ⟨q, hq, rfl⟩ := burst_lines hlong d hd line hline
    exact strip_byteLine hq
  have hsome : ∀ d ∈ bs.map (fun b => (halves b).map byteLine), ∀ line ∈ d, sentence line ≠ [] := by
    intro d hd line hline
    obtain ⟨q, hq, rfl⟩ := burst_lines hlong d hd line hline
    exact hsentence q hq
  have hworker := workerDocuments_corpus (burst_ne_nil hlong) hbreak hblank hsome
  rw [List.flatMap_map, ← List.map_dropLast, List.map_map] at hworker
  refine ⟨_, hcorpus, hworker.trans ?_⟩
  apply List.map_congr_left
  intro b hb
  show ((halves b).map byteLine).map sentence = _
  rw [List.map_map]
  rfl

theorem last_burst_lost_sample : ∃ corpus,
    getBurstFeature [1, 1, -1] [[0x45, 0x00], [0x28, 0x29], [0xff, 0x01]] 64 = some corpus ∧
      (workerDocuments (·.map Char.toNat) [] (handledLines corpus 0 (countLines corpus))).length = 1 := by
  have hsentence : ∀ q : Bytes, 2 ≤ q.length → (byteLine q).map Char.toNat ≠ [] := by
    intro q hq hnil
    apply strip_byteLine hq
    rw [List.map_eq_nil_iff.mp hnil]
    rfl
  have hbytes : ∀ p ∈ ([[0x45, 0x00], [0x28, 0x29], [0xff, 0x01]] : List Bytes), 2 ≤ p.length := by simp
  have hlen : ([1, 1, -1] : List ℤ).length =
      ([[0x45, 0x00], [0x28, 0x29], [0xff, 0x01]] : List Bytes).length := rfl
  obtain ⟨corpus, hcorpus, hworker⟩ :=
    last_burst_lost hlen (by decide : 2 ≤ 64) hbytes (by decide) hsentence
  refine ⟨corpus, hcorpus, ?_⟩
  rw [hworker, List.length_map]
  rfl

end Aegis.EtBert
