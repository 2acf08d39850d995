import Aegis.Mcp.NetTools

/-! What the lookup makes of the selected rows: which column it takes for the inode, and
which of several selected rows it follows. -/
namespace Aegis.Mcp.NetTools

theorem selectLine_word {needle : Bytes} {lines : List Bytes} {i : ℕ} {inode : Bytes}
    (h : selectLine needle lines = some (i, inode)) :
    ∃ line, lines[i]? = some line ∧ (Fields.words line)[10]? = some inode := by
  induction lines generalizing i with
  | nil => cases h
  | cons line lines ih =>
    have hlater : (selectLine needle lines).map (Prod.map (· + 1) id) = some (i, inode) →
        ∃ l, (line :: lines)[i]? = some l ∧ (Fields.words l)[10]? = some inode := by
      intro hmap
      obtain ⟨⟨k, inode'⟩, hrest, heq⟩ := Option.map_eq_some_iff.mp hmap
      cases heq
      exact ih hrest
    rw [selectLine] at h
    split_ifs at h with hin
    · cases hword : (Fields.words line)[10]? with
      | none =>
        rw [hword] at h
        exact hlater h
      | some w =>
        rw [hword] at h
        cases h
        exact ⟨line, rfl, hword⟩
    · exact hlater h

/-- When the loop stops at the row, it takes the row's inode. -/
def TakesInode (r : Row) : Prop :=
  ∀ (ip : Bytes) (port : ℤ) (tcpFile : Bytes) (i : ℕ) (inode : Bytes),
    (Fields.lines tcpFile)[i]? = some r.text → selectRow ip port tcpFile = some (i, inode) →
      inode = Printf.decimal r.inode.toNat

/-- Two columns of the header are one word in a row, so the eleventh word is the
reference count after the inode. -/
theorem takesInode_iff (r : Row) : TakesInode r ↔ r.ref = r.inode.toNat := by
  rw [← Printf.signed_eq_decimal_iff]
  have hword : (Fields.words r.text)[10]? = some (Printf.signed r.ref) := by
    rw [r.words_text]
    rfl
  constructor
  · intro h
    have hport : r.loc.port.toNat < 65536 := r.loc.port.toNat_lt
    have hin := (needle_infix_iff r hport).mpr (Or.inl rfl)
    have hsel : selectRow [] r.loc.port.toNat (content [r]) = some (1, Printf.signed r.ref) := by
      rw [selectRow_rows, List.map_singleton, selectLine, if_pos hin, hword]
      rfl
    have hline : (Fields.lines (content [r]))[1]? = some r.text := by
      rw [lines_content]
      rfl
    exact h _ _ _ _ _ hline hsel
  · intro href ip port tcpFile i inode hline hsel
    obtain ⟨line, hstop, htaken⟩ := selectLine_word hsel
    rw [hline] at hstop
    cases hstop
    rw [hword] at htaken
    rw [← Option.some.inj htaken, href]

/-- A row of an open socket: its inode is 33333, and 1 is taken for it. -/
theorem ref_taken_for_inode : ¬ TakesInode (sampleRow ⟨⟨1, 2, 3, 4⟩, 443⟩) := by
  rw [takesInode_iff]
  decide

/-! Several selected rows. -/

/-- What the loop would take from the selected lines if it went on. -/
def selectedInodes (port : ℤ) (proc : Proc) : List Bytes :=
  match proc.netTcp with
  | none => []
  | some tcpFile =>
    ((Fields.lines tcpFile).filter fun line => ascii ":" ++ hexPort port <:+: line).filterMap
      fun line => (Fields.words line)[10]?

theorem selectLine_head (needle : Bytes) (lines : List Bytes) :
    (selectLine needle lines).map Prod.snd = ((lines.filter fun line => needle <:+: line).filterMap
      fun line => (Fields.words line)[10]?).head? := by
  induction lines with
  | nil => rfl
  | cons line lines ih =>
    have hlater : ((selectLine needle lines).map (Prod.map (· + 1) id)).map Prod.snd =
        (selectLine needle lines).map Prod.snd := by
      rw [Option.map_map]
      rfl
    rw [selectLine, List.filter_cons]
    by_cases hin : needle <:+: line
    · rw [if_pos hin, if_pos (decide_eq_true hin), List.filterMap_cons]
      cases (Fields.words line)[10]? with
      | none => exact hlater.trans ih
      | some w => rfl
    · rw [if_neg hin, if_neg (by simpa using hin)]
      exact hlater.trans ih

/-- The iteration over the directory comes to a link to the socket. -/
def Linked (inode : Bytes) (fds : List FdEntry) : Prop :=
  ∃ pre post, fds = pre ++ .symlink (ascii "socket:[" ++ inode ++ ascii "]") :: post ∧ .throws ∉ pre

/-- A directory of `/proc` that is taken for a process, by the first character of its name. -/
def ProcEntry.Searched (entry : ProcEntry) : Prop :=
  entry.isDirectory ∧ entry.name.head?.any (fun b => 48 ≤ b && b ≤ 57)

/-- A process directory with a link to the socket. -/
def Holds (inode : Bytes) (entry : ProcEntry) (pid : ℤ) : Prop :=
  ProcEntry.Searched entry ∧ (∃ fds, entry.fd = .entries fds ∧ Linked inode fds) ∧
    stoi entry.name = some pid

/-- The search goes no further than this, whatever it is for. -/
def ProcItem.Raises : ProcItem → Prop
  | .throws _ => True
  | .entry entry => ProcEntry.Searched entry ∧ ∃ e, entry.fd = .throws e

/-- An inode that a process holds. -/
def Held (proc : Proc) (inode : Bytes) : Prop :=
  inode ≠ ascii "0" ∧ ∃ entry, .entry entry ∈ proc.items ∧ ∃ pid, Holds inode entry pid

/-- An inode that a process holds, before which nothing raises an exception. -/
def Findable (proc : Proc) (inode : Bytes) : Prop :=
  inode ≠ ascii "0" ∧ ∃ pre entry post, proc.items = pre ++ .entry entry :: post ∧
    (∃ pid, Holds inode entry pid) ∧ ∀ item ∈ pre, ¬ ProcItem.Raises item

/-- If one of the selected rows has an inode that is held, the result is the PID of a
process that holds such an inode. -/
def FindsHolder (ip : Bytes) (port : ℤ) (proc : Proc) : Prop :=
  (∃ inode ∈ selectedInodes port proc, Held proc inode) →
    ∃ pid, parseProcNetTcp ip port proc = .ok pid ∧ pid ≠ -1 ∧
      ∃ inode ∈ selectedInodes port proc, inode ≠ ascii "0" ∧
        ∃ entry, .entry entry ∈ proc.items ∧ Holds inode entry pid

theorem linked_cons (inode : Bytes) (fd : FdEntry) (fds : List FdEntry) :
    Linked inode (fd :: fds) ↔
      fd = .symlink (ascii "socket:[" ++ inode ++ ascii "]") ∨ (fd ≠ .throws ∧ Linked inode fds) := by
  constructor
  · intro h
    obtain ⟨pre, post, hfds, hpre⟩ := h
    cases pre with
    | nil =>
      left
      exact (List.cons.inj hfds).1
    | cons x pre =>
      right
      obtain ⟨rfl, rfl⟩ := List.cons.inj hfds
      rw [List.mem_cons, not_or] at hpre
      exact ⟨Ne.symm hpre.1, pre, post, rfl, hpre.2⟩
  · intro h
    rcases h with rfl | ⟨hfd, pre, post, rfl, hpre⟩
    · exact ⟨[], fds, rfl, List.not_mem_nil⟩
    · refine ⟨fd :: pre, post, rfl, ?_⟩
      rw [List.mem_cons, not_or]
      exact ⟨Ne.symm hfd, hpre⟩

theorem searchFds_eq_some_iff {inode name : Bytes} {fds : List FdEntry} {pid : ℤ} :
    searchFds inode name fds = some pid ↔ Linked inode fds ∧ stoi name = some pid := by
  induction fds with
  | nil =>
    refine iff_of_false (fun h => by cases h) (fun h => ?_)
    obtain ⟨⟨pre, post, hfds, -⟩, -⟩ := h
    simp at hfds
  | cons fd fds ih =>
    rw [linked_cons]
    cases fd with
    | symlink target =>
      rw [searchFds]
      split_ifs with htarget
      · rw [htarget]
        simp
      · have hne : FdEntry.symlink target ≠ .symlink (ascii "socket:[" ++ inode ++ ascii "]") := by
          intro heq
          exact htarget (FdEntry.symlink.inj heq)
        rw [ih, or_iff_right hne]
        simp
    | other =>
      rw [searchFds, ih]
      simp
    | throws =>
      rw [searchFds]
      simp

theorem stoi_ne_neg_one {name : Bytes} {pid : ℤ} (h : stoi name = some pid) : pid ≠ -1 := by
  unfold stoi at h
  dsimp only at h
  split_ifs at h
  have hpid := Option.some.inj h
  omega

/-- What the search makes of one item: an exception, a PID, or nothing. -/
def ProcItem.search (inode : Bytes) : ProcItem → Option (Except FilesystemError ℤ)
  | .throws e => some (.error e)
  | .entry entry =>
    if entry.isDirectory && entry.name.head?.any (fun b => 48 ≤ b && b ≤ 57) then
      match entry.fd with
      | .missing => none
      | .throws e => some (.error e)
      | .entries fds => (searchFds inode entry.name fds).map .ok
    else none

theorem searchProc_cons (inode : Bytes) (item : ProcItem) (rest : List ProcItem) :
    searchProc inode (item :: rest) = (ProcItem.search inode item).getD (searchProc inode rest) := by
  cases item with
  | throws e => rfl
  | entry entry =>
    rw [searchProc, ProcItem.search]
    cases entry.isDirectory with
    | false => rfl
    | true =>
      cases entry.name.head?.any (fun b => 48 ≤ b && b ≤ 57) with
      | false => rfl
      | true =>
        cases entry.fd with
        | missing => rfl
        | throws e => rfl
        | entries fds => cases hsearch : searchFds inode entry.name fds <;> simp [hsearch]

theorem raises_iff {inode : Bytes} {item : ProcItem} :
    ProcItem.Raises item ↔ ∃ e, ProcItem.search inode item = some (.error e) := by
  cases item with
  | throws e => exact iff_of_true trivial ⟨e, rfl⟩
  | entry entry =>
    unfold ProcItem.Raises ProcItem.search ProcEntry.Searched
    dsimp only
    rw [← Bool.and_eq_true]
    split_ifs with hsearched
    · rw [and_iff_right hsearched]
      cases entry.fd with
      | missing => simp
      | throws e => simp
      | entries fds => cases searchFds inode entry.name fds <;> simp
    · simp [hsearched]

theorem holds_iff {inode : Bytes} {entry : ProcEntry} {pid : ℤ} :
    Holds inode entry pid ↔ ProcItem.search inode (.entry entry) = some (.ok pid) := by
  unfold Holds ProcItem.search ProcEntry.Searched
  dsimp only
  rw [← Bool.and_eq_true]
  split_ifs with hsearched
  · rw [and_iff_right hsearched]
    cases entry.fd with
    | missing => simp
    | throws e => simp
    | entries fds => simp [searchFds_eq_some_iff, and_comm]
  · simp [hsearched]

/-- The search ends at the first item that raises or holds. -/
theorem searchProc_eq (inode : Bytes) (items : List ProcItem) :
    searchProc inode items = (items.findSome? (ProcItem.search inode)).getD (.ok (-1)) := by
  induction items with
  | nil => rfl
  | cons item rest ih =>
    rw [searchProc_cons, List.findSome?_cons, ih]
    cases ProcItem.search inode item <;> rfl

theorem holds_of_search {inode : Bytes} {item : ProcItem} {pid : ℤ}
    (h : ProcItem.search inode item = some (.ok pid)) :
    ∃ entry, item = .entry entry ∧ Holds inode entry pid := by
  cases item with
  | throws e => cases h
  | entry entry => exact ⟨entry, rfl, holds_iff.mpr h⟩

/-- A PID is the result exactly where a holder comes before everything that raises. -/
theorem searchProc_found_iff (inode : Bytes) (items : List ProcItem) :
    (∃ pid, searchProc inode items = .ok pid ∧ pid ≠ -1) ↔
      ∃ pre entry post, items = pre ++ .entry entry :: post ∧ (∃ pid, Holds inode entry pid) ∧
        ∀ item ∈ pre, ¬ ProcItem.Raises item := by
  rw [searchProc_eq]
  constructor
  · rintro ⟨pid, hpid, hne⟩
    cases hfirst : items.findSome? (ProcItem.search inode) with
    | none =>
      rw [hfirst] at hpid
      exact absurd (Except.ok.inj hpid).symm hne
    | some found =>
      rw [hfirst, Option.getD_some] at hpid
      obtain ⟨pre, item, post, hitems, hitem, hpre⟩ := List.findSome?_eq_some_iff.mp hfirst
      rw [hpid] at hitem
      obtain ⟨entry, rfl, hholds⟩ := holds_of_search hitem
      refine ⟨pre, entry, post, hitems, ⟨pid, hholds⟩, fun item hitem hraises => ?_⟩
      obtain ⟨e, he⟩ := raises_iff.mp hraises
      rw [hpre item hitem] at he
      cases he
  · rintro ⟨pre, entry, post, rfl, ⟨pid, hholds⟩, hpre⟩
    have hlast := holds_iff.mp hholds
    cases hfirst : pre.findSome? (ProcItem.search inode) with
    | none =>
      refine ⟨pid, ?_, stoi_ne_neg_one hholds.2.2⟩
      rw [List.findSome?_append, hfirst, List.findSome?_cons, hlast]
      rfl
    | some found =>
      obtain ⟨item, hitem, hfound⟩ := List.exists_of_findSome?_eq_some hfirst
      cases found with
      | error e => exact absurd (raises_iff.mpr ⟨e, hfound⟩) (hpre item hitem)
      | ok pid' =>
        obtain ⟨entry', -, hholds'⟩ := holds_of_search hfound
        refine ⟨pid', ?_, stoi_ne_neg_one hholds'.2.2⟩
        rw [List.findSome?_append, hfirst]
        rfl

/-- A PID that is found is that of a holder. -/
theorem holds_of_searchProc {inode : Bytes} {items : List ProcItem} {pid : ℤ}
    (h : searchProc inode items = .ok pid) (hne : pid ≠ -1) :
    ∃ entry, .entry entry ∈ items ∧ Holds inode entry pid := by
  rw [searchProc_eq] at h
  cases hfirst : items.findSome? (ProcItem.search inode) with
  | none =>
    rw [hfirst] at h
    exact absurd (Except.ok.inj h).symm hne
  | some found =>
    rw [hfirst, Option.getD_some] at h
    obtain ⟨item, hitem, hfound⟩ := List.exists_of_findSome?_eq_some hfirst
    rw [h] at hfound
    obtain ⟨entry, rfl, hholds⟩ := holds_of_search hfound
    exact ⟨entry, hitem, hholds⟩

/-- An exception of the search is one of `/proc`. -/
theorem mem_of_searchProc_error {inode : Bytes} {items : List ProcItem} {e : FilesystemError}
    (h : searchProc inode items = .error e) :
    .throws e ∈ items ∨ ∃ entry, .entry entry ∈ items ∧ entry.fd = .throws e := by
  rw [searchProc_eq] at h
  cases hfirst : items.findSome? (ProcItem.search inode) with
  | none =>
    rw [hfirst] at h
    cases h
  | some found =>
    rw [hfirst, Option.getD_some] at h
    obtain ⟨item, hitem, hfound⟩ := List.exists_of_findSome?_eq_some hfirst
    rw [h] at hfound
    cases item with
    | throws e' =>
      cases hfound
      exact Or.inl hitem
    | entry entry =>
      refine Or.inr ⟨entry, hitem, ?_⟩
      unfold ProcItem.search at hfound
      dsimp only at hfound
      split_ifs at hfound
      cases hfd : entry.fd with
      | missing =>
        rw [hfd] at hfound
        cases hfound
      | throws e' =>
        rw [hfd] at hfound
        cases hfound
        rfl
      | entries fds =>
        rw [hfd] at hfound
        obtain ⟨pid, -, hpid⟩ := Option.map_eq_some_iff.mp hfound
        cases hpid

theorem ne_nil_of_selected {port : ℤ} {proc : Proc} {inode : Bytes}
    (h : inode ∈ selectedInodes port proc) : inode ≠ [] := by
  unfold selectedInodes at h
  cases hfile : proc.netTcp with
  | none =>
    rw [hfile] at h
    exact absurd h List.not_mem_nil
  | some tcpFile =>
    rw [hfile] at h
    obtain ⟨line, -, hword⟩ := List.mem_filterMap.mp h
    have hmem := List.mem_of_getElem? hword
    unfold Fields.words at hmem
    simpa using (List.mem_filter.mp hmem).2

theorem parseProcNetTcp_eq (ip : Bytes) (port : ℤ) (proc : Proc) :
    parseProcNetTcp ip port proc = (selectedInodes port proc).head?.elim (.ok (-1)) fun inode =>
      if inode = ascii "0" then .ok (-1) else searchProc inode proc.items := by
  have hnil := @ne_nil_of_selected port proc
  unfold parseProcNetTcp selectedInodes at *
  cases hfile : proc.netTcp with
  | none => rfl
  | some tcpFile =>
    have hhead := selectLine_head (ascii ":" ++ hexPort port) (Fields.lines tcpFile)
    rw [hfile] at hnil
    dsimp only at hnil ⊢
    rw [← hhead]
    unfold selectRow
    cases hsel : selectLine (ascii ":" ++ hexPort port) (Fields.lines tcpFile) with
    | none => rfl
    | some stop =>
      rw [hsel] at hhead
      have hne : stop.2 ≠ [] := hnil (List.mem_of_head? hhead.symm)
      show (if stop.2 = [] ∨ stop.2 = ascii "0" then Except.ok (-1) else _) = _
      simp [hne]

/-- The lookup follows the first selected row only, and only up to an entry that raises. -/
theorem findsHolder_iff (ip : Bytes) (port : ℤ) (proc : Proc) :
    FindsHolder ip port proc ↔
      ((∃ inode ∈ selectedInodes port proc, Held proc inode) →
        ∃ inode, (selectedInodes port proc).head? = some inode ∧ Findable proc inode) := by
  unfold FindsHolder
  refine forall_congr' fun _ => ?_
  rw [parseProcNetTcp_eq]
  cases hhead : (selectedInodes port proc).head? with
  | none => simp
  | some inode =>
    have hmem := List.mem_of_head? hhead
    rw [Option.elim_some]
    constructor
    · rintro ⟨pid, hpid, hne, -⟩
      refine ⟨inode, rfl, ?_⟩
      split_ifs at hpid with hzero
      · exact absurd (Except.ok.inj hpid).symm hne
      · exact ⟨hzero, (searchProc_found_iff inode proc.items).mp ⟨pid, hpid, hne⟩⟩
    · rintro ⟨inode', heq, hzero, hfindable⟩
      cases heq
      obtain ⟨pid, hpid, hne⟩ := (searchProc_found_iff inode proc.items).mpr hfindable
      rw [if_neg hzero]
      exact ⟨pid, hpid, hne, inode, hmem, hzero, holds_of_searchProc hpid hne⟩

/-- Two rows of port 443: the column taken is 2 in the first and 1 in the second, and a
process has the link to 1. -/
def sampleProc : Proc where
  netTcp := some (content [{ sampleRow ⟨⟨5, 6, 7, 8⟩, 443⟩ with ref := 2 },
    sampleRow ⟨⟨1, 2, 3, 4⟩, 443⟩])
  items := [.entry ⟨ascii "812", true, .entries [.other, .symlink (ascii "socket:[1]")]⟩]

theorem later_row_hidden : ¬ FindsHolder (ascii "1.2.3.4") 443 sampleProc := by
  have hselected : selectedInodes 443 sampleProc = [ascii "2", ascii "1"] := by decide +kernel
  have hnone : parseProcNetTcp (ascii "1.2.3.4") 443 sampleProc = .ok (-1) := by decide +kernel
  have hheld : Held sampleProc (ascii "1") :=
    ⟨by decide, _, List.mem_singleton_self _, 812, ⟨rfl, by decide⟩, ⟨_, rfl, [.other], [], rfl, by simp⟩,
      by decide +kernel⟩
  intro h
  have hmem : ascii "1" ∈ selectedInodes 443 sampleProc := by simp [hselected]
  obtain ⟨pid, hpid, hne, -⟩ := h ⟨ascii "1", hmem, hheld⟩
  rw [hnone] at hpid
  exact hne (Except.ok.inj hpid).symm

end Aegis.Mcp.NetTools
