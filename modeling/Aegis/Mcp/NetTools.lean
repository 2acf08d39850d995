import Aegis.Mcp.ProcNetTcp

/-! `get_pid_by_connection`, `net_tools.cpp`: which row of `/proc/net/tcp` is selected
for a connection, and the search for the process that holds its socket. -/
namespace Aegis.Mcp

/-- What the iteration over a `fd` directory meets. -/
inductive FdEntry where
  | symlink (target : Bytes)
  | other
  | throws

/-- An exception of `std::filesystem`. -/
structure FilesystemError where
  what : Bytes
  deriving DecidableEq

/-- The `fd` directory of an entry. Of an entry that may not be searched, `exists` cannot tell
whether there is one, and throws. -/
inductive FdDir where
  | missing
  | throws (e : FilesystemError)
  | entries (fds : List FdEntry)

structure ProcEntry where
  name : Bytes
  isDirectory : Bool
  fd : FdDir

/-- What the iteration over `/proc` meets: an entry, or an exception, its own or that of
`is_directory`. -/
inductive ProcItem where
  | entry (entry : ProcEntry)
  | throws (e : FilesystemError)

structure Proc where
  netTcp : Option Bytes
  items : List ProcItem

namespace NetTools

/-- `snprintf(hex_port, 8, "%04X", port)`. -/
def hexPort (port : ℤ) : Bytes := (Printf.hex 4 (port % 2 ^ 32).toNat).take 7

/-- The loop over the lines: the number of the line it stops at, and the eleventh
word of it. -/
def selectLine (needle : Bytes) : List Bytes → Option (ℕ × Bytes)
  | [] => none
  | line :: rest =>
    if needle <:+: line then
      match (Fields.words line)[10]? with
      | some inode => some (0, inode)
      | none => (selectLine needle rest).map (Prod.map (· + 1) id)
    else (selectLine needle rest).map (Prod.map (· + 1) id)

/-- The line the port selects; the address takes no part. -/
def selectRow (_ip : Bytes) (port : ℤ) (tcpFile : Bytes) : Option (ℕ × Bytes) :=
  selectLine (ascii ":" ++ hexPort port) (Fields.lines tcpFile)

/-- `std::stoi` of a name that starts with a digit. -/
def stoi (s : Bytes) : Option ℤ :=
  let n : ℕ := (s.takeWhile (fun b => 48 ≤ b && b ≤ 57)).foldl (fun n b => 10 * n + (b.toNat - 48)) 0
  if n < 2 ^ 31 then some n else none

/-- The search of one `fd` directory; an exception ends it. -/
def searchFds (inode name : Bytes) : List FdEntry → Option ℤ
  | [] => none
  | .symlink target :: rest =>
    if target = ascii "socket:[" ++ inode ++ ascii "]" then stoi name
    else searchFds inode name rest
  | .other :: rest => searchFds inode name rest
  | .throws :: _ => none

/-- The search of `/proc`. The `try` block begins behind the test for the `fd` directory. -/
def searchProc (inode : Bytes) : List ProcItem → Except FilesystemError ℤ
  | [] => .ok (-1)
  | .throws e :: _ => .error e
  | .entry entry :: rest =>
    if !entry.isDirectory then searchProc inode rest
    else if !entry.name.head?.any (fun b => 48 ≤ b && b ≤ 57) then searchProc inode rest
    else match entry.fd with
      | .missing => searchProc inode rest
      | .throws e => .error e
      | .entries fds =>
        match searchFds inode entry.name fds with
        | some pid => .ok pid
        | none => searchProc inode rest

def parseProcNetTcp (ip : Bytes) (port : ℤ) (proc : Proc) : Except FilesystemError ℤ :=
  match proc.netTcp with
  | none => .ok (-1)
  | some tcpFile =>
    match selectRow ip port tcpFile with
    | none => .ok (-1)
    | some (_, targetInode) =>
      if targetInode = [] ∨ targetInode = ascii "0" then .ok (-1)
      else searchProc targetInode proc.items

/-- The content of `/proc/net/tcp` with the given rows. -/
def content (rows : List Row) : Bytes := Fields.unlines (header :: rows.map Row.text)

/-- The loop stops at no row but one of the connection, and at one of them if there
is any. Line 0 is the header. -/
def SelectsConnection (rows : List Row) (ip : Inet.IPv4) (port : ℕ) : Prop :=
  (∀ i inode, selectRow (Inet.inetNtop ip) port (content rows) = some (i, inode) →
    ∃ k row, i = k + 1 ∧ rows[k]? = some row ∧ row.HasEndpoint ip port) ∧
  ((∃ row ∈ rows, row.HasEndpoint ip port) →
    selectRow (Inet.inetNtop ip) port (content rows) ≠ none)

theorem hexPort_eq {port : ℕ} (h : port < 65536) : hexPort port = Printf.hex 4 port := by
  have hmod : ((port : ℤ) % 2 ^ 32).toNat = port := by omega
  have hlen : (Printf.hex 4 port).length = 4 := Printf.length_hex (by decide) (by omega)
  unfold hexPort
  rw [hmod]
  exact List.take_of_length_le (by omega)

theorem lines_content (rows : List Row) :
    Fields.lines (content rows) = header :: rows.map Row.text := by
  apply Fields.lines_unlines
  intro l hl
  rcases List.mem_cons.mp hl with rfl | hl
  · decide +kernel
  · obtain ⟨r, -, rfl⟩ := List.mem_map.mp hl
    exact r.newline_notMem_text

theorem prefix_append_iff {p s : Bytes} (h : p.length ≤ s.length) (t : Bytes) :
    p <+: s ++ t ↔ s.take p.length = p := by
  rw [List.prefix_iff_eq_take, List.take_append_of_le_length h]
  exact eq_comm

/-- Where the port can be found in a row: the colon is followed by an endpoint's port,
by the receive queue or by the timer; the address columns are no match. -/
theorem needle_infix_iff (r : Row) {port : ℕ} (h : port < 65536) :
    ascii ":" ++ hexPort port <:+: r.text ↔ r.Carries port := by
  have hplain := Printf.plain_hex 4 port
  have hlen : (Printf.hex 4 port).length = 4 := Printf.length_hex (by decide) (by omega)
  have hcolon : 58 ∉ Printf.hex 4 port := fun hmem => (hplain 58 hmem).2 rfl
  have hport : ∀ (p : UInt16) (t : Bytes),
      Printf.hex 4 port <+: Printf.hex 4 p.toNat ++ t ↔ p.toNat = port := by
    intro p t
    have hp : (Printf.hex 4 p.toNat).length = 4 := Printf.length_hex (by decide) p.toNat_lt
    rw [prefix_append_iff (by omega), hlen, List.take_of_length_le (by omega)]
    exact (Printf.hex_injective 4).eq_iff
  have hwide : ∀ (n : ℕ) (t : Bytes), Printf.hex 4 port <+: Printf.hex 8 n ++ t ↔
      (Printf.hex 8 n).take 4 = Printf.hex 4 port := by
    intro n t
    have hn := Printf.le_length_hex 8 n
    rw [prefix_append_iff (by omega), hlen]
  have hblank : ∀ t : Bytes, ¬ Printf.hex 4 port <+: 32 :: t := by
    intro t hstart
    have hhead := hstart.getElem (i := 0) (by omega)
    have hvisible := (hplain _ (List.getElem_mem (show 0 < (Printf.hex 4 port).length by omega))).1
    rw [hhead] at hvisible
    exact absurd hvisible (by simp)
  rw [hexPort_eq h]
  change 58 :: Printf.hex 4 port <:+: r.text ↔ _
  rw [Fields.cons_infix_iff hcolon, Row.splitOn_text]
  unfold Row.segments Row.lastSegment Row.Carries
  simp only [List.tail_cons, List.mem_cons, List.not_mem_nil, or_false, exists_eq_or_imp,
    exists_eq_left, hport, hwide, hblank, false_or]

theorem needle_not_infix_header (port : ℤ) : ¬ ascii ":" ++ hexPort port <:+: header := by
  intro hin
  have hcolon : 58 ∈ header := hin.subset (List.mem_append_left _ (by decide))
  exact absurd hcolon (by decide +kernel)

theorem selectLine_rows (rows : List Row) {port : ℕ} (h : port < 65536) :
    (selectLine (ascii ":" ++ hexPort port) (rows.map Row.text) = none ↔
      ∀ r ∈ rows, ¬ r.Carries port) ∧
    ∀ i inode, selectLine (ascii ":" ++ hexPort port) (rows.map Row.text) = some (i, inode) →
      ∃ pre r post, rows = pre ++ r :: post ∧ rows[i]? = some r ∧
        (∀ q ∈ pre, ¬ q.Carries port) ∧ r.Carries port := by
  induction rows with
  | nil => exact ⟨iff_of_true rfl (fun _ hr => absurd hr List.not_mem_nil), fun _ _ hsel => by cases hsel⟩
  | cons r rows ih =>
    obtain ⟨hnone, hsome⟩ := ih
    have hword : ∃ inode, (Fields.words r.text)[10]? = some inode := by
      rw [r.words_text]
      exact ⟨_, rfl⟩
    obtain ⟨inode, hinode⟩ := hword
    rw [List.map_cons, selectLine, hinode]
    by_cases hcarries : r.Carries port
    · rw [if_pos ((needle_infix_iff r h).mpr hcarries)]
      constructor
      · exact iff_of_false (Option.some_ne_none _) (fun hall => hall r List.mem_cons_self hcarries)
      · intro i inode' hsel
        cases hsel
        exact ⟨[], r, rows, rfl, rfl, fun q hq => absurd hq List.not_mem_nil, hcarries⟩
    · rw [if_neg (fun hin => hcarries ((needle_infix_iff r h).mp hin))]
      constructor
      · rw [Option.map_eq_none_iff, hnone, List.forall_mem_cons]
        exact (and_iff_right hcarries).symm
      · intro i inode' hsel
        obtain ⟨⟨k, inode₀⟩, hsel₀, heq⟩ := Option.map_eq_some_iff.mp hsel
        obtain ⟨pre, q, post, hrows, hstop, hpre, hq⟩ := hsome k inode₀ hsel₀
        cases heq
        have hsplit : r :: rows = (r :: pre) ++ q :: post := by simp [hrows]
        exact ⟨r :: pre, q, post, hsplit, hstop, List.forall_mem_cons.mpr ⟨hcarries, hpre⟩, hq⟩

theorem selectRow_rows (ip : Bytes) (rows : List Row) (port : ℤ) :
    selectRow ip port (content rows) =
      (selectLine (ascii ":" ++ hexPort port) (rows.map Row.text)).map (Prod.map (· + 1) id) := by
  unfold selectRow
  rw [lines_content, selectLine, if_neg (needle_not_infix_header port)]

theorem find?_carries {rows pre post : List Row} {row : Row} {port : ℕ}
    (hrows : rows = pre ++ row :: post) (hpre : ∀ q ∈ pre, ¬ q.Carries port)
    (hrow : row.Carries port) : rows.find? (fun q => q.Carries port) = some row := by
  rw [List.find?_eq_some_iff_append]
  refine ⟨decide_eq_true hrow, pre, post, hrows, ?_⟩
  intro q hq
  have hno := hpre q hq
  simp [hno]

/-- The loop selects the connection if and only if the first row that carries the port,
in whatever column, is one of the connection's. -/
theorem selectsConnection_iff (rows : List Row) (ip : Inet.IPv4) {port : ℕ}
    (hport : port ≤ 65535) :
    SelectsConnection rows ip port ↔
      ∀ pre row post, rows = pre ++ row :: post → (∀ q ∈ pre, ¬ q.Carries port) →
        row.Carries port → row.HasEndpoint ip port := by
  have h : port < 65536 := by omega
  obtain ⟨hnone, hsome⟩ := selectLine_rows rows h
  unfold SelectsConnection
  rw [selectRow_rows]
  constructor
  · intro hsel pre row post hrows hpre hrow
    cases hline : selectLine (ascii ":" ++ hexPort port) (rows.map Row.text) with
    | none =>
      have hmem : row ∈ rows := by
        rw [hrows]
        exact List.mem_append_right _ List.mem_cons_self
      exact absurd hrow (hnone.mp hline row hmem)
    | some stop =>
      obtain ⟨i, inode⟩ := stop
      obtain ⟨pre', row', post', hrows', hstop, hpre', hrow'⟩ := hsome i inode hline
      obtain ⟨k, found, hk, hfound, hend⟩ := hsel.1 (i + 1) inode (by rw [hline]; rfl)
      have hki : k = i := by omega
      rw [hki, hstop] at hfound
      -- both rows are the first that carries the port
      have hfirst := find?_carries hrows hpre hrow
      have hfirst' := find?_carries hrows' hpre' hrow'
      have hsame : row = row' := Option.some.inj (hfirst.symm.trans hfirst')
      rw [hsame, Option.some.inj hfound]
      exact hend
  · intro hfirst
    constructor
    · intro i inode hsel
      obtain ⟨⟨k, inode₀⟩, hline, heq⟩ := Option.map_eq_some_iff.mp hsel
      obtain ⟨pre, row, post, hrows, hstop, hpre, hrow⟩ := hsome k inode₀ hline
      cases heq
      exact ⟨k, row, rfl, hstop, hfirst pre row post hrows hpre hrow⟩
    · intro hend
      obtain ⟨row, hmem, hrow⟩ := hend
      intro hno
      have hall := hnone.mp (Option.map_eq_none_iff.mp hno)
      exact hall row hmem hrow.carries

/-- A row of 10.0.0.7 with the given remote endpoint, as a listing shows it. -/
def sampleRow (rem : Endpoint) : Row :=
  ⟨0, ⟨⟨10, 0, 0, 7⟩, 40000⟩, rem, 1, 0, 0, 0, 0, 0, 1000, 0, 33333, 1, 0, [20, 4, 30, 10, -1]⟩

/-- Asked for 1.2.3.4:443, the loop stops at a connection to 5.6.7.8:443. -/
theorem other_host_selected :
    ¬ SelectsConnection [sampleRow ⟨⟨5, 6, 7, 8⟩, 443⟩, sampleRow ⟨⟨1, 2, 3, 4⟩, 443⟩]
      ⟨1, 2, 3, 4⟩ 443 := by
  intro h
  have hsel : selectRow (Inet.inetNtop ⟨1, 2, 3, 4⟩) (443 : ℕ)
      (content [sampleRow ⟨⟨5, 6, 7, 8⟩, 443⟩, sampleRow ⟨⟨1, 2, 3, 4⟩, 443⟩]) =
        some (1, ascii "1") := by decide +kernel
  obtain ⟨k, row, hk, hrow, hend⟩ := h.1 1 _ hsel
  have hk0 : k = 0 := by omega
  rw [hk0] at hrow
  cases hrow
  exact absurd hend (by decide)

/-- A listing whose only row of port 443 is the connection's. -/
theorem selectsConnection_sample :
    SelectsConnection [sampleRow ⟨⟨1, 2, 3, 4⟩, 443⟩] ⟨1, 2, 3, 4⟩ 443 := by
  rw [selectsConnection_iff _ _ (by decide)]
  intro pre row post hrows _ _
  cases pre with
  | nil =>
    cases hrows
    decide
  | cons q pre =>
    simp at hrows

end NetTools

end Aegis.Mcp
