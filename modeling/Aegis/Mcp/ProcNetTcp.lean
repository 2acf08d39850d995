import Aegis.Lib.Fields
import Aegis.Lib.Inet

/-! The content of `/proc/net/tcp` as the kernel prints it: a header and one row for
each socket. -/
namespace Aegis.Mcp

structure Endpoint where
  addr : Inet.IPv4
  port : UInt16
  deriving DecidableEq

/-- A row. `extra` holds what an established socket has after its pointer. -/
structure Row where
  sl : ℕ
  loc : Endpoint
  rem : Endpoint
  st : UInt8
  txQueue : UInt32
  rxQueue : UInt32
  timerActive : UInt8
  tmWhen : UInt64
  retrnsmt : UInt32
  uid : UInt32
  timeout : ℤ
  inode : UInt64
  ref : ℤ
  sk : UInt64
  extra : List ℤ

/-- The line is filled up with blanks. -/
def lineWidth : ℕ := 149

def header : Bytes :=
  (ascii ("  sl  local_address rem_address   st tx_queue rx_queue tr tm->when retrnsmt" ++
    "   uid  timeout inode")).rightpad lineWidth 32

def Endpoint.text (e : Endpoint) : Bytes :=
  Printf.hex 8 e.addr.sAddr.toNat ++ ascii ":" ++ Printf.hex 4 e.port.toNat

namespace Row
variable (r : Row)

/-- The columns from `retrnsmt` on, `"%08X %5u %8d %lu %d %pK .."`. -/
def lastFields : List Bytes :=
  [Printf.hex 8 r.retrnsmt.toNat, Printf.padded 5 (Printf.decimal r.uid.toNat),
    Printf.padded 8 (Printf.signed r.timeout), Printf.decimal r.inode.toNat,
    Printf.signed r.ref, Printf.pointer r.sk.toNat] ++ r.extra.map Printf.signed

/-- The columns; single blanks stand between them. -/
def fields : List Bytes :=
  [Printf.padded 4 (Printf.decimal r.sl) ++ ascii ":", r.loc.text, r.rem.text,
    Printf.hex 2 r.st.toNat, Printf.hex 8 r.txQueue.toNat ++ ascii ":" ++ Printf.hex 8 r.rxQueue.toNat,
    Printf.hex 2 r.timerActive.toNat ++ ascii ":" ++ Printf.hex 8 r.tmWhen.toNat] ++ r.lastFields

def text : Bytes := ([32].intercalate r.fields).rightpad lineWidth 32

def HasEndpoint (ip : Inet.IPv4) (port : ℕ) : Prop :=
  (r.loc.addr = ip ∧ r.loc.port.toNat = port) ∨ (r.rem.addr = ip ∧ r.rem.port.toNat = port)

instance (ip : Inet.IPv4) (port : ℕ) : Decidable (r.HasEndpoint ip port) := by
  unfold HasEndpoint
  infer_instance

/-- Four digits of the port stand after a colon of the row: in an endpoint, or at the
start of the receive queue or of the timer. -/
def Carries (port : ℕ) : Prop :=
  r.loc.port.toNat = port ∨ r.rem.port.toNat = port ∨
    (Printf.hex 8 r.rxQueue.toNat).take 4 = Printf.hex 4 port ∨
    (Printf.hex 8 r.tmWhen.toNat).take 4 = Printf.hex 4 port

instance (port : ℕ) : Decidable (r.Carries port) := by
  unfold Carries
  infer_instance

theorem HasEndpoint.carries {r : Row} {ip : Inet.IPv4} {port : ℕ} (h : r.HasEndpoint ip port) :
    r.Carries port := by
  rcases h with h | h
  · exact Or.inl h.2
  · exact Or.inr (Or.inl h.2)

/-! The fields of a row at its colons. -/

/-- No colon and no line break, but blanks are allowed. -/
def Quiet (s : Bytes) : Prop := 58 ∉ s ∧ 10 ∉ s

theorem quiet_append {s t : Bytes} (hs : Quiet s) (ht : Quiet t) : Quiet (s ++ t) := by
  unfold Quiet
  rw [List.mem_append, List.mem_append, not_or, not_or]
  exact ⟨⟨hs.1, ht.1⟩, hs.2, ht.2⟩

theorem quiet_cons {s : Bytes} (hs : Quiet s) : Quiet (32 :: s) :=
  quiet_append (s := [32]) (by unfold Quiet; decide) hs

theorem quiet_replicate (n : ℕ) : Quiet (List.replicate n 32) := by
  unfold Quiet
  constructor
  · intro h
    exact absurd (List.eq_of_mem_replicate h) (by decide)
  · intro h
    exact absurd (List.eq_of_mem_replicate h) (by decide)

theorem quiet_of_plain {s : Bytes} (h : Printf.Plain s) : Quiet s := by
  constructor
  · intro hmem
    exact (h 58 hmem).2 rfl
  · intro hmem
    exact absurd (h 10 hmem).1 (by decide)

theorem quiet_padded (n : ℕ) {s : Bytes} (h : Printf.Plain s) : Quiet (Printf.padded n s) :=
  quiet_append (quiet_replicate _) (quiet_of_plain h)

theorem quiet_intercalate {fs : List Bytes} (h : ∀ f ∈ fs, Quiet f) :
    Quiet ([32].intercalate fs) :=
  ⟨Fields.not_mem_intercalate (by decide) (fun f hf => (h f hf).1),
    Fields.not_mem_intercalate (by decide) (fun f hf => (h f hf).2)⟩

theorem quiet_lastFields : ∀ f ∈ r.lastFields, Quiet f := by
  unfold lastFields
  intro f hf
  rw [List.mem_append] at hf
  rcases hf with hf | hf
  · simp only [List.mem_cons, List.not_mem_nil, or_false] at hf
    rcases hf with rfl | rfl | rfl | rfl | rfl | rfl
    · exact quiet_of_plain (Printf.plain_hex _ _)
    · exact quiet_padded _ (Printf.plain_decimal _)
    · exact quiet_padded _ (Printf.plain_signed _)
    · exact quiet_of_plain (Printf.plain_decimal _)
    · exact quiet_of_plain (Printf.plain_signed _)
    · exact quiet_of_plain (Printf.plain_pointer _)
  · obtain ⟨z, -, rfl⟩ := List.mem_map.mp hf
    exact quiet_of_plain (Printf.plain_signed z)

/-- What stands after the last colon. -/
def lastSegment : Bytes :=
  Printf.hex 8 r.tmWhen.toNat ++ 32 :: ([32].intercalate r.lastFields ++
    List.replicate (lineWidth - ([32].intercalate r.fields).length) 32)

def segments : List Bytes :=
  [Printf.padded 4 (Printf.decimal r.sl), 32 :: Printf.hex 8 r.loc.addr.sAddr.toNat,
    Printf.hex 4 r.loc.port.toNat ++ 32 :: Printf.hex 8 r.rem.addr.sAddr.toNat,
    Printf.hex 4 r.rem.port.toNat ++ 32 :: (Printf.hex 2 r.st.toNat ++ 32 :: Printf.hex 8 r.txQueue.toNat),
    Printf.hex 8 r.rxQueue.toNat ++ 32 :: Printf.hex 2 r.timerActive.toNat, r.lastSegment]

theorem text_eq_segments : r.text = [58].intercalate r.segments := by
  have hcolon : ascii ":" = [58] := rfl
  have hlast : ∃ f fs, r.lastFields = f :: fs := ⟨_, _, rfl⟩
  obtain ⟨f, fs, hfs⟩ := hlast
  unfold text List.rightpad segments lastSegment
  set blanks := List.replicate (lineWidth - ([32].intercalate r.fields).length) (32 : UInt8)
  unfold fields Endpoint.text
  simp only [hcolon, hfs, List.cons_append, List.nil_append, List.intercalate_cons_cons,
    List.intercalate_singleton, List.append_assoc]

theorem quiet_segments : ∀ s ∈ r.segments, Quiet s := by
  have hhex : ∀ w n, Quiet (Printf.hex w n) := fun w n => quiet_of_plain (Printf.plain_hex w n)
  unfold segments lastSegment
  intro s hs
  simp only [List.mem_cons, List.not_mem_nil, or_false] at hs
  rcases hs with rfl | rfl | rfl | rfl | rfl | rfl
  · exact quiet_padded _ (Printf.plain_decimal _)
  · exact quiet_cons (hhex _ _)
  · exact quiet_append (hhex _ _) (quiet_cons (hhex _ _))
  · exact quiet_append (hhex _ _) (quiet_cons (quiet_append (hhex _ _) (quiet_cons (hhex _ _))))
  · exact quiet_append (hhex _ _) (quiet_cons (hhex _ _))
  · exact quiet_append (hhex _ _) (quiet_cons
      (quiet_append (quiet_intercalate r.quiet_lastFields) (quiet_replicate _)))

theorem splitOn_text : r.text.splitOn 58 = r.segments := by
  rw [text_eq_segments]
  exact List.splitOn_intercalate 58 (fun s hs => (r.quiet_segments s hs).1) (List.cons_ne_nil _ _)

theorem newline_notMem_text : 10 ∉ r.text := by
  rw [text_eq_segments]
  exact Fields.not_mem_intercalate (by decide) (fun s hs => (r.quiet_segments s hs).2)

/-! The words of a row. Each of the two queue columns and the two timer columns is one
word, because a colon stands between them. -/

def tokens : List Bytes :=
  [Printf.decimal r.sl ++ ascii ":", r.loc.text, r.rem.text, Printf.hex 2 r.st.toNat,
    Printf.hex 8 r.txQueue.toNat ++ ascii ":" ++ Printf.hex 8 r.rxQueue.toNat,
    Printf.hex 2 r.timerActive.toNat ++ ascii ":" ++ Printf.hex 8 r.tmWhen.toNat,
    Printf.hex 8 r.retrnsmt.toNat, Printf.decimal r.uid.toNat, Printf.signed r.timeout,
    Printf.decimal r.inode.toNat, Printf.signed r.ref, Printf.pointer r.sk.toNat] ++
    r.extra.map Printf.signed

theorem words_plain {s : Bytes} (hne : s ≠ []) (h : Printf.Plain s) : Fields.words s = [s] :=
  Fields.words_visible hne (fun b hb => (h b hb).1)

theorem words_padded (n : ℕ) {s : Bytes} (hne : s ≠ []) (h : Printf.Plain s) :
    Fields.words (Printf.padded n s) = [s] := by
  unfold Printf.padded List.leftpad
  rw [Fields.words_blanks, words_plain hne h]

theorem words_pair {s t : Bytes} (hne : s ≠ []) (hs : Printf.Plain s) (ht : Printf.Plain t) :
    Fields.words (s ++ ascii ":" ++ t) = [s ++ ascii ":" ++ t] := by
  apply Fields.words_visible
  · simp [hne]
  · intro b hb
    rw [List.mem_append, List.mem_append] at hb
    rcases hb with (hb | hb) | hb
    · exact (hs b hb).1
    · rw [List.mem_singleton.mp hb]
      decide
    · exact (ht b hb).1

theorem words_text : Fields.words r.text = r.tokens := by
  have hhex : ∀ w n, Printf.Plain (Printf.hex w n) := Printf.plain_hex
  have hdec : ∀ n, Printf.decimal n ≠ [] := Printf.number_ne_nil 10
  have hsl : Fields.words (Printf.padded 4 (Printf.decimal r.sl) ++ ascii ":") =
      [Printf.decimal r.sl ++ ascii ":"] := by
    unfold Printf.padded List.leftpad
    rw [List.append_assoc, Fields.words_blanks]
    have hpair := words_pair (t := []) (hdec r.sl) (Printf.plain_decimal _)
      (fun b hb => absurd hb List.not_mem_nil)
    rwa [List.append_nil] at hpair
  have hextra : ∀ zs : List ℤ, (zs.map Printf.signed).flatMap Fields.words = zs.map Printf.signed := by
    intro zs
    induction zs with
    | nil => rfl
    | cons z zs ih =>
      rw [List.map_cons, List.flatMap_cons, ih, words_plain (Printf.signed_ne_nil z) (Printf.plain_signed z)]
      rfl
  unfold text List.rightpad
  rw [Fields.words_append_blanks, Fields.words_intercalate]
  unfold fields lastFields tokens Endpoint.text
  simp only [List.cons_append, List.nil_append, List.flatMap_cons, hextra, hsl]
  rw [words_pair (Printf.hex_ne_nil (by decide) _) (hhex _ _) (hhex _ _),
    words_pair (Printf.hex_ne_nil (by decide) _) (hhex _ _) (hhex _ _),
    words_plain (Printf.hex_ne_nil (by decide) _) (hhex 2 _),
    words_pair (Printf.hex_ne_nil (by decide) _) (hhex _ _) (hhex _ _),
    words_pair (Printf.hex_ne_nil (by decide) _) (hhex _ _) (hhex _ _),
    words_plain (Printf.hex_ne_nil (by decide) _) (hhex 8 _),
    words_padded 5 (hdec _) (Printf.plain_decimal _),
    words_padded 8 (Printf.signed_ne_nil _) (Printf.plain_signed _),
    words_plain (hdec _) (Printf.plain_decimal _),
    words_plain (Printf.signed_ne_nil _) (Printf.plain_signed _),
    words_plain (Printf.pointer_ne_nil _) (Printf.plain_pointer _)]
  rfl

end Row

end Aegis.Mcp
