import Aegis.Lib.Printf
import Mathlib.Data.List.TakeWhile

/-! IPv4 addresses: the four bytes on the wire, the integer they are loaded as, and
the dotted-quad text of `inet_ntop` and `inet_pton`. -/
namespace Inet

/-- An address in network order. -/
structure IPv4 where
  a : UInt8
  b : UInt8
  c : UInt8
  d : UInt8
  deriving DecidableEq

/-- `s_addr`: the four bytes as a little-endian host loads them. -/
def IPv4.sAddr (x : IPv4) : UInt32 :=
  UInt32.ofNat (x.a.toNat + 256 * x.b.toNat + 65536 * x.c.toNat + 16777216 * x.d.toNat)

theorem IPv4.sAddr_injective : Function.Injective IPv4.sAddr := by
  rintro ⟨a, b, c, d⟩ ⟨a', b', c', d'⟩ h
  have hn := congrArg UInt32.toNat h
  simp only [IPv4.sAddr, UInt32.toNat_ofNat'] at hn
  have ha := a.toNat_lt; have hb := b.toNat_lt; have hc := c.toNat_lt; have hd := d.toNat_lt
  have ha' := a'.toNat_lt; have hb' := b'.toNat_lt; have hc' := c'.toNat_lt
  have hd' := d'.toNat_lt
  have e1 : a.toNat = a'.toNat := by omega
  have e2 : b.toNat = b'.toNat := by omega
  have e3 : c.toNat = c'.toNat := by omega
  have e4 : d.toNat = d'.toNat := by omega
  rw [UInt8.toNat_inj.mp e1, UInt8.toNat_inj.mp e2, UInt8.toNat_inj.mp e3, UInt8.toNat_inj.mp e4]

/-- `inet_ntop(AF_INET, ..)`. -/
def inetNtop (x : IPv4) : Bytes :=
  Printf.decimal x.a.toNat ++ ascii "." ++ Printf.decimal x.b.toNat ++ ascii "." ++
    Printf.decimal x.c.toNat ++ ascii "." ++ Printf.decimal x.d.toNat

/-- What a function that takes a `const char *` sees of a string. -/
def cString (s : Bytes) : Bytes := s.takeWhile (· ≠ 0)

/-- The octet being read: its value, whether a digit was seen, and how many octets
have been started. -/
structure Octet where
  value : ℕ
  sawDigit : Bool
  octets : ℕ
  deriving DecidableEq

def Octet.digit (o : Octet) (d : ℕ) : Option Octet :=
  let new := o.value * 10 + d
  if o.sawDigit && o.value = 0 then none
  else if 255 < new then none
  else if o.sawDigit then some { o with value := new }
  else if 4 < o.octets + 1 then none
  else some ⟨new, true, o.octets + 1⟩

/-- The reader of `inet_pton`: the finished octets and the current one. -/
structure Reader where
  done : List ℕ
  octet : Octet

def Reader.next (r : Reader) (ch : UInt8) : Option Reader :=
  if 48 ≤ ch ∧ ch ≤ 57 then
    (r.octet.digit (ch.toNat - 48)).map fun o => { r with octet := o }
  else if ch = 46 ∧ r.octet.sawDigit then
    if r.octet.octets = 4 then none
    else some ⟨r.done ++ [r.octet.value], ⟨0, false, r.octet.octets⟩⟩
  else none

def Reader.finish (r : Reader) : Option IPv4 :=
  if r.octet.octets < 4 then none
  else match r.done ++ [r.octet.value] with
    | [a, b, c, d] => some ⟨UInt8.ofNat a, UInt8.ofNat b, UInt8.ofNat c, UInt8.ofNat d⟩
    | _ => none

/-- `inet_pton(AF_INET, ..)` on the characters before the terminating NUL: four
decimal octets without leading zeros, separated by dots. -/
def inetPton (s : Bytes) : Option IPv4 :=
  ((cString s).foldlM Reader.next ⟨[], ⟨0, false, 0⟩⟩).bind Reader.finish

/-- The digits of an octet are read back, whatever octets came before. -/
theorem octet_decimal : ∀ n < 256, ∀ k < 4,
    ((Printf.decimal n).map (fun b => b.toNat - 48)).foldlM Octet.digit ⟨0, false, k⟩ =
      some ⟨n, true, k + 1⟩ := by decide +kernel

theorem reader_digits {ds : Bytes} (hds : ∀ b ∈ ds, 48 ≤ b ∧ b ≤ 57) (done : List ℕ) (o : Octet) :
    ds.foldlM Reader.next ⟨done, o⟩ =
      ((ds.map (fun b => b.toNat - 48)).foldlM Octet.digit o).map (Reader.mk done) := by
  induction ds generalizing o with
  | nil => rfl
  | cons b ds ih =>
    obtain ⟨hb, hds⟩ := List.forall_mem_cons.mp hds
    rw [List.foldlM_cons, List.map_cons, List.foldlM_cons, Reader.next, if_pos hb]
    cases o.digit (b.toNat - 48) with
    | none => rfl
    | some o' => exact ih hds o'

theorem reader_octet (done : List ℕ) (x : UInt8) {k : ℕ} (hk : k < 4) :
    (Printf.decimal x.toNat).foldlM Reader.next ⟨done, ⟨0, false, k⟩⟩ =
      some ⟨done, ⟨x.toNat, true, k + 1⟩⟩ := by
  rw [reader_digits (Printf.decimal_digits _), octet_decimal _ x.toNat_lt k hk]
  rfl

theorem reader_dot (done : List ℕ) (v : ℕ) {k : ℕ} (hk : k ≠ 4) :
    (ascii ".").foldlM Reader.next ⟨done, ⟨v, true, k⟩⟩ =
      some ⟨done ++ [v], ⟨0, false, k⟩⟩ := by
  have hdot : ascii "." = [46] := rfl
  rw [hdot, List.foldlM_cons, Reader.next, if_neg (by decide), if_pos (by simp), if_neg hk]
  rfl

theorem cString_eq_self_iff {s : Bytes} : cString s = s ↔ 0 ∉ s := by
  rw [cString, List.takeWhile_eq_self_iff]
  simp only [decide_eq_true_eq]
  exact ⟨fun h hmem => h 0 hmem rfl, fun h b hb hzero => h (hzero ▸ hb)⟩

theorem cString_inetNtop (x : IPv4) : cString (inetNtop x) = inetNtop x := by
  rw [cString, List.takeWhile_eq_self_iff]
  intro b hb
  have hdot : ascii "." = [46] := rfl
  have hdigit : ∀ y : UInt8, b ∈ Printf.decimal y.toNat → b ≠ 0 := by
    rintro y hy rfl
    exact absurd (Printf.decimal_digits _ 0 hy).1 (by decide)
  simp only [inetNtop, hdot, List.mem_append, List.mem_singleton] at hb
  rw [decide_eq_true_eq]
  rcases hb with ((((((h | h) | h) | h) | h) | h) | h)
  all_goals first | exact hdigit _ h | (rw [h]; decide)

theorem inetPton_inetNtop (x : IPv4) : inetPton (inetNtop x) = some x := by
  rw [inetPton, cString_inetNtop, inetNtop]
  simp only [List.foldlM_append, List.append_assoc]
  rw [reader_octet [] x.a (by decide)]
  simp only [Option.bind_eq_bind, Option.bind_some]
  rw [reader_dot _ _ (by decide), Option.bind_some, reader_octet _ x.b (by decide),
    Option.bind_some, reader_dot _ _ (by decide), Option.bind_some,
    reader_octet _ x.c (by decide), Option.bind_some, reader_dot _ _ (by decide),
    Option.bind_some, reader_octet _ x.d (by decide), Option.bind_some]
  simp [Reader.finish]

/-- An address is written in digits and dots. -/
theorem inetNtop_chars (x : IPv4) : ∀ b ∈ inetNtop x, 46 ≤ b ∧ b ≤ 57 := by
  intro b hb
  have hdot : ascii "." = [46] := rfl
  have hdigit : ∀ y : UInt8, b ∈ Printf.decimal y.toNat → 46 ≤ b ∧ b ≤ 57 := by
    intro y hy
    obtain ⟨hlo, hhi⟩ := Printf.decimal_digits _ b hy
    exact ⟨UInt8.le_trans (by decide) hlo, hhi⟩
  simp only [inetNtop, hdot, List.mem_append, List.mem_singleton] at hb
  rcases hb with ((((((h | h) | h) | h) | h) | h) | h)
  all_goals first | exact hdigit _ h | (rw [h]; decide)

/-- The text that leads to a reader: the finished octets, each with its dot, and the
digits of the current one. -/
structure Reader.Reads (r : Reader) (t : Bytes) : Prop where
  done : ∀ n ∈ r.done, n < 256
  value : r.octet.value < 256
  unseen : r.octet.sawDigit = false → r.octet.value = 0
  octets : r.octet.octets = r.done.length + r.octet.sawDigit.toNat
  text : t = r.done.flatMap (fun n => Printf.decimal n ++ [46]) ++
    bif r.octet.sawDigit then Printf.decimal r.octet.value else []

theorem digitByte_sub : ∀ b : UInt8, 48 ≤ b ∧ b ≤ 57 → Printf.digitByte (b.toNat - 48) = b :=
  forall_byte (by decide +kernel)

theorem Reader.Reads.digit {r r' : Reader} {t : Bytes} {ch : UInt8} (h : r.Reads t)
    (hch : 48 ≤ ch ∧ ch ≤ 57) (hnext : r.next ch = some r') : r'.Reads (t ++ [ch]) := by
  have hsub : ch.toNat - 48 < 10 := by
    have hle : ch.toNat ≤ 57 := UInt8.le_iff_toNat_le.mp hch.2
    omega
  obtain ⟨done, value, sawDigit, octets⟩ := r
  obtain ⟨hdone, hvalue, hunseen, hoctets, rfl⟩ := h
  rw [Reader.next, if_pos hch] at hnext
  obtain ⟨o, ho, rfl⟩ := Option.map_eq_some_iff.mp hnext
  unfold Octet.digit at ho
  dsimp only at *
  cases sawDigit with
  | true =>
    simp only [Bool.true_and, decide_eq_true_eq, ↓reduceIte] at ho
    split_ifs at ho with hzero hbig
    · cases ho
      have hpos : 0 < value := Nat.pos_of_ne_zero hzero
      have hsmall : value * 10 + (ch.toNat - 48) < 256 := by omega
      refine ⟨hdone, hsmall, Bool.noConfusion, hoctets, ?_⟩
      have hsnoc := Printf.decimal_snoc hpos hsub
      rw [digitByte_sub ch hch] at hsnoc
      simp only [cond_true, List.append_assoc]
      rw [mul_comm value 10, hsnoc]
  | false =>
    simp only [Bool.false_and, Bool.false_eq_true, ↓reduceIte] at ho
    split_ifs at ho with hbig hmany
    · cases ho
      have hvalue0 : value = 0 := hunseen rfl
      have hdigit := Printf.decimal_digit hsub
      rw [digitByte_sub ch hch] at hdigit
      have hsmall : value * 10 + (ch.toNat - 48) < 256 := by omega
      refine ⟨hdone, hsmall, Bool.noConfusion, ?_, ?_⟩
      · simpa using hoctets
      · simp [hvalue0, hdigit]

theorem Reader.Reads.next {r r' : Reader} {t : Bytes} {ch : UInt8} (h : r.Reads t)
    (hnext : r.next ch = some r') : r'.Reads (t ++ [ch]) := by
  by_cases hch : 48 ≤ ch ∧ ch ≤ 57
  · exact h.digit hch hnext
  obtain ⟨done, value, sawDigit, octets⟩ := r
  rw [Reader.next, if_neg hch] at hnext
  split_ifs at hnext with hdot hfull
  cases hnext
  obtain ⟨rfl, hsaw⟩ := hdot
  dsimp only at hsaw
  subst hsaw
  refine ⟨?_, show 0 < 256 by decide, fun _ => rfl, ?_, ?_⟩
  · intro n hn
    rcases List.mem_append.mp hn with hn | hn
    · exact h.done n hn
    · rw [List.mem_singleton.mp hn]
      exact h.value
  · simpa using h.octets
  · rw [h.text]
    simp

theorem Reader.Reads.run {r r' : Reader} {t s : Bytes} (h : r.Reads t)
    (hrun : s.foldlM Reader.next r = some r') : r'.Reads (t ++ s) := by
  induction s generalizing r t with
  | nil =>
    cases hrun
    rw [List.append_nil]
    exact h
  | cons ch s ih =>
    rw [List.foldlM_cons] at hrun
    obtain ⟨r₁, hnext, hrest⟩ := Option.bind_eq_some_iff.mp hrun
    have hstep := ih (h.next hnext) hrest
    rwa [List.append_assoc, List.singleton_append] at hstep

theorem Reader.finish_eq_some {r : Reader} {x : IPv4} (h : r.finish = some x) :
    4 ≤ r.octet.octets ∧ ∃ a b c, r.done = [a, b, c] ∧
      x = ⟨UInt8.ofNat a, UInt8.ofNat b, UInt8.ofNat c, UInt8.ofNat r.octet.value⟩ := by
  unfold finish at h
  split_ifs at h with hfew
  split at h
  · rename_i a b c d hlist
    have hsplit : r.done ++ [r.octet.value] = [a, b, c] ++ [d] := hlist
    obtain ⟨hdone, hvalue⟩ := List.append_inj' hsplit rfl
    cases h
    rw [List.singleton_inj] at hvalue
    exact ⟨by omega, a, b, c, hdone, by rw [hvalue]⟩
  · cases h

theorem Reader.Reads.finish {r : Reader} {t : Bytes} {x : IPv4} (h : r.Reads t)
    (hfinish : r.finish = some x) : t = inetNtop x := by
  obtain ⟨hfour, a, b, c, hdone, rfl⟩ := Reader.finish_eq_some hfinish
  have hoctets := h.octets
  have hsaw : r.octet.sawDigit = true := by
    rw [hdone] at hoctets
    cases hcase : r.octet.sawDigit with
    | true => rfl
    | false =>
      simp [hcase] at hoctets
      omega
  have hbyte : ∀ n < 256, (UInt8.ofNat n).toNat = n := fun n hn => Nat.mod_eq_of_lt hn
  have hsmall := h.done
  rw [hdone] at hsmall
  have hdot : ascii "." = [46] := rfl
  rw [h.text, hdone, hsaw, inetNtop, hbyte a (hsmall a (by simp)), hbyte b (hsmall b (by simp)),
    hbyte c (hsmall c (by simp)), hbyte _ h.value, hdot]
  simp

/-- Only the text of the address is accepted, up to the terminating NUL. -/
theorem inetPton_eq_some_iff {s : Bytes} {x : IPv4} : inetPton s = some x ↔ cString s = inetNtop x := by
  constructor
  · intro h
    obtain ⟨r, hrun, hfinish⟩ := Option.bind_eq_some_iff.mp h
    have hstart : (⟨[], ⟨0, false, 0⟩⟩ : Reader).Reads [] :=
      ⟨by simp, by decide, fun _ => rfl, rfl, rfl⟩
    exact (hstart.run hrun).finish hfinish
  · intro h
    rw [← inetPton_inetNtop x, inetPton, inetPton, h, cString_inetNtop]

end Inet
