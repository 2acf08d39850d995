import Aegis.Capture.PcapSniffer

/-! The callback of the capture loop in machine arithmetic with the offsets it reads, and
which of the frames it reports carry a TCP header. -/
namespace Aegis.Capture

/-- A computation that reads bytes behind a pointer: the offsets it has read, counted from
the start of the packet, and its value. -/
structure Access (α : Type) where
  reads : List ℤ
  value : α

namespace Access
variable {α β : Type}

instance : Monad Access where
  pure x := ⟨[], x⟩
  bind a f := ⟨a.reads ++ (f a.value).reads, (f a.value).value⟩

/-- The only way to a byte, which leaves its offset behind. -/
def byte (bytes : ℤ → UInt8) (o : ℤ) : Access UInt8 := ⟨[o], bytes o⟩

/-- The bytes at some offsets, one after the other. -/
def copy (bytes : ℤ → UInt8) : List ℤ → Access (List UInt8)
  | [] => pure []
  | o :: os => do
    let b ← byte bytes o
    let rest ← copy bytes os
    return b :: rest

@[simp]
theorem value_pure (x : α) : (pure x : Access α).value = x := rfl

@[simp]
theorem value_bind (a : Access α) (f : α → Access β) : (a >>= f).value = (f a.value).value := rfl

@[simp]
theorem value_byte (bytes : ℤ → UInt8) (o : ℤ) : (byte bytes o).value = bytes o := rfl

@[simp]
theorem value_copy (bytes : ℤ → UInt8) (os : List ℤ) : (copy bytes os).value = os.map bytes := by
  induction os with
  | nil => rfl
  | cons o os ih => exact congrArg (bytes o :: ·) ih

theorem value_ite {p : Prop} [Decidable p] (a b : Access α) :
    (if p then a else b).value = if p then a.value else b.value := apply_ite value p a b

/-- Every byte that is read lies in the first `n`. -/
def Inside (n : ℕ) (a : Access α) : Prop := ∀ o ∈ a.reads, 0 ≤ o ∧ o < n

theorem inside_pure (n : ℕ) (x : α) : (pure x : Access α).Inside n := fun _ ho => absurd ho List.not_mem_nil

theorem inside_bind {n : ℕ} {a : Access α} {f : α → Access β} (ha : a.Inside n)
    (hf : (f a.value).Inside n) : (a >>= f).Inside n := by
  intro o ho
  rcases List.mem_append.mp ho with ho | ho
  · exact ha o ho
  · exact hf o ho

theorem inside_byte {n : ℕ} {bytes : ℤ → UInt8} {o : ℤ} (h : 0 ≤ o ∧ o < n) : (byte bytes o).Inside n := by
  intro o' ho'
  rw [List.mem_singleton.mp ho']
  exact h

theorem inside_copy {n : ℕ} {bytes : ℤ → UInt8} {os : List ℤ} (h : ∀ o ∈ os, 0 ≤ o ∧ o < n) :
    (copy bytes os).Inside n := by
  induction os with
  | nil => exact inside_pure n []
  | cons o os ih =>
    obtain ⟨ho, hos⟩ := List.forall_mem_cons.mp h
    exact inside_bind (inside_byte ho) (inside_bind (ih hos) (inside_pure n _))

end Access

/-- `ip_hl * 4` as an `int`; the nibble is promoted before the product. -/
def ipLenOf (vhl : UInt8) : Int32 := Int32.ofNat (vhl.toNat % 16) * 4

/-- The conversion of an `int` to `size_t`: the sign is extended. -/
def sizeOf (x : Int32) : UInt64 := x.toInt64.toUInt64

/-- `ntohs` of a field of the packet. -/
def ntohsAt (bytes : ℤ → UInt8) (o : ℤ) : Access ℕ := do
  let high ← Access.byte bytes o
  let low ← Access.byte bytes (o + 1)
  return 256 * high.toNat + low.toNat

/-- `inet_ntop` of an address in the packet. -/
def inetNtopAt (bytes : ℤ → UInt8) (o : ℤ) : Access Bytes := do
  let a ← Access.byte bytes o
  let b ← Access.byte bytes (o + 1)
  let c ← Access.byte bytes (o + 2)
  let d ← Access.byte bytes (o + 3)
  return Inet.inetNtop ⟨a, b, c, d⟩

/-- The callback on a packet pointer. `bytes` is what memory holds around it, captured or
not, and `caplen` is a `bpf_u_int32` that the comparisons widen to `size_t`. -/
def callback (bytes : ℤ → UInt8) (caplen : UInt32) : Access (Option Report) :=
  if caplen.toUInt64 < 14 + 20 then return none
  else do
    let etherType ← ntohsAt bytes 12
    if etherType ≠ ethertypeIp then return none
    else do
      let ipP ← Access.byte bytes 23
      if ipP ≠ ipprotoTcp then return none
      else do
        let vhl ← Access.byte bytes 14
        let ipLen := ipLenOf vhl
        if caplen.toUInt64 < 14 + sizeOf ipLen + 20 then return none
        else do
          let tcph := 14 + ipLen.toInt
          let srcIp ← inetNtopAt bytes 26
          let dstPort ← ntohsAt bytes (tcph + 2)
          let payload ← Access.copy bytes ((List.range caplen.toNat).map Int.ofNat)
          return some ⟨srcIp, dstPort, payload⟩

theorem value_ntohsAt (bytes : ℤ → UInt8) (o : ℤ) :
    (ntohsAt bytes o).value = 256 * (bytes o).toNat + (bytes (o + 1)).toNat := rfl

theorem inside_ntohsAt {n : ℕ} {bytes : ℤ → UInt8} {o : ℤ} (h : 0 ≤ o) (h' : o + 1 < n) :
    (ntohsAt bytes o).Inside n := by
  refine Access.inside_bind (Access.inside_byte ⟨h, by omega⟩) ?_
  exact Access.inside_bind (Access.inside_byte ⟨by omega, h'⟩) (Access.inside_pure n _)

theorem inside_inetNtopAt {n : ℕ} {bytes : ℤ → UInt8} {o : ℤ} (h : 0 ≤ o) (h' : o + 3 < n) :
    (inetNtopAt bytes o).Inside n := by
  refine Access.inside_bind (Access.inside_byte ⟨h, by omega⟩) ?_
  refine Access.inside_bind (Access.inside_byte ⟨by omega, by omega⟩) ?_
  refine Access.inside_bind (Access.inside_byte ⟨by omega, by omega⟩) ?_
  exact Access.inside_bind (Access.inside_byte ⟨by omega, h'⟩) (Access.inside_pure n _)

/-- All sixteen header lengths are small and not negative, in both conversions. -/
theorem ipLenOf_eq (vhl : UInt8) : (ipLenOf vhl).toInt = (vhl.toNat % 16 * 4 : ℕ) ∧
    (sizeOf (ipLenOf vhl)).toNat = vhl.toNat % 16 * 4 := by
  have hall : ∀ k < 16, (Int32.ofNat k * 4).toInt = (k * 4 : ℕ) ∧
      (Int32.ofNat k * 4).toInt64.toUInt64.toNat = k * 4 := by decide +kernel
  exact hall (vhl.toNat % 16) (Nat.mod_lt _ (by decide))

theorem lt_size_iff (caplen : UInt32) {n : UInt64} : caplen.toUInt64 < n ↔ caplen.toNat < n.toNat := by
  rw [UInt64.lt_iff_toNat_lt, UInt32.toNat_toUInt64]

theorem first_check (caplen : UInt32) : caplen.toUInt64 < 14 + 20 ↔ caplen.toNat < 34 :=
  lt_size_iff caplen

/-- The mixed arithmetic of the second check does not wrap around. -/
theorem second_check (caplen : UInt32) (vhl : UInt8) :
    caplen.toUInt64 < 14 + sizeOf (ipLenOf vhl) + 20 ↔ caplen.toNat < 34 + vhl.toNat % 16 * 4 := by
  have hlen := (ipLenOf_eq vhl).2
  have hnibble : vhl.toNat % 16 < 16 := Nat.mod_lt _ (by decide)
  have h14 : (14 : UInt64).toNat = 14 := rfl
  have h20 : (20 : UInt64).toNat = 20 := rfl
  have hsum : (14 + sizeOf (ipLenOf vhl) + 20).toNat = 34 + vhl.toNat % 16 * 4 := by
    rw [UInt64.toNat_add, UInt64.toNat_add, hlen, h14, h20]
    omega
  rw [lt_size_iff, hsum]

/-- Every byte that is read lies in the packet, whatever the bytes and the captured length are. -/
theorem reads_inside (bytes : ℤ → UInt8) (caplen : UInt32) :
    (callback bytes caplen).Inside caplen.toNat := by
  unfold callback
  by_cases hlen : caplen.toUInt64 < 14 + 20
  · rw [if_pos hlen]
    exact Access.inside_pure _ _
  have hfirst : 34 ≤ caplen.toNat := by
    rw [first_check] at hlen
    omega
  rw [if_neg hlen]
  apply Access.inside_bind (inside_ntohsAt (by omega) (by omega))
  split_ifs with htype
  · exact Access.inside_pure _ _
  apply Access.inside_bind (Access.inside_byte ⟨by omega, by omega⟩)
  split_ifs with hproto
  · exact Access.inside_pure _ _
  apply Access.inside_bind (Access.inside_byte ⟨by omega, by omega⟩)
  dsimp only
  rw [Access.value_byte]
  split_ifs with htcp
  · exact Access.inside_pure _ _
  have hsecond : 34 + (bytes 14).toNat % 16 * 4 ≤ caplen.toNat := by
    rw [second_check] at htcp
    omega
  have hipLen := (ipLenOf_eq (bytes 14)).1
  apply Access.inside_bind (inside_inetNtopAt (by omega) (by omega))
  -- the destination port lies in the 20 bytes that the second check covers
  apply Access.inside_bind (inside_ntohsAt (by omega) (by omega))
  refine Access.inside_bind (Access.inside_copy fun o ho => ?_) (Access.inside_pure _ _)
  obtain ⟨i, hi, rfl⟩ := List.mem_map.mp ho
  have hbelow := List.mem_range.mp hi
  show 0 ≤ (i : ℤ) ∧ (i : ℤ) < caplen.toNat
  omega

/-- Memory that holds the frame at the packet pointer. -/
def Captured (bytes : ℤ → UInt8) (frame : Frame) : Prop :=
  ∀ i < frame.length, bytes (i : ℕ) = frame.byte i

theorem Captured.ntohsAt {bytes : ℤ → UInt8} {frame : Frame} (h : Captured bytes frame) {i : ℕ}
    (hi : i + 1 < frame.length) : (ntohsAt bytes i).value = frame.port i := by
  have hlow := h (i + 1) hi
  rw [Nat.cast_add, Nat.cast_one] at hlow
  rw [value_ntohsAt, h i (by omega), hlow, Frame.port]

theorem Captured.copy {bytes : ℤ → UInt8} {frame : Frame} (h : Captured bytes frame) :
    ((List.range frame.length).map Int.ofNat).map bytes = frame := by
  apply List.ext_getElem
  · simp
  · intro i hi hframe
    have hget := Frame.getElem?_eq_byte hframe
    rw [List.getElem?_eq_getElem hframe, Option.some.injEq] at hget
    rw [hget, ← h i hframe]
    simp

theorem Captured.destPort {bytes : ℤ → UInt8} {frame : Frame} (h : Captured bytes frame)
    (hbound : 34 + frame.ipLen ≤ frame.length) :
    (Capture.ntohsAt bytes (14 + (ipLenOf (frame.byte 14)).toInt + 2)).value = frame.dstPort := by
  have hat : 14 + (ipLenOf (frame.byte 14)).toInt + 2 = (16 + frame.ipLen : ℕ) := by
    rw [(ipLenOf_eq _).1, Frame.ipLen]
    omega
  rw [hat, h.ntohsAt (by omega), Frame.dstPort]

theorem Captured.source {bytes : ℤ → UInt8} {frame : Frame} (h : Captured bytes frame)
    (hlen : 34 ≤ frame.length) : (inetNtopAt bytes 26).value = Inet.inetNtop frame.srcAddr := by
  have h26 : bytes 26 = frame.byte 26 := h 26 (by omega)
  have h27 : bytes 27 = frame.byte 27 := h 27 (by omega)
  have h28 : bytes 28 = frame.byte 28 := h 28 (by omega)
  have h29 : bytes 29 = frame.byte 29 := h 29 (by omega)
  show Inet.inetNtop ⟨bytes 26, bytes 27, bytes 28, bytes 29⟩ = _
  rw [h26, h27, h28, h29, Frame.srcAddr, Frame.address]

/-- The callback reports what the capture loop was found to report of the captured bytes. -/
theorem callback_report {bytes : ℤ → UInt8} {frame : Frame} (h : Captured bytes frame)
    {caplen : UInt32} (hcaplen : caplen.toNat = frame.length) :
    startCapture frame = some (callback bytes caplen).value := by
  rw [startCapture_eq]
  congr 1
  unfold callback
  by_cases hlen : frame.length < 34
  · have hno : ¬ frame.Accepted := fun hacc => absurd hacc.length_ge (by omega)
    have hshort : caplen.toUInt64 < 14 + 20 := by
      rw [first_check]
      omega
    rw [if_neg hno, if_pos hshort]
    rfl
  have hlong : ¬ caplen.toUInt64 < 14 + 20 := by
    rw [first_check]
    omega
  have hbyte : ∀ i : ℕ, i < 34 → bytes i = frame.byte i := fun i hi => h i (by omega)
  have htype : (ntohsAt bytes 12).value = frame.port 12 := h.ntohsAt (i := 12) (by omega)
  have hproto : bytes 23 = frame.protocol := hbyte 23 (by omega)
  have hvhl : bytes 14 = frame.byte 14 := hbyte 14 (by omega)
  rw [if_neg hlong]
  simp only [Access.value_bind, Access.value_ite, Access.value_pure, Access.value_byte,
    Access.value_copy, htype, hproto, hvhl]
  by_cases htcp : frame.port 12 = ethertypeIp ∧ frame.protocol = ipprotoTcp
  swap
  · have hno : ¬ frame.Accepted := fun hacc => htcp ⟨hacc.2.1, hacc.2.2.1⟩
    rw [if_neg hno]
    split_ifs with hether hip
    · rfl
    · rfl
    all_goals exact absurd ⟨not_not.mp hether, not_not.mp hip⟩ htcp
  rw [if_neg (not_not.mpr htcp.1), if_neg (not_not.mpr htcp.2)]
  by_cases hbound : 34 + frame.ipLen ≤ frame.length
  swap
  · have hno : ¬ frame.Accepted := fun hacc => hbound hacc.2.2.2
    have hshort : caplen.toUInt64 < 14 + sizeOf (ipLenOf (frame.byte 14)) + 20 := by
      rw [second_check, hcaplen]
      exact Nat.lt_of_not_le hbound
    rw [if_neg hno, if_pos hshort]
  have hacc : frame.Accepted := ⟨by omega, htcp.1, htcp.2, hbound⟩
  have hcovered : ¬ caplen.toUInt64 < 14 + sizeOf (ipLenOf (frame.byte 14)) + 20 := by
    rw [second_check, hcaplen]
    exact Nat.not_lt_of_le hbound
  rw [if_pos hacc, if_neg hcovered, h.destPort hbound, h.source (by omega), hcaplen, h.copy]

/-! Which frames carry a TCP header. -/

namespace Frame
variable (frame : Frame)

def version : ℕ := (frame.byte 14).toNat / 16

/-- In units of eight bytes, without the three flags. -/
def fragmentOffset : ℕ := frame.port 20 % 8192

/-- What keeps the bytes after the header from being a TCP header. -/
def SoundIpHeader : Prop :=
  frame.version = 4 ∧ 20 ≤ frame.ipLen ∧ frame.fragmentOffset = 0

instance : Decidable frame.SoundIpHeader := by unfold SoundIpHeader; infer_instance

/-- An Ethernet frame with an IPv4 header and the first or only fragment of a TCP segment
behind it, captured up to the end of the fixed TCP header. -/
def CarriesTcp : Prop :=
  frame.port 12 = ethertypeIp ∧ frame.SoundIpHeader ∧ frame.protocol = ipprotoTcp ∧
    14 + frame.ipLen + 20 ≤ frame.length

variable {frame}

theorem carriesTcp_iff : frame.CarriesTcp ↔ frame.Accepted ∧ frame.SoundIpHeader := by
  unfold CarriesTcp Accepted
  constructor
  · intro h
    obtain ⟨hether, hsound, hproto, hlen⟩ := h
    have hip := hsound.2.1
    exact ⟨⟨by omega, hether, hproto, by omega⟩, hsound⟩
  · intro h
    obtain ⟨⟨-, hether, hproto, hlen⟩, hsound⟩ := h
    exact ⟨hether, hsound, hproto, by omega⟩

end Frame

/-- The callback is called for exactly the frames that carry a TCP header, with the
destination port of that header. -/
def ReportsTcpOnly (frame : Frame) : Prop :=
  ((∃ report, startCapture frame = some (some report)) ↔ frame.CarriesTcp) ∧
    ∀ report, startCapture frame = some (some report) → report.dstPort = frame.port (14 + frame.ipLen + 2)

theorem reported_iff (frame : Frame) :
    (∃ report, startCapture frame = some (some report)) ↔ frame.Accepted := by
  rw [startCapture_eq]
  split_ifs with hacc
  · exact iff_of_true ⟨_, rfl⟩ hacc
  · refine iff_of_false (fun h => ?_) hacc
    obtain ⟨report, hreport⟩ := h
    cases hreport

theorem reportsTcpOnly_iff (frame : Frame) :
    ReportsTcpOnly frame ↔ (frame.Accepted → frame.SoundIpHeader) := by
  have hport : ∀ report, startCapture frame = some (some report) →
      report.dstPort = frame.port (14 + frame.ipLen + 2) := by
    intro report hreport
    rw [startCapture_eq] at hreport
    split_ifs at hreport
    · cases hreport
      have hat : 14 + frame.ipLen + 2 = 16 + frame.ipLen := by omega
      rw [hat]
      rfl
    · cases hreport
  unfold ReportsTcpOnly
  rw [and_iff_left hport, reported_iff, Frame.carriesTcp_iff]
  exact ⟨fun h hacc => (h.mp hacc).2, fun h => ⟨fun hacc => ⟨hacc, h hacc⟩, And.left⟩⟩

/-- The second fragment of a segment: what stands where the header would be is payload. -/
def fragment : Frame :=
  List.replicate 12 0 ++ [8, 0] ++ [0x45, 0, 0, 40, 0, 1, 0, 1, 64, 6, 0, 0] ++ [10, 0, 0, 9] ++
    [10, 0, 0, 1] ++ List.replicate 20 65

theorem fragment_reported : ¬ ReportsTcpOnly fragment := by
  rw [reportsTcpOnly_iff]
  intro h
  have hacc : fragment.Accepted := by decide +kernel
  have hoffset : ¬ fragment.SoundIpHeader := by decide +kernel
  exact hoffset (h hacc)

end Aegis.Capture
