import Aegis.Lib.Inet

/-! What the capture loop reads from a frame, `pcap_sniffer.hpp`. A frame is the
captured bytes, so its length is `caplen`. -/
namespace Aegis.Capture

abbrev Frame := Bytes

/-- A field of two bytes in network order; no value past the captured bytes. -/
def Frame.ntohs (frame : Frame) (at' : ℕ) : Option ℕ := do
  let high ← frame[at']?
  let low ← frame[at' + 1]?
  return 256 * high.toNat + low.toNat

def Frame.inAddr (frame : Frame) (at' : ℕ) : Option Inet.IPv4 := do
  let a ← frame[at']?
  let b ← frame[at' + 1]?
  let c ← frame[at' + 2]?
  let d ← frame[at' + 3]?
  return ⟨a, b, c, d⟩

/-- What the callback is called with. -/
structure Report where
  srcIp : Bytes
  dstPort : ℕ
  payload : Bytes
  deriving DecidableEq

abbrev sizeofEtherHeader : ℕ := 14
abbrev sizeofIp : ℕ := 20
abbrev sizeofTcphdr : ℕ := 20
abbrev ethertypeIp : ℕ := 0x0800
abbrev ipprotoTcp : UInt8 := 6

/-- One round of `pcap_loop`: nothing or a report. There is no result when a read
leaves the captured bytes. -/
def startCapture (frame : Frame) : Option (Option Report) :=
  if frame.length < sizeofEtherHeader + sizeofIp then some none
  else do
    let etherType ← frame.ntohs 12
    if etherType ≠ ethertypeIp then some none
    else do
      let ipP ← frame[sizeofEtherHeader + 9]?
      if ipP ≠ ipprotoTcp then some none
      else do
        let ipVhl ← frame[sizeofEtherHeader]?
        let ipLen := ipVhl.toNat % 16 * 4
        if frame.length < sizeofEtherHeader + ipLen + sizeofTcphdr then some none
        else do
          let ipSrc ← frame.inAddr (sizeofEtherHeader + 12)
          let dest ← frame.ntohs (sizeofEtherHeader + ipLen + 2)
          some (some ⟨Inet.inetNtop ipSrc, dest, frame⟩)

/-! The header fields of a frame, whether it is reported or not. -/

namespace Frame
variable (frame : Frame)

def byte (i : ℕ) : UInt8 := frame.getD i 0

def address (i : ℕ) : Inet.IPv4 :=
  ⟨frame.byte i, frame.byte (i + 1), frame.byte (i + 2), frame.byte (i + 3)⟩

def port (i : ℕ) : ℕ := 256 * (frame.byte i).toNat + (frame.byte (i + 1)).toNat

/-- `ip_hl * 4`. -/
def ipLen : ℕ := (frame.byte 14).toNat % 16 * 4

def srcAddr : Inet.IPv4 := frame.address 26

def dstAddr : Inet.IPv4 := frame.address 30

def srcPort : ℕ := frame.port (14 + frame.ipLen)

def dstPort : ℕ := frame.port (16 + frame.ipLen)

def protocol : UInt8 := frame.byte 23

/-- The frames the capture loop reports. -/
def Accepted : Prop :=
  34 ≤ frame.length ∧ frame.port 12 = ethertypeIp ∧ frame.protocol = ipprotoTcp ∧
    34 + frame.ipLen ≤ frame.length

instance : Decidable frame.Accepted := by unfold Accepted; infer_instance

variable {frame}

theorem getElem?_eq_byte {i : ℕ} (h : i < frame.length) : frame[i]? = some (frame.byte i) := by
  rw [byte, List.getD_eq_getElem?_getD, List.getElem?_eq_getElem h]
  rfl

theorem ntohs_eq_port {i : ℕ} (h : i + 1 < frame.length) : frame.ntohs i = some (frame.port i) := by
  unfold ntohs
  rw [getElem?_eq_byte (by omega), getElem?_eq_byte h]
  rfl

theorem inAddr_eq_address {i : ℕ} (h : i + 3 < frame.length) :
    frame.inAddr i = some (frame.address i) := by
  unfold inAddr
  rw [getElem?_eq_byte (by omega), getElem?_eq_byte (by omega), getElem?_eq_byte (by omega),
    getElem?_eq_byte h]
  rfl

theorem dstPort_lt (frame : Frame) : frame.dstPort < 65536 := by
  have hhigh := (frame.byte (16 + frame.ipLen)).toNat_lt
  have hlow := (frame.byte (16 + frame.ipLen + 1)).toNat_lt
  unfold dstPort port
  omega

theorem Accepted.length_ge (h : frame.Accepted) : 34 ≤ frame.length := h.1

end Frame

/-- The loop reads inside the frame only, and reports exactly the accepted frames. -/
theorem startCapture_eq (frame : Frame) :
    startCapture frame = some (if frame.Accepted then
      some ⟨Inet.inetNtop frame.srcAddr, frame.dstPort, frame⟩ else none) := by
  unfold startCapture
  simp only [sizeofEtherHeader, sizeofIp, sizeofTcphdr, Nat.reduceAdd, Option.bind_eq_bind]
  by_cases hlen : frame.length < 34
  · have hno : ¬ frame.Accepted := fun h => absurd h.length_ge (by omega)
    rw [if_pos hlen, if_neg hno]
  rw [if_neg hlen, Frame.ntohs_eq_port (by omega), Option.bind_some]
  by_cases htype : frame.port 12 = ethertypeIp
  swap
  · have hno : ¬ frame.Accepted := fun h => htype h.2.1
    rw [if_pos htype, if_neg hno]
  rw [if_neg (not_not.mpr htype), Frame.getElem?_eq_byte (by omega), Option.bind_some]
  by_cases hproto : frame.byte 23 = ipprotoTcp
  swap
  · have hno : ¬ frame.Accepted := fun h => hproto h.2.2.1
    rw [if_pos hproto, if_neg hno]
  have hipLen : (frame.byte 14).toNat % 16 * 4 = frame.ipLen := rfl
  rw [if_neg (not_not.mpr hproto), Frame.getElem?_eq_byte (by omega), Option.bind_some, hipLen]
  by_cases htcp : frame.length < 14 + frame.ipLen + 20
  · have hno : ¬ frame.Accepted := fun h => absurd h.2.2.2 (by omega)
    rw [if_pos htcp, if_neg hno]
  have hyes : frame.Accepted := ⟨by omega, htype, hproto, by omega⟩
  have hdest : frame.ntohs (14 + frame.ipLen + 2) = some frame.dstPort := by
    rw [Frame.ntohs_eq_port (by omega), Frame.dstPort]
    congr 2
    omega
  rw [if_neg htcp, if_pos hyes, Frame.inAddr_eq_address (by omega), Option.bind_some, hdest,
    Option.bind_some]
  rfl

/-- One direction of a TCP connection. -/
structure Connection where
  srcAddr : Inet.IPv4
  dstAddr : Inet.IPv4
  srcPort : ℕ
  dstPort : ℕ
  protocol : UInt8
  deriving DecidableEq

def Frame.connection (frame : Frame) : Connection :=
  ⟨frame.srcAddr, frame.dstAddr, frame.srcPort, frame.dstPort, frame.protocol⟩

end Aegis.Capture
