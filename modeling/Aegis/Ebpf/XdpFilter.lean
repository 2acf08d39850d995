import Aegis.Capture.PcapSniffer
import Aegis.Mcp.SecTools
import Aegis.Lib.Transducer

/-! The kernel filter, `xdp_filter.c`, and its runs together with the tool that writes
its map. -/
namespace Aegis.Ebpf

open Capture Mcp

inductive XdpAction where
  | pass
  | drop
  deriving DecidableEq

abbrev ethPIp : ℕ := 0x0800

/-- One frame between `data` and `data_end`. The hit counter wraps at 32 bits. -/
def xdpFirewall (blacklist : Table UInt32 UInt32) (frame : Frame) :
    Table UInt32 UInt32 × XdpAction :=
  if frame.length < 14 then (blacklist, .pass)
  else if frame.port 12 ≠ ethPIp then (blacklist, .pass)
  else if frame.length < 14 + 20 then (blacklist, .pass)
  else
    let srcIp := (frame.address (14 + 12)).sAddr
    match blacklist.lookup srcIp with
    | some hits => (blacklist.insert srcIp (hits + 1), .drop)
    | none => (blacklist, .pass)

/-- A frame changes counters, never the set of addresses, and is dropped only for its
own source. -/
theorem mem_xdpFirewall (blacklist : Table UInt32 UInt32) (frame : Frame) (key : UInt32) :
    key ∈ (xdpFirewall blacklist frame).1 ↔ key ∈ blacklist := by
  unfold xdpFirewall
  split_ifs
  · exact Iff.rfl
  · exact Iff.rfl
  · exact Iff.rfl
  · dsimp only
    cases hlook : blacklist.lookup (frame.address (14 + 12)).sAddr with
    | none => exact Iff.rfl
    | some hits =>
      have hmem : (frame.address (14 + 12)).sAddr ∈ blacklist := by
        rw [← AList.lookup_isSome, hlook]
        rfl
      rw [AList.mem_insert]
      constructor
      · intro h
        rcases h with heq | hold
        · rw [heq]
          exact hmem
        · exact hold
      · exact Or.inr

/-- A frame the sniffer would report is dropped exactly when its source is listed. -/
theorem drop_iff_of_accepted {frame : Frame} (h : frame.Accepted)
    (blacklist : Table UInt32 UInt32) :
    (xdpFirewall blacklist frame).2 = .drop ↔ frame.srcAddr.sAddr ∈ blacklist := by
  obtain ⟨hlen, htype, -, -⟩ := h
  unfold xdpFirewall
  rw [if_neg (by omega), if_neg (not_not.mpr htype), if_neg (by omega)]
  have hsrc : frame.address (14 + 12) = frame.srcAddr := rfl
  rw [hsrc, ← AList.lookup_isSome]
  dsimp only
  cases blacklist.lookup frame.srcAddr.sAddr with
  | none => exact iff_of_false (fun hd => by cases hd) Bool.false_ne_true
  | some hits => exact iff_of_true rfl rfl

theorem mem_of_drop {blacklist : Table UInt32 UInt32} {frame : Frame}
    (h : (xdpFirewall blacklist frame).2 = .drop) : frame.srcAddr.sAddr ∈ blacklist := by
  unfold xdpFirewall at h
  split_ifs at h
  have hsrc : frame.address (14 + 12) = frame.srcAddr := rfl
  rw [hsrc] at h
  dsimp only at h
  rw [← AList.lookup_isSome]
  cases hlook : blacklist.lookup frame.srcAddr.sAddr with
  | none =>
    rw [hlook] at h
    cases h
  | some hits => rfl

/-! Runs: tool calls and received frames in any order, from an empty map. -/

inductive Event where
  | call (os : Os) (args : Json Bytes)
  | receive (frame : Frame)

inductive Answer where
  | reply (r : Except JsonError (Json Bytes))
  | verdict (a : XdpAction)

def firewall : Transducer Firewall Event Answer where
  init := {}
  step fw
    | .call os args => ((SecTools.execute os fw args).firewall, .reply (SecTools.execute os fw args).reply)
    | .receive frame =>
      ({ fw with blacklist := (xdpFirewall fw.blacklist frame).1 },
        .verdict (xdpFirewall fw.blacklist frame).2)

/-- The answer reports that the map was written. -/
def Answer.WroteMap : Answer → Prop
  | .reply r => SecTools.ReportsXdp r
  | .verdict _ => False

theorem mem_step (fw : Firewall) (e : Event) (key : UInt32) :
    key ∈ (firewall.step fw e).1.blacklist ↔ key ∈ fw.blacklist ∨
      ∃ os args addr, e = .call os args ∧ (firewall.step fw e).2.WroteMap ∧
        SecTools.target args = some addr ∧ addr.sAddr = key := by
  cases e with
  | call os args =>
    change key ∈ (SecTools.execute os fw args).firewall.blacklist ↔ _
    rcases SecTools.execute_cases os fw args with ⟨hxdp, addr, htarget, hmap⟩ | ⟨hno, hmap⟩
    · rw [hmap, AList.mem_insert]
      constructor
      · intro h
        rcases h with heq | hold
        · exact Or.inr ⟨os, args, addr, rfl, hxdp, htarget, heq.symm⟩
        · exact Or.inl hold
      · intro h
        rcases h with hold | ⟨os', args', addr', he, -, htarget', hkey⟩
        · exact Or.inr hold
        · cases he
          rw [htarget] at htarget'
          cases htarget'
          exact Or.inl hkey.symm
    · rw [hmap]
      constructor
      · exact Or.inl
      · intro h
        rcases h with hold | ⟨os', args', addr', -, hwrote, -⟩
        · exact hold
        · exact absurd hwrote hno
  | receive frame =>
    change key ∈ (xdpFirewall fw.blacklist frame).1 ↔ _
    rw [mem_xdpFirewall]
    constructor
    · exact Or.inl
    · intro h
      rcases h with hold | ⟨os, args, addr, he, -⟩
      · exact hold
      · cases he

theorem mem_after {fw : Firewall} {key : UInt32} (h : key ∈ fw.blacklist) (es : List Event) :
    key ∈ (firewall.after fw es).blacklist := by
  refine Transducer.after_preserves (M := firewall) (P := fun s => key ∈ s.blacklist) ?_ h es
  intro s e hs
  exact (mem_step s e key).mpr (Or.inl hs)

/-- The listed addresses are those that successful calls have written. -/
theorem mem_run_iff (es : List Event) (key : UInt32) :
    key ∈ (firewall.run es).blacklist ↔
      ∃ pre os args addr post, es = pre ++ .call os args :: post ∧
        (firewall.step (firewall.run pre) (.call os args)).2.WroteMap ∧
        SecTools.target args = some addr ∧ addr.sAddr = key := by
  constructor
  · induction es using List.reverseRecOn with
    | nil =>
      intro h
      exact absurd h (AList.notMem_empty key)
    | append_singleton es e ih =>
      intro h
      rw [Transducer.run_concat, mem_step] at h
      rcases h with hold | ⟨os, args, addr, he, hwrote, htarget, hkey⟩
      · obtain ⟨pre, os, args, addr, post, hsplit, hrest⟩ := ih hold
        exact ⟨pre, os, args, addr, post ++ [e], by rw [hsplit]; simp, hrest⟩
      · rw [he] at hwrote
        exact ⟨es, os, args, addr, [], by rw [he], hwrote, htarget, hkey⟩
  · intro h
    obtain ⟨pre, os, args, addr, post, hsplit, hwrote, htarget, hkey⟩ := h
    rw [hsplit, Transducer.run_append, Transducer.after_cons]
    apply mem_after
    exact (mem_step _ _ key).mpr (Or.inr ⟨os, args, addr, rfl, hwrote, htarget, hkey⟩)

def ipArgs (ip : Bytes) : Json Bytes := .object [(ascii "ip", .str ip)]

theorem target_ipArgs_inetNtop (x : Inet.IPv4) :
    SecTools.target (ipArgs (Inet.inetNtop x)) = some x := Inet.inetPton_inetNtop x

/-- Detection and blocking agree on the address. Once a call on the text the sniffer
reported for a frame has written the map, every later frame it would report with that
source is dropped, whatever comes in between; and a frame is dropped only when an
earlier call has written its own source. -/
theorem blocking_agrees_with_detection (es : List Event) :
    (∀ pre os seen report mid later post,
      es = pre ++ .call os (ipArgs report.srcIp) :: mid ++ .receive later :: post →
      startCapture seen = some (some report) →
      (firewall.step (firewall.run pre) (.call os (ipArgs report.srcIp))).2.WroteMap →
      later.Accepted → later.srcAddr = seen.srcAddr →
      (firewall.answers es)[pre.length + 1 + mid.length]? = some (.verdict .drop)) ∧
    (∀ pre frame post, es = pre ++ .receive frame :: post →
      (firewall.answers es)[pre.length]? = some (.verdict .drop) →
      ∃ pre' os args post', pre = pre' ++ .call os args :: post' ∧
        (firewall.step (firewall.run pre') (.call os args)).2.WroteMap ∧
        SecTools.target args = some frame.srcAddr) := by
  constructor
  · intro pre os seen report mid later post hes hreport hwrote hacc hsrc
    have hseen : seen.Accepted := by
      by_contra hno
      rw [startCapture_eq, if_neg hno] at hreport
      cases hreport
    have htext : report.srcIp = Inet.inetNtop seen.srcAddr := by
      rw [startCapture_eq, if_pos hseen] at hreport
      cases hreport
      rfl
    have hlisted : later.srcAddr.sAddr ∈
        (firewall.run (pre ++ .call os (ipArgs report.srcIp) :: mid)).blacklist := by
      rw [mem_run_iff, hsrc]
      refine ⟨pre, os, _, seen.srcAddr, mid, rfl, hwrote, ?_, rfl⟩
      rw [htext]
      exact target_ipArgs_inetNtop _
    have hpos : pre.length + 1 + mid.length =
        (pre ++ .call os (ipArgs report.srcIp) :: mid).length := by
      rw [List.length_append, List.length_cons]
      omega
    rw [hes, hpos, Transducer.answers_getElem?]
    have hdrop := (drop_iff_of_accepted hacc _).mpr hlisted
    change some (Answer.verdict _) = _
    rw [hdrop]
  · intro pre frame post hes hdrop
    rw [hes, Transducer.answers_getElem?] at hdrop
    change some (Answer.verdict (xdpFirewall _ frame).2) = _ at hdrop
    rw [Option.some.injEq, Answer.verdict.injEq] at hdrop
    obtain ⟨pre', os, args, addr, post', hpre, hwrote, htarget, hkey⟩ :=
      (mem_run_iff pre _).mp (mem_of_drop hdrop)
    rw [Inet.IPv4.sAddr_injective hkey] at htarget
    exact ⟨pre', os, args, post', hpre, hwrote, htarget⟩

/-- A TCP frame from 10.0.0.9. -/
def sampleFrame : Frame :=
  List.replicate 12 0 ++ [8, 0, 0x45] ++ List.replicate 8 0 ++ [6, 0, 0, 10, 0, 0, 9] ++
    List.replicate 24 0

theorem blocking_agrees_sample :
    (firewall.answers [.call ⟨true, true, false⟩ (ipArgs (ascii "10.0.0.9")),
      .receive sampleFrame])[1]? = some (.verdict .drop) := by
  have hreport : startCapture sampleFrame = some (some ⟨ascii "10.0.0.9", 0, sampleFrame⟩) := by
    decide +kernel
  have hwrote : (firewall.step (firewall.run []) (.call ⟨true, true, false⟩
      (ipArgs (ascii "10.0.0.9")))).2.WroteMap := by
    refine ⟨SecTools.blocked (ascii "ebpf_xdp") (ascii "10.0.0.9"), ?_, _, rfl, rfl⟩
    rfl
  exact (blocking_agrees_with_detection _).1 [] ⟨true, true, false⟩ sampleFrame _ [] sampleFrame []
    rfl hreport hwrote (by decide +kernel) rfl

end Aegis.Ebpf
