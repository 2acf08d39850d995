import Aegis.Lib.Transducer
import Aegis.Mcp.SecTools

/-! What `block_malicious_ip` does to the system: which addresses it acts on, and what a
repetition adds. -/
namespace Aegis.Mcp.SecTools

/-- The eBPF path is taken and the kernel writes the entry. -/
def WritesMap (os : Os) (m : Table UInt32 UInt32) (key : UInt32) : Prop :=
  os.mapOpens ∧ os.updateAdmitted ∧ (key ∈ m ∨ m.entries.length < maxEntries)

instance (os : Os) (m : Table UInt32 UInt32) (key : UInt32) : Decidable (WritesMap os m key) := by
  unfold WritesMap
  infer_instance

/-- With an accepted text the map is written, or else a rule is appended, or else nothing. -/
theorem execute_accepted {args : Json Bytes} {ip : Bytes} {addr : Inet.IPv4}
    (hip : stringValue args (ascii "ip") [] = .ok ip) (haddr : Inet.inetPton ip = some addr)
    (os : Os) (fw : Firewall) :
    (execute os fw args).firewall =
        (if WritesMap os fw.blacklist addr.sAddr then
          { fw with blacklist := fw.blacklist.insert addr.sAddr 1 }
        else if os.iptablesSucceeds then
          { fw with inputRules := fw.inputRules ++ [Inet.cString ip] } else fw) ∧
      (execute os fw args).reply =
        .ok (if WritesMap os fw.blacklist addr.sAddr then blocked (ascii "ebpf_xdp") ip
          else if os.iptablesSucceeds then blocked (ascii "iptables_fallback") ip else notBlocked) := by
  have hfall : ∀ log, (fallback os fw log ip).firewall = (if os.iptablesSucceeds then
      { fw with inputRules := fw.inputRules ++ [Inet.cString ip] } else fw) ∧
      (fallback os fw log ip).reply = .ok (if os.iptablesSucceeds then
        blocked (ascii "iptables_fallback") ip else notBlocked) := by
    intro log
    unfold fallback iptablesBlock
    split_ifs <;> exact ⟨rfl, rfl⟩
  unfold execute
  rw [hip]
  dsimp only
  rw [haddr]
  dsimp only
  by_cases hw : WritesMap os fw.blacklist addr.sAddr
  · have hraw : rawBpfMapUpdate os fw.blacklist addr.sAddr 1 = some (fw.blacklist.insert addr.sAddr 1) :=
      if_pos hw.2
    rw [if_pos hw, if_pos hw, if_pos hw.1, hraw]
    exact ⟨rfl, rfl⟩
  · rw [if_neg hw, if_neg hw]
    by_cases hopen : os.mapOpens
    · have hraw : rawBpfMapUpdate os fw.blacklist addr.sAddr 1 = none :=
        if_neg (fun hroom => hw ⟨hopen, hroom⟩)
      rw [if_pos hopen, hraw]
      exact hfall _
    · rw [if_neg hopen]
      exact hfall _

theorem execute_rejected {args : Json Bytes} {ip : Bytes}
    (hip : stringValue args (ascii "ip") [] = .ok ip) (hno : Inet.inetPton ip = none)
    (os : Os) (fw : Firewall) : execute os fw args = ⟨fw, [], .ok invalidIp⟩ := by
  unfold execute
  rw [hip]
  dsimp only
  rw [hno]

/-! Which address is acted on. -/

/-- An attempt to change what is blocked: the key of `BPF_MAP_UPDATE_ELEM`, or the
address argument of the child that becomes iptables. -/
inductive Attempt where
  | mapUpdate (key : UInt32)
  | iptables (source : Bytes)

/-- The attempts of an execution, successful or not, in their order. -/
def attempts (os : Os) (fw : Firewall) (args : Json Bytes) : List Attempt :=
  match stringValue args (ascii "ip") [] with
  | .error _ => []
  | .ok ip =>
    match Inet.inetPton ip with
    | none => []
    | some addr =>
      if os.mapOpens then
        match rawBpfMapUpdate os fw.blacklist addr.sAddr 1 with
        | some _ => [.mapUpdate addr.sAddr]
        | none => [.mapUpdate addr.sAddr, .iptables (Inet.cString ip)]
      else [.iptables (Inet.cString ip)]

/-- What an attempt leaves of the firewall. -/
def Attempt.effect (os : Os) (fw : Firewall) : Attempt → Firewall
  | .mapUpdate key =>
    match rawBpfMapUpdate os fw.blacklist key 1 with
    | some m => { fw with blacklist := m }
    | none => fw
  | .iptables source =>
    if os.iptablesSucceeds then { fw with inputRules := fw.inputRules ++ [source] } else fw

/-- The attempts are all that happens to the firewall. -/
theorem firewall_eq_attempts (os : Os) (fw : Firewall) (args : Json Bytes) :
    (execute os fw args).firewall = (attempts os fw args).foldl (Attempt.effect os) fw := by
  have hfall : ∀ log ip, (fallback os fw log ip).firewall =
      Attempt.effect os fw (.iptables (Inet.cString ip)) := by
    intro log ip
    unfold fallback iptablesBlock Attempt.effect
    split_ifs <;> rfl
  unfold execute attempts
  cases stringValue args (ascii "ip") [] with
  | error e => rfl
  | ok ip =>
    dsimp only
    cases Inet.inetPton ip with
    | none => rfl
    | some addr =>
      dsimp only
      by_cases hopen : os.mapOpens
      · rw [if_pos hopen, if_pos hopen]
        cases hraw : rawBpfMapUpdate os fw.blacklist addr.sAddr 1 with
        | some m =>
          simp only [List.foldl_cons, List.foldl_nil, Attempt.effect, hraw]
        | none =>
          have hmap : Attempt.effect os fw (.mapUpdate addr.sAddr) = fw := by
            simp only [Attempt.effect, hraw]
          rw [List.foldl_cons, hmap]
          exact hfall _ ip
      · rw [if_neg hopen, if_neg hopen]
        exact hfall _ ip

def Attempt.Denotes (addr : Inet.IPv4) : Attempt → Prop
  | .mapUpdate key => key = addr.sAddr
  | .iptables source => source = Inet.inetNtop addr

/-- The reply repeats the given text as the blocked address. -/
def Echoes (reply : Except JsonError (Json Bytes)) (ip : Bytes) : Prop :=
  ∃ v, reply = .ok v ∧ v.field (ascii "ip") = some (.str ip)

/-- Nothing is attempted unless the whole string is a dotted quad, and then key, argument
and reply denote its address. -/
def ChecksWholeAddress (os : Os) (fw : Firewall) (args : Json Bytes) : Prop :=
  ∀ ip, stringValue args (ascii "ip") [] = .ok ip →
    ((∀ addr, ip ≠ Inet.inetNtop addr) →
      attempts os fw args = [] ∧ (execute os fw args).firewall = fw) ∧
    (attempts os fw args ≠ [] → ∃ addr, (∀ a ∈ attempts os fw args, a.Denotes addr) ∧
      ∀ echo, Echoes (execute os fw args).reply echo → echo = Inet.inetNtop addr)

theorem attempts_accepted {args : Json Bytes} {ip : Bytes} {addr : Inet.IPv4}
    (hip : stringValue args (ascii "ip") [] = .ok ip) (haddr : Inet.inetPton ip = some addr)
    (os : Os) (fw : Firewall) : attempts os fw args ≠ [] ∧
      ∀ a ∈ attempts os fw args, a = .mapUpdate addr.sAddr ∨ a = .iptables (Inet.cString ip) := by
  unfold attempts
  rw [hip]
  dsimp only
  rw [haddr]
  dsimp only
  split_ifs
  · cases rawBpfMapUpdate os fw.blacklist addr.sAddr 1 <;> simp
  · simp

theorem attempts_rejected {args : Json Bytes} {ip : Bytes}
    (hip : stringValue args (ascii "ip") [] = .ok ip) (hno : Inet.inetPton ip = none)
    (os : Os) (fw : Firewall) : attempts os fw args = [] := by
  unfold attempts
  rw [hip]
  dsimp only
  rw [hno]

theorem echo_eq {args : Json Bytes} {ip echo : Bytes} {addr : Inet.IPv4}
    (hip : stringValue args (ascii "ip") [] = .ok ip) (haddr : Inet.inetPton ip = some addr)
    {os : Os} {fw : Firewall} (h : Echoes (execute os fw args).reply echo) : echo = ip := by
  have hblocked : ∀ method, (blocked method ip).field (ascii "ip") = some (.str ip) := fun _ => rfl
  have hnot : notBlocked.field (ascii "ip") = none := rfl
  obtain ⟨v, hv, hfield⟩ := h
  rw [(execute_accepted hip haddr os fw).2, Except.ok.injEq] at hv
  rw [← hv] at hfield
  split_ifs at hfield
  · rw [hblocked] at hfield
    cases hfield
    rfl
  · rw [hblocked] at hfield
    cases hfield
    rfl
  · rw [hnot] at hfield
    cases hfield

/-- The address is read up to the first NUL, so the whole string is checked exactly where
it has no NUL or is rejected anyway. -/
theorem checksWholeAddress_iff (os : Os) (fw : Firewall) (args : Json Bytes) :
    ChecksWholeAddress os fw args ↔
      ∀ ip, stringValue args (ascii "ip") [] = .ok ip → 0 ∉ ip ∨ Inet.inetPton ip = none := by
  refine forall_congr' fun ip => imp_congr_right fun hip => ?_
  cases haddr : Inet.inetPton ip with
  | none =>
    have hnothing := attempts_rejected hip haddr os fw
    have hfw : (execute os fw args).firewall = fw := by rw [execute_rejected hip haddr]
    exact iff_of_true ⟨fun _ => ⟨hnothing, hfw⟩, fun h => absurd hnothing h⟩ (Or.inr rfl)
  | some addr =>
    obtain ⟨hsome, hwhich⟩ := attempts_accepted hip haddr os fw
    rw [or_iff_left (Option.some_ne_none addr)]
    constructor
    · intro h hzero
      refine hsome (h.1 (fun x hx => ?_)).1
      rw [hx] at hzero
      exact Inet.cString_eq_self_iff.mp (Inet.cString_inetNtop x) hzero
    · intro hzero
      have hwhole : Inet.cString ip = ip := Inet.cString_eq_self_iff.mpr hzero
      have htext : Inet.cString ip = Inet.inetNtop addr := Inet.inetPton_eq_some_iff.mp haddr
      refine ⟨fun h => absurd (hwhole.symm.trans htext) (h addr), fun _ => ⟨addr, ?_, ?_⟩⟩
      · intro a ha
        rcases hwhich a ha with rfl | rfl
        · rfl
        · exact htext
      · intro echo hecho
        rw [echo_eq hip haddr hecho, ← htext, hwhole]

def nulArgs : Json Bytes := .object [(ascii "ip", .str (ascii "1.2.3.4" ++ 0 :: ascii "x"))]

/-- 1.2.3.4 is blocked and the reply names a string that is no address. -/
theorem text_after_nul_accepted : ¬ ChecksWholeAddress ⟨false, false, true⟩ {} nulArgs := by
  rw [checksWholeAddress_iff]
  intro h
  have hvalue : stringValue nulArgs (ascii "ip") [] = .ok (ascii "1.2.3.4" ++ 0 :: ascii "x") := rfl
  rcases h _ hvalue with hzero | hnone
  · exact hzero (by simp)
  · exact absurd hnone (by decide +kernel)

/-! Repeated calls for one address. -/

def Succeeded (reply : Except JsonError (Json Bytes)) : Prop :=
  ∃ v, reply = .ok v ∧ v.field (ascii "status") = some (.str (ascii "success"))

/-- The calls of one argument object, each under the circumstances of its moment. -/
def caller (fw : Firewall) (args : Json Bytes) :
    Transducer Firewall Os (Except JsonError (Json Bytes)) :=
  ⟨fw, fun fw os => ((execute os fw args).firewall, (execute os fw args).reply)⟩

/-- The same rules and the same set of addresses. -/
def Same (fw fw' : Firewall) : Prop :=
  fw'.inputRules = fw.inputRules ∧ ∀ key, key ∈ fw'.blacklist ↔ key ∈ fw.blacklist

/-- Nothing is unblocked. -/
def Grows (fw fw' : Firewall) : Prop :=
  fw.inputRules <+: fw'.inputRules ∧ ∀ key ∈ fw.blacklist, key ∈ fw'.blacklist

theorem Grows.refl (fw : Firewall) : Grows fw fw := ⟨List.prefix_rfl, fun _ h => h⟩

theorem Grows.trans {fw fw' fw'' : Firewall} (h : Grows fw fw') (h' : Grows fw' fw'') :
    Grows fw fw'' := ⟨h.1.trans h'.1, fun key hkey => h'.2 key (h.2 key hkey)⟩

/-- What has grown and is the same in the end was the same all the time. -/
theorem same_iff_of_grows {fw fw' fw'' : Firewall} (h : Grows fw fw') (h' : Grows fw' fw'') :
    Same fw fw'' ↔ Same fw fw' ∧ Same fw' fw'' := by
  constructor
  · intro hsame
    have hrules : fw'.inputRules = fw.inputRules := by
      have hle := h'.1.length_le
      rw [hsame.1] at hle
      exact (h.1.eq_of_length_le hle).symm
    have hkeys : ∀ key, key ∈ fw'.blacklist ↔ key ∈ fw.blacklist :=
      fun key => ⟨fun hmem => (hsame.2 key).mp (h'.2 key hmem), h.2 key⟩
    exact ⟨⟨hrules, hkeys⟩, hsame.1.trans hrules.symm, fun key => (hsame.2 key).trans (hkeys key).symm⟩
  · intro hboth
    obtain ⟨hfirst, hlast⟩ := hboth
    exact ⟨hlast.1.trans hfirst.1, fun key => (hlast.2 key).trans (hfirst.2 key)⟩

section Valid
variable {args : Json Bytes} {ip : Bytes} {addr : Inet.IPv4}
  (hip : stringValue args (ascii "ip") [] = .ok ip) (haddr : Inet.inetPton ip = some addr)
include hip haddr

theorem execute_grows (os : Os) (fw : Firewall) : Grows fw (execute os fw args).firewall := by
  rw [(execute_accepted hip haddr os fw).1]
  split_ifs
  · exact ⟨List.prefix_rfl, fun key hkey => (AList.mem_insert _).mpr (Or.inr hkey)⟩
  · exact ⟨List.prefix_append _ _, fun _ h => h⟩
  · exact Grows.refl fw

theorem after_grows (fw₀ fw : Firewall) (oss : List Os) : Grows fw ((caller fw₀ args).after fw oss) := by
  induction oss generalizing fw with
  | nil => exact Grows.refl fw
  | cons os oss ih => exact (execute_grows hip haddr os fw).trans (ih _)

theorem succeeded_iff (os : Os) (fw : Firewall) : Succeeded (execute os fw args).reply ↔
    WritesMap os fw.blacklist addr.sAddr ∨ os.iptablesSucceeds := by
  have hblocked : ∀ method, Succeeded (.ok (blocked method ip)) := fun method => ⟨_, rfl, rfl⟩
  have hnot : ¬ Succeeded (.ok notBlocked) := by
    intro h
    obtain ⟨v, hv, hstatus⟩ := h
    have hfailed : notBlocked.field (ascii "status") = some (.str (ascii "failed")) := rfl
    rw [← Except.ok.inj hv, hfailed, Option.some.injEq, Json.str.injEq] at hstatus
    exact absurd hstatus (by decide)
  rw [(execute_accepted hip haddr os fw).2]
  split_ifs with hw hipt
  · exact iff_of_true (hblocked _) (Or.inl hw)
  · exact iff_of_true (hblocked _) (Or.inr hipt)
  · exact iff_of_false hnot (not_or.mpr ⟨hw, hipt⟩)

/-- A successful call changes nothing only where it rewrites an entry of the map. -/
theorem same_execute_iff {os : Os} {fw : Firewall} (hsucc : Succeeded (execute os fw args).reply) :
    Same fw (execute os fw args).firewall ↔
      addr.sAddr ∈ fw.blacklist ∧ os.mapOpens ∧ os.updateAdmitted := by
  rw [succeeded_iff hip haddr] at hsucc
  rw [(execute_accepted hip haddr os fw).1]
  by_cases hw : WritesMap os fw.blacklist addr.sAddr
  · rw [if_pos hw, and_iff_left ⟨hw.1, hw.2.1⟩]
    constructor
    · intro hsame
      exact (hsame.2 addr.sAddr).mp ((AList.mem_insert _).mpr (Or.inl rfl))
    · intro hmem
      refine ⟨rfl, fun key => ?_⟩
      rw [AList.mem_insert]
      exact or_iff_right_of_imp (fun hkey => hkey ▸ hmem)
  · have hipt := hsucc.resolve_left hw
    rw [if_neg hw, if_pos hipt]
    refine iff_of_false (fun hsame => ?_) (fun h => hw ⟨h.2.1, h.2.2, Or.inl h.1⟩)
    have hrules := hsame.1
    simp at hrules

theorem same_after_iff (fw₀ : Firewall) {fw : Firewall} {later : List Os}
    (hsucc : ∀ reply ∈ (caller fw₀ args).outputs fw later, Succeeded reply) :
    Same fw ((caller fw₀ args).after fw later) ↔
      ∀ os ∈ later, addr.sAddr ∈ fw.blacklist ∧ os.mapOpens ∧ os.updateAdmitted := by
  induction later generalizing fw with
  | nil => exact iff_of_true ⟨rfl, fun _ => Iff.rfl⟩ (fun os hos => absurd hos List.not_mem_nil)
  | cons os later ih =>
    rw [Transducer.outputs_cons, List.forall_mem_cons] at hsucc
    have hgrows : Grows fw ((caller fw₀ args).step fw os).1 := execute_grows hip haddr os fw
    have hstep : Same fw ((caller fw₀ args).step fw os).1 ↔
        addr.sAddr ∈ fw.blacklist ∧ os.mapOpens ∧ os.updateAdmitted :=
      same_execute_iff hip haddr hsucc.1
    rw [Transducer.after_cons, List.forall_mem_cons,
      same_iff_of_grows hgrows (after_grows hip haddr fw₀ _ later), hstep]
    refine and_congr_right fun h => ?_
    have hkeys := (hstep.mpr h).2 addr.sAddr
    exact (ih hsucc.2).trans (by rw [hkeys])

end Valid

/-- After a successful call, further successful calls change nothing exactly where the
address is in the map by then and all of them write the map. -/
theorem repeated_iff {args : Json Bytes} {addr : Inet.IPv4} (haddr : target args = some addr)
    {fw : Firewall} {first : Os} {later : List Os}
    (hsucc : ∀ reply ∈ (caller fw args).answers (first :: later), Succeeded reply) :
    Same ((caller fw args).run [first]) ((caller fw args).run (first :: later)) ↔
      ∀ os ∈ later, (addr.sAddr ∈ fw.blacklist ∨ WritesMap first fw.blacklist addr.sAddr) ∧
        os.mapOpens ∧ os.updateAdmitted := by
  unfold target at haddr
  cases hip : stringValue args (ascii "ip") [] with
  | error e =>
    rw [hip] at haddr
    cases haddr
  | ok ip =>
    rw [hip] at haddr
    have hlater : ∀ reply ∈ (caller fw args).outputs ((caller fw args).run [first]) later,
        Succeeded reply := fun reply hreply => hsucc reply (List.mem_cons_of_mem _ hreply)
    have hkey : addr.sAddr ∈ ((caller fw args).run [first]).blacklist ↔
        addr.sAddr ∈ fw.blacklist ∨ WritesMap first fw.blacklist addr.sAddr := by
      show addr.sAddr ∈ (execute first fw args).firewall.blacklist ↔ _
      rw [(execute_accepted hip haddr first fw).1]
      split_ifs with hw
      · exact iff_of_true ((AList.mem_insert _).mpr (Or.inl rfl)) (Or.inr hw)
      · exact (or_iff_left hw).symm
      · exact (or_iff_left hw).symm
    rw [← hkey]
    exact same_after_iff hip haddr fw hlater

def sampleArgs : Json Bytes := .object [(ascii "ip", .str (Inet.inetNtop ⟨10, 0, 0, 9⟩))]

theorem target_sampleArgs : target sampleArgs = some ⟨10, 0, 0, 9⟩ := Inet.inetPton_inetNtop _

theorem succeeded_sample {os : Os} {fw : Firewall}
    (h : WritesMap os fw.blacklist (Inet.IPv4.mk 10 0 0 9).sAddr ∨ os.iptablesSucceeds) :
    Succeeded (execute os fw sampleArgs).reply :=
  (succeeded_iff rfl target_sampleArgs os fw).mpr h

/-- With the map in place a repetition changes nothing. -/
theorem repeated_sample :
    Same ((caller {} sampleArgs).run [⟨true, true, false⟩])
      ((caller {} sampleArgs).run [⟨true, true, false⟩, ⟨true, true, true⟩]) := by
  have hroom : WritesMap ⟨true, true, false⟩ (∅ : Table UInt32 UInt32) (Inet.IPv4.mk 10 0 0 9).sAddr :=
    ⟨rfl, rfl, Or.inr (by decide)⟩
  refine (repeated_iff target_sampleArgs ?_).mpr ?_
  · intro reply hreply
    rcases List.mem_cons.mp hreply with rfl | hreply
    · exact succeeded_sample (Or.inl hroom)
    · rw [List.mem_singleton.mp hreply]
      exact succeeded_sample (Or.inr rfl)
  · intro os hos
    rw [List.mem_singleton.mp hos]
    exact ⟨Or.inr hroom, rfl, rfl⟩

/-- Without the map every repetition appends the rule again. -/
theorem rule_repeated :
    (∀ reply ∈ (caller {} sampleArgs).answers [⟨false, false, true⟩, ⟨false, false, true⟩],
      Succeeded reply) ∧
    ¬ Same ((caller {} sampleArgs).run [⟨false, false, true⟩])
      ((caller {} sampleArgs).run [⟨false, false, true⟩, ⟨false, false, true⟩]) := by
  constructor
  · intro reply hreply
    rcases List.mem_cons.mp hreply with rfl | hreply
    · exact succeeded_sample (Or.inr rfl)
    · rw [List.mem_singleton.mp hreply]
      exact succeeded_sample (Or.inr rfl)
  · intro h
    have hrules := congrArg List.length h.1
    have htwo : ((caller {} sampleArgs).run [⟨false, false, true⟩, ⟨false, false, true⟩]).inputRules.length =
        2 := by decide +kernel
    have hone : ((caller {} sampleArgs).run [⟨false, false, true⟩]).inputRules.length = 1 := by decide +kernel
    rw [htwo, hone] at hrules
    exact absurd hrules (by decide)

end Aegis.Mcp.SecTools
