import Aegis.Lib.Inet
import Aegis.Lib.Json
import Aegis.Lib.Table

/-! `block_malicious_ip`, `sec_tools.cpp`, on the state of the firewall. -/
namespace Aegis.Mcp

/-- What an accessor of the JSON library throws. -/
inductive JsonError where
  | typeError (id : ℕ)
  deriving DecidableEq

/-- `args.value(key, fallback)` for a string. -/
def stringValue (args : Json Bytes) (key fallback : Bytes) : Except JsonError Bytes :=
  match args with
  | .obj _ =>
    match args.field key with
    | none => .ok fallback
    | some (.str s) => .ok s
    | some _ => .error (.typeError 302)
  | _ => .error (.typeError 306)

/-- The pinned map and the rules appended to the INPUT chain. -/
structure Firewall where
  blacklist : Table UInt32 UInt32 := ∅
  inputRules : List Bytes := []

/-- How the system calls of one execution turn out. -/
structure Os where
  mapOpens : Bool
  updateAdmitted : Bool
  iptablesSucceeds : Bool
  deriving DecidableEq

namespace SecTools

def maxEntries : ℕ := 100000

/-- `BPF_MAP_UPDATE_ELEM` with `BPF_ANY`: a new key needs a free entry. -/
def rawBpfMapUpdate (os : Os) (m : Table UInt32 UInt32) (key value : UInt32) :
    Option (Table UInt32 UInt32) :=
  if os.updateAdmitted ∧ (key ∈ m ∨ m.entries.length < maxEntries) then some (m.insert key value)
  else none

def iptablesBlock (os : Os) (rules : List Bytes) (ip : Bytes) : Option (List Bytes) :=
  if os.iptablesSucceeds then some (rules ++ [Inet.cString ip]) else none

def invalidIp : Json Bytes :=
  .object [(ascii "status", .str (ascii "failed")), (ascii "error", .str (ascii "Invalid IPv4 format."))]

def blocked (method ip : Bytes) : Json Bytes :=
  .object [(ascii "status", .str (ascii "success")), (ascii "method", .str method),
    (ascii "ip", .str ip)]

def notBlocked : Json Bytes :=
  .object [(ascii "status", .str (ascii "failed")),
    (ascii "error", .str (ascii "Both eBPF and iptables failed. Need root privileges."))]

/-- An execution: the firewall it leaves, its insertions into stdout and its reply. -/
structure Execution where
  firewall : Firewall
  stdout : List Bytes
  reply : Except JsonError (Json Bytes)

/-- The path that is left when the map was not written. -/
def fallback (os : Os) (fw : Firewall) (log : List Bytes) (ip : Bytes) : Execution :=
  match iptablesBlock os fw.inputRules ip with
  | some rules => ⟨{ fw with inputRules := rules }, log, .ok (blocked (ascii "iptables_fallback") ip)⟩
  | none => ⟨fw, log, .ok notBlocked⟩

def execute (os : Os) (fw : Firewall) (args : Json Bytes) : Execution :=
  match stringValue args (ascii "ip") [] with
  | .error e => ⟨fw, [], .error e⟩
  | .ok ip =>
    match Inet.inetPton ip with
    | none => ⟨fw, [], .ok invalidIp⟩
    | some addr =>
      let log := [ascii "[SecTools] Blocking IP: ", ip, ascii "\n"]
      if os.mapOpens then
        match rawBpfMapUpdate os fw.blacklist addr.sAddr 1 with
        | some m => ⟨{ fw with blacklist := m }, log, .ok (blocked (ascii "ebpf_xdp") ip)⟩
        | none => fallback os fw log ip
      else fallback os fw log ip

/-- The address an argument object names, if its text is accepted. -/
def target (args : Json Bytes) : Option Inet.IPv4 :=
  match stringValue args (ascii "ip") [] with
  | .error _ => none
  | .ok ip => Inet.inetPton ip

/-- The reply reports that the map was written. -/
def ReportsXdp (reply : Except JsonError (Json Bytes)) : Prop :=
  ∃ v, reply = .ok v ∧ ∃ m, v.field (ascii "method") = some (.str m) ∧ m = ascii "ebpf_xdp"

theorem field_blocked (method ip : Bytes) :
    (blocked method ip).field (ascii "method") = some (.str method) := rfl

theorem reportsXdp_blocked (method ip : Bytes) :
    ReportsXdp (.ok (blocked method ip)) ↔ method = ascii "ebpf_xdp" := by
  unfold ReportsXdp
  constructor
  · intro h
    obtain ⟨v, hv, m, hm, hxdp⟩ := h
    rw [← Except.ok.inj hv, field_blocked] at hm
    cases hm
    exact hxdp
  · intro h
    exact ⟨_, rfl, method, field_blocked method ip, h⟩

private theorem not_reportsXdp_ok {v : Json Bytes} (h : v.field (ascii "method") = none) :
    ¬ ReportsXdp (.ok v) := by
  intro hx
  obtain ⟨w, hw, m, hm, -⟩ := hx
  rw [← Except.ok.inj hw, h] at hm
  cases hm

theorem fallback_spec (os : Os) (fw : Firewall) (log : List Bytes) (ip : Bytes) :
    (fallback os fw log ip).firewall.blacklist = fw.blacklist ∧
      ¬ ReportsXdp (fallback os fw log ip).reply := by
  unfold fallback
  cases iptablesBlock os fw.inputRules ip with
  | some rules =>
    refine ⟨rfl, ?_⟩
    rw [reportsXdp_blocked]
    decide
  | none => exact ⟨rfl, not_reportsXdp_ok rfl⟩

/-- An execution either reports the map path, and has then written the address it was
given, or has left the map alone. -/
theorem execute_cases (os : Os) (fw : Firewall) (args : Json Bytes) :
    (ReportsXdp (execute os fw args).reply ∧ ∃ addr, target args = some addr ∧
      (execute os fw args).firewall.blacklist = fw.blacklist.insert addr.sAddr 1) ∨
    (¬ ReportsXdp (execute os fw args).reply ∧
      (execute os fw args).firewall.blacklist = fw.blacklist) := by
  unfold execute target
  cases hip : stringValue args (ascii "ip") [] with
  | error e =>
    right
    refine ⟨fun h => ?_, rfl⟩
    obtain ⟨v, hv, -⟩ := h
    cases hv
  | ok ip =>
    dsimp only
    cases haddr : Inet.inetPton ip with
    | none => exact Or.inr ⟨not_reportsXdp_ok rfl, rfl⟩
    | some addr =>
      dsimp only
      have hfall := fallback_spec os fw [ascii "[SecTools] Blocking IP: ", ip, ascii "\n"] ip
      split_ifs with hopen
      · unfold rawBpfMapUpdate
        split_ifs with hroom
        · left
          exact ⟨(reportsXdp_blocked _ ip).mpr rfl, addr, rfl, rfl⟩
        · exact Or.inr ⟨hfall.2, hfall.1⟩
      · exact Or.inr ⟨hfall.2, hfall.1⟩

end SecTools

end Aegis.Mcp
