import Aegis.Lib.Transducer
import Mathlib.Data.Int.Notation
import Mathlib.Data.List.Nodup

/-! Loading the XDP program, `xdp_loader.cpp`, with libbpf available. The kernel keeps
what is attached to the interface, what is pinned at the path of the map, and the
objects opened and closed; whether a call succeeds is part of the input. -/
namespace Aegis.Ebpf

/-- Who a program or a pin belongs to: an object of this loader, or somebody else. -/
inductive Owner where
  | other
  | object (id : ℕ)
  deriving DecidableEq

def ours : Option Owner → Bool
  | some (.object _) => true
  | _ => false

structure Kernel where
  attached : Option Owner
  pin : Option Owner
  opened : ℕ := 0
  closed : List ℕ := []

namespace Kernel
variable (k : Kernel)

/-- `bpf_object__open_file`. Objects are numbered in the order of their opening. -/
def openFile : Kernel := { k with opened := k.opened + 1 }

/-- `bpf_xdp_attach` with `XDP_FLAGS_UPDATE_IF_NOEXIST` never replaces a program. -/
def xdpAttach (obj : ℕ) (ok : Bool) : Kernel × Bool :=
  if ok ∧ k.attached = none then ({ k with attached := some (.object obj) }, true) else (k, false)

def xdpDetach : Kernel := { k with attached := none }

def unlink : Kernel := { k with pin := none }

/-- `bpf_xdp_detach`, whose result nobody looks at. -/
def detachIf (ok : Bool) : Kernel := if ok then k.xdpDetach else k

/-- `unlink`, whose result nobody looks at. -/
def unlinkIf (ok : Bool) : Kernel := if ok then k.unlink else k

/-- `bpf_map__pin`, which does not replace a pin. -/
def pinMap (obj : ℕ) (ok : Bool) : Kernel × Bool :=
  if ok ∧ k.pin = none then ({ k with pin := some (.object obj) }, true) else (k, false)

/-- `bpf_object__close`. -/
def close (obj : ℕ) : Kernel := { k with closed := k.closed ++ [obj] }

end Kernel

structure XdpLoader where
  loaded : Bool := false
  ifindex : ℤ := -1
  bpfObj : Option ℕ := none
  progFd : Option ℕ := none

structure System where
  loader : XdpLoader := {}
  kernel : Kernel

/-- Which of the calls under one `load()` succeed. -/
structure LoadCalls where
  ifNameToIndex : Bool
  openFile : Bool
  load : Bool
  findProgram : Bool
  attach : Bool
  findMap : Bool
  pinMap : Bool

/-- Which of the removals under one call succeed. -/
structure Removals where
  detach : Bool
  unlink : Bool

/-- The number of the interface, which is never zero. -/
abbrev IfIndex := {n : ℤ // 0 < n}

section Loader
variable (index : IfIndex)

/-- The state with the lookup of step 1 done. -/
def System.resolve (s : System) (ok : Bool) : System :=
  { s with loader := { s.loader with ifindex := if ok then index else 0 } }

/-- Steps 5 and 6, with the program of the object found. -/
def System.attachAndPinWith (s : System) (c : LoadCalls) (r : Removals) (obj : ℕ) : System × Bool :=
  let s := { s with loader := { s.loader with progFd := some obj } }
  let (kernel, attached) := s.kernel.xdpAttach obj c.attach
  if !attached then ({ s with kernel := kernel }, false)
  else if !c.findMap then ({ s with kernel := kernel.detachIf r.detach }, false)
  else
    let (kernel, pinned) := (kernel.unlinkIf r.unlink).pinMap obj c.pinMap
    if !pinned then ({ s with kernel := kernel.detachIf r.detach }, false)
    else ({ loader := { s.loader with loaded := true }, kernel := kernel }, true)

/-- `load()`. -/
def System.loadWith (s : System) (c : LoadCalls) (r : Removals) : System × Bool :=
  let s := s.resolve index c.ifNameToIndex
  if s.loader.ifindex = 0 then (s, false)
  else if !c.openFile then (s, false)
  else
    let obj := s.kernel.opened
    let s : System :=
      { loader := { s.loader with bpfObj := some obj }, kernel := s.kernel.openFile }
    if !c.load then (s, false)
    else if !c.findProgram then (s, false)
    else s.attachAndPinWith c r obj

/-- `unload()`. -/
def System.unloadWith (s : System) (r : Removals) : System where
  loader := { s.loader with loaded := false, progFd := none }
  kernel := if 0 < s.loader.ifindex then (s.kernel.detachIf r.detach).unlinkIf r.unlink
    else s.kernel

/-- Every removal succeeds. -/
def removing : Removals := ⟨true, true⟩

def System.load (s : System) (c : LoadCalls) : System × Bool := s.loadWith index c removing

def System.unload (s : System) : System := s.unloadWith removing

/-- The first line of the destructor. -/
def System.unloaded (s : System) : System := if s.loader.loaded then s.unload else s

/-- `~XdpLoader()`: what it leaves in the kernel. -/
def System.destroy (s : System) : Kernel :=
  match s.unloaded.loader.bpfObj with
  | some obj => s.unloaded.kernel.close obj
  | none => s.unloaded.kernel

inductive Call where
  | load (c : LoadCalls)
  | unload

/-- A loader under any sequence of calls, with what `load()` returns. -/
def xdpLoader (k : Kernel) : Transducer System Call (Option Bool) where
  init := { kernel := k }
  step
    | s, .load c => ((s.load index c).1, some (s.load index c).2)
    | s, .unload => (s.unload, none)

end Loader

/-! What one call does. -/

/-- An attempt that left nothing of this loader. Only where nothing was attached it may
have removed a pin. -/
structure LeftNothing (s t : System) : Prop where
  loaded : t.loader.loaded = s.loader.loaded
  attached : t.kernel.attached = s.kernel.attached
  pin : t.kernel.pin = s.kernel.pin ∨ s.kernel.attached = none ∧ t.kernel.pin = none

/-- An attempt that attached and pinned the object. -/
structure TookHold (s t : System) (obj : ℕ) : Prop where
  loaded : t.loader.loaded = true
  free : s.kernel.attached = none
  attached : t.kernel.attached = some (.object obj)
  pin : t.kernel.pin = some (.object obj)

structure NotOpened (index : IfIndex) (c : LoadCalls) (s t : System) : Prop where
  calls : ¬ (c.ifNameToIndex = true ∧ c.openFile = true)
  kernel : t.kernel = s.kernel
  loaded : t.loader.loaded = s.loader.loaded
  bpfObj : t.loader.bpfObj = s.loader.bpfObj
  ifindex : t.loader.ifindex = if c.ifNameToIndex then index.val else 0

structure Opened (index : IfIndex) (c : LoadCalls) (s t : System) : Prop where
  calls : c.ifNameToIndex = true ∧ c.openFile = true
  bpfObj : t.loader.bpfObj = some s.kernel.opened
  ifindex : t.loader.ifindex = index
  opened : t.kernel.opened = s.kernel.opened + 1
  closed : t.kernel.closed = s.kernel.closed
  effect : LeftNothing s t ∨ TookHold s t s.kernel.opened

section Steps
variable (index : IfIndex) (s : System) (c : LoadCalls)

theorem attachAndPinWith_frame (obj : ℕ) :
    (s.attachAndPinWith c removing obj).1.loader.bpfObj = s.loader.bpfObj ∧
      (s.attachAndPinWith c removing obj).1.loader.ifindex = s.loader.ifindex ∧
      (s.attachAndPinWith c removing obj).1.kernel.opened = s.kernel.opened ∧
      (s.attachAndPinWith c removing obj).1.kernel.closed = s.kernel.closed := by
  unfold System.attachAndPinWith Kernel.xdpAttach Kernel.pinMap
  dsimp only
  split_ifs <;> exact ⟨rfl, rfl, rfl, rfl⟩

theorem attachAndPinWith_effect (obj : ℕ) :
    LeftNothing s (s.attachAndPinWith c removing obj).1 ∨
      TookHold s (s.attachAndPinWith c removing obj).1 obj := by
  unfold System.attachAndPinWith Kernel.xdpAttach
  by_cases hattach : c.attach = true ∧ s.kernel.attached = none
  swap
  · simp only [hattach, if_false]
    exact Or.inl ⟨rfl, rfl, Or.inl rfl⟩
  have hfree := hattach.2
  simp only [hattach, and_self, if_true, Bool.not_true, Bool.false_eq_true, if_false]
  cases c.findMap with
  | false => exact Or.inl ⟨rfl, hfree.symm, Or.inl rfl⟩
  | true =>
    cases hpin : c.pinMap with
    | false => exact Or.inl ⟨rfl, hfree.symm, Or.inr ⟨hfree, rfl⟩⟩
    | true => exact Or.inr ⟨rfl, hfree, rfl, rfl⟩

theorem load_cases :
    NotOpened index c s (s.load index c).1 ∨ Opened index c s (s.load index c).1 := by
  have hindex : (index : ℤ) ≠ 0 := (Int.ne_of_lt index.2).symm
  unfold System.load System.loadWith System.resolve
  cases hname : c.ifNameToIndex with
  | false =>
    refine Or.inl ⟨?_, rfl, rfl, rfl, ?_⟩
    · rw [hname]
      exact fun h => Bool.false_ne_true h.1
    · rw [hname]
      rfl
  | true =>
    simp only [if_true, hindex, if_false]
    cases hopen : c.openFile with
    | false =>
      refine Or.inl ⟨?_, rfl, rfl, rfl, ?_⟩
      · rw [hopen]
        exact fun h => Bool.false_ne_true h.2
      · rw [hname]
        rfl
    | true =>
      simp only [Bool.not_true, Bool.false_eq_true, if_false]
      cases c.load with
      | false => exact Or.inr ⟨⟨hname, hopen⟩, rfl, rfl, rfl, rfl, Or.inl ⟨rfl, rfl, Or.inl rfl⟩⟩
      | true =>
        cases c.findProgram with
        | false =>
          exact Or.inr ⟨⟨hname, hopen⟩, rfl, rfl, rfl, rfl, Or.inl ⟨rfl, rfl, Or.inl rfl⟩⟩
        | true =>
          simp only [Bool.not_true, Bool.false_eq_true, if_false]
          set t : System := ⟨⟨s.loader.loaded, index, some s.kernel.opened, s.loader.progFd⟩,
            s.kernel.openFile⟩ with ht
          obtain ⟨hobj, hifindex, hopened, hclosed⟩ := attachAndPinWith_frame t c s.kernel.opened
          refine Or.inr ⟨⟨hname, hopen⟩, hobj, hifindex, hopened, hclosed, ?_⟩
          rcases attachAndPinWith_effect t c s.kernel.opened with h | h
          · exact Or.inl ⟨h.loaded, h.attached, h.pin⟩
          · exact Or.inr ⟨h.loaded, h.free, h.attached, h.pin⟩

end Steps

/-! Invariants of the runs. -/

/-- In every state: what is loaded is attached and pinned, and no object is closed before
the destruction. -/
structure Held (s : System) : Prop where
  attached : s.loader.loaded = true → ours s.kernel.attached = true
  pin : s.loader.loaded = true → ours s.kernel.pin = true
  closed : s.kernel.closed = []
  opened : s.loader.bpfObj ≠ none → 1 ≤ s.kernel.opened

/-- As long as no object is forgotten: what is attached or pinned is loaded, and the only
object ever opened is still known. -/
structure Accounted (s : System) : Prop where
  attached : ours s.kernel.attached = s.loader.loaded
  pin : ours s.kernel.pin = s.loader.loaded
  closed : s.kernel.closed = []
  objects : s.loader.bpfObj = none ∧ s.kernel.opened = 0 ∨
    s.loader.bpfObj = some 0 ∧ s.kernel.opened = 1
  ifindex : s.loader.loaded = true → 0 ≤ s.loader.ifindex

/-- The loader is loaded, and its last lookup of the interface failed. -/
def System.Stale (s : System) : Prop := s.loader.loaded = true ∧ s.loader.ifindex = 0

/-- The call opens an object while the loader has one. -/
def System.Reopens (s : System) (c : LoadCalls) : Prop :=
  c.ifNameToIndex = true ∧ c.openFile = true ∧ s.loader.bpfObj ≠ none

section Invariants
variable {index : IfIndex} {s : System}

theorem held_load (h : Held s) (c : LoadCalls) : Held (s.load index c).1 := by
  rcases load_cases index s c with hload | hload
  · have hkernel := hload.kernel
    refine ⟨?_, ?_, ?_, ?_⟩
    · rw [hload.loaded, hkernel]
      exact h.attached
    · rw [hload.loaded, hkernel]
      exact h.pin
    · rw [hkernel]
      exact h.closed
    · rw [hload.bpfObj, hkernel]
      exact h.opened
  · have hclosed := hload.closed.trans h.closed
    have hopened : 1 ≤ (s.load index c).1.kernel.opened := by
      rw [hload.opened]
      omega
    rcases hload.effect with heffect | heffect
    · refine ⟨?_, ?_, hclosed, fun _ => hopened⟩
      · rw [heffect.loaded, heffect.attached]
        exact h.attached
      · intro hloaded
        rw [heffect.loaded] at hloaded
        rcases heffect.pin with hpin | hpin
        · rw [hpin]
          exact h.pin hloaded
        · have hattached := h.attached hloaded
          rw [hpin.1] at hattached
          cases hattached
    · refine ⟨fun _ => ?_, fun _ => ?_, hclosed, fun _ => hopened⟩
      · rw [heffect.attached]
        rfl
      · rw [heffect.pin]
        rfl

/-- An unload opens and closes no object. -/
theorem unload_frame (s : System) : s.unload.kernel.closed = s.kernel.closed ∧
    s.unload.kernel.opened = s.kernel.opened := by
  unfold System.unload System.unloadWith
  dsimp only
  split_ifs <;> exact ⟨rfl, rfl⟩

theorem held_unload (h : Held s) : Held s.unload := by
  obtain ⟨hclosed, hopened⟩ := unload_frame s
  refine ⟨fun hno => ?_, fun hno => ?_, hclosed.trans h.closed, ?_⟩
  · cases hno
  · cases hno
  · rw [hopened]
    exact h.opened

theorem accounted_load (h : Accounted s) {c : LoadCalls} (hc : ¬ s.Reopens c) :
    Accounted (s.load index c).1 := by
  rcases load_cases index s c with hload | hload
  · refine ⟨?_, ?_, ?_, ?_, ?_⟩
    · rw [hload.kernel, hload.loaded]
      exact h.attached
    · rw [hload.kernel, hload.loaded]
      exact h.pin
    · rw [hload.kernel]
      exact h.closed
    · rw [hload.kernel, hload.bpfObj]
      exact h.objects
    · intro _
      rw [hload.ifindex]
      split_ifs
      · exact Int.le_of_lt index.2
      · exact Int.le_refl 0
  · have hfirst : s.loader.bpfObj = none := by
      by_contra hobj
      exact hc ⟨hload.calls.1, hload.calls.2, hobj⟩
    have hzero : s.kernel.opened = 0 := by
      rcases h.objects with hnone | hsome
      · exact hnone.2
      · rw [hsome.1] at hfirst
        cases hfirst
    have hobjects : (s.load index c).1.loader.bpfObj = some 0 ∧
        (s.load index c).1.kernel.opened = 1 := by
      rw [hload.bpfObj, hload.opened, hzero]
      exact ⟨rfl, rfl⟩
    have hifindex : 0 ≤ (s.load index c).1.loader.ifindex := by
      rw [hload.ifindex]
      exact Int.le_of_lt index.2
    have hclosed := hload.closed.trans h.closed
    rcases hload.effect with heffect | heffect
    · refine ⟨?_, ?_, hclosed, Or.inr hobjects, fun _ => hifindex⟩
      · rw [heffect.attached, heffect.loaded]
        exact h.attached
      · rw [heffect.loaded]
        rcases heffect.pin with hpin | hpin
        · rw [hpin]
          exact h.pin
        · have hattached := h.attached
          rw [hpin.1] at hattached
          rw [hpin.2, ← hattached]
    · refine ⟨?_, ?_, hclosed, Or.inr hobjects, fun _ => hifindex⟩
      · rw [heffect.attached, heffect.loaded]
        rfl
      · rw [heffect.pin, heffect.loaded]
        rfl

theorem accounted_unload (h : Accounted s) (hs : ¬ s.Stale) : Accounted s.unload := by
  obtain ⟨hclosed, hopened⟩ := unload_frame s
  have hfree : ours s.unload.kernel.attached = false ∧ ours s.unload.kernel.pin = false := by
    by_cases hpos : 0 < s.loader.ifindex
    · have hkernel : s.unload.kernel = s.kernel.xdpDetach.unlink := if_pos hpos
      rw [hkernel]
      exact ⟨rfl, rfl⟩
    · have hidle : s.loader.loaded = false := by
        by_contra hloaded
        rw [Bool.not_eq_false] at hloaded
        have hnonneg := h.ifindex hloaded
        exact hs ⟨hloaded, by omega⟩
      have hkernel : s.unload.kernel = s.kernel := if_neg hpos
      have hattached := h.attached
      have hpin := h.pin
      rw [hidle] at hattached hpin
      rw [hkernel]
      exact ⟨hattached, hpin⟩
  refine ⟨hfree.1, hfree.2, hclosed.trans h.closed, ?_, fun hno => ?_⟩
  · rw [hopened]
    exact h.objects
  · cases hno

theorem two_le_opened_step {call : Call} (h : 2 ≤ s.kernel.opened) {k : Kernel} :
    2 ≤ ((xdpLoader index k).step s call).1.kernel.opened := by
  cases call with
  | load c =>
    show 2 ≤ (s.load index c).1.kernel.opened
    rcases load_cases index s c with hload | hload
    · rw [hload.kernel]
      exact h
    · rw [hload.opened]
      omega
  | unload =>
    show 2 ≤ s.unload.kernel.opened
    rw [(unload_frame s).2]
    exact h

end Invariants

/-! The whole life of a loader. -/

theorem destroy_frame (s : System) :
    s.destroy.attached = s.unloaded.kernel.attached ∧ s.destroy.pin = s.unloaded.kernel.pin ∧
      s.destroy.opened = s.unloaded.kernel.opened ∧
      s.destroy.closed = s.unloaded.kernel.closed ++ s.unloaded.loader.bpfObj.toList := by
  unfold System.destroy
  cases s.unloaded.loader.bpfObj with
  | none => simp
  | some obj => exact ⟨rfl, rfl, rfl, rfl⟩

/-- Attached and pinned by others only, and no objects. -/
def priorKernel (attached pin : Bool) : Kernel where
  attached := if attached then some .other else none
  pin := if pin then some .other else none

section Life
variable (index : IfIndex) (attached pin : Bool)

def stateAfter (calls : List Call) : System :=
  (xdpLoader index (priorKernel attached pin)).run calls

/-- After the destruction nothing of this loader is attached, pinned or open, and before
it the loader is loaded exactly while its program is attached and its map pinned. -/
structure Releases (calls : List Call) : Prop where
  isLoaded : ∀ pre post, calls = pre ++ post →
    ((stateAfter index attached pin pre).loader.loaded = true ↔
      ours (stateAfter index attached pin pre).kernel.attached = true ∧
        ours (stateAfter index attached pin pre).kernel.pin = true)
  detached : ours (stateAfter index attached pin calls).destroy.attached = false
  unpinned : ours (stateAfter index attached pin calls).destroy.pin = false
  objects : ∀ obj < (stateAfter index attached pin calls).destroy.opened,
    (stateAfter index attached pin calls).destroy.closed.count obj = 1

/-- No `load()` gets to open an object while the loader has one, and no `unload()` of a
loaded loader comes after a failed lookup. -/
def CallOk (s : System) : Call → Prop
  | .load c => ¬ s.Reopens c
  | .unload => ¬ s.Stale

/-- All calls and the destruction find the loader in order. -/
structure Orderly (calls : List Call) : Prop where
  each : ∀ pre call post, calls = pre ++ call :: post →
    CallOk (stateAfter index attached pin pre) call
  destruction : ¬ (stateAfter index attached pin calls).Stale

variable {index attached pin}

theorem held_run (calls : List Call) : Held (stateAfter index attached pin calls) := by
  refine Transducer.run_preserves (M := xdpLoader index (priorKernel attached pin)) (P := Held)
    ⟨?_, ?_, rfl, ?_⟩ ?_ calls
  · exact fun h => absurd h Bool.false_ne_true
  · exact fun h => absurd h Bool.false_ne_true
  · exact fun h => absurd rfl h
  · intro s call h
    cases call with
    | load c => exact held_load h c
    | unload => exact held_unload h

theorem accounted_run {calls : List Call} (h : ∀ pre call post, calls = pre ++ call :: post →
    CallOk (stateAfter index attached pin pre) call) :
    Accounted (stateAfter index attached pin calls) := by
  induction calls using List.reverseRecOn with
  | nil =>
    refine ⟨?_, ?_, rfl, Or.inl ⟨rfl, rfl⟩, fun hno => absurd hno Bool.false_ne_true⟩
    · cases attached <;> rfl
    · cases pin <;> rfl
  | append_singleton calls call ih =>
    rw [Transducer.forall_history_concat] at h
    have hbefore := ih h.1
    unfold stateAfter at h hbefore ⊢
    rw [Transducer.run_concat]
    cases call with
    | load c => exact accounted_load hbefore h.2
    | unload => exact accounted_unload hbefore h.2

theorem releases_of_orderly {calls : List Call} (h : Orderly index attached pin calls) :
    Releases index attached pin calls := by
  have hstate : ∀ pre post, calls = pre ++ post →
      Accounted (stateAfter index attached pin pre) := by
    intro pre post hsplit
    apply accounted_run
    intro pre' call post' hpre
    apply h.each pre' call (post' ++ post)
    rw [hsplit, hpre]
    simp
  set s := stateAfter index attached pin calls with hs
  have hlast : Accounted s := hstate calls [] (List.append_nil _).symm
  have hidle : Accounted s.unloaded ∧ s.unloaded.loader.loaded = false := by
    unfold System.unloaded
    by_cases hloaded : s.loader.loaded = true
    · rw [if_pos hloaded]
      exact ⟨accounted_unload hlast h.destruction, rfl⟩
    · rw [if_neg hloaded]
      exact ⟨hlast, Bool.not_eq_true _ ▸ hloaded⟩
  obtain ⟨hfinal, hidle⟩ := hidle
  obtain ⟨hattached, hpin, hopened, hclosed⟩ := destroy_frame s
  refine ⟨?_, ?_, ?_, ?_⟩
  · intro pre post hsplit
    have hpre := hstate pre post hsplit
    rw [hpre.attached, hpre.pin]
    exact (and_self_iff).symm
  · rw [hattached, hfinal.attached, hidle]
  · rw [hpin, hfinal.pin, hidle]
  · intro obj hobj
    rw [hopened] at hobj
    rw [hclosed, hfinal.closed]
    rcases hfinal.objects with hnone | hsome
    · omega
    · have hzero : obj = 0 := by omega
      rw [hsome.1, hzero]
      rfl

/-- An unload after a failed lookup leaves everything in place. -/
theorem unload_stale {s : System} (h : s.Stale) : s.unload.kernel = s.kernel := by
  unfold System.unload System.unloadWith
  rw [h.2]
  rfl

/-- A second object is never closed along with the first. -/
theorem not_closed_of_two_opened {s : System} (hheld : Held s) (htwo : 2 ≤ s.kernel.opened) :
    ¬ ∀ obj < s.destroy.opened, s.destroy.closed.count obj = 1 := by
  intro h
  obtain ⟨-, -, hopened, hclosed⟩ := destroy_frame s
  have hkernel : s.unloaded.kernel.closed = s.kernel.closed ∧
      s.unloaded.kernel.opened = s.kernel.opened := by
    unfold System.unloaded
    split_ifs
    · exact unload_frame s
    · exact ⟨rfl, rfl⟩
  rw [hkernel.1, hheld.closed, List.nil_append] at hclosed
  rw [hopened, hkernel.2, hclosed] at h
  have hzero := h 0 (by omega)
  have hone := h 1 (by omega)
  cases hobj : s.unloaded.loader.bpfObj with
  | none =>
    rw [hobj] at hzero
    cases hzero
  | some obj =>
    simp only [hobj, Option.toList_some, List.count_singleton] at hzero hone
    split_ifs at hzero with h0
    split_ifs at hone with h1
    simp only [beq_iff_eq] at h0 h1
    omega

theorem orderly_of_releases {calls : List Call} (h : Releases index attached pin calls) :
    Orderly index attached pin calls := by
  refine ⟨?_, ?_⟩
  · intro pre call post hsplit
    have hheld : Held (stateAfter index attached pin pre) := held_run pre
    cases call with
    | load c =>
      intro hreopens
      have htwo : 2 ≤ ((stateAfter index attached pin pre).load index c).1.kernel.opened := by
        rcases load_cases index (stateAfter index attached pin pre) c with hload | hload
        · exact absurd ⟨hreopens.1, hreopens.2.1⟩ hload.calls
        · have hfirst := hheld.opened hreopens.2.2
          rw [hload.opened]
          omega
      have hlast : 2 ≤ (stateAfter index attached pin calls).kernel.opened := by
        rw [hsplit, stateAfter, Transducer.run_append, Transducer.after_cons]
        exact Transducer.after_preserves (P := fun s : System => 2 ≤ s.kernel.opened)
          (fun s call hs => two_le_opened_step hs) htwo post
      exact not_closed_of_two_opened (held_run calls) hlast h.objects
    | unload =>
      intro hstale
      have hafter : stateAfter index attached pin (pre ++ [.unload]) =
          (stateAfter index attached pin pre).unload := Transducer.run_concat _ _ _
      have hloaded := h.isLoaded (pre ++ [.unload]) post (by rw [hsplit]; simp)
      rw [hafter, unload_stale hstale] at hloaded
      have hno := hloaded.mpr ⟨hheld.attached hstale.1, hheld.pin hstale.1⟩
      cases hno
  · intro hstale
    obtain ⟨hattached, -⟩ := destroy_frame (stateAfter index attached pin calls)
    have hunloaded : (stateAfter index attached pin calls).unloaded.kernel =
        (stateAfter index attached pin calls).kernel := by
      rw [System.unloaded, if_pos hstale.1, unload_stale hstale]
    have hdetached := h.detached
    rw [hattached, hunloaded, (held_run calls).attached hstale.1] at hdetached
    cases hdetached

/-- A loader releases everything it acquired exactly if no `load()` opens an object while
the loader has one and no loaded loader is unloaded or destroyed after a failed lookup. -/
theorem releases_iff (index : IfIndex) (attached pin : Bool) (calls : List Call) :
    Releases index attached pin calls ↔ Orderly index attached pin calls :=
  ⟨orderly_of_releases, releases_of_orderly⟩

end Life

def allSucceed : LoadCalls := ⟨true, true, true, true, true, true, true⟩

/-- The object of the first of two loads is never closed. -/
theorem reload_leaks :
    ¬ Releases ⟨2, by decide⟩ false false [.load allSucceed, .unload, .load allSucceed] := by
  intro h
  have hcount := h.objects 0 (by decide +kernel)
  exact absurd hcount (by decide +kernel)

end Aegis.Ebpf
