import Aegis.Ebpf.XdpLoader

/-! The loader beside other users of the interface and of the pin path, `xdp_loader.cpp`.
Here the removals may fail, and others may act between two calls of the loader. -/
namespace Aegis.Ebpf

/-- A call of the loader, or somebody else who replaces or removes what is attached to the
interface or pinned at the path. -/
inductive HookEvent where
  | load (c : LoadCalls) (r : Removals)
  | unload (r : Removals)
  | interface (occupied : Bool)
  | pinPath (occupied : Bool)

def somebodyElse (occupied : Bool) : Option Owner := if occupied then some .other else none

def sharedLoader (index : IfIndex) (k : Kernel) : Transducer System HookEvent (Option Bool) where
  init := { kernel := k }
  step
    | s, .load c r => ((s.loadWith index c r).1, some (s.loadWith index c r).2)
    | s, .unload r => (s.unloadWith r, none)
    | s, .interface occupied =>
      ({ s with kernel := { s.kernel with attached := somebodyElse occupied } }, none)
    | s, .pinPath occupied =>
      ({ s with kernel := { s.kernel with pin := somebodyElse occupied } }, none)

/-- The program on the interface and the pin are what they were. -/
def Untouched (s t : System) : Prop :=
  t.kernel.attached = s.kernel.attached ∧ t.kernel.pin = s.kernel.pin

/-- A `load()` that returns false, or an `unload()` while nothing of the loader is
attached, touches nothing. -/
def HarmsNobody (index : IfIndex) (s : System) : HookEvent → Prop
  | .load c r => (s.loadWith index c r).2 = false → Untouched s (s.loadWith index c r).1
  | .unload r => ours s.kernel.attached = false → Untouched s (s.unloadWith r)
  | _ => True

/-- The call gets as far as attaching its program. -/
structure System.Attaches (s : System) (c : LoadCalls) : Prop where
  ifNameToIndex : c.ifNameToIndex = true
  openFile : c.openFile = true
  load : c.load = true
  findProgram : c.findProgram = true
  attach : c.attach = true
  free : s.kernel.attached = none

/-- The map is there, and the path is free for it. -/
structure System.Pins (s : System) (c : LoadCalls) (r : Removals) : Prop where
  findMap : c.findMap = true
  pinMap : c.pinMap = true
  free : s.kernel.pin = none ∨ r.unlink = true

/-- A `load()` that attaches either pins its map, or takes its program off again and has
removed no pin. An `unload()` finds the loader attached, or without an interface, or
nothing that it could remove. -/
def Spares (s : System) : HookEvent → Prop
  | .load c r => s.Attaches c → ¬ s.Pins c r →
      r.detach = true ∧ (c.findMap = true → s.kernel.pin = none ∨ r.unlink = false)
  | .unload r => ours s.kernel.attached = true ∨ s.loader.ifindex ≤ 0 ∨
      (s.kernel.attached = none ∨ r.detach = false) ∧ (s.kernel.pin = none ∨ r.unlink = false)
  | _ => True

section Steps
variable {index : IfIndex} {s : System} {c : LoadCalls} {r : Removals}

theorem loadWith_of_not_attaches (h : ¬ s.Attaches c) : Untouched s (s.loadWith index c r).1 := by
  have hindex : (index : ℤ) ≠ 0 := (Int.ne_of_lt index.2).symm
  unfold System.loadWith System.resolve System.attachAndPinWith Kernel.xdpAttach
  cases hname : c.ifNameToIndex with
  | false => exact ⟨rfl, rfl⟩
  | true =>
    simp only [if_true, hindex, if_false]
    cases hopen : c.openFile with
    | false => exact ⟨rfl, rfl⟩
    | true =>
      cases hload : c.load with
      | false => exact ⟨rfl, rfl⟩
      | true =>
        cases hfind : c.findProgram with
        | false => exact ⟨rfl, rfl⟩
        | true =>
          have hno : ¬ (c.attach = true ∧ s.kernel.openFile.attached = none) := by
            rintro ⟨hattach, hfree⟩
            exact h ⟨hname, hopen, hload, hfind, hattach, hfree⟩
          simp only [Bool.not_true, Bool.false_eq_true, if_false, hno, Bool.not_false, if_true]
          exact ⟨rfl, rfl⟩

@[simp] theorem detachIf_pin (k : Kernel) (ok : Bool) : (k.detachIf ok).pin = k.pin := by
  cases ok <;> rfl

@[simp] theorem unlinkIf_attached (k : Kernel) (ok : Bool) :
    (k.unlinkIf ok).attached = k.attached := by
  cases ok <;> rfl

theorem detachIf_attached (k : Kernel) (ok : Bool) :
    (k.detachIf ok).attached = if ok = true then none else k.attached := by
  cases ok <;> rfl

theorem unlinkIf_pin (k : Kernel) (ok : Bool) :
    (k.unlinkIf ok).pin = if ok = true then none else k.pin := by
  cases ok <;> rfl

/-- The kernel with the program of the new object on the interface. -/
def System.taken (s : System) : Kernel :=
  { s.kernel.openFile with attached := some (.object s.kernel.opened) }

/-- The loader with the program of the new object found. -/
def System.holding (s : System) (index : IfIndex) : XdpLoader :=
  ⟨s.loader.loaded, index, some s.kernel.opened, some s.kernel.opened⟩

/-- What is left of `load()` once its program is attached. -/
theorem loadWith_of_attaches (h : s.Attaches c) :
    s.loadWith index c r =
      if !c.findMap then (⟨s.holding index, s.taken.detachIf r.detach⟩, false)
      else
        let pinned := (s.taken.unlinkIf r.unlink).pinMap s.kernel.opened c.pinMap
        if !pinned.2 then (⟨s.holding index, pinned.1.detachIf r.detach⟩, false)
        else (⟨{ s.holding index with loaded := true }, pinned.1⟩, true) := by
  have hindex : (index : ℤ) ≠ 0 := (Int.ne_of_lt index.2).symm
  have hfree : s.kernel.openFile.attached = none := h.free
  unfold System.loadWith System.resolve System.attachAndPinWith Kernel.xdpAttach
  simp only [h.ifNameToIndex, h.openFile, h.load, h.findProgram, h.attach, hfree, hindex,
    if_true, if_false, Bool.not_true, Bool.false_eq_true, and_self]
  rfl

theorem loadWith_mapMissing (h : s.Attaches c) (hmap : c.findMap = false) :
    (s.loadWith index c r).2 = false ∧
      (s.loadWith index c r).1.kernel = s.taken.detachIf r.detach := by
  rw [loadWith_of_attaches h, hmap]
  exact ⟨rfl, rfl⟩

theorem loadWith_mapFound (h : s.Attaches c) (hmap : c.findMap = true) :
    (s.loadWith index c r).2 = ((s.taken.unlinkIf r.unlink).pinMap s.kernel.opened c.pinMap).2 ∧
      ((s.loadWith index c r).2 = false →
        (s.loadWith index c r).1.kernel = (s.taken.unlinkIf r.unlink).detachIf r.detach) := by
  rw [loadWith_of_attaches h, hmap]
  unfold Kernel.pinMap
  by_cases hfits : c.pinMap = true ∧ (s.taken.unlinkIf r.unlink).pin = none
  · rw [if_pos hfits]
    exact ⟨rfl, fun hno => by cases hno⟩
  · rw [if_neg hfits]
    exact ⟨rfl, fun _ => rfl⟩

theorem pinMap_iff (k : Kernel) (obj : ℕ) (ok : Bool) :
    (k.pinMap obj ok).2 = true ↔ ok = true ∧ k.pin = none := by
  unfold Kernel.pinMap
  by_cases h : ok = true ∧ k.pin = none
  · rw [if_pos h]
    exact iff_of_true rfl h
  · rw [if_neg h]
    exact iff_of_false Bool.false_ne_true h

theorem unlinkIf_pin_eq_none (k : Kernel) (ok : Bool) :
    (k.unlinkIf ok).pin = none ↔ k.pin = none ∨ ok = true := by
  rw [unlinkIf_pin]
  cases ok <;> simp

/-- A removal changes nothing exactly if there is nothing to remove or it fails. -/
theorem removed_eq_iff (o : Option Owner) (ok : Bool) :
    (if ok = true then none else o) = o ↔ o = none ∨ ok = false := by
  cases ok <;> simp [eq_comm]

theorem loadWith_pins_iff (h : s.Attaches c) :
    (s.loadWith index c r).2 = true ↔ s.Pins c r := by
  cases hmap : c.findMap with
  | false =>
    rw [(loadWith_mapMissing h hmap).1]
    refine iff_of_false Bool.false_ne_true (fun hpins => ?_)
    rw [hpins.findMap] at hmap
    cases hmap
  | true =>
    rw [(loadWith_mapFound h hmap).1, pinMap_iff, unlinkIf_pin_eq_none]
    exact ⟨fun hpins => ⟨hmap, hpins.1, hpins.2⟩, fun hpins => ⟨hpins.pinMap, hpins.free⟩⟩

/-- What a failed `load()` leaves once it has attached its program. -/
theorem untouched_loadWith_iff (h : s.Attaches c) (hfail : (s.loadWith index c r).2 = false) :
    Untouched s (s.loadWith index c r).1 ↔
      r.detach = true ∧ (c.findMap = true → s.kernel.pin = none ∨ r.unlink = false) := by
  have hoff : ∀ k : Kernel, k.attached = some (.object s.kernel.opened) →
      ((k.detachIf r.detach).attached = s.kernel.attached ↔ r.detach = true) := by
    intro k hk
    rw [detachIf_attached, hk, h.free]
    cases r.detach <;> simp
  unfold Untouched
  cases hmap : c.findMap with
  | false =>
    rw [(loadWith_mapMissing h hmap).2, hoff _ rfl, detachIf_pin]
    exact and_congr_right fun _ => iff_of_true rfl (fun hno => absurd hno Bool.false_ne_true)
  | true =>
    rw [(loadWith_mapFound h hmap).2 hfail, hoff _ (unlinkIf_attached _ _), detachIf_pin, unlinkIf_pin]
    have hpin : s.taken.pin = s.kernel.pin := rfl
    rw [hpin, removed_eq_iff]
    exact and_congr_right fun _ => ⟨fun hpin _ => hpin, fun hpin => hpin rfl⟩

theorem harmsNobody_load_iff :
    HarmsNobody index s (.load c r) ↔ Spares s (.load c r) := by
  by_cases h : s.Attaches c
  swap
  · exact iff_of_true (fun _ => loadWith_of_not_attaches h) (fun hattaches => absurd hattaches h)
  by_cases hpins : s.Pins c r
  · have hdone : (s.loadWith index c r).2 = true := (loadWith_pins_iff h).mpr hpins
    refine iff_of_true (fun hfail => ?_) (fun _ hno => absurd hpins hno)
    rw [hdone] at hfail
    cases hfail
  · have hfail : (s.loadWith index c r).2 = false :=
      Bool.not_eq_true _ ▸ (loadWith_pins_iff h).not.mpr hpins
    constructor
    · exact fun hload _ _ => (untouched_loadWith_iff h hfail).mp (hload hfail)
    · exact fun hspares _ => (untouched_loadWith_iff h hfail).mpr (hspares h hpins)

theorem harmsNobody_unload_iff :
    HarmsNobody index s (.unload r) ↔ Spares s (.unload r) := by
  unfold HarmsNobody Spares
  dsimp only
  cases ours s.kernel.attached with
  | true => exact iff_of_true (fun hno => by cases hno) (Or.inl rfl)
  | false =>
    rw [forall_prop_of_true rfl, or_iff_right Bool.false_ne_true]
    by_cases hpos : 0 < s.loader.ifindex
    · have hkernel : (s.unloadWith r).kernel = (s.kernel.detachIf r.detach).unlinkIf r.unlink :=
        if_pos hpos
      unfold Untouched
      rw [hkernel, unlinkIf_attached, detachIf_attached, unlinkIf_pin, detachIf_pin, removed_eq_iff,
        removed_eq_iff]
      exact (or_iff_right (by omega)).symm
    · have hkernel : (s.unloadWith r).kernel = s.kernel := if_neg hpos
      unfold Untouched
      rw [hkernel]
      exact iff_of_true ⟨rfl, rfl⟩ (Or.inl (by omega))

theorem harmsNobody_iff (e : HookEvent) : HarmsNobody index s e ↔ Spares s e := by
  cases e with
  | load c r => exact harmsNobody_load_iff
  | unload r => exact harmsNobody_unload_iff
  | interface occupied => exact Iff.rfl
  | pinPath occupied => exact Iff.rfl

end Steps

/-- In every run, whatever was attached and pinned before and whatever others do: the
loader harms nobody exactly if each of its calls meets the condition. -/
theorem harmsNobody_run_iff (index : IfIndex) (attached pin : Bool) (events : List HookEvent) :
    (∀ pre e post, events = pre ++ e :: post →
      HarmsNobody index ((sharedLoader index (priorKernel attached pin)).run pre) e) ↔
    ∀ pre e post, events = pre ++ e :: post →
      Spares ((sharedLoader index (priorKernel attached pin)).run pre) e := by
  simp only [harmsNobody_iff]

def attachRefused : LoadCalls := ⟨true, true, true, true, false, true, true⟩

/-- After a refused attachment `unload()` removes the program and the pin of somebody else. -/
theorem unload_removes_others : ¬ ∀ (events pre : List HookEvent) (e : HookEvent)
    (post : List HookEvent), events = pre ++ e :: post →
      HarmsNobody ⟨2, by decide⟩ ((sharedLoader ⟨2, by decide⟩ (priorKernel true true)).run pre) e := by
  intro h
  have hunload := h _ [.load attachRefused ⟨true, true⟩] (.unload ⟨true, true⟩) [] rfl rfl
  exact absurd hunload.1 (by decide)

end Aegis.Ebpf
