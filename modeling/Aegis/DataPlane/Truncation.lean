import Aegis.DataPlane.Callback
import Aegis.Inference.Infer

/-! How much of a scored payload the model gets to see. The trigger of the tracker and
the capacity of the tokenizer are two constants in two places. -/
namespace Aegis.DataPlane

open Capture Inference

/-- The token after the `i`-th byte of the payload is that of the byte. -/
def Presents (input : ModelInput) (payload : Bytes) (i : ℕ) : Prop :=
  ∃ b, payload[i]? = some b ∧ input.inputIds[i + 1]? = some ((b.toNat : ℤ) + 3)

/-- The snapshot length of the capture: no frame is longer. -/
abbrev snapLen : ℕ := 65535

section Run
variable {infer : Bytes → FloatVal} {threshold : FloatVal}

/-- A scored payload has reached the trigger, and overshoots it by one frame at most. -/
theorem scored_length {cs : List Captured} (hsnap : ∀ c ∈ cs, c.frame.length ≤ snapLen)
    {o : Outcome UInt8} (ho : o ∈ (dataPlane infer threshold id).answers cs) {payload : Bytes}
    (hscored : o.scored = some payload) :
    512 ≤ payload.length ∧ payload.length < 2 ^ 31 := by
  obtain ⟨pre, c, post, hcs, rfl⟩ := (dataPlane infer threshold id).mem_answers_iff.mp ho
  have hc := hsnap c (by rw [hcs]; exact List.mem_append_right _ List.mem_cons_self)
  have hsmall : ((dataPlane infer threshold id).run pre).tracker.Small := small_dataPlane pre
  set s := (dataPlane infer threshold id).run pre
  rw [dataPlane_step] at hscored
  by_cases hacc : c.frame.Accepted
  swap
  · rw [if_neg hacc] at hscored
    cases hscored
  rw [if_pos hacc] at hscored
  obtain ⟨hfull, rfl⟩ := (onPacket_scored_iff hsmall).mp hscored
  have hwaiting := hsmall (flowKeyOf (Inet.inetNtop c.frame.srcAddr) c.frame.dstPort)
  refine ⟨hfull, ?_⟩
  unfold State.waiting
  dsimp only [id]
  rw [List.length_append]
  have hframe : c.frame.length ≤ 65535 := hc
  omega

end Run

/-- A byte is presented exactly if there is room for it between `[CLS]` and `[SEP]`. -/
theorem presents_iff {payload : Bytes} {i : ℕ} (hi : i < payload.length)
    (mask : Option (List ℤ)) :
    Presents ⟨(ONNXEngine.framed (payload.take 510)).ids, mask⟩ payload i ↔ i < 510 := by
  have hget : payload[i]? = some payload[i] := List.getElem?_eq_getElem hi
  constructor
  · intro h
    by_contra hlate
    obtain ⟨b, -, hb⟩ := h
    have hlen : (payload.take 510).length = 510 := List.length_take_of_le (by omega)
    obtain ⟨hids, -⟩ := ONNXEngine.framed_length hlen.le
    obtain ⟨hin, -⟩ := List.getElem?_eq_some_iff.mp hb
    dsimp only at hb hin
    rw [hids, maxLen] at hin
    -- the last position is taken by the separator
    have hlast : i + 1 = (payload.take 510).length + 1 := by omega
    rw [hlast, ONNXEngine.framed_ids_sep, Option.some.injEq] at hb
    omega
  · intro h
    have htake : (payload.take 510)[i]? = some payload[i] := by
      rw [List.getElem?_take_of_lt h, hget]
    exact ⟨payload[i], hget, ONNXEngine.framed_ids_byte htake⟩

/-- The model sees the first 510 bytes of every scored payload, in order, and no other:
a payload has at least 512, so at least two bytes are discarded. -/
theorem scored_presented (engine : ONNXEngine) (hloaded : engine.modelLoaded = true)
    (threshold : FloatVal) (cs : List Captured) (hsnap : ∀ c ∈ cs, c.frame.length ≤ snapLen) :
    ∀ o ∈ (dataPlane engine.score threshold id).answers cs, ∀ payload, o.scored = some payload →
      512 ≤ payload.length ∧ ∃ input, engine.modelInput payload = some input ∧
        engine.runModelInference payload = some ((engine.session input).getD (.fin (-1))) ∧
        ∀ i < payload.length, Presents input payload i ↔ i < 510 := by
  intro o ho payload hscored
  obtain ⟨htrigger, hbound⟩ := scored_length hsnap ho hscored
  have hinput := engine.modelInput_eq hbound
  refine ⟨htrigger, _, hinput, ?_, fun i hi => presents_iff hi _⟩
  unfold ONNXEngine.runModelInference Engine.runModelInference
  rw [hloaded, if_pos rfl, hinput, Option.bind_eq_bind, Option.bind_some]
  cases engine.session _ <;> rfl

/-- A frame of 512 bytes: 54 bytes of headers and 458 bytes of data. -/
def triggerFrame : Frame :=
  List.replicate 12 0 ++ [8, 0, 0x45, 0, 1, 242] ++ [0, 0, 0, 0, 64, 6, 0, 0] ++
    [10, 0, 0, 9, 10, 0, 0, 1] ++ [200, 1, 0, 80] ++ List.replicate 12 0 ++ [0x50] ++
    List.replicate 461 0x41

def quietEngine : ONNXEngine := ⟨true, 2, fun _ => some (.fin 0)⟩

theorem scored_presented_sample :
    512 ≤ triggerFrame.length ∧ ∃ input, quietEngine.modelInput triggerFrame = some input ∧
      quietEngine.runModelInference triggerFrame =
        some ((quietEngine.session input).getD (.fin (-1))) ∧
      ∀ i < triggerFrame.length, Presents input triggerFrame i ↔ i < 510 :=
  scored_presented quietEngine rfl (.fin 0.95) [⟨triggerFrame, 0, 0⟩]
    (by intro c hc; rw [List.mem_singleton.mp hc]; decide +kernel)
    _ (List.mem_singleton.mpr rfl) triggerFrame (by decide +kernel)

/-- The frame is scored at once, and its last byte is not among the tokens. -/
theorem last_byte_not_presented :
    ∃ o ∈ (dataPlane quietEngine.score (.fin 0.95) id).answers [⟨triggerFrame, 0, 0⟩],
      o.scored = some triggerFrame ∧
      ¬ ∃ input, quietEngine.modelInput triggerFrame = some input ∧
        ∀ i < triggerFrame.length, Presents input triggerFrame i := by
  have hlen : triggerFrame.length = 512 := by decide +kernel
  refine ⟨_, List.mem_singleton.mpr rfl, ?_, ?_⟩
  · decide +kernel
  · intro h
    obtain ⟨input, hinput, hall⟩ := h
    rw [quietEngine.modelInput_eq (by omega)] at hinput
    have hlast := hall 511 (by omega)
    rw [← Option.some.inj hinput, presents_iff (by omega)] at hlast
    omega

end Aegis.DataPlane
