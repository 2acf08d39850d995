import Aegis.Lib.Json
import Aegis.Lib.Transducer

/-! The alert pump, `CppProbeWrapper._message_pump` of `multi_agent_soc.py`: a thread
that reads the probe's stdout line by line and calls back for every alert. What
`json.loads` makes of a line is a parameter, and so is what the callback does. -/
namespace Aegis.Soc

/-- `json.loads`: a value, the exception the pump handles, or another one. -/
inductive Loaded where
  | value (msg : Json Text)
  | decodeError
  | raises

/-- A call of `alert_callback(ip, port, score)`. -/
structure AlertCall where
  ip : Json Text
  port : Json Text
  score : Json Text

inductive CallbackResult where
  | returns
  | decodeError
  | raises
  deriving DecidableEq

/-- A callback; what it does may depend on the calls before. -/
abbrev Callback := List AlertCall → AlertCall → CallbackResult

def threatMethod : Text := "notifications/threat_detected".toList

/-- `v == s` for a string. -/
def isStr (s : Text) : Json Text → Bool
  | .str t => t = s
  | _ => false

/-- `"method" in msg`; a number, a truth value and `None` raise a `TypeError`. -/
def methodIn (msg : Json Text) : Option Bool :=
  match msg with
  | .obj _ => some (msg.field "method".toList).isSome
  | .arr elems => some (elems.any (isStr "method".toList))
  | .str s => some (Text.Contains "method".toList s)
  | _ => none

/-- `msg["method"] == "notifications/threat_detected"`; only a dict has string keys. -/
def methodIsThreat (msg : Json Text) : Option Bool :=
  (msg.field "method".toList).map (isStr threatMethod)

/-- The arguments of the callback; `params` that are no dict have no `get`. -/
def alertCall (msg : Json Text) : Option AlertCall :=
  let params := (msg.field "params".toList).getD (.obj [])
  match params with
  | .obj _ => some ⟨(params.field "src_ip".toList).getD (.str "Unknown".toList),
      (params.field "dst_port".toList).getD (.int 0),
      (params.field "confidence".toList).getD (.float (.fin 0))⟩
  | _ => none

/-- The calls made, the lines printed as log text, and whether the thread still runs. -/
structure Pump where
  calls : List AlertCall := []
  printed : List Text := []
  alive : Bool := true

section Loop
variable (loads : Text → Loaded) (callback : Callback)

/-- What a line asks for in the state after some calls: the new state and the call. -/
def handleMessage (p : Pump) (line : Text) (msg : Json Text) : Pump × Option AlertCall :=
  match methodIn msg with
  | none => ({ p with alive := false }, none)
  | some false => (p, none)
  | some true =>
    match methodIsThreat msg with
    | none => ({ p with alive := false }, none)
    | some false => (p, none)
    | some true =>
      match alertCall msg with
      | none => ({ p with alive := false }, none)
      | some call =>
        let p' := { p with calls := p.calls ++ [call] }
        match callback p.calls call with
        | .returns => (p', some call)
        | .decodeError => ({ p' with printed := p'.printed ++ [line] }, some call)
        | .raises => ({ p' with alive := false }, some call)

def handleLine (p : Pump) (line : Text) : Pump × Option AlertCall :=
  match loads (Text.strip line) with
  | .value msg => handleMessage callback p line msg
  | .decodeError => ({ p with printed := p.printed ++ [line] }, none)
  | .raises => ({ p with alive := false }, none)

/-- The loop, with the call that each line leads to. An exception that is not handled
ends the thread; the end of the list is the end of the stream. -/
def messagePump : Transducer Pump Text (Option AlertCall) where
  init := {}
  step p line := if p.alive then handleLine loads callback p line else (p, none)

end Loop

/-! What a line asks for, and which lines the loop survives. -/

section Lines
variable (loads : Text → Loaded) (callback : Callback)

/-- The call a line asks for, if it is a threat notification. -/
def callOf (line : Text) : Option AlertCall :=
  match loads (Text.strip line) with
  | .value msg => if methodIsThreat msg = some true then alertCall msg else none
  | _ => none

/-- A well-formed notification, with its three values. -/
def WellFormed (line : Text) (call : AlertCall) : Prop :=
  ∃ msg params, loads (Text.strip line) = .value msg ∧
    msg.field "method".toList = some (.str threatMethod) ∧
    msg.field "params".toList = some params ∧
    params.field "src_ip".toList = some call.ip ∧
    params.field "dst_port".toList = some call.port ∧
    params.field "confidence".toList = some call.score

/-- A value that the loop survives, after some calls. -/
def HarmlessValue (earlier : List AlertCall) (msg : Json Text) : Prop :=
  match msg with
  | .obj _ => msg.field "method".toList = some (.str threatMethod) →
      ∃ call, alertCall msg = some call ∧ callback earlier call ≠ .raises
  | .arr elems => .str "method".toList ∉ elems
  | .str s => ¬ Text.Contains "method".toList s
  | _ => False

/-- A line that the loop survives: log text, or a harmless value. -/
def Harmless (earlier : List AlertCall) (line : Text) : Prop :=
  match loads (Text.strip line) with
  | .value msg => HarmlessValue callback earlier msg
  | .decodeError => True
  | .raises => False

/-- The pump runs to the end of the stream, its calls are those its lines led to, in line
order, and each well-formed notification led to its call. -/
def DeliversAll (lines : List Text) : Prop :=
  ((messagePump loads callback).run lines).alive = true ∧
  ((messagePump loads callback).run lines).calls =
    ((messagePump loads callback).answers lines).filterMap id ∧
  ∀ pre line post call, lines = pre ++ line :: post → WellFormed loads line call →
    ((messagePump loads callback).answers lines)[pre.length]? = some (some call)

end Lines

section Proofs
variable {loads : Text → Loaded} {callback : Callback}

theorem isStr_iff {s : Text} {v : Json Text} : isStr s v = true ↔ v = .str s := by
  cases v with
  | str t =>
    unfold isStr
    rw [decide_eq_true_eq, Json.str.injEq]
  | _ => exact iff_of_false (fun h => by cases h) (fun h => by cases h)

theorem methodIsThreat_iff {msg : Json Text} :
    methodIsThreat msg = some true ↔ msg.field "method".toList = some (.str threatMethod) := by
  unfold methodIsThreat
  cases msg.field "method".toList with
  | none => exact iff_of_false (fun h => by cases h) (fun h => by cases h)
  | some v => rw [Option.map_some, Option.some.injEq, Option.some.injEq, isStr_iff]

theorem callOf_wellFormed {line : Text} {call : AlertCall} (h : WellFormed loads line call) :
    callOf loads line = some call := by
  obtain ⟨msg, params, hloads, hmethod, hparams, hip, hport, hscore⟩ := h
  unfold callOf
  rw [hloads]
  dsimp only
  rw [if_pos (methodIsThreat_iff.mpr hmethod)]
  unfold alertCall
  rw [hparams]
  cases params with
  | obj fields =>
    dsimp only [Option.getD_some]
    rw [hip, hport, hscore]
    rfl
  | _ => cases hip

/-- What one line does to a running pump: whether it goes on, and the call it makes. -/
structure Handled (p : Pump) (survives : Prop) (call : Option AlertCall)
    (r : Pump × Option AlertCall) : Prop where
  alive : r.1.alive = true ↔ survives
  call_eq : r.2 = call
  calls : r.1.calls = p.calls ++ r.2.toList

theorem Handled.ignored {p p' : Pump} {survives : Prop} (hp : p'.alive = true) (hs : survives)
    (hcalls : p'.calls = p.calls) : Handled p survives none (p', none) where
  alive := iff_of_true hp hs
  call_eq := rfl
  calls := by
    rw [hcalls]
    exact (List.append_nil _).symm

theorem Handled.ended {p : Pump} {survives : Prop} (hs : ¬ survives) :
    Handled p survives none ({ p with alive := false }, none) where
  alive := iff_of_false Bool.false_ne_true hs
  call_eq := rfl
  calls := (List.append_nil _).symm

theorem handleMessage_obj {p : Pump} (hp : p.alive = true) (line : Text)
    (fields : List (Text × Json Text)) :
    Handled p (HarmlessValue callback p.calls (.obj fields))
      (if methodIsThreat (.obj fields) = some true then alertCall (.obj fields) else none)
      (handleMessage callback p line (.obj fields)) := by
  unfold handleMessage methodIn HarmlessValue
  dsimp only
  rw [← methodIsThreat_iff]
  set msg : Json Text := .obj fields
  cases hfield : msg.field "method".toList with
  | none =>
    have hthreat : methodIsThreat msg = none := by
      rw [methodIsThreat, hfield]
      rfl
    rw [hthreat]
    exact .ignored hp (fun h => by cases h) rfl
  | some v =>
    have hthreat : methodIsThreat msg = some (isStr threatMethod v) := by
      rw [methodIsThreat, hfield]
      rfl
    rw [hthreat, Option.isSome_some]
    dsimp only
    cases isStr threatMethod v with
    | false => exact .ignored hp (fun h => by cases h) rfl
    | true =>
      rw [if_pos rfl]
      cases alertCall msg with
      | none =>
        apply Handled.ended
        intro h
        obtain ⟨call, hno, -⟩ := h rfl
        cases hno
      | some call =>
        dsimp only
        cases hresult : callback p.calls call with
        | returns | decodeError =>
          refine ⟨iff_of_true hp (fun _ => ⟨call, rfl, ?_⟩), rfl, rfl⟩
          rw [hresult]
          exact CallbackResult.noConfusion
        | raises =>
          refine ⟨iff_of_false Bool.false_ne_true (fun h => ?_), rfl, rfl⟩
          obtain ⟨call', heq, hno⟩ := h rfl
          rw [← Option.some.inj heq, hresult] at hno
          exact hno rfl

theorem handleMessage_spec {p : Pump} (hp : p.alive = true) (line : Text) (msg : Json Text) :
    Handled p (HarmlessValue callback p.calls msg)
      (if methodIsThreat msg = some true then alertCall msg else none)
      (handleMessage callback p line msg) := by
  cases msg with
  | obj fields => exact handleMessage_obj hp line fields
  | arr elems =>
    have hiff : elems.any (isStr "method".toList) = true ↔ .str "method".toList ∈ elems := by
      rw [List.any_eq_true]
      constructor
      · intro h
        obtain ⟨v, hv, hstr⟩ := h
        exact isStr_iff.mp hstr ▸ hv
      · intro h
        exact ⟨_, h, isStr_iff.mpr rfl⟩
    unfold handleMessage methodIn HarmlessValue
    dsimp only
    rw [← hiff]
    cases elems.any (isStr "method".toList) with
    | true => exact .ended (fun h => h rfl)
    | false => exact .ignored hp Bool.false_ne_true rfl
  | str s =>
    unfold handleMessage methodIn HarmlessValue
    dsimp only
    by_cases hin : Text.Contains "method".toList s
    · rw [decide_eq_true hin]
      exact .ended (fun h => h hin)
    · rw [decide_eq_false hin]
      exact .ignored hp hin rfl
  | _ => exact .ended id

variable (loads callback) in
theorem step_spec {p : Pump} (hp : p.alive = true) (line : Text) :
    Handled p (Harmless loads callback p.calls line) (callOf loads line)
      ((messagePump loads callback).step p line) := by
  unfold messagePump handleLine Harmless callOf
  dsimp only
  rw [if_pos hp]
  cases loads (Text.strip line) with
  | value msg => exact handleMessage_spec hp line msg
  | decodeError => exact .ignored hp trivial rfl
  | raises => exact .ended id

theorem step_dead {p : Pump} (hp : p.alive = false) (line : Text) :
    (messagePump loads callback).step p line = (p, none) := by
  unfold messagePump
  dsimp only
  rw [hp]
  rfl

variable (loads callback) in
/-- The pump runs to the end exactly if it survives every line, given the calls that the
lines before it asked for; and until then those are the calls it makes. -/
theorem run_spec (lines : List Text) :
    (((messagePump loads callback).run lines).alive = true ↔
      ∀ pre line post, lines = pre ++ line :: post →
        Harmless loads callback (pre.filterMap (callOf loads)) line) ∧
    (((messagePump loads callback).run lines).alive = true →
      ((messagePump loads callback).run lines).calls = lines.filterMap (callOf loads) ∧
      (messagePump loads callback).answers lines = lines.map (callOf loads)) := by
  induction lines using List.reverseRecOn with
  | nil =>
    have hnone : ∀ pre line post, ([] : List Text) = pre ++ line :: post →
        Harmless loads callback (pre.filterMap (callOf loads)) line := by
      intro pre line post h
      simp at h
    exact ⟨iff_of_true rfl hnone, fun _ => ⟨rfl, rfl⟩⟩
  | append_singleton lines line ih =>
    obtain ⟨halive, hcalls⟩ := ih
    rw [Transducer.run_concat, Transducer.answers_concat]
    rw [Transducer.forall_history_concat
      (P := fun pre l => Harmless loads callback (pre.filterMap (callOf loads)) l)]
    by_cases hp : ((messagePump loads callback).run lines).alive = true
    · obtain ⟨hstep, hcall, hmade⟩ := step_spec loads callback hp line
      obtain ⟨hrun, hanswers⟩ := hcalls hp
      constructor
      · rw [hstep, hrun, ← halive]
        exact (and_iff_right hp).symm
      · intro _
        rw [hmade, hcall, hrun, hanswers, List.filterMap_append, List.map_append]
        refine ⟨?_, rfl⟩
        cases hline : callOf loads line with
        | none => simp [hline]
        | some call => simp [hline]
    · have hdead := (Bool.not_eq_true _).mp hp
      rw [step_dead hdead]
      constructor
      · rw [← halive]
        exact iff_of_false hp (fun h => hp h.1)
      · exact fun h => absurd h hp

end Proofs

/-- The pump delivers every alert exactly on the streams that it survives line by line:
log text, values that it can look into and that are no notification, and notifications
with an object of parameters after which the callback comes back. -/
theorem deliversAll_iff (loads : Text → Loaded) (callback : Callback) (lines : List Text) :
    DeliversAll loads callback lines ↔
      ∀ pre line post, lines = pre ++ line :: post →
        Harmless loads callback (pre.filterMap (callOf loads)) line := by
  obtain ⟨halive, hcalls⟩ := run_spec loads callback lines
  unfold DeliversAll
  rw [← halive]
  constructor
  · exact fun h => h.1
  · intro h
    obtain ⟨hmade, hanswers⟩ := hcalls h
    refine ⟨h, ?_, ?_⟩
    · rw [hmade, hanswers, List.filterMap_map]
      rfl
    intro pre line post call hlines hform
    rw [hanswers, hlines, List.map_append, List.getElem?_append_right (by simp)]
    simp [callOf_wellFormed hform]

/-- A notification of the probe, as a line and as the value of that line. -/
def sampleLine (ip : String) : Text :=
  ("\x7b\"jsonrpc\":\"2.0\",\"method\":\"notifications/threat_detected\",\"params\":" ++
    "\x7b\"confidence\":1.0,\"dst_port\":443,\"src_ip\":\"" ++ ip ++ "\"\x7d\x7d\n").toList

def sampleValue (ip : String) : Json Text :=
  .obj [("jsonrpc".toList, .str "2.0".toList), ("method".toList, .str threatMethod),
    ("params".toList, .obj [("confidence".toList, .float (.fin 1)),
      ("dst_port".toList, .int 443), ("src_ip".toList, .str ip.toList)])]

/-- `json.loads` on the two sample lines and on log text. -/
def sampleLoads (text : Text) : Loaded :=
  if text = Text.strip (sampleLine "10.0.0.9") then .value (sampleValue "10.0.0.9")
  else if text = Text.strip (sampleLine "10.0.0.8") then .value (sampleValue "10.0.0.8")
  else .decodeError

/-- A callback whose first investigation fails. -/
def failsOnce : Callback := fun earlier _ => if earlier.isEmpty then .raises else .returns

/-- The exception of the first investigation ends the thread: the second alert is lost. -/
theorem second_alert_lost :
    ¬ DeliversAll sampleLoads failsOnce [sampleLine "10.0.0.9", sampleLine "10.0.0.8"] := by
  intro h
  have hform : WellFormed sampleLoads (sampleLine "10.0.0.8")
      ⟨.str "10.0.0.8".toList, .int 443, .float (.fin 1)⟩ := by
    refine ⟨sampleValue "10.0.0.8", _, ?_, rfl, rfl, rfl, rfl, rfl⟩
    unfold sampleLoads
    rw [if_neg (by decide +kernel), if_pos rfl]
  have hcalled := h.2.2 [sampleLine "10.0.0.9"] _ [] _ rfl hform
  have hsilent : ((messagePump sampleLoads failsOnce).answers
      [sampleLine "10.0.0.9", sampleLine "10.0.0.8"])[1]?.map Option.isSome = some false := by
    decide +kernel
  rw [List.length_singleton] at hcalled
  rw [hcalled] at hsilent
  cases hsilent

end Aegis.Soc
