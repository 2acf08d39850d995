import Aegis.Lib.SharedStream
import Aegis.Lib.Transducer
import Mathlib.Data.List.ReduceOption

/-! Event streams, as a client of server-sent events parses them: lines of the form
`field: value`, and an empty line after each event. -/
namespace EventStream

structure Event where
  type : Bytes
  data : Bytes
  deriving DecidableEq

/-- What the lines since the last empty one have said. -/
structure Buffers where
  type : Bytes := []
  data : Bytes := []

/-- CRLF and CR end a line as LF does. -/
def normalize : Bytes → Bytes
  | 13 :: 10 :: rest => 10 :: normalize rest
  | 13 :: rest => 10 :: normalize rest
  | b :: rest => b :: normalize rest
  | [] => []

/-- An event without data is dropped; one without a type is a `message`. -/
def dispatch (b : Buffers) : Option Event :=
  if b.data = [] then none
  else some ⟨if b.type = [] then ascii "message" else b.type, b.data.dropLast⟩

/-- The name and the value of a field; one blank after the colon is skipped. -/
def field (line : Bytes) : Bytes × Bytes :=
  let name := line.takeWhile (· ≠ 58)
  match line.dropWhile (· ≠ 58) with
  | _ :: 32 :: value => (name, value)
  | _ :: value => (name, value)
  | [] => (name, [])

def readLine (b : Buffers) (line : Bytes) : Buffers × Option Event :=
  if line = [] then ({}, dispatch b)
  else
    match field line with
    | (name, value) =>
      if name = ascii "event" then ({ b with type := value }, none)
      else if name = ascii "data" then ({ b with data := b.data ++ value ++ [10] }, none)
      else (b, none) -- a comment, or a field that says nothing about the event

def parser : Transducer Buffers Bytes (Option Event) := ⟨{}, readLine⟩

/-- The events of a stream; what no empty line has ended yet is no event. -/
def parse (s : Bytes) : List Event :=
  (parser.answers ((normalize s).splitOn 10).dropLast).reduceOption

/-- The lines of an event. -/
def Event.lines (e : Event) : List Bytes :=
  (if e.type = ascii "message" then [] else [ascii "event: " ++ e.type]) ++
    [ascii "data: " ++ e.data, []]

def Event.text (e : Event) : Bytes := Fields.unlines e.lines

/-- The parts of the event stand on a line each. -/
structure Event.Plain (e : Event) : Prop where
  typed : e.type ≠ []
  type_line : 10 ∉ e.type ∧ 13 ∉ e.type
  data_line : 10 ∉ e.data ∧ 13 ∉ e.data

theorem normalize_of_notMem {s : Bytes} (h : 13 ∉ s) : normalize s = s := by
  induction s with
  | nil => rfl
  | cons b s ih =>
    obtain ⟨hb, hs⟩ := not_or.mp (List.mem_cons.not.mp h)
    have hstep : normalize (b :: s) = b :: normalize s := by
      rw [normalize]
      · exact fun _ hb' _ => hb hb'.symm
      · exact fun hb' => hb hb'.symm
    rw [hstep, ih hs]

theorem field_append {name : Bytes} (h : 58 ∉ name) (value : Bytes) :
    field (name ++ ascii ": " ++ value) = (name, value) := by
  have hname : ∀ b ∈ name, (decide (b ≠ 58)) = true := fun b hb =>
    decide_eq_true fun heq => h (heq ▸ hb)
  have hline : name ++ ascii ": " ++ value = name ++ (58 :: 32 :: value) := by
    rw [List.append_assoc]
    rfl
  unfold field
  rw [hline, List.takeWhile_append_of_pos hname, List.dropWhile_append_of_pos hname]
  show (name ++ [], value) = _
  rw [List.append_nil]

theorem readLine_field (b : Buffers) {name : Bytes} (hne : name ≠ []) (h : 58 ∉ name) (value : Bytes) :
    readLine b (name ++ ascii ": " ++ value) =
      if name = ascii "event" then ({ b with type := value }, none)
      else if name = ascii "data" then ({ b with data := b.data ++ value ++ [10] }, none)
      else (b, none) := by
  have hline : name ++ ascii ": " ++ value ≠ [] := by simp [hne]
  unfold readLine
  rw [if_neg hline, field_append h]

/-- The lines of an event give the event, and the parser starts afresh. -/
theorem parser_event {e : Event} (h : e.Plain) :
    parser.after {} e.lines = {} ∧ (parser.outputs {} e.lines).reduceOption = [e] := by
  have hdata : ∀ b : Buffers, b.data = [] → readLine b (ascii "data: " ++ e.data) =
      ({ b with data := e.data ++ [10] }, none) := by
    intro b hb
    have hname : 58 ∉ ascii "data" := by decide
    have hne : ascii "data" ≠ [] := by decide
    have hread := readLine_field b hne hname e.data
    rw [if_neg (by decide), if_pos rfl, hb] at hread
    exact hread
  have hend : ∀ type, readLine ⟨type, e.data ++ [10]⟩ [] =
      ({}, some ⟨if type = [] then ascii "message" else type, e.data⟩) := by
    intro type
    unfold readLine dispatch
    rw [if_pos rfl, if_neg (by simp), List.dropLast_concat]
  unfold Event.lines
  split_ifs with htype
  · rw [List.nil_append]
    constructor
    · show (parser.step (parser.step {} _).1 []).1 = {}
      rfl
    · show [(readLine {} _).2, (readLine (readLine {} _).1 []).2].reduceOption = [e]
      rw [hdata {} rfl, hend, if_pos rfl, ← htype]
      rfl
  · have hevent : readLine {} (ascii "event: " ++ e.type) = (⟨e.type, []⟩, none) := by
      have hname : 58 ∉ ascii "event" := by decide
      have hne : ascii "event" ≠ [] := by decide
      have hread := readLine_field {} hne hname e.type
      rw [if_pos rfl] at hread
      exact hread
    constructor
    · rfl
    · show [(readLine {} _).2, (readLine (readLine {} _).1 _).2,
        (readLine (readLine (readLine {} _).1 _).1 []).2].reduceOption = [e]
      rw [hevent, hdata ⟨e.type, []⟩ rfl, hend, if_neg h.typed]
      rfl

theorem parser_events {events : List Event} (h : ∀ e ∈ events, e.Plain) :
    (parser.answers (events.flatMap Event.lines)).reduceOption = events := by
  induction events with
  | nil => rfl
  | cons e events ih =>
    obtain ⟨he, hevents⟩ := List.forall_mem_cons.mp h
    obtain ⟨hafter, hout⟩ := parser_event he
    unfold Transducer.answers at ih ⊢
    rw [List.flatMap_cons, Transducer.outputs_append, List.reduceOption_append]
    show (parser.outputs {} e.lines).reduceOption ++
      (parser.outputs (parser.after {} e.lines) _).reduceOption = _
    rw [hafter, hout]
    exact congrArg (e :: ·) (ih hevents)

theorem plain_lines {e : Event} (h : e.Plain) : ∀ l ∈ e.lines, 10 ∉ l ∧ 13 ∉ l := by
  have hevent : 10 ∉ ascii "event: " ++ e.type ∧ 13 ∉ ascii "event: " ++ e.type := by
    rw [List.mem_append, List.mem_append, not_or, not_or]
    exact ⟨⟨by decide, h.type_line.1⟩, by decide, h.type_line.2⟩
  have hdata : 10 ∉ ascii "data: " ++ e.data ∧ 13 ∉ ascii "data: " ++ e.data := by
    rw [List.mem_append, List.mem_append, not_or, not_or]
    exact ⟨⟨by decide, h.data_line.1⟩, by decide, h.data_line.2⟩
  unfold Event.lines
  split_ifs <;> simp [hevent, hdata]

theorem text_flatMap (events : List Event) :
    events.flatMap Event.text = Fields.unlines (events.flatMap Event.lines) := by
  unfold Event.text Fields.unlines
  rw [List.flatMap_assoc]

theorem return_notMem_text {events : List Event} (h : ∀ e ∈ events, e.Plain) :
    13 ∉ events.flatMap Event.text := by
  intro hmem
  obtain ⟨e, he, hmem⟩ := List.mem_flatMap.mp hmem
  unfold Event.text Fields.unlines at hmem
  obtain ⟨l, hl, hmem⟩ := List.mem_flatMap.mp hmem
  rcases List.mem_append.mp hmem with hmem | hmem
  · exact (plain_lines (h e he) l hl).2 hmem
  · exact absurd (List.mem_singleton.mp hmem) (by decide)

/-- A stream of events whose parts stand on a line each is parsed into these events. -/
theorem parse_flatMap_text {events : List Event} (h : ∀ e ∈ events, e.Plain) :
    parse (events.flatMap Event.text) = events := by
  have hlines : ∀ l ∈ events.flatMap Event.lines, 10 ∉ l := by
    intro l hl
    obtain ⟨e, he, hl⟩ := List.mem_flatMap.mp hl
    exact (plain_lines (h e he) l hl).1
  unfold parse
  rw [normalize_of_notMem (return_notMem_text h), text_flatMap, Fields.splitOn_unlines hlines,
    List.dropLast_concat, parser_events h]

/-- A reader that has seen a part of a stream has parsed the first events of it. -/
theorem parse_prefix {s t : Bytes} (h : 13 ∉ s ++ t) : parse s <+: parse (s ++ t) := by
  have hs : 13 ∉ s := fun hmem => h (List.mem_append_left t hmem)
  obtain ⟨later, hlater⟩ := SharedStream.completeLines_mono s t
  unfold SharedStream.completeLines at hlater
  unfold parse Transducer.answers
  rw [normalize_of_notMem hs, normalize_of_notMem h, ← hlater, Transducer.outputs_append,
    List.reduceOption_append]
  exact List.prefix_append _ _

end EventStream
