import Aegis.Mcp.Registry
import Aegis.Soc.Agent
import Mathlib.Data.List.Forall2

/-! The names in `tools_schema` of `agent.py`. The registry, `registry.hh`, lists its
tools in the order of a hash map, and a definition carries no name. -/
namespace Aegis.Soc

open Aegis.Mcp (ProbeTool)

/-- What the registry asks of a tool; the definition is a JSON object. -/
structure McpTool where
  name : Text
  title : Text
  definition : List (Text × Json Text)
  outputSchema : Option (Json Text) := none
  annotations : Option (Json Text) := none
  iconUri : Option Text := none

namespace McpTool

/-- `get_definition()[key]`. -/
def member (t : McpTool) (key : Text) : Option (Json Text) := (Json.obj t.definition).field key

def hasSchema (t : McpTool) : Bool := (t.member "inputSchema".toList).isSome

/-- The element that `get_tools_list` makes of a tool. -/
def listed (t : McpTool) : Json Text :=
  let d := t.definition
  let d := if (t.member "title".toList).isSome then d else Json.setField d "title".toList (.str t.title)
  let d := t.outputSchema.elim d (fun schema => Json.setField d "outputSchema".toList schema)
  let d := t.annotations.elim d (fun a => Json.setField d "annotations".toList a)
  let d := t.iconUri.elim d (fun icon => Json.setField d "icon".toList (.str icon))
  .obj d

end McpTool

/-- The tools of the probe, as the registry sees them. -/
def probeTool (p : ProbeTool) : McpTool where
  name := Text.decodeIgnore p.getName
  title := Text.decodeIgnore p.getName
  definition := Json.decodedFields p.definition

/-- The registered tools in the order in which the map yields them, those of the probe
among them. -/
structure ToolRegistry where
  tools : List McpTool
  distinct : (tools.map McpTool.name).Nodup
  probe : ∀ p, probeTool p ∈ tools

namespace ToolRegistry
variable (reg : ToolRegistry)

/-- The tool that `call_tool` runs. -/
def find (name : Text) : Option McpTool := reg.tools.find? (fun t => t.name = name)

def pageSize : ℕ := 50

/-- The result of `tools/list` without a cursor. -/
def toolsList : Json Text :=
  .obj ([("tools".toList, .arr ((reg.tools.map McpTool.listed).take pageSize))] ++
    if pageSize < reg.tools.length then [("nextCursor".toList, .str "50".toList)] else [])

def toolsListResponse (id : ℤ) : Json Text :=
  .obj [("jsonrpc".toList, .str "2.0".toList), ("id".toList, .int id), ("result".toList, reg.toolsList)]

/-- The tools of the first page that have an input schema. -/
def offered : List McpTool :=
  (reg.tools.take pageSize).filter McpTool.hasSchema

theorem find_of_mem {t : McpTool} (ht : t ∈ reg.tools) : reg.find t.name = some t := by
  obtain ⟨pre, post, hsplit⟩ := List.append_of_mem ht
  have hnodup := reg.distinct
  rw [hsplit, List.map_append, List.map_cons] at hnodup
  have hpre : ∀ u ∈ pre, ¬ decide (u.name = t.name) = true := by
    intro u hu hsame
    rw [decide_eq_true_iff] at hsame
    have hdisjoint := List.disjoint_of_nodup_append hnodup
    exact hdisjoint (List.mem_map_of_mem hu) (hsame ▸ List.mem_cons_self)
  unfold find
  rw [hsplit, List.find?_append, List.find?_eq_none.mpr hpre, List.find?_cons_of_pos (by simp)]
  rfl

end ToolRegistry

/-! What `run_agent_loop` makes of a definition. -/

namespace McpTool
variable (D : CaseData) (t : McpTool)

/-- `t.get("description", "").split()[0].lower()`, if the description has a word. -/
def word : Option Text := firstWord D ((t.member "description".toList).getD (.str []))

/-- The name of an entry before the renaming. -/
def guess : Json Text := (t.member "name".toList).getD (.str ((t.word D).getD []))

/-- The entry of a tool with an input schema. -/
def entry : Option ToolEntry := do
  let word ← t.word D
  let description ← t.member "description".toList
  let parameters ← t.member "inputSchema".toList
  return ⟨(t.member "name".toList).getD (.str word), description, parameters⟩

/-- The same description and the same input schema. -/
def SameAs (u : McpTool) : Prop :=
  t.member "description".toList = u.member "description".toList ∧
    t.member "inputSchema".toList = u.member "inputSchema".toList

variable {D t}

/-- What the registry adds does not hide what the agent reads. -/
theorem field_listed {key : Text} (htitle : key ≠ "title".toList)
    (hschema : key ≠ "outputSchema".toList) (hannotations : key ≠ "annotations".toList)
    (hicon : key ≠ "icon".toList) : t.listed.field key = t.member key := by
  unfold listed member
  dsimp only
  rw [Json.field_elim_setField_ne _ hicon, Json.field_elim_setField_ne _ hannotations,
    Json.field_elim_setField_ne _ hschema]
  split_ifs
  · rfl
  · exact Json.field_setField_ne _ htitle _

theorem toolEntry_listed : toolEntry D t.listed =
    if t.hasSchema then (t.entry D).map some else some none := by
  have hname : t.listed.field "name".toList = t.member "name".toList :=
    field_listed (by decide) (by decide) (by decide) (by decide)
  have hdescription : t.listed.field "description".toList = t.member "description".toList :=
    field_listed (by decide) (by decide) (by decide) (by decide)
  have hinput : t.listed.field "inputSchema".toList = t.member "inputSchema".toList :=
    field_listed (by decide) (by decide) (by decide) (by decide)
  obtain ⟨fields, hobj⟩ : ∃ fields, t.listed = .obj fields := ⟨_, rfl⟩
  have hin : inValue "inputSchema".toList t.listed = some t.hasSchema := by
    rw [hasSchema, ← hinput, hobj]
    rfl
  unfold toolEntry entry word hasSchema
  rw [hin, hasSchema, ← hname, ← hdescription, ← hinput, hobj]
  cases (Json.obj fields).field "inputSchema".toList with
  | none => rfl
  | some schema =>
    show (firstWord D (((Json.obj fields).field "description".toList).getD (.str []))).bind _ = _
    cases firstWord D (((Json.obj fields).field "description".toList).getD (.str [])) with
    | none => rfl
    | some word => cases (Json.obj fields).field "description".toList <;> rfl

theorem entry_eq_some {e : ToolEntry} (h : t.entry D = some e) :
    (t.word D).isSome = true ∧ e.name = t.guess D ∧
      t.member "description".toList = some e.description ∧
      t.member "inputSchema".toList = some e.parameters := by
  obtain ⟨word, hword, h⟩ := Option.bind_eq_some_iff.mp h
  obtain ⟨description, hdescription, h⟩ := Option.bind_eq_some_iff.mp h
  obtain ⟨parameters, hparameters, h⟩ := Option.bind_eq_some_iff.mp h
  cases h
  refine ⟨by rw [hword]; rfl, ?_, hdescription, hparameters⟩
  unfold guess
  rw [hword]
  rfl

/-- Only a description with a word has a first one. -/
theorem entry_isSome (hschema : t.hasSchema = true) (hword : (t.word D).isSome = true) :
    ∃ e, t.entry D = some e := by
  obtain ⟨parameters, hparameters⟩ := Option.isSome_iff_exists.mp hschema
  obtain ⟨word, hword⟩ := Option.isSome_iff_exists.mp hword
  obtain ⟨description, hdescription⟩ : ∃ d, t.member "description".toList = some d := by
    rw [← Option.isSome_iff_exists]
    by_contra hno
    rw [Option.not_isSome_iff_eq_none] at hno
    unfold McpTool.word at hword
    rw [hno] at hword
    cases hword
  unfold entry
  rw [hword, hdescription, hparameters]
  exact ⟨_, rfl⟩

end McpTool

theorem mapM_toolEntry (D : CaseData) (tools : List McpTool) :
    ((tools.map McpTool.listed).mapM (toolEntry D)).map List.reduceOption =
      (tools.filter McpTool.hasSchema).mapM (McpTool.entry D) := by
  induction tools with
  | nil => rfl
  | cons t tools ih =>
    rw [List.map_cons, List.mapM_cons, McpTool.toolEntry_listed]
    by_cases ht : t.hasSchema = true
    · rw [if_pos ht, List.filter_cons_of_pos ht, List.mapM_cons, ← ih]
      cases t.entry D with
      | none => rfl
      | some e => cases (tools.map McpTool.listed).mapM (toolEntry D) <;> rfl
    · rw [if_neg ht, List.filter_cons_of_neg ht, ← ih]
      cases (tools.map McpTool.listed).mapM (toolEntry D) <;> rfl

theorem forall₂_of_mapM {α β : Type} {f : α → Option β} {xs : List α} {ys : List β}
    (h : xs.mapM f = some ys) : List.Forall₂ (fun x y => f x = some y) xs ys := by
  induction xs generalizing ys with
  | nil =>
    cases h
    exact .nil
  | cons x xs ih =>
    rw [List.mapM_cons] at h
    obtain ⟨y, hy, h⟩ := Option.bind_eq_some_iff.mp h
    obtain ⟨rest, hrest, h⟩ := Option.bind_eq_some_iff.mp h
    cases h
    exact .cons hy (ih hrest)

theorem mapM_isSome {α β : Type} {f : α → Option β} {xs : List α}
    (h : ∀ x ∈ xs, ∃ y, f x = some y) : ∃ ys, xs.mapM f = some ys := by
  induction xs with
  | nil => exact ⟨[], rfl⟩
  | cons x xs ih =>
    obtain ⟨y, hy⟩ := h x List.mem_cons_self
    obtain ⟨ys, hys⟩ := ih (fun x' hx' => h x' (List.mem_cons_of_mem x hx'))
    rw [List.mapM_cons, hy, hys]
    exact ⟨_, rfl⟩

/-- The first three entries get their names by position. -/
def renamed (e0 e1 e2 : ToolEntry) (rest : List ToolEntry) : List ToolEntry :=
  { e0 with name := .str "block_malicious_ip".toList } ::
    { e1 with name := .str "analyze_process_behavior".toList } ::
    { e2 with name := .str "get_pid_by_connection".toList } :: rest

/-- The schema that the agent mounts when the registry answers. -/
theorem mountTools_eq_some_iff (D : CaseData) (reg : ToolRegistry) (id : ℤ)
    (schema : List ToolEntry) :
    mountTools D (.message (reg.toolsListResponse id)) = some schema ↔
      ∃ e0 e1 e2 rest, reg.offered.mapM (McpTool.entry D) = some (e0 :: e1 :: e2 :: rest) ∧
        schema = renamed e0 e1 e2 rest := by
  have hmount : mountTools D (.message (reg.toolsListResponse id)) =
      toolsSchemaOf D (.arr ((reg.tools.map McpTool.listed).take ToolRegistry.pageSize)) := rfl
  rw [hmount, ToolRegistry.offered, ← mapM_toolEntry, List.map_take]
  unfold toolsSchemaOf
  dsimp only
  cases ((reg.tools.map McpTool.listed).take ToolRegistry.pageSize).mapM (toolEntry D) with
  | none => simp
  | some entries =>
    rw [Option.map_some, Option.bind_eq_bind, Option.bind_some]
    rcases hlist : entries.reduceOption with _ | ⟨e0, _ | ⟨e1, _ | ⟨e2, rest⟩⟩⟩
    · simp
    · simp
    · simp
    · constructor
      · intro h
        exact ⟨e0, e1, e2, rest, rfl, (Option.some.inj h).symm⟩
      · rintro ⟨e0', e1', e2', rest', h, rfl⟩
        cases h
        rfl

/-- `tools/call` with the name of the entry reaches a tool with the description and the
input schema of the entry. -/
def ToolRegistry.Reaches (reg : ToolRegistry) (e : ToolEntry) : Prop :=
  ∃ name t, e.name = .str name ∧ reg.find name = some t ∧
    t.member "description".toList = some e.description ∧
    t.member "inputSchema".toList = some e.parameters

/-- So does every entry of the schema that the agent mounts. -/
def NamesMatch (D : CaseData) (reg : ToolRegistry) (id : ℤ) : Prop :=
  ∀ schema, mountTools D (.message (reg.toolsListResponse id)) = some schema →
    ∀ e ∈ schema, reg.Reaches e

/-- If there are three tools with a schema on the first page, and each has a word in its
description, then the first three are the ones expected there, and the others are
registered under the names that the agent guesses. -/
def ExpectedOrder (D : CaseData) (reg : ToolRegistry) : Prop :=
  ∀ t0 t1 t2 rest, reg.offered = t0 :: t1 :: t2 :: rest →
    (∀ t ∈ reg.offered, (t.word D).isSome = true) →
    t0.SameAs (probeTool .secTools) ∧ t1.SameAs (probeTool .osTools) ∧
      t2.SameAs (probeTool .netTools) ∧
      ∀ t ∈ rest, ∃ name u, t.guess D = .str name ∧ reg.find name = some u ∧ t.SameAs u

section Names
variable {D : CaseData} {reg : ToolRegistry}

theorem reaches_iff {t : McpTool} {e : ToolEntry} (h : t.entry D = some e) (n : Json Text) :
    reg.Reaches { e with name := n } ↔
      ∃ name u, n = .str name ∧ reg.find name = some u ∧ t.SameAs u := by
  obtain ⟨-, -, hdescription, hparameters⟩ := McpTool.entry_eq_some h
  unfold ToolRegistry.Reaches McpTool.SameAs
  simp only [hdescription, hparameters, eq_comm]

theorem reaches_probe_iff {t : McpTool} {e : ToolEntry} (h : t.entry D = some e) (p : ProbeTool) :
    reg.Reaches { e with name := .str (probeTool p).name } ↔ t.SameAs (probeTool p) := by
  have hfind : reg.find (probeTool p).name = some (probeTool p) := reg.find_of_mem (reg.probe p)
  rw [reaches_iff h]
  constructor
  · rintro ⟨name, u, hname, hu, hsame⟩
    rw [← Json.str.inj hname, hfind] at hu
    rwa [Option.some.inj hu]
  · exact fun hsame => ⟨_, _, rfl, hfind, hsame⟩

theorem reaches_rest_iff {ts : List McpTool} {es : List ToolEntry}
    (h : List.Forall₂ (fun t e => McpTool.entry D t = some e) ts es) :
    (∀ e ∈ es, reg.Reaches e) ↔
      ∀ t ∈ ts, ∃ name u, t.guess D = .str name ∧ reg.find name = some u ∧ t.SameAs u := by
  induction h with
  | nil => exact iff_of_true (List.forall_mem_nil _) (List.forall_mem_nil _)
  | cons hentry _ ih =>
    obtain ⟨-, hname, -, -⟩ := McpTool.entry_eq_some hentry
    rw [List.forall_mem_cons, List.forall_mem_cons, ih, ← hname, ← reaches_iff hentry]

theorem reaches_renamed_iff {t0 t1 t2 : McpTool} {ts : List McpTool} {e0 e1 e2 : ToolEntry}
    {es : List ToolEntry} (h : List.Forall₂ (fun t e => McpTool.entry D t = some e)
      (t0 :: t1 :: t2 :: ts) (e0 :: e1 :: e2 :: es)) :
    (∀ e ∈ renamed e0 e1 e2 es, reg.Reaches e) ↔
      t0.SameAs (probeTool .secTools) ∧ t1.SameAs (probeTool .osTools) ∧
        t2.SameAs (probeTool .netTools) ∧
        ∀ t ∈ ts, ∃ name u, t.guess D = .str name ∧ reg.find name = some u ∧ t.SameAs u := by
  obtain ⟨h0, h⟩ := List.forall₂_cons.mp h
  obtain ⟨h1, h⟩ := List.forall₂_cons.mp h
  obtain ⟨h2, h⟩ := List.forall₂_cons.mp h
  unfold renamed
  rw [List.forall_mem_cons, List.forall_mem_cons, List.forall_mem_cons, reaches_rest_iff h]
  exact and_congr (reaches_probe_iff h0 .secTools)
    (and_congr (reaches_probe_iff h1 .osTools) (and_congr_left' (reaches_probe_iff h2 .netTools)))

theorem isSome_word_of_forall₂ {ts : List McpTool} {es : List ToolEntry}
    (h : List.Forall₂ (fun t e => McpTool.entry D t = some e) ts es) :
    ∀ t ∈ ts, (t.word D).isSome = true := by
  induction h with
  | nil => exact List.forall_mem_nil _
  | cons hentry _ ih => exact List.forall_mem_cons.mpr ⟨(McpTool.entry_eq_some hentry).1, ih⟩

theorem order_of_namesMatch {id : ℤ} (h : NamesMatch D reg id) : ExpectedOrder D reg := by
  intro t0 t1 t2 ts hoffered hwords
  have hentries : ∀ t ∈ reg.offered, ∃ e, t.entry D = some e := by
    intro t ht
    exact McpTool.entry_isSome (List.mem_filter.mp ht).2 (hwords t ht)
  obtain ⟨entries, hmap⟩ := mapM_isSome hentries
  have hpairs := forall₂_of_mapM hmap
  rw [hoffered] at hpairs
  obtain ⟨e0, tail0, -, h0, rfl⟩ := List.forall₂_cons_left_iff.mp hpairs
  obtain ⟨e1, tail1, -, h1, rfl⟩ := List.forall₂_cons_left_iff.mp h0
  obtain ⟨e2, entries, -, -, rfl⟩ := List.forall₂_cons_left_iff.mp h1
  have hmount := (mountTools_eq_some_iff D reg id _).mpr ⟨e0, e1, e2, entries, hmap, rfl⟩
  exact (reaches_renamed_iff hpairs).mp (h _ hmount)

theorem namesMatch_of_order {id : ℤ} (h : ExpectedOrder D reg) : NamesMatch D reg id := by
  intro schema hmount
  obtain ⟨e0, e1, e2, entries, hmap, rfl⟩ := (mountTools_eq_some_iff D reg id schema).mp hmount
  have hpairs := forall₂_of_mapM hmap
  have hwords := isSome_word_of_forall₂ hpairs
  obtain ⟨t0, tail0, -, h0, hoffered⟩ := List.forall₂_cons_right_iff.mp hpairs
  obtain ⟨t1, tail1, -, h1, rfl⟩ := List.forall₂_cons_right_iff.mp h0
  obtain ⟨t2, ts, -, -, rfl⟩ := List.forall₂_cons_right_iff.mp h1
  rw [hoffered] at hpairs
  exact (reaches_renamed_iff hpairs).mpr (h t0 t1 t2 ts hoffered hwords)

end Names

/-- The names match exactly if the hash map happens to yield the tools in the order that
the agent expects. -/
theorem namesMatch_iff (D : CaseData) (reg : ToolRegistry) (id : ℤ) :
    NamesMatch D reg id ↔ ExpectedOrder D reg :=
  ⟨order_of_namesMatch, namesMatch_of_order⟩

/-- The tools of the probe alone, in the order in which it registers them. -/
def registrationOrder : ToolRegistry where
  tools := [probeTool .netTools, probeTool .osTools, probeTool .secTools]
  distinct := by decide +kernel
  probe p := by cases p <;> simp

theorem names_by_position_wrong : ¬ ∀ (D : CaseData) (reg : ToolRegistry) (id : ℤ),
    NamesMatch D reg id := by
  intro h
  have horder := order_of_namesMatch (h asciiCaseData registrationOrder 1) _ _ _ [] rfl
    (by decide +kernel)
  have hne : "Find the process ID (PID) associated with a given IPv4 address and port.".toList ≠
      "Block a malicious IPv4 address using system iptables firewall.".toList := by decide +kernel
  exact hne (Json.str.inj (Option.some.inj horder.1.1))

end Aegis.Soc
