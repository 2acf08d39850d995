import Aegis.Lib.Fields
import Aegis.Waf.Proxy
import Mathlib.Data.List.TakeWhile

/-! The records of `waf_alerts.log` and how they are read: a line, split at commas. -/
namespace Aegis.Waf

/-- What `str.splitlines` breaks at. -/
def isLineBreak (c : Char) : Bool :=
  (10 ≤ c.toNat && c.toNat ≤ 13) || (28 ≤ c.toNat && c.toNat ≤ 30) || c.toNat = 0x85 ||
    c.toNat = 0x2028 || c.toNat = 0x2029

/-- `record.splitlines()[0].split(",")`. -/
def alertFields (record : Text) : List Text :=
  (record.takeWhile fun c => !isLineBreak c).splitOn ','

/-- Neither a comma nor the end of a line. -/
def Unbroken (t : Text) : Prop := ∀ c ∈ t, c ≠ ',' ∧ isLineBreak c = false

instance (t : Text) : Decidable (Unbroken t) :=
  decidable_of_iff (t.all (fun c => c ≠ ',' && !isLineBreak c) = true) (by simp [Unbroken])

/-- The score with which the request is denied. -/
def alertScore (rt : Runtime) (r : Request) : FloatVal :=
  aiThreatDetection rt.caseData rt.onnxScore (extractHttpFeatures r)

/-- The fields of the record are the address, the path with its query and the score, and
no alert with others, whenever it is raised, has the same record. -/
def ReadsBack (rt : Runtime) (r : Request) : Prop :=
  ∀ record, (reverseProxy rt r).logged = some record →
    ((alertFields record)[1]? = some r.clientHost ∧ (alertFields record)[2]? = some r.url ∧
      (alertFields record)[3]? = some (rt.floatText (alertScore rt r))) ∧
    ∀ time r', (reverseProxy { rt with time := time } r').logged = some record →
      r'.clientHost = r.clientHost ∧ r'.url = r.url ∧
        rt.floatText (alertScore rt r') = rt.floatText (alertScore rt r)

theorem unbroken_of_mem_alertFields {record field : Text} (h : field ∈ alertFields record) :
    Unbroken field := by
  obtain ⟨hcomma, hsub⟩ := Fields.of_mem_splitOn h
  intro c hc
  have hkept := List.mem_takeWhile_imp (hsub c hc)
  refine ⟨fun heq => hcomma (heq ▸ hc), by simpa using hkept⟩

theorem Unbroken.comma {t : Text} (h : Unbroken t) : ',' ∉ t := fun hmem => (h ',' hmem).1 rfl

def alertLine (time client url score : Text) : Text :=
  time ++ [','] ++ client ++ [','] ++ url ++ [','] ++ score ++ ['\n']

/-- A record of four parts without commas and line breaks is read as these parts. -/
theorem alertFields_alertLine {time client url score : Text} (htime : Unbroken time)
    (hclient : Unbroken client) (hurl : Unbroken url) (hscore : Unbroken score) :
    alertFields (alertLine time client url score) = [time, client, url, score] := by
  have hline : time ++ [','] ++ client ++ [','] ++ url ++ [','] ++ score =
      [','].intercalate [time, client, url, score] := by
    simp [List.intercalate_cons_cons, List.intercalate_singleton]
  have hbreak : ∀ c ∈ time ++ [','] ++ client ++ [','] ++ url ++ [','] ++ score,
      (!isLineBreak c) = true := by
    intro c hc
    simp only [List.mem_append, List.mem_singleton] at hc
    have hcomma : isLineBreak ',' = false := by decide
    rcases hc with (((((hc | rfl) | hc) | rfl) | hc) | rfl) | hc
    · simp [(htime c hc).2]
    · simp [hcomma]
    · simp [(hclient c hc).2]
    · simp [hcomma]
    · simp [(hurl c hc).2]
    · simp [hcomma]
    · simp [(hscore c hc).2]
  have hend : (['\n'] : Text).takeWhile (fun c => !isLineBreak c) = [] := by decide
  unfold alertFields alertLine
  rw [List.takeWhile_append_of_pos hbreak, hend, List.append_nil, hline]
  apply List.splitOn_intercalate
  · simp only [List.forall_mem_cons, List.not_mem_nil, false_implies, implies_true, and_true]
    exact ⟨htime.comma, hclient.comma, hurl.comma, hscore.comma⟩
  · exact List.cons_ne_nil _ _

theorem splitOn_alertLine (time client url score : Text) :
    (alertLine time client url score).splitOn ',' = time.splitOn ',' ++ (client.splitOn ',' ++
      (url.splitOn ',' ++ (score ++ ['\n']).splitOn ',')) := by
  have hassoc : alertLine time client url score =
      time ++ ',' :: (client ++ ',' :: (url ++ ',' :: (score ++ ['\n']))) := by
    simp [alertLine]
  rw [hassoc, List.splitOn_append_cons_self, List.splitOn_append_cons_self,
    List.splitOn_append_cons_self]

/-- A record with three commas has them between its parts, whatever the parts were. -/
theorem alertLine_injective {time client url score time' client' url' score' : Text}
    (htime : ',' ∉ time) (hclient : ',' ∉ client) (hurl : ',' ∉ url) (hscore : ',' ∉ score)
    (h : alertLine time' client' url' score' = alertLine time client url score) :
    client' = client ∧ url' = url ∧ score' = score := by
  have hsplit := congrArg (List.splitOn ',') h
  have hend : ',' ∉ score ++ ['\n'] := by
    rw [List.mem_append]
    exact not_or.mpr ⟨hscore, by decide⟩
  rw [splitOn_alertLine, splitOn_alertLine, List.splitOn_eq_singleton htime,
    List.splitOn_eq_singleton hclient, List.splitOn_eq_singleton hurl,
    List.splitOn_eq_singleton hend] at hsplit
  have hlength := congrArg List.length hsplit
  simp only [List.length_append, List.length_singleton] at hlength
  have hpos : ∀ t : Text, 0 < (t.splitOn ',').length :=
    fun t => List.length_pos_of_ne_nil (List.splitOn_ne_nil ',' t)
  have h1 := hpos time'
  have h2 := hpos client'
  have h3 := hpos url'
  have h4 := hpos (score' ++ ['\n'])
  rw [Fields.splitOn_of_length_le_one (s := time') (by omega),
    Fields.splitOn_of_length_le_one (s := client') (by omega),
    Fields.splitOn_of_length_le_one (s := url') (by omega),
    Fields.splitOn_of_length_le_one (s := score' ++ ['\n']) (by omega)] at hsplit
  simp only [List.cons_append, List.nil_append, List.cons.injEq, and_true,
    List.append_cancel_right_eq] at hsplit
  exact hsplit.2

theorem logged_eq_some_iff {rt : Runtime} {r : Request} {record : Text} :
    (reverseProxy rt r).logged = some record ↔ .fin 0.95 < alertScore rt r ∧
      record = alertLine (rt.floatText rt.time) r.clientHost r.url (rt.floatText (alertScore rt r)) := by
  unfold reverseProxy alertScore
  dsimp only
  split_ifs with habove
  · simp only [Option.some.injEq, habove, true_and]
    exact eq_comm
  · simp [habove]

/-- A record is read back exactly where neither the address nor the path and query
contain a comma or a line break. -/
theorem readsBack_iff {rt : Runtime} (hfloat : ∀ x, Unbroken (rt.floatText x)) {r : Request}
    (hdenied : .fin 0.95 < alertScore rt r) :
    ReadsBack rt r ↔ Unbroken r.clientHost ∧ Unbroken r.url := by
  have hlogged := logged_eq_some_iff.mpr ⟨hdenied, rfl⟩
  constructor
  · intro h
    obtain ⟨⟨hclient, hurl, -⟩, -⟩ := h _ hlogged
    exact ⟨unbroken_of_mem_alertFields (List.mem_of_getElem? hclient),
      unbroken_of_mem_alertFields (List.mem_of_getElem? hurl)⟩
  · intro hparts record hrecord
    obtain ⟨hclient, hurl⟩ := hparts
    obtain ⟨-, rfl⟩ := logged_eq_some_iff.mp hrecord
    rw [alertFields_alertLine (hfloat _) hclient hurl (hfloat _)]
    refine ⟨⟨rfl, rfl, rfl⟩, fun time r' hsame => ?_⟩
    obtain ⟨-, hline⟩ := logged_eq_some_iff.mp hsame
    exact alertLine_injective (hfloat _).comma hclient.comma hurl.comma (hfloat _).comma hline.symm

/-- The float texts that the sample requests need. -/
def sampleFloatText (x : FloatVal) : Text :=
  if x = .fin 0.99 then "0.99".toList else "1760000000.5".toList

def loggingRuntime : Runtime :=
  { sampleRuntime with time := .fin 1760000000.5, floatText := sampleFloatText }

def passwdRequest (path : Text) : Request where
  method := "GET".toList
  path := path
  query := []
  headers := []
  body := []
  queryParams := []
  clientHost := "10.0.0.9".toList

theorem sampleFloatText_unbroken (x : FloatVal) : Unbroken (sampleFloatText x) := by
  unfold sampleFloatText
  split_ifs <;> decide +kernel

theorem readsBack_sample : ReadsBack loggingRuntime (passwdRequest "/etc/passwd".toList) :=
  (readsBack_iff sampleFloatText_unbroken (by decide +kernel)).mpr (by decide +kernel)

/-- The part of the path behind its first comma is read as the score. -/
theorem score_chosen_by_requester :
    ¬ ReadsBack loggingRuntime (passwdRequest "/x,0.01,/etc/passwd".toList) := by
  intro h
  have hlogged : (reverseProxy loggingRuntime (passwdRequest "/x,0.01,/etc/passwd".toList)).logged =
      some "1760000000.5,10.0.0.9,/x,0.01,/etc/passwd,0.99\n".toList := by decide +kernel
  have hfields := (h _ hlogged).1.2.2
  have hread : (alertFields "1760000000.5,10.0.0.9,/x,0.01,/etc/passwd,0.99\n".toList)[3]? =
      some "0.01".toList := by decide +kernel
  rw [hread] at hfields
  exact absurd (Option.some.inj hfields) (by decide +kernel)

end Aegis.Waf
