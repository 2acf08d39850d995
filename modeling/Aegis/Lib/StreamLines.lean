import Aegis.Lib.SharedStream

/-! Whose lines the lines of a shared stream are. -/
namespace SharedStream

/-- The line that has been begun and not ended. -/
def openLine (s : Bytes) : Bytes := ((s.splitOn 10).getLast?).getD []

theorem atLineStart_iff {s : Bytes} : AtLineStart s ↔ openLine s = [] := by
  unfold AtLineStart openLine
  cases hlast : (s.splitOn 10).getLast? with
  | none => exact absurd (List.getLast?_eq_none_iff.mp hlast) (List.splitOn_ne_nil _ _)
  | some l => rw [Option.some.injEq, Option.getD_some]

/-- The pieces that come after the complete lines when something is inserted. -/
def pieces (l t : Bytes) : List Bytes := (t.splitOn 10).modifyHead (l ++ ·)

theorem pieces_ne_nil (l t : Bytes) : pieces l t ≠ [] := by
  obtain ⟨p, ps, hp⟩ := List.exists_cons_of_ne_nil (List.splitOn_ne_nil (10 : UInt8) t)
  unfold pieces
  rw [hp, List.modifyHead_cons]
  exact List.cons_ne_nil _ _

theorem splitOn_pieces (s t : Bytes) :
    (s ++ t).splitOn 10 = completeLines s ++ pieces (openLine s) t := by
  obtain ⟨p, ps, hp, l, hlast, happ⟩ := splitOn_append s t
  unfold completeLines pieces openLine
  rw [happ, hp, hlast, List.modifyHead_cons, Option.getD_some]

theorem completeLines_append (s t : Bytes) :
    completeLines (s ++ t) = completeLines s ++ (pieces (openLine s) t).dropLast := by
  rw [completeLines, splitOn_pieces, List.dropLast_append_of_ne_nil (pieces_ne_nil _ _)]

theorem openLine_append (s t : Bytes) :
    openLine (s ++ t) = ((pieces (openLine s) t).getLast?).getD [] := by
  obtain ⟨l, hl⟩ := Option.ne_none_iff_exists'.mp
    (mt List.getLast?_eq_none_iff.mp (pieces_ne_nil (openLine s) t))
  rw [openLine, splitOn_pieces, List.getLast?_append, hl]
  rfl

/-- The stream of finished lines. -/
theorem completeLines_unlines {ls : List Bytes} (h : ∀ l ∈ ls, 10 ∉ l) :
    completeLines (Fields.unlines ls) = ls := by
  rw [completeLines, Fields.splitOn_unlines h, List.dropLast_concat]

variable {κ : Type} [DecidableEq κ]

/-- The lines of one thread among lines that carry their thread. -/
def linesOf (t : κ) (tagged : List (κ × Bytes)) : List Bytes :=
  (tagged.filter (fun line => line.1 = t)).map Prod.snd

theorem linesOf_append (t : κ) (a b : List (κ × Bytes)) :
    linesOf t (a ++ b) = linesOf t a ++ linesOf t b := by
  rw [linesOf, List.filter_append, List.map_append]
  rfl

theorem linesOf_own (t : κ) (ls : List Bytes) : linesOf t (ls.map (Prod.mk t)) = ls := by
  have hall : (ls.map (Prod.mk t)).filter (fun line => line.1 = t) = ls.map (Prod.mk t) := by
    rw [List.filter_eq_self]
    intro line hline
    obtain ⟨l, -, rfl⟩ := List.mem_map.mp hline
    exact decide_eq_true rfl
  rw [linesOf, hall, List.map_map]
  exact List.map_id ls

theorem linesOf_other {t u : κ} (hne : t ≠ u) (ls : List Bytes) :
    linesOf t (ls.map (Prod.mk u)) = [] := by
  have hnone : (ls.map (Prod.mk u)).filter (fun line => line.1 = t) = [] := by
    rw [List.filter_eq_nil_iff]
    intro line hline
    obtain ⟨l, -, rfl⟩ := List.mem_map.mp hline
    simpa using hne.symm
  rw [linesOf, hnone, List.map_nil]

theorem mem_linesOf {t : κ} {l : Bytes} {tagged : List (κ × Bytes)} :
    l ∈ linesOf t tagged ↔ (t, l) ∈ tagged := by
  unfold linesOf
  rw [List.mem_map]
  constructor
  · intro h
    obtain ⟨⟨u, m⟩, hmem, rfl⟩ := h
    obtain ⟨hin, htag⟩ := List.mem_filter.mp hmem
    rw [← of_decide_eq_true htag]
    exact hin
  · intro h
    exact ⟨(t, l), List.mem_filter.mpr ⟨h, decide_eq_true rfl⟩, rfl⟩

/-- Each complete line of the stream is a line of one thread, and the open one belongs to
the thread that inserted last. -/
structure Attributed (whole : κ → Bytes) (outs : κ → Bytes) (tagged : List (κ × Bytes))
    (c : Config κ) : Prop where
  rest : ∀ t, whole t = outs t ++ text (c.rest t)
  stream : completeLines c.stream = tagged.map Prod.snd
  own : ∀ t, completeLines (outs t) = linesOf t tagged
  opened : ∀ t, openLine (outs t) = if c.last = some t then openLine c.stream else []
  begun : c.last = none → openLine c.stream = []

theorem Attributed.start {c : Config κ} (hstream : c.stream = []) (hlast : c.last = none) :
    Attributed (fun t => text (c.rest t)) (fun _ => []) [] c where
  rest _ := rfl
  stream := by
    rw [hstream]
    rfl
  own _ := rfl
  opened t := by
    rw [hlast, if_neg (Option.some_ne_none t).symm]
    rfl
  begun _ := by
    rw [hstream]
    rfl

/-- An operation that inserts nothing. -/
theorem Attributed.silent {whole outs : κ → Bytes} {tagged : List (κ × Bytes)} {c c' : Config κ}
    (h : Attributed whole outs tagged c) (hrest : ∀ t, text (c'.rest t) = text (c.rest t))
    (hstream : c'.stream = c.stream) (hlast : c'.last = c.last) :
    Attributed whole outs tagged c' where
  rest t := by
    rw [hrest]
    exact h.rest t
  stream := by
    rw [hstream]
    exact h.stream
  own := h.own
  opened t := by
    rw [hstream, hlast]
    exact h.opened t
  begun := by
    rw [hstream, hlast]
    exact h.begun

/-- An orderly thread goes on with its own line. -/
theorem Attributed.openLine_eq {whole outs : κ → Bytes} {tagged : List (κ × Bytes)} {c : Config κ}
    (h : Attributed whole outs tagged c) {u : κ} (hord : AtLineStart c.stream ∨ c.last = some u) :
    openLine c.stream = openLine (outs u) ∧ ∀ t, t ≠ u → openLine (outs t) = [] := by
  have hopened := h.opened
  rcases hord with hstart | hown
  · rw [atLineStart_iff] at hstart
    rw [hstart] at hopened ⊢
    simp only [ite_self] at hopened
    exact ⟨(hopened u).symm, fun t _ => hopened t⟩
  · refine ⟨?_, fun t hne => ?_⟩
    · rw [hopened u, if_pos hown]
    · rw [hopened t, if_neg]
      rw [hown, Option.some.injEq]
      exact hne.symm

theorem Attributed.insert {whole outs : κ → Bytes} {tagged : List (κ × Bytes)} {c c' : Config κ}
    (h : Attributed whole outs tagged c) {u : κ} {s : Bytes}
    (hord : AtLineStart c.stream ∨ c.last = some u)
    (hself : text (c.rest u) = s ++ text (c'.rest u)) (hother : ∀ t, t ≠ u → c'.rest t = c.rest t)
    (hstream : c'.stream = c.stream ++ s) (hlast : c'.last = some u) :
    Attributed whole (Function.update outs u (outs u ++ s))
      (tagged ++ (pieces (openLine c.stream) s).dropLast.map (Prod.mk u)) c' := by
  obtain ⟨hsame, hclosed⟩ := h.openLine_eq hord
  constructor
  · intro t
    by_cases hu : t = u
    · subst hu
      rw [Function.update_self, List.append_assoc, ← hself]
      exact h.rest t
    · rw [Function.update_of_ne hu, hother t hu]
      exact h.rest t
  · rw [hstream, completeLines_append, h.stream, List.map_append, List.map_map]
    congr 1
    exact (List.map_id _).symm
  · intro t
    rw [linesOf_append, ← h.own]
    by_cases hu : t = u
    · subst hu
      rw [Function.update_self, completeLines_append, linesOf_own, hsame]
    · rw [Function.update_of_ne hu, linesOf_other hu, List.append_nil]
  · intro t
    rw [hlast, hstream]
    by_cases hu : t = u
    · subst hu
      rw [Function.update_self, if_pos rfl, openLine_append, openLine_append, hsame]
    · rw [Function.update_of_ne hu, if_neg (fun heq => hu (Option.some.inj heq).symm)]
      exact hclosed t hu
  · intro hnone
    rw [hlast] at hnone
    cases hnone

theorem attributed_step {whole outs : κ → Bytes} {tagged : List (κ × Bytes)} {c c' : Config κ}
    (h : Attributed whole outs tagged c) {u : κ} (hord : Orderly u c) (hstep : step u c = some c') :
    ∃ outs' tagged', Attributed whole outs' tagged' c' := by
  obtain ⟨op, hdoes⟩ := step_spec hstep
  have hstream := hdoes.stream
  cases op with
  | insert s =>
    have hnext : (c.rest u).head?.any Op.isInsert = true := by
      rw [hdoes.rest]
      rfl
    have hself : text (c.rest u) = s ++ text (c'.rest u) := by
      rw [hdoes.rest]
      rfl
    have hinserted : text [.insert s] = s := List.append_nil s
    rw [hinserted] at hstream
    exact ⟨_, _, h.insert (hord hnext) hself hdoes.others hstream hdoes.last⟩
  | lock | flush | unlock =>
    refine ⟨outs, tagged, h.silent (fun t => ?_) (hstream.trans (List.append_nil _)) hdoes.last⟩
    by_cases ht : t = u
    · rw [ht, hdoes.rest]
      rfl
    · rw [hdoes.others t ht]

theorem attributed_run {whole outs : κ → Bytes} {tagged : List (κ × Bytes)} {schedule : List κ}
    {c c' : Config κ} (h : Attributed whole outs tagged c) (hord : OrderlyRun schedule c)
    (hrun : run schedule c = some c') : ∃ outs' tagged', Attributed whole outs' tagged' c' := by
  induction schedule generalizing c outs tagged with
  | nil =>
    cases hrun
    exact ⟨outs, tagged, h⟩
  | cons u schedule ih =>
    obtain ⟨c₁, hstep, hrest⟩ := Option.bind_eq_some_iff.mp hrun
    obtain ⟨outs₁, tagged₁, h₁⟩ := attributed_step h hord.1 hstep
    exact ih h₁ (hord.2 c₁ hstep) hrest

/-- In an orderly run every complete line of the stream is a line of one thread, and the lines
of each thread are those of the operations it has done, in its own order. -/
theorem lines_attributed {schedule : List κ} {c₀ c : Config κ} (hstream : c₀.stream = [])
    (hlast : c₀.last = none) (hord : OrderlyRun schedule c₀) (hrun : run schedule c₀ = some c) :
    ∃ tagged : List (κ × Bytes), completeLines c.stream = tagged.map Prod.snd ∧ ∀ t, ∃ did,
      c₀.rest t = did ++ c.rest t ∧ c.released t = c₀.released t + did.count .unlock ∧
      linesOf t tagged = completeLines (text did) := by
  obtain ⟨outs, tagged, h⟩ := attributed_run (.start hstream hlast) hord hrun
  refine ⟨tagged, h.stream, fun t => ?_⟩
  obtain ⟨did, hrest, hreleased⟩ := done_run t hrun
  have hwhole : text (c₀.rest t) = outs t ++ text (c.rest t) := h.rest t
  rw [hrest, text_append] at hwhole
  exact ⟨did, hrest, hreleased, by rw [List.append_cancel_right hwhole, h.own t]⟩

/-! A thread that writes messages under the mutex, and whole lines without it. -/

/-- Lock, message, newline, flush, unlock. -/
def framed (m : Bytes) : List Op := [.lock, .insert m, .insert [10], .flush, .unlock]

/-- The operations of one write, and the message it writes under the mutex. -/
inductive Writes : List Op → Option Bytes → Prop where
  | framed (m : Bytes) (hm : 10 ∉ m) : Writes (framed m) (some m)
  | plain (ops : List Op) (hends : AtLineStart (text ops)) (hfree : .unlock ∉ ops) : Writes ops none

theorem completeLines_append_of_atLineStart {a : Bytes} (ha : AtLineStart a) (b : Bytes) :
    completeLines (a ++ b) = completeLines a ++ completeLines b := by
  rw [completeLines_append, atLineStart_iff.mp ha]
  congr 2
  cases hb : b.splitOn 10 with
  | nil => exact absurd hb (List.splitOn_ne_nil _ _)
  | cons p ps =>
    unfold pieces
    rw [hb]
    rfl

theorem atLineStart_concat (l : Bytes) : AtLineStart (l ++ [10]) := by
  obtain ⟨p, ps, hp, k, -, happ⟩ := splitOn_append l [10]
  obtain ⟨rfl, rfl⟩ := List.cons.inj hp
  unfold AtLineStart
  rw [happ, List.getLast?_append]
  rfl

section Messages
variable {β : Type*} {ops : β → List Op} {message : β → Option Bytes}

theorem Writes.count_unlock {wops : List Op} {m : Option Bytes} (h : Writes wops m) :
    wops.count .unlock = m.toList.length := by
  cases h with
  | framed m hm => rfl
  | plain wops hends hfree => exact List.count_eq_zero.mpr hfree

theorem count_unlock {ws : List β} (hws : ∀ w ∈ ws, Writes (ops w) (message w)) :
    (ws.flatMap ops).count .unlock = (ws.filterMap message).length := by
  induction ws with
  | nil => rfl
  | cons w ws ih =>
    obtain ⟨hw, hws⟩ := List.forall_mem_cons.mp hws
    rw [List.flatMap_cons, List.count_append, ih hws, hw.count_unlock, List.filterMap_cons]
    cases message w with
    | none => exact Nat.zero_add _
    | some m => exact Nat.add_comm 1 _

/-- As many messages are whole lines as there are `unlock`s done. -/
theorem messages_done {ws : List β} (hws : ∀ w ∈ ws, Writes (ops w) (message w)) {did rest : List Op}
    (h : ws.flatMap ops = did ++ rest) :
    ((ws.filterMap message).take (did.count .unlock)).Sublist (completeLines (text did)) := by
  induction ws generalizing did with
  | nil =>
    rw [List.filterMap_nil, List.take_nil]
    exact List.nil_sublist _
  | cons w ws ih =>
    obtain ⟨hw, hws⟩ := List.forall_mem_cons.mp hws
    rw [List.flatMap_cons, List.append_eq_append_iff] at h
    generalize hops : ops w = wops at h hw
    generalize hmessage : message w = m at hw
    cases hw with
    | plain wops hends hfree =>
      rw [List.filterMap_cons, hmessage]
      rcases h with ⟨did', rfl, hrest⟩ | ⟨left, rfl, -⟩
      · rw [List.count_append, List.count_eq_zero.mpr hfree, Nat.zero_add, text_append,
          completeLines_append_of_atLineStart hends]
        exact (ih hws hrest).trans (List.sublist_append_right _ _)
      · rw [List.count_eq_zero.mpr fun hmem => hfree (List.mem_append_left _ hmem), List.take_zero]
        exact List.nil_sublist _
    | framed m hm =>
      rw [List.filterMap_cons, hmessage]
      have hwhole : ∀ did', ws.flatMap ops = did' ++ rest → ((m :: ws.filterMap message).take
          ((framed m ++ did').count .unlock)).Sublist (completeLines (text (framed m ++ did'))) := by
        intro did' hrest
        have hline : completeLines (text (framed m)) = [m] := by
          show ((m ++ [10]).splitOn 10).dropLast = [m]
          rw [List.splitOn_append_cons_self_of_not_mem hm []]
          rfl
        have hstart : AtLineStart (text (framed m)) := atLineStart_concat m
        have hcount : (framed m).count .unlock = 1 := rfl
        rw [List.count_append, hcount, Nat.add_comm, List.take_succ_cons, text_append,
          completeLines_append_of_atLineStart hstart, hline]
        exact (ih hws hrest).cons_cons m
      rcases h with ⟨did', rfl, hrest⟩ | ⟨left, hleft, hrest⟩
      · exact hwhole did' hrest
      · cases left using List.reverseRecOn with
        | nil =>
          rw [List.append_nil] at hleft
          have h := hwhole [] hrest.symm
          rw [List.append_nil, hleft] at h
          exact h
        | append_singleton left op =>
          -- the `unlock` is the last operation, and still to come
          have hmem : Op.unlock ∉ did := by
            have hends : did ++ left ++ [op] = [.lock, .insert m, .insert [10], .flush] ++ [.unlock] := by
              rw [List.append_assoc, ← hleft]
              rfl
            intro hmem
            have hin := List.mem_append_left left hmem
            rw [(List.append_inj' hends rfl).1] at hin
            simp at hin
          rw [List.count_eq_zero.mpr hmem, List.take_zero]
          exact List.nil_sublist _

/-- In an orderly run the messages whose writing has returned are complete lines, in order,
and in the end all of them are. -/
theorem messages_are_lines {ws : List β} (hws : ∀ w ∈ ws, Writes (ops w) (message w)) {t : κ}
    {schedule : List κ} {c₀ c : Config κ} (hstart : c₀.rest t = ws.flatMap ops)
    (hstream : c₀.stream = []) (hlast : c₀.last = none) (hreleased : c₀.released t = 0)
    (hord : OrderlyRun schedule c₀) (hrun : run schedule c₀ = some c) :
    ((ws.filterMap message).take (c.released t)).Sublist (completeLines c.stream) ∧
      (c.rest t = [] → (ws.filterMap message).Sublist (completeLines c.stream)) := by
  obtain ⟨tagged, htagged, hlines⟩ := lines_attributed hstream hlast hord hrun
  obtain ⟨did, hrest, hcount, hown⟩ := hlines t
  have hdone := messages_done hws (hstart.symm.trans hrest)
  have hsub : (linesOf t tagged).Sublist (completeLines c.stream) := by
    rw [htagged]
    exact List.filter_sublist.map Prod.snd
  rw [hown] at hsub
  rw [hreleased, Nat.zero_add] at hcount
  have htake := hdone.trans hsub
  refine ⟨hcount ▸ htake, fun hrest' => ?_⟩
  rw [hrest', List.append_nil, hstart] at hrest
  rwa [← hrest, count_unlock hws, List.take_length] at htake

end Messages

/-- A thread that only inserts can go on alone. -/
theorem run_inserts (t : κ) (ss : List Bytes) (c : Config κ) (hrest : c.rest t = ss.map Op.insert) :
    ∃ c', run (List.replicate ss.length t) c = some c' ∧ c'.stream = c.stream ++ ss.flatten := by
  induction ss generalizing c with
  | nil => exact ⟨c, rfl, by simp⟩
  | cons s ss ih =>
    let c₁ : Config κ := { c with
      rest := Function.update c.rest t (ss.map Op.insert), last := some t, stream := c.stream ++ s }
    have hstep : step t c = some c₁ := by
      unfold step
      rw [hrest]
      rfl
    obtain ⟨c', hrun, hstream⟩ := ih c₁ (Function.update_self t (ss.map Op.insert) c.rest)
    refine ⟨c', ?_, ?_⟩
    · rw [List.length_cons, List.replicate_succ]
      exact Option.bind_eq_some_iff.mpr ⟨c₁, hstep, hrun⟩
    · rw [hstream, List.flatten_cons]
      exact List.append_assoc _ _ _

end SharedStream
