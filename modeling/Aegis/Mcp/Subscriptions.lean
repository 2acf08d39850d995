import Aegis.Lib.Topics
import Aegis.Mcp.Methods
import Aegis.Mcp.SseServer

/-! Subscriptions to resources: `subscribe_resource`, `unsubscribe_resource`,
`cleanup_subscriptions` and `notify_resource_updated` of `mcp_shard.hh`, on all cores. -/
namespace Aegis.Mcp

open Mailbox

/-- What happens on a core: an event of its streams; a `dispatch`, which sets
`_current_session_id`; a subscribing request, whenever its handler runs, alone or in a batch;
the part of a `broadcast_resource_updated` that is the core's. -/
inductive ShardEvent (cores : ℕ) where
  | stream (e : SseEvent cores)
  | dispatch (core : Fin cores) (sessionId : Bytes)
  | subscribe (core : Fin cores) (params : Json Bytes)
  | unsubscribe (core : Fin cores) (params : Json Bytes)
  | updated (core : Fin cores) (uri : Bytes)

structure Shards (cores : ℕ) where
  server : SseServer cores := {}
  currentSessionId : Fin cores → Bytes := fun _ => []
  subscriptions : Fin cores → Topics Bytes Bytes := fun _ => .empty

def resourceUpdated (uri : Bytes) : Json Bytes :=
  .object [(ascii "jsonrpc", .str (ascii "2.0")),
    (ascii "method", .str (ascii "notifications/resources/updated")),
    (ascii "params", .object [(ascii "uri", .str uri)])]

namespace Shards
variable {cores : ℕ}

/-- The resource that a request of the current session is about. -/
def subject (currentSessionId : Bytes) (params : Json Bytes) : Option Bytes :=
  match stringValue params (ascii "uri") [] with
  | .ok uri => if uri ≠ [] ∧ currentSessionId ≠ [] then some uri else none
  | .error _ => none

/-- The stream that an event ends; `cleanup_subscriptions` follows. -/
def ended (server : SseServer cores) : SseEvent cores → Option (Fin cores × Bytes)
  | .close core sessionId => some (core, sessionId)
  | .pop core sessionId =>
    match server.net.boxes core sessionId with
    | some ⟨[] :: _, _⟩ => some (core, sessionId)
    | _ => none
  | _ => none

/-- `notify_resource_updated`: a push to each subscriber with a session on the core. -/
def notified (floatText : FloatVal → Bytes) (s : Shards cores) (core : Fin cores) (uri : Bytes) :
    List (SseEvent cores) :=
  match (resourceUpdated uri).dump floatText with
  | none => []
  | some msg =>
    (((s.subscriptions core).members uri).filter fun sessionId =>
      (s.server.net.boxes core sessionId).isSome).map fun sessionId => .notify core sessionId msg

def setSubscriptions (s : Shards cores) (core : Fin cores) (t : Topics Bytes Bytes) : Shards cores :=
  { s with subscriptions := Function.update s.subscriptions core t }

def step (floatText : FloatVal → Bytes) (s : Shards cores) :
    ShardEvent cores → Shards cores × List (SseEvent cores)
  | .stream e =>
    let server := s.server.step e
    match ended s.server e with
    | some (core, sessionId) =>
      ({ s.setSubscriptions core ((s.subscriptions core).removeAll sessionId) with server }, [e])
    | none => ({ s with server }, [e])
  | .dispatch core sessionId =>
    ({ s with currentSessionId := Function.update s.currentSessionId core sessionId }, [])
  | .subscribe core params =>
    match subject (s.currentSessionId core) params with
    | some uri =>
      (s.setSubscriptions core ((s.subscriptions core).add uri (s.currentSessionId core)), [])
    | none => (s, [])
  | .unsubscribe core params =>
    match subject (s.currentSessionId core) params with
    | some uri =>
      (s.setSubscriptions core ((s.subscriptions core).remove uri (s.currentSessionId core)), [])
    | none => (s, [])
  | .updated core uri =>
    ({ s with server := (SseServer.machine cores).after s.server (s.notified floatText core uri) },
      s.notified floatText core uri)

/-- The shards; each event says what it is for the streams. -/
def machine (floatText : FloatVal → Bytes) (cores : ℕ) :
    Transducer (Shards cores) (ShardEvent cores) (List (SseEvent cores)) where
  init := {}
  step := step floatText

/-- The request comes from the session, as far as the core knows, and is about the resource. -/
def Concerns (s : Shards cores) (core' : Fin cores) (params : Json Bytes) (core : Fin cores)
    (sessionId uri : Bytes) : Prop :=
  core' = core ∧ s.currentSessionId core' = sessionId ∧
    subject (s.currentSessionId core') params = some uri

instance (s : Shards cores) (core' : Fin cores) (params : Json Bytes) (core : Fin cores)
    (sessionId uri : Bytes) : Decidable (s.Concerns core' params core sessionId uri) :=
  inferInstanceAs (Decidable (_ ∧ _ ∧ _))

/-- What an event decides about the subscription of a session on a core: a request does if
the session is the one whose POST came last, and the end of the stream does. -/
def verdict (core : Fin cores) (sessionId uri : Bytes) (s : Shards cores) :
    ShardEvent cores → Option Bool
  | .subscribe core' params => if s.Concerns core' params core sessionId uri then some true else none
  | .unsubscribe core' params => if s.Concerns core' params core sessionId uri then some false else none
  | .stream e => if ended s.server e = some (core, sessionId) then some false else none
  | .dispatch .. | .updated .. => none

/-- The last verdict on the subscription is that it stands. -/
def Stands (floatText : FloatVal → Bytes) (es : List (ShardEvent cores)) (core : Fin cores)
    (sessionId uri : Bytes) : Prop :=
  (((machine floatText cores).observe (verdict core sessionId uri)).answers es).reduceOption.getLast? =
    some true

instance (floatText : FloatVal → Bytes) (es : List (ShardEvent cores)) (core : Fin cores)
    (sessionId uri : Bytes) : Decidable (Stands floatText es core sessionId uri) :=
  inferInstanceAs (Decidable (_ = _))

section Stands
variable {floatText : FloatVal → Bytes}

theorem server_run (es : List (ShardEvent cores)) :
    ((machine floatText cores).run es).server =
      (SseServer.machine cores).run ((machine floatText cores).answers es).flatten := by
  refine Transducer.run_inner Shards.server rfl (fun s e => ?_) es
  cases e with
  | stream e =>
    show (step floatText s (.stream e)).1.server = (SseServer.machine cores).after _ (step floatText s _).2
    unfold step
    dsimp only
    cases ended s.server e <;> rfl
  | dispatch => rfl
  | subscribe core params | unsubscribe core params =>
    show (step floatText s _).1.server = (SseServer.machine cores).after _ (step floatText s _).2
    unfold step
    dsimp only
    cases subject (s.currentSessionId core) params <;> rfl
  | updated => rfl

@[simp] theorem subscriptions_setSubscriptions (s : Shards cores) (core core' : Fin cores)
    (t : Topics Bytes Bytes) :
    (s.setSubscriptions core t).subscriptions core' = if core' = core then t else s.subscriptions core' :=
  Function.update_apply ..

theorem not_concerns_of_none {s : Shards cores} {core core' : Fin cores} {params : Json Bytes}
    {sessionId uri : Bytes} (h : subject (s.currentSessionId core') params = none) :
    ¬ s.Concerns core' params core sessionId uri := by
  rintro ⟨-, -, hsome⟩
  rw [h] at hsome
  cases hsome

theorem concerns_iff {s : Shards cores} {core core' : Fin cores} {params : Json Bytes}
    {sessionId uri uri' : Bytes} (h : subject (s.currentSessionId core') params = some uri') :
    s.Concerns core' params core sessionId uri ↔
      core = core' ∧ uri = uri' ∧ sessionId = s.currentSessionId core' := by
  unfold Concerns
  rw [h, Option.some.injEq, eq_comm (a := core'), eq_comm (a := uri'), eq_comm (b := sessionId),
    and_comm (b := uri = uri')]

theorem mem_members_step (s : Shards cores) (e : ShardEvent cores) (core : Fin cores)
    (sessionId uri : Bytes) :
    sessionId ∈ ((step floatText s e).1.subscriptions core).members uri ↔
      (verdict core sessionId uri s e).elim (sessionId ∈ (s.subscriptions core).members uri) (· = true) := by
  cases e with
  | stream e =>
    unfold step verdict
    dsimp only
    cases hended : ended s.server e with
    | none => rfl
    | some stream =>
      obtain ⟨core', sessionId'⟩ := stream
      dsimp only
      rw [subscriptions_setSubscriptions]
      by_cases hthis : (core', sessionId') = (core, sessionId)
      · obtain ⟨rfl, rfl⟩ := Prod.mk.inj hthis
        rw [if_pos rfl, if_pos rfl, Topics.mem_removeAll]
        exact iff_of_false (fun h => h.2 rfl) Bool.false_ne_true
      · rw [if_neg fun h => hthis (Option.some.inj h)]
        split_ifs with hcore
        · rw [Topics.mem_removeAll, hcore]
          exact and_iff_left fun hsession => hthis (Prod.ext hcore.symm hsession.symm)
        · rfl
  | subscribe core' params =>
    unfold step verdict
    dsimp only
    cases hsubject : subject (s.currentSessionId core') params with
    | none =>
      rw [if_neg (not_concerns_of_none hsubject)]
      rfl
    | some uri' =>
      simp only [concerns_iff hsubject, subscriptions_setSubscriptions]
      by_cases hcore : core = core'
      · rw [if_pos hcore, Topics.mem_add, hcore]
        by_cases hthis : uri = uri' ∧ sessionId = s.currentSessionId core'
        · rw [if_pos ⟨rfl, hthis⟩]
          exact iff_of_true (Or.inl hthis) rfl
        · rw [if_neg fun h => hthis h.2]
          exact or_iff_right hthis
      · rw [if_neg hcore, if_neg fun h => hcore h.1]
        rfl
  | unsubscribe core' params =>
    unfold step verdict
    dsimp only
    cases hsubject : subject (s.currentSessionId core') params with
    | none =>
      rw [if_neg (not_concerns_of_none hsubject)]
      rfl
    | some uri' =>
      simp only [concerns_iff hsubject, subscriptions_setSubscriptions]
      by_cases hcore : core = core'
      · rw [if_pos hcore, Topics.mem_remove, hcore]
        by_cases hthis : uri = uri' ∧ sessionId = s.currentSessionId core'
        · rw [if_pos ⟨rfl, hthis⟩]
          exact iff_of_false (fun h => h.2 hthis) Bool.false_ne_true
        · rw [if_neg fun h => hthis h.2]
          exact and_iff_left hthis
      · rw [if_neg hcore, if_neg fun h => hcore h.1]
        rfl
  | dispatch | updated => rfl

/-- A session is a subscriber of a resource on a core if its subscription stands there. -/
theorem mem_members_run {es : List (ShardEvent cores)} {core : Fin cores} {sessionId uri : Bytes} :
    sessionId ∈ (((machine floatText cores).run es).subscriptions core).members uri ↔
      Stands floatText es core sessionId uri :=
  Transducer.run_iff_last (fun s : Shards cores => sessionId ∈ (s.subscriptions core).members uri)
    (verdict core sessionId uri) List.not_mem_nil
    (fun s e => mem_members_step s e core sessionId uri) es

/-- The update that a session gets from the part of a broadcast that is the core's. -/
theorem addressed_notified (es : List (ShardEvent cores)) (core : Fin cores) (sessionId uri : Bytes) :
    (((machine floatText cores).run es).notified floatText core uri).filterMap
        (SseEvent.addressed sessionId) =
      if (((machine floatText cores).run es).server.net.boxes core sessionId).isSome ∧
          Stands floatText es core sessionId uri then
        ((resourceUpdated uri).dump floatText).toList
      else [] := by
  unfold notified
  cases (resourceUpdated uri).dump floatText with
  | none =>
    dsimp only
    split_ifs <;> rfl
  | some msg =>
    dsimp only
    rw [List.filterMap_map]
    show List.filterMap (fun sessionId' => if sessionId = sessionId' then some msg else none) _ = _
    rw [Topics.filterMap_eq_of_nodup ((Topics.nodup_members _ _).filter _)]
    simp only [List.mem_filter, mem_members_run, and_comm]
    rfl

end Stands

/-! What a session gets, from its connection on. -/

/-- The message that an event of the streams addresses to a session. -/
def addressed (sessionId : Bytes) : ShardEvent cores → Option Bytes
  | .stream e => e.addressed sessionId
  | _ => none

/-- The update that an event makes due to a session of a core: a broadcast that reaches the
core does, while the subscription stands there. -/
def dueNow (floatText : FloatVal → Bytes) (core : Fin cores) (sessionId : Bytes)
    (before : List (ShardEvent cores)) : ShardEvent cores → List Bytes
  | .updated core' uri =>
    if core' = core ∧ Stands floatText before core sessionId uri then
      ((resourceUpdated uri).dump floatText).toList
    else []
  | _ => []

/-- The updates that are due to a session of a core, in the events after those before. -/
def due (floatText : FloatVal → Bytes) (core : Fin cores) (sessionId : Bytes) :
    List (ShardEvent cores) → List (ShardEvent cores) → List Bytes
  | _, [] => []
  | before, e :: es =>
    dueNow floatText core sessionId before e ++ due floatText core sessionId (before ++ [e]) es

section Delivered
variable {floatText : FloatVal → Bytes}

theorem valid_run (es : List (ShardEvent cores)) : ((machine floatText cores).run es).server.Valid := by
  rw [server_run]
  exact SseServer.valid_run _

theorem mem_notified {s : Shards cores} {core : Fin cores} {uri : Bytes} {e : SseEvent cores}
    (h : e ∈ s.notified floatText core uri) :
    ∃ sessionId msg, e = .notify core sessionId msg ∧ msg ≠ [] ∧
      (s.server.net.boxes core sessionId).isSome := by
  unfold notified at h
  cases hdump : (resourceUpdated uri).dump floatText with
  | none =>
    rw [hdump] at h
    cases h
  | some msg =>
    rw [hdump] at h
    obtain ⟨sessionId, hmem, rfl⟩ := List.mem_map.mp h
    refine ⟨sessionId, msg, rfl, ?_, (List.mem_filter.mp hmem).2⟩
    rintro rfl
    obtain ⟨inner, -, heq⟩ := Option.bind_eq_some_iff.mp hdump
    cases Option.some.inj heq

theorem answer_stream (s : Shards cores) (e : SseEvent cores) :
    (step floatText s (.stream e)).2 = [e] := by
  unfold step
  dsimp only
  cases ended s.server e <;> rfl

theorem answer_subscribe (s : Shards cores) (core : Fin cores) (params : Json Bytes) :
    (step floatText s (.subscribe core params)).2 = [] ∧
      (step floatText s (.unsubscribe core params)).2 = [] := by
  unfold step
  dsimp only
  cases subject (s.currentSessionId core) params <;> exact ⟨rfl, rfl⟩

/-- What the streams see is an event of theirs or a push to a session that is open there. -/
theorem mem_outputs {before es : List (ShardEvent cores)} {e : SseEvent cores}
    (h : e ∈ ((machine floatText cores).outputs ((machine floatText cores).run before) es).flatten) :
    .stream e ∈ es ∨ ∃ mid after core sessionId msg, es = mid ++ after ∧
      e = .notify core sessionId msg ∧ msg ≠ [] ∧
        (((machine floatText cores).run (before ++ mid)).server.net.boxes core sessionId).isSome := by
  induction es generalizing before with
  | nil => cases h
  | cons i es ih =>
    rw [Transducer.outputs_cons, List.flatten_cons, List.mem_append, ← Transducer.run_concat] at h
    rcases h with hmem | hlater
    · change e ∈ (step floatText _ i).2 at hmem
      cases i with
      | stream e' =>
        rw [answer_stream, List.mem_singleton] at hmem
        rw [hmem]
        exact Or.inl List.mem_cons_self
      | dispatch => cases hmem
      | subscribe =>
        rw [(answer_subscribe _ _ _).1] at hmem
        cases hmem
      | unsubscribe =>
        rw [(answer_subscribe _ _ _).2] at hmem
        cases hmem
      | updated core uri =>
        obtain ⟨sessionId, msg, heq, hne, hopen⟩ := mem_notified hmem
        refine Or.inr ⟨[], _, core, sessionId, msg, rfl, heq, hne, ?_⟩
        rwa [List.append_nil]
    · rcases ih hlater with hmem | ⟨mid, after, core, sessionId, msg, rfl, heq, hne, hopen⟩
      · exact Or.inl (List.mem_cons_of_mem i hmem)
      · refine Or.inr ⟨i :: mid, after, core, sessionId, msg, rfl, heq, hne, ?_⟩
        rwa [List.append_assoc] at hopen

/-- An id is not in use before it is handed out. -/
theorem boxes_before {before after : List (ShardEvent cores)} {core k : Fin cores} {sessionId : Bytes}
    (hid : sessionId = ((machine floatText cores).run (before ++ after)).server.nextId core) :
    ((machine floatText cores).run before).server.net.boxes k sessionId = none := by
  by_contra hsome
  obtain ⟨c, hc, heq⟩ := (valid_run before).handedOut k sessionId (Option.isSome_iff_ne_none.mpr hsome)
  obtain ⟨-, hcore, hcount⟩ := SseTransport.newId_inj.mp (hid.symm.trans heq)
  have hmore : ((machine floatText cores).run before).server.counter core ≤
      ((machine floatText cores).run (before ++ after)).server.counter core := by
    rw [server_run, server_run, Transducer.answers_append, List.flatten_append, Transducer.run_append]
    exact SseServer.counter_le_after _ _ _
  rw [← Fin.ext hcore] at hc
  omega

/-- A session is open on the core that handed out its id only. -/
theorem eq_of_open {es : List (ShardEvent cores)} {core k : Fin cores} {c : ℕ} {sessionId : Bytes}
    (hid : sessionId = SseTransport.httpSse.newId core c)
    (hopen : (((machine floatText cores).run es).server.net.boxes k sessionId).isSome) : k = core := by
  obtain ⟨c', -, heq⟩ := (valid_run es).handedOut k sessionId hopen
  exact Fin.ext (SseTransport.newId_inj.mp (heq.symm.trans hid)).2.1

/-- What the streams see of one event, for a session that is open. -/
theorem addressed_answer {core : Fin cores} {c : ℕ} {sessionId : Bytes}
    (hid : sessionId = SseTransport.httpSse.newId core c) {before : List (ShardEvent cores)}
    (hopen : (((machine floatText cores).run before).server.net.boxes core sessionId).isSome)
    (e : ShardEvent cores) :
    (step floatText ((machine floatText cores).run before) e).2.filterMap (SseEvent.addressed sessionId) =
      (addressed sessionId e).toList ++ dueNow floatText core sessionId before e := by
  cases e with
  | stream e =>
    rw [answer_stream, List.filterMap_eq_flatMap_toList, List.flatMap_singleton]
    exact (List.append_nil _).symm
  | dispatch => rfl
  | subscribe =>
    rw [(answer_subscribe _ _ _).1]
    rfl
  | unsubscribe =>
    rw [(answer_subscribe _ _ _).2]
    rfl
  | updated core' uri =>
    show (notified floatText _ core' uri).filterMap _ = ite _ _ _
    rw [addressed_notified]
    by_cases hcore : core' = core
    · subst hcore
      simp only [hopen, true_and]
    · rw [if_neg fun h => hcore (eq_of_open hid h.1), if_neg fun h => hcore h.1]

/-- The messages for a session that the streams see, while it is open. -/
theorem addressed_outputs {core : Fin cores} {c : ℕ} {sessionId : Bytes}
    (hid : sessionId = SseTransport.httpSse.newId core c) {before es : List (ShardEvent cores)}
    (hopen : ∀ mid after, es = mid ++ after →
      (((machine floatText cores).run (before ++ mid)).server.net.boxes core sessionId).isSome) :
    (((machine floatText cores).outputs ((machine floatText cores).run before) es).flatten.filterMap
        (SseEvent.addressed sessionId) : Multiset Bytes) =
      es.filterMap (addressed sessionId) + due floatText core sessionId before es := by
  induction es generalizing before with
  | nil => rfl
  | cons e es ih =>
    have hopen' : (((machine floatText cores).run before).server.net.boxes core sessionId).isSome := by
      have hnow := hopen [] (e :: es) rfl
      rwa [List.append_nil] at hnow
    have hlater := @ih (before ++ [e]) fun mid after hsplit => by
      rw [List.append_assoc]
      exact hopen (e :: mid) after (by rw [hsplit]; rfl)
    rw [Transducer.run_concat] at hlater
    rw [Transducer.outputs_cons, List.flatten_cons, List.filterMap_append, due, ← Multiset.coe_add,
      ← Multiset.coe_add, hlater]
    show (List.filterMap (SseEvent.addressed sessionId) (step floatText _ e).2 : Multiset Bytes) + _ = _
    rw [addressed_answer hid hopen', ← Multiset.coe_add]
    have hcons : (e :: es).filterMap (addressed sessionId) =
        (addressed sessionId e).toList ++ es.filterMap (addressed sessionId) := by
      rw [List.filterMap_eq_flatMap_toList, List.flatMap_cons, ← List.filterMap_eq_flatMap_toList]
    rw [hcons, ← Multiset.coe_add]
    abel

/-- What the streams see of a run in which a session is opened. -/
theorem answers_connect (pre post : List (ShardEvent cores)) (core : Fin cores) :
    ((machine floatText cores).answers (pre ++ .stream (.connect core) :: post)).flatten =
      ((machine floatText cores).answers pre).flatten ++ .connect core ::
        ((machine floatText cores).outputs
          ((machine floatText cores).run (pre ++ [.stream (.connect core)])) post).flatten := by
  rw [Transducer.answers_append, List.flatten_append, Transducer.outputs_cons, List.flatten_cons,
    Transducer.run_concat]
  rfl

section Session
variable (hcores : cores ≤ 2 ^ 32) {pre post : List (ShardEvent cores)} {core : Fin cores}
  {sessionId : Bytes} (hid : sessionId = ((machine floatText cores).run pre).server.nextId core)
  (hroutable : ∀ e, .stream e ∈ pre ++ .stream (.connect core) :: post → e.Routable)
  (hpre : ∀ e, .stream e ∈ pre → e.addressed sessionId = none)
  (hpost : ∀ e, .stream e ∈ post → e.Spares core sessionId)

include hcores hid hroutable hpre hpost

/-- The session stays open and its stream loses nothing of what the streams see for it. -/
theorem stream_kept : ∃ session,
    ((machine floatText cores).run (pre ++ .stream (.connect core) :: post)).server.net.boxes core
        sessionId = some session ∧
      (((machine floatText cores).run (pre ++ .stream (.connect core) :: post)).server.net.taken
          sessionId : Multiset Bytes) + (session.queue + session.waiting) +
        travelling sessionId ((machine floatText cores).run
          (pre ++ .stream (.connect core) :: post)).server.net.inFlight =
        ((machine floatText cores).outputs ((machine floatText cores).run
          (pre ++ [.stream (.connect core)])) post).flatten.filterMap (SseEvent.addressed sessionId) := by
  have hid' := hid
  rw [server_run] at hid'
  rw [server_run, answers_connect]
  refine SseServer.messages_kept hcores hid' ?_ ?_ ?_
  · intro e he
    rw [← answers_connect] at he
    rcases @mem_outputs _ _ [] _ _ he with hmem | ⟨-, -, k, sessionId', msg, -, rfl, -⟩
    · exact hroutable e hmem
    · trivial
  · intro e he
    rcases @mem_outputs _ _ [] _ _ he with hmem | ⟨mid, after, k, sessionId', msg, rfl, rfl, -, hopen⟩
    · exact hpre e hmem
    · refine if_neg ?_
      rintro rfl
      rw [List.nil_append, boxes_before hid] at hopen
      cases hopen
  · intro e he
    rcases mem_outputs he with hmem | ⟨mid, after, k, sessionId', msg, rfl, rfl, hne, hopen⟩
    · exact hpost e hmem
    · rintro rfl
      exact ⟨eq_of_open hid hopen, hne⟩

/-- Whatever the cores do, as long as a session is spared: the responses and notifications
addressed to it since its connection, and one update for each broadcast that reached its core
while its subscription stood there, were popped by its stream, stand in its queue, wait for
room there or are on their way to its core, each exactly once; and there is nothing else in
any of these places. -/
theorem updates_delivered : ∃ session,
    ((machine floatText cores).run (pre ++ .stream (.connect core) :: post)).server.net.boxes core
        sessionId = some session ∧
      (((machine floatText cores).run (pre ++ .stream (.connect core) :: post)).server.net.taken
          sessionId : Multiset Bytes) + (session.queue + session.waiting) +
        travelling sessionId ((machine floatText cores).run
          (pre ++ .stream (.connect core) :: post)).server.net.inFlight =
        post.filterMap (addressed sessionId) +
          due floatText core sessionId (pre ++ [.stream (.connect core)]) post := by
  obtain ⟨session, hbox, haccount⟩ := stream_kept hcores hid hroutable hpre hpost
  refine ⟨session, hbox, haccount.trans (addressed_outputs hid ?_)⟩
  rintro mid after rfl
  have hroutable' : ∀ e, .stream e ∈ pre ++ .stream (.connect core) :: mid → e.Routable := by
    intro e he
    apply hroutable e
    rw [← List.cons_append, ← List.append_assoc]
    exact List.mem_append_left _ he
  have hpost' : ∀ e, .stream e ∈ mid → e.Spares core sessionId := fun e he =>
    hpost e (List.mem_append_left _ he)
  obtain ⟨session, hbox, -⟩ := stream_kept hcores hid hroutable' hpre hpost'
  rw [List.append_assoc]
  exact Option.isSome_iff_exists.mpr ⟨session, hbox⟩

end Session

/-- A session of one core subscribes on that core and on another. -/
def sampleRun (core other : Fin 2) : List (ShardEvent 2) :=
  [.dispatch core (ascii "s0_1"), .subscribe core (.object [(ascii "uri", .str (ascii "a"))]),
    .dispatch other (ascii "s0_1"), .subscribe other (.object [(ascii "uri", .str (ascii "b"))]),
    .updated core (ascii "a"), .updated other (ascii "b"), .stream (.pop core (ascii "s0_1"))]

theorem updates_delivered_sample : ∃ session,
    ((machine (fun _ => []) 2).run ([] ++ .stream (.connect 0) :: sampleRun 0 1)).server.net.boxes 0
        (ascii "s0_1") = some session ∧
      (((machine (fun _ => []) 2).run ([] ++ .stream (.connect 0) :: sampleRun 0 1)).server.net.taken
          (ascii "s0_1") : Multiset Bytes) + (session.queue + session.waiting) +
        travelling (ascii "s0_1") ((machine (fun _ => []) 2).run
          ([] ++ .stream (.connect 0) :: sampleRun 0 1)).server.net.inFlight =
        (sampleRun 0 1).filterMap (addressed (ascii "s0_1")) +
          due (fun _ => []) 0 (ascii "s0_1") ([] ++ [.stream (.connect 0)]) (sampleRun 0 1) := by
  have hstream : ∀ e, ShardEvent.stream e ∈ sampleRun 0 1 → e = .pop 0 (ascii "s0_1") := by
    intro e he
    simpa [sampleRun] using he
  apply updates_delivered (by decide) (by decide)
  · intro e he
    rcases List.mem_cons.mp he with heq | he
    · rw [ShardEvent.stream.inj heq]
      trivial
    · rw [hstream e he]
      trivial
  · intro e he
    cases he
  · intro e he
    rw [hstream e he]
    trivial

example : due (fun _ => []) 0 (ascii "s0_1") [.stream (.connect 0)] (sampleRun 0 1) =
    [ascii ("\x7b\"jsonrpc\":\"2.0\",\"method\":\"notifications/resources/updated\"," ++
      "\"params\":\x7b\"uri\":\"a\"\x7d\x7d")] := by decide +kernel
/-- An update reaches a session that a core has handed out exactly if the part of the
broadcast is that core's, the session is open, and the last of the requests about the
resource that were handled on that very core is a subscription; requests that other cores
handled reach nobody, whether or not the session is gone. -/
theorem updated_reaches (es : List (ShardEvent cores)) (core k : Fin cores) (c : ℕ) (uri : Bytes) :
    (((machine floatText cores).run es).notified floatText k uri).filterMap
        (SseEvent.addressed (SseTransport.httpSse.newId core c)) =
      if k = core ∧ (((machine floatText cores).run es).server.net.boxes core
          (SseTransport.httpSse.newId core c)).isSome ∧
          Stands floatText es core (SseTransport.httpSse.newId core c) uri then
        ((resourceUpdated uri).dump floatText).toList
      else [] := by
  rw [addressed_notified]
  by_cases hcore : k = core
  · subst hcore
    simp only [true_and]
  · rw [if_neg fun h => hcore (eq_of_open rfl h.1), if_neg fun h => hcore h.1]

end Delivered

end Shards

end Aegis.Mcp
