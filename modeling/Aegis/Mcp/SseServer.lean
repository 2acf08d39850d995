import Aegis.Lib.Mailbox
import Aegis.Lib.Transducer
import Aegis.Mcp.SessionId

/-! The event streams of all cores: `_handle_sse` and `_handle_message` of
`http_sse_transport.hh` on the sessions of `mcp_shard.hh`. A core is a site, a session a box,
and its id the address. -/
namespace Aegis.Mcp

open Mailbox

/-- The length of `SseSession::messages`. -/
def sessionCapacity : ℕ := 100

/-- What a core does next. `respond` is the end of a `dispatch` for a POST that has a
response; `notify` is a `push_to_session` of the core itself; `accept` and `abandon` are the
two ends of a push that found the queue full; `pop` and `close` belong to the stream of a
session. -/
inductive SseEvent (cores : ℕ) where
  | connect (core : Fin cores)
  | respond (core : Fin cores) (sessionId msg : Bytes)
  | arrive (i : ℕ)
  | notify (core : Fin cores) (sessionId msg : Bytes)
  | accept (core : Fin cores) (sessionId : Bytes) (i : ℕ)
  | abandon (core : Fin cores) (sessionId : Bytes) (i : ℕ)
  | pop (core : Fin cores) (sessionId : Bytes)
  | close (core : Fin cores) (sessionId : Bytes)
  | stop (core : Fin cores)

/-- `_session_counter` and `_sessions` of each core with what the streams have popped, and
whether a core that does not exist was called, after which nothing is known. -/
structure SseServer (cores : ℕ) where
  counter : Fin cores → ℕ := fun _ => 0
  net : Network (Fin cores) Bytes Bytes := {}
  undefined : Bool := false

namespace SseServer
variable {cores : ℕ} (s : SseServer cores)

/-- The id that `create_session` hands out next. -/
def nextId (core : Fin cores) : Bytes := SseTransport.httpSse.newId core (s.counter core + 1)

/-- `_parse_shard` of the transport. -/
def target (sessionId : Bytes) : ℕ := SseTransport.httpSse.parseShard sessionId

/-- The push that follows a response: on the core itself, or by `invoke_on` the target. -/
def pushResponse (core : Fin cores) (sessionId msg : Bytes) : Option (Op (Fin cores) Bytes Bytes) :=
  if sessionId = [] then none
  else if target sessionId = core then some (.put ⟨core, sessionId, msg⟩)
  else if h : target sessionId < cores then some (.launch ⟨⟨target sessionId, h⟩, sessionId, msg⟩)
  else none

/-- An empty message ends the stream. -/
def popOp (core : Fin cores) (sessionId : Bytes) : Op (Fin cores) Bytes Bytes :=
  match s.net.boxes core sessionId with
  | some ⟨[] :: _, _⟩ => .close core sessionId
  | _ => .take core sessionId

def op : SseEvent cores → Option (Op (Fin cores) Bytes Bytes)
  | .connect core => some (.create core (s.nextId core))
  | .respond core sessionId msg => pushResponse core sessionId msg
  | .arrive i => some (.arrive i)
  | .notify core sessionId msg => some (.put ⟨core, sessionId, msg⟩)
  | .accept core sessionId i => some (.accept core sessionId i)
  | .abandon core sessionId i => some (.abandon core sessionId i)
  | .pop core sessionId => some (s.popOp core sessionId)
  | .close core sessionId => some (.close core sessionId)
  | .stop core => some (.closeAll core)

end SseServer

/-- The target of the push is a core that exists. -/
def SseEvent.Routable {cores : ℕ} : SseEvent cores → Prop
  | .respond _ sessionId _ => sessionId ≠ [] → SseServer.target sessionId < cores
  | _ => True

instance {cores : ℕ} : DecidablePred (@SseEvent.Routable cores)
  | .respond _ sessionId _ =>
    inferInstanceAs (Decidable (sessionId ≠ [] → SseServer.target sessionId < cores))
  | .connect _ | .arrive _ | .notify .. | .accept .. | .abandon .. | .pop .. | .close .. | .stop _ =>
    isTrue trivial

/-- The message that an event addresses to a session. -/
def SseEvent.addressed {cores : ℕ} (sessionId : Bytes) : SseEvent cores → Option Bytes
  | .respond _ sessionId' msg | .notify _ sessionId' msg =>
    if sessionId = sessionId' then some msg else none
  | _ => none

/-- The event does not end the stream of the session and does not give up a push to it; it
addresses no empty message to it, and a core notifies its own sessions only. -/
def SseEvent.Spares {cores : ℕ} (core : Fin cores) (sessionId : Bytes) : SseEvent cores → Prop
  | .respond _ sessionId' msg => sessionId' = sessionId → msg ≠ []
  | .notify core' sessionId' msg => sessionId' = sessionId → core' = core ∧ msg ≠ []
  | .abandon core' sessionId' _ | .close core' sessionId' => sessionId' = sessionId → core' ≠ core
  | .stop core' => core' ≠ core
  | _ => True

instance {cores : ℕ} {core : Fin cores} {sessionId : Bytes} :
    DecidablePred (SseEvent.Spares core sessionId)
  | .respond _ sessionId' msg => inferInstanceAs (Decidable (sessionId' = sessionId → msg ≠ []))
  | .notify core' sessionId' msg =>
    inferInstanceAs (Decidable (sessionId' = sessionId → core' = core ∧ msg ≠ []))
  | .abandon core' sessionId' _ | .close core' sessionId' =>
    inferInstanceAs (Decidable (sessionId' = sessionId → core' ≠ core))
  | .stop core' => inferInstanceAs (Decidable (core' ≠ core))
  | .connect _ | .arrive _ | .accept .. | .pop .. => isTrue trivial

namespace SseServer
variable {cores : ℕ}

def step (s : SseServer cores) (e : SseEvent cores) : SseServer cores :=
  if s.undefined then s
  else if e.Routable then
    { s with
      counter := match e with
        | .connect core => Function.update s.counter core (s.counter core + 1)
        | _ => s.counter
      net := match s.op e with
        | some op => s.net.step sessionCapacity op
        | none => s.net }
  else { s with undefined := true }

/-- The server, with the bodies of the replies to POSTs that name no session. -/
def machine (cores : ℕ) : Transducer (SseServer cores) (SseEvent cores) (Option Bytes) where
  init := {}
  step s e := (s.step e,
    match e with
    | .respond _ [] msg => some msg
    | _ => none)

/-! What every event preserves. -/

/-- Every session stands on the core that its id names, under a number handed out there, and
every message on its way travels to the core that its id names. -/
structure Valid (s : SseServer cores) : Prop where
  handedOut : ∀ core sessionId, (s.net.boxes core sessionId).isSome →
    ∃ c ≤ s.counter core, sessionId = SseTransport.httpSse.newId core c
  routed : ∀ p ∈ s.net.inFlight, (p.site : ℕ) = target p.address

theorem valid_init : ({} : SseServer cores).Valid where
  handedOut _ _ h := by cases h
  routed _ h := by cases h

theorem boxes_nextId {s : SseServer cores} (h : s.Valid) (core k : Fin cores) :
    s.net.boxes k (s.nextId core) = none := by
  by_contra hsome
  obtain ⟨c, hc, heq⟩ := h.handedOut k (s.nextId core) (Option.isSome_iff_ne_none.mpr hsome)
  obtain ⟨-, hcore, hcount⟩ := SseTransport.newId_inj.mp heq
  rw [Fin.ext hcore] at hcount
  omega

theorem net_step {s : SseServer cores} {e : SseEvent cores} (hdefined : s.undefined = false)
    (he : e.Routable) : (s.step e).net = (s.op e).elim s.net (s.net.step sessionCapacity) := by
  unfold step
  rw [hdefined, if_neg Bool.false_ne_true, if_pos he]
  cases s.op e <;> rfl

theorem step_eq_self {s : SseServer cores} {e : SseEvent cores}
    (h : s.undefined = true ∨ ¬ e.Routable) :
    (s.step e).net = s.net ∧ (s.step e).counter = s.counter := by
  unfold step
  by_cases hdefined : s.undefined = true
  · rw [if_pos hdefined]
    exact ⟨rfl, rfl⟩
  · rw [if_neg hdefined, if_neg (h.resolve_left hdefined)]
    exact ⟨rfl, rfl⟩

theorem counter_le_step (s : SseServer cores) (e : SseEvent cores) (core : Fin cores) :
    s.counter core ≤ (s.step e).counter core := by
  unfold step
  split_ifs
  · exact le_rfl
  · cases e with
    | connect k =>
      show s.counter core ≤ Function.update s.counter k (s.counter k + 1) core
      rw [Function.update_apply]
      split_ifs with hk
      · rw [hk]
        exact Nat.le_succ _
      · exact le_rfl
    | respond | arrive | notify | accept | abandon | pop | close | stop => exact le_rfl
  · exact le_rfl

theorem counter_le_after (s : SseServer cores) (es : List (SseEvent cores)) (core : Fin cores) :
    s.counter core ≤ ((machine cores).after s es).counter core :=
  Transducer.after_preserves (P := fun s' : SseServer cores => s.counter core ≤ s'.counter core)
    (fun s' e h => h.trans (counter_le_step s' e core)) le_rfl es

theorem op_eq_create {s : SseServer cores} {e : SseEvent cores} {core : Fin cores} {a : Bytes}
    (h : s.op e = some (.create core a)) : e = .connect core ∧ a = s.nextId core := by
  cases e with
  | connect k =>
    obtain ⟨rfl, rfl⟩ := Op.create.inj (Option.some.inj h)
    exact ⟨rfl, rfl⟩
  | respond k sessionId msg =>
    unfold op pushResponse at h
    dsimp only at h
    split_ifs at h
    · cases h
    · cases h
  | pop k sessionId =>
    unfold op popOp at h
    dsimp only at h
    split at h
    · cases h
    · cases h
  | arrive | notify | accept | abandon | close | stop => cases h

theorem op_eq_launch {s : SseServer cores} {e : SseEvent cores} {p : Parcel (Fin cores) Bytes Bytes}
    (h : s.op e = some (.launch p)) :
    (p.site : ℕ) = target p.address ∧ ∃ core, e = .respond core p.address p.message ∧ p.site ≠ core := by
  cases e with
  | respond k sessionId msg =>
    unfold op pushResponse at h
    dsimp only at h
    split_ifs at h with hempty hlocal hcore
    · cases h
    · obtain rfl := Op.launch.inj (Option.some.inj h)
      exact ⟨rfl, k, rfl, fun heq => hlocal (congrArg Fin.val heq)⟩
  | pop k sessionId =>
    unfold op popOp at h
    dsimp only at h
    split at h
    · cases h
    · cases h
  | connect | arrive | notify | accept | abandon | close | stop => cases h

theorem Valid.step {s : SseServer cores} (h : s.Valid) (e : SseEvent cores) : (s.step e).Valid := by
  by_cases hstuck : s.undefined = true ∨ ¬ e.Routable
  · obtain ⟨hnet, hcounter⟩ := step_eq_self hstuck
    constructor
    · rw [hnet, hcounter]
      exact h.handedOut
    · rw [hnet]
      exact h.routed
  · rw [not_or, Bool.not_eq_true, not_not] at hstuck
    obtain ⟨hdefined, he⟩ := hstuck
    have hnet := net_step hdefined he
    cases hop : s.op e with
    | none =>
      rw [hop] at hnet
      constructor
      · intro core sessionId hsome
        rw [hnet] at hsome
        obtain ⟨c, hc, heq⟩ := h.handedOut core sessionId hsome
        exact ⟨c, hc.trans (counter_le_step s e core), heq⟩
      · rw [hnet]
        exact h.routed
    | some op =>
      rw [hop] at hnet
      constructor
      · intro core sessionId hsome
        rw [hnet] at hsome
        rcases Network.isSome_boxes_step hsome with hold | rfl
        · obtain ⟨c, hc, heq⟩ := h.handedOut core sessionId hold
          exact ⟨c, hc.trans (counter_le_step s e core), heq⟩
        · obtain ⟨rfl, rfl⟩ := op_eq_create hop
          refine ⟨s.counter core + 1, ?_, rfl⟩
          unfold SseServer.step
          rw [hdefined, if_neg Bool.false_ne_true, if_pos he]
          show _ ≤ Function.update s.counter core _ core
          rw [Function.update_self]
      · intro p hp
        rw [hnet] at hp
        rcases Network.mem_inFlight_step hp with hold | rfl
        · exact h.routed p hold
        · exact (op_eq_launch hop).1

theorem valid_run (es : List (SseEvent cores)) : ((machine cores).run es).Valid :=
  Transducer.run_preserves valid_init (fun _ e h => h.step e) es

theorem undefined_step (s : SseServer cores) (e : SseEvent cores) :
    (s.step e).undefined = true ↔ s.undefined = true ∨ ¬ e.Routable := by
  unfold step
  split_ifs with hdefined he
  · exact iff_of_true hdefined (Or.inl hdefined)
  · exact iff_of_false hdefined (by simp [hdefined, he])
  · exact iff_of_true rfl (Or.inr he)

/-- A core that does not exist is called exactly when a response is pushed under a session id
that names one. -/
theorem undefined_run_iff (es : List (SseEvent cores)) :
    ((machine cores).run es).undefined = true ↔ ∃ e ∈ es, ¬ e.Routable := by
  induction es using List.reverseRecOn with
  | nil => exact iff_of_false Bool.false_ne_true (by simp)
  | append_singleton es e ih =>
    rw [Transducer.run_concat]
    show (SseServer.step _ e).undefined = true ↔ _
    rw [undefined_step, ih]
    simp only [List.mem_append, List.mem_singleton, or_and_right, exists_or, exists_eq_left]

theorem defined_run {es : List (SseEvent cores)} (hroutable : ∀ e ∈ es, e.Routable) :
    ((machine cores).run es).undefined = false := by
  rw [← Bool.not_eq_true, undefined_run_iff]
  exact fun ⟨e, hmem, hno⟩ => hno (hroutable e hmem)

/-- An id that was handed out names a core that exists. -/
theorem target_newId (hcores : cores ≤ 2 ^ 32) (core : Fin cores) (c : ℕ) :
    target (SseTransport.httpSse.newId core c) = core :=
  SseTransport.parseShard_httpSse (lt_of_lt_of_le core.isLt hcores) c

/-! Where the messages of a session are. -/

theorem sent_op (s : SseServer cores) {e : SseEvent cores} (he : e.Routable) {sessionId : Bytes}
    (hsession : sessionId ≠ []) :
    (s.op e).elim 0 (Op.sent sessionId) = ((e.addressed sessionId).toList : Multiset Bytes) := by
  have hite : ∀ sessionId' msg : Bytes, (if sessionId = sessionId' then {msg} else 0 : Multiset Bytes) =
      ((if sessionId = sessionId' then some msg else none).toList : Multiset Bytes) := by
    intro sessionId' msg
    split_ifs <;> rfl
  cases e with
  | respond core sessionId' msg =>
    unfold op pushResponse SseEvent.addressed
    dsimp only
    split_ifs with hempty hother hlocal hother hcore hother hother
    · exact absurd (hother.trans hempty) hsession
    · rfl
    · exact if_pos hother
    · exact if_neg hother
    · exact if_pos hother
    · exact if_neg hother
    · exact absurd (he hempty) hcore
    · rfl
  | notify core sessionId' msg => exact hite _ _
  | pop core sessionId' =>
    unfold op popOp
    dsimp only
    split <;> rfl
  | connect | arrive | accept | abandon | close | stop => rfl

/-- A step adds what its event addresses to a session, as long as nothing undefined happens. -/
theorem account_step {s : SseServer cores} (hvalid : s.Valid) (hdefined : s.undefined = false)
    {e : SseEvent cores} (he : e.Routable) {sessionId : Bytes} (hsession : sessionId ≠ []) :
    (s.step e).net.account sessionId =
      s.net.account sessionId + ((e.addressed sessionId).toList : Multiset Bytes) := by
  rw [net_step hdefined he, ← sent_op s he hsession]
  cases hop : s.op e with
  | none => exact (add_zero _).symm
  | some op =>
    apply Network.account_step
    rintro k a rfl
    obtain ⟨-, rfl⟩ := op_eq_create hop
    exact boxes_nextId hvalid k k

theorem filterMap_addressed_concat (es : List (SseEvent cores)) (e : SseEvent cores) (sessionId : Bytes) :
    ((es ++ [e]).filterMap (SseEvent.addressed sessionId) : Multiset Bytes) =
      es.filterMap (SseEvent.addressed sessionId) + ((e.addressed sessionId).toList : Multiset Bytes) := by
  have hlast : [e].filterMap (SseEvent.addressed sessionId) = (e.addressed sessionId).toList := by
    rw [List.filterMap_eq_flatMap_toList, List.flatMap_singleton]
  rw [List.filterMap_append, ← Multiset.coe_add, hlast]

/-- Every message that was ever addressed to a session is popped by its stream, queued for
it, on its way to it, or counted as lost; and there is no other. -/
theorem account_run {es : List (SseEvent cores)} (hroutable : ∀ e ∈ es, e.Routable)
    {sessionId : Bytes} (hsession : sessionId ≠ []) :
    ((machine cores).run es).net.account sessionId = (es.filterMap (SseEvent.addressed sessionId) : Multiset Bytes) := by
  induction es using List.reverseRecOn with
  | nil =>
    unfold Network.account
    simp [machine, contents, travelling, Transducer.run]
  | append_singleton es e ih =>
    obtain ⟨hes, he⟩ := List.forall_mem_append.mp hroutable
    have he : e.Routable := he e (List.mem_singleton_self e)
    rw [Transducer.run_concat, filterMap_addressed_concat, ← ih hes]
    exact account_step (valid_run es) (defined_run hes) he hsession

/-- Also after a core that does not exist was called, there is no other message. -/
theorem account_run_le (es : List (SseEvent cores)) {sessionId : Bytes} (hsession : sessionId ≠ []) :
    ((machine cores).run es).net.account sessionId ≤ (es.filterMap (SseEvent.addressed sessionId) : Multiset Bytes) := by
  induction es using List.reverseRecOn with
  | nil => exact (account_run (List.forall_mem_nil _) hsession).le
  | append_singleton es e ih =>
    rw [Transducer.run_concat, filterMap_addressed_concat]
    show (SseServer.step _ e).net.account sessionId ≤ _
    by_cases hstuck : ((machine cores).run es).undefined = true ∨ ¬ e.Routable
    · rw [(step_eq_self hstuck).1]
      exact ih.trans (Multiset.le_add_right _ _)
    · rw [not_or, Bool.not_eq_true, not_not] at hstuck
      rw [account_step (valid_run es) hstuck.1 hstuck.2 hsession]
      exact add_le_add_left ih _

/-! A session from its connection on. -/

section Session

/-- The operation of an event that spares a session keeps its box. -/
theorem keeps_of_op {s : SseServer cores} (hvalid : s.Valid) {core : Fin cores} {sessionId : Bytes}
    (htarget : target sessionId = core) (hlive : s.net.Live core sessionId)
    (hmsgs : ∀ session, s.net.boxes core sessionId = some session → [] ∉ session.queue)
    {e : SseEvent cores} (he : e.Spares core sessionId) {op : Op (Fin cores) Bytes Bytes}
    (hop : s.op e = some op) : op.Keeps core sessionId := by
  cases e with
  | connect k =>
    obtain rfl := Option.some.inj hop
    rintro rfl
    have hsome := hlive.box
    rw [boxes_nextId hvalid] at hsome
    cases hsome
  | respond k sessionId' msg =>
    unfold SseServer.op pushResponse at hop
    dsimp only at hop
    split_ifs at hop with hempty hlocal hcore
    · obtain rfl := Option.some.inj hop
      rintro rfl
      exact Fin.ext (hlocal.symm.trans htarget)
    · obtain rfl := Option.some.inj hop
      rintro rfl
      exact Fin.ext htarget
  | arrive i =>
    obtain rfl := Option.some.inj hop
    trivial
  | notify k sessionId' msg =>
    obtain rfl := Option.some.inj hop
    exact fun heq => (he heq).1
  | accept k sessionId' i =>
    obtain rfl := Option.some.inj hop
    trivial
  | abandon k sessionId' i =>
    obtain rfl := Option.some.inj hop
    exact he
  | pop k sessionId' =>
    unfold SseServer.op popOp at hop
    dsimp only at hop
    split at hop
    · next hbox =>
      obtain rfl := Option.some.inj hop
      rintro rfl rfl
      exact hmsgs _ hbox List.mem_cons_self
    · obtain rfl := Option.some.inj hop
      trivial
  | close k sessionId' =>
    obtain rfl := Option.some.inj hop
    exact he
  | stop k =>
    obtain rfl := Option.some.inj hop
    exact he

/-- An event that spares a session addresses no empty message to it. -/
theorem ne_nil_of_spares {core : Fin cores} {sessionId msg : Bytes} {e : SseEvent cores}
    (he : e.Spares core sessionId) (h : e.addressed sessionId = some msg) : msg ≠ [] := by
  cases e with
  | respond k sessionId' msg' =>
    obtain ⟨rfl, heq⟩ := Option.ite_none_right_eq_some.mp h
    rw [← Option.some.inj heq]
    exact he rfl
  | notify k sessionId' msg' =>
    obtain ⟨rfl, heq⟩ := Option.ite_none_right_eq_some.mp h
    rw [← Option.some.inj heq]
    exact (he rfl).2
  | connect | arrive | accept | abandon | pop | close | stop => cases h

/-- A session stays open and loses nothing, from its connection on, as long as it is spared. -/
theorem live_run (hcores : cores ≤ 2 ^ 32) {pre post : List (SseEvent cores)} {core : Fin cores}
    {sessionId : Bytes} (hid : sessionId = ((machine cores).run pre).nextId core)
    (hroutable : ∀ e ∈ pre ++ .connect core :: post, e.Routable)
    (hpre : ∀ e ∈ pre, e.addressed sessionId = none) (hpost : ∀ e ∈ post, e.Spares core sessionId) :
    ((machine cores).run (pre ++ .connect core :: post)).net.Live core sessionId ∧
      ((machine cores).run (pre ++ .connect core :: post)).net.lost sessionId = 0 := by
  have hnonempty : sessionId ≠ [] := by
    rw [hid]
    exact List.cons_ne_nil _ _
  have htarget : target sessionId = core := by
    rw [hid]
    exact target_newId hcores core _
  induction post using List.reverseRecOn with
  | nil =>
    have hbefore : ∀ e ∈ pre, e.Routable := fun e he => hroutable e (List.mem_append_left _ he)
    have hvalid := valid_run pre
    have hnothing := account_run hbefore hnonempty
    rw [List.filterMap_eq_nil_iff.mpr hpre] at hnothing
    obtain ⟨-, -, hlost⟩ := Network.eq_zero_of_account _ hnothing
    have hnet : ((machine cores).run (pre ++ [.connect core])).net =
        ((machine cores).run pre).net.setBox core sessionId (some {}) := by
      rw [Transducer.run_concat, hid]
      exact net_step (defined_run hbefore) trivial
    rw [hnet]
    refine ⟨⟨?_, fun k hk => ?_, fun p hp haddress => ?_⟩, hlost⟩
    · rw [Network.boxes_setBox, if_pos ⟨rfl, rfl⟩]
      rfl
    · rw [Network.boxes_setBox, if_neg fun h => hk h.1, hid]
      exact boxes_nextId hvalid core k
    · exact Fin.ext ((hvalid.routed p hp).trans (haddress ▸ htarget))
  | append_singleton post e ih =>
    rw [← List.cons_append, ← List.append_assoc] at hroutable ⊢
    obtain ⟨hroutable, he⟩ := List.forall_mem_append.mp hroutable
    obtain ⟨hpost, hspared⟩ := List.forall_mem_append.mp hpost
    have he : e.Routable := he e (List.mem_singleton_self e)
    have hspared : e.Spares core sessionId := hspared e (List.mem_singleton_self e)
    obtain ⟨hlive, hlost⟩ := ih hroutable hpost
    rw [Transducer.run_concat]
    show (SseServer.step _ e).net.Live core sessionId ∧ (SseServer.step _ e).net.lost sessionId = 0
    rw [net_step (defined_run hroutable) he]
    cases hop : ((machine cores).run (pre ++ .connect core :: post)).op e with
    | none => exact ⟨hlive, hlost⟩
    | some op =>
      have hmsgs : ∀ session, ((machine cores).run (pre ++ .connect core :: post)).net.boxes core
          sessionId = some session → [] ∉ session.queue := by
        intro session hbox hmem
        have hadd := Network.mem_account_of_mem_box _ hbox hmem
        rw [account_run hroutable hnonempty, Multiset.mem_coe, List.mem_filterMap] at hadd
        obtain ⟨e', hmem', hadd⟩ := hadd
        rcases List.mem_append.mp hmem' with hmem' | hmem'
        · rw [hpre e' hmem'] at hadd
          cases hadd
        · rcases List.mem_cons.mp hmem' with rfl | hmem'
          · cases hadd
          · exact ne_nil_of_spares (hpost e' hmem') hadd rfl
      have hkeeps := keeps_of_op (valid_run _) htarget hlive hmsgs hspared hop
      obtain ⟨hlive', hlost'⟩ := hlive.step sessionCapacity hkeeps
      exact ⟨hlive', hlost'.trans hlost⟩

theorem filterMap_addressed {pre post : List (SseEvent cores)} {core : Fin cores} {sessionId : Bytes}
    (hpre : ∀ e ∈ pre, e.addressed sessionId = none) :
    (pre ++ .connect core :: post).filterMap (SseEvent.addressed sessionId) =
      post.filterMap (SseEvent.addressed sessionId) := by
  rw [List.filterMap_append, List.filterMap_eq_nil_iff.mpr hpre, List.nil_append,
    List.filterMap_cons_none rfl]

/-- Whatever the cores do and in whatever order the pushes to other cores arrive: as long as
a session is spared, every message addressed to it since its connection was popped by its
stream, stands in its queue, waits for room there or is on its way to its core, each exactly
once, and there is no other message in any of these places. -/
theorem messages_kept (hcores : cores ≤ 2 ^ 32) {pre post : List (SseEvent cores)} {core : Fin cores}
    {sessionId : Bytes} (hid : sessionId = ((machine cores).run pre).nextId core)
    (hroutable : ∀ e ∈ pre ++ .connect core :: post, e.Routable)
    (hpre : ∀ e ∈ pre, e.addressed sessionId = none) (hpost : ∀ e ∈ post, e.Spares core sessionId) :
    ∃ session, ((machine cores).run (pre ++ .connect core :: post)).net.boxes core sessionId = some session ∧
      (((machine cores).run (pre ++ .connect core :: post)).net.taken sessionId : Multiset Bytes) +
          (session.queue + session.waiting) +
          travelling sessionId ((machine cores).run (pre ++ .connect core :: post)).net.inFlight =
        post.filterMap (SseEvent.addressed sessionId) := by
  have hnonempty : sessionId ≠ [] := by
    rw [hid]
    exact List.cons_ne_nil _ _
  obtain ⟨hlive, hlost⟩ := live_run hcores hid hroutable hpre hpost
  obtain ⟨session, hbox⟩ := Option.isSome_iff_exists.mp hlive.box
  refine ⟨session, hbox, ?_⟩
  have haccount := account_run hroutable hnonempty
  rw [hlive.account_eq, hlost, add_zero, hbox, filterMap_addressed hpre] at haccount
  exact haccount

/-- At the connection the session is open and empty. -/
theorem inOrder_connect (hcores : cores ≤ 2 ^ 32) {pre : List (SseEvent cores)} {core : Fin cores}
    {sessionId : Bytes} (hid : sessionId = ((machine cores).run pre).nextId core)
    (hroutable : ∀ e ∈ pre, e.Routable) (hpre : ∀ e ∈ pre, e.addressed sessionId = none) :
    ((machine cores).run (pre ++ [.connect core])).net.InOrder core sessionId [] := by
  have hnonempty : sessionId ≠ [] := by
    rw [hid]
    exact List.cons_ne_nil _ _
  have hall : ∀ e ∈ pre ++ [.connect core], e.Routable := by
    rw [List.forall_mem_append]
    exact ⟨hroutable, List.forall_mem_singleton.mpr trivial⟩
  obtain ⟨hlive, -⟩ := live_run hcores hid hall hpre (List.forall_mem_nil _)
  have hnothing := account_run hall hnonempty
  rw [filterMap_addressed hpre] at hnothing
  obtain ⟨htaken, htravelling, -⟩ := Network.eq_zero_of_account _ hnothing
  refine ⟨hlive, htravelling, [], ?_, ?_⟩
  · have hnet : ((machine cores).run (pre ++ [.connect core])).net =
        ((machine cores).run pre).net.setBox core sessionId (some {}) := by
      rw [Transducer.run_concat, hid]
      exact net_step (defined_run hroutable) trivial
    rw [hnet, Network.boxes_setBox, if_pos ⟨rfl, rfl⟩]
  · rw [htaken]
    rfl

/-- What an event puts into the box of a session at once, unless it comes from another core. -/
theorem handed_op (s : SseServer cores) {core : Fin cores} {sessionId : Bytes}
    (hsession : sessionId ≠ []) (htarget : target sessionId = core) {e : SseEvent cores}
    (hlocal : ∀ k msg, e = .respond k sessionId msg → k = core) :
    (s.op e).elim [] (Op.handed sessionId) = (e.addressed sessionId).toList := by
  cases e with
  | respond k sessionId' msg =>
    unfold op pushResponse SseEvent.addressed
    dsimp only
    by_cases heq : sessionId = sessionId'
    · subst heq
      obtain rfl := hlocal k msg rfl
      rw [if_neg hsession, if_pos htarget, if_pos rfl]
      exact if_pos rfl
    · rw [if_neg heq]
      split_ifs
      · rfl
      · exact if_neg (Ne.symm heq)
      · rfl
      · rfl
  | notify k sessionId' msg =>
    show (if sessionId' = sessionId then [msg] else []) =
      (if sessionId = sessionId' then some msg else none).toList
    by_cases heq : sessionId = sessionId'
    · rw [if_pos heq, if_pos heq.symm]
      rfl
    · rw [if_neg heq, if_neg (Ne.symm heq)]
      rfl
  | pop k sessionId' =>
    unfold op popOp
    dsimp only
    split <;> rfl
  | connect | arrive | accept | abandon | close | stop => rfl

theorem op_eq_put {s : SseServer cores} {e : SseEvent cores} {p : Parcel (Fin cores) Bytes Bytes}
    (h : s.op e = some (.put p)) : e.addressed p.address = some p.message := by
  cases e with
  | respond k sessionId msg =>
    unfold op pushResponse at h
    dsimp only at h
    split_ifs at h
    · obtain rfl := Op.put.inj (Option.some.inj h)
      exact if_pos rfl
    · cases h
  | notify k sessionId msg =>
    obtain rfl := Op.put.inj (Option.some.inj h)
    exact if_pos rfl
  | pop k sessionId =>
    unfold op popOp at h
    dsimp only at h
    split at h
    · cases h
    · cases h
  | connect | arrive | accept | abandon | close | stop => cases h

theorem inOrder_run (hcores : cores ≤ 2 ^ 32) {pre post : List (SseEvent cores)} {core : Fin cores}
    {sessionId : Bytes} (hid : sessionId = ((machine cores).run pre).nextId core)
    (hroutable : ∀ e ∈ pre ++ .connect core :: post, e.Routable)
    (hpre : ∀ e ∈ pre, e.addressed sessionId = none) (hpost : ∀ e ∈ post, e.Spares core sessionId)
    (hlocal : ∀ k msg, .respond k sessionId msg ∈ post → k = core)
    (hroom : ∀ before e later session, post = before ++ e :: later → (e.addressed sessionId).isSome →
      ((machine cores).run (pre ++ .connect core :: before)).net.boxes core sessionId = some session →
        session.queue.length < sessionCapacity) :
    ((machine cores).run (pre ++ .connect core :: post)).net.InOrder core sessionId
      (post.filterMap (SseEvent.addressed sessionId)) := by
  have hnonempty : sessionId ≠ [] := by
    rw [hid]
    exact List.cons_ne_nil _ _
  have htarget : target sessionId = core := by
    rw [hid]
    exact target_newId hcores core _
  induction post using List.reverseRecOn with
  | nil => exact inOrder_connect hcores hid (fun e he => hroutable e (List.mem_append_left _ he)) hpre
  | append_singleton post e ih =>
    have hfull := fun session => hroom post e [] session rfl
    have hearlier : ∀ before e' later session, post = before ++ e' :: later →
        (e'.addressed sessionId).isSome →
          ((machine cores).run (pre ++ .connect core :: before)).net.boxes core sessionId =
              some session → session.queue.length < sessionCapacity := by
      intro before e' later session hsplit
      apply hroom before e' (later ++ [e]) session
      rw [hsplit, List.append_assoc]
      rfl
    rw [← List.cons_append, ← List.append_assoc] at hroutable ⊢
    obtain ⟨hroutable, he⟩ := List.forall_mem_append.mp hroutable
    obtain ⟨hpost, hspared⟩ := List.forall_mem_append.mp hpost
    have he : e.Routable := he e (List.mem_singleton_self e)
    have hspared : e.Spares core sessionId := hspared e (List.mem_singleton_self e)
    have hin := ih hroutable hpost (fun k msg hmem => hlocal k msg (List.mem_append_left _ hmem)) hearlier
    have hown : ∀ k msg, e = .respond k sessionId msg → k = core := fun k msg heq =>
      hlocal k msg (List.mem_append_right _ (List.mem_singleton.mpr heq.symm))
    have hhanded := handed_op ((machine cores).run (pre ++ .connect core :: post)) hnonempty htarget hown
    have hlast : [e].filterMap (SseEvent.addressed sessionId) = (e.addressed sessionId).toList := by
      rw [List.filterMap_eq_flatMap_toList, List.flatMap_singleton]
    rw [Transducer.run_concat, List.filterMap_append, hlast, ← hhanded]
    show (SseServer.step _ e).net.InOrder core sessionId _
    rw [net_step (defined_run hroutable) he]
    cases hop : ((machine cores).run (pre ++ .connect core :: post)).op e with
    | none =>
      show Network.InOrder _ _ _ (_ ++ [])
      rw [List.append_nil]
      exact hin
    | some op =>
      have hmsgs : ∀ session, ((machine cores).run (pre ++ .connect core :: post)).net.boxes core
          sessionId = some session → [] ∉ session.queue := by
        intro session hbox hmem
        obtain ⟨queue, hqueue, htaken⟩ := hin.queued
        rw [hqueue] at hbox
        rw [← Option.some.inj hbox] at hmem
        have hadd : [] ∈ post.filterMap (SseEvent.addressed sessionId) := by
          rw [← htaken]
          exact List.mem_append_right _ hmem
        obtain ⟨e', hmem', hadd⟩ := List.mem_filterMap.mp hadd
        exact ne_nil_of_spares (hpost e' hmem') hadd rfl
      apply hin.step sessionCapacity (keeps_of_op (valid_run _) htarget hin.live hmsgs hspared hop)
      · rintro p rfl rfl
        obtain ⟨hsite, k, heq, hne⟩ := op_eq_launch hop
        rw [hown k _ heq] at hne
        exact hne (Fin.ext (hsite.trans htarget))
      · rintro p b rfl rfl hbox
        apply hfull b _ hbox
        rw [op_eq_put hop]
        rfl

/-- If its POSTs are handled on its own core and its queue never fills up, the stream pops
the messages in the order in which they were addressed to the session. -/
theorem in_order (hcores : cores ≤ 2 ^ 32) {pre post : List (SseEvent cores)} {core : Fin cores}
    {sessionId : Bytes} (hid : sessionId = ((machine cores).run pre).nextId core)
    (hroutable : ∀ e ∈ pre ++ .connect core :: post, e.Routable)
    (hpre : ∀ e ∈ pre, e.addressed sessionId = none) (hpost : ∀ e ∈ post, e.Spares core sessionId)
    (hlocal : ∀ k msg, .respond k sessionId msg ∈ post → k = core)
    (hroom : ∀ before e later session, post = before ++ e :: later → (e.addressed sessionId).isSome →
      ((machine cores).run (pre ++ .connect core :: before)).net.boxes core sessionId = some session →
        session.queue.length < sessionCapacity) :
    ∃ queue, ((machine cores).run (pre ++ .connect core :: post)).net.boxes core sessionId =
        some ⟨queue, []⟩ ∧
      ((machine cores).run (pre ++ .connect core :: post)).net.taken sessionId ++ queue =
        post.filterMap (SseEvent.addressed sessionId) :=
  (inOrder_run hcores hid hroutable hpre hpost hlocal hroom).queued

/-- A response of the first core to its session, which the stream then pops. -/
def localRun : List (SseEvent 2) := [.respond 0 (ascii "s0_1") (ascii "1"), .pop 0 (ascii "s0_1")]

theorem in_order_sample :
    ∃ queue, ((machine 2).run ([] ++ .connect 0 :: localRun)).net.boxes 0 (ascii "s0_1") = some ⟨queue, []⟩ ∧
      ((machine 2).run ([] ++ .connect 0 :: localRun)).net.taken (ascii "s0_1") ++ queue =
        localRun.filterMap (SseEvent.addressed (ascii "s0_1")) := by
  apply in_order (by decide) (by decide) (by decide) (List.forall_mem_nil _) (by decide)
  · intro k msg hmem
    rcases List.mem_cons.mp hmem with heq | hmem
    · exact (SseEvent.respond.inj heq).1
    · cases List.mem_singleton.mp hmem
  · intro before e later session hsplit hadd hbox
    cases before with
    | nil =>
      have hopen : ((machine 2).run ([] ++ [.connect 0])).net.boxes 0 (ascii "s0_1") = some {} := rfl
      rw [hopen] at hbox
      obtain rfl := Option.some.inj hbox
      exact Nat.zero_lt_succ _
    | cons b before =>
      have hmem : e ∈ localRun.tail := by
        rw [hsplit]
        exact List.mem_append_right before List.mem_cons_self
      rw [List.mem_singleton.mp hmem] at hadd
      cases hadd

end Session

end SseServer

end Aegis.Mcp
