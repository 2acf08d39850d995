import Aegis.Lib.Tickets
import Aegis.Mcp.Dispatcher

/-! Requests to a client: `send_request_to_client`, `handle_client_response` and `stop` of
`mcp_shard.hh` on one core. Each core has its own counter and its own promises. -/
namespace Aegis.Mcp

/-- How the coroutine that waits for a client goes on. -/
inductive ClientReply where
  | result (v : Json Bytes)
  | error (message : Bytes)
  | stopped

/-- What a core does with the promises; `message` is the body of a `dispatch`. -/
inductive ClientEvent where
  | send (sessionId method : Bytes) (params : Json Bytes)
  | message (j : Json Bytes)
  | stop

def clientRequest (id : ℕ) (method : Bytes) (params : Json Bytes) : Json Bytes :=
  .object [(ascii "jsonrpc", .str (ascii "2.0")), (ascii "id", .int id),
    (ascii "method", .str method), (ascii "params", params)]

/-- `dispatch` takes a message for a response of the client. -/
def isClientResponse (j : Json Bytes) : Bool :=
  (j.field (ascii "id")).isSome && (j.field (ascii "method")).isNone &&
    ((j.field (ascii "result")).isSome || (j.field (ascii "error")).isSome)

/-- `get<uint64_t>`; `truncate` is what the compiled code makes of a floating-point value. -/
def toUint64 (truncate : FloatVal → ℤ) : Json Bytes → Option ℕ
  | .int z => some (z % 2 ^ 64).toNat
  | .float x => some (truncate x % 2 ^ 64).toNat
  | _ => none

/-- What the promise is settled with; an error that cannot be read settles nothing. -/
def clientReply (response : Json Bytes) : Option ClientReply :=
  match response.field (ascii "result") with
  | some v => some (.result v)
  | none =>
    match stringValue ((response.field (ascii "error")).getD .null) (ascii "message")
        (ascii "client error") with
    | .ok message => some (.error message)
    | .error _ => none

/-- `handle_client_response`, as far as it does not depend on what is pending. -/
def handleClientResponse (truncate : FloatVal → ℤ) (response : Json Bytes) : Tickets.Op ClientReply :=
  match (response.field (ascii "id")).bind (toUint64 truncate), clientReply response with
  | some id, some reply => .settle id reply
  | _, _ => .idle

def ClientEvent.op (truncate : FloatVal → ℤ) : ClientEvent → Tickets.Op ClientReply
  | .send .. => .issue
  | .message j => if isClientResponse j then handleClientResponse truncate j else .idle
  | .stop => .settleAll .stopped

/-- The pushes to sessions and the promises settled. -/
structure ClientOutput where
  pushed : List (Bytes × Bytes) := []
  settled : List (ℕ × ClientReply) := []

def clientRequests (truncate : FloatVal → ℤ) (floatText : FloatVal → Bytes) :
    Transducer Tickets.Desk ClientEvent ClientOutput where
  init := {}
  step d e :=
    ((d.step (e.op truncate)).1,
      { pushed := match e with
          | .send sessionId method params =>
            -- the promise is there before the text is made, which can fail
            (((clientRequest (d.issued + 1) method params).dump floatText).map fun msg =>
              (sessionId, msg)).toList
          | _ => []
        settled := (d.step (e.op truncate)).2 })

section Runs
variable (truncate : FloatVal → ℤ) (floatText : FloatVal → Bytes)

/-- The promises of a core are those of a desk. -/
theorem clientRequests_simulates : Transducer.Simulation (clientRequests truncate floatText)
    (Tickets.machine ClientReply) (ClientEvent.op truncate) ClientOutput.settled
    (Transducer.Environment.free ClientEvent) () fun _ d d' => d = d' where
  init := rfl
  step := by
    rintro _ d _ e - rfl
    exact ⟨rfl, rfl⟩

theorem run_desk (es : List ClientEvent) : (clientRequests truncate floatText).run es =
    (Tickets.machine ClientReply).run (es.map (ClientEvent.op truncate)) := by
  obtain ⟨-, heq⟩ := (clientRequests_simulates truncate floatText).run_related
    (Transducer.Environment.free_admissible () es)
  exact heq

theorem settled_desk (es : List ClientEvent) :
    ((clientRequests truncate floatText).answers es).map ClientOutput.settled =
      (Tickets.machine ClientReply).answers (es.map (ClientEvent.op truncate)) :=
  ((clientRequests_simulates truncate floatText).answers_eq
    (Transducer.Environment.free_admissible () es)).symm

/-- The id of the request that is sent next. -/
def nextRequestId (es : List ClientEvent) : ℕ := ((clientRequests truncate floatText).run es).issued + 1

theorem nextRequestId_lt (pre post : List ClientEvent) (sessionId method : Bytes) (params : Json Bytes) :
    nextRequestId truncate floatText pre <
      nextRequestId truncate floatText (pre ++ .send sessionId method params :: post) := by
  have hmore := Tickets.issued_le_after
    (((clientRequests truncate floatText).run pre).step (.issue : Tickets.Op ClientReply)).1
    (post.map (ClientEvent.op truncate))
  unfold nextRequestId
  rw [run_desk truncate floatText (pre ++ _), List.map_append, Transducer.run_append, ← run_desk]
  exact Nat.succ_lt_succ (Nat.lt_of_succ_le hmore)

/-- A client that sends the id of a request back answers this request. -/
theorem op_echo {n : ℕ} (hn : n < 2 ^ 64) {method : Bytes} {params j v : Json Bytes}
    (hid : j.field (ascii "id") = (clientRequest n method params).field (ascii "id"))
    (hmethod : j.field (ascii "method") = none) (hresult : j.field (ascii "result") = some v) :
    (ClientEvent.message j).op truncate = .settle n (.result v) := by
  have hfield : j.field (ascii "id") = some (.int n) := by
    rw [hid, clientRequest, Json.field_object]
    rfl
  have hresponse : isClientResponse j = true := by
    unfold isClientResponse
    rw [hfield, hmethod, hresult]
    rfl
  have hnumber : toUint64 truncate (.int n) = some n := by
    have hmod : (n : ℤ) % 2 ^ 64 = n := Int.emod_eq_of_lt (Int.natCast_nonneg n) (by exact_mod_cast hn)
    unfold toUint64
    dsimp only
    rw [hmod, Int.toNat_natCast]
  have hreply : clientReply j = some (.result v) := by
    unfold clientReply
    rw [hresult]
  unfold ClientEvent.op
  dsimp only
  rw [if_pos hresponse]
  unfold handleClientResponse
  rw [hfield, Option.bind_some, hnumber, hreply]

/-- On every run of a core: the request goes to its session under an id of its own, which no
request before or after it has; what waits for it goes on at most once, with the first that
comes of a readable response under this id, whoever posted it, and the end of the server; a
client that sends the id back with a result gives it this result. -/
theorem client_request_answered (pre post : List ClientEvent) (sessionId method : Bytes)
    (params : Json Bytes) :
    ((clientRequests truncate floatText).answers
        (pre ++ .send sessionId method params :: post))[pre.length]?.map ClientOutput.pushed =
      some (((clientRequest (nextRequestId truncate floatText pre) method params).dump floatText).map
        fun msg => (sessionId, msg)).toList ∧
    (∀ mid later sessionId' method' params', post = mid ++ .send sessionId' method' params' :: later →
      nextRequestId truncate floatText pre <
        nextRequestId truncate floatText (pre ++ .send sessionId method params :: mid)) ∧
    (((clientRequests truncate floatText).answers (pre ++ .send sessionId method params :: post)).flatMap
        ClientOutput.settled).filterMap (Tickets.valueAt (nextRequestId truncate floatText pre)) =
      (post.findSome? fun e => (e.op truncate).value (nextRequestId truncate floatText pre)).toList ∧
    ∀ j v, nextRequestId truncate floatText pre < 2 ^ 64 →
      j.field (ascii "id") = (clientRequest (nextRequestId truncate floatText pre) method params).field
        (ascii "id") →
      j.field (ascii "method") = none → j.field (ascii "result") = some v →
        ((ClientEvent.message j).op truncate).value (nextRequestId truncate floatText pre) =
          some (.result v) := by
  refine ⟨?_, fun mid later _ _ _ _ => nextRequestId_lt truncate floatText pre mid _ _ _, ?_, ?_⟩
  · rw [Transducer.answers_getElem?]
    rfl
  · have hsettled := Tickets.settled_run (pre.map (ClientEvent.op truncate))
      (post.map (ClientEvent.op truncate))
    rw [List.flatMap_def, settled_desk, List.map_append, List.map_cons]
    rw [← run_desk truncate floatText, List.findSome?_map] at hsettled
    exact hsettled
  · intro j v hn hid hmethod hresult
    rw [op_echo truncate hn hid hmethod hresult]
    exact if_pos rfl

def sampleResponse : Json Bytes := .object [(ascii "id", .int 1), (ascii "result", .bool true)]

theorem client_request_answered_sample :
    (((clientRequests (fun _ => 0) (fun _ => [])).answers [.send (ascii "s0_1")
        (ascii "sampling/createMessage") .null, .message sampleResponse]).flatMap
          ClientOutput.settled).filterMap (Tickets.valueAt 1) = [.result (.bool true)] := by
  obtain ⟨-, -, hsettled, hecho⟩ := client_request_answered (fun _ => 0) (fun _ => []) []
    [.message sampleResponse] (ascii "s0_1") (ascii "sampling/createMessage") .null
  have hvalue := hecho sampleResponse (.bool true) (by decide) rfl rfl rfl
  rw [List.findSome?_cons, hvalue] at hsettled
  exact hsettled

end Runs

end Aegis.Mcp
