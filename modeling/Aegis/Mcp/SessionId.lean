import Aegis.Lib.Strtoul

/-! The ids of event-stream sessions. An id names the core that holds the session, and
each transport reads the core back from an id: `mcp_shard.hh`, `http_sse_transport.hh`
and `streamable_http_transport.hh`. -/
namespace Aegis.Mcp

/-- The transports that hand out ids. -/
inductive SseTransport where
  | httpSse
  | streamableHttp
  deriving DecidableEq

namespace SseTransport

def idPrefix : SseTransport → Bytes
  | httpSse => ascii "s"
  | streamableHttp => ascii "sm"

/-- The id of the session number `counter` of a core. -/
def newId (t : SseTransport) (shard counter : ℕ) : Bytes :=
  t.idPrefix ++ Printf.decimal shard ++ ascii "_" ++ Printf.decimal counter

/-- What stands in front of the first underscore, as a number; 0 if it is not one. -/
def shardNumber (s : Bytes) : ℕ :=
  match s.idxOf? 95 with
  | some n => if 0 < n then (Strtoul.stoull (s.take n)).elim 0 (· % 2 ^ 32) else 0
  | none => 0

/-- `_parse_shard`; only the second transport skips an `m`. -/
def parseShard : SseTransport → Bytes → ℕ
  | httpSse, sessionId =>
    match sessionId with
    | 115 :: rest => shardNumber rest
    | _ => 0
  | streamableHttp, id =>
    let start := if 2 < id.length ∧ ascii "sm" <+: id then 2 else 1
    shardNumber (id.drop start)

theorem notMem_decimal {b : UInt8} (h : Strtoul.isDigit b = false) (n : ℕ) :
    b ∉ Printf.decimal n := by
  intro hmem
  rw [Strtoul.isDigit_of_mem_decimal hmem] at h
  cases h

theorem shardNumber_append {s : Bytes} (hs : s ≠ []) (h : 95 ∉ s) (rest : Bytes) :
    shardNumber (s ++ 95 :: rest) = (Strtoul.stoull s).elim 0 (· % 2 ^ 32) := by
  have hidx : (s ++ 95 :: rest).idxOf? 95 = some s.length := by
    rw [List.idxOf?_eq_some_iff]
    refine ⟨by simp, by simp, fun j hj heq => h ?_⟩
    rw [List.getElem_append_left hj] at heq
    exact heq ▸ List.getElem_mem hj
  unfold shardNumber
  rw [hidx]
  dsimp only
  rw [if_pos (List.length_pos_of_ne_nil hs), List.take_left]

theorem shardNumber_decimal {k : ℕ} (hk : k < 2 ^ 32) (rest : Bytes) :
    shardNumber (Printf.decimal k ++ 95 :: rest) = k := by
  rw [shardNumber_append (Strtoul.decimal_ne_nil k) (notMem_decimal (by decide) k),
    Strtoul.stoull_decimal (by omega)]
  exact Nat.mod_eq_of_lt hk

theorem newId_httpSse (k c : ℕ) :
    newId httpSse k c = 115 :: (Printf.decimal k ++ 95 :: Printf.decimal c) := by
  unfold newId
  rw [List.append_assoc, List.append_assoc]
  rfl

theorem newId_streamableHttp (k c : ℕ) :
    newId streamableHttp k c = 115 :: 109 :: (Printf.decimal k ++ 95 :: Printf.decimal c) := by
  unfold newId
  rw [List.append_assoc, List.append_assoc]
  rfl

/-- The core and the number of a session can be read from what follows the prefix. -/
theorem numbers_injective {k c k' c' : ℕ}
    (h : Printf.decimal k ++ 95 :: Printf.decimal c = Printf.decimal k' ++ 95 :: Printf.decimal c') :
    k = k' ∧ c = c' := by
  have hinj : Function.Injective (Printf.number 10) := Printf.number_injective (by decide) (by decide)
  have hshard := congrArg (List.takeWhile Strtoul.isDigit) h
  have hstop : ∀ n : ℕ, ∀ b ∈ (95 :: Printf.decimal n).head?, Strtoul.isDigit b = false := by
    intro n b hb
    rw [List.head?_cons, Option.mem_some_iff] at hb
    rw [← hb]
    decide
  rw [Strtoul.takeWhile_decimal_append k (hstop c), Strtoul.takeWhile_decimal_append k' (hstop c')] at hshard
  rw [hshard, List.append_cancel_left_eq] at h
  exact ⟨hinj hshard, hinj (List.cons.inj h).2⟩

/-- A digit is no `m`. -/
theorem decimal_append_ne_m (k : ℕ) (rest tail : Bytes) : Printf.decimal k ++ rest ≠ 109 :: tail := by
  obtain ⟨b, digits, hcons⟩ := List.exists_cons_of_ne_nil (Strtoul.decimal_ne_nil k)
  intro h
  rw [hcons, List.cons_append] at h
  have hm : 109 ∈ Printf.decimal k := by
    rw [hcons, ← (List.cons.inj h).1]
    exact List.mem_cons_self
  exact notMem_decimal (by decide) k hm

theorem newId_inj {t t' : SseTransport} {k c k' c' : ℕ} :
    newId t k c = newId t' k' c' ↔ t = t' ∧ k = k' ∧ c = c' := by
  constructor
  · intro h
    cases t <;> cases t' <;> simp only [newId_httpSse, newId_streamableHttp, List.cons.injEq, true_and] at h
    · exact ⟨rfl, numbers_injective h⟩
    · exact absurd h (decimal_append_ne_m _ _ _)
    · exact absurd h.symm (decimal_append_ne_m _ _ _)
    · exact ⟨rfl, numbers_injective h⟩
  · rintro ⟨rfl, rfl, rfl⟩
    rfl

theorem parseShard_httpSse {k : ℕ} (hk : k < 2 ^ 32) (c : ℕ) :
    httpSse.parseShard (httpSse.newId k c) = k := by
  rw [newId_httpSse]
  exact shardNumber_decimal hk _

/-- The number is not read past an `m`. -/
theorem parseShard_httpSse_streamableHttp (k c : ℕ) :
    httpSse.parseShard (streamableHttp.newId k c) = 0 := by
  have hm : 95 ∉ (109 :: Printf.decimal k : Bytes) := by
    rw [List.mem_cons, not_or]
    exact ⟨by decide, notMem_decimal (by decide) k⟩
  have hnumber : Strtoul.stoull (109 :: Printf.decimal k) = none := rfl
  rw [newId_streamableHttp]
  show shardNumber ((109 :: Printf.decimal k) ++ 95 :: Printf.decimal c) = 0
  rw [shardNumber_append (List.cons_ne_nil _ _) hm, hnumber]
  rfl

theorem parseShard_streamableHttp (t : SseTransport) {k : ℕ} (hk : k < 2 ^ 32) (c : ℕ) :
    streamableHttp.parseShard (t.newId k c) = k := by
  unfold parseShard
  cases t with
  | httpSse =>
    have hstart : ¬ ascii "sm" <+: httpSse.newId k c := by
      rw [newId_httpSse]
      rintro ⟨tail, htail⟩
      exact decimal_append_ne_m k _ tail (List.cons.inj htail).2.symm
    dsimp only
    rw [if_neg (fun h => hstart h.2), newId_httpSse]
    exact shardNumber_decimal hk _
  | streamableHttp =>
    have hstart : 2 < (streamableHttp.newId k c).length ∧ ascii "sm" <+: streamableHttp.newId k c := by
      rw [newId_streamableHttp]
      exact ⟨by simp, _, rfl⟩
    dsimp only
    rw [if_pos hstart, newId_streamableHttp]
    exact shardNumber_decimal hk _

/-- No two sessions get the same id, on whatever core and by whatever transport, and from
each id the core is read back, by the second transport from all of them, by the first
one from its own only. -/
theorem sessionIds_route (t : SseTransport) (k c : ℕ) (hk : k < 2 ^ 32) :
    (∀ t' k' c', newId t k c = newId t' k' c' ↔ t = t' ∧ k = k' ∧ c = c') ∧
      streamableHttp.parseShard (t.newId k c) = k ∧
      (httpSse.parseShard (t.newId k c) = k ↔ t = httpSse ∨ k = 0) := by
  refine ⟨fun t' k' c' => newId_inj, parseShard_streamableHttp t hk c, ?_⟩
  cases t with
  | httpSse => exact iff_of_true (parseShard_httpSse hk c) (Or.inl rfl)
  | streamableHttp =>
    rw [parseShard_httpSse_streamableHttp, or_iff_right (by decide), eq_comm]

theorem sessionIds_route_sample :
    httpSse.parseShard (streamableHttp.newId 3 1) ≠ 3 ∧
      streamableHttp.parseShard (streamableHttp.newId 3 1) = 3 := by
  obtain ⟨-, hown, hother⟩ := sessionIds_route streamableHttp 3 1 (by decide)
  exact ⟨fun h => absurd (hother.mp h) (by decide), hown⟩

end SseTransport

end Aegis.Mcp
