import Aegis.Lib.Json
import Aegis.Lib.Strtoul

/-! The pages of `tools/list`, `resources/list` and `prompts/list`, `mcp_server.cc`, and the
client that follows `nextCursor`, `test_protocol.py`. -/
namespace Aegis.Mcp

/-- `page_size`. -/
def pageSize : ℕ := 50

/-- The offset that the parameters ask for; whatever is not a number begins at the front. -/
def pageOffset (params : Json Bytes) : ℕ :=
  match params.field (ascii "cursor") with
  | some (.str cursor) => (Strtoul.stoull cursor).getD 0
  | _ => 0

/-- The result of a list request for the items under `key`. -/
def listPage (key : Bytes) (all : List (Json Bytes)) (params : Json Bytes) : Json Bytes :=
  let offset := pageOffset params
  if all.length ≤ offset then .object [(key, .arr [])]
  else
    .object ((key, .arr ((all.drop offset).take pageSize)) ::
      if offset + pageSize < all.length then
        [(ascii "nextCursor", .str (Printf.decimal (offset + pageSize)))] else [])

/-- `{"cursor": cursor}`. -/
def cursorParams (cursor : Bytes) : Json Bytes := .obj [(ascii "cursor", .str cursor)]

/-- The loop over the pages, for at most `fuel` requests: the items of all pages, if the
last page was reached. -/
def followCursor (key : Bytes) (serve : Json Bytes → Json Bytes) :
    ℕ → Json Bytes → Option (List (Json Bytes))
  | 0, _ => none
  | fuel + 1, params =>
    let result := serve params
    match result.field key with
    | some (.arr items) =>
      match result.field (ascii "nextCursor") with
      | some (.str (b :: cursor)) =>
        (followCursor key serve fuel (cursorParams (b :: cursor))).map (items ++ ·)
      | _ => some items -- no cursor, or an empty one
    | _ => none

section Pages
variable {key : Bytes} {all : List (Json Bytes)} {params : Json Bytes}

theorem pageOffset_cursorParams {n : ℕ} (hn : n < 2 ^ 64) :
    pageOffset (cursorParams (Printf.decimal n)) = n := by
  have hfield : (cursorParams (Printf.decimal n)).field (ascii "cursor") =
      some (.str (Printf.decimal n)) := rfl
  unfold pageOffset
  rw [hfield]
  dsimp only
  rw [Strtoul.stoull_decimal hn, Option.getD_some]

/-- Whatever the cursor, a page is a piece of the list. -/
theorem field_items : (listPage key all params).field key =
    some (.arr ((all.drop (pageOffset params)).take pageSize)) := by
  unfold listPage
  dsimp only
  split_ifs with hpast hmore
  · rw [Json.field_object, Json.field_cons_self, List.drop_of_length_le hpast]
    rfl
  · rw [Json.field_object, Json.field_cons_self]
  · rw [Json.field_object, Json.field_cons_self]

theorem field_nextCursor (hkey : key ≠ ascii "nextCursor") :
    (listPage key all params).field (ascii "nextCursor") =
      if pageOffset params + pageSize < all.length then
        some (.str (Printf.decimal (pageOffset params + pageSize))) else none := by
  unfold listPage
  dsimp only
  split_ifs with hpast hmore
  · omega
  · rw [Json.field_object, Json.field_cons_ne _ hkey.symm]
    rfl
  · rw [Json.field_object, Json.field_cons_ne _ hkey.symm, Json.field_cons_self]
  · rw [Json.field_object, Json.field_cons_ne _ hkey.symm]
    rfl

end Pages

/-- From an offset on, the client gets the rest of the list. -/
theorem followCursor_from {key : Bytes} (hkey : key ≠ ascii "nextCursor") {all : List (Json Bytes)}
    (hall : all.length < 2 ^ 64) {fuel : ℕ} {params : Json Bytes}
    (hfuel : all.length < pageOffset params + pageSize * fuel) (hpos : 0 < fuel) :
    followCursor key (listPage key all) fuel params = some (all.drop (pageOffset params)) := by
  induction fuel generalizing params with
  | zero => omega
  | succ fuel ih =>
    unfold followCursor
    dsimp only
    rw [field_items]
    dsimp only
    rw [field_nextCursor hkey]
    by_cases hmore : pageOffset params + pageSize < all.length
    · obtain ⟨b, cursor, hcursor⟩ :=
        List.exists_cons_of_ne_nil (Strtoul.decimal_ne_nil (pageOffset params + pageSize))
      have hnext : pageOffset (cursorParams (b :: cursor)) = pageOffset params + pageSize := by
        rw [← hcursor, pageOffset_cursorParams (by omega)]
      have hrest : followCursor key (listPage key all) fuel (cursorParams (b :: cursor)) =
          some (all.drop (pageOffset (cursorParams (b :: cursor)))) := by
        apply ih
        · rw [hnext]
          rw [Nat.mul_add, Nat.mul_one] at hfuel
          omega
        · by_contra hzero
          have hfuel0 : fuel = 0 := by omega
          rw [hfuel0] at hfuel
          omega
      rw [if_pos hmore, hcursor]
      dsimp only
      rw [hrest, hnext, Option.map_some, ← List.drop_drop, List.take_append_drop]
    · rw [if_neg hmore, List.take_of_length_le]
      rw [List.length_drop]
      omega

/-- The client that follows the cursors gets every item, once and in the order of the
list, with at most one request more than there are full pages. -/
theorem followCursor_complete {key : Bytes} (hkey : key ≠ ascii "nextCursor")
    {all : List (Json Bytes)} (hall : all.length < 2 ^ 64) {fuel : ℕ}
    (hfuel : all.length / pageSize < fuel) :
    followCursor key (listPage key all) fuel (.obj []) = some all := by
  have hoffset : pageOffset (.obj []) = 0 := rfl
  have hpages : all.length < pageSize * fuel := by
    rw [Nat.mul_comm]
    exact (Nat.div_lt_iff_lt_mul (by decide)).mp hfuel
  have h : followCursor key (listPage key all) fuel (.obj []) =
      some (all.drop (pageOffset (.obj []))) :=
    followCursor_from hkey hall (by omega) (Nat.zero_lt_of_lt hfuel)
  rwa [hoffset, List.drop_zero] at h

/-- Fifty-one items on two pages. -/
theorem followCursor_complete_sample :
    followCursor (ascii "tools") (listPage (ascii "tools") (List.replicate 51 .null)) 2 (.obj []) =
      some (List.replicate 51 .null) := by
  have hlength : (List.replicate 51 (Json.null : Json Bytes)).length = 51 := List.length_replicate
  refine followCursor_complete (by decide +kernel) ?_ ?_
  · rw [hlength]
    decide
  · rw [hlength]
    decide

end Aegis.Mcp
