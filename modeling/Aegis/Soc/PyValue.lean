import Aegis.Lib.Json

/-! JSON values as the Python programs see them, and the requests they send. -/
namespace Aegis.Soc

def truthy : Json Text → Bool
  | .null => false
  | .bool b => b
  | .int z => z ≠ 0
  | .float x => x ≠ .fin 0
  | .str s => !s.isEmpty
  | .arr elems => !elems.isEmpty
  | .obj fields => !fields.isEmpty

/-- `key in v`; a number, a truth value and `None` raise a `TypeError`. -/
def inValue (key : Text) : Json Text → Option Bool
  | .obj fields => some ((Json.obj fields).field key).isSome
  | .arr elems => some (elems.any fun v => match v with | .str s => s = key | _ => false)
  | .str s => some (Text.Contains key s)
  | _ => none

/-- `v and key in v`. -/
def holdsKey (key : Text) (v : Json Text) : Option Bool :=
  if truthy v then inValue key v else some false

/-- A request; `params` are only sent if they are truthy. -/
def rpcRequest (reqId : ℤ) (method : Text) (params : Json Text) : Json Text :=
  .obj ([("jsonrpc".toList, .str "2.0".toList), ("id".toList, .int reqId),
    ("method".toList, .str method)] ++ if truthy params then [("params".toList, params)] else [])

end Aegis.Soc
