/-!
JSON values. A number keeps its exact value when it is an integer of 64 bits, signed or unsigned,
and is a binary64 value otherwise; the members of an object stand in ascending order of their keys,
each key once.
-/
namespace TimeMerge

inductive Json.Number where
  | integer (n : Int)
  | float (bits : UInt64)
  deriving DecidableEq, Repr

inductive Json where
  | null
  | bool (b : Bool)
  | number (n : Json.Number)
  | string (s : String)
  | array (items : List Json)
  | object (members : List (String × Json))
  deriving BEq, Repr

namespace Json

/-- Puts a member in its place among ascending keys, in place of one of the same key. -/
def putMember (key : String) (value : Json) : List (String × Json) → List (String × Json)
  | [] => [(key, value)]
  | (k, v) :: rest =>
    if key < k then (key, value) :: (k, v) :: rest
    else if key = k then (key, value) :: rest
    else (k, v) :: putMember key value rest

/-- The object that members in reading order stand for; of several with one key the last counts. -/
def ofMembers (members : List (String × Json)) : Json :=
  .object (members.foldl (fun acc m => putMember m.1 m.2 acc) [])

def item? : Json → Nat → Option Json
  | .array items, i => items[i]?
  | _, _ => none

def member? : Json → String → Option Json
  | .object members, key => members.lookup key
  | _, _ => none

/-- The number of items or members; other values hold none. -/
def count : Json → Nat
  | .array items => items.length
  | .object members => members.length
  | _ => 0

end Json

end TimeMerge
