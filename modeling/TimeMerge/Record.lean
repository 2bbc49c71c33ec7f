import TimeMerge.Delimited.Row
import TimeMerge.Json.Printer
import TimeMerge.Text.Integer

/-!
Records, seen as what may be merged: their fields, by position or by name, and the line that one is
written on.
-/
namespace TimeMerge

inductive Cell where
  | integer (n : Int)
  | text (s : String)
  | other
  deriving DecidableEq, Repr

class Record (α : Type) where
  cellAt : α → Nat → Option Cell := fun _ _ => none
  cellNamed : α → String → Option Cell := fun _ _ => none
  /-- The line a record is written on; a record that cannot be written has none. -/
  line? : α → Option String

instance : Record Int where
  line? n := some (toString n)

instance : Record String where
  line? s := some s

/-- A number is an integer here only if a signed 64-bit word can hold it. -/
def Json.cell : Json → Cell
  | .number (.integer n) => if n ≤ Text.maxSigned then .integer n else .other
  | .string s => .text s
  | _ => .other

instance : Record Json where
  cellAt j i := (j.item? i).map Json.cell
  cellNamed j name := (j.member? name).map Json.cell
  line? j := some j.compact

instance : Record Delimited.Row where
  cellAt row i := row.fields[i]?.map .text
  cellNamed row name := (row.named? name).map .text
  line? row := row.line?

/-- A record that several holders have in common. What is asked of it is asked of the record. -/
structure Shared (α : Type) where
  record : α
  deriving DecidableEq, Repr

instance [Record α] : Record (Shared α) where
  cellAt shared i := Record.cellAt shared.record i
  cellNamed shared name := Record.cellNamed shared.record name
  line? shared := Record.line? shared.record

end TimeMerge
