import TimeMerge.Fault
import TimeMerge.Record
import TimeMerge.Text.Blank

/-!
Rules that give a record its timestamp: the field at a position, the field of a name, or a function
of the whole record. A field counts as a timestamp if it is an integer or the text of one.
-/
namespace TimeMerge

inductive KeyRule (α : Type) where
  | position (index : Nat)
  | named (name : String)
  | computed (f : α → Except Fault Timestamp)

/-- The rules that settings can name. -/
inductive KeySpec where
  | position (index : Nat)
  | named (name : String)
  deriving DecidableEq, Repr

def KeySpec.rule : KeySpec → KeyRule α
  | .position index => .position index
  | .named name => .named name

namespace KeyRule

def describe : KeyRule α → String
  | .position index => s!"Index({index})"
  | .named name => s!"Field({Text.quote name})"
  | .computed _ => "Func(..)"

def ofCell : Cell → Except Defect Timestamp
  | .integer n => .ok n
  | .text s => (Text.integer? (Text.trim s)).mapError (.notAnInteger s)
  | .other => .error .notAKey

/-- What the rule finds in a record, before its sign is looked at. -/
def find [Record α] : KeyRule α → α → Except Fault Timestamp
  | .position index, record =>
    match Record.cellAt record index with
    | none => .error (.malformed (.noFieldAt index))
    | some cell => (ofCell cell).mapError .malformed
  | .named name, record =>
    match Record.cellNamed record name with
    | none => .error (.malformed (.noFieldNamed name))
    | some cell => (ofCell cell).mapError .malformed
  | .computed f, record => f record

def timestamp [Record α] (rule : KeyRule α) (record : α) : Except Fault Timestamp :=
  match rule.find record with
  | .error e => .error e
  | .ok ts => if ts < 0 then .error (.malformed (.negative ts)) else .ok ts

end KeyRule

end TimeMerge
