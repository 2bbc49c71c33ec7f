import TimeMerge.Delimited.Document
import TimeMerge.Intake
import TimeMerge.JsonLines
import TimeMerge.Settings

/-!
Merging whole inputs, as settings say, into lines of text: every record that is handed on is written
on a line of its own.
-/
namespace TimeMerge

/-- Why a merge did not come to its end. -/
inductive Stoppage where
  | fault (fault : Fault)
  | cancelled
  /-- No channel holds as many records as the settings ask for. -/
  | overCapacity
  deriving DecidableEq, Repr

/-- What a merge leaves behind, also one that did not come to its end. -/
structure Merged where
  lines : List String := []
  meters : Meters := {}
  stoppage : Option Stoppage := none

def Merged.text (m : Merged) : String := String.join (m.lines.map (· ++ "\n"))

namespace Settings

/-- The greatest number of records that a channel can hold. -/
def maxChannelCapacity : Nat := 2305843009213693951

def policy (s : Settings) : Policy α where
  rule := s.timestamp.rule
  checkOrder := s.checkOrder

/-- Where merged records go: into a channel whose other end writes them, counted on the way. -/
def lineOutlet : Outlet (WithMeters (Channel α)) α :=
  ((Outlet.bounded true).withMeters).metered "stdout"

/-- A run that is cancelled before its first turn stops there. -/
def mergeInlets [Record α] (s : Settings) (cancelled : Bool) (inlets : List (Inlet α)) : Merged :=
  if maxChannelCapacity < s.channelCapacity then { stoppage := some .overCapacity }
  else if cancelled then { stoppage := some .cancelled }
  else
    let start := Intake.ofInlets (inlets.zipIdx.map fun (inlet, p) => (p, inlet))
    let (result, intake, w) := start.run s.policy lineOutlet { state := {} }
    { lines := w.state.sent.filterMap Record.line?
      -- outlets count what is taken, the intake what is skipped
      meters := { w.meters with malformed := intake.meters.malformed }
      stoppage :=
        match result with
        | .error fault => some (.fault fault)
        | .ok true => none
        | .ok false => some .cancelled }

/-- Merges named inputs. -/
def merge (s : Settings) (cancelled : Bool) (inputs : List (String × Contents)) : Merged :=
  match s.format with
  | .jsonLines =>
    s.mergeInlets cancelled (inputs.map fun (name, contents) => JsonLines.inlet name contents)
  | .delimited delimiter header =>
    s.mergeInlets cancelled
      (inputs.map fun (name, contents) => Delimited.inlet name delimiter header contents)

end Settings

end TimeMerge
