import TimeMerge.Fault

/-!
Inputs as what reading them gives. An inlet is the list of outcomes that are still to come; after
them it is at its end, or fails the same way at every further read.
-/
namespace TimeMerge

/-- The outcome of one read: a record, the end of the data, or a fault. Of the faults only a
malformed record leaves the input usable. -/
abbrev Reading (α : Type) := Except Fault (Option α)

structure Inlet (α : Type) where
  name : String := "source"
  upcoming : List (Reading α)
  failure : Option ReadFailure := none
  deriving Repr

namespace Inlet

def ofRecords (records : List α) : Inlet α :=
  { name := "iter", upcoming := records.map fun r => .ok (some r) }

def atEnd (inlet : Inlet α) : Reading α :=
  match inlet.failure with
  | none => .ok none
  | some failure => .error (.unreadable failure)

def read (inlet : Inlet α) : Reading α × Inlet α :=
  match inlet.upcoming with
  | [] => (inlet.atEnd, inlet)
  | r :: rest => (r, { inlet with upcoming := rest })

end Inlet

/-- What an input holds: bytes, and the words of the failure that stands in place of their end, if one
does. -/
structure Contents where
  bytes : Bytes
  failure : Option String := none
  /-- The most bytes that are handed over at once, if there is a limit. -/
  portion : Option Nat := none
  deriving DecidableEq, Repr

/-- The bytes that are handed over first. -/
def Contents.opening (c : Contents) : Bytes :=
  match c.portion with
  | none => c.bytes
  | some n => c.bytes.take n

end TimeMerge
