import TimeMerge.Inlet
import TimeMerge.Release

/-!
Merging inputs that are read here. Every turn is one unit of work: the inputs are visited in a fixed
round, closed ones passed over, and either one record is read and what may go is handed on, or an
input that is at its end is closed. One that still has records queued cannot be closed yet; what may
go is handed on and closing is tried again in a later turn.
-/
namespace TimeMerge

/-- How far an input is: still read, at its end with its partition yet to close, or closed. -/
inductive Phase (α : Type) where
  | reading (inlet : Inlet α)
  | exhausted (inlet : Inlet α)
  | closed

structure Slot (α : Type) where
  partition : PartitionId
  phase : Phase α

/-- The number of outcomes that reading has still to give before the input is at its end. -/
def Slot.outstanding (slot : Slot α) : Nat :=
  match slot.phase with
  | .reading inlet => inlet.upcoming.length
  | _ => 0

/-- The outcome of a turn. -/
inductive Turn where
  | forwarded (count : Nat)
  | skipped (partition : PartitionId)
  | pending (partition : PartitionId)
  | closed (partition : PartitionId)
  | finished
  deriving DecidableEq, Repr

structure IntakeStats where
  read : Nat := 0
  forwarded : Nat := 0
  malformed : Nat := 0
  closed : Nat := 0
  deriving DecidableEq, Repr

/-- What a turn finds: only closed inputs, one at its end, or one that it reads, with what that gives
and what it leaves. -/
inductive Poll (α : Type) where
  | idle
  | ended (index : Nat) (partition : PartitionId)
  | read (index : Nat) (partition : PartitionId) (reading : Reading α) (left : Inlet α)

structure Intake (α : Type) where
  name : String := "ingest"
  merger : Merger α
  slots : List (Slot α)
  cursor : Nat := 0
  stats : IntakeStats := {}
  flushed : Bool := false
  /-- The meters in which it counts, at the stage of its name. -/
  meters : Meters := {}

namespace Intake

def ofInlets (inlets : List (PartitionId × Inlet α)) : Intake α where
  merger := .ofPartitions (inlets.map (·.1))
  slots := inlets.map fun (p, inlet) => ⟨p, .reading inlet⟩

def isFinished (s : Intake α) : Bool := s.merger.openCount == 0

/-- Hands on everything that may go; the count is kept only if nothing was refused. -/
def forward (k : Outlet ω α) (s : Intake α) (w : ω) : Except Fault Nat × (Intake α × ω) :=
  match s.merger.release k w with
  | (.error e, (m, w)) => (.error e, ({ s with merger := m }, w))
  | (.ok n, (m, w)) =>
    (.ok n, ({ s with merger := m, stats.forwarded := s.stats.forwarded + n }, w))

/-- Passes the flush on, at the first call only. -/
def finish (k : Outlet ω α) (s : Intake α) (w : ω) : Except Fault Unit × (Intake α × ω) :=
  if s.flushed then (.ok (), (s, w))
  else
    match k.flush w with
    | (r, w) => (r, ({ s with flushed := true }, w))

/-- Hands on what closing a partition has set free and, with none left open, the flush. -/
def wrapUp (k : Outlet ω α) (p : PartitionId) (s : Intake α) (w : ω) :
    Except Fault Turn × (Intake α × ω) :=
  match s.forward k w with
  | (.error e, s) => (.error e, s)
  | (.ok _, (s, w)) =>
    if s.isFinished then
      match s.finish k w with
      | (.error e, s) => (.error e, s)
      | (.ok (), s) => (.ok (.closed p), s)
    else (.ok (.closed p), (s, w))

def tryClose (k : Outlet ω α) (index : Nat) (p : PartitionId) (s : Intake α) (w : ω) :
    Except Fault Turn × (Intake α × ω) :=
  match s.merger.close p with
  | (.error e, m) => (.error e, ({ s with merger := m }, w))
  | (.ok false, m) =>
    match { s with merger := m }.forward k w with
    | (.error e, s) => (.error e, s)
    | (.ok _, s) => (.ok (.pending p), s)
  | (.ok true, m) =>
    { s with
      merger := m, slots := s.slots.set index ⟨p, .closed⟩,
      stats.closed := s.stats.closed + 1 }.wrapUp k p w

def countSkip (s : Intake α) : Intake α :=
  { s with
    stats.malformed := s.stats.malformed + 1, meters := s.meters.countMalformed s.name 1 }

def skip (p : PartitionId) (s : Intake α) (w : ω) : Except Fault Turn × (Intake α × ω) :=
  (.ok (.skipped p), (s.countSkip, w))

def accept [Record α] (policy : Policy α) (k : Outlet ω α) (p : PartitionId) (record : α)
    (s : Intake α) (w : ω) : Except Fault Turn × (Intake α × ω) :=
  match s.merger.add policy p record with
  | (.error (.malformed _), m) => { s with merger := m }.skip p w
  | (.error e, m) => (.error e, ({ s with merger := m }, w))
  | (.ok (), m) =>
    let s := { s with merger := m, stats.read := s.stats.read + 1 }
    match s.forward k w with
    | (.error e, s) => (.error e, s)
    | (.ok n, s) => (.ok (.forwarded n), s)

/-- An input at its end delivers nothing older any more, so it stops holding back the others. -/
def exhaust (k : Outlet ω α) (index : Nat) (p : PartitionId) (inlet : Inlet α) (s : Intake α)
    (w : ω) : Except Fault Turn × (Intake α × ω) :=
  let s := { s with slots := s.slots.set index ⟨p, .exhausted inlet⟩ }
  match s.merger.disable p with
  | (.error e, m) => (.error e, ({ s with merger := m }, w))
  | (.ok (), m) => { s with merger := m }.tryClose k index p w

/-- The first slot from the cursor on, round the end, that is not closed. -/
def nextLive (s : Intake α) : Option (Nat × Slot α) :=
  (List.range s.slots.length).findSome? fun step =>
    let index := (s.cursor + step) % s.slots.length
    match s.slots[index]? with
    | none => none
    | some ⟨_, .closed⟩ => none
    | some slot => some (index, slot)

/-- Goes on to the next slot and reads its input, unless that is at its end. -/
def poll (s : Intake α) : Poll α × Intake α :=
  match s.nextLive with
  | none => (.idle, s)
  | some (index, ⟨p, phase⟩) =>
    let s := { s with cursor := (index + 1) % s.slots.length }
    match phase with
    | .closed => (.idle, s)
    | .exhausted _ => (.ended index p, s)
    | .reading inlet =>
      let (reading, left) := inlet.read
      (.read index p reading left, { s with slots := s.slots.set index ⟨p, .reading left⟩ })

/-- What is to be done about what was found. -/
def respond [Record α] (policy : Policy α) (k : Outlet ω α) (found : Poll α) (s : Intake α) (w : ω) :
    Except Fault Turn × (Intake α × ω) :=
  match found with
  | .idle =>
    match s.finish k w with
    | (.error e, s) => (.error e, s)
    | (.ok (), s) => (.ok .finished, s)
  | .ended index p => s.tryClose k index p w
  | .read _ p (.ok (some record)) _ => s.accept policy k p record w
  | .read index p (.ok none) left => s.exhaust k index p left w
  | .read _ p (.error (.malformed _)) _ => s.skip p w
  | .read _ _ (.error e) _ => (.error e, (s, w))

def turn [Record α] (policy : Policy α) (k : Outlet ω α) (s : Intake α) (w : ω) :
    Except Fault Turn × (Intake α × ω) :=
  match s.poll with
  | (found, s) => s.respond policy k found w

/-- Takes turns until everything is closed, a fault comes up or `n` turns are over, and tells
whether everything was closed. -/
def turns [Record α] (policy : Policy α) (k : Outlet ω α) :
    Nat → Intake α → ω → Except Fault Bool × (Intake α × ω)
  | 0, s, w => (.ok false, (s, w))
  | n + 1, s, w =>
    match s.turn policy k w with
    | (.error e, s) => (.error e, s)
    | (.ok .finished, s) => (.ok true, s)
    | (.ok _, (s, w)) => turns policy k n s w

def outstanding (s : Intake α) : Nat := s.slots.foldr (fun slot n => slot.outstanding + n) 0

/-- A number of turns that is enough: in each round every live input is read once, and once all are
at their ends one more round closes them. -/
def turnBound (s : Intake α) : Nat :=
  let count := s.slots.length
  (s.outstanding + count) * count + count + 1

def run [Record α] (policy : Policy α) (k : Outlet ω α) (s : Intake α) (w : ω) :
    Except Fault Bool × (Intake α × ω) :=
  turns policy k s.turnBound s w

end Intake

end TimeMerge
