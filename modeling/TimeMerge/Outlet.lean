import TimeMerge.Fault
import TimeMerge.Meters

/-!
Where released records go. An outlet takes records one by one and, once nothing more will come, a
flush; each attempt may be refused and leaves a new state of type `ω` either way. Outlets are wrapped
in others that watch, change or count what passes.
-/
namespace TimeMerge

structure Outlet (ω α : Type) where
  emit : α → ω → Except Fault Unit × ω
  flush : ω → Except Fault Unit × ω

/-- One end of a channel: what was sent and not yet taken, and whether anyone still listens. -/
structure Channel (α : Type) where
  sent : List α := []
  listening : Bool := true
  deriving DecidableEq, Repr

/-- A state together with the meters of the run. -/
structure WithMeters (ω : Type) where
  state : ω
  meters : Meters := {}

namespace Outlet

/-- An outlet whose flush has nothing to do. -/
def ofEmit (emit : α → ω → Except Fault Unit × ω) : Outlet ω α where
  emit := emit
  flush w := (.ok (), w)

def collect : Outlet (List α) α := ofEmit fun r rs => (.ok (), rs ++ [r])

def unbounded : Outlet (Channel α) α :=
  ofEmit fun r c =>
    if c.listening then (.ok (), { c with sent := c.sent ++ [r] })
    else (.error (.refused .receiverDropped), c)

/-- A channel that makes its sender wait while it is full, which not every sender may do. -/
def bounded (mayWait : Bool) : Outlet (Channel α) α where
  emit r c := if mayWait then unbounded.emit r c else (.error (.refused .wouldBlock), c)
  flush c := (.ok (), c)

/-- Shows every record to `watch` before handing it on. -/
def inspect (watch : α → ω → ω) (k : Outlet ω α) : Outlet ω α where
  emit r w := k.emit r (watch r w)
  flush := k.flush

/-- Hands on what `f` makes of every record. It may remember what it has been given. -/
def convert (f : α → ω → β × ω) (k : Outlet ω β) : Outlet ω α where
  emit r w := k.emit (f r w).1 (f r w).2
  flush := k.flush

def map (f : α → β) (k : Outlet ω β) : Outlet ω α := k.convert fun r w => (f r, w)

/-- Hands on what `check` lets pass, and may remember it. It is an outlet of its own, and a flush ends
at it. -/
def guard (check : α → ω → Except Fault Unit × ω) (k : Outlet ω α) : Outlet ω α :=
  ofEmit fun r w =>
    match check r w with
    | (.ok (), w) => k.emit r w
    | (.error e, w) => (.error e, w)

def gate (check : α → Except Fault Unit) (k : Outlet ω α) : Outlet ω α :=
  k.guard fun r w => (check r, w)

def withMeters (k : Outlet ω α) : Outlet (WithMeters ω) α where
  emit r w := (k.emit r w.state).map id fun s => { w with state := s }
  flush w := (k.flush w.state).map id fun s => { w with state := s }

/-- Counts the records that were taken. Taking one lasts no time that an outlet could tell. -/
def metered (stage : String) (k : Outlet (WithMeters ω) α) : Outlet (WithMeters ω) α where
  emit r w :=
    match k.emit r w with
    | (.ok (), w) =>
      (.ok (), { w with meters := (w.meters.observe stage 0).countForwarded stage 1 })
    | (.error e, w) => (.error e, w)
  flush := k.flush

end Outlet

end TimeMerge
