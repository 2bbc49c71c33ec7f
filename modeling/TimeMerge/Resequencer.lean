import TimeMerge.Release

/-!
Merging what independent producers send. Each producer is a partition. Its flush says that it is
done; its partition is closed once it is empty, and when none is left the flush itself is passed on,
once.
-/
namespace TimeMerge

inductive Payload (α : Type) where
  | record (record : α)
  | flush
  deriving DecidableEq, Repr

structure Message (α : Type) where
  producer : PartitionId
  payload : Payload α
  deriving DecidableEq, Repr

def Message.isFlush (msg : Message α) : Bool :=
  match msg.payload with
  | .flush => true
  | .record _ => false

inductive Progress where
  | active | draining | done
  deriving DecidableEq, Repr

def Progress.name : Progress → String
  | .active => "active"
  | .draining => "draining"
  | .done => "done"

structure ResequencerStats where
  received : Nat := 0
  forwarded : Nat := 0
  flushes : Nat := 0
  deriving DecidableEq, Repr

structure Resequencer (α : Type) where
  merger : Merger α
  /-- Producers that have flushed, those with closed partitions included. -/
  flushed : Table Unit := .empty
  progress : Progress := .active
  stats : ResequencerStats := {}
  deriving DecidableEq, Repr

/-- What is left of a run that no fault ended. One that did not finish had no more messages. -/
structure Completed where
  stats : ResequencerStats
  finished : Bool
  deriving DecidableEq, Repr

namespace Resequencer

/-- With no producers there is nothing to wait for. -/
def ofProducers (producers : List PartitionId) : Resequencer α :=
  let merger := Merger.ofPartitions producers
  { merger, progress := if merger.openCount = 0 then .draining else .active }

/-- Hands on everything that may go, closes what is empty and done and, once nothing is left, passes
the flush on. -/
def drain (k : Outlet ω α) (s : Resequencer α) (w : ω) :
    Except Fault Nat × (Resequencer α × ω) :=
  if s.progress = .done then (.ok 0, (s, w))
  else
    let s :=
      if s.progress = .active ∧ s.merger.allDisabled then { s with progress := .draining } else s
    match s.merger.release k w with
    | (.error e, (m, w)) => (.error e, ({ s with merger := m }, w))
    | (.ok n, (m, w)) =>
      let s := { s with
        merger := m.closeDrained, stats.forwarded := s.stats.forwarded + n }
      if s.merger.openCount = 0 then
        match k.flush w with
        | (.error e, w) => (.error e, (s, w))
        | (.ok (), w) => (.ok n, ({ s with progress := .done }, w))
      else (.ok n, (s, w))

def feed [Record α] (policy : Policy α) (k : Outlet ω α) (msg : Message α) (s : Resequencer α)
    (w : ω) : Except Fault Nat × (Resequencer α × ω) :=
  if s.progress = .done then (.error .terminated, (s, w))
  else
    let s := { s with stats.received := s.stats.received + 1 }
    match msg.payload with
    | .flush =>
      if s.flushed.contains msg.producer then (.ok 0, (s, w))
      else
        match s.merger.disable msg.producer with
        | (.error e, m) => (.error e, ({ s with merger := m }, w))
        | (.ok (), m) =>
          { s with
            merger := m, flushed := s.flushed.insert msg.producer (),
            stats.flushes := s.stats.flushes + 1 }.drain k w
    | .record record =>
      if s.flushed.contains msg.producer then (.error (.producerFlushed msg.producer), (s, w))
      else
        match s.merger.add policy msg.producer record with
        | (.error e, m) => (.error e, ({ s with merger := m }, w))
        | (.ok (), m) => { s with merger := m }.drain k w

/-- Takes every producer for done, so that whatever is queued goes out. -/
def disableAll (k : Outlet ω α) (s : Resequencer α) (w : ω) :
    Except Fault Nat × (Resequencer α × ω) :=
  if s.progress = .done then (.ok 0, (s, w))
  else
    { s with
      merger := s.merger.disableAll,
      flushed := s.merger.partitions.foldl (fun t p => t.insert p ()) s.flushed }.drain k w

/-- Feeds messages until the flush is passed on, a fault comes up or none is left. -/
def serve [Record α] (policy : Policy α) (k : Outlet ω α) :
    List (Message α) → Resequencer α → ω → Except Fault Unit × (Resequencer α × ω)
  | [], s, w => (.ok (), (s, w))
  | msg :: rest, s, w =>
    match s.feed policy k msg w with
    | (.error e, s) => (.error e, s)
    | (.ok _, (s, w)) => if s.progress = .done then (.ok (), (s, w)) else serve policy k rest s w

/-- Serves a channel that holds these messages and is closed behind them. -/
def forward [Record α] (policy : Policy α) (k : Outlet ω α) (msgs : List (Message α))
    (s : Resequencer α) (w : ω) : Except Fault Completed × ω :=
  match s.serve policy k msgs w with
  | (r, (s, w)) => (r.map fun () => { stats := s.stats, finished := s.progress = .done }, w)

end Resequencer

end TimeMerge
