import TimeMerge.KeyRule
import TimeMerge.Partition

/-!
Ordered merge of partitions. Records queue up per partition in the order they came. `next` releases a
record only when no partition can still deliver an older one: a head that equals the watermark may go
at once; otherwise, when every partition has a head or is disabled, the smallest head goes and becomes
the watermark, the lowest partition first among equals.
-/
namespace TimeMerge

/-- How records are keyed, and whether a partition may go back in time. -/
structure Policy (α : Type) where
  rule : KeyRule α
  checkOrder : Bool := true

/-- An open partition. `last` is the timestamp of the record added last, which outlives it. -/
structure Lane (α : Type) where
  queue : List (Timestamp × α) := []
  last : Option Timestamp := none
  enabled : Bool := true
  deriving DecidableEq, Repr

namespace Lane

def head? (l : Lane α) : Option Timestamp := l.queue.head?.map (·.1)

def push (ts : Timestamp) (record : α) (l : Lane α) : Lane α :=
  { l with queue := l.queue ++ [(ts, record)], last := some ts }

def drop (l : Lane α) : Lane α := { l with queue := l.queue.tail }

def disable (l : Lane α) : Lane α := { l with enabled := false }

/-- An enabled partition with nothing queued may still deliver a record of any age. -/
def blocks (l : Lane α) : Bool := l.enabled && l.queue.isEmpty

end Lane

/-- The watermark before anything is released. -/
def minWatermark : Timestamp := -9223372036854775808

structure Merger (α : Type) where
  lanes : Table (Lane α)
  watermark : Timestamp := minWatermark
  buffered : Nat := 0
  deriving DecidableEq, Repr

namespace Merger

def ofPartitions (ids : List PartitionId) : Merger α := { lanes := Table.ofIds ids {} }

def lane? (m : Merger α) (p : PartitionId) : Option (Lane α) := m.lanes.get? p

/-- The number of queued records, counted. -/
def size (m : Merger α) : Nat := m.lanes.total (·.queue.length)

/-- Takes a record, unless the answer is a fault. -/
def add [Record α] (policy : Policy α) (p : PartitionId) (record : α) (m : Merger α) :
    Except Fault Unit × Merger α :=
  match m.lane? p with
  | none => (.error (.partitionNotOpen p), m)
  | some lane =>
    match policy.rule.timestamp record with
    | .error e => (.error e, m)
    | .ok ts =>
      let accepted : Merger α :=
        { m with lanes := m.lanes.adjust p (.push ts record), buffered := m.buffered + 1 }
      match lane.last with
      | none => (.ok (), accepted)
      | some previous =>
        if ts < previous ∧ policy.checkOrder then (.error (.outOfOrder p previous ts), m)
        else (.ok (), accepted)

def pop (p : PartitionId) (m : Merger α) : Option (α × Merger α) :=
  match m.lane? p with
  | none => none
  | some lane =>
    match lane.queue with
    | [] => none
    | (_, record) :: _ =>
      some (record, { m with lanes := m.lanes.adjust p .drop, buffered := m.buffered - 1 })

/-- The first partition whose head equals the watermark. -/
def tied? (m : Merger α) : Option PartitionId :=
  (m.lanes.entries.find? fun e => e.2.head? == some m.watermark).map (·.1)

def blocked (m : Merger α) : Bool := m.lanes.entries.any (·.2.blocks)

/-- The first of the smallest heads. -/
def smallest? : List (PartitionId × Lane α) → Option (PartitionId × Timestamp)
  | [] => none
  | (p, lane) :: rest =>
    match lane.head?, smallest? rest with
    | none, best => best
    | some ts, none => some (p, ts)
    | some ts, some (q, best) => if best < ts then some (q, best) else some (p, ts)

def next (m : Merger α) : Option (α × Merger α) :=
  match m.tied? with
  | some p => m.pop p
  | none =>
    if m.blocked then none
    else
      match smallest? m.lanes.entries with
      | none => none
      | some (p, ts) => pop p { m with watermark := ts }

theorem size_pop {p : PartitionId} {m m' : Merger α} {record : α}
    (h : m.pop p = some (record, m')) : m'.size + 1 = m.size := by
  unfold pop at h
  split at h
  · cases h
  · rename_i lane hl
    split at h
    · cases h
    · rename_i ts r rest hq
      cases h
      have ht := Table.total_adjust hl Lane.drop (·.queue.length)
      simp only [Lane.drop, hq, List.tail_cons, List.length_cons] at ht
      simp only [size]
      omega

theorem size_next {m m' : Merger α} {record : α} (h : m.next = some (record, m')) :
    m'.size < m.size := by
  unfold next at h
  split at h
  · have := size_pop h
    omega
  · split at h
    · cases h
    · split at h
      · cases h
      · have := size_pop h
        simp only [size] at this ⊢
        omega

/-- Releases everything that may go, in order. -/
def drain (m : Merger α) : List α × Merger α :=
  match _h : m.next with
  | none => ([], m)
  | some (record, m') =>
    let r := drain m'
    (record :: r.1, r.2)
termination_by m.size
decreasing_by exact size_next _h

/-- Releases as `drain` does, but no more than `n` records. -/
def take : Nat → Merger α → List α × Merger α
  | 0, m => ([], m)
  | n + 1, m =>
    match m.next with
    | none => ([], m)
    | some (record, m') =>
      let r := take n m'
      (record :: r.1, r.2)

/-- Removes a partition, unless it still holds records. -/
def close (p : PartitionId) (m : Merger α) : Except Fault Bool × Merger α :=
  match m.lane? p with
  | none => (.error (.partitionNotOpen p), m)
  | some lane =>
    if lane.queue.isEmpty then (.ok true, { m with lanes := m.lanes.erase p })
    else (.ok false, m)

/-- Lets a partition no longer hold back the others while it is empty. -/
def disable (p : PartitionId) (m : Merger α) : Except Fault Unit × Merger α :=
  match m.lane? p with
  | none => (.error (.partitionNotOpen p), m)
  | some _ => (.ok (), { m with lanes := m.lanes.adjust p .disable })

def partitions (m : Merger α) : List PartitionId := m.lanes.ids

def openCount (m : Merger α) : Nat := m.lanes.size

def isOpen (m : Merger α) (p : PartitionId) : Bool := (m.lane? p).isSome

def isDisabled (m : Merger α) (p : PartitionId) : Bool := (m.lane? p).any (!·.enabled)

def bufferedIn (m : Merger α) (p : PartitionId) : Option Nat := (m.lane? p).map (·.queue.length)

def allDisabled (m : Merger α) : Bool := m.lanes.entries.all (!·.2.enabled)

/-- Disabled partitions that hold no records. -/
def drainedDisabled (m : Merger α) : List PartitionId :=
  (m.lanes.entries.filter fun e => !e.2.enabled && e.2.queue.isEmpty).map (·.1)

/-- Closes every disabled partition that holds no records. -/
def closeDrained (m : Merger α) : Merger α :=
  { m with lanes := m.lanes.retain fun l => l.enabled || !l.queue.isEmpty }

def disableAll (m : Merger α) : Merger α := { m with lanes := m.lanes.mapValues .disable }

def describe (m : Merger α) : String :=
  let part (e : PartitionId × Lane α) : String :=
    s!"p{e.1}:{e.2.queue.length}" ++ if e.2.enabled then "" else "(disabled)"
  s!"MergeEngine \x7b watermark: {m.watermark}, " ++
    ", ".intercalate (m.lanes.entries.map part) ++ " \x7d"

end Merger

end TimeMerge
