import TimeMerge.Merger
import TimeMerge.Proofs.Table

/-!
# What a merger holds

A merger is read through the lanes that `lane?` finds and through what is `queued` in them. Its
operations come down to four changes: a record arrives at the end of a lane, departs from the
front of one, and a lane is unblocked or shut. What each change does to the lanes is said here, once.
-/
namespace TimeMerge

/-- A record, the partition it was added to and its timestamp. -/
structure Entry (α : Type) where
  partition : PartitionId
  timestamp : Timestamp
  record : α
  deriving DecidableEq, Repr

namespace Merger

variable {m m' : Merger α} {p q : PartitionId} {e : Entry α}

theorem ext_lane? (hl : ∀ p, m.lane? p = m'.lane? p) (hw : m.watermark = m'.watermark)
    (hb : m.buffered = m'.buffered) : m = m' := by
  have hlanes : m.lanes = m'.lanes := Table.ext_get? hl
  obtain ⟨lanes, watermark, buffered⟩ := m
  obtain ⟨lanes', watermark', buffered'⟩ := m'
  obtain rfl : lanes = lanes' := hlanes
  obtain rfl : watermark = watermark' := hw
  obtain rfl : buffered = buffered' := hb
  rfl

/-- What a partition holds, in the order it came. A partition that is not open holds nothing. -/
def queued (m : Merger α) (p : PartitionId) : List (Entry α) :=
  match m.lane? p with
  | none => []
  | some lane => lane.queue.map fun x => ⟨p, x.1, x.2⟩

theorem queued_of_lane? {lane : Lane α} (h : m.lane? p = some lane) :
    m.queued p = lane.queue.map fun x => ⟨p, x.1, x.2⟩ := by
  simp [queued, h]

theorem queued_of_lane?_none (h : m.lane? p = none) : m.queued p = [] := by
  simp [queued, h]

/-- Lanes that hold the same entries are the same but for their latest and their standing. -/
theorem eq_of_queued_eq {lane lane' : Lane α} (hl : m.lane? p = some lane)
    (hl' : m'.lane? p = some lane') (hq : m.queued p = m'.queued p) (hlast : lane.last = lane'.last)
    (henabled : lane.enabled = lane'.enabled) : lane = lane' := by
  rw [queued_of_lane? hl, queued_of_lane? hl'] at hq
  have hinj : Function.Injective fun x : Timestamp × α => (⟨p, x.1, x.2⟩ : Entry α) := by
    rintro ⟨t, r⟩ ⟨t', r'⟩ h
    cases h
    rfl
  obtain ⟨queue, last, enabled⟩ := lane
  obtain ⟨queue', last', enabled'⟩ := lane'
  obtain rfl : queue = queue' := hinj.list_map hq
  obtain rfl : last = last' := hlast
  obtain rfl : enabled = enabled' := henabled
  rfl

theorem partition_of_mem_queued (h : e ∈ m.queued p) : e.partition = p := by
  simp only [queued] at h
  split at h
  · simp at h
  · obtain ⟨x, _, rfl⟩ := List.mem_map.1 h
    rfl

/-- Whether a partition is open and may still hold back the others. -/
def isEnabled (m : Merger α) (p : PartitionId) : Bool := (m.lane? p).any (·.enabled)

theorem isEnabled_of_lane? {lane : Lane α} (h : m.lane? p = some lane) :
    m.isEnabled p = lane.enabled := by
  simp [isEnabled, h]

/-- Whether an open partition is enabled; one that is not open has no standing. -/
def standing (m : Merger α) (p : PartitionId) : Option Bool := (m.lane? p).map (·.enabled)

theorem standing_eq_none : m.standing p = none ↔ m.lane? p = none := Option.map_eq_none_iff

theorem standing_eq_some {b : Bool} :
    m.standing p = some b ↔ ∃ lane, m.lane? p = some lane ∧ lane.enabled = b :=
  Option.map_eq_some_iff

theorem isEnabled_eq (m : Merger α) (p : PartitionId) :
    m.isEnabled p = (m.standing p == some true) := by
  simp only [isEnabled, standing]
  cases m.lane? p with
  | none => rfl
  | some lane => simp

theorem isEnabled_iff_standing : m.isEnabled p = true ↔ m.standing p = some true := by
  rw [isEnabled_eq, beq_iff_eq]

theorem isOpen_eq (m : Merger α) (p : PartitionId) : m.isOpen p = (m.standing p).isSome := by
  rw [isOpen, standing, Option.isSome_map]

theorem isDisabled_eq (m : Merger α) (p : PartitionId) :
    m.isDisabled p = (m.standing p == some false) := by
  simp only [isDisabled, standing]
  cases m.lane? p with
  | none => rfl
  | some lane => cases he : lane.enabled <;> simp [he]

theorem blocked_iff : m.blocked = true ↔ ∃ p, m.isEnabled p = true ∧ m.queued p = [] := by
  simp only [blocked, List.any_eq_true, Prod.exists, Table.mem_entries_iff, Lane.blocks,
    Bool.and_eq_true, List.isEmpty_iff]
  constructor
  · rintro ⟨p, lane, hl, he, hq⟩
    have hl : m.lane? p = some lane := hl
    exact ⟨p, by rw [isEnabled_of_lane? hl, he], by rw [queued_of_lane? hl, hq, List.map_nil]⟩
  · rintro ⟨p, he, hq⟩
    cases hl : m.lane? p with
    | none => simp [isEnabled, hl] at he
    | some lane =>
      rw [isEnabled_of_lane? hl] at he
      rw [queued_of_lane? hl, List.map_eq_nil_iff] at hq
      exact ⟨p, lane, hl, he, hq⟩

def arrive (e : Entry α) (m : Merger α) : Merger α where
  lanes := m.lanes.adjust e.partition (.push e.timestamp e.record)
  watermark := m.watermark
  buffered := m.buffered + 1

/-- The timestamp of what departs is the new watermark. -/
def depart (e : Entry α) (m : Merger α) : Merger α where
  lanes := m.lanes.adjust e.partition .drop
  watermark := e.timestamp
  buffered := m.buffered - 1

def unblock (p : PartitionId) (m : Merger α) : Merger α :=
  { m with lanes := m.lanes.adjust p .disable }

def shut (p : PartitionId) (m : Merger α) : Merger α := { m with lanes := m.lanes.erase p }

@[simp] theorem watermark_arrive : (m.arrive e).watermark = m.watermark := rfl
@[simp] theorem watermark_depart : (m.depart e).watermark = e.timestamp := rfl
@[simp] theorem watermark_unblock : (m.unblock p).watermark = m.watermark := rfl
@[simp] theorem watermark_shut : (m.shut p).watermark = m.watermark := rfl
@[simp] theorem buffered_arrive : (m.arrive e).buffered = m.buffered + 1 := rfl
@[simp] theorem buffered_depart : (m.depart e).buffered = m.buffered - 1 := rfl
@[simp] theorem buffered_unblock : (m.unblock p).buffered = m.buffered := rfl
@[simp] theorem buffered_shut : (m.shut p).buffered = m.buffered := rfl

theorem lane?_ofPartitions (ids : List PartitionId) (p : PartitionId) :
    (ofPartitions ids : Merger α).lane? p = if p ∈ ids then some {} else none :=
  Table.get?_ofIds ..

theorem lane?_arrive (m : Merger α) (e : Entry α) (q : PartitionId) : (m.arrive e).lane? q =
    (m.lane? q).map fun l => if q = e.partition then l.push e.timestamp e.record else l :=
  Table.get?_adjust ..

theorem lane?_depart (m : Merger α) (e : Entry α) (q : PartitionId) : (m.depart e).lane? q =
    (m.lane? q).map fun l => if q = e.partition then l.drop else l :=
  Table.get?_adjust ..

theorem lane?_unblock (m : Merger α) (p q : PartitionId) : (m.unblock p).lane? q =
    (m.lane? q).map fun l => if q = p then l.disable else l :=
  Table.get?_adjust ..

theorem lane?_shut (m : Merger α) (p q : PartitionId) :
    (m.shut p).lane? q = if q = p then none else m.lane? q :=
  Table.get?_erase ..

theorem queued_ofPartitions (ids : List PartitionId) (p : PartitionId) :
    (ofPartitions ids : Merger α).queued p = [] := by
  simp only [queued, lane?_ofPartitions]
  by_cases h : p ∈ ids <;> simp [h]

theorem queued_arrive (h : (m.lane? e.partition).isSome) (q : PartitionId) :
    (m.arrive e).queued q = if q = e.partition then m.queued q ++ [e] else m.queued q := by
  simp only [queued, lane?_arrive]
  by_cases hq : q = e.partition
  · obtain ⟨lane, hl⟩ := Option.isSome_iff_exists.1 h
    subst q
    simp [hl, Lane.push]
  · cases m.lane? q <;> simp [hq]

theorem queued_depart (m : Merger α) (e : Entry α) (q : PartitionId) :
    (m.depart e).queued q = if q = e.partition then (m.queued q).tail else m.queued q := by
  simp only [queued, lane?_depart]
  by_cases hq : q = e.partition <;> cases m.lane? q <;> simp [hq, Lane.drop, List.map_tail]

theorem queued_unblock (m : Merger α) (p q : PartitionId) :
    (m.unblock p).queued q = m.queued q := by
  simp only [queued, lane?_unblock]
  by_cases hq : q = p <;> cases m.lane? q <;> simp [hq, Lane.disable]

theorem queued_shut (h : m.queued p = []) (q : PartitionId) :
    (m.shut p).queued q = m.queued q := by
  by_cases hq : q = p
  · subst q
    rw [h, queued_of_lane?_none (by rw [lane?_shut, if_pos rfl])]
  · simp only [queued, lane?_shut, if_neg hq]

theorem standing_ofPartitions (ids : List PartitionId) (p : PartitionId) :
    (ofPartitions ids : Merger α).standing p = if p ∈ ids then some true else none := by
  simp only [standing, lane?_ofPartitions]
  by_cases h : p ∈ ids <;> simp [h]

@[simp] theorem standing_arrive : (m.arrive e).standing q = m.standing q := by
  simp only [standing, lane?_arrive]
  by_cases hq : q = e.partition <;> cases m.lane? q <;> simp [hq, Lane.push]

@[simp] theorem standing_depart : (m.depart e).standing q = m.standing q := by
  simp only [standing, lane?_depart]
  by_cases hq : q = e.partition <;> cases m.lane? q <;> simp [hq, Lane.drop]

theorem standing_unblock (m : Merger α) (p q : PartitionId) : (m.unblock p).standing q =
    if q = p then (m.standing q).map fun _ => false else m.standing q := by
  simp only [standing, lane?_unblock]
  by_cases hq : q = p <;> cases m.lane? q <;> simp [hq, Lane.disable]

theorem standing_shut (m : Merger α) (p q : PartitionId) :
    (m.shut p).standing q = if q = p then none else m.standing q := by
  simp only [standing, lane?_shut]
  by_cases hq : q = p <;> simp [hq]

@[simp] theorem isEnabled_arrive : (m.arrive e).isEnabled q = m.isEnabled q := by
  rw [isEnabled_eq, standing_arrive, isEnabled_eq]

@[simp] theorem isEnabled_depart : (m.depart e).isEnabled q = m.isEnabled q := by
  rw [isEnabled_eq, standing_depart, isEnabled_eq]

theorem isEnabled_unblock (m : Merger α) (p q : PartitionId) :
    (m.unblock p).isEnabled q = if q = p then false else m.isEnabled q := by
  rw [isEnabled_eq, standing_unblock, isEnabled_eq]
  by_cases hq : q = p <;> cases m.standing q <;> simp [hq]

theorem isEnabled_shut (m : Merger α) (p q : PartitionId) :
    (m.shut p).isEnabled q = if q = p then false else m.isEnabled q := by
  rw [isEnabled_eq, standing_shut, isEnabled_eq]
  by_cases hq : q = p <;> simp [hq]

theorem openCount_eq_zero_iff : m.openCount = 0 ↔ ∀ p, m.standing p = none := by
  simp only [standing_eq_none]
  constructor
  · intro h p
    have hn : m.lanes.entries = [] := List.length_eq_zero_iff.1 h
    rw [lane?, Table.get?, hn, List.lookup_nil]
  · intro h
    refine List.length_eq_zero_iff.2 (List.eq_nil_iff_forall_not_mem.2 ?_)
    rintro ⟨p, lane⟩ hm
    have hl : m.lane? p = some lane := Table.mem_entries_iff.1 hm
    simp [h p] at hl

theorem size_eq_sum (m : Merger α) : m.size = (m.partitions.filterMap m.bufferedIn).sum := by
  have hb : ∀ x ∈ m.lanes.entries, m.bufferedIn x.1 = some x.2.queue.length := by
    intro x hx
    have hl : m.lane? x.1 = some x.2 := Table.mem_entries_iff.1 hx
    rw [bufferedIn, hl, Option.map_some]
  rw [size, Table.total_eq_sum, partitions, Table.ids, List.filterMap_map]
  rw [List.filterMap_congr (g := fun x => some x.2.queue.length) hb, List.filterMap_eq_map']

/-- With nothing queued anywhere there is nothing to count. -/
theorem size_eq_zero (h : ∀ p, m.queued p = []) : m.size = 0 := by
  rw [size, Table.total_eq_sum, List.sum_eq_zero_iff_forall_eq_nat]
  intro n hn
  obtain ⟨⟨p, lane⟩, hm, rfl⟩ := List.mem_map.1 hn
  have hq := h p
  rw [queued_of_lane? (Table.mem_entries_iff.1 hm), List.map_eq_nil_iff] at hq
  exact List.length_eq_zero_iff.2 hq

theorem size_ofPartitions (ids : List PartitionId) : (ofPartitions ids : Merger α).size = 0 :=
  size_eq_zero (queued_ofPartitions ids)

theorem size_arrive (h : (m.lane? e.partition).isSome) : (m.arrive e).size = m.size + 1 := by
  obtain ⟨lane, hl⟩ := Option.isSome_iff_exists.1 h
  have := Table.total_adjust hl (Lane.push e.timestamp e.record) (·.queue.length)
  simp only [Lane.push, List.length_append, List.length_singleton] at this
  simp only [size, arrive]
  omega

theorem size_depart (h : e ∈ m.queued e.partition) : (m.depart e).size + 1 = m.size := by
  cases hl : m.lane? e.partition with
  | none => simp [queued_of_lane?_none hl] at h
  | some lane =>
    rw [queued_of_lane? hl] at h
    have hpos : 0 < lane.queue.length := by
      obtain ⟨x, hx, _⟩ := List.mem_map.1 h
      exact List.length_pos_of_mem hx
    have := Table.total_adjust hl Lane.drop (·.queue.length)
    simp only [Lane.drop, List.length_tail] at this
    simp only [size, depart]
    omega

theorem size_unblock (m : Merger α) (p : PartitionId) : (m.unblock p).size = m.size := by
  simp only [size, unblock]
  exact Table.total_adjust_of_eq (g := Lane.disable) (fun _ => rfl) m.lanes p

theorem size_shut {lane : Lane α} (hl : m.lane? p = some lane) (h : lane.queue = []) :
    (m.shut p).size = m.size := by
  have := Table.total_erase hl (·.queue.length)
  simp only [h, List.length_nil, Nat.add_zero] at this
  simpa only [size, shut] using this

theorem close_eq_true_iff : m.close p = (.ok true, m') ↔
    ∃ lane, m.lane? p = some lane ∧ lane.queue = [] ∧ m.shut p = m' := by
  simp only [close]
  cases hl : m.lane? p with
  | none => simp
  | some lane =>
    by_cases hq : lane.queue = []
    · simp [hq, shut]
    · simp [hq]

theorem close_eq_false_iff : m.close p = (.ok false, m') ↔
    m.queued p ≠ [] ∧ m = m' := by
  simp only [close]
  cases hl : m.lane? p with
  | none => simp [queued_of_lane?_none hl]
  | some lane =>
    rw [queued_of_lane? hl]
    by_cases hq : lane.queue = []
    · simp [hq]
    · simp [hq]

theorem close_eq_error_iff {fault : Fault} : m.close p = (.error fault, m') ↔
    m.lane? p = none ∧ fault = .partitionNotOpen p ∧ m = m' := by
  simp only [close]
  cases hl : m.lane? p with
  | none => simp [eq_comm]
  | some lane => by_cases hq : lane.queue = [] <;> simp [hq]

theorem disable_eq_ok_iff : m.disable p = (.ok (), m') ↔
    (m.lane? p).isSome ∧ m.unblock p = m' := by
  simp only [disable]
  cases m.lane? p <;> simp [unblock]

theorem disable_eq_error_iff {fault : Fault} : m.disable p = (.error fault, m') ↔
    m.lane? p = none ∧ fault = .partitionNotOpen p ∧ m = m' := by
  simp only [disable]
  cases m.lane? p <;> simp [eq_comm]

variable [Record α] {policy : Policy α} {record : α}

theorem add_of_error {lane : Lane α} {fault : Fault} (hl : m.lane? p = some lane)
    (h : policy.rule.timestamp record = .error fault) :
    m.add policy p record = (.error fault, m) := by
  simp only [add, hl, h]

theorem add_of_back {lane : Lane α} {previous ts : Timestamp} (hl : m.lane? p = some lane)
    (hk : policy.rule.timestamp record = .ok ts) (hc : policy.checkOrder = true)
    (hp : lane.last = some previous) (hlt : ts < previous) :
    m.add policy p record = (.error (.outOfOrder p previous ts), m) := by
  simp only [add, hl, hk, hp, hlt, hc, and_self, if_true]

/-- A record is refused by a partition that is not open, or that it has no timestamp for, or where it
goes back and that is checked. Then all is as it was. -/
theorem add_eq_error_iff {fault : Fault} : m.add policy p record = (.error fault, m') ↔
    (m.lane? p = none ∧ fault = .partitionNotOpen p ∨
      ∃ lane, m.lane? p = some lane ∧ (policy.rule.timestamp record = .error fault ∨
        ∃ previous ts, policy.rule.timestamp record = .ok ts ∧ policy.checkOrder = true ∧
          lane.last = some previous ∧ ts < previous ∧ fault = .outOfOrder p previous ts)) ∧
      m = m' := by
  constructor
  · intro h
    simp only [add] at h
    cases hl : m.lane? p with
    | none =>
      simp only [hl] at h
      cases h
      exact ⟨.inl ⟨rfl, rfl⟩, rfl⟩
    | some lane =>
      cases ht : policy.rule.timestamp record with
      | error e =>
        simp only [hl, ht] at h
        cases h
        exact ⟨.inr ⟨lane, rfl, .inl rfl⟩, rfl⟩
      | ok ts =>
        simp only [hl, ht] at h
        split at h
        · cases h
        · rename_i previous hlast
          split at h
          · rename_i hback
            cases h
            exact ⟨.inr ⟨lane, rfl, .inr ⟨previous, ts, rfl, hback.2, hlast, hback.1, rfl⟩⟩, rfl⟩
          · cases h
  · rintro ⟨⟨hl, rfl⟩ | ⟨lane, hl, hrule | ⟨previous, ts, hk, hc, hlast, hlt, rfl⟩⟩, rfl⟩
    · simp only [add, hl]
    · exact add_of_error hl hrule
    · exact add_of_back hl hk hc hlast hlt

/-- A record that is refused changes nothing. -/
theorem eq_of_add_error {fault : Fault} (h : m.add policy p record = (.error fault, m')) : m = m' :=
  (add_eq_error_iff.1 h).2

theorem add_eq_error {lane : Lane α} {fault : Fault} (hl : m.lane? p = some lane)
    (h : m.add policy p record = (.error fault, m')) :
    policy.rule.timestamp record = .error fault ∨
      ∃ previous ts, fault = .outOfOrder p previous ts := by
  rcases add_eq_error_iff.1 h with ⟨⟨hnone, _⟩ | ⟨_, _, hrule | ⟨previous, ts, _, _, _, _, hback⟩⟩, _⟩
  · cases hl.symm.trans hnone
  · exact .inl hrule
  · exact .inr ⟨previous, ts, hback⟩

/-- A record that is taken has a timestamp, which does not go back where that is checked. -/
theorem add_eq_ok_iff : m.add policy p record = (.ok (), m') ↔
    ∃ lane ts, m.lane? p = some lane ∧ policy.rule.timestamp record = .ok ts ∧
      (policy.checkOrder = true → ∀ t ∈ lane.last, t ≤ ts) ∧ m.arrive ⟨p, ts, record⟩ = m' := by
  simp only [add]
  cases hl : m.lane? p with
  | none => simp
  | some lane =>
    cases ht : policy.rule.timestamp record with
    | error e => simp
    | ok ts =>
      cases hp : lane.last with
      | none => simp [hp, arrive]
      | some previous =>
        have hback : (ts < previous ∧ policy.checkOrder = true) ↔
            ¬(policy.checkOrder = true → previous ≤ ts) := by
          rw [Classical.not_imp, Int.not_le, and_comm]
        by_cases hb : ts < previous ∧ policy.checkOrder = true
        · simpa [if_pos hb, hp] using fun h => absurd h (hback.1 hb)
        · simpa [if_neg hb, hp, arrive] using fun _ => Classical.not_not.1 (mt hback.2 hb)

end Merger

end TimeMerge
