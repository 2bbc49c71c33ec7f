import TimeMerge.Proofs.Order
import TimeMerge.Proofs.Rounds

/-!
# What inputs supply

Of what reading an input gives, the records that have a timestamp are its entries; the rest is skipped.
Where a slot stands is tied to the books of the merger: the entries of its input are those that were
taken for its partition, followed by those that it has still to give.
-/
namespace TimeMerge

/-- An input that gives records and malformed ones, and then ends. -/
structure Inlet.Regular (inlet : Inlet α) : Prop where
  ends : inlet.failure = none
  yields : ∀ r ∈ inlet.upcoming, (∃ record, r = .ok (some record)) ∨ ∃ d, r = .error (.malformed d)

theorem Inlet.regular_ofRecords (records : List α) : (Inlet.ofRecords records).Regular where
  ends := rfl
  yields := by
    intro r hr
    obtain ⟨record, _, rfl⟩ := List.mem_map.1 hr
    exact .inl ⟨record, rfl⟩

theorem Inlet.Regular.tail {inlet : Inlet α} {r : Reading α} {rest : List (Reading α)}
    (h : inlet.Regular) (hr : inlet.upcoming = r :: rest) :
    Inlet.Regular { inlet with upcoming := rest } where
  ends := h.ends
  yields := fun r' hm => h.yields r' (hr ▸ List.mem_cons_of_mem _ hm)

variable [Record α]

/-- A rule that, where it finds no timestamp, finds a malformed record and nothing worse. -/
def KeyRule.Mild (rule : KeyRule α) : Prop :=
  ∀ record fault, rule.timestamp record = .error fault → ∃ d, fault = .malformed d

theorem KeyRule.mild_of_find {rule : KeyRule α}
    (h : ∀ record fault, rule.find record = .error fault → ∃ d, fault = .malformed d) :
    rule.Mild := by
  intro record fault he
  simp only [KeyRule.timestamp] at he
  cases hf : rule.find record with
  | error fault' =>
    simp only [hf, Except.error.injEq] at he
    exact he ▸ h record fault' hf
  | ok ts =>
    simp only [hf] at he
    split at he
    · exact ⟨_, (Except.error.inj he).symm⟩
    · cases he

/-- Rules that look at one field are mild. -/
theorem KeySpec.mild (spec : KeySpec) : (spec.rule : KeyRule α).Mild := by
  have hcell : ∀ (cell : Cell) (fault : Fault),
      (KeyRule.ofCell cell).mapError .malformed = .error fault → ∃ d, fault = .malformed d := by
    intro cell fault h
    cases hc : KeyRule.ofCell cell with
    | error d =>
      rw [hc] at h
      exact ⟨d, (Except.error.inj h).symm⟩
    | ok ts =>
      rw [hc] at h
      cases h
  refine KeyRule.mild_of_find fun record fault h => ?_
  cases spec with
  | position index =>
    simp only [KeySpec.rule, KeyRule.find] at h
    split at h
    · exact ⟨_, (Except.error.inj h).symm⟩
    · exact hcell _ _ h
  | named name =>
    simp only [KeySpec.rule, KeyRule.find] at h
    split at h
    · exact ⟨_, (Except.error.inj h).symm⟩
    · exact hcell _ _ h

namespace Policy

/-- The timestamp and the record, where reading gave a record that has one. -/
def key? (policy : Policy α) : Reading α → Option (Timestamp × α)
  | .ok (some record) =>
    match policy.rule.timestamp record with
    | .ok ts => some (ts, record)
    | .error _ => none
  | _ => none

def entries (policy : Policy α) (p : PartitionId) (rs : List (Reading α)) : List (Entry α) :=
  (rs.filterMap policy.key?).map fun x => ⟨p, x.1, x.2⟩

/-- The entries of all inputs, one input after the other. -/
def extract (policy : Policy α) (inlets : List (PartitionId × Inlet α)) : List (Entry α) :=
  inlets.flatMap fun x => policy.entries x.1 x.2.upcoming

/-- How much of what reading gives is skipped. -/
def skips (policy : Policy α) (inlets : List (PartitionId × Inlet α)) : Nat :=
  (inlets.flatMap (·.2.upcoming)).countP fun r => (policy.key? r).isNone

variable {policy : Policy α} {p : PartitionId} {r : Reading α} {rs : List (Reading α)}

theorem entries_cons_of_some {x : Timestamp × α} (h : policy.key? r = some x) :
    policy.entries p (r :: rs) = ⟨p, x.1, x.2⟩ :: policy.entries p rs := by
  rw [entries, List.filterMap_cons_some h, List.map_cons, entries]

theorem entries_cons_of_none (h : policy.key? r = none) :
    policy.entries p (r :: rs) = policy.entries p rs := by
  rw [entries, List.filterMap_cons_none h, entries]

theorem partition_of_mem_entries {e : Entry α} (h : e ∈ policy.entries p rs) :
    e.partition = p := by
  obtain ⟨x, _, rfl⟩ := List.mem_map.1 h
  rfl

theorem mem_of_mem_entries {e : Entry α} (h : e ∈ policy.entries p rs) :
    .ok (some e.record) ∈ rs := by
  obtain ⟨x, hx, rfl⟩ := List.mem_map.1 h
  obtain ⟨r, hr, hkey⟩ := List.mem_filterMap.1 hx
  unfold key? at hkey
  split at hkey
  · split at hkey
    · cases hkey
      exact hr
    · cases hkey
  · cases hkey

theorem entries_filter (q : PartitionId) :
    (policy.entries p rs).filter (·.partition = q) = if p = q then policy.entries p rs else [] := by
  by_cases h : p = q
  · rw [if_pos h, List.filter_eq_self]
    intro e he
    simp [partition_of_mem_entries he, h]
  · rw [if_neg h, List.filter_eq_nil_iff]
    intro e he
    simp [partition_of_mem_entries he, h]

variable {inlets : List (PartitionId × Inlet α)}

/-- Nothing comes for a partition that no input has. -/
theorem extract_filter_of_not_mem (h : p ∉ inlets.map (·.1)) :
    (policy.extract inlets).filter (·.partition = p) = [] :=
  filter_flatMap_of_not_mem (fun _ _ => partition_of_mem_entries) h

/-- With one input for each partition, what comes for the partition is what its input gives. -/
theorem extract_filter (hn : (inlets.map (·.1)).Nodup) {x : PartitionId × Inlet α}
    (hx : x ∈ inlets) :
    (policy.extract inlets).filter (·.partition = x.1) = policy.entries x.1 x.2.upcoming :=
  filter_flatMap_of_nodup (g := (·.1)) (fun _ _ => partition_of_mem_entries) hn hx

theorem length_entries_add (policy : Policy α) (p : PartitionId) (rs : List (Reading α)) :
    (policy.entries p rs).length + rs.countP (fun r => (policy.key? r).isNone) = rs.length := by
  have hnot : ∀ r : Reading α, (policy.key? r).isNone = !(policy.key? r).isSome := by
    intro r
    cases policy.key? r <;> rfl
  have hsum := List.length_eq_countP_add_countP (fun r => (policy.key? r).isSome) (l := rs)
  rw [entries, List.length_map, List.length_filterMap_eq_countP, hsum]
  simp only [hnot, Bool.not_eq_true, Bool.decide_eq_false]

/-- Whatever is read is an entry or is skipped. -/
theorem length_extract_add_skips (policy : Policy α) (inlets : List (PartitionId × Inlet α)) :
    (policy.extract inlets).length + policy.skips inlets =
      (inlets.map fun x => x.2.upcoming.length).sum := by
  induction inlets with
  | nil => rfl
  | cons y inlets ih =>
    have hy := policy.length_entries_add y.1 y.2.upcoming
    simp only [extract, skips, List.flatMap_cons, List.length_append, List.countP_append,
      List.map_cons, List.sum_cons] at ih ⊢
    omega

end Policy

/-- Inputs that each have a partition of their own, with nothing worse than malformed records. -/
structure Tame (policy : Policy α) (inlets : List (PartitionId × Inlet α)) : Prop where
  distinct : (inlets.map (·.1)).Nodup
  regular : ∀ x ∈ inlets, x.2.Regular
  mild : policy.rule.Mild

/-- Inputs that can be merged into one ordered stream: each has a partition of its own, nothing worse
than a malformed record comes up, and none goes back in time where that is checked. -/
structure Orderly (policy : Policy α) (inlets : List (PartitionId × Inlet α)) : Prop where
  distinct : (inlets.map (·.1)).Nodup
  regular : ∀ x ∈ inlets, x.2.Regular
  mild : policy.rule.Mild
  ascending : policy.checkOrder = true → ∀ x ∈ inlets,
    (Ledger.timestamps (policy.entries x.1 x.2.upcoming)).Pairwise (· ≤ ·)

theorem Orderly.tame {policy : Policy α} {inlets : List (PartitionId × Inlet α)}
    (h : Orderly policy inlets) : Tame policy inlets :=
  ⟨h.distinct, h.regular, h.mild⟩

/-- What an input in order gives next is not before what was taken for its partition last. -/
theorem Orderly.le_next {policy : Policy α} {inlets : List (PartitionId × Inlet α)}
    {l : Ledger α} {x : PartitionId × Inlet α} {e : Entry α} {es : List (Entry α)} {t : Timestamp}
    (h : Orderly policy inlets) (hx : x ∈ inlets) (hc : policy.checkOrder = true)
    (hs : policy.entries x.1 x.2.upcoming = l.acceptedOn x.1 ++ e :: es)
    (ht : l.latest? x.1 = some t) : t ≤ e.timestamp := by
  rw [Ledger.latest?] at ht
  obtain ⟨f, hf, rfl⟩ := Option.map_eq_some_iff.1 ht
  have hasc := h.ascending hc x hx
  rw [hs, Ledger.timestamps, List.map_append, List.pairwise_append] at hasc
  exact hasc.2.2 _ (List.mem_map_of_mem (List.mem_of_getLast? hf)) _ List.mem_cons_self

namespace Slot

/-- What the input of a slot has still to give. -/
def upcoming (slot : Slot α) : List (Reading α) :=
  match slot.phase with
  | .reading inlet => inlet.upcoming
  | _ => []

/-- The standing of the partition that a slot implies: enabled while its input is read, open until it
is closed. -/
def standing (slot : Slot α) : Option Bool :=
  match slot.phase with
  | .reading _ => some true
  | .exhausted _ => some false
  | .closed => none

omit [Record α] in
theorem standing_eq_none_iff {slot : Slot α} : slot.standing = none ↔ slot.isClosed = true := by
  obtain ⟨p, phase⟩ := slot
  cases phase <;> simp [standing, isClosed]

omit [Record α] in
theorem standing_eq_true_iff {slot : Slot α} : slot.standing = some true ↔ slot.isReading = true := by
  obtain ⟨p, phase⟩ := slot
  cases phase <;> simp [standing, isReading]

/-- The slot of an input, in step with the books. -/
structure Follows (policy : Policy α) (l : Ledger α) (x : PartitionId × Inlet α) (slot : Slot α) :
    Prop where
  partition : slot.partition = x.1
  aligned : l.merger.standing x.1 = slot.standing
  supply : policy.entries x.1 x.2.upcoming = l.acceptedOn x.1 ++ policy.entries x.1 slot.upcoming
  regular : ∀ inlet, slot.phase = .reading inlet → inlet.Regular

variable {policy : Policy α} {l l' : Ledger α} {x : PartitionId × Inlet α} {slot : Slot α}

/-- What happens to other partitions does not concern a slot. -/
theorem Follows.frame (h : slot.Follows policy l x)
    (hs : l'.merger.standing x.1 = l.merger.standing x.1)
    (ha : l'.acceptedOn x.1 = l.acceptedOn x.1) : slot.Follows policy l' x where
  partition := h.partition
  aligned := hs.trans h.aligned
  supply := by rw [ha, h.supply]
  regular := h.regular

end Slot

end TimeMerge
