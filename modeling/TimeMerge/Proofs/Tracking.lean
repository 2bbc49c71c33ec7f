import TimeMerge.Proofs.Delivery
import TimeMerge.Proofs.Supply

/-!
# An intake and its books

An intake changes its slots and its merger by separate acts: it takes a look at a slot, records arrive
and depart, partitions are unblocked and shut. After each act together with what belongs to it the slots
are in step with the books again, which is what the lemmas here say, one for each.
-/
namespace TimeMerge

/-- No two inputs have the same partition. -/
theorem index_eq {β : Type} {xs : List (PartitionId × β)} {x y : PartitionId × β} {i j : Nat}
    (hn : (xs.map (·.1)).Nodup) (hx : xs[i]? = some x) (hy : xs[j]? = some y) (h : x.1 = y.1) :
    i = j := by
  have hi : i < (xs.map (·.1)).length := by
    rw [List.length_map]
    exact (List.getElem?_eq_some_iff.1 hx).1
  refine (List.getElem?_inj hi hn).1 ?_
  rw [List.getElem?_map, List.getElem?_map, hx, hy, Option.map_some, Option.map_some, h]

namespace Intake

variable {s s' : Intake α} {i : Nat} {slot b : Slot α}

theorem outstanding_eq_sum (s : Intake α) :
    s.outstanding = (s.slots.map Slot.outstanding).sum := by
  rw [outstanding, List.sum_eq_foldr, List.foldr_map]

/-- Every input has still to be closed at the start. -/
theorem live_ofInlets (inlets : List (PartitionId × Inlet α)) :
    (ofInlets inlets).live = inlets.length := by
  have hone : ∀ x : PartitionId × Inlet α, (⟨x.1, .reading x.2⟩ : Slot α).live = 1 := fun _ => rfl
  simp [ofInlets, live, Function.comp_def, hone]

/-- Moves on from the slot at `i`, which is `b` now. -/
def visit (i : Nat) (b : Slot α) (s : Intake α) : Intake α :=
  { s with slots := s.slots.set i b, cursor := (i + 1) % s.slots.length }

/-- Moves on from the input at `i`, of which one more outcome has been read. -/
def advance (i : Nat) (p : PartitionId) (inlet : Inlet α) (rest : List (Reading α)) (s : Intake α) :
    Intake α :=
  s.visit i ⟨p, .reading { inlet with upcoming := rest }⟩

/-- Counts a record as read, with the merger that has taken it. -/
def takeIn (m : Merger α) (s : Intake α) : Intake α :=
  { s with merger := m, stats.read := s.stats.read + 1 }

/-- Closes the partition of the input at `i`. -/
def retire (i : Nat) (p : PartitionId) (s : Intake α) : Intake α :=
  { s with
    merger := s.merger.shut p, slots := s.slots.set i ⟨p, .closed⟩,
    stats.closed := s.stats.closed + 1 }

/-- Lets go whatever may go. -/
def settle (s : Intake α) : Intake α :=
  { s with
    merger := s.merger.drain.2, stats.forwarded := s.stats.forwarded + s.merger.drain.1.length }

theorem visited_visit (h : s.nextLive = some (i, slot)) (b : Slot α) :
    s.Visited (s.visit i b) i slot b where
  chosen := h
  slots := rfl
  cursor := rfl

variable [Record α]

/-- An intake is in step with the books of its merger. -/
structure Tracks (policy : Policy α) (inlets : List (PartitionId × Inlet α)) (l : Ledger α)
    (s : Intake α) : Prop where
  merger : l.merger = s.merger
  steps : Ledger.Steps policy (·.enabled = true) (.opening (inlets.map (·.1))) l
  length : s.slots.length = inlets.length
  follows : ∀ (i : Nat) (x : PartitionId × Inlet α) (slot : Slot α),
    inlets[i]? = some x → s.slots[i]? = some slot → slot.Follows policy l x
  read : s.stats.read = l.accepted.length
  consumed : s.stats.read + s.stats.malformed + s.outstanding =
    (inlets.map fun x => x.2.upcoming.length).sum
  closed : s.stats.closed + s.live = inlets.length

variable {policy : Policy α} {inlets : List (PartitionId × Inlet α)} {l l' : Ledger α}
  {x : PartitionId × Inlet α}

theorem tracks_ofInlets (h : Tame policy inlets) :
    Tracks policy inlets (.opening (inlets.map (·.1))) (ofInlets inlets) where
  merger := rfl
  steps := .refl
  length := List.length_map _
  follows := by
    intro i x slot hx hslot
    simp only [ofInlets, List.getElem?_map, hx, Option.map_some, Option.some.injEq] at hslot
    subst slot
    have hm := List.mem_of_getElem? hx
    constructor
    · rfl
    · rw [Ledger.merger_opening, Merger.standing_ofPartitions, if_pos (List.mem_map_of_mem hm)]
      rfl
    · rfl
    · intro inlet hi
      cases hi
      exact h.regular x hm
  read := rfl
  consumed := by
    simp only [ofInlets, outstanding_eq_sum, List.map_map, Nat.zero_add]
    rfl
  closed := (Nat.zero_add _).trans (live_ofInlets inlets)

theorem Tracks.balanced (t : Tracks policy inlets l s) : l.Balanced policy :=
  (Ledger.balanced_opening _).steps t.steps

theorem Tracks.exists_inlet (t : Tracks policy inlets l s) (h : s.slots[i]? = some slot) :
    ∃ x, inlets[i]? = some x ∧ slot.Follows policy l x := by
  obtain ⟨hi, _⟩ := List.getElem?_eq_some_iff.1 h
  have hlt : i < inlets.length := t.length ▸ hi
  have hx := List.getElem?_eq_getElem hlt
  exact ⟨_, hx, t.follows i _ slot hx h⟩

theorem Tracks.exists_slot_of_mem (t : Tracks policy inlets l s) (hx : x ∈ inlets) :
    ∃ slot ∈ s.slots, slot.Follows policy l x := by
  obtain ⟨i, hi⟩ := List.mem_iff_getElem?.1 hx
  have hlt : i < s.slots.length := t.length ▸ (List.getElem?_eq_some_iff.1 hi).1
  exact ⟨s.slots[i], List.getElem_mem hlt, t.follows i x _ hi (List.getElem?_eq_getElem hlt)⟩

/-- The partition of a slot is open as long as the slot is not closed. -/
theorem Tracks.exists_lane (t : Tracks policy inlets l s) (h : s.slots[i]? = some slot) {enabled : Bool}
    (hs : slot.standing = some enabled) :
    ∃ lane, s.merger.lane? slot.partition = some lane ∧ lane.enabled = enabled := by
  obtain ⟨x, _, hx⟩ := t.exists_inlet h
  rw [← Merger.standing_eq_some, hx.partition, ← t.merger, hx.aligned, hs]

/-- Only partitions of inputs are ever open, and only they take records. -/
theorem Tracks.of_not_mem (t : Tracks policy inlets l s) {p : PartitionId}
    (hp : p ∉ inlets.map (·.1)) : l.merger.standing p = none ∧ l.acceptedOn p = [] := by
  have hclosed : (Ledger.opening (inlets.map (·.1)) : Ledger α).merger.standing p = none := by
    rw [Ledger.merger_opening, Merger.standing_ofPartitions, if_neg hp]
  exact t.steps.of_closed hclosed

theorem Tracks.exists_slot (t : Tracks policy inlets l s) {p : PartitionId} {b : Bool}
    (h : l.merger.standing p = some b) : ∃ slot ∈ s.slots, slot.standing = some b := by
  by_cases hp : p ∈ inlets.map (·.1)
  · obtain ⟨x, hx, rfl⟩ := List.mem_map.1 hp
    obtain ⟨slot, hm, hf⟩ := t.exists_slot_of_mem hx
    exact ⟨slot, hm, hf.aligned.symm.trans h⟩
  · rw [(t.of_not_mem hp).1] at h
    cases h

/-- What changes one slot, and the books for its partition alone, keeps the intake in step if the slot
follows the new books and the counts add up. -/
theorem Tracks.update (t : Tracks policy inlets l s) (hn : (inlets.map (·.1)).Nodup)
    (hx : inlets[i]? = some x) (hslot : s.slots[i]? = some slot)
    (hslots : s'.slots = s.slots.set i b) (merger : l'.merger = s'.merger)
    (steps : Ledger.Steps policy (·.enabled = true) l l')
    (frame : ∀ p, p ≠ x.1 → l'.merger.standing p = l.merger.standing p ∧
      l'.acceptedOn p = l.acceptedOn p)
    (hb : b.Follows policy l' x) (read : s'.stats.read = l'.accepted.length)
    (consumed : s'.stats.read + s'.stats.malformed + b.outstanding =
      s.stats.read + s.stats.malformed + slot.outstanding)
    (closed : s'.stats.closed + b.live = s.stats.closed + slot.live) :
    Tracks policy inlets l' s' where
  merger := merger
  steps := t.steps.trans steps
  length := by rw [hslots, List.length_set, t.length]
  follows := by
    intro j y other hy hother
    rw [hslots, List.getElem?_set] at hother
    by_cases hj : i = j
    · subst j
      rw [hx] at hy
      cases hy
      obtain ⟨hi, _⟩ := List.getElem?_eq_some_iff.1 hslot
      rw [if_pos rfl, if_pos hi] at hother
      cases hother
      exact hb
    · rw [if_neg hj] at hother
      have hne : y.1 ≠ x.1 := fun he => hj (index_eq hn hx hy he.symm)
      obtain ⟨hs, ha⟩ := frame y.1 hne
      exact (t.follows j y other hy hother).frame hs ha
  read := read
  consumed := by
    have hsum := sum_map_set (b := b) hslot Slot.outstanding
    have hc := t.consumed
    rw [outstanding_eq_sum] at hc ⊢
    rw [hslots]
    omega
  closed := by
    have hsum := sum_map_set (b := b) hslot Slot.live
    have hc := t.closed
    simp only [live] at hc ⊢
    rw [hslots]
    omega

/-- Neither the cursor nor the flush enters into the books. -/
theorem Tracks.of_eq (t : Tracks policy inlets l s) (merger : s'.merger = s.merger)
    (slots : s'.slots = s.slots) (stats : s'.stats = s.stats) : Tracks policy inlets l s' where
  merger := t.merger.trans merger.symm
  steps := t.steps
  length := by rw [slots, t.length]
  follows := by
    rw [slots]
    exact t.follows
  read := by rw [stats, t.read]
  consumed := by
    rw [stats, outstanding, slots]
    exact t.consumed
  closed := by
    rw [stats, live, slots]
    exact t.closed

theorem Tracks.settle (t : Tracks policy inlets l s) : Tracks policy inlets l.drain s.settle where
  merger := by rw [Ledger.merger_drain, t.merger, Intake.settle]
  steps := t.steps.trans l.steps_drain
  length := t.length
  follows := fun i x slot hx hslot =>
    (t.follows i x slot hx hslot).frame (l.standing_drain x.1) rfl
  read := t.read
  consumed := t.consumed
  closed := t.closed

section Acts

variable {p : PartitionId} {inlet : Inlet α} {r : Reading α} {rest : List (Reading α)}

/-- Reading something that is no entry changes no books. -/
theorem Tracks.skip (t : Tracks policy inlets l s) (ho : Tame policy inlets)
    (hslot : s.slots[i]? = some ⟨p, .reading inlet⟩) (hr : inlet.upcoming = r :: rest)
    (hk : policy.key? r = none) :
    Tracks policy inlets l (s.advance i p inlet rest).countSkip := by
  obtain ⟨x, hx, hf⟩ := t.exists_inlet hslot
  refine t.update ho.distinct hx hslot rfl t.merger .refl (fun _ _ => ⟨rfl, rfl⟩) ?_ t.read ?_ rfl
  · constructor
    · exact hf.partition
    · exact hf.aligned
    · have hs := hf.supply
      simp only [Slot.upcoming, hr, Policy.entries_cons_of_none hk] at hs
      exact hs
    · intro inlet' hi
      cases hi
      exact (hf.regular inlet rfl).tail hr
  · simp only [Slot.outstanding, hr, List.length_cons, countSkip, advance, visit]
    omega

/-- An entry that is read and does not go back is taken, and arrives in the books. -/
theorem Tracks.arrive (t : Tracks policy inlets l s) (ho : Tame policy inlets) {record : α}
    {ts : Timestamp} (hslot : s.slots[i]? = some ⟨p, .reading inlet⟩)
    (hr : inlet.upcoming = .ok (some record) :: rest)
    (hk : policy.rule.timestamp record = .ok ts)
    (forward : policy.checkOrder = true → ∀ t, l.latest? p = some t → t ≤ ts) :
    s.merger.add policy p record = (.ok (), s.merger.arrive ⟨p, ts, record⟩) ∧
    Tracks policy inlets (l.arrive ⟨p, ts, record⟩)
      ((s.advance i p inlet rest).takeIn (s.merger.arrive ⟨p, ts, record⟩)) := by
  obtain ⟨x, hx, hf⟩ := t.exists_inlet hslot
  have hp : p = x.1 := hf.partition
  subst hp
  have hkey : policy.key? (.ok (some record)) = some (ts, record) := by
    simp only [Policy.key?, hk]
  have hsupply := hf.supply
  simp only [Slot.upcoming, hr, Policy.entries_cons_of_some hkey] at hsupply
  obtain ⟨lane, hl, hen⟩ := Merger.standing_eq_some.1 hf.aligned
  have hforward : policy.checkOrder = true → ∀ t ∈ lane.last, t ≤ ts :=
    fun hc t' ht => forward hc t' (t.balanced.latest _ _ hl ▸ ht)
  constructor
  · rw [← t.merger]
    exact Merger.add_eq_ok_iff.2 ⟨lane, ts, hl, hk, hforward, rfl⟩
  refine t.update ho.distinct hx hslot rfl ?_ (.single (.arrive hl hen hk hforward)) ?_ ?_ ?_ ?_ rfl
  · rw [Ledger.merger_arrive, t.merger]
    rfl
  · intro q hq
    rw [Ledger.merger_arrive, Merger.standing_arrive, Ledger.acceptedOn_arrive, if_neg hq]
    exact ⟨rfl, rfl⟩
  · constructor
    · rfl
    · rw [Ledger.merger_arrive, Merger.standing_arrive]
      exact hf.aligned
    · rw [Ledger.acceptedOn_arrive, if_pos rfl, List.append_assoc]
      exact hsupply
    · intro inlet' hi
      cases hi
      exact (hf.regular inlet rfl).tail hr
  · rw [Ledger.accepted_arrive, List.length_append, ← t.read]
    rfl
  · simp only [Slot.outstanding, hr, List.length_cons, takeIn, advance, visit]
    omega

/-- The partition of an input at its end is unblocked. -/
theorem Tracks.unblock (t : Tracks policy inlets l s) (ho : Tame policy inlets)
    (hslot : s.slots[i]? = some ⟨p, .reading inlet⟩) (hr : inlet.upcoming = []) :
    s.merger.disable p = (.ok (), s.merger.unblock p) ∧
    Tracks policy inlets (l.unblock p)
      { s.visit i ⟨p, .exhausted inlet⟩ with merger := s.merger.unblock p } := by
  obtain ⟨x, hx, hf⟩ := t.exists_inlet hslot
  have hp : p = x.1 := hf.partition
  subst hp
  obtain ⟨lane, hl, hen⟩ := Merger.standing_eq_some.1 hf.aligned
  constructor
  · rw [← t.merger]
    exact Merger.disable_eq_ok_iff.2 ⟨Option.isSome_of_eq_some hl, rfl⟩
  refine t.update ho.distinct hx hslot rfl ?_ (.single .unblock) ?_ ?_ t.read ?_ rfl
  · rw [Ledger.merger_unblock, t.merger]
  · intro q hq
    rw [Ledger.merger_unblock, Merger.standing_unblock, if_neg hq]
    exact ⟨rfl, rfl⟩
  · constructor
    · rfl
    · rw [Ledger.merger_unblock, Merger.standing_unblock, if_pos rfl, hf.aligned]
      rfl
    · have hsupply := hf.supply
      simp only [Slot.upcoming, hr] at hsupply
      exact hsupply
    · intro inlet' hi
      cases hi
  · simp [Slot.outstanding, hr, visit]

/-- An input at its end that has nothing queued any more leaves the books. -/
theorem Tracks.retire (t : Tracks policy inlets l s) (ho : Tame policy inlets) {lane : Lane α}
    (hslot : s.slots[i]? = some ⟨p, .exhausted inlet⟩) (hl : s.merger.lane? p = some lane)
    (hq : lane.queue = []) : Tracks policy inlets (l.shut p) (s.retire i p) := by
  obtain ⟨x, hx, hf⟩ := t.exists_inlet hslot
  have hp : p = x.1 := hf.partition
  subst hp
  rw [← t.merger] at hl
  refine t.update ho.distinct hx hslot rfl ?_ (.single (.shut hl hq)) ?_ ?_ t.read rfl ?_
  · rw [Ledger.merger_shut, t.merger, Intake.retire]
  · intro q hq
    rw [Ledger.merger_shut, Merger.standing_shut, if_neg hq]
    exact ⟨rfl, rfl⟩
  · constructor
    · rfl
    · rw [Ledger.merger_shut, Merger.standing_shut, if_pos rfl]
      rfl
    · exact hf.supply
    · intro inlet' hi
      cases hi
  · rfl

end Acts

end Intake

end TimeMerge
