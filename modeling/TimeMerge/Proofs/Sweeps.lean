import TimeMerge.Proofs.Ledger

/-!
# Sweeps over all lanes

Some changes go over all lanes at once: every disabled partition that holds nothing is closed, or
every open one is disabled. Both are the single changes one after the other, so what holds along
those holds along a sweep. -/
namespace TimeMerge

namespace Merger

variable {m : Merger α} {p q : PartitionId}

theorem lane?_closeDrained (m : Merger α) (q : PartitionId) :
    m.closeDrained.lane? q = (m.lane? q).filter fun l => l.enabled || !l.queue.isEmpty :=
  Table.get?_retain ..

theorem lane?_disableAll (m : Merger α) (q : PartitionId) :
    m.disableAll.lane? q = (m.lane? q).map Lane.disable :=
  Table.get?_mapValues ..

theorem queued_closeDrained (m : Merger α) (q : PartitionId) :
    m.closeDrained.queued q = m.queued q := by
  cases hl : m.lane? q with
  | none => rw [queued_of_lane?_none hl, queued_of_lane?_none (by rw [lane?_closeDrained, hl]; rfl)]
  | some lane =>
    rw [queued_of_lane? hl]
    simp only [queued, lane?_closeDrained, hl, Option.filter_some]
    cases he : lane.enabled <;> cases hq : lane.queue <;> simp [hq]

theorem standing_closeDrained (m : Merger α) (q : PartitionId) : m.closeDrained.standing q =
    if m.standing q = some false ∧ m.queued q = [] then none else m.standing q := by
  cases hl : m.lane? q with
  | none => simp [standing, lane?_closeDrained, hl]
  | some lane =>
    rw [queued_of_lane? hl]
    simp only [standing, lane?_closeDrained, hl, Option.filter_some]
    cases he : lane.enabled <;> cases hq : lane.queue <;> simp [he]

theorem standing_disableAll (m : Merger α) (q : PartitionId) :
    m.disableAll.standing q = (m.standing q).map fun _ => false := by
  simp only [standing, lane?_disableAll, Option.map_map]
  rfl

theorem mem_partitions_iff : p ∈ m.partitions ↔ m.standing p ≠ none := by
  rw [partitions, Table.mem_ids_iff, Option.isSome_iff_ne_none, Ne, Ne, standing_eq_none]
  rfl

theorem allDisabled_iff : m.allDisabled = true ↔ ∀ p, m.isEnabled p = false := by
  simp only [allDisabled, List.all_eq_true, Prod.forall, Table.mem_entries_iff, isEnabled]
  constructor
  · intro h p
    cases hl : m.lane? p with
    | none => rfl
    | some lane => simpa using h p lane hl
  · intro h p lane hl
    have hl : m.lane? p = some lane := hl
    simpa [hl] using h p

/-- Departures open and close nothing. -/
theorem standing_take (n : Nat) (m : Merger α) (p : PartitionId) :
    (m.take n).2.standing p = m.standing p :=
  Ledger.standing_take n { merger := m } p

theorem standing_drain (m : Merger α) (p : PartitionId) :
    m.drain.2.standing p = m.standing p := by
  rw [drain_eq_take (Nat.le_refl _), standing_take]

theorem isEnabled_closeDrained (m : Merger α) (p : PartitionId) :
    m.closeDrained.isEnabled p = m.isEnabled p := by
  rw [isEnabled_eq, standing_closeDrained, isEnabled_eq]
  split
  · rename_i h
    rw [h.1]
    rfl
  · rfl

/-- Closing what holds nothing lets nothing more go. -/
theorem departure?_closeDrained (h : m.departure? = none) : m.closeDrained.departure? = none := by
  obtain ⟨hties, hstuck⟩ := departure?_eq_none h
  rw [Option.eq_none_iff_forall_ne_some]
  intro e hd
  have hhead := head?_of_departure? hd
  rw [queued_closeDrained] at hhead
  rcases due_of_departure? hd with htie | ⟨hfree, _⟩
  · exact hties _ e hhead htie
  rcases hstuck with hblocked | hempty
  · obtain ⟨q, hen, hq⟩ := blocked_iff.1 hblocked
    have : m.closeDrained.blocked = true :=
      blocked_iff.2 ⟨q, by rwa [isEnabled_closeDrained], by rwa [queued_closeDrained]⟩
    simp [this] at hfree
  · simp [hempty] at hhead

/-- With nobody left who could hold anything back, whatever is queued can go. -/
theorem queued_eq_nil_of_settled (hs : m.departure? = none) (h : ∀ p, m.isEnabled p = false)
    (p : PartitionId) : m.queued p = [] := by
  have hfree : m.blocked ≠ true := by
    intro hb
    obtain ⟨q, hq, _⟩ := blocked_iff.1 hb
    simp [h q] at hq
  exact (departure?_eq_none hs).2.resolve_left hfree p

/-- Nothing stays behind once all are disabled. -/
theorem queued_drain_eq_nil (h : ∀ p, m.isEnabled p = false) (p : PartitionId) :
    m.drain.2.queued p = [] := by
  apply queued_eq_nil_of_settled m.departure?_drain
  intro q
  rw [isEnabled_eq, standing_drain, ← isEnabled_eq, h]

/-- Nothing departs where nothing is open. -/
theorem departure?_of_openCount (h : m.openCount = 0) : m.departure? = none := by
  rw [Option.eq_none_iff_forall_ne_some]
  intro e hd
  have hm := mem_queued_of_departure? hd
  have hn := standing_eq_none.1 (openCount_eq_zero_iff.1 h e.partition)
  simp [queued_of_lane?_none hn] at hm

def shutAll (ps : List PartitionId) (m : Merger α) : Merger α := ps.foldl (fun m p => m.shut p) m

theorem lane?_shutAll (ps : List PartitionId) (m : Merger α) (q : PartitionId) :
    (m.shutAll ps).lane? q = if q ∈ ps then none else m.lane? q := by
  induction ps generalizing m with
  | nil => simp [shutAll]
  | cons p ps ih =>
    have h := ih (m.shut p)
    rw [lane?_shut] at h
    rw [shutAll, List.foldl_cons, ← shutAll, h]
    by_cases hp : q = p <;> by_cases hm : q ∈ ps <;> simp [hp, hm]

theorem shutAll_eq (ps : List PartitionId) (m : Merger α) :
    m.shutAll ps = { m with lanes := (m.shutAll ps).lanes } := by
  induction ps generalizing m with
  | nil => rfl
  | cons p ps ih => exact ih (m.shut p)

theorem mem_drainedDisabled_iff : p ∈ m.drainedDisabled ↔
    ∃ lane, m.lane? p = some lane ∧ lane.enabled = false ∧ lane.queue = [] := by
  simp only [drainedDisabled, List.mem_map, List.mem_filter, Prod.exists, Table.mem_entries_iff,
    Bool.and_eq_true, Bool.not_eq_true', List.isEmpty_iff]
  constructor
  · rintro ⟨q, lane, ⟨hl, hd⟩, rfl⟩
    exact ⟨lane, hl, hd⟩
  · rintro ⟨lane, hl, hd⟩
    exact ⟨p, lane, ⟨hl, hd⟩, rfl⟩

theorem nodup_drainedDisabled (m : Merger α) : m.drainedDisabled.Nodup :=
  m.lanes.nodup_ids.sublist (List.filter_sublist.map _)

theorem closeDrained_eq_shutAll (m : Merger α) : m.closeDrained = m.shutAll m.drainedDisabled := by
  rw [shutAll_eq]
  refine ext_lane? (fun p => ?_) rfl rfl
  change m.closeDrained.lane? p = (m.shutAll m.drainedDisabled).lane? p
  rw [lane?_closeDrained, lane?_shutAll]
  cases hl : m.lane? p with
  | none => simp
  | some lane =>
    have hmem : p ∈ m.drainedDisabled ↔ lane.enabled = false ∧ lane.queue = [] := by
      simp [mem_drainedDisabled_iff, hl]
    simp only [hmem, Option.filter_some]
    cases he : lane.enabled <;> cases hq : lane.queue <;> simp

def unblockAll (ps : List PartitionId) (m : Merger α) : Merger α :=
  ps.foldl (fun m p => m.unblock p) m

theorem lane?_unblockAll (ps : List PartitionId) (m : Merger α) (q : PartitionId) :
    (m.unblockAll ps).lane? q =
      (m.lane? q).map fun lane => if q ∈ ps then lane.disable else lane := by
  induction ps generalizing m with
  | nil => simp [unblockAll]
  | cons p ps ih =>
    have h := ih (m.unblock p)
    rw [lane?_unblock, Option.map_map] at h
    rw [unblockAll, List.foldl_cons, ← unblockAll, h]
    congr 1
    funext lane
    by_cases hp : q = p <;> by_cases hm : q ∈ ps <;> simp [hp, hm, Lane.disable]

theorem unblockAll_eq (ps : List PartitionId) (m : Merger α) :
    m.unblockAll ps = { m with lanes := (m.unblockAll ps).lanes } := by
  induction ps generalizing m with
  | nil => rfl
  | cons p ps ih => exact ih (m.unblock p)

@[simp] theorem watermark_unblockAll (ps : List PartitionId) (m : Merger α) :
    (m.unblockAll ps).watermark = m.watermark := by
  rw [unblockAll_eq]

@[simp] theorem buffered_unblockAll (ps : List PartitionId) (m : Merger α) :
    (m.unblockAll ps).buffered = m.buffered := by
  rw [unblockAll_eq]

@[simp] theorem partitions_unblockAll (ps : List PartitionId) (m : Merger α) :
    (m.unblockAll ps).partitions = m.partitions := by
  induction ps generalizing m with
  | nil => rfl
  | cons p ps ih => exact (ih (m.unblock p)).trans (Table.ids_adjust ..)

theorem queued_unblockAll (ps : List PartitionId) (m : Merger α) (q : PartitionId) :
    (m.unblockAll ps).queued q = m.queued q := by
  simp only [queued, lane?_unblockAll]
  by_cases hq : q ∈ ps <;> cases m.lane? q <;> simp [hq, Lane.disable]

theorem isEnabled_unblockAll (ps : List PartitionId) (m : Merger α) (q : PartitionId) :
    (m.unblockAll ps).isEnabled q = if q ∈ ps then false else m.isEnabled q := by
  simp only [isEnabled, lane?_unblockAll]
  by_cases hq : q ∈ ps <;> cases m.lane? q <;> simp [hq, Lane.disable]

/-- It does not matter which others than the open partitions are named as well. -/
theorem disableAll_eq_unblockAll {ps : List PartitionId} (h : ∀ p ∈ m.partitions, p ∈ ps) :
    m.disableAll = m.unblockAll ps := by
  refine ext_lane? (fun p => ?_) (watermark_unblockAll ps m).symm (buffered_unblockAll ps m).symm
  rw [lane?_disableAll, lane?_unblockAll]
  refine Option.map_congr fun lane hl => ?_
  have hm : p ∈ m.partitions := mem_partitions_iff.2 (by simp [standing_eq_none, hl])
  rw [if_pos (h p hm)]

end Merger

namespace Ledger

variable {l : Ledger α}

/-- The ledger once every disabled partition that holds nothing is closed. -/
def sweep (l : Ledger α) : Ledger α := { l with merger := l.merger.closeDrained }

@[simp] theorem merger_sweep (l : Ledger α) : l.sweep.merger = l.merger.closeDrained := rfl
@[simp] theorem released_sweep (l : Ledger α) : l.sweep.released = l.released := rfl

variable [Record α] {policy : Policy α} {Open : Lane α → Prop}

theorem steps_shutAll {ps : List PartitionId} (hn : ps.Nodup)
    (h : ∀ p ∈ ps, ∃ lane, l.merger.lane? p = some lane ∧ lane.queue = []) :
    Steps policy Open l { l with merger := l.merger.shutAll ps } := by
  induction ps generalizing l with
  | nil => exact .refl
  | cons p ps ih =>
    obtain ⟨hp, hn⟩ := List.nodup_cons.1 hn
    obtain ⟨lane, found, drained⟩ := h p List.mem_cons_self
    refine .head (.shut found drained) (ih (l := l.shut p) hn ?_)
    intro q hq
    have hne : q ≠ p := fun he => hp (he ▸ hq)
    rw [merger_shut, Merger.lane?_shut, if_neg hne]
    exact h q (List.mem_cons_of_mem _ hq)

theorem steps_sweep (l : Ledger α) : Steps policy Open l l.sweep := by
  rw [sweep, Merger.closeDrained_eq_shutAll]
  apply steps_shutAll l.merger.nodup_drainedDisabled
  intro p hp
  obtain ⟨lane, found, _, drained⟩ := Merger.mem_drainedDisabled_iff.1 hp
  exact ⟨lane, found, drained⟩

theorem steps_unblockAll (ps : List PartitionId) (l : Ledger α) :
    Steps policy Open l { l with merger := l.merger.unblockAll ps } := by
  induction ps generalizing l with
  | nil => exact .refl
  | cons p ps ih => exact .head .unblock (ih (l.unblock p))

theorem steps_disableAll (l : Ledger α) :
    Steps policy Open l { l with merger := l.merger.disableAll } := by
  rw [Merger.disableAll_eq_unblockAll fun _ hp => hp]
  exact steps_unblockAll _ l

end Ledger

end TimeMerge
