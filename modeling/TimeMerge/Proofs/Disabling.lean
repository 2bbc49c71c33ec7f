import TimeMerge.Proofs.Shortcut

/-!
# Disabling partitions

A partition that is disabled no longer holds back the others, and that is all: what would have gone
goes all the same and leaves what it would have left, whatever the state. Once nothing that is empty
can hold back the others, only a merger that holds nothing releases nothing.
-/
namespace TimeMerge.Merger

variable {m m' : Merger α} {ps : List PartitionId} {record : α}

/-- Disables one partition after the other, up to one that is not open. -/
def disableEach : List PartitionId → Merger α → Except Fault Unit × Merger α
  | [], m => (.ok (), m)
  | p :: ps, m =>
    match m.disable p with
    | (.error e, m) => (.error e, m)
    | (.ok (), m) => disableEach ps m

theorem isOpen_unblock (m : Merger α) (p q : PartitionId) :
    (m.unblock p).isOpen q = m.isOpen q := by
  rw [isOpen, isOpen, lane?_unblock, Option.isSome_map]

theorem disableEach_of_isOpen (h : ∀ p ∈ ps, m.isOpen p = true) :
    m.disableEach ps = (.ok (), m.unblockAll ps) := by
  induction ps generalizing m with
  | nil => rfl
  | cons p ps ih =>
    obtain ⟨hp, hps⟩ := List.forall_mem_cons.1 h
    have hdisable : m.disable p = (.ok (), m.unblock p) := disable_eq_ok_iff.2 ⟨hp, rfl⟩
    rw [disableEach, hdisable]
    exact ih fun q hq => (m.isOpen_unblock p q).trans (hps q hq)

/-- A release opens and closes nothing. -/
theorem isOpen_of_next (h : m.next = some (record, m')) (p : PartitionId) :
    m'.isOpen p = m.isOpen p := by
  rw [next_eq] at h
  obtain ⟨e, _, he⟩ := Option.map_eq_some_iff.1 h
  cases he
  rw [isOpen_eq, standing_depart, isOpen_eq]

/-- A release and disabling partitions do not depend on which comes first. -/
theorem next_unblockAll (ps : List PartitionId) (h : m.next = some (record, m')) :
    (m.unblockAll ps).next = some (record, m'.unblockAll ps) := by
  rw [next_eq] at h ⊢
  obtain ⟨e, hdeparts, he⟩ := Option.map_eq_some_iff.1 h
  cases he
  rw [departure?_unblockAll ps hdeparts, Option.map_some, depart_unblockAll]

/-- With nothing to wait for, nothing goes only if there is nothing. -/
theorem AllClear.next_eq_none_iff (h : m.AllClear) : m.next = none ↔ ∀ p, m.queued p = [] := by
  rw [next_eq, Option.map_eq_none_iff]
  constructor
  · intro hnone
    refine (departure?_eq_none hnone).2.resolve_left fun hblocked => ?_
    rw [allClear_iff.1 h] at hblocked
    cases hblocked
  · intro hempty
    rw [Option.eq_none_iff_forall_ne_some]
    intro e hdeparts
    have hm := mem_queued_of_departure? hdeparts
    rw [hempty] at hm
    cases hm

/-- Open partitions are disabled, in any order and some of them more than once: what is released next
is still released and leaves the same queues, watermark and count, with just those partitions
disabled; whatever could be drained is drained first; and if nothing empty is left to wait for,
nothing is released only when all queues are empty. -/
theorem disabling_unblocks (m : Merger α) (hopen : ∀ p ∈ ps, m.isOpen p = true) :
    ∃ unblocked, m.disableEach ps = (.ok (), unblocked) ∧
      (∀ record left, m.next = some (record, left) →
        ∃ left', unblocked.next = some (record, left') ∧ left.disableEach ps = (.ok (), left') ∧
          left'.partitions = left.partitions ∧ (∀ p, left'.queued p = left.queued p) ∧
          left'.watermark = left.watermark ∧ left'.buffered = left.buffered) ∧
      m.drain.1 <+: unblocked.drain.1 ∧
      (unblocked.AllClear → (unblocked.next = none ↔ ∀ p, unblocked.queued p = [])) := by
  refine ⟨m.unblockAll ps, disableEach_of_isOpen hopen, fun record left hnext => ?_, ?_,
    AllClear.next_eq_none_iff⟩
  · have hleft : ∀ p ∈ ps, left.isOpen p = true :=
      fun p hp => (isOpen_of_next hnext p).trans (hopen p hp)
    exact ⟨left.unblockAll ps, next_unblockAll ps hnext, disableEach_of_isOpen hleft,
      left.partitions_unblockAll ps, left.queued_unblockAll ps, left.watermark_unblockAll ps,
      left.buffered_unblockAll ps⟩
  · rw [drain_unblockAll]
    exact List.prefix_append _ _

/-- No calls lead here: the count and the latest timestamps do not fit the queues, one of which is not
in order, and the watermark is beyond the smallest head. -/
def tangled : Merger Int where
  lanes := ⟨[(0, {}), (1, ⟨[(7, 7), (2, 2)], some 9, true⟩), (2, ⟨[], some 4, false⟩),
    (3, ⟨[(5, 5)], none, true⟩)], by decide⟩
  watermark := 7
  buffered := 1

/-- The 7 goes before the smaller 5, whether or not partition 0 is waited for. -/
theorem disabling_unblocks_tangled :
    (∀ p ∈ [3, 0, 3], tangled.isOpen p = true) ∧ ¬tangled.AllClear ∧
      ∃ unblocked, tangled.disableEach [3, 0, 3] = (.ok (), unblocked) ∧ unblocked.AllClear ∧
        (∃ left, unblocked.next = some (7, left) ∧ left.watermark = 7 ∧ left.buffered = 0 ∧
          left.queued 1 = [⟨1, 2, 2⟩] ∧ left.queued 3 = [⟨3, 5, 5⟩]) ∧
        (unblocked.next = none ↔ ∀ p, unblocked.queued p = []) := by
  have hopen : ∀ p ∈ [3, 0, 3], tangled.isOpen p = true := by decide
  obtain ⟨unblocked, hunblocked, hreleases, _, hstuck⟩ := disabling_unblocks tangled hopen
  have hsame : tangled.unblockAll [3, 0, 3] = unblocked :=
    (Prod.mk.inj ((disableEach_of_isOpen hopen).symm.trans hunblocked)).2
  have hclear : unblocked.AllClear := by
    subst hsame
    decide
  obtain ⟨left, hnext, _, _, hqueued, hwatermark, hbuffered⟩ :=
    hreleases 7 (tangled.depart ⟨1, 7, 7⟩) (by decide)
  refine ⟨hopen, by decide, unblocked, hunblocked, hclear, ⟨left, hnext, hwatermark, hbuffered, ?_, ?_⟩,
    hstuck hclear⟩
  · rw [hqueued]
    decide
  · rw [hqueued]
    decide

end TimeMerge.Merger
