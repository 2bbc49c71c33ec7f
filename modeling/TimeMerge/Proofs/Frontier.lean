import Mathlib.Data.List.MinMax
import Mathlib.Order.Bounds.Basic
import TimeMerge.Proofs.Order

/-!
# How far release has come

The front is the partitions that may still hold back the others. Once nothing more can go, the front
decides alone what went: without one, all of it; with one that nothing ever came for, nothing; and
else whatever is not after the earliest of the latest timestamps along the front.
-/
namespace TimeMerge

/-- The open partitions that are not disabled. -/
def Merger.front (m : Merger α) : List PartitionId := m.partitions.filter fun p => !m.isDisabled p

theorem Merger.mem_front_iff {m : Merger α} {p : PartitionId} :
    p ∈ m.front ↔ m.isEnabled p = true := by
  rw [front, List.mem_filter, partitions, Table.mem_ids_iff]
  change (m.lane? p).isSome = true ∧ _ ↔ _
  cases hl : m.lane? p <;> simp [isEnabled, isDisabled, hl]

namespace Ledger

variable {l : Ledger α} {p : PartitionId} {e : Entry α}

theorem latest?_eq_none_iff : l.latest? p = none ↔ l.acceptedOn p = [] := by
  simp [latest?]

/-- No partition of the front can still deliver anything before `e`, since each has come as far. -/
def IsDue (l : Ledger α) (e : Entry α) : Prop :=
  ∀ q ∈ l.merger.front, ∃ f ∈ l.acceptedOn q, e.timestamp ≤ f.timestamp

/-- The earliest of the latest timestamps along the front. -/
def IsFrontier (l : Ledger α) (t : Timestamp) : Prop :=
  IsLeast {t | ∃ p ∈ l.merger.front, l.latest? p = some t} t

theorem exists_isFrontier (hne : l.merger.front ≠ [])
    (hall : ∀ p ∈ l.merger.front, l.acceptedOn p ≠ []) : ∃ t, l.IsFrontier t := by
  have hmem : ∀ t, t ∈ l.merger.front.filterMap l.latest? ↔
      ∃ p ∈ l.merger.front, l.latest? p = some t := fun t => List.mem_filterMap
  have hts : l.merger.front.filterMap l.latest? ≠ [] := by
    obtain ⟨p, hp⟩ := List.exists_mem_of_ne_nil _ hne
    obtain ⟨t, ht⟩ := Option.ne_none_iff_exists'.1 (mt latest?_eq_none_iff.1 (hall p hp))
    exact List.ne_nil_of_mem ((hmem t).2 ⟨p, hp, ht⟩)
  refine ⟨(l.merger.front.filterMap l.latest?).min hts, (hmem _).1 (List.min_mem hts), ?_⟩
  intro t ht
  exact List.min_le_of_mem ((hmem t).2 ht)

section Released

variable [Record α] {policy : Policy α}

/-- What was given out was due, since the watermark is not past any partition of the front. -/
theorem Ordered.isDue_of_mem_released (h : l.Balanced policy) (o : l.Ordered)
    (he : e ∈ l.released) : l.IsDue e := by
  intro q hq
  have hw := o.released_le_watermark he
  have ha := o.ahead q (Merger.mem_front_iff.1 hq)
  cases hl : l.latest? q with
  | none =>
    rw [hl, Option.getD_none] at ha
    have h0 := h.nonneg (h.mem_accepted_of_mem_released he)
    have hmin := Int.le_trans h0 (Int.le_trans hw ha)
    exact absurd minWatermark_lt_zero (Int.not_lt.2 hmin)
  | some t =>
    rw [hl, Option.getD_some] at ha
    obtain ⟨f, hf, rfl⟩ := Option.map_eq_some_iff.1 hl
    exact ⟨f, List.mem_of_getLast? hf, Int.le_trans hw ha⟩

/-- Once nothing can go, what is queued is not due: a partition that blocks has had everything given out,
so the watermark has caught up with it, and what is queued is after the watermark. -/
theorem Ordered.not_isDue_of_mem_queued (h : l.Balanced policy) (o : l.Ordered)
    (hs : l.merger.departure? = none) (he : e ∈ l.merger.queued p) : ¬l.IsDue e := by
  intro hdue
  obtain ⟨hties, hstuck⟩ := Merger.departure?_eq_none hs
  rcases hstuck with hblocked | hempty
  · obtain ⟨q, hq, hempty⟩ := Merger.blocked_iff.1 hblocked
    obtain ⟨f, hf, hle⟩ := hdue q (Merger.mem_front_iff.2 hq)
    rw [h.conserved q, hempty, List.append_nil] at hf
    have hw := o.released_le_watermark (List.mem_of_mem_filter hf)
    cases hh : (l.merger.queued p).head? with
    | none => simp [List.head?_eq_none_iff.1 hh] at he
    | some g =>
      have habove := o.above p g (List.mem_of_head? hh)
      have hge := o.head_le h hh he
      exact hties p g hh (Int.le_antisymm (Int.le_trans hge (Int.le_trans hle hw)) habove)
  · simp [hempty p] at he

open scoped Classical in
/-- Once nothing can go, just what is due has gone. -/
theorem Ordered.releasedOn_eq_filter (h : l.Balanced policy) (o : l.Ordered)
    (hs : l.merger.departure? = none) (p : PartitionId) :
    l.releasedOn p = (l.acceptedOn p).filter (l.IsDue ·) := by
  have hreleased : (l.releasedOn p).filter (l.IsDue ·) = l.releasedOn p :=
    List.filter_eq_self.2 fun e he =>
      decide_eq_true (o.isDue_of_mem_released h (List.mem_of_mem_filter he))
  have hqueued : (l.merger.queued p).filter (l.IsDue ·) = [] :=
    List.filter_eq_nil_iff.2 fun e he hdue =>
      o.not_isDue_of_mem_queued h hs he (of_decide_eq_true hdue)
  rw [h.conserved, List.filter_append, hreleased, hqueued, List.append_nil]

/-- Nothing was given out as long as a partition of the front has not seen a record. -/
theorem Ordered.released_eq_nil (h : l.Balanced policy)
    (o : l.Ordered) (hp : l.merger.isEnabled p = true) (hn : l.acceptedOn p = []) :
    l.released = [] := by
  refine List.eq_nil_iff_forall_not_mem.2 fun e he => ?_
  obtain ⟨f, hf, _⟩ := o.isDue_of_mem_released h he p (Merger.mem_front_iff.2 hp)
  simp [hn] at hf

omit [Record α] in
/-- With a record on every partition of the front, what is not after the frontier is due. -/
theorem Ordered.isDue_iff (o : l.Ordered) {t : Timestamp} (ht : l.IsFrontier t)
    (hall : ∀ p ∈ l.merger.front, l.acceptedOn p ≠ []) : l.IsDue e ↔ e.timestamp ≤ t := by
  constructor
  · intro hdue
    obtain ⟨q, hq, hl⟩ := ht.1
    obtain ⟨f, hf, hle⟩ := hdue q hq
    obtain ⟨u, hu, hlast⟩ := o.le_latest hf
    obtain rfl : t = u := by simpa [hl] using hu
    exact Int.le_trans hle hlast
  · intro hle q hq
    obtain ⟨u, hu⟩ := Option.ne_none_iff_exists'.1 (mt latest?_eq_none_iff.1 (hall q hq))
    have hleast := ht.2 ⟨q, hq, hu⟩
    obtain ⟨f, hf, rfl⟩ := Option.map_eq_some_iff.1 hu
    exact ⟨f, List.mem_of_getLast? hf, Int.le_trans hle hleast⟩

theorem Ordered.released_perm (h : l.Balanced policy) (o : l.Ordered) {t : Timestamp}
    (ht : l.IsFrontier t) (hall : ∀ p ∈ l.merger.front, l.acceptedOn p ≠ [])
    (hs : l.merger.departure? = none) :
    l.released.Perm (l.accepted.filter (·.timestamp ≤ t)) := by
  refine perm_of_filter_partition fun p => ?_
  have hswap : (l.accepted.filter (·.timestamp ≤ t)).filter (·.partition = p) =
      (l.acceptedOn p).filter (·.timestamp ≤ t) := by
    simp only [acceptedOn, List.filter_filter, Bool.and_comm]
  have hreleased := o.releasedOn_eq_filter h hs p
  simp only [o.isDue_iff ht hall] at hreleased
  rw [hswap, ← hreleased]
  rfl

/-- With no front left, nothing stays behind. -/
theorem Balanced.released_perm (h : l.Balanced policy) (hf : l.merger.front = [])
    (hs : l.merger.departure? = none) : l.released.Perm l.accepted := by
  have hfree : l.merger.blocked ≠ true := by
    intro hb
    obtain ⟨q, hq, _⟩ := Merger.blocked_iff.1 hb
    have := Merger.mem_front_iff.2 hq
    simp [hf] at this
  have hempty := (Merger.departure?_eq_none hs).2.resolve_left hfree
  refine perm_of_filter_partition fun p => ?_
  have hc := h.conserved p
  rw [hempty, List.append_nil] at hc
  exact hc.symm

end Released

end Ledger

/-- Whenever nothing more can go after the calls of a disciplined caller, the front decides what was
given out. -/
theorem Merger.release_frontier [Record α] (policy : Policy α) (ids : List PartitionId)
    (calls : List (Call α)) (hc : policy.checkOrder = true)
    (hd : (Merger.ofPartitions ids).disciplined policy calls = true)
    (hn : ((Merger.ofPartitions ids).after policy calls).next = none) :
    let l := (Ledger.opening ids).run policy calls
    let front := ((Merger.ofPartitions ids).after policy calls).front
    l.released.map (·.record) = (Merger.ofPartitions ids).output policy calls ∧
    l.accepted.map (fun e => (e.partition, e.record)) =
      ((Merger.ofPartitions ids).transcript policy calls).filterMap Call.addition? ∧
    (∀ e ∈ l.accepted, policy.rule.timestamp e.record = .ok e.timestamp) ∧
    (front = [] → l.released.Perm l.accepted) ∧
    ((∃ p ∈ front, l.acceptedOn p = []) → l.released = []) ∧
    (front ≠ [] → (∀ p ∈ front, l.acceptedOn p ≠ []) →
      ∃ t, IsLeast {t | ∃ p ∈ front, l.latest? p = some t} t ∧
        l.released.Perm (l.accepted.filter (·.timestamp ≤ t))) := by
  intro l front
  have hm : l.merger = (Merger.ofPartitions ids).after policy calls := Ledger.merger_run policy _ _
  have hfront : front = l.merger.front := by rw [hm]
  have hs : l.merger.departure? = none := by
    rw [← hm, next_eq] at hn
    simpa using hn
  obtain ⟨h, o⟩ : l.Balanced policy ∧ l.Ordered := Ledger.ordered_run hc hd
  rw [hfront]
  refine ⟨Ledger.records_run policy calls _, Ledger.additions_run policy calls _, h.keyed,
    fun hf => h.released_perm hf hs, ?_, ?_⟩
  · rintro ⟨p, hp, hempty⟩
    exact o.released_eq_nil h (mem_front_iff.1 hp) hempty
  · intro hne hall
    obtain ⟨t, ht⟩ := Ledger.exists_isFrontier hne hall
    exact ⟨t, ht, o.released_perm h ht hall hs⟩

/-- With one partition empty at 3 and the other at 5, what is not after 3 has gone. -/
theorem Merger.release_frontier_blocked :
    ((Merger.ofPartitions [0, 1]).after .selfKeyed [.add 0 3, .add 1 5, .next]).next = none ∧
    ∃ t, IsLeast {t | ∃ p ∈ ((Merger.ofPartitions [0, 1]).after .selfKeyed
        [.add 0 3, .add 1 5, .next]).front,
        ((Ledger.opening [0, 1]).run .selfKeyed [.add 0 3, .add 1 5, .next]).latest? p = some t} t ∧
      ((Ledger.opening [0, 1]).run .selfKeyed [.add 0 3, .add 1 5, .next]).released.Perm
        (((Ledger.opening [0, 1]).run .selfKeyed [.add 0 3, .add 1 5, .next]).accepted.filter
          (·.timestamp ≤ t)) :=
  ⟨by decide, (release_frontier .selfKeyed [0, 1] [.add 0 3, .add 1 5, .next] rfl (by decide)
    (by decide)).2.2.2.2.2 (by decide) (by decide)⟩

end TimeMerge
