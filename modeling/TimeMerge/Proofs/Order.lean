import Mathlib.Data.List.Pairwise
import TimeMerge.Proofs.Calls

/-!
# The order of release

As long as records arrive in order on every partition, and on enabled partitions only, what is given
out is in order. The invariant behind it compares the watermark with what may still come: nothing
that is queued is older, and no enabled partition has gone past it. The watermark is the timestamp of
what was given out last, so it never goes back.
-/
namespace TimeMerge

/-- A sorted list has its greatest element last. -/
theorem le_getLast_of_pairwise {ts : List Timestamp} (h : ts.Pairwise (· ≤ ·)) {t : Timestamp}
    (ht : t ∈ ts) : ∃ u, ts.getLast? = some u ∧ t ≤ u :=
  ⟨_, List.getLast?_eq_some_getLast (List.ne_nil_of_mem ht), h.rel_getLast ht⟩

theorem KeyRule.timestamp_nonneg [Record α] {rule : KeyRule α} {record : α} {ts : Timestamp}
    (h : rule.timestamp record = .ok ts) : 0 ≤ ts := by
  simp only [KeyRule.timestamp] at h
  split at h
  · cases h
  · split at h
    · cases h
    · rename_i hn
      cases h
      exact Int.not_lt.1 hn

theorem minWatermark_lt_zero : minWatermark < 0 := by decide

namespace Ledger

def timestamps (es : List (Entry α)) : List Timestamp := es.map (·.timestamp)

variable {l l' : Ledger α} {e : Entry α} {p : PartitionId}

structure Ordered (l : Ledger α) : Prop where
  ascending : (timestamps l.released).Pairwise (· ≤ ·)
  watermark : l.merger.watermark = (timestamps l.released).getLastD minWatermark
  arrivals : ∀ p, (timestamps (l.acceptedOn p)).Pairwise (· ≤ ·)
  above : ∀ p, ∀ e ∈ l.merger.queued p, l.merger.watermark ≤ e.timestamp
  /-- What may still come on an enabled partition is not before its latest, nor that before the
  watermark. -/
  ahead : ∀ p, l.merger.isEnabled p = true → l.merger.watermark ≤ (l.latest? p).getD minWatermark

theorem ordered_opening (ids : List PartitionId) : Ordered (opening ids : Ledger α) := by
  constructor
  · simp [timestamps, opening]
  · rfl
  · simp [timestamps, acceptedOn, opening]
  · simp [Merger.queued_ofPartitions]
  · intro p _
    exact Int.le_refl _

theorem Ordered.le_latest (o : l.Ordered) (he : e ∈ l.acceptedOn p) :
    ∃ t, l.latest? p = some t ∧ e.timestamp ≤ t := by
  have ht : e.timestamp ∈ timestamps (l.acceptedOn p) := List.mem_map_of_mem he
  obtain ⟨u, hu, hle⟩ := le_getLast_of_pairwise (o.arrivals p) ht
  exact ⟨u, by rw [latest?, ← hu, timestamps, List.getLast?_map], hle⟩

theorem Ordered.released_le_watermark (o : l.Ordered) (he : e ∈ l.released) :
    e.timestamp ≤ l.merger.watermark := by
  have ht : e.timestamp ∈ timestamps l.released := List.mem_map_of_mem he
  obtain ⟨u, hu, hle⟩ := le_getLast_of_pairwise o.ascending ht
  rw [o.watermark, List.getLastD_eq_getLast?, hu]
  exact hle

theorem Ordered.watermark_le (o : l.Ordered) (chosen : l.merger.departure? = some e) :
    l.merger.watermark ≤ e.timestamp :=
  o.above _ e (Merger.mem_queued_of_departure? chosen)

/-- Enabling no partition and leaving the queues as they are keeps the order. -/
theorem Ordered.narrow (o : l.Ordered) {m : Merger α} (hw : m.watermark = l.merger.watermark)
    (hq : ∀ q, m.queued q = l.merger.queued q)
    (he : ∀ q, m.isEnabled q = true → l.merger.isEnabled q = true) :
    Ordered { l with merger := m } where
  ascending := o.ascending
  watermark := hw.trans o.watermark
  arrivals := o.arrivals
  above := by
    intro q f hf
    rw [hq] at hf
    rw [hw]
    exact o.above q f hf
  ahead := by
    intro q hen
    rw [hw]
    exact o.ahead q (he q hen)

theorem Ordered.unblock (o : l.Ordered) (p : PartitionId) : (l.unblock p).Ordered := by
  refine o.narrow rfl (Merger.queued_unblock _ p) fun q hq => ?_
  rw [Merger.isEnabled_unblock] at hq
  split at hq
  · cases hq
  · exact hq

theorem Ordered.shut (o : l.Ordered) {lane : Lane α} (found : l.merger.lane? p = some lane)
    (drained : lane.queue = []) : (l.shut p).Ordered := by
  have hn : l.merger.queued p = [] := by simp [Merger.queued_of_lane? found, drained]
  refine o.narrow rfl (Merger.queued_shut hn) fun q hq => ?_
  rw [Merger.isEnabled_shut] at hq
  split at hq
  · cases hq
  · exact hq

variable [Record α] {policy : Policy α}

theorem Balanced.mem_accepted_of_mem_queued (h : l.Balanced policy)
    (he : e ∈ l.merger.queued p) : e ∈ l.acceptedOn p := by
  rw [h.conserved]
  exact List.mem_append_right _ he

theorem Balanced.mem_accepted_of_mem_released (h : l.Balanced policy) (he : e ∈ l.released) :
    e ∈ l.accepted := by
  have hr : e ∈ l.releasedOn e.partition := List.mem_filter.2 ⟨he, by simp⟩
  have ha : e ∈ l.acceptedOn e.partition := by
    rw [h.conserved]
    exact List.mem_append_left _ hr
  exact List.mem_of_mem_filter ha

theorem Balanced.nonneg (h : l.Balanced policy) (he : e ∈ l.accepted) : 0 ≤ e.timestamp :=
  KeyRule.timestamp_nonneg (h.keyed e he)

/-- What is queued stands in the order it came, with the oldest first. -/
theorem Ordered.head_le (h : l.Balanced policy) (o : l.Ordered) {f : Entry α}
    (hf : (l.merger.queued p).head? = some f) (he : e ∈ l.merger.queued p) :
    f.timestamp ≤ e.timestamp := by
  obtain ⟨rest, hq⟩ := List.head?_eq_some_iff.1 hf
  have hp := o.arrivals p
  rw [h.conserved, hq, timestamps, List.map_append, List.map_cons] at hp
  have hs := (List.pairwise_cons.1 (List.pairwise_append.1 hp).2.1).1
  rw [hq] at he
  rcases List.mem_cons.1 he with rfl | he
  · exact Int.le_refl _
  · exact hs _ (List.mem_map_of_mem he)

/-- A departure passes nothing that is queued or may still come. -/
theorem Ordered.le_queued (h : l.Balanced policy) (o : l.Ordered)
    (chosen : l.merger.departure? = some e) {q : PartitionId} {f : Entry α}
    (hf : f ∈ l.merger.queued q) : e.timestamp ≤ f.timestamp := by
  rcases Merger.due_of_departure? chosen with htie | ⟨_, hmin⟩
  · rw [htie]
    exact o.above q f hf
  · cases hh : (l.merger.queued q).head? with
    | none => simp [List.head?_eq_none_iff.1 hh] at hf
    | some g => exact Int.le_trans (hmin q g hh) (o.head_le h hh hf)

theorem Ordered.le_latest_of_isEnabled (h : l.Balanced policy) (o : l.Ordered)
    (chosen : l.merger.departure? = some e) {q : PartitionId}
    (hq : l.merger.isEnabled q = true) : e.timestamp ≤ (l.latest? q).getD minWatermark := by
  rcases Merger.due_of_departure? chosen with htie | ⟨hfree, hmin⟩
  · rw [htie]
    exact o.ahead q hq
  · cases hh : (l.merger.queued q).head? with
    | none =>
      have hb := Merger.blocked_iff.2 ⟨q, hq, List.head?_eq_none_iff.1 hh⟩
      rw [hfree] at hb
      cases hb
    | some f =>
      have hf : f ∈ l.acceptedOn q := h.mem_accepted_of_mem_queued (List.mem_of_head? hh)
      obtain ⟨t, ht, hle⟩ := o.le_latest hf
      rw [ht]
      exact Int.le_trans (hmin q f hh) hle

theorem Ordered.arrive (o : l.Ordered)
    (found : (l.merger.lane? e.partition).isSome) (enabled : l.merger.isEnabled e.partition = true)
    (keyed : policy.rule.timestamp e.record = .ok e.timestamp)
    (forward : ∀ t, l.latest? e.partition = some t → t ≤ e.timestamp) : (l.arrive e).Ordered := by
  have hw : l.merger.watermark ≤ e.timestamp := by
    have ha := o.ahead e.partition enabled
    cases hl : l.latest? e.partition with
    | none =>
      rw [hl] at ha
      exact Int.le_trans ha (Int.le_trans (Int.le_of_lt minWatermark_lt_zero)
        (KeyRule.timestamp_nonneg keyed))
    | some t =>
      rw [hl] at ha
      exact Int.le_trans ha (forward t hl)
  constructor
  · exact o.ascending
  · exact o.watermark
  · intro p
    rw [acceptedOn_arrive]
    by_cases hp : p = e.partition
    · rw [if_pos hp, timestamps, List.map_append]
      refine List.pairwise_append.2 ⟨o.arrivals p, by simp, ?_⟩
      intro t ht u hu
      obtain ⟨f, hf, rfl⟩ := List.mem_map.1 ht
      obtain ⟨v, hv, hle⟩ := o.le_latest hf
      rw [hp] at hv
      simp only [List.map_singleton, List.mem_singleton] at hu
      rw [hu]
      exact Int.le_trans hle (forward v hv)
    · rw [if_neg hp]
      exact o.arrivals p
  · intro p f hf
    rw [merger_arrive, Merger.queued_arrive found] at hf
    split at hf
    · rcases List.mem_append.1 hf with hf | hf
      · exact o.above p f hf
      · rw [List.mem_singleton.1 hf]
        exact hw
    · exact o.above p f hf
  · intro p hp
    rw [merger_arrive, Merger.isEnabled_arrive] at hp
    rw [latest?_arrive]
    split
    · exact hw
    · exact o.ahead p hp

theorem Ordered.depart (h : l.Balanced policy) (o : l.Ordered)
    (chosen : l.merger.departure? = some e) : (l.depart e).Ordered := by
  constructor
  · rw [released_depart, timestamps, List.map_append]
    refine List.pairwise_append.2 ⟨o.ascending, by simp, ?_⟩
    intro t ht u hu
    obtain ⟨f, hf, rfl⟩ := List.mem_map.1 ht
    simp only [List.map_singleton, List.mem_singleton] at hu
    rw [hu]
    exact Int.le_trans (o.released_le_watermark hf) (o.watermark_le chosen)
  · simp [timestamps]
  · exact o.arrivals
  · intro p f hf
    rw [merger_depart, Merger.queued_depart] at hf
    split at hf
    · exact o.le_queued h chosen (List.mem_of_mem_tail hf)
    · exact o.le_queued h chosen hf
  · intro p hp
    rw [merger_depart, Merger.isEnabled_depart] at hp
    exact o.le_latest_of_isEnabled h chosen hp

theorem Ordered.step (hc : policy.checkOrder = true) (h : l.Balanced policy) (o : l.Ordered)
    (s : Step policy (·.enabled = true) l l') : l'.Ordered := by
  cases s with
  | arrive found enabled keyed forward =>
    refine o.arrive (Option.isSome_of_eq_some found) ?_ keyed fun t ht => ?_
    · rw [Merger.isEnabled_of_lane? found, enabled]
    · exact forward hc t ((h.latest _ _ found).trans ht)
  | depart chosen => exact o.depart h chosen
  | unblock => exact o.unblock _
  | shut found drained => exact o.shut found drained

theorem Ordered.watermark_step (o : l.Ordered) (s : Step policy (·.enabled = true) l l') :
    l.merger.watermark ≤ l'.merger.watermark := by
  cases s with
  | arrive => exact Int.le_refl _
  | depart chosen => exact o.watermark_le chosen
  | unblock => exact Int.le_refl _
  | shut => exact Int.le_refl _

/-- Balance and order hold throughout a run, and the watermark rises. -/
theorem Ordered.steps (hc : policy.checkOrder = true) (h : l.Balanced policy) (o : l.Ordered)
    (s : Steps policy (·.enabled = true) l l') :
    l'.Balanced policy ∧ l'.Ordered ∧ l.merger.watermark ≤ l'.merger.watermark := by
  induction s with
  | refl => exact ⟨h, o, Int.le_refl _⟩
  | tail _ s ih =>
    obtain ⟨h, o, hw⟩ := ih
    exact ⟨h.step s, o.step hc h s, Int.le_trans hw (o.watermark_step s)⟩

end Ledger

/-- Whether a call adds nothing to a disabled partition. -/
def Call.spares (m : Merger α) : Call α → Bool
  | .add p _ => !m.isDisabled p
  | _ => true

variable [Record α] {policy : Policy α}

/-- Whether none of the calls adds to a partition that is disabled at that moment. -/
def Merger.disciplined (policy : Policy α) : List (Call α) → Merger α → Bool
  | [], _ => true
  | c :: cs, m => c.spares m && disciplined policy cs (m.answer policy c).2

theorem Merger.after_append (cs ds : List (Call α)) (m : Merger α) :
    m.after policy (cs ++ ds) = (m.after policy cs).after policy ds := by
  induction cs generalizing m with
  | nil => rfl
  | cons c cs ih => exact ih _

theorem Merger.disciplined_append (cs ds : List (Call α)) (m : Merger α) :
    m.disciplined policy (cs ++ ds) =
      (m.disciplined policy cs && (m.after policy cs).disciplined policy ds) := by
  induction cs generalizing m with
  | nil => rfl
  | cons c cs ih => simp [disciplined, after, ih, Bool.and_assoc]

namespace Ledger

theorem steps_run_of_disciplined {cs : List (Call α)} {l : Ledger α}
    (hd : l.merger.disciplined policy cs = true) :
    Steps policy (·.enabled = true) l (l.run policy cs) := by
  induction cs generalizing l with
  | nil => exact .refl
  | cons c cs ih =>
    obtain ⟨hs, hd⟩ := Bool.and_eq_true_iff.1 hd
    refine (steps_enter ?_).trans (ih hd)
    rintro p record lane rfl hl
    simpa [Call.spares, Merger.isDisabled, hl] using hs

theorem ordered_run {ids : List PartitionId} {cs : List (Call α)} (hc : policy.checkOrder = true)
    (hd : (Merger.ofPartitions ids).disciplined policy cs = true) :
    ((opening ids).run policy cs).Balanced policy ∧ ((opening ids).run policy cs).Ordered := by
  have h := (ordered_opening ids).steps hc (balanced_opening ids)
    (steps_run_of_disciplined (l := opening ids) hd)
  exact ⟨h.1, h.2.1⟩

/-- The timestamps of what was given out are those that the rule finds in the records. -/
theorem Balanced.keys_released {l : Ledger α} (h : l.Balanced policy) :
    (l.released.map (·.record)).map policy.rule.timestamp = (timestamps l.released).map .ok := by
  rw [timestamps, List.map_map, List.map_map]
  exact List.map_congr_left fun e he => h.keyed e (h.mem_accepted_of_mem_released he)

end Ledger

/-- A disciplined caller gets records in the order of their timestamps, and the watermark, which never
goes back, is at every point the timestamp of the last of them. -/
theorem Merger.release_order (policy : Policy α) (ids : List PartitionId) (calls : List (Call α))
    (hc : policy.checkOrder = true)
    (hd : (Merger.ofPartitions ids).disciplined policy calls = true) :
    let start : Merger α := .ofPartitions ids
    (∀ n, ∃ keys : List Timestamp,
      (start.output policy (calls.take n)).map policy.rule.timestamp = keys.map .ok ∧
      keys.Pairwise (· ≤ ·) ∧
      (start.after policy (calls.take n)).watermark = keys.getLastD minWatermark) ∧
    ∀ i j, i ≤ j → (start.after policy (calls.take i)).watermark ≤
      (start.after policy (calls.take j)).watermark := by
  intro start
  have hpre : ∀ n, start.disciplined policy (calls.take n) = true := by
    intro n
    have h := hd
    rw [← List.take_append_drop n calls, disciplined_append] at h
    exact (Bool.and_eq_true_iff.1 h).1
  constructor
  · intro n
    obtain ⟨h, o⟩ := Ledger.ordered_run hc (hpre n)
    have hr := Ledger.records_run policy (calls.take n) (Ledger.opening ids)
    have hm := Ledger.merger_run policy (calls.take n) (Ledger.opening ids)
    refine ⟨_, ?_, o.ascending, ?_⟩
    · rw [← h.keys_released, hr]
      rfl
    · rw [← o.watermark, hm]
      rfl
  · intro i j hij
    obtain ⟨h, o⟩ := Ledger.ordered_run hc (hpre i)
    have hsplit : calls.take j = calls.take i ++ (calls.take j).drop i := by
      have := List.take_append_drop i (calls.take j)
      rwa [List.take_take, Nat.min_eq_left hij, eq_comm] at this
    have hm : ((Ledger.opening ids).run policy (calls.take i)).merger =
        start.after policy (calls.take i) := Ledger.merger_run policy _ _
    have hj := hpre j
    rw [hsplit, disciplined_append] at hj
    have hrest := (Bool.and_eq_true_iff.1 hj).2
    rw [← hm] at hrest
    rw [hsplit, after_append, ← hm]
    obtain ⟨_, _, hw⟩ := o.steps hc h (Ledger.steps_run_of_disciplined hrest)
    rwa [← Ledger.merger_run]

/-- A head that ties with the watermark goes although the other partition is empty. -/
theorem Merger.release_order_tie :
    (Merger.ofPartitions [0, 1]).disciplined .selfKeyed
      [.add 0 3, .add 1 5, .next, .add 1 5, .add 0 3, .take 2, .disable 0, .next] = true ∧
    ∃ keys : List Timestamp,
      ((Merger.ofPartitions [0, 1]).output .selfKeyed
        [.add 0 3, .add 1 5, .next, .add 1 5, .add 0 3, .take 2, .disable 0, .next]).map
          Policy.selfKeyed.rule.timestamp = keys.map .ok ∧
      keys.Pairwise (· ≤ ·) ∧
      ((Merger.ofPartitions [0, 1]).after .selfKeyed
        [.add 0 3, .add 1 5, .next, .add 1 5, .add 0 3, .take 2, .disable 0, .next]).watermark =
          keys.getLastD minWatermark :=
  ⟨by decide, (release_order .selfKeyed [0, 1]
    [.add 0 3, .add 1 5, .next, .add 1 5, .add 0 3, .take 2, .disable 0, .next] rfl
    (by decide)).1 8⟩

end TimeMerge
