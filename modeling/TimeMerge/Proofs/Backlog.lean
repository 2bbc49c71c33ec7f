import TimeMerge.Proofs.Delivery
import TimeMerge.Proofs.Order
import TimeMerge.Proofs.Precedence

/-!
# The last drain

Once every partition is disabled nothing is held back any more, and a drain gives out all that is
queued, per partition in the order it came. For a disciplined caller that is a sort: what departs at
once stands in the order of timestamps, then of partitions, whatever watermark the calls before it
have left, and a list in that order is determined by what it holds of each partition.
-/
namespace TimeMerge

/-- Not after the other in the order of timestamps, then of partitions. -/
def Entry.Before (e f : Entry α) : Prop :=
  e.timestamp < f.timestamp ∨ e.timestamp = f.timestamp ∧ e.partition ≤ f.partition

theorem Entry.Before.antisymm {e f : Entry α} (h : e.Before f) (h' : f.Before e) :
    e.partition = f.partition := by
  grind [Entry.Before]

/-- Lists in that order are equal if they agree per partition. -/
theorem eq_of_filter_of_before {es fs : List (Entry α)} (hes : es.Pairwise Entry.Before)
    (hfs : fs.Pairwise Entry.Before)
    (h : ∀ p, es.filter (·.partition = p) = fs.filter (·.partition = p)) : es = fs := by
  induction es generalizing fs with
  | nil => exact (perm_of_filter_partition h).nil_eq
  | cons e es ih =>
    have hperm := perm_of_filter_partition h
    cases fs with
    | nil => exact absurd hperm.symm.nil_eq.symm (List.cons_ne_nil _ _)
    | cons f fs =>
      obtain ⟨hfirst, hes⟩ := List.pairwise_cons.1 hes
      obtain ⟨hfirst', hfs'⟩ := List.pairwise_cons.1 hfs
      have hpartition : e.partition = f.partition := by
        rcases List.mem_cons.1 (hperm.mem_iff.1 List.mem_cons_self) with heq | he
        · rw [heq]
        · rcases List.mem_cons.1 (hperm.mem_iff.2 List.mem_cons_self) with heq | hf
          · rw [heq]
          · exact (hfirst f hf).antisymm (hfirst' e he)
      have hhead := h f.partition
      rw [List.filter_cons_of_pos (by simpa using hpartition),
        List.filter_cons_of_pos (by simp)] at hhead
      obtain ⟨rfl, _⟩ := List.cons.inj hhead
      refine congrArg (e :: ·) (ih hes hfs' fun p => ?_)
      have hrest := h p
      by_cases hp : e.partition = p
      · rw [List.filter_cons_of_pos (by simpa using hp),
          List.filter_cons_of_pos (by simpa using hp)] at hrest
        exact (List.cons.inj hrest).2
      · rwa [List.filter_cons_of_neg (by simpa using hp),
          List.filter_cons_of_neg (by simpa using hp)] at hrest

namespace Merger

variable {m : Merger α} {e : Entry α} {p : PartitionId}

/-- What is queued, each entry with its place in the queue. -/
def backlog (m : Merger α) : List (Entry α × Nat) :=
  m.partitions.flatMap fun p => (m.queued p).zipIdx

/-- By timestamp, then by partition, then by place. -/
def Ranks (x y : Entry α × Nat) : Prop :=
  x.1.timestamp < y.1.timestamp ∨ x.1.timestamp = y.1.timestamp ∧
    (x.1.partition < y.1.partition ∨ x.1.partition = y.1.partition ∧ x.2 ≤ y.2)

instance (x y : Entry α × Nat) : Decidable (Ranks x y) := inferInstanceAs (Decidable (_ ∨ _))

/-- What is queued, sorted by timestamp, then by partition, then by its place in the queue. -/
def sorted (m : Merger α) : List (Entry α) :=
  (m.backlog.mergeSort fun x y => decide (Ranks x y)).map (·.1)

theorem ranks_trans (x y z : Entry α × Nat) (h : decide (Ranks x y) = true)
    (h' : decide (Ranks y z) = true) : decide (Ranks x z) = true := by
  grind [Ranks]

theorem ranks_total (x y : Entry α × Nat) :
    (decide (Ranks x y) || decide (Ranks y x)) = true := by
  grind [Ranks]

theorem sorted_before (m : Merger α) : m.sorted.Pairwise Entry.Before := by
  refine List.pairwise_map.2 ((List.pairwise_mergeSort ranks_trans ranks_total _).imp ?_)
  intro x y h
  grind [Ranks, Entry.Before]

theorem backlog_filter (m : Merger α) (p : PartitionId) :
    (m.backlog.map (·.1)).filter (·.partition = p) = m.queued p := by
  have hentries : m.backlog.map (·.1) = m.partitions.flatMap m.queued := by
    simp [backlog, List.map_flatMap]
  have hown : ∀ q, ∀ e ∈ m.queued q, e.partition = id q := fun _ _ => partition_of_mem_queued
  rw [hentries]
  by_cases hp : p ∈ m.partitions
  · refine filter_flatMap_of_nodup hown ?_ hp
    rw [List.map_id]
    exact m.lanes.nodup_ids
  · have hn : m.lane? p = none := standing_eq_none.1 (by simpa [mem_partitions_iff] using hp)
    rw [queued_of_lane?_none hn]
    exact filter_flatMap_of_not_mem hown (by rwa [List.map_id])

/-- A queue that is in order stays as it is in the sort. -/
theorem sorted_filter (h : (m.queued p).Pairwise (·.timestamp ≤ ·.timestamp)) :
    m.sorted.filter (·.partition = p) = m.queued p := by
  have hperm : (m.sorted.filter (·.partition = p)).Perm (m.queued p) := by
    rw [← backlog_filter m p]
    exact ((List.mergeSort_perm _ _).map _).filter _
  by_cases hp : p ∈ m.partitions
  · have hranks : (m.queued p).zipIdx.Pairwise fun x y => decide (Ranks x y) = true := by
      rw [List.pairwise_iff_getElem] at h ⊢
      intro i j hi hj hij
      simp only [List.length_zipIdx] at hi hj
      have hle := h i j hi hj hij
      have hpi := partition_of_mem_queued (List.getElem_mem hi)
      have hpj := partition_of_mem_queued (List.getElem_mem hj)
      simp only [List.getElem_zipIdx]
      grind [Ranks]
    have hsub : (m.queued p).zipIdx.Sublist m.backlog := by
      obtain ⟨before, behind, hsplit⟩ := List.append_of_mem hp
      rw [backlog, hsplit, List.flatMap_append, List.flatMap_cons]
      exact (List.sublist_append_left ..).trans (List.sublist_append_right ..)
    have hkept := (List.sublist_mergeSort ranks_trans ranks_total hranks hsub).map (·.1)
    rw [List.zipIdx_map_fst] at hkept
    have hown : (m.queued p).filter (·.partition = p) = m.queued p :=
      List.filter_eq_self.2 fun e he => decide_eq_true (partition_of_mem_queued he)
    have hfilter := hkept.filter (·.partition = p)
    rw [hown] at hfilter
    exact (hfilter.eq_of_length hperm.length_eq.symm).symm
  · have hn : m.lane? p = none := standing_eq_none.1 (by simpa [mem_partitions_iff] using hp)
    rw [queued_of_lane?_none hn] at hperm ⊢
    exact hperm.eq_nil

theorem partitions_depart (m : Merger α) (e : Entry α) : (m.depart e).partitions = m.partitions :=
  Table.ids_adjust ..

theorem partitions_take (n : Nat) (m : Merger α) : (m.take n).2.partitions = m.partitions := by
  induction n generalizing m with
  | zero => rfl
  | succ n ih =>
    cases h : m.departure? with
    | none => rw [take_of_none h]
    | some e => rw [take_succ_of_some h, ih, partitions_depart]

/-- The watermark is the timestamp of what departed last. -/
theorem watermark_take (n : Nat) (m : Merger α) : (m.take n).2.watermark =
    ((m.departures n).getLast?.map (·.timestamp)).getD m.watermark := by
  induction n generalizing m with
  | zero => rfl
  | succ n ih =>
    cases h : m.departure? with
    | none => simp [take_of_none h, departures, h]
    | some e =>
      rw [take_succ_of_some h, ih, departures, h, List.getLast?_cons]
      cases (departures n (m.depart e)).getLast? <;> rfl

/-- Of each queue the front departs, and the rest is left. -/
theorem queued_eq_departures_append (n : Nat) (m : Merger α) (p : PartitionId) : m.queued p =
    (m.departures n).filter (·.partition = p) ++ (m.take n).2.queued p := by
  induction n generalizing m with
  | zero => rfl
  | succ n ih =>
    cases h : m.departure? with
    | none => simp [take_of_none h, departures, h]
    | some e =>
      have hrest := ih (m.depart e)
      obtain ⟨rest, hq⟩ := List.head?_eq_some_iff.1 (head?_of_departure? h)
      rw [queued_depart] at hrest
      rw [take_succ_of_some h, departures, h]
      by_cases hp : p = e.partition
      · subst p
        rw [if_pos rfl, hq, List.tail_cons] at hrest
        simp [hq, ← hrest]
      · rw [if_neg hp] at hrest
        rw [List.filter_cons_of_neg (by simpa using Ne.symm hp), ← hrest]

theorem mem_queued_of_mem_departures {n : Nat} (h : e ∈ m.departures n) :
    e ∈ m.queued e.partition := by
  rw [queued_eq_departures_append n m]
  exact List.mem_append_left _ (List.mem_filter.2 ⟨h, by simp⟩)

end Merger

namespace Ledger

variable [Record α] {policy : Policy α} {l : Ledger α} {e f : Entry α}

/-- What departs comes before all that is queued. -/
theorem Ordered.before_of_departure? (h : l.Balanced policy) (o : l.Ordered)
    (chosen : l.merger.departure? = some e) (hf : f ∈ l.merger.queued f.partition) :
    e.Before f := by
  rcases Int.lt_or_eq_of_le (o.le_queued h chosen hf) with hlt | heq
  · exact .inl hlt
  refine .inr ⟨heq, ?_⟩
  have hsome : (l.merger.queued f.partition).head?.isSome :=
    List.isSome_head?.2 (List.ne_nil_of_mem hf)
  obtain ⟨g, hg⟩ := Option.isSome_iff_exists.1 hsome
  -- the head of the queue of `f` is as old as `f`, so it competes with `e`
  have hlevel : g.timestamp = e.timestamp := by
    refine Int.le_antisymm ?_ (o.le_queued h chosen (List.mem_of_head? hg))
    rw [heq]
    exact o.head_le h hg hf
  cases Merger.goes_of_departure? chosen with
  | tie head level first => exact first _ g hg (hlevel.trans level)
  | least head free untied smallest first => exact first _ g hg hlevel

theorem Ordered.pairwise_departures (n : Nat) (h : l.Balanced policy) (o : l.Ordered) :
    (l.merger.departures n).Pairwise Entry.Before := by
  induction n generalizing l with
  | zero => exact .nil
  | succ n ih =>
    rw [Merger.departures]
    cases chosen : l.merger.departure? with
    | none => exact .nil
    | some e =>
      refine List.pairwise_cons.2 ⟨fun f hf => ?_, ih (h.depart chosen) (o.depart h chosen)⟩
      have hq := Merger.mem_queued_of_mem_departures hf
      rw [Merger.queued_depart] at hq
      refine o.before_of_departure? h chosen ?_
      split at hq
      · exact List.mem_of_mem_tail hq
      · exact hq

theorem Ordered.pairwise_queued (h : l.Balanced policy) (o : l.Ordered) (p : PartitionId) :
    (l.merger.queued p).Pairwise (·.timestamp ≤ ·.timestamp) := by
  have hp := o.arrivals p
  rw [h.conserved, timestamps, List.map_append] at hp
  exact List.pairwise_map.1 (List.pairwise_append.1 hp).2.1

end Ledger

/-- With every partition disabled, after any calls: a drain gives out what is queued, each record once
and per partition in its order, which is the order in which it was added last; then nothing is
queued, the same partitions are open and disabled as before, and the watermark is the timestamp of the
last record given out. For a disciplined caller what comes out is the sort of what was queued. -/
theorem Merger.drain_sorts [Record α] (policy : Policy α) (ids : List PartitionId)
    (calls : List (Call α))
    (hall : ((Merger.ofPartitions ids).after policy calls).allDisabled = true) :
    let start : Merger α := .ofPartitions ids
    let m := start.after policy calls
    ∃ es : List (Entry α),
      m.drain.1 = es.map (·.record) ∧
      (∀ e ∈ es, policy.rule.timestamp e.record = .ok e.timestamp) ∧
      (∀ p, es.filter (·.partition = p) = m.queued p ∧
        ((es.filter (·.partition = p)).map fun e => (e.partition, e.record)) <:+
          ((start.transcript policy calls).filterMap Call.addition?).filter (·.1 = p)) ∧
      (m.drain.2.buffered = 0 ∧ ∀ p, m.drain.2.queued p = []) ∧
      (m.drain.2.partitions = m.partitions ∧ ∀ p, m.drain.2.isDisabled p = m.isDisabled p) ∧
      m.drain.2.watermark = (es.getLast?.map (·.timestamp)).getD m.watermark ∧
      (policy.checkOrder = true → start.disciplined policy calls = true → es = m.sorted) := by
  intro start m
  have hm : ((Ledger.opening ids).run policy calls).merger = m := Ledger.merger_run policy calls _
  have hadded := Ledger.additions_run policy calls (Ledger.opening ids)
  have hbalanced : ((Ledger.opening ids).run policy calls).Balanced policy :=
    (Ledger.balanced_opening ids).steps (Ledger.steps_run calls (Ledger.opening ids))
  have hordered : policy.checkOrder = true → start.disciplined policy calls = true →
      ((Ledger.opening ids).run policy calls).Ordered := fun hc hd => (Ledger.ordered_run hc hd).2
  generalize (Ledger.opening ids).run policy calls = l at hm hadded hbalanced hordered
  have hdrain : m.drain = m.take m.size := drain_eq_take (Nat.le_refl _)
  have hempty : ∀ p, m.drain.2.queued p = [] := queued_drain_eq_nil (allDisabled_iff.1 hall)
  have hparts : ∀ p, (m.departures m.size).filter (·.partition = p) = m.queued p := by
    intro p
    have hsplit := queued_eq_departures_append m.size m p
    rwa [← hdrain, hempty, List.append_nil, eq_comm] at hsplit
  refine ⟨m.departures m.size, ?_, fun e he => ?_, fun p => ⟨hparts p, ?_⟩, ⟨?_, hempty⟩, ⟨?_, ?_⟩,
    ?_, fun hc hd => ?_⟩
  · rw [records_departures, hdrain]
  · have hq := mem_queued_of_mem_departures he
    rw [← hm] at hq
    exact hbalanced.keyed e (List.mem_of_mem_filter (hbalanced.mem_accepted_of_mem_queued hq))
  · have hqueued : l.acceptedOn p = l.releasedOn p ++ m.queued p := by
      rw [hbalanced.conserved, hm]
    have hhistory : ((start.transcript policy calls).filterMap Call.addition?).filter (·.1 = p) =
        (l.acceptedOn p).map fun e => (e.partition, e.record) := by
      rw [Ledger.acceptedOn, ← List.nil_append (List.filterMap ..)]
      exact hadded ▸ List.filter_map
    rw [hparts, hhistory, hqueued, List.map_append]
    exact List.suffix_append ..
  · have hsteps : Ledger.Steps policy (fun _ => True) l l.drain := l.steps_drain
    have hcounted := (hbalanced.steps hsteps).counted
    rw [Ledger.merger_drain, hm] at hcounted
    rw [hcounted, size_eq_zero hempty]
  · rw [hdrain, partitions_take]
  · intro p
    rw [isDisabled_eq, standing_drain, isDisabled_eq]
  · rw [hdrain, watermark_take]
  · have o := hordered hc hd
    refine eq_of_filter_of_before ?_ m.sorted_before fun p => ?_
    · rw [← hm]
      exact o.pairwise_departures _ hbalanced
    · rw [hparts, sorted_filter]
      rw [← hm]
      exact o.pairwise_queued hbalanced p

/-- Integers that are keyed by their tens. -/
def Policy.tens : Policy Int := { rule := .computed fun n => .ok (n / 10) }

/-- A 30 has gone and left its tens as the watermark, with which heads of all partitions tie. -/
theorem Merger.drain_sorts_tied :
    let calls : List (Call Int) := [.add 0 30, .add 1 31, .add 2 32, .next, .add 0 33, .add 0 40,
      .add 1 34, .disable 2, .disable 0, .disable 1]
    let m := (Merger.ofPartitions [0, 1, 2]).after .tens calls
    m.allDisabled = true ∧ (Merger.ofPartitions [0, 1, 2]).disciplined .tens calls = true ∧
      m.watermark = 3 ∧ m.drain.1 = [33, 31, 34, 32, 40] ∧
      m.sorted.map (·.record) = [33, 31, 34, 32, 40] ∧ m.drain.2.buffered = 0 := by
  intro calls m
  have hall : m.allDisabled = true := by decide
  have hd : (Merger.ofPartitions [0, 1, 2]).disciplined .tens calls = true := by decide
  have hgiven : m.drain.1 = [33, 31, 34, 32, 40] := by
    rw [drain_eq_take (Nat.le_refl _)]
    decide
  obtain ⟨es, hdrain, _, _, hempty, _, _, hsorted⟩ := drain_sorts .tens [0, 1, 2] calls hall
  refine ⟨hall, hd, by decide, hgiven, ?_, hempty.1⟩
  rw [← hgiven, hdrain, hsorted rfl hd]

end TimeMerge
