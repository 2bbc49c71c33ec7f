import Mathlib.Algebra.BigOperators.Group.Finset.Basic
import TimeMerge.Proofs.Reception

/-!
# Resequencing as a merge

Every producer sends its records in order and then a flush, and the messages of all of them come in
some order. Whichever it is, all are taken: the stream of a producer says what has been taken for it
and that it has not flushed before its last message. At the end nothing is left, and what was handed
over is the merge of the streams. -/
namespace TimeMerge

/-- The items of a list are those of each partition together. -/
theorem length_eq_sum_filter {β : Type} (f : β → PartitionId) (ps : Finset PartitionId)
    {xs : List β} (h : ∀ x ∈ xs, f x ∈ ps) :
    xs.length = ∑ p ∈ ps, (xs.filter (f · = p)).length := by
  have hm : ∀ p ∈ (xs.map f : Multiset PartitionId), p ∈ ps := by
    intro p hp
    obtain ⟨x, hx, rfl⟩ := List.mem_map.1 (Multiset.mem_coe.1 hp)
    exact h x hx
  have hsum := Multiset.sum_count_eq_card hm
  rw [Multiset.coe_card, List.length_map] at hsum
  rw [← hsum]
  refine Finset.sum_congr rfl fun p _ => ?_
  rw [Multiset.coe_count, List.count, List.countP_map, List.countP_eq_length_filter]
  rfl

/-- A place in a list with a last item is before that item or at it. -/
theorem append_eq_concat {β : Type} {xs ys zs : List β} {x y : β} (h : xs ++ x :: ys = zs ++ [y]) :
    (∃ rest, zs = xs ++ x :: rest) ∨ zs = xs ∧ x = y := by
  rcases List.eq_nil_or_concat' ys with rfl | ⟨rest, z, rfl⟩
  · obtain ⟨rfl, hy⟩ := List.append_inj' h rfl
    exact .inr ⟨rfl, by simpa using hy⟩
  · rw [← List.cons_append, ← List.append_assoc] at h
    obtain ⟨rfl, _⟩ := List.append_inj' h rfl
    exact .inl ⟨rest, rfl⟩

variable [Record α] {policy : Policy α}

/-- Messages of all producers, the stream of each followed by a flush, in some order. A stream is in
order, and its records have the timestamps that it says. -/
structure Interleaving (policy : Policy α) (producers : List PartitionId)
    (streams : PartitionId → List (Entry α)) (msgs : List (Message α)) : Prop where
  known : ∀ msg ∈ msgs, msg.producer ∈ producers
  sent : ∀ p ∈ producers, msgs.filter (·.producer = p) =
    (streams p).map (fun e => ⟨p, .record e.record⟩) ++ [⟨p, .flush⟩]
  owned : ∀ p ∈ producers, ∀ e ∈ streams p, e.partition = p
  keyed : ∀ p ∈ producers, ∀ e ∈ streams p, policy.rule.timestamp e.record = .ok e.timestamp
  ascending : ∀ p ∈ producers, (Ledger.timestamps (streams p)).Pairwise (· ≤ ·)

namespace Interleaving

variable {producers : List PartitionId} {streams : PartitionId → List (Entry α)}
  {msgs earlier later : List (Message α)} {msg : Message α} {p : PartitionId}

/-- What a producer has sent before a message is the beginning of its stream, and the message is
what follows. -/
theorem next (h : Interleaving policy producers streams msgs)
    (hsplit : msgs = earlier ++ msg :: later) :
    ∃ es fs, streams msg.producer = es ++ fs ∧
      earlier.filter (·.producer = msg.producer) =
        es.map (fun e => ⟨msg.producer, .record e.record⟩) ∧
      ((∃ e gs, fs = e :: gs ∧ msg.payload = .record e.record) ∨ msg.payload = .flush) := by
  have hsent := h.sent msg.producer (h.known msg (by simp [hsplit]))
  rw [hsplit, List.filter_append, List.filter_cons_of_pos (by simp)] at hsent
  rcases append_eq_concat hsent with ⟨rest, hrest⟩ | ⟨hbefore, hflush⟩
  · obtain ⟨es, fs, hes, hbefore, hfs⟩ := List.map_eq_append_iff.1 hrest
    obtain ⟨e, gs, rfl, hmsg, _⟩ := List.map_eq_cons_iff.1 hfs
    exact ⟨es, e :: gs, hes, hbefore.symm, .inl ⟨e, gs, rfl, by rw [← hmsg]⟩⟩
  · exact ⟨streams msg.producer, [], (List.append_nil _).symm, hbefore.symm, .inr (by rw [hflush])⟩

theorem sent_stream (h : Interleaving policy producers streams msgs) (hp : p ∈ producers)
    {es fs : List (Entry α)} (hes : streams p = es ++ fs) :
    policy.sent (es.map fun e => ⟨p, .record e.record⟩) = es := by
  have hentry : ∀ e ∈ es, policy.entryOf? ⟨p, .record e.record⟩ = some e := by
    intro e he
    have hm : e ∈ streams p := hes ▸ List.mem_append_left _ he
    obtain rfl := h.owned p hp e hm
    exact Policy.entryOf?_record (h.keyed _ hp e hm)
  rw [Policy.sent, List.filterMap_map]
  exact (List.filterMap_congr hentry).trans List.filterMap_some

theorem flush_mem_iff (h : Interleaving policy producers streams msgs) :
    ⟨p, .flush⟩ ∈ msgs ↔ p ∈ producers := by
  constructor
  · exact h.known ⟨p, .flush⟩
  · intro hp
    have hm : ⟨p, .flush⟩ ∈ msgs.filter (·.producer = p) := by
      rw [h.sent p hp]
      exact List.mem_append_right _ (List.mem_singleton_self _)
    exact List.mem_of_mem_filter hm

end Interleaving

namespace Resequencer

variable {producers : List PartitionId} {streams : PartitionId → List (Entry α)}
  {msgs earlier later : List (Message α)} {msg : Message α} {l : Ledger α} {s : Resequencer α}
  {calls : List (Signal α)} {p : PartitionId}

/-- A producer with a message still to come is enabled. -/
theorem Tracks.isEnabled_of_next (t : Tracks policy producers earlier l s)
    (h : Interleaving policy producers streams msgs) (hsplit : msgs = earlier ++ msg :: later) :
    s.flushed.contains msg.producer = false ∧ s.merger.isEnabled msg.producer = true := by
  obtain ⟨es, fs, _, hbefore, _⟩ := h.next hsplit
  have hfresh : s.flushed.contains msg.producer = false := by
    rw [← Bool.not_eq_true, t.ended]
    intro hm
    have hf : (⟨msg.producer, .flush⟩ : Message α) ∈ earlier.filter (·.producer = msg.producer) :=
      List.mem_filter.2 ⟨hm, by simp⟩
    simp [hbefore] at hf
  exact ⟨hfresh, t.isEnabled_iff.2 ⟨h.known msg (by simp [hsplit]), hfresh⟩⟩

/-- The next message of an interleaving is taken. -/
theorem Tracks.takes_next (t : Tracks policy producers earlier l s)
    (h : Interleaving policy producers streams msgs) (hsplit : msgs = earlier ++ msg :: later) :
    ∃ s', Takes policy s msg s' := by
  obtain ⟨hfresh, henabled⟩ := t.isEnabled_of_next h hsplit
  obtain ⟨lane, hl, _⟩ := Merger.standing_eq_some.1 (Merger.isEnabled_iff_standing.1 henabled)
  have hp : msg.producer ∈ producers := h.known msg (by simp [hsplit])
  obtain ⟨es, fs, hes, hbefore, hmsg⟩ := h.next hsplit
  obtain ⟨p, payload⟩ := msg
  rcases hmsg with ⟨e, gs, rfl, rfl⟩ | rfl
  · have he : e ∈ streams p := by rw [hes]; simp
    obtain rfl := h.owned p hp e he
    refine ⟨_, .record hfresh hl (h.keyed _ hp e he) ?_⟩
    intro _ ts hts
    have hlatest := t.balanced.latest _ lane (by rw [t.merger, hl])
    rw [Ledger.latest?, t.acceptedOn_eq, hbefore, h.sent_stream hp hes] at hlatest
    rw [hlatest, Option.mem_def] at hts
    obtain ⟨f, hf, rfl⟩ := Option.map_eq_some_iff.1 hts
    have hasc := h.ascending _ hp
    rw [hes, Ledger.timestamps, List.map_append, List.pairwise_append] at hasc
    exact hasc.2.2 _ (List.mem_map_of_mem (List.mem_of_getLast? hf)) _ List.mem_cons_self
  · exact ⟨_, .flush hfresh (Option.isSome_of_eq_some hl)⟩

theorem Rests.active_of_next (r : Rests policy producers earlier l s calls)
    (h : Interleaving policy producers streams msgs) (hsplit : msgs = earlier ++ msg :: later) :
    s.progress = .active := by
  obtain ⟨_, henabled⟩ := r.isEnabled_of_next h hsplit
  exact r.active_of_standing (Merger.isEnabled_iff_standing.1 henabled)

/-- All messages of an interleaving are taken, up to any of them. -/
theorem exists_reaches_of_interleaving (h : Interleaving policy producers streams msgs)
    (hsplit : msgs = earlier ++ later) :
    ∃ counts l s calls, Reaches policy producers earlier counts l s calls := by
  induction earlier using List.reverseRecOn generalizing later with
  | nil => exact ⟨_, _, _, _, reaches_nil policy producers⟩
  | append_singleton earlier msg ih =>
    rw [List.append_assoc, List.singleton_append] at hsplit
    obtain ⟨counts, l, s, calls, r⟩ := ih hsplit
    have hactive := r.active_of_next h hsplit
    obtain ⟨s', ht⟩ := r.takes_next h hsplit
    exact r.takes (by rw [hactive]; decide) ht

section Ended

variable (h : Interleaving policy producers streams msgs)

include h

theorem Tracks.contains_iff (t : Tracks policy producers msgs l s) :
    s.flushed.contains p = true ↔ p ∈ producers :=
  (t.ended p).trans h.flush_mem_iff

theorem Tracks.isEnabled_eq_false (t : Tracks policy producers msgs l s) (p : PartitionId) :
    s.merger.isEnabled p = false := by
  rw [← Bool.not_eq_true, t.isEnabled_iff, ← Bool.not_eq_true, t.contains_iff h]
  exact fun hp => hp.2 hp.1

/-- Nobody is left who could hold anything back. -/
theorem Rests.queued_eq_nil (r : Rests policy producers msgs l s calls) (p : PartitionId) :
    s.merger.queued p = [] :=
  Merger.queued_eq_nil_of_settled r.settled (r.isEnabled_eq_false h) p

theorem Rests.progress_eq_done (r : Rests policy producers msgs l s calls) (hne : producers ≠ []) :
    s.progress = .done := by
  have hopen : s.merger.openCount = 0 := by
    rw [Merger.openCount_eq_zero_iff]
    intro p
    cases hs : s.merger.standing p with
    | none => rfl
    | some b =>
      cases b with
      | true =>
        have henabled := Merger.isEnabled_iff_standing.2 hs
        simp [r.isEnabled_eq_false h] at henabled
      | false => exact absurd (r.queued_eq_nil h p) (r.closed p hs)
  rw [r.progress, if_neg hne, if_pos hopen]

theorem Rests.releasedOn_eq (r : Rests policy producers msgs l s calls) (hp : p ∈ producers) :
    l.releasedOn p = streams p := by
  have hconserved := r.balanced.conserved p
  have hsent : policy.sent ((streams p).map (fun e => ⟨p, .record e.record⟩) ++ [⟨p, .flush⟩]) =
      streams p := by
    rw [Policy.sent_snoc, h.sent_stream hp (List.append_nil _).symm]
    exact List.append_nil _
  rw [r.acceptedOn_eq, h.sent p hp, hsent, r.merger, r.queued_eq_nil h,
    List.append_nil] at hconserved
  exact hconserved.symm

omit h in
theorem Tracks.mem_of_mem_released (t : Tracks policy producers msgs l s) {e : Entry α}
    (he : e ∈ l.released) : e.partition ∈ producers := by
  have ha := t.balanced.mem_accepted_of_mem_released he
  rw [t.accepted, Policy.sent] at ha
  obtain ⟨msg, hm, hentry⟩ := List.mem_filterMap.1 ha
  rw [Policy.partition_of_entryOf? hentry]
  exact t.known msg hm

/-- The counts are those of the streams: one release for each record, and one flush for each
producer. -/
theorem Rests.stats_eq (r : Rests policy producers msgs l s calls) :
    s.stats =
      { received := (∑ p ∈ producers.toFinset, (streams p).length) + producers.toFinset.card,
        forwarded := ∑ p ∈ producers.toFinset, (streams p).length,
        flushes := producers.toFinset.card } := by
  have hforwarded : s.stats.forwarded = ∑ p ∈ producers.toFinset, (streams p).length := by
    rw [r.forwarded, length_eq_sum_filter Entry.partition producers.toFinset]
    · refine Finset.sum_congr rfl fun p hp => ?_
      rw [← r.releasedOn_eq h (List.mem_toFinset.1 hp), Ledger.releasedOn]
    · exact fun e he => List.mem_toFinset.2 (r.mem_of_mem_released he)
  have hreceived : s.stats.received =
      (∑ p ∈ producers.toFinset, (streams p).length) + producers.toFinset.card := by
    rw [r.received, length_eq_sum_filter Message.producer producers.toFinset,
      Finset.card_eq_sum_ones, ← Finset.sum_add_distrib]
    · refine Finset.sum_congr rfl fun p hp => ?_
      rw [h.sent p (List.mem_toFinset.1 hp)]
      simp
    · exact fun msg hm => List.mem_toFinset.2 (h.known msg hm)
  have hflushes : s.stats.flushes = producers.toFinset.card := by
    have hids : s.flushed.ids.toFinset = producers.toFinset := by
      ext p
      rw [List.mem_toFinset, List.mem_toFinset, Table.mem_ids_iff, ← Table.contains_eq_isSome,
        r.contains_iff h]
    rw [r.flushes, ← hids, List.toFinset_card_of_nodup s.flushed.nodup_ids, Table.ids,
      List.length_map]
    rfl
  cases hs : s.stats
  simp_all

end Ended

/-- Whatever the interleaving, the streams are merged: every message is taken, progress is done at
the last one and not before, and what every outlet that refuses nothing is handed is all the records
in the order of their timestamps, each producer's in its own order, and then one flush. -/
theorem feeds_merge (policy : Policy α) (producers : List PartitionId)
    (streams : PartitionId → List (Entry α)) (msgs : List (Message α)) (hne : producers ≠ [])
    (hc : policy.checkOrder = true) (h : Interleaving policy producers streams msgs) :
    let start : Resequencer α := ofProducers producers
    let total := ∑ p ∈ producers.toFinset, (streams p).length
    ∃ (emitted : List (Entry α)) (s : Resequencer α) (counts : List Nat),
      (∀ {ω : Type} (k : Outlet ω α) (w : ω), k.NeverFails w →
        replies policy k (msgs.map .feed) start w = counts.map .ok ∧
        after policy k (msgs.map .feed) start w =
          (s, k.replay (emitted.map (.record ·.record) ++ [.flush]) w) ∧
        ∀ n < msgs.length,
          (after policy k ((msgs.take n).map .feed) start w).1.progress ≠ .done) ∧
      (emitted.map (·.timestamp)).Pairwise (· ≤ ·) ∧
      (∀ e ∈ emitted, e.partition ∈ producers) ∧
      (∀ p ∈ producers, emitted.filter (·.partition = p) = streams p) ∧
      counts.sum = total ∧
      s.stats =
        { received := total + producers.toFinset.card, forwarded := total,
          flushes := producers.toFinset.card } ∧
      s.progress = .done := by
  intro start total
  obtain ⟨counts, l, s, calls, r⟩ :=
    exists_reaches_of_interleaving h (List.append_nil msgs).symm
  have hdone := r.progress_eq_done h hne
  have hstats := r.stats_eq h
  refine ⟨l.released, s, counts, fun k w hk => ⟨r.served.replies k w hk, ?_, fun n hn => ?_⟩,
    (r.ordered hc).ascending, fun e he => r.mem_of_mem_released he,
    fun p hp => r.releasedOn_eq h hp, ?_, hstats, hdone⟩
  · rw [r.served.after k w hk, r.seen, if_pos hdone]
    rfl
  · have hsplit : msgs = msgs.take n ++ msgs[n] :: msgs.drop (n + 1) := by
      rw [List.getElem_cons_drop, List.take_append_drop]
    obtain ⟨_, _, s', _, r'⟩ := exists_reaches_of_interleaving h hsplit
    rw [r'.served.after k w hk, r'.active_of_next h hsplit]
    decide
  · rw [r.counted, hstats]

/-- The streams of three producers, the last of them empty. -/
def threeStreams : PartitionId → List (Entry Int)
  | 0 => [⟨0, 3, 3⟩, ⟨0, 7, 7⟩]
  | 1 => [⟨1, 5, 5⟩]
  | _ => []

/-- One producer flushes before the others send anything, one while its records still wait. -/
def threeMessages : List (Message Int) :=
  [⟨2, .flush⟩, ⟨0, .record 3⟩, ⟨0, .record 7⟩, ⟨0, .flush⟩, ⟨1, .record 5⟩, ⟨1, .flush⟩]

theorem interleaving_threeMessages :
    Interleaving .selfKeyed [0, 1, 2] threeStreams threeMessages where
  known := by decide
  sent := by decide
  owned := by decide
  keyed := by decide
  ascending := by decide

/-- Three records of two producers come out in order, although the one that is sent last goes
second. -/
theorem feeds_merge_three : ∃ s : Resequencer Int,
    after .selfKeyed .collect (threeMessages.map .feed) (ofProducers [0, 1, 2]) [] =
      (s, [3, 5, 7]) ∧
      s.stats = { received := 6, forwarded := 3, flushes := 3 } ∧ s.progress = .done := by
  obtain ⟨emitted, s, _, hrun, hsorted, hknown, hstreams, _, hstats, hdone⟩ :=
    feeds_merge .selfKeyed [0, 1, 2] threeStreams threeMessages (by decide) rfl
      interleaving_threeMessages
  have hperm : emitted.Perm [⟨0, 3, 3⟩, ⟨1, 5, 5⟩, ⟨0, 7, 7⟩] := by
    refine perm_of_filter_partition fun p => ?_
    by_cases hp : p ∈ [0, 1, 2]
    · rw [hstreams p hp]
      revert p
      decide
    · have hnone : ∀ es : List (Entry Int), (∀ e ∈ es, e.partition ∈ [0, 1, 2]) →
          es.filter (·.partition = p) = [] := fun es hes =>
        List.filter_eq_nil_iff.2 fun e he hep => hp (of_decide_eq_true hep ▸ hes e he)
      rw [hnone emitted hknown, hnone _ (by decide)]
  have htimes : emitted.map (·.timestamp) = [3, 5, 7] :=
    (hperm.map _).eq_of_pairwise (fun a b _ _ => Int.le_antisymm) hsorted (by decide)
  have hsame : emitted.map (·.record) = emitted.map (·.timestamp) := by
    refine List.map_congr_left fun e he => ?_
    have hall : ∀ e ∈ ([⟨0, 3, 3⟩, ⟨1, 5, 5⟩, ⟨0, 7, 7⟩] : List (Entry Int)),
        e.record = e.timestamp := by decide
    exact hall e (hperm.mem_iff.1 he)
  refine ⟨s, ?_, hstats, hdone⟩
  obtain ⟨_, hafter, _⟩ := hrun .collect [] (Outlet.neverFails_collect [])
  rw [hafter, Outlet.replay_collect, hsame, htimes]
  rfl

end Resequencer

end TimeMerge
