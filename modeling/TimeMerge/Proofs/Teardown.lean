import TimeMerge.Proofs.Confluence
import TimeMerge.Proofs.Precedence

/-!
# Teardown

To take every producer for done at once comes to the same as a flush from each one that is still to
wait for, in any order. No flush changes which record goes next, so each of them lets go a first part of
what the teardown lets go, and leaves the rest of it to the others. -/
namespace TimeMerge.Resequencer

variable {producers : List PartitionId} {s : Resequencer α} {p : PartitionId}

/-- What a teardown comes to if nothing is refused. -/
def torn (s : Resequencer α) : Resequencer α := s.silenceAll.rest

/-- Counts `n` messages, each of them the first flush of its producer. -/
def tally (n : Nat) (s : Resequencer α) : Resequencer α :=
  { s with stats := { s.stats with
      received := s.stats.received + n, flushes := s.stats.flushes + n } }

theorem tally_tally (m n : Nat) (s : Resequencer α) : (s.tally m).tally n = s.tally (m + n) := by
  simp only [tally, Nat.add_assoc]

theorem isEnabled_silenceAll (s : Resequencer α) (p : PartitionId) :
    s.silenceAll.merger.isEnabled p = false := by
  have hs : s.silenceAll.merger.standing p = _ := Merger.standing_disableAll s.merger p
  rw [Merger.isEnabled_eq, hs]
  cases s.merger.standing p <;> rfl

theorem openCount_silenceAll (s : Resequencer α) : s.silenceAll.settle.merger.openCount = 0 :=
  openCount_settle.2 s.isEnabled_silenceAll

theorem torn_eq (s : Resequencer α) : s.torn = {
    merger := s.merger.disableAll.drain.2.closeDrained
    flushed := s.silenceAll.flushed
    progress := .done
    stats := { s.stats with
      forwarded := s.stats.forwarded + s.merger.disableAll.drain.1.length } } := by
  rw [torn, rest, if_pos s.openCount_silenceAll]
  rfl

theorem outflow_silenceAll (s : Resequencer α) :
    s.silenceAll.outflow = s.merger.disableAll.drain.1.map .record ++ [.flush] := by
  rw [outflow, if_pos s.openCount_silenceAll]
  rfl

/-- A flush taken before a teardown is counted, and that is all. -/
theorem torn_silence (h : (s.merger.lane? p).isSome) : (s.receive.silence p).torn = s.torn.tally 1 := by
  have hopen : (s.merger.standing p).isSome = true := by rwa [Merger.standing, Option.isSome_map]
  have hmerger : (s.receive.silence p).merger.disableAll = s.merger.disableAll :=
    s.merger.disableAll_unblock p
  have hflushed : (s.receive.silence p).silenceAll.flushed = s.silenceAll.flushed := by
    apply Table.ext_contains
    intro q
    have hs : (s.receive.silence p).merger.standing q = _ := Merger.standing_unblock s.merger p q
    rw [contains_silenceAll, contains_silenceAll, hs, flushed_silence, flushed_receive,
      Table.contains_insert]
    by_cases hq : q = p
    · rw [hq, hopen, Bool.or_true, if_pos rfl, Bool.true_or]
    · rw [if_neg hq, if_neg hq]
  rw [torn_eq, hmerger, hflushed, torn_eq]
  rfl

theorem outflow_silence (s : Resequencer α) (p : PartitionId) :
    (s.receive.silence p).silenceAll.outflow = s.silenceAll.outflow := by
  have hmerger : (s.receive.silence p).merger.disableAll = s.merger.disableAll :=
    s.merger.disableAll_unblock p
  rw [outflow_silenceAll, hmerger, outflow_silenceAll]

/-- What has gone before a teardown and what goes then is what goes in a teardown at once. -/
theorem drain_rest (s : Resequencer α) :
    s.merger.disableAll.drain.1 = s.merger.drain.1 ++ s.rest.merger.disableAll.drain.1 ∧
      s.rest.merger.disableAll.drain.2.closeDrained = s.merger.disableAll.drain.2.closeDrained := by
  obtain ⟨hreleased, hleft⟩ := (Merger.alike_disableAll s.merger.drain.2).drain
  rw [merger_rest, merger_settle, hreleased, Merger.drain_disableAll]
  exact ⟨rfl, hleft⟩

theorem Aligned.torn_rest (h : Aligned producers s) : s.rest.torn = s.torn := by
  obtain ⟨hreleased, hleft⟩ := s.drain_rest
  have hflushed : s.rest.silenceAll.flushed = s.silenceAll.flushed := by
    apply Table.ext_contains
    intro p
    rw [contains_silenceAll, contains_silenceAll, flushed_rest, merger_rest, standing_settle]
    split
    · rename_i hclosed
      rw [h.flushed p false hclosed.1]
      rfl
    · rfl
  have hforwarded : s.rest.stats.forwarded + s.rest.merger.disableAll.drain.1.length =
      s.stats.forwarded + s.merger.disableAll.drain.1.length := by
    rw [hreleased, List.length_append, stats_rest, Nat.add_assoc]
  rw [torn_eq, hleft, hflushed, hforwarded, stats_rest, torn_eq]

theorem openCount_of_isEnabled (h : ∃ p, s.merger.isEnabled p = true) :
    s.settle.merger.openCount ≠ 0 := by
  obtain ⟨p, hp⟩ := h
  intro hnone
  rw [openCount_settle.1 hnone p] at hp
  cases hp

theorem progress_rest_of_isEnabled (hp : s.progress = .active)
    (h : ∃ p, s.merger.isEnabled p = true) : s.rest.progress = .active := by
  rw [progress_rest hp, merger_rest, if_neg (openCount_of_isEnabled h)]

theorem outflow_rest (h : ∃ p, s.merger.isEnabled p = true) :
    s.silenceAll.outflow = s.outflow ++ s.rest.silenceAll.outflow := by
  rw [outflow_silenceAll, outflow_silenceAll, s.drain_rest.1, outflow,
    if_neg (openCount_of_isEnabled h), List.map_append, List.append_nil, List.append_assoc]

/-- With nobody left to wait for there is nobody to be taken for done. -/
theorem Aligned.silenceAll_eq (h : Aligned producers s) (hd : ∀ p, s.merger.isEnabled p = false) :
    s.silenceAll = s := by
  have hmerger : s.silenceAll.merger = s.merger := Merger.disableAll_of_disabled hd
  have hflushed : s.silenceAll.flushed = s.flushed := by
    apply Table.ext_contains
    intro p
    rw [contains_silenceAll]
    cases hs : s.merger.standing p with
    | none => exact Bool.or_false _
    | some b =>
      have hb := hd p
      rw [Merger.isEnabled_eq, hs] at hb
      rw [h.flushed p b hs]
      cases b with
      | true => cases hb
      | false => rfl
  change { s with merger := s.silenceAll.merger, flushed := s.silenceAll.flushed } = s
  rw [hmerger, hflushed]

/-- The flush of the last producer to wait for does what a teardown does. -/
theorem Aligned.rest_silence (h : Aligned producers (s.receive.silence p))
    (hopen : (s.merger.lane? p).isSome)
    (hd : ∀ q, (s.receive.silence p).merger.isEnabled q = false) :
    (s.receive.silence p).rest = s.torn.tally 1 ∧
      (s.receive.silence p).outflow = s.silenceAll.outflow ∧
      (s.receive.silence p).merger.drain = s.merger.disableAll.drain := by
  have hsilent := h.silenceAll_eq hd
  refine ⟨?_, ?_, ?_⟩
  · rw [← torn_silence hopen, torn, hsilent]
  · rw [← outflow_silence s p, hsilent]
  · rw [← Merger.disableAll_of_disabled hd, ← s.merger.disableAll_unblock p]
    rfl

section Flushes

variable [Record α] {policy : Policy α}

/-- The messages with which these producers flush. -/
def flushesOf (order : List PartitionId) : List (Message α) := order.map fun p => ⟨p, .flush⟩

theorem Aligned.takes_flush (h : Aligned producers s) (policy : Policy α)
    (he : s.merger.isEnabled p = true) : Takes policy s ⟨p, .flush⟩ (s.receive.silence p) := by
  obtain ⟨hopen, hfresh⟩ := h.isEnabled_iff.1 he
  exact .flush hfresh hopen

theorem Aligned.feed_flush {k : Outlet ω α} {w : ω} (h : Aligned producers s)
    (policy : Policy α) (hp : s.progress = .active) (he : s.merger.isEnabled p = true)
    (hk : k.NeverFails w) : s.feed policy k ⟨p, .flush⟩ w =
      (.ok (s.receive.silence p).merger.drain.1.length,
        ((s.receive.silence p).rest, k.replay (s.receive.silence p).outflow w)) :=
  feed_of_neverFails (by rw [hp]; decide) (h.takes_flush policy he) hk

omit [Record α] in
/-- The others are still to wait for once one has flushed. -/
theorem isEnabled_silence_iff {order : List PartitionId} (hnot : p ∉ order)
    (hall : ∀ q, q ∈ p :: order ↔ s.merger.isEnabled q = true) (q : PartitionId) :
    q ∈ order ↔ (s.receive.silence p).merger.isEnabled q = true := by
  have hq : (s.receive.silence p).merger.isEnabled q = _ :=
    Merger.isEnabled_unblock s.merger p q
  rw [hq]
  by_cases he : q = p
  · simp [he, hnot]
  · rw [if_neg he, ← hall q, List.mem_cons, or_iff_right he]

/-- Flushes from all that are still to wait for lead where a teardown does, whatever their order. -/
theorem Aligned.serves_flushes (h : Aligned producers s) (policy : Policy α)
    (hp : s.progress = .active) {order : List PartitionId} (hn : order.Nodup)
    (hall : ∀ p, p ∈ order ↔ s.merger.isEnabled p = true) (hne : order ≠ []) : ∃ counts,
      Serves policy s (flushesOf order) counts (s.torn.tally order.length) s.silenceAll.outflow ∧
        counts.sum = s.merger.disableAll.drain.1.length := by
  induction order generalizing s with
  | nil => exact absurd rfl hne
  | cons p order ih =>
    obtain ⟨hnot, hn⟩ := List.nodup_cons.1 hn
    have henabled : s.merger.isEnabled p = true := (hall p).1 List.mem_cons_self
    have hopen : (s.merger.lane? p).isSome := (h.isEnabled_iff.1 henabled).1
    have haligned : Aligned producers (s.receive.silence p) :=
      h.moves (h.takes_flush policy henabled).moves
    have hfeed : ∀ {ω : Type} (k : Outlet ω α) (w : ω), k.NeverFails w →
        s.feed policy k ⟨p, .flush⟩ w = _ := fun k w hk => h.feed_flush policy hp henabled hk
    have hleft := isEnabled_silence_iff hnot hall
    rcases List.eq_nil_or_concat order with rfl | ⟨_, q, hlast⟩
    · -- nobody else is left, so this flush does it all
      obtain ⟨hrest, houtflow, hdrain⟩ := haligned.rest_silence hopen fun q =>
        Bool.eq_false_iff.2 (mt (hleft q).2 List.not_mem_nil)
      have hserves := Serves.cons hfeed (.nil policy _)
      rw [hrest, houtflow, List.append_nil, hdrain] at hserves
      exact ⟨_, hserves, List.sum_singleton⟩
    · have hothers : ∃ q, (s.receive.silence p).merger.isEnabled q = true :=
        ⟨q, (hleft q).1 (by simp [hlast])⟩
      have hactive : (s.receive.silence p).rest.progress = .active :=
        progress_rest_of_isEnabled hp hothers
      have hall' : ∀ q, q ∈ order ↔ (s.receive.silence p).rest.merger.isEnabled q = true := by
        intro q
        rw [hleft q, merger_rest, isEnabled_settle]
      obtain ⟨counts, hserves, hcounts⟩ := ih haligned.rest hactive hn hall' (by simp [hlast])
      refine ⟨(s.receive.silence p).merger.drain.1.length :: counts, ?_, ?_⟩
      · rw [haligned.torn_rest, torn_silence hopen, tally_tally, Nat.add_comm] at hserves
        rw [← outflow_silence s p, outflow_rest hothers]
        exact hserves.cons hfeed
      · rw [List.sum_cons, hcounts, ← List.length_append, ← (s.receive.silence p).drain_rest.1,
          ← s.merger.disableAll_unblock p]
        rfl

/-- A state that commands can lead to from the start, with some outlet and whatever it refused. -/
def Reachable (policy : Policy α) (producers : List PartitionId) (s : Resequencer α) : Prop :=
  ∃ (ω : Type) (k : Outlet ω α) (w : ω) (cs : List (Command α)),
    (after policy k cs (ofProducers producers) w).1 = s

theorem Reachable.exists_sound (h : Reachable policy producers s) : ∃ log, Sound producers s log := by
  obtain ⟨ω, k, w, cs, rfl⟩ := h
  have hsame := after_seen k.shownBy_logged policy cs (ofProducers producers) { state := w }
  rw [hsame]
  exact ⟨_, (Sound.after policy k (sound_ofProducers producers) cs).1⟩

/-- With anybody left to wait for, a teardown and a flush from each of them, in any order, hand the
same records and then one flush to any outlet that refuses nothing, answer with the same count in all,
and leave the same state but for the number of messages and of flushes. -/
theorem teardown_eq_flushes (h : Reachable policy producers s) {order : List PartitionId}
    (hn : order.Nodup)
    (hall : ∀ p, p ∈ order ↔ s.merger.isOpen p = true ∧ s.flushed.contains p = false)
    (hne : order ≠ []) :
    ∃ (records : List α) (counts : List Nat) (torn : Resequencer α),
      torn.merger.openCount = 0 ∧ torn.progress = .done ∧
      (∀ p, torn.flushed.contains p = (s.flushed.contains p || s.merger.isOpen p)) ∧
      torn.stats = { s.stats with forwarded := s.stats.forwarded + counts.sum } ∧
      ∀ {ω : Type} (k : Outlet ω α) (w : ω), k.NeverFails w →
        s.disableAll k w = (.ok counts.sum, (torn, k.replay (records.map .record ++ [.flush]) w)) ∧
        replies policy k ((flushesOf order).map .feed) s w = counts.map .ok ∧
        after policy k ((flushesOf order).map .feed) s w =
          ({ torn with stats := { torn.stats with
              received := torn.stats.received + order.length
              flushes := torn.stats.flushes + order.length } },
            k.replay (records.map .record ++ [.flush]) w) := by
  obtain ⟨log, hsound⟩ := h.exists_sound
  have henabled : ∀ p, p ∈ order ↔ s.merger.isEnabled p = true := by
    intro p
    rw [hall p, hsound.isEnabled_iff]
  have hactive : s.progress = .active := by
    obtain ⟨p, hp⟩ := List.exists_mem_of_ne_nil _ hne
    exact hsound.enabled p ((henabled p).1 hp)
  obtain ⟨counts, hserves, hcounts⟩ :=
    hsound.toAligned.serves_flushes policy hactive hn henabled hne
  rw [outflow_silenceAll] at hserves
  refine ⟨s.merger.disableAll.drain.1, counts, s.torn, ?_, ?_, ?_, ?_, fun k w hk => ⟨?_, ?_, ?_⟩⟩
  · rw [torn, merger_rest, openCount_silenceAll]
  · rw [torn_eq]
  · intro p
    rw [torn_eq, contains_silenceAll, Merger.isOpen_eq]
  · rw [torn_eq, hcounts]
  · have hne' : s.progress ≠ .done := by rw [hactive]; decide
    have hdrain := drain_of_neverFails (s := s.silenceAll) hne' hk
    rw [outflow_silenceAll] at hdrain
    rw [disableAll_eq_drain hne', hdrain, hcounts]
    rfl
  · exact hserves.replies k w hk
  · exact hserves.after k w hk

/-- Three producers, the first of which went back in time with no order asked for. -/
def unsorted : Resequencer Int where
  merger.lanes := ⟨[(0, ⟨[(5, 5), (3, 3)], some 3, true⟩), (1, ⟨[(4, 4), (8, 8)], some 8, true⟩),
    (2, {})], by decide⟩
  merger.buffered := 4
  stats.received := 4

def unorderedPolicy : Policy Int := { Policy.selfKeyed with checkOrder := false }

theorem reachable_unsorted : Reachable unorderedPolicy [0, 1, 2] unsorted := by
  refine ⟨_, Outlet.collect, [], [.feed ⟨0, .record 5⟩, .feed ⟨0, .record 3⟩, .feed ⟨1, .record 4⟩,
    .feed ⟨1, .record 8⟩], ?_⟩
  -- a release evaluates only as departures that are counted beforehand
  simp only [after, obey, feed, drain, Merger.release_eq_offer, Merger.drain_eq_take (Nat.le_refl _)]
  decide

/-- Buffers that are not sorted are torn down as flushes in another order empty them. -/
theorem teardown_eq_flushes_unsorted :
    (unsorted.disableAll Outlet.collect []).2.2 = [4, 5, 3, 8] ∧
      ∃ counts : List Nat, (unsorted.disableAll Outlet.collect []).1 = .ok counts.sum ∧
        replies unorderedPolicy .collect ((flushesOf [2, 0, 1]).map .feed) unsorted [] =
          counts.map .ok ∧
        (after unorderedPolicy .collect ((flushesOf [2, 0, 1]).map .feed) unsorted []).2 =
          [4, 5, 3, 8] := by
  have hall : ∀ p, p ∈ [2, 0, 1] ↔
      unsorted.merger.isOpen p = true ∧ unsorted.flushed.contains p = false := by
    intro p
    rcases p with _ | _ | _ | p
    · decide
    · decide
    · decide
    · simp [unsorted, Merger.isOpen, Merger.lane?, Table.get?]
  obtain ⟨records, counts, torn, _, _, _, _, hsame⟩ :=
    teardown_eq_flushes reachable_unsorted (by decide) hall (by decide)
  obtain ⟨hteardown, hreplies, hflushes⟩ := hsame .collect [] (Outlet.neverFails_collect [])
  have hrecords : (unsorted.disableAll Outlet.collect []).2.2 = [4, 5, 3, 8] := by
    simp only [disableAll, drain, Merger.release_eq_offer, Merger.drain_eq_take (Nat.le_refl _)]
    decide
  refine ⟨hrecords, counts, ?_, hreplies, ?_⟩
  · rw [hteardown]
  · rw [hteardown] at hrecords
    rw [hflushes, hrecords]

end Flushes

end TimeMerge.Resequencer
