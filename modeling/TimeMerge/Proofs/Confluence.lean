import TimeMerge.Proofs.Frontier
import TimeMerge.Proofs.Interleaving

/-!
# Confluence

How the messages of several producers interleave decides when a record goes out, and in which order
records with equal timestamps do. It does not decide what has gone out once a resequencer is at
rest: that depends on what each producer has sent so far, and so does the state. -/
namespace TimeMerge

/-- Messages with the same stream for every producer. -/
def SameStreams (msgs msgs' : List (Message α)) : Prop :=
  ∀ p, msgs.filter (·.producer = p) = msgs'.filter (·.producer = p)

namespace SameStreams

variable {msgs msgs' : List (Message α)}

theorem perm (h : SameStreams msgs msgs') : msgs.Perm msgs' := perm_of_filter_eq Message.producer h

end SameStreams

/-- A table without values is known by its partitions. -/
theorem Table.ext_contains {s t : Table Unit} (h : ∀ p, s.contains p = t.contains p) : s = t := by
  apply Table.ext_get?
  intro p
  have hp := h p
  rw [contains_eq_isSome, contains_eq_isSome] at hp
  cases hs : s.get? p <;> cases ht : t.get? p <;> simp_all

namespace Ledger

variable [Record α] {policy : Policy α} {l l' : Ledger α}

/-- Where the same was taken and the same partitions are to wait for, the same has gone. -/
theorem Ordered.releasedOn_congr (h : l.Balanced policy) (o : l.Ordered)
    (hs : l.merger.departure? = none) (h' : l'.Balanced policy) (o' : l'.Ordered)
    (hs' : l'.merger.departure? = none)
    (hfront : ∀ p, l.merger.isEnabled p = l'.merger.isEnabled p)
    (haccepted : ∀ p, l.acceptedOn p = l'.acceptedOn p) (p : PartitionId) :
    l.releasedOn p = l'.releasedOn p := by
  have hdue : l.IsDue = l'.IsDue := by
    funext e
    simp only [IsDue, Merger.mem_front_iff, hfront, haccepted]
  rw [o.releasedOn_eq_filter h hs, o'.releasedOn_eq_filter h' hs', haccepted, hdue]

end Ledger

namespace Resequencer

variable [Record α] {policy : Policy α} {producers : List PartitionId}
  {msgs msgs' : List (Message α)} {l l' : Ledger α} {s s' : Resequencer α}
  {calls calls' : List (Signal α)} {p : PartitionId}

theorem Rests.standing_eq_false_iff (r : Rests policy producers msgs l s calls) :
    s.merger.standing p = some false ↔ s.flushed.contains p = true ∧ s.merger.queued p ≠ [] := by
  constructor
  · intro h
    exact ⟨r.flushed p false h, r.closed p h⟩
  · rintro ⟨hf, hq⟩
    cases hs : s.merger.standing p with
    | none => exact absurd (Merger.queued_of_lane?_none (Merger.standing_eq_none.1 hs)) hq
    | some b =>
      have hb := r.flushed p b hs
      simpa [hf] using hb

section Congruence

variable (hsame : SameStreams msgs msgs')

include hsame

theorem Tracks.acceptedOn_congr (t : Tracks policy producers msgs l s)
    (t' : Tracks policy producers msgs' l' s') (p : PartitionId) :
    l.acceptedOn p = l'.acceptedOn p := by
  rw [t.acceptedOn_eq, t'.acceptedOn_eq, hsame p]

theorem Tracks.flushed_congr (t : Tracks policy producers msgs l s)
    (t' : Tracks policy producers msgs' l' s') : s.flushed = s'.flushed := by
  apply Table.ext_contains
  intro p
  rw [Bool.eq_iff_iff, t.ended, t'.ended, hsame.perm.mem_iff]

theorem Tracks.isEnabled_congr (t : Tracks policy producers msgs l s)
    (t' : Tracks policy producers msgs' l' s') (p : PartitionId) :
    s.merger.isEnabled p = s'.merger.isEnabled p := by
  rw [Bool.eq_iff_iff, t.isEnabled_iff, t'.isEnabled_iff, t.flushed_congr hsame t']

variable (hc : policy.checkOrder = true)

include hc

theorem Rests.releasedOn_congr (r : Rests policy producers msgs l s calls)
    (r' : Rests policy producers msgs' l' s' calls') (p : PartitionId) :
    l.releasedOn p = l'.releasedOn p := by
  refine (r.ordered hc).releasedOn_congr r.balanced ?_ r'.balanced (r'.ordered hc) ?_ ?_
    (r.acceptedOn_congr hsame r'.toTracks) p
  · rw [r.merger, r.settled]
  · rw [r'.merger, r'.settled]
  · intro q
    rw [r.merger, r'.merger, r.isEnabled_congr hsame r'.toTracks]

/-- What has not gone is queued. -/
theorem Rests.queued_congr (r : Rests policy producers msgs l s calls)
    (r' : Rests policy producers msgs' l' s' calls') (p : PartitionId) :
    s.merger.queued p = s'.merger.queued p := by
  have hconserved := r.balanced.conserved p
  rw [r.acceptedOn_congr hsame r'.toTracks p, r'.balanced.conserved p,
    r.releasedOn_congr hsame hc r' p, r.merger, r'.merger] at hconserved
  exact (List.append_cancel_left hconserved).symm

omit hc in
/-- Of the producers that have flushed, those with something queued are still open. -/
theorem Rests.standing_congr (r : Rests policy producers msgs l s calls)
    (r' : Rests policy producers msgs' l' s' calls')
    (hq : s.merger.queued p = s'.merger.queued p) :
    s.merger.standing p = s'.merger.standing p := by
  apply Option.ext
  intro b
  cases b with
  | true =>
    rw [← Merger.isEnabled_iff_standing, ← Merger.isEnabled_iff_standing,
      r.isEnabled_congr hsame r'.toTracks]
  | false =>
    rw [r.standing_eq_false_iff, r'.standing_eq_false_iff, r.flushed_congr hsame r'.toTracks, hq]

theorem Rests.lane?_congr (r : Rests policy producers msgs l s calls)
    (r' : Rests policy producers msgs' l' s' calls') (p : PartitionId) :
    s.merger.lane? p = s'.merger.lane? p := by
  have hq := r.queued_congr hsame hc r' p
  have hs := r.standing_congr hsame r' hq
  cases hl : s.merger.lane? p with
  | none =>
    rw [Merger.standing_eq_none.2 hl] at hs
    rw [Merger.standing_eq_none.1 hs.symm]
  | some lane =>
    have hsome : s'.merger.standing p = some lane.enabled := by
      rw [← hs, Merger.standing, hl, Option.map_some]
    obtain ⟨lane', hl', henabled⟩ := Merger.standing_eq_some.1 hsome
    have hlast : lane.last = lane'.last := by
      rw [r.balanced.latest p lane (by rw [r.merger, hl]),
        r'.balanced.latest p lane' (by rw [r'.merger, hl']), Ledger.latest?, Ledger.latest?,
        r.acceptedOn_congr hsame r'.toTracks]
    rw [hl', Option.some.injEq]
    exact Merger.eq_of_queued_eq hl hl' hq hlast henabled.symm

theorem Rests.released_perm (r : Rests policy producers msgs l s calls)
    (r' : Rests policy producers msgs' l' s' calls') : l.released.Perm l'.released :=
  perm_of_filter_partition (r.releasedOn_congr hsame hc r')

/-- In order, the timestamps of what has gone stand in one way only. -/
theorem Rests.timestamps_congr (r : Rests policy producers msgs l s calls)
    (r' : Rests policy producers msgs' l' s' calls') :
    Ledger.timestamps l.released = Ledger.timestamps l'.released :=
  ((r.released_perm hsame hc r').map _).eq_of_pairwise (fun _ _ _ _ => Int.le_antisymm)
    (r.ordered hc).ascending (r'.ordered hc).ascending

theorem Rests.merger_congr (r : Rests policy producers msgs l s calls)
    (r' : Rests policy producers msgs' l' s' calls') : s.merger = s'.merger := by
  have hlanes : s.merger.lanes = s'.merger.lanes := Table.ext_get? (r.lane?_congr hsame hc r')
  have hwatermark : s.merger.watermark = s'.merger.watermark := by
    rw [← r.merger, ← r'.merger, (r.ordered hc).watermark, (r'.ordered hc).watermark,
      r.timestamps_congr hsame hc r']
  have hbuffered : s.merger.buffered = s'.merger.buffered := by
    rw [← r.merger, ← r'.merger, r.balanced.counted, r'.balanced.counted, r.merger, r'.merger,
      Merger.size, Merger.size, hlanes]
  cases hm : s.merger
  cases hm' : s'.merger
  simp_all

theorem Rests.stats_congr (r : Rests policy producers msgs l s calls)
    (r' : Rests policy producers msgs' l' s' calls') : s.stats = s'.stats := by
  have hreceived : s.stats.received = s'.stats.received := by
    rw [r.received, r'.received, hsame.perm.length_eq]
  have hforwarded : s.stats.forwarded = s'.stats.forwarded := by
    rw [r.forwarded, r'.forwarded, (r.released_perm hsame hc r').length_eq]
  have hflushes : s.stats.flushes = s'.stats.flushes := by
    rw [r.flushes, r'.flushes, r.flushed_congr hsame r'.toTracks]
  cases hs : s.stats
  cases hs' : s'.stats
  simp_all

theorem Rests.state_congr (r : Rests policy producers msgs l s calls)
    (r' : Rests policy producers msgs' l' s' calls') : s = s' := by
  have hmerger := r.merger_congr hsame hc r'
  have hflushed := r.flushed_congr hsame r'.toTracks
  have hprogress : s.progress = s'.progress := by rw [r.progress, r'.progress, hmerger]
  have hstats := r.stats_congr hsame hc r'
  obtain ⟨m, f, g, t⟩ := s
  obtain ⟨m', f', g', t'⟩ := s'
  obtain rfl : m = m' := hmerger
  obtain rfl : f = f' := hflushed
  obtain rfl : g = g' := hprogress
  obtain rfl : t = t' := hstats
  rfl

end Congruence

/-- Whatever the interleaving, the same streams lead to the same state, and what every outlet that
refuses nothing is handed has the same timestamps in the same order, the same records of each
producer in the order in which they were sent, and a flush in both cases or in neither. -/
theorem confluent (policy : Policy α) (producers : List PartitionId) (msgs msgs' : List (Message α))
    (hc : policy.checkOrder = true) (hsame : SameStreams msgs msgs') {k : Outlet ω α} {w : ω}
    (hk : k.NeverFails w) {k' : Outlet ω' α} {w' : ω'} (hk' : k'.NeverFails w')
    (hok : ∀ answer ∈ replies policy k (msgs.map .feed) (ofProducers producers) w,
      ∃ n, answer = .ok n)
    (hok' : ∀ answer ∈ replies policy k' (msgs'.map .feed) (ofProducers producers) w',
      ∃ n, answer = .ok n) :
    ∃ (s : Resequencer α) (emitted emitted' : List (Entry α)) (ending : List (Signal α)),
      (∀ {ω : Type} (k : Outlet ω α) (w : ω), k.NeverFails w →
        after policy k (msgs.map .feed) (ofProducers producers) w =
          (s, k.replay (emitted.map (.record ·.record) ++ ending) w)) ∧
      (∀ {ω : Type} (k : Outlet ω α) (w : ω), k.NeverFails w →
        after policy k (msgs'.map .feed) (ofProducers producers) w =
          (s, k.replay (emitted'.map (.record ·.record) ++ ending) w)) ∧
      emitted.map (·.timestamp) = emitted'.map (·.timestamp) ∧
      (∀ p, emitted.filter (·.partition = p) = emitted'.filter (·.partition = p)) ∧
      (∀ p, emitted.filter (·.partition = p) <+:
        policy.sent (msgs.filter (·.producer = p))) ∧
      ending = if s.progress = .done then [.flush] else [] := by
  obtain ⟨counts, l, s, calls, r⟩ := exists_reaches hk hok
  obtain ⟨counts', l', s', calls', r'⟩ := exists_reaches hk' hok'
  obtain rfl : s = s' := r.state_congr hsame hc r'.toRests
  refine ⟨s, l.released, l'.released, _, fun k w hk => ?_, fun k w hk => ?_,
    r.timestamps_congr hsame hc r'.toRests, r.releasedOn_congr hsame hc r'.toRests,
    fun p => ?_, rfl⟩
  · rw [r.served.after k w hk, r.seen]
    rfl
  · rw [r'.served.after k w hk, r'.seen]
    rfl
  · rw [← r.acceptedOn_eq, r.balanced.conserved p]
    exact List.prefix_append ..

/-- The same streams as in `threeMessages`, interleaved otherwise. -/
def threeReordered : List (Message Int) :=
  [⟨0, .record 3⟩, ⟨1, .record 5⟩, ⟨0, .record 7⟩, ⟨2, .flush⟩, ⟨0, .flush⟩, ⟨1, .flush⟩]

theorem interleaving_threeReordered :
    Interleaving .selfKeyed [0, 1, 2] threeStreams threeReordered where
  known := by decide
  sent := by decide
  owned := by decide
  keyed := by decide
  ascending := by decide

theorem exists_ok_of_interleaving {msgs : List (Message Int)}
    (h : Interleaving .selfKeyed [0, 1, 2] threeStreams msgs) (n : Nat) :
    ∀ answer ∈ replies .selfKeyed .collect ((msgs.take n).map .feed) (ofProducers [0, 1, 2]) [],
      ∃ n, answer = .ok n := by
  intro answer ha
  obtain ⟨counts, _, _, _, r⟩ :=
    exists_reaches_of_interleaving h (List.take_append_drop n msgs).symm
  rw [r.served.replies .collect [] (Outlet.neverFails_collect [])] at ha
  obtain ⟨m, _, rfl⟩ := List.mem_map.1 ha
  exact ⟨m, rfl⟩

/-- Before the last flush, with a record of the first producer still queued, the states agree. -/
theorem confluent_three : SameStreams (threeMessages.take 5) (threeReordered.take 5) ∧
    (after .selfKeyed .collect ((threeMessages.take 5).map .feed)
        (ofProducers [0, 1, 2]) []).1 =
      (after .selfKeyed .collect ((threeReordered.take 5).map .feed)
        (ofProducers [0, 1, 2]) []).1 := by
  have hsame : SameStreams (threeMessages.take 5) (threeReordered.take 5) := by
    intro p
    rcases p with _ | _ | _ | p <;> simp [threeMessages, threeReordered]
  have hcollect := Outlet.neverFails_collect ([] : List Int)
  obtain ⟨s, _, _, _, hafter, hafter', _⟩ := confluent .selfKeyed [0, 1, 2] _ _ rfl hsame hcollect
    hcollect (exists_ok_of_interleaving interleaving_threeMessages 5)
    (exists_ok_of_interleaving interleaving_threeReordered 5)
  refine ⟨hsame, ?_⟩
  rw [hafter .collect [] hcollect, hafter' .collect [] hcollect]

end Resequencer

end TimeMerge
