import Mathlib.Data.List.Induction
import TimeMerge.Proofs.Order
import TimeMerge.Proofs.Progress

/-!
# What a resequencer has received

As long as every message is taken, the books of a resequencer are what the messages say: each record
is entered once, under its producer, and whoever has sent a flush is done. An outlet that refuses
nothing has seen what the books gave out, and one flush once nobody is left. -/
namespace TimeMerge

variable [Record α] {policy : Policy α}

namespace Policy

/-- The entry that a message makes, if it is a record that has a timestamp. -/
def entryOf? (policy : Policy α) (msg : Message α) : Option (Entry α) :=
  match msg.payload with
  | .flush => none
  | .record record =>
    match policy.rule.timestamp record with
    | .error _ => none
    | .ok ts => some ⟨msg.producer, ts, record⟩

/-- The entries that messages make, in the order of the messages. -/
def sent (policy : Policy α) (msgs : List (Message α)) : List (Entry α) :=
  msgs.filterMap policy.entryOf?

theorem entryOf?_record {e : Entry α} (h : policy.rule.timestamp e.record = .ok e.timestamp) :
    policy.entryOf? ⟨e.partition, .record e.record⟩ = some e := by
  simp only [entryOf?, h]

theorem partition_of_entryOf? {msg : Message α} {e : Entry α} (h : policy.entryOf? msg = some e) :
    e.partition = msg.producer := by
  obtain ⟨p, payload⟩ := msg
  cases payload with
  | flush => cases h
  | record record =>
    simp only [entryOf?] at h
    cases hts : policy.rule.timestamp record <;> simp only [hts] at h <;> cases h
    rfl

theorem sent_snoc (policy : Policy α) (msgs : List (Message α)) (msg : Message α) :
    policy.sent (msgs ++ [msg]) = policy.sent msgs ++ (policy.entryOf? msg).toList := by
  rw [sent, List.filterMap_append]
  cases h : policy.entryOf? msg with
  | none => rw [List.filterMap_cons_none h]; rfl
  | some e => rw [List.filterMap_cons_some h]; rfl

/-- What a producer has sent depends on its own messages alone. -/
theorem sent_filter (policy : Policy α) (msgs : List (Message α)) (p : PartitionId) :
    (policy.sent msgs).filter (·.partition = p) = policy.sent (msgs.filter (·.producer = p)) := by
  rw [sent, sent, List.filter_filterMap, List.filterMap_filter]
  refine List.filterMap_congr fun msg _ => ?_
  cases h : policy.entryOf? msg with
  | none => simp
  | some e => simp [partition_of_entryOf? h, Option.filter_some]

end Policy

namespace Resequencer

variable {producers : List PartitionId} {s s' : Resequencer α} {msgs : List (Message α)}
  {msg : Message α} {l l' : Ledger α} {calls : List (Signal α)} {p : PartitionId}

/-- A resequencer is in step with the messages that it took and with the books of its merger. -/
structure Tracks (policy : Policy α) (producers : List PartitionId) (msgs : List (Message α))
    (l : Ledger α) (s : Resequencer α) : Prop extends Aligned producers s where
  merger : l.merger = s.merger
  steps : Ledger.Steps policy (·.enabled = true) (.opening producers) l
  accepted : l.accepted = policy.sent msgs
  known : ∀ msg ∈ msgs, msg.producer ∈ producers
  ended : ∀ p, s.flushed.contains p = true ↔ ⟨p, .flush⟩ ∈ msgs
  received : s.stats.received = msgs.length
  forwarded : s.stats.forwarded = l.released.length
  flushes : s.stats.flushes = s.flushed.size

theorem tracks_ofProducers (policy : Policy α) (producers : List PartitionId) :
    Tracks policy producers [] (.opening producers) (ofProducers producers) where
  toAligned := aligned_ofProducers producers
  merger := rfl
  steps := .refl
  accepted := rfl
  known := by simp
  ended := by simp [ofProducers, Table.contains_empty]
  received := rfl
  forwarded := rfl
  flushes := rfl

theorem Tracks.balanced (t : Tracks policy producers msgs l s) : l.Balanced policy :=
  (Ledger.balanced_opening producers).steps t.steps

theorem Tracks.ordered (t : Tracks policy producers msgs l s) (hc : policy.checkOrder = true) :
    l.Ordered :=
  ((Ledger.ordered_opening producers).steps hc (Ledger.balanced_opening producers) t.steps).2.1

/-- What was taken for a producer is what it has sent. -/
theorem Tracks.acceptedOn_eq (t : Tracks policy producers msgs l s) (p : PartitionId) :
    l.acceptedOn p = policy.sent (msgs.filter (·.producer = p)) := by
  rw [Ledger.acceptedOn, t.accepted, Policy.sent_filter]

/-- The partition of a producer is open until it is closed for good. -/
theorem Tracks.mem_of_standing (t : Tracks policy producers msgs l s) {b : Bool}
    (h : s.merger.standing p = some b) : p ∈ producers := by
  by_contra hp
  have hclosed : (Ledger.opening producers : Ledger α).merger.standing p = none := by
    rw [Ledger.merger_opening, Merger.standing_ofPartitions, if_neg hp]
  have hn := (t.steps.of_closed hclosed).1
  simp [t.merger, h] at hn

/-- The producers that have sent no flush are the ones to wait for. -/
theorem Tracks.isEnabled_iff (t : Tracks policy producers msgs l s) :
    s.merger.isEnabled p = true ↔ p ∈ producers ∧ s.flushed.contains p = false := by
  rw [Merger.isEnabled_iff_standing]
  constructor
  · intro h
    exact ⟨t.mem_of_standing h, t.flushed p true h⟩
  · rintro ⟨hp, hf⟩
    cases hs : s.merger.standing p with
    | none => simp [t.gone p hp hs] at hf
    | some b => simpa [t.flushed p b hs] using hf

/-- A message that is taken is entered, and nothing is given out for it yet. -/
theorem Tracks.takes (t : Tracks policy producers msgs l s) (h : Takes policy s msg s') :
    ∃ l', Tracks policy producers (msgs ++ [msg]) l' s' ∧ l'.released = l.released := by
  have moves := h.moves
  cases h with
  | @record e lane fresh found keyed forward =>
    have found' : l.merger.lane? e.partition = some lane := by rw [t.merger, found]
    have hs : s.merger.standing e.partition = some lane.enabled := by
      rw [Merger.standing, found, Option.map_some]
    have hopen : lane.enabled = true := by
      have hf := t.flushed _ _ hs
      rw [fresh] at hf
      simpa using hf.symm
    refine ⟨l.arrive e, ?_, rfl⟩
    constructor
    · exact t.toAligned.moves moves
    · rw [Ledger.merger_arrive, t.merger]
      rfl
    · exact t.steps.tail (.arrive found' hopen keyed forward)
    · rw [Ledger.accepted_arrive, t.accepted, Policy.sent_snoc, Policy.entryOf?_record keyed]
      rfl
    · simp only [List.mem_append, List.mem_singleton]
      rintro msg (hm | rfl)
      · exact t.known msg hm
      · exact t.mem_of_standing hs
    · intro q
      have hq := t.ended q
      simpa using hq
    · simp [enqueue, receive, t.received]
    · exact t.forwarded
    · exact t.flushes
  | @flush q fresh found =>
    refine ⟨l.unblock q, ?_, rfl⟩
    constructor
    · exact t.toAligned.moves moves
    · rw [Ledger.merger_unblock, t.merger]
      rfl
    · exact t.steps.tail .unblock
    · rw [Ledger.accepted_unblock, t.accepted, Policy.sent_snoc]
      exact (List.append_nil _).symm
    · obtain ⟨lane, hl⟩ := Option.isSome_iff_exists.1 found
      simp only [List.mem_append, List.mem_singleton]
      rintro msg (hm | rfl)
      · exact t.known msg hm
      · exact t.mem_of_standing (b := lane.enabled) (by rw [Merger.standing, hl, Option.map_some])
    · intro r
      have hr := t.ended r
      rw [flushed_silence, flushed_receive, Table.contains_insert]
      by_cases he : r = q <;> simp [he, hr]
    · simp [silence, receive, t.received]
    · exact t.forwarded
    · rw [flushed_silence, flushed_receive, Table.size_insert () fresh, ← t.flushes]
      rfl

/-- One more flush of a producer that is done already changes nothing but the count. -/
theorem Tracks.repeat (t : Tracks policy producers msgs l s) (hf : s.flushed.contains p = true) :
    Tracks policy producers (msgs ++ [⟨p, .flush⟩]) l s.receive := by
  have hm := (t.ended p).1 hf
  constructor
  · exact t.toAligned.moves fun q => .stays rfl rfl
  · exact t.merger
  · exact t.steps
  · rw [t.accepted, Policy.sent_snoc]
    exact (List.append_nil _).symm
  · simp only [List.mem_append, List.mem_singleton]
    rintro msg (hmsg | rfl)
    · exact t.known msg hmsg
    · exact t.known _ hm
  · intro q
    rw [flushed_receive, t.ended]
    simp only [List.mem_append, List.mem_singleton, Message.mk.injEq, and_true]
    constructor
    · exact .inl
    · rintro (hq | rfl)
      · exact hq
      · exact hm
  · simp [receive, t.received]
  · exact t.forwarded
  · exact t.flushes

section Drains

omit [Record α]

/-- What a drain comes to if nothing is refused. -/
def rest (s : Resequencer α) : Resequencer α :=
  if s.settle.merger.openCount = 0 then s.settle.conclude else s.settle

/-- What such a drain hands over. -/
def outflow (s : Resequencer α) : List (Signal α) :=
  s.merger.drain.1.map .record ++ if s.settle.merger.openCount = 0 then [.flush] else []

@[simp] theorem merger_rest : s.rest.merger = s.settle.merger := by
  rw [rest]
  split <;> rfl

@[simp] theorem flushed_rest : s.rest.flushed = s.flushed := by
  rw [rest]
  split <;> rfl

@[simp] theorem stats_rest : s.rest.stats =
    { s.stats with forwarded := s.stats.forwarded + s.merger.drain.1.length } := by
  rw [rest]
  split <;> rfl

theorem progress_rest (h : s.progress = .active) :
    s.rest.progress = if s.rest.merger.openCount = 0 then .done else .active := by
  rw [merger_rest, rest]
  by_cases hopen : s.settle.merger.openCount = 0
  · rw [if_pos hopen, if_pos hopen]
    rfl
  · rw [if_neg hopen, if_neg hopen]
    rw [openCount_settle, not_forall] at hopen
    obtain ⟨p, hp⟩ := hopen
    exact ebb_eq_active.2 ⟨h, p, by simpa using hp⟩

theorem drain_of_neverFails (h : s.progress ≠ .done) {k : Outlet ω α} {w : ω}
    (hk : k.NeverFails w) :
    s.drain k w = (.ok s.merger.drain.1.length, (s.rest, k.replay s.outflow w)) := by
  have hdrain : s.drain k w = s.settle.finish k s.merger.drain.1.length
      (k.replay (s.merger.drain.1.map .record) w) :=
    drain_of_released h (Merger.release_of_neverFails hk s.merger)
  rw [hdrain, finish, rest, outflow]
  split
  · rw [(hk.replay _).flush, Outlet.replay_append]
  · rw [List.append_nil]

theorem Aligned.rest (h : Aligned producers s) : Aligned producers s.rest := by
  have hsettle := h.moves s.moves_settle
  rw [Resequencer.rest]
  split
  · exact ⟨hsettle.flushed, hsettle.gone⟩
  · exact hsettle

end Drains

theorem Tracks.rest (t : Tracks policy producers msgs l s) :
    Tracks policy producers msgs l.drain.sweep s.rest where
  toAligned := t.toAligned.rest
  merger := by
    rw [merger_rest, merger_settle, Ledger.merger_sweep, Ledger.merger_drain, t.merger]
  steps := (t.steps.trans l.steps_drain).trans l.drain.steps_sweep
  accepted := t.accepted
  known := t.known
  ended := by
    rw [flushed_rest]
    exact t.ended
  received := by rw [stats_rest, t.received]
  forwarded := by
    rw [stats_rest, Ledger.released_sweep, Ledger.length_released_drain, t.forwarded, t.merger]
  flushes := by rw [stats_rest, flushed_rest, t.flushes]

/-- At rest nothing more can go, whoever is done with nothing queued is closed, and what an outlet
has seen is what the books gave out and then, once nobody is left, a flush. -/
structure Rests (policy : Policy α) (producers : List PartitionId) (msgs : List (Message α))
    (l : Ledger α) (s : Resequencer α) (calls : List (Signal α)) : Prop
    extends Tracks policy producers msgs l s where
  settled : s.merger.departure? = none
  closed : ∀ p, s.merger.standing p = some false → s.merger.queued p ≠ []
  progress : s.progress = if producers = [] then .draining
    else if s.merger.openCount = 0 then .done else .active
  seen : calls = l.signals ++ if s.progress = .done then [.flush] else []

theorem rests_ofProducers (policy : Policy α) (producers : List PartitionId) :
    Rests policy producers [] (.opening producers) (ofProducers producers) [] where
  toTracks := tracks_ofProducers policy producers
  settled := Merger.departure?_ofPartitions _
  closed := by
    intro p hp
    have hs : (ofProducers producers : Resequencer α).merger.standing p = _ :=
      Merger.standing_ofPartitions producers p
    rw [hs] at hp
    split at hp <;> cases hp
  progress := by
    rw [progress_ofProducers]
    split
    · rfl
    · rename_i hne
      obtain ⟨p, hp⟩ := List.exists_mem_of_ne_nil _ hne
      have hs : (ofProducers producers : Resequencer α).merger.standing p = some true :=
        Merger.isEnabled_iff_standing.1 ((isEnabled_ofProducers producers p).2 hp)
      rw [if_neg]
      intro hopen
      simp [Merger.openCount_eq_zero_iff.1 hopen] at hs
  seen := by
    rw [progress_ofProducers]
    split <;> rfl

theorem Rests.active_of_standing (r : Rests policy producers msgs l s calls) {b : Bool}
    (h : s.merger.standing p = some b) : s.progress = .active := by
  have hopen : s.merger.openCount ≠ 0 := by
    intro hopen
    simp [Merger.openCount_eq_zero_iff.1 hopen] at h
  rw [r.progress, if_neg (List.ne_nil_of_mem (r.mem_of_standing h)), if_neg hopen]

/-- A message that is taken leads from rest to rest. -/
theorem Rests.takes (r : Rests policy producers msgs l s calls) (hne : s.progress ≠ .done)
    (h : Takes policy s msg s') :
    ∃ l', Rests policy producers (msgs ++ [msg]) l' s'.rest (calls ++ s'.outflow) := by
  obtain ⟨l', t, hreleased⟩ := r.toTracks.takes h
  have hknown : producers ≠ [] := List.ne_nil_of_mem (t.known msg (by simp))
  have hactive : s'.progress = .active := by
    have hp := r.progress
    rw [if_neg hknown] at hp
    rw [h.progress, hp]
    split at hp
    · exact absurd hp hne
    · rename_i hopen
      rw [if_neg hopen]
  have hprogress := progress_rest hactive
  refine ⟨l'.drain.sweep, t.rest, ?_, ?_, ?_, ?_⟩
  · rw [merger_rest]
    exact departure?_settle s'
  · intro p hp hq
    rw [merger_rest] at hp hq
    rw [standing_settle] at hp
    split at hp
    · cases hp
    · rename_i hstays
      exact hstays ⟨hp, hq⟩
  · rw [hprogress, if_neg hknown]
  · have hseen := r.seen
    rw [if_neg hne, List.append_nil] at hseen
    have hsignals : l'.signals = l.signals := by rw [Ledger.signals, hreleased, Ledger.signals]
    have hdone : s'.rest.progress = .done ↔ s'.settle.merger.openCount = 0 := by
      rw [hprogress, merger_rest]
      split <;> simp_all
    have hdrain : l'.drain.sweep.signals = l.signals ++ s'.merger.drain.1.map .record := by
      rw [← hsignals, ← t.merger, ← Ledger.signals_drain]
      rfl
    simp only [hdone, hdrain, hseen, outflow, List.append_assoc]

theorem Rests.repeat (r : Rests policy producers msgs l s calls)
    (hf : s.flushed.contains p = true) :
    Rests policy producers (msgs ++ [⟨p, .flush⟩]) l s.receive calls where
  toTracks := r.toTracks.repeat hf
  settled := r.settled
  closed := r.closed
  progress := r.progress
  seen := r.seen

/-- Messages are taken with these counts for answers, and every outlet that refuses nothing is
handed `calls`. -/
structure Serves (policy : Policy α) (s : Resequencer α) (msgs : List (Message α))
    (counts : List Nat) (s' : Resequencer α) (calls : List (Signal α)) : Prop where
  replies : ∀ {ω : Type} (k : Outlet ω α) (w : ω), k.NeverFails w →
    replies policy k (msgs.map .feed) s w = counts.map .ok
  after : ∀ {ω : Type} (k : Outlet ω α) (w : ω), k.NeverFails w →
    after policy k (msgs.map .feed) s w = (s', k.replay calls w)

theorem Serves.nil (policy : Policy α) (s : Resequencer α) : Serves policy s [] [] s [] where
  replies _ _ _ := rfl
  after _ _ _ := rfl

theorem Serves.cons {s'' : Resequencer α} {counts : List Nat} {n : Nat} {new : List (Signal α)}
    (hfeed : ∀ {ω : Type} (k : Outlet ω α) (w : ω), k.NeverFails w →
      s.feed policy k msg w = (.ok n, (s', k.replay new w)))
    (h : Serves policy s' msgs counts s'' calls) :
    Serves policy s (msg :: msgs) (n :: counts) s'' (new ++ calls) where
  replies k w hk := by
    simp only [List.map_cons, Resequencer.replies, obey, hfeed k w hk,
      h.replies k _ (hk.replay new)]
  after k w hk := by
    simp only [List.map_cons, Resequencer.after, obey, hfeed k w hk, h.after k _ (hk.replay new),
      Outlet.replay_append]

theorem Serves.snoc {s'' : Resequencer α} {counts : List Nat} {n : Nat} {new : List (Signal α)}
    (h : Serves policy s msgs counts s' calls)
    (hfeed : ∀ {ω : Type} (k : Outlet ω α) (w : ω), k.NeverFails w →
      s'.feed policy k msg w = (.ok n, (s'', k.replay new w))) :
    Serves policy s (msgs ++ [msg]) (counts ++ [n]) s'' (calls ++ new) where
  replies k w hk := by
    rw [List.map_append, replies_append, h.after k w hk, h.replies k w hk, List.map_append]
    simp only [List.map_cons, List.map_nil, Resequencer.replies, obey, hfeed k _ (hk.replay calls)]
  after k w hk := by
    rw [List.map_append, after_append, h.after k w hk, Outlet.replay_append]
    simp only [List.map_cons, List.map_nil, Resequencer.after, obey, hfeed k _ (hk.replay calls)]

theorem feed_of_neverFails (hne : s.progress ≠ .done) (h : Takes policy s msg s') {k : Outlet ω α}
    {w : ω} (hk : k.NeverFails w) :
    s.feed policy k msg w = (.ok s'.merger.drain.1.length, (s'.rest, k.replay s'.outflow w)) := by
  rw [feed_of_takes hne h, drain_of_neverFails (by rwa [h.progress]) hk]

/-- A run of messages from the start that are all taken, and what it comes to. -/
structure Reaches (policy : Policy α) (producers : List PartitionId) (msgs : List (Message α))
    (counts : List Nat) (l : Ledger α) (s : Resequencer α) (calls : List (Signal α)) : Prop
    extends Rests policy producers msgs l s calls where
  served : Serves policy (ofProducers producers) msgs counts s calls
  counted : counts.sum = s.stats.forwarded

theorem reaches_nil (policy : Policy α) (producers : List PartitionId) :
    Reaches policy producers [] [] (.opening producers) (ofProducers producers) [] where
  toRests := rests_ofProducers policy producers
  served := .nil policy _
  counted := rfl

theorem Reaches.takes {counts : List Nat} (r : Reaches policy producers msgs counts l s calls)
    (hne : s.progress ≠ .done) (h : Takes policy s msg s') : ∃ counts l s calls,
      Reaches policy producers (msgs ++ [msg]) counts l s calls := by
  obtain ⟨l', hrest⟩ := r.toRests.takes hne h
  have hforwarded : s'.stats.forwarded = s.stats.forwarded := by cases h <;> rfl
  refine ⟨counts ++ [s'.merger.drain.1.length], l', s'.rest, calls ++ s'.outflow, hrest,
    r.served.snoc fun k w hk => feed_of_neverFails hne h hk, ?_⟩
  rw [List.sum_append, r.counted, stats_rest, hforwarded]
  simp

theorem Reaches.repeat {counts : List Nat} (r : Reaches policy producers msgs counts l s calls)
    (hne : s.progress ≠ .done) (hf : s.flushed.contains p = true) : ∃ counts l s calls,
      Reaches policy producers (msgs ++ [⟨p, .flush⟩]) counts l s calls := by
  have hserved : Serves policy (ofProducers producers) (msgs ++ [⟨p, .flush⟩]) (counts ++ [0])
      s.receive (calls ++ []) := by
    exact r.served.snoc fun k w _ => feed_of_ended_flush hne hf k w
  rw [List.append_nil] at hserved
  refine ⟨counts ++ [0], l, s.receive, calls, r.toRests.repeat hf, hserved, ?_⟩
  rw [List.sum_append, r.counted]
  rfl

/-- What one outlet that refuses nothing answers decides about all of them. -/
theorem exists_reaches {k : Outlet ω α} {w : ω} (hk : k.NeverFails w)
    (h : ∀ answer ∈ replies policy k (msgs.map .feed) (ofProducers producers) w,
      ∃ n, answer = .ok n) :
    ∃ counts l s calls, Reaches policy producers msgs counts l s calls := by
  induction msgs using List.reverseRecOn with
  | nil => exact ⟨_, _, _, _, reaches_nil policy producers⟩
  | append_singleton msgs msg ih =>
    rw [List.map_append, replies_append] at h
    obtain ⟨counts, l, s, calls, r⟩ := ih fun answer ha => h answer (List.mem_append_left _ ha)
    rw [r.served.after k w hk] at h
    obtain ⟨n, hn⟩ : ∃ n, (s.feed policy k msg (k.replay calls w)).1 = .ok n :=
      h _ (List.mem_append_right _ (List.mem_singleton_self _))
    rcases feed_cases policy k msg s (k.replay calls w) with
      ⟨hne, s', ht, _⟩ | ⟨hne, hflush, hf, _⟩ | ⟨fault, he⟩
    · exact r.takes hne ht
    · obtain ⟨p, payload⟩ := msg
      cases hflush
      exact r.repeat hne hf
    · rw [he] at hn
      cases hn

end Resequencer

end TimeMerge
