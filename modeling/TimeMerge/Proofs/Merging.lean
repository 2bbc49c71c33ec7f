import TimeMerge.Merge
import TimeMerge.Proofs.Ingestion
import TimeMerge.Proofs.Skipping

/-!
# Merging whole inputs

A merge reads its inputs to their ends and writes every record that has a timestamp on a line of its
own. The lines are in order, unless the order is not to be checked, and the meters say how many were
written and how much was skipped; or else some input goes back in time and the merge stops there. -/
namespace TimeMerge

/-- What meters show after `n` records were handed on. -/
structure Meters.Tally (n : Nat) (m : Meters) : Prop where
  forwarded : m.forwarded = series "stdout" n
  timed : m.sinkTime.map (fun x => (x.1, x.2.count)) = series "stdout" n

theorem Meters.tally_zero : Tally 0 {} where
  forwarded := rfl
  timed := rfl

theorem Meters.Tally.succ {n : Nat} {m : Meters} (h : m.Tally n) :
    ((m.observe "stdout" 0).countForwarded "stdout" 1).Tally (n + 1) where
  forwarded := by
    rw [countForwarded, observe, h.forwarded]
    exact touch_series "stdout" n
  timed := by
    have hcount : ∀ b : Histogram, (b.observe 0).count = b.count + 1 := fun _ => rfl
    rw [countForwarded, observe]
    dsimp only
    rw [map_touch "stdout" {} (Histogram.observe 0) (·.count) (· + 1) hcount, h.timed]
    exact touch_series "stdout" n

/-- The record that a signal carries. -/
def Signal.record? : Signal α → Option α
  | .record r => some r
  | .flush => none

theorem Ledger.records_signals (l : Ledger α) :
    (l.signals ++ [Signal.flush]).filterMap Signal.record? = l.released.map (·.record) := by
  have hsome : Signal.record? ∘ (fun e : Entry α => .record e.record) = some ∘ (·.record) := rfl
  rw [signals, List.filterMap_append, List.filterMap_map, hsome, List.filterMap_eq_map]
  exact List.append_nil _

namespace Settings

variable {w : WithMeters (Channel α)}

/-- What the outlet of a merge has come to after these records. -/
structure Written (rs : List α) (w : WithMeters (Channel α)) : Prop where
  state : w.state = { sent := rs }
  tally : w.meters.Tally rs.length

theorem written_nil : Written ([] : List α) { state := {} } := ⟨rfl, Meters.tally_zero⟩

theorem Written.signal {rs : List α} (h : Written rs w) (c : Signal α) :
    (lineOutlet.signal c w).1 = .ok () ∧
      Written (rs ++ c.record?.toList) (lineOutlet.signal c w).2 := by
  obtain ⟨⟨_, _⟩, meters⟩ := w
  cases h.state
  cases c with
  | record r =>
    refine ⟨rfl, rfl, ?_⟩
    rw [List.length_append]
    exact h.tally.succ
  | flush =>
    rw [Signal.record?, Option.toList_none, List.append_nil]
    exact ⟨rfl, h⟩

theorem Written.replay {rs : List α} (h : Written rs w) (cs : List (Signal α)) :
    Written (rs ++ cs.filterMap Signal.record?) (lineOutlet.replay cs w) := by
  induction cs generalizing rs w with
  | nil =>
    rw [List.filterMap_nil, List.append_nil]
    exact h
  | cons c cs ih =>
    have hrest := ih (h.signal c).2
    rw [List.append_assoc] at hrest
    cases c <;> exact hrest

theorem Written.neverFails {rs : List α} (h : Written rs w) : lineOutlet.NeverFails w :=
  fun cs c => ((h.replay cs).signal c).1

/-- The inputs with their partitions. -/
def numbered (inlets : List (Inlet α)) : List (PartitionId × Inlet α) :=
  inlets.zipIdx.map fun (inlet, p) => (p, inlet)

theorem map_fst_numbered (inlets : List (Inlet α)) :
    (numbered inlets).map (·.1) = List.range inlets.length := by
  rw [numbered, List.map_map]
  exact (List.zipIdx_map_snd 0 inlets).trans List.range_eq_range'.symm

theorem nodup_numbered (inlets : List (Inlet α)) : ((numbered inlets).map (·.1)).Nodup := by
  rw [map_fst_numbered]
  exact List.nodup_range

theorem map_snd_numbered (inlets : List (Inlet α)) : (numbered inlets).map (·.2) = inlets := by
  rw [numbered, List.map_map]
  exact List.zipIdx_map_fst 0 inlets

theorem mem_numbered {inlets : List (Inlet α)} {x : PartitionId × Inlet α}
    (h : x ∈ numbered inlets) : x.2 ∈ inlets := by
  rw [← map_snd_numbered inlets]
  exact List.mem_map_of_mem h

variable [Record α]

/-- The timestamps that an input gives, in its own order. -/
def times (s : Settings) (inlet : Inlet α) : List Timestamp :=
  (inlet.upcoming.filterMap s.policy.key?).map (·.1)

/-- A merge has come to its end. What was written is every record that has a timestamp, one on a line,
each input's in its own order, and all in the order of their timestamps if that is checked. Malformed
records and those without a timestamp are counted as such, and what was written is counted and
timed. -/
structure Merges (s : Settings) (inlets : List (Inlet α)) (merged : Merged)
    (emitted : List (Entry α)) : Prop where
  stoppage : merged.stoppage = none
  complete : emitted.Perm (s.policy.extract (numbered inlets))
  ascending : s.checkOrder = true → (emitted.map (·.timestamp)).Pairwise (· ≤ ·)
  sources : ∀ x ∈ numbered inlets, emitted.filter (·.partition = x.1) =
    s.policy.entries x.1 x.2.upcoming
  written : ∃ lines : List String, emitted.map (fun e => Record.line? e.record) = lines.map some ∧
    merged.text = String.join (lines.map (· ++ "\n"))
  malformed : merged.meters.malformed = series "ingest" (s.policy.skips (numbered inlets))
  forwarded : merged.meters.forwarded = series "stdout" emitted.length
  timed : merged.meters.sinkTime.map (fun x => (x.1, x.2.count)) = series "stdout" emitted.length

variable {s : Settings} {inlets : List (Inlet α)}

theorem timestamps_entries (s : Settings) (p : PartitionId) (inlet : Inlet α) :
    Ledger.timestamps (s.policy.entries p inlet.upcoming) = s.times inlet := by
  rw [Ledger.timestamps, Policy.entries, List.map_map, times]
  rfl

theorem tame_numbered (s : Settings) (hr : ∀ inlet ∈ inlets, inlet.Regular) :
    Tame s.policy (numbered inlets) where
  distinct := nodup_numbered inlets
  regular _ hx := hr _ (mem_numbered hx)
  mild := s.timestamp.mild

/-- Lines are written for as many records as there are, if every one can be written. -/
theorem exists_lines {rs : List α} (h : ∀ r ∈ rs, (Record.line? r).isSome) :
    ∃ lines : List String, rs.map Record.line? = lines.map some ∧
      rs.filterMap Record.line? = lines := by
  refine ⟨_, ?_, rfl⟩
  induction rs with
  | nil => rfl
  | cons r rs ih =>
    obtain ⟨hr, hrs⟩ := List.forall_mem_cons.1 h
    obtain ⟨line, hline⟩ := Option.isSome_iff_exists.1 hr
    rw [List.map_cons, List.filterMap_cons_some hline, List.map_cons, ih hrs, hline]

/-- An input in order gives its entries in order. -/
theorem orderly_numbered (hr : ∀ inlet ∈ inlets, inlet.Regular)
    (ho : s.checkOrder = true → ∀ inlet ∈ inlets, (s.times inlet).Pairwise (· ≤ ·)) :
    Orderly s.policy (numbered inlets) where
  distinct := (s.tame_numbered hr).distinct
  regular := (s.tame_numbered hr).regular
  mild := (s.tame_numbered hr).mild
  ascending hc x hx := by
    rw [timestamps_entries]
    exact ho hc _ (mem_numbered hx)

/-- What a merge amounts to whose run came to its end. -/
theorem merges_of_run {l : Ledger α} {intake : Intake α}
    (hcap : s.channelCapacity ≤ maxChannelCapacity)
    (ht : Tame s.policy (numbered inlets))
    (hrun : (Intake.ofInlets (numbered inlets)).run s.policy lineOutlet { state := {} } =
      (.ok true, (intake, lineOutlet.replay (l.signals ++ [.flush]) { state := {} })))
    (r : Intake.Rests s.policy (numbered inlets) l intake (l.signals ++ [.flush]))
    (hnone : intake.nextLive = none) (hw : ∀ e ∈ l.released, (Record.line? e.record).isSome) :
    s.Merges inlets (s.mergeInlets false inlets) l.released := by
  have hrecords : ∀ record ∈ l.released.map (·.record), (Record.line? record).isSome := by
    simpa using hw
  obtain ⟨lines, hlines, hsent⟩ := exists_lines hrecords
  have hmalformed : intake.meters.malformed = series "ingest" intake.stats.malformed := by
    have hcounted := Intake.malformed_turns s.policy lineOutlet
      (Intake.ofInlets (numbered inlets)).turnBound (.ofInlets (numbered inlets)) { state := {} } rfl
      rfl
    rw [Intake.run] at hrun
    rw [hrun] at hcounted
    exact hcounted
  have hwritten := written_nil.replay (l.signals ++ [.flush])
  rw [List.nil_append, l.records_signals] at hwritten
  have hmerged : s.mergeInlets false inlets =
      { lines
        meters := { (lineOutlet.replay (l.signals ++ [.flush]) { state := {} }).meters with
          malformed := intake.meters.malformed }
        stoppage := none } := by
    rw [mergeInlets, if_neg (Nat.not_lt.2 hcap), if_neg Bool.false_ne_true]
    rw [numbered] at hrun
    simp only [hrun]
    rw [hwritten.state, hsent]
  have htally := hwritten.tally
  rw [List.length_map] at htally
  rw [hmerged]
  have hskips : intake.stats.malformed = s.policy.skips (numbered inlets) := by
    rw [r.stats_eq ht hnone]
  constructor
  · rfl
  · exact (r.released_perm hnone).trans (r.accepted_perm ht hnone)
  · intro hc
    have h : (Ledger.opening ((numbered inlets).map (·.1)) : Ledger α).Balanced s.policy :=
      Ledger.balanced_opening _
    have hordered : l.Ordered := ((Ledger.ordered_opening _).steps hc h r.steps).2.1
    exact hordered.ascending
  · intro x hx
    rw [← r.acceptedOn_eq hnone hx]
    exact r.releasedOn_eq hnone x.1
  · exact ⟨lines, by rw [← hlines, List.map_map]; rfl, rfl⟩
  · rw [← hskips]
    exact hmalformed
  · exact htally.forwarded
  · exact htally.timed

/-- Inputs of regular records that can all be written are merged, or one of them goes back in time. -/
theorem mergeInlets_cases (hcap : s.channelCapacity ≤ maxChannelCapacity)
    (hr : ∀ inlet ∈ inlets, inlet.Regular)
    (hw : ∀ inlet ∈ inlets, ∀ record : α, .ok (some record) ∈ inlet.upcoming →
      (Record.line? record).isSome) :
    ((s.checkOrder = true → ∀ inlet ∈ inlets, (s.times inlet).Pairwise (· ≤ ·)) ∧
      ∃ emitted, s.Merges inlets (s.mergeInlets false inlets) emitted) ∨
    ¬(s.checkOrder = true → ∀ inlet ∈ inlets, (s.times inlet).Pairwise (· ≤ ·)) ∧
      ∃ p previous ts,
        (s.mergeInlets false inlets).stoppage = some (.fault (.outOfOrder p previous ts)) := by
  have ho := s.tame_numbered hr
  rcases Intake.run_ends_or_breaks s.policy (numbered inlets) ho with
    ⟨l, intake, hrun, r, hnone⟩ | ⟨l, intake, intake', p, previous, ts, hrun, r, hback⟩
  · have hrecords : ∀ e ∈ l.released, (Record.line? e.record).isSome := by
      intro e he
      have hm := ((r.released_perm hnone).trans (r.accepted_perm ho hnone)).mem_iff.1 he
      obtain ⟨x, hx, hm⟩ := List.mem_flatMap.1 hm
      exact hw _ (mem_numbered hx) _ (Policy.mem_of_mem_entries hm)
    have hmerges := merges_of_run hcap ho (hrun lineOutlet _ written_nil.neverFails) r hnone hrecords
    refine .inl ⟨fun hc inlet hin => ?_, _, hmerges⟩
    rw [← map_snd_numbered inlets] at hin
    obtain ⟨x, hx, rfl⟩ := List.mem_map.1 hin
    have hsorted : (Ledger.timestamps (l.released.filter (·.partition = x.1))).Pairwise (· ≤ ·) :=
      (hmerges.ascending hc).sublist (List.filter_sublist.map _)
    rwa [hmerges.sources x hx, timestamps_entries] at hsorted
  · have hdisorder : ¬(s.checkOrder = true → ∀ inlet ∈ inlets, (s.times inlet).Pairwise (· ≤ ·)) :=
      fun h => Intake.not_descends (orderly_numbered hr h) hback
    refine .inr ⟨hdisorder, p, previous, ts, ?_⟩
    have hend := hrun lineOutlet _ written_nil.neverFails
    rw [numbered] at hend
    rw [mergeInlets, if_neg (Nat.not_lt.2 hcap), if_neg Bool.false_ne_true]
    simp only [hend]

omit [Record α] in
theorem merge_of_jsonLines (hf : s.format = .jsonLines) (inputs : List (String × Contents)) :
    s.merge false inputs =
      s.mergeInlets false (inputs.map fun x => JsonLines.inlet x.1 x.2) := by
  simp only [merge, hf]

omit [Record α] in
theorem merge_of_delimited {d : UInt8} {header : Bool} (hf : s.format = .delimited d header)
    (inputs : List (String × Contents)) : s.merge false inputs =
      s.mergeInlets false (inputs.map fun x => Delimited.inlet x.1 d header x.2) := by
  simp only [merge, hf]

end Settings

end TimeMerge
