import TimeMerge.Proofs.Turns

/-!
# Ingestion as a merge

A run takes turns until every input is closed. The rank of the slots bounds how many it takes, and the
books at its end show what it did: all entries of all inputs have gone to the outlet, in order, and a
flush behind them.
-/
namespace TimeMerge

namespace Intake

variable {s s' : Intake α} {i : Nat} {slot : Slot α}

theorem reads_ofInlets (inlets : List (PartitionId × Inlet α)) :
    (ofInlets inlets).reads = (ofInlets inlets).outstanding + inlets.length := by
  rw [outstanding_eq_sum]
  simp only [reads, ofInlets, List.map_map]
  induction inlets with
  | nil => rfl
  | cons x inlets ih =>
    simp only [List.map_cons, List.sum_cons, List.length_cons, ih, Function.comp_apply, Slot.reads,
      Slot.outstanding]
    omega

/-- At the start the cursor is at an input that is read, if there is one. -/
theorem distance_ofInlets (inlets : List (PartitionId × Inlet α)) :
    (ofInlets inlets).distance = 0 := by
  cases inlets with
  | nil => rfl
  | cons x inlets =>
    obtain ⟨h, _⟩ | ⟨_, _, hleast⟩ := (ofInlets (x :: inlets)).distance_spec
    · exact h
    · have hfirst : (ofInlets (x :: inlets)).ahead 0 = some ⟨x.1, .reading x.2⟩ := by
        simp [ahead, ofInlets]
      exact Nat.le_zero.1 (hleast 0 _ hfirst rfl)

theorem rank_ofInlets (inlets : List (PartitionId × Inlet α)) :
    (ofInlets inlets).rank + 1 = (ofInlets inlets).turnBound := by
  have hlen : (ofInlets inlets).slots.length = inlets.length := List.length_map _
  simp only [rank, turnBound, reads_ofInlets, distance_ofInlets, live_ofInlets, hlen]
  omega

variable [Record α] {policy : Policy α} {inlets : List (PartitionId × Inlet α)} {l : Ledger α}
  {calls : List (Signal α)}

theorem turn_of_none (h : s.nextLive = none) {k : Outlet ω α} {w : ω} (hk : k.NeverFails w) :
    s.turn policy k w = (.ok .finished, (s.conclude, k.replay s.dueFlush w)) := by
  rw [turn_of_idle h, finish_of_neverFails hk]
  rfl

theorem turns_succ {k : Outlet ω α} {w w' : ω} {t : Turn} (h : s.turn policy k w = (.ok t, (s', w')))
    (ht : t ≠ .finished) (n : Nat) : turns policy k (n + 1) s w = turns policy k n s' w' := by
  rw [turns, h]
  cases t with
  | finished => exact absurd rfl ht
  | forwarded count => rfl
  | skipped p => rfl
  | pending p => rfl
  | closed p => rfl

/-- Once every slot is closed, no partition is open. -/
theorem Tracks.isFinished (t : Tracks policy inlets l s) (h : s.nextLive = none) :
    s.isFinished = true := by
  rw [isFinished_iff]
  intro p
  cases hs : s.merger.standing p with
  | none => rfl
  | some b =>
    rw [← t.merger] at hs
    obtain ⟨slot, hm, hb⟩ := t.exists_slot hs
    rw [Slot.standing_eq_none_iff.2 (nextLive_eq_none_iff.1 h slot hm)] at hb
    cases hb

theorem Rests.movesOn_or_breaks (r : Rests policy inlets l s calls) (ho : Tame policy inlets)
    (h : s.nextLive = some (i, slot)) :
    MovesOn policy inlets s calls ∨ Breaks policy inlets l s := by
  obtain ⟨p, phase⟩ := slot
  cases phase with
  | closed =>
    obtain ⟨_, _, _, _, hopen, _⟩ := nextLive_eq_some h
    cases hopen
  | exhausted inlet => exact .inl (r.movesOn_close ho h)
  | reading inlet =>
    cases hr : inlet.upcoming with
    | nil => exact .inl (r.movesOn_end ho h hr)
    | cons reading rest =>
      obtain ⟨_, _, _, hfound, _⟩ := nextLive_eq_some h
      obtain ⟨x, _, hx⟩ := r.exists_inlet hfound
      have hm : reading ∈ inlet.upcoming := hr ▸ List.mem_cons_self
      rcases (hx.regular inlet rfl).yields reading hm with ⟨record, rfl⟩ | ⟨d, rfl⟩
      · exact r.movesOn_record ho h hr
      · exact .inl (r.movesOn_skip ho h hr rfl fun k w => turn_of_malformed h hr k w)

theorem Rests.movesOn (r : Rests policy inlets l s calls) (ho : Orderly policy inlets)
    (h : s.nextLive = some (i, slot)) : MovesOn policy inlets s calls :=
  (r.movesOn_or_breaks ho.tame h).resolve_right
    fun ⟨_, _, _, _, _, hback, _⟩ => not_descends ho hback

/-- From rest, a run of more turns than the rank comes to the end, or to an input that goes back. -/
theorem Rests.turns_or_breaks (r : Rests policy inlets l s calls) (ho : Tame policy inlets) {n : Nat}
    (hn : s.rank < n) :
    (∃ l' s' new, (∀ {ω : Type} (k : Outlet ω α) (w : ω), k.NeverFails w →
        Intake.turns policy k n s w = (.ok true, (s', k.replay new w))) ∧
      Rests policy inlets l' s' (calls ++ new) ∧ s'.flushed = true ∧ s'.nextLive = none) ∨
    ∃ l' s' s'' new p previous ts, (∀ {ω : Type} (k : Outlet ω α) (w : ω), k.NeverFails w →
        Intake.turns policy k n s w =
          (.error (.outOfOrder p previous ts), (s'', k.replay new w))) ∧
      Rests policy inlets l' s' (calls ++ new) ∧ s'.flushed = false ∧
      Descends policy inlets l' p previous ts := by
  induction n generalizing l s calls with
  | zero => omega
  | succ n ih =>
    cases h : s.nextLive with
    | none =>
      refine .inl ⟨l, s.conclude, s.dueFlush, fun k w hk => ?_, r.conclude (r.isFinished h), rfl, h⟩
      rw [Intake.turns, turn_of_none h hk]
    | some found =>
      obtain ⟨i, slot⟩ := found
      rcases r.movesOn_or_breaks ho h with hmove | ⟨hf, p, previous, ts, s', hback, hturn⟩
      · obtain ⟨turn, l₁, s₁, new, hne, hturn, hrest, hlt⟩ := hmove
        have hruns : ∀ {ω : Type} {k : Outlet ω α} {w : ω}, k.NeverFails w →
            Intake.turns policy k (n + 1) s w = Intake.turns policy k n s₁ (k.replay new w) :=
          fun hk => turns_succ (hturn _ _ hk) hne n
        rcases ih hrest (by omega) with
          ⟨l₂, s₂, more, hturns, hrest, hend⟩ |
          ⟨l₂, s₂, s₃, more, p, previous, ts, hturns, hrest, hend⟩
        · refine .inl ⟨l₂, s₂, new ++ more, fun k w hk => ?_, ?_, hend⟩
          · rw [hruns hk, hturns k _ (hk.replay new), Outlet.replay_append]
          · rw [← List.append_assoc]
            exact hrest
        · refine .inr ⟨l₂, s₂, s₃, new ++ more, p, previous, ts, fun k w hk => ?_, ?_, hend⟩
          · rw [hruns hk, hturns k _ (hk.replay new), Outlet.replay_append]
          · rw [← List.append_assoc]
            exact hrest
      · refine .inr ⟨l, s, s', [], p, previous, ts, fun k w _ => ?_, ?_, hf, hback⟩
        · rw [Intake.turns, hturn k w]
          rfl
        · rw [List.append_nil]
          exact r

/-- From rest, a run of more turns than the rank comes to the end. -/
theorem Rests.turns (r : Rests policy inlets l s calls) (ho : Orderly policy inlets) {n : Nat}
    (hn : s.rank < n) :
    ∃ l' s' new, (∀ {ω : Type} (k : Outlet ω α) (w : ω), k.NeverFails w →
        Intake.turns policy k n s w = (.ok true, (s', k.replay new w))) ∧
      Rests policy inlets l' s' (calls ++ new) ∧ s'.flushed = true ∧ s'.nextLive = none := by
  rcases r.turns_or_breaks ho.tame hn with hend | ⟨_, _, _, _, _, _, _, _, _, _, hback⟩
  · exact hend
  · exact absurd hback (not_descends ho)

section Ended

variable {x : PartitionId × Inlet α}

/-- An input that is closed has given all it had. -/
theorem Tracks.acceptedOn_eq (t : Tracks policy inlets l s) (h : s.nextLive = none)
    (hx : x ∈ inlets) : l.acceptedOn x.1 = policy.entries x.1 x.2.upcoming := by
  obtain ⟨slot, hm, hf⟩ := t.exists_slot_of_mem hx
  have hclosed := nextLive_eq_none_iff.1 h slot hm
  have hnothing : slot.upcoming = [] := by
    obtain ⟨_, phase⟩ := slot
    cases phase with
    | reading inlet => cases hclosed
    | exhausted inlet => rfl
    | closed => rfl
  rw [hf.supply, hnothing]
  exact (List.append_nil _).symm

/-- A closed partition has nothing queued. -/
theorem Tracks.releasedOn_eq (t : Tracks policy inlets l s) (h : s.nextLive = none)
    (p : PartitionId) : l.releasedOn p = l.acceptedOn p := by
  have hs := isFinished_iff.1 (t.isFinished h) p
  rw [← t.merger, Merger.standing_eq_none] at hs
  rw [t.balanced.conserved p, Merger.queued_of_lane?_none hs, List.append_nil]

theorem Tracks.released_perm (t : Tracks policy inlets l s) (h : s.nextLive = none) :
    l.released.Perm l.accepted :=
  perm_of_filter_partition (t.releasedOn_eq h)

theorem Tracks.accepted_perm (t : Tracks policy inlets l s) (ho : Tame policy inlets)
    (h : s.nextLive = none) : l.accepted.Perm (policy.extract inlets) := by
  refine perm_of_filter_partition fun p => ?_
  by_cases hp : p ∈ inlets.map (·.1)
  · obtain ⟨x, hx, rfl⟩ := List.mem_map.1 hp
    rw [Policy.extract_filter ho.distinct hx]
    exact t.acceptedOn_eq h hx
  · rw [Policy.extract_filter_of_not_mem hp]
    exact (t.of_not_mem hp).2

theorem Rests.stats_eq (r : Rests policy inlets l s calls) (ho : Tame policy inlets)
    (h : s.nextLive = none) : s.stats =
      { read := (policy.extract inlets).length, forwarded := (policy.extract inlets).length,
        malformed := policy.skips inlets, closed := inlets.length } := by
  have hclosed := nextLive_eq_none_iff.1 h
  have hout : s.outstanding = 0 := by
    rw [outstanding_eq_sum, List.sum_eq_zero_iff_forall_eq_nat]
    intro n hn
    obtain ⟨⟨p, phase⟩, hm, rfl⟩ := List.mem_map.1 hn
    have hc := hclosed _ hm
    cases phase with
    | reading inlet => cases hc
    | exhausted inlet => rfl
    | closed => rfl
  have hlive : s.live = 0 := by
    rw [live, List.sum_eq_zero_iff_forall_eq_nat]
    intro n hn
    obtain ⟨slot, hm, rfl⟩ := List.mem_map.1 hn
    rw [Slot.live, if_pos (hclosed slot hm)]
  have hread : s.stats.read = (policy.extract inlets).length := by
    rw [r.read, (r.accepted_perm ho h).length_eq]
  have hforwarded : s.stats.forwarded = (policy.extract inlets).length := by
    rw [r.forwarded, ((r.released_perm h).trans (r.accepted_perm ho h)).length_eq]
  have hmalformed : s.stats.malformed = policy.skips inlets := by
    have hc := r.consumed
    rw [hread, hout, ← policy.length_extract_add_skips] at hc
    omega
  have hcount : s.stats.closed = inlets.length := by
    have hc := r.closed
    rwa [hlive] at hc
  have hfields : s.stats = ⟨s.stats.read, s.stats.forwarded, s.stats.malformed, s.stats.closed⟩ := rfl
  rw [hfields, hread, hforwarded, hmalformed, hcount]

/-- A run over an outlet that refuses nothing ends at rest with everything closed, or where an input
goes back. -/
theorem run_ends_or_breaks (policy : Policy α) (inlets : List (PartitionId × Inlet α))
    (ho : Tame policy inlets) :
    (∃ (l : Ledger α) (s : Intake α),
      (∀ {ω : Type} (k : Outlet ω α) (w : ω), k.NeverFails w →
        (ofInlets inlets).run policy k w = (.ok true, (s, k.replay (l.signals ++ [.flush]) w))) ∧
      Rests policy inlets l s (l.signals ++ [.flush]) ∧ s.nextLive = none) ∨
    ∃ (l : Ledger α) (s s' : Intake α) (p : PartitionId) (previous ts : Timestamp),
      (∀ {ω : Type} (k : Outlet ω α) (w : ω), k.NeverFails w →
        (ofInlets inlets).run policy k w =
          (.error (.outOfOrder p previous ts), (s', k.replay l.signals w))) ∧
      Rests policy inlets l s l.signals ∧ Descends policy inlets l p previous ts := by
  have hn : (ofInlets inlets).rank < (ofInlets inlets).turnBound := by
    rw [← rank_ofInlets]
    exact Nat.lt_succ_self _
  rcases (rests_ofInlets ho).turns_or_breaks ho hn with
    ⟨l, s, new, hturns, r, hf, hnone⟩ | ⟨l, s, s', new, p, previous, ts, hturns, r, hf, hback⟩
  · have hseen := r.seen
    rw [hf, if_pos rfl, List.nil_append] at hseen
    subst hseen
    exact .inl ⟨l, s, hturns, r, hnone⟩
  · have hseen := r.seen
    rw [hf, if_neg Bool.false_ne_true, List.append_nil, List.nil_append] at hseen
    subst hseen
    exact .inr ⟨l, s, s', p, previous, ts, hturns, r, hback⟩

/-- Once flushed, an intake with nothing left to do stays as it is, whatever outlet it has. -/
theorem turn_of_flushed (h : s.nextLive = none) (hf : s.flushed = true) (k : Outlet ω α) (w : ω) :
    s.turn policy k w = (.ok .finished, (s, w)) := by
  rw [turn_of_idle h, finish, if_pos hf]
  rfl

end Ended

/-- Orderly inputs are merged: a run succeeds, and what every outlet that refuses nothing is handed is all
their entries in the order of their timestamps, each input's in its own order, and then one flush. -/
theorem run_merges (policy : Policy α) (inlets : List (PartitionId × Inlet α))
    (ho : Orderly policy inlets) (hc : policy.checkOrder = true) :
    ∃ (emitted : List (Entry α)) (s : Intake α),
      (∀ {ω : Type} (k : Outlet ω α) (w : ω), k.NeverFails w →
        (ofInlets inlets).run policy k w =
          (.ok true, (s, k.replay (emitted.map (.record ·.record) ++ [.flush]) w))) ∧
      emitted.Perm (policy.extract inlets) ∧
      (emitted.map (·.timestamp)).Pairwise (· ≤ ·) ∧
      (∀ x ∈ inlets, emitted.filter (·.partition = x.1) =
        policy.entries x.1 x.2.upcoming) ∧
      s.stats =
        { read := (policy.extract inlets).length, forwarded := (policy.extract inlets).length,
          malformed := policy.skips inlets, closed := inlets.length } ∧
      ∀ {ω : Type} (k : Outlet ω α) (w : ω), s.turn policy k w = (.ok .finished, (s, w)) := by
  have hn : (ofInlets inlets).rank < (ofInlets inlets).turnBound := by
    rw [← rank_ofInlets]
    exact Nat.lt_succ_self _
  obtain ⟨l, s, new, hturns, r, hf, hnone⟩ := (rests_ofInlets ho.tame).turns ho hn
  have hseen : new = l.signals ++ [.flush] := by
    rw [← List.nil_append new, r.seen, hf]
    rfl
  have hordered : l.Ordered := by
    have h : (Ledger.opening (inlets.map (·.1))).Balanced policy := Ledger.balanced_opening _
    exact ((Ledger.ordered_opening _).steps hc h r.steps).2.1
  refine ⟨l.released, s, fun k w hk => ?_, ?_, hordered.ascending, ?_, r.stats_eq ho.tame hnone,
    fun k w => turn_of_flushed hnone hf k w⟩
  · rw [run, hturns k w hk, hseen]
    rfl
  · exact (r.released_perm hnone).trans (r.accepted_perm ho.tame hnone)
  · intro x hx
    rw [← r.acceptedOn_eq hnone hx]
    exact r.releasedOn_eq hnone x.1

/-- The first input is at its end while its record still waits for the third, and the second has none. -/
def deferred : List (PartitionId × Inlet Int) :=
  [(0, .ofRecords [5]), (1, .ofRecords []),
    (2, { upcoming := [.ok (some 1), .error (.malformed .notAKey), .ok (some (-3)), .ok (some 7)] })]

theorem orderly_deferred : Orderly .selfKeyed deferred where
  distinct := by decide
  regular := by
    intro x hx
    simp only [deferred, List.mem_cons, List.not_mem_nil, or_false] at hx
    rcases hx with rfl | rfl | rfl
    · exact Inlet.regular_ofRecords [5]
    · exact Inlet.regular_ofRecords []
    · refine ⟨rfl, fun r hr => ?_⟩
      simp only [List.mem_cons, List.not_mem_nil, or_false] at hr
      rcases hr with rfl | rfl | rfl | rfl
      · exact .inl ⟨1, rfl⟩
      · exact .inr ⟨.notAKey, rfl⟩
      · exact .inl ⟨-3, rfl⟩
      · exact .inl ⟨7, rfl⟩
  mild := KeyRule.mild_of_find fun record fault h => by cases h
  ascending := by
    intro _
    decide

/-- Three records come out in order although the one that was read first is the second to go. -/
theorem run_merges_deferred : ∃ s : Intake Int,
    (ofInlets deferred).run .selfKeyed .collect [] = (.ok true, (s, [1, 5, 7])) ∧
      s.stats = { read := 3, forwarded := 3, malformed := 2, closed := 3 } := by
  obtain ⟨emitted, s, hrun, hperm, hsorted, _, hstats, _⟩ :=
    run_merges .selfKeyed deferred orderly_deferred rfl
  have htimes : emitted.map (·.timestamp) = [1, 5, 7] := by
    refine List.Perm.eq_of_pairwise (fun a b _ _ => Int.le_antisymm) hsorted (by decide) ?_
    exact (hperm.map _).trans (by decide)
  have hsame : emitted.map (·.record) = emitted.map (·.timestamp) := by
    refine List.map_congr_left fun e he => ?_
    have hall : ∀ e ∈ Policy.selfKeyed.extract deferred, e.record = e.timestamp := by decide
    exact hall e (hperm.mem_iff.1 he)
  refine ⟨s, ?_, hstats⟩
  rw [hrun .collect [] (Outlet.neverFails_collect []), Outlet.replay_collect, hsame, htimes]
  rfl

end Intake

end TimeMerge
