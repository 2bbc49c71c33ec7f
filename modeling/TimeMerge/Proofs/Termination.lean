import TimeMerge.Proofs.Ingestion
import TimeMerge.Proofs.Phases

/-!
# The end of an ingestion

Turn after turn, an intake over an outlet that refuses nothing comes to its end, whether or not the
order of records is checked. The rank says after how many turns, and every turn before the last
one answers without a fault. -/
namespace TimeMerge

/-- What is not open holds nothing. -/
theorem Ledger.Balanced.buffered_eq_zero [Record α] {policy : Policy α} {l : Ledger α}
    (h : l.Balanced policy) (hopen : l.merger.openCount = 0) : l.merger.buffered = 0 := by
  have hnone : l.merger.lanes.entries = [] := List.eq_nil_of_length_eq_zero hopen
  rw [h.counted, Merger.size, Table.total, hnone]
  rfl

namespace Intake

variable [Record α] {policy : Policy α} {inlets : List (PartitionId × Inlet α)} {l : Ledger α}
  {s : Intake α} {calls : List (Signal α)}

/-- From rest, turns that all go well lead to one that finishes. -/
theorem Rests.comes_to_end (r : Rests policy inlets l s calls) (ho : Orderly policy inlets) :
    ∃ (ts : List Turn) (l' : Ledger α) (s' : Intake α) (new : List (Signal α)),
      ts.length ≤ s.rank ∧ Turn.finished ∉ ts ∧
      (∀ {ω : Type} (k : Outlet ω α) (w : ω), k.NeverFails w →
        replies policy k (ts.length + 1) s w = ts.map .ok ++ [.ok .finished] ∧
        pulls policy k (ts.length + 1) s w = (s', k.replay new w)) ∧
      Rests policy inlets l' s' (calls ++ new) ∧ s'.flushed = true ∧ s'.nextLive = none := by
  generalize hn : s.rank = n
  induction n using Nat.strongRecOn generalizing l s calls with
  | ind n ih =>
    cases h : s.nextLive with
    | none =>
      refine ⟨[], l, s.conclude, s.dueFlush, Nat.zero_le n, by simp, fun k w hk => ?_,
        r.conclude (r.isFinished h), rfl, h⟩
      rw [List.length_nil, replies, pulls, turn_of_none h hk]
      exact ⟨rfl, rfl⟩
    | some found =>
      obtain ⟨i, slot⟩ := found
      obtain ⟨turn, l₁, s₁, new, hne, hturn, hrest, hlt⟩ := r.movesOn ho h
      obtain ⟨ts, l₂, s₂, more, hlen, hmem, hruns, hend⟩ := ih s₁.rank (hn ▸ hlt) hrest rfl
      refine ⟨turn :: ts, l₂, s₂, new ++ more, ?_, ?_, fun k w hk => ?_, ?_⟩
      · rw [List.length_cons]
        omega
      · simp [hmem, Ne.symm hne]
      · obtain ⟨hreplies, hpulls⟩ := hruns k _ (hk.replay new)
        rw [List.length_cons, replies, pulls, hturn k w hk]
        dsimp only
        rw [hreplies, hpulls, Outlet.replay_append]
        exact ⟨rfl, rfl⟩
      · rw [← List.append_assoc]
        exact hend

/-- Ingestion comes to its end. If no input gives anything worse than malformed records, and none goes
back in time where that is checked, then with every outlet that refuses nothing the turns go well
until one finishes, within one round for every read and one more. By then every entry has been handed
over, each input's in its own order, and then one flush, and the merger is empty. -/
theorem pulls_terminate (policy : Policy α) (inlets : List (PartitionId × Inlet α))
    (ho : Orderly policy inlets) :
    let reads := (inlets.map fun x => x.2.upcoming.length).sum
    let count := inlets.length
    ∃ (ts : List Turn) (emitted : List (Entry α)) (s : Intake α),
      ts.length + 1 ≤ (reads + count) * count + count + 1 ∧ Turn.finished ∉ ts ∧
      (∀ {ω : Type} (k : Outlet ω α) (w : ω), k.NeverFails w →
        replies policy k (ts.length + 1) (ofInlets inlets) w = ts.map .ok ++ [.ok .finished] ∧
        pulls policy k (ts.length + 1) (ofInlets inlets) w =
          (s, k.replay (emitted.map (.record ·.record) ++ [.flush]) w)) ∧
      emitted.Perm (policy.extract inlets) ∧
      (∀ x ∈ inlets, emitted.filter (·.partition = x.1) =
        policy.entries x.1 x.2.upcoming) ∧
      s.merger.openCount = 0 ∧ s.merger.buffered = 0 := by
  intro reads count
  obtain ⟨ts, l, s, new, hlen, hmem, hruns, r, hf, hnone⟩ := (rests_ofInlets ho.tame).comes_to_end ho
  have hseen : new = l.signals ++ [.flush] := by
    rw [← List.nil_append new, r.seen, hf]
    rfl
  have hopen : s.merger.openCount = 0 := beq_iff_eq.1 (r.isFinished hnone)
  have hbound : (ofInlets inlets).rank + 1 = (reads + count) * count + count + 1 := by
    have hcount : (ofInlets inlets).slots.length = count := List.length_map _
    have hreads : (ofInlets inlets).outstanding = reads := by
      rw [outstanding_eq_sum, ofInlets, List.map_map]
      rfl
    rw [rank_ofInlets, turnBound, hcount, hreads]
  refine ⟨ts, l.released, s, by omega, hmem, fun k w hk => ?_, ?_, ?_, hopen, ?_⟩
  · obtain ⟨hreplies, hpulls⟩ := hruns k w hk
    refine ⟨hreplies, ?_⟩
    rw [hpulls, hseen]
    rfl
  · exact (r.released_perm hnone).trans (r.accepted_perm ho.tame hnone)
  · intro x hx
    rw [← r.acceptedOn_eq hnone hx]
    exact r.releasedOn_eq hnone x.1
  · rw [← r.merger]
    exact r.balanced.buffered_eq_zero (by rw [r.merger, hopen])

/-- Integers that are their own timestamps, in any order. -/
def unchecked : Policy Int := { rule := .computed .ok, checkOrder := false }

/-- The first input goes back in time, the second gives a record that is malformed. -/
def unsorted : List (PartitionId × Inlet Int) :=
  [(0, .ofRecords [5, 2]), (1, { upcoming := [.error (.malformed .notAKey), .ok (some 3)] })]

theorem orderly_unsorted : Orderly unchecked unsorted where
  distinct := by decide
  regular := by
    intro x hx
    simp only [unsorted, List.mem_cons, List.not_mem_nil, or_false] at hx
    rcases hx with rfl | rfl
    · exact Inlet.regular_ofRecords [5, 2]
    · refine ⟨rfl, fun r hr => ?_⟩
      simp only [List.mem_cons, List.not_mem_nil, or_false] at hr
      rcases hr with rfl | rfl
      · exact .inr ⟨.notAKey, rfl⟩
      · exact .inl ⟨3, rfl⟩
  mild := KeyRule.mild_of_find fun record fault h => by cases h
  ascending := fun h => by cases h

/-- All three records come out within fifteen turns, although the watermark goes back. -/
theorem pulls_terminate_unsorted : Orderly unchecked unsorted ∧
    ∃ (ts : List Turn) (records : List Int), ts.length + 1 ≤ 15 ∧
      replies unchecked .collect (ts.length + 1) (ofInlets unsorted) [] =
        ts.map .ok ++ [.ok .finished] ∧
      (pulls unchecked .collect (ts.length + 1) (ofInlets unsorted) []).2 = records ∧
      records.Perm [5, 2, 3] := by
  obtain ⟨ts, emitted, s, hlen, _, hruns, hperm, _⟩ :=
    pulls_terminate unchecked unsorted orderly_unsorted
  obtain ⟨hreplies, hpulls⟩ := hruns .collect [] (Outlet.neverFails_collect [])
  refine ⟨orderly_unsorted, ts, emitted.map (·.record), hlen, hreplies, ?_, hperm.map _⟩
  rw [hpulls, Outlet.replay_collect]
  exact List.nil_append _

end Intake

end TimeMerge
