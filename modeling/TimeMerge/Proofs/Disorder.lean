import TimeMerge.Proofs.Ingestion

/-!
# Inputs that go back in time

A run over an outlet that refuses nothing comes through just if the timestamps of every input ascend.
Else it stops at the first descent of one of the inputs. Malformed records in between do not hide it,
nor does it matter what had gone out by then. What had gone out was in order, without a flush.
-/
namespace TimeMerge

/-- The first timestamp that goes back, behind the one that it goes back from. -/
def firstDescent? : List Timestamp → Option (Timestamp × Timestamp)
  | previous :: ts :: rest =>
    if ts < previous then some (previous, ts) else firstDescent? (ts :: rest)
  | _ => none

theorem firstDescent?_eq_none_iff {times : List Timestamp} :
    firstDescent? times = none ↔ times.Pairwise (· ≤ ·) := by
  rw [← List.isChain_iff_pairwise]
  fun_induction firstDescent? times with
  | case1 previous ts rest hlt => simp [Int.not_le.2 hlt]
  | case2 previous ts rest hle ih => rw [ih, List.isChain_cons_cons, and_iff_right (Int.not_lt.1 hle)]
  | case3 times hshort =>
    match times with
    | [] => simp
    | [_] => simp
    | previous :: ts :: rest => exact absurd rfl (hshort previous ts rest)

theorem firstDescent?_cons {a : Timestamp} {times : List Timestamp} (h : ∀ t ∈ times.head?, a ≤ t) :
    firstDescent? (a :: times) = firstDescent? times := by
  cases times with
  | nil => rfl
  | cons b times => rw [firstDescent?, if_neg (Int.not_lt.2 (h b rfl))]

/-- Up to the timestamp that is gone back from they ascend. -/
theorem firstDescent?_eq_some_iff {times : List Timestamp} {previous ts : Timestamp} :
    firstDescent? times = some (previous, ts) ↔ ∃ before rest,
      times = before ++ previous :: ts :: rest ∧ (before ++ [previous]).Pairwise (· ≤ ·) ∧
      ts < previous := by
  constructor
  · intro h
    fun_induction firstDescent? times with
    | case1 a b rest hlt =>
      cases h
      exact ⟨[], rest, rfl, by simp, hlt⟩
    | case2 a b rest hle ih =>
      obtain ⟨before, rest', heq, hasc, hlt⟩ := ih h
      refine ⟨a :: before, rest', by rw [heq, List.cons_append], ?_, hlt⟩
      have hab := Int.not_lt.1 hle
      cases before with
      | nil =>
        cases heq
        simpa using hab
      | cons c before =>
        cases heq
        rw [List.cons_append] at hasc ⊢
        refine List.pairwise_cons.2 ⟨fun t ht => ?_, hasc⟩
        rcases List.mem_cons.1 ht with rfl | ht
        · exact hab
        · exact Int.le_trans hab ((List.pairwise_cons.1 hasc).1 t ht)
    | case3 => cases h
  · rintro ⟨before, rest, rfl, hasc, hlt⟩
    induction before with
    | nil => rw [List.nil_append, firstDescent?, if_pos hlt]
    | cons a before ih =>
      obtain ⟨hle, hasc⟩ := List.pairwise_cons.1 hasc
      rw [List.cons_append, firstDescent?_cons, ih hasc]
      intro t ht
      refine hle t (List.mem_of_mem_head? ?_)
      cases before <;> exact ht

namespace Intake

variable [Record α] {policy : Policy α} {inlets : List (PartitionId × Inlet α)} {l : Ledger α}
  {s : Intake α} {calls : List (Signal α)}

theorem Rests.ordered (r : Rests policy inlets l s calls) (hc : policy.checkOrder = true) :
    l.Ordered :=
  ((Ledger.ordered_opening _).steps hc (Ledger.balanced_opening _) r.steps).2.1

/-- What was taken for a partition ends at the last timestamp that did not go back. -/
theorem firstDescent?_of_descends (o : l.Ordered) {p : PartitionId} {previous ts : Timestamp}
    (h : Descends policy inlets l p previous ts) : ∃ x ∈ inlets, x.1 = p ∧
      firstDescent? (Ledger.timestamps (policy.entries x.1 x.2.upcoming)) = some (previous, ts) := by
  obtain ⟨_, hlast, hlt, x, hx, rfl, e, es, rfl, hentries⟩ := h
  refine ⟨x, hx, rfl, ?_⟩
  obtain ⟨f, hf, rfl⟩ := Option.map_eq_some_iff.1 hlast
  obtain ⟨before, hbefore⟩ := List.getLast?_eq_some_iff.1 hf
  have hasc := o.arrivals x.1
  rw [hbefore, Ledger.timestamps, List.map_append] at hasc
  rw [hentries, hbefore, Ledger.timestamps, List.append_assoc, List.map_append]
  exact firstDescent?_eq_some_iff.2 ⟨_, _, rfl, hasc, hlt⟩

/-- A run comes through just if no input goes back in time. Else it fails with the first descent of an
input, and what the outlet was handed by then is records in order and no flush. -/
theorem run_detects_disorder (policy : Policy α) (inlets : List (PartitionId × Inlet α))
    (ho : Tame policy inlets) (hc : policy.checkOrder = true) {ω : Type} (k : Outlet ω α) (w : ω)
    (hk : k.NeverFails w) :
    let times (x : PartitionId × Inlet α) : List Timestamp :=
      Ledger.timestamps (policy.entries x.1 x.2.upcoming)
    ((∃ s, (ofInlets inlets).run policy k w = (.ok true, s)) ↔
      ∀ x ∈ inlets, (times x).Pairwise (· ≤ ·)) ∧
    ((¬∀ x ∈ inlets, (times x).Pairwise (· ≤ ·)) →
      ∃ x ∈ inlets, ∃ (previous ts : Timestamp) (records : List α) (keys : List Timestamp)
        (s : Intake α),
        firstDescent? (times x) = some (previous, ts) ∧
        (ofInlets inlets).run policy k w =
          (.error (.outOfOrder x.1 previous ts), (s, k.replay (records.map .record) w)) ∧
        records.map policy.rule.timestamp = keys.map .ok ∧ keys.Pairwise (· ≤ ·)) := by
  intro times
  rcases run_ends_or_breaks policy inlets ho with
    ⟨l, s, hrun, r, hnone⟩ | ⟨l, s, s', p, previous, ts, hrun, r, hback⟩
  · have hasc : ∀ x ∈ inlets, (times x).Pairwise (· ≤ ·) := by
      intro x hx
      have h := (r.ordered hc).arrivals x.1
      rwa [r.acceptedOn_eq hnone hx] at h
    exact ⟨⟨fun _ => hasc, fun _ => ⟨_, hrun k w hk⟩⟩, fun hnot => absurd hasc hnot⟩
  · have o := r.ordered hc
    obtain ⟨x, hx, rfl, hdescent⟩ := firstDescent?_of_descends o hback
    have hnot : ¬∀ x ∈ inlets, (times x).Pairwise (· ≤ ·) := by
      intro hasc
      have hnone := firstDescent?_eq_none_iff.2 (hasc x hx)
      rw [hdescent] at hnone
      cases hnone
    refine ⟨⟨?_, fun hasc => absurd hasc hnot⟩, fun _ => ?_⟩
    · rintro ⟨_, hok⟩
      rw [hrun k w hk] at hok
      cases hok
    · refine ⟨x, hx, previous, ts, l.released.map (·.record), Ledger.timestamps l.released, s',
        hdescent, ?_, r.balanced.keys_released, o.ascending⟩
      rw [hrun k w hk, List.map_map]
      rfl

/-- The 1 goes back from the 3, which has gone out by the time it is read. -/
def lapsing : List (PartitionId × Inlet Int) :=
  [(0, { upcoming := [.ok (some 3), .error (.malformed .notAKey), .ok (some (-3)), .ok (some 1)] }),
    (1, .ofRecords [2])]

theorem tame_lapsing : Tame .selfKeyed lapsing where
  distinct := by decide
  regular := by
    intro x hx
    simp only [lapsing, List.mem_cons, List.not_mem_nil, or_false] at hx
    rcases hx with rfl | rfl
    · refine ⟨rfl, fun r hr => ?_⟩
      simp only [List.mem_cons, List.not_mem_nil, or_false] at hr
      rcases hr with rfl | rfl | rfl | rfl
      · exact .inl ⟨3, rfl⟩
      · exact .inr ⟨.notAKey, rfl⟩
      · exact .inl ⟨-3, rfl⟩
      · exact .inl ⟨1, rfl⟩
    · exact Inlet.regular_ofRecords [2]
  mild := KeyRule.mild_of_find fun record fault h => by cases h

theorem run_detects_disorder_lapsing : ∃ (records : List Int) (keys : List Timestamp) (s : Intake Int),
    (ofInlets lapsing).run .selfKeyed .collect [] =
      (.error (.outOfOrder 0 3 1), (s, Outlet.collect.replay (records.map .record) [])) ∧
    records.map Policy.selfKeyed.rule.timestamp = keys.map .ok ∧ keys.Pairwise (· ≤ ·) := by
  obtain ⟨x, hx, previous, ts, records, keys, s, hdescent, hrun, hkeys, hasc⟩ :=
    (run_detects_disorder .selfKeyed lapsing tame_lapsing rfl .collect []
      (Outlet.neverFails_collect [])).2 (by decide)
  refine ⟨records, keys, s, ?_, hkeys, hasc⟩
  simp only [lapsing, List.mem_cons, List.not_mem_nil, or_false] at hx
  rcases hx with rfl | rfl
  · have hfirst : some ((3 : Timestamp), (1 : Timestamp)) = some (previous, ts) := hdescent
    cases hfirst
    exact hrun
  · cases hdescent

end Intake

end TimeMerge
