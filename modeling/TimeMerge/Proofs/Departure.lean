import TimeMerge.Proofs.Lanes

/-!
# What leaves a merger

`next` gives out a record and nothing else. Here it is split into the choice of a head, which is
labelled with its partition and timestamp, and the departure of that head.
-/
namespace TimeMerge

namespace Merger

variable {m : Merger α} {p : PartitionId} {e : Entry α}

theorem head?_lane {lane : Lane α} (h : m.lane? p = some lane) :
    lane.head? = (m.queued p).head?.map (·.timestamp) := by
  simp [queued_of_lane? h, Lane.head?, Function.comp_def]

theorem smallest?_eq_none {es : List (PartitionId × Lane α)} :
    smallest? es = none ↔ ∀ x ∈ es, x.2.head? = none := by
  induction es with
  | nil => simp [smallest?]
  | cons x es ih =>
    obtain ⟨p, lane⟩ := x
    simp only [smallest?, List.forall_mem_cons]
    cases hl : lane.head? with
    | none => simpa using ih
    | some ts =>
      cases hs : smallest? es with
      | none => simp
      | some y => by_cases hy : y.2 < ts <;> simp [hy]

theorem mem_of_smallest? {es : List (PartitionId × Lane α)} {ts : Timestamp}
    (h : smallest? es = some (p, ts)) : ∃ lane, (p, lane) ∈ es ∧ lane.head? = some ts := by
  induction es with
  | nil => simp [smallest?] at h
  | cons x es ih =>
    obtain ⟨q, lane⟩ := x
    simp only [smallest?] at h
    split at h
    · obtain ⟨l, hm, hl⟩ := ih h
      exact ⟨l, List.mem_cons_of_mem _ hm, hl⟩
    · rename_i hl _
      cases h
      exact ⟨lane, List.mem_cons_self, hl⟩
    · rename_i hl hs
      split at h
      · cases h
        obtain ⟨l, hm, hl⟩ := ih hs
        exact ⟨l, List.mem_cons_of_mem _ hm, hl⟩
      · cases h
        exact ⟨lane, List.mem_cons_self, hl⟩

theorem smallest?_le {es : List (PartitionId × Lane α)} {ts : Timestamp}
    (h : smallest? es = some (p, ts)) :
    ∀ x ∈ es, ∀ t, x.2.head? = some t → ts ≤ t := by
  induction es generalizing p ts with
  | nil => simp [smallest?] at h
  | cons y es ih =>
    obtain ⟨q, lane⟩ := y
    simp only [smallest?] at h
    intro x hx t ht
    split at h
    · rename_i hl
      rcases List.mem_cons.1 hx with rfl | hx
      · simp [hl] at ht
      · exact ih h x hx t ht
    · rename_i hl hs
      cases h
      rcases List.mem_cons.1 hx with rfl | hx
      · simp only [hl, Option.some.injEq] at ht
        exact Int.le_of_eq ht
      · have := smallest?_eq_none.1 hs x hx
        simp [this] at ht
    · rename_i t₀ q' best hl hs
      have hbest : best ≤ t ∨ t₀ = t := by
        rcases List.mem_cons.1 hx with rfl | hx
        · simp only [hl, Option.some.injEq] at ht
          exact .inr ht
        · exact .inl (ih hs x hx t ht)
      split at h
      · rename_i hlt
        cases h
        exact hbest.elim id fun ht => ht ▸ Int.le_of_lt hlt
      · rename_i hge
        cases h
        exact hbest.elim (Int.le_trans (Int.not_lt.1 hge)) Int.le_of_eq

/-- The partition that `next` takes from. -/
def source? (m : Merger α) : Option PartitionId :=
  match m.tied? with
  | some p => some p
  | none => if m.blocked then none else (smallest? m.lanes.entries).map (·.1)

/-- The head that `next` releases, with its partition and timestamp. -/
def departure? (m : Merger α) : Option (Entry α) := m.source?.bind fun p => (m.queued p).head?

theorem pop_eq (m : Merger α) (p : PartitionId) : m.pop p =
    (m.queued p).head?.map fun e => (e.record, { m.depart e with watermark := m.watermark }) := by
  unfold pop
  split
  · rename_i hl
    simp [queued_of_lane?_none hl]
  · rename_i lane hl
    rw [queued_of_lane? hl]
    split
    · rename_i hq
      simp [hq]
    · rename_i hq
      simp [hq, depart]

theorem tied?_eq_some (h : m.tied? = some p) :
    (m.queued p).head?.map (·.timestamp) = some m.watermark := by
  obtain ⟨⟨q, lane⟩, hf, rfl⟩ := Option.map_eq_some_iff.1 h
  have hl : m.lane? q = some lane := Table.mem_entries_iff.1 (List.mem_of_find?_eq_some hf)
  rw [← head?_lane hl]
  simpa using List.find?_some hf

theorem tied?_eq_none (h : m.tied? = none) (p : PartitionId) :
    (m.queued p).head?.map (·.timestamp) ≠ some m.watermark := by
  cases hl : m.lane? p with
  | none => simp [queued_of_lane?_none hl]
  | some lane =>
    have hf := List.find?_eq_none.1 (Option.map_eq_none_iff.1 h) (p, lane)
      (Table.mem_entries_iff.2 hl)
    rw [← head?_lane hl]
    simpa using hf

theorem smallest?_entries {ts : Timestamp} (h : smallest? m.lanes.entries = some (p, ts)) :
    (m.queued p).head?.map (·.timestamp) = some ts := by
  obtain ⟨lane, hm, hts⟩ := mem_of_smallest? h
  have hl : m.lane? p = some lane := Table.mem_entries_iff.1 hm
  rw [← head?_lane hl, hts]

/-- `next` takes off the chosen head and gives out its record. -/
theorem next_eq (m : Merger α) :
    m.next = m.departure?.map fun e => (e.record, m.depart e) := by
  unfold next departure? source?
  cases ht : m.tied? with
  | some p =>
    have hw := tied?_eq_some ht
    simp only [Option.bind_some, pop_eq]
    cases hq : (m.queued p).head? with
    | none => rfl
    | some e =>
      simp only [hq, Option.map_some, Option.some.injEq] at hw ⊢
      simp [depart, hw]
  | none =>
    cases m.blocked with
    | true => rfl
    | false =>
      cases hs : smallest? m.lanes.entries with
      | none => rfl
      | some x =>
        obtain ⟨p, ts⟩ := x
        have hts := smallest?_entries hs
        have hq : queued { m with watermark := ts } p = m.queued p := rfl
        simp only [Bool.false_eq_true, ↓reduceIte, Option.map_some, Option.bind_some, pop_eq, hq]
        cases hh : (m.queued p).head? with
        | none => rfl
        | some e =>
          simp only [hh, Option.map_some, Option.some.injEq] at hts ⊢
          simp [depart, hts]

theorem head?_of_departure? (h : m.departure? = some e) :
    (m.queued e.partition).head? = some e := by
  obtain ⟨p, _, hq⟩ := Option.bind_eq_some_iff.1 h
  rw [partition_of_mem_queued (List.mem_of_head? hq), hq]

/-- A head goes because it ties with the watermark, or because nothing blocks and none is smaller. -/
theorem due_of_departure? (h : m.departure? = some e) : e.timestamp = m.watermark ∨
    m.blocked = false ∧ ∀ q f, (m.queued q).head? = some f → e.timestamp ≤ f.timestamp := by
  obtain ⟨p, hp, hq⟩ := Option.bind_eq_some_iff.1 h
  unfold source? at hp
  cases ht : m.tied? with
  | some p' =>
    simp only [ht, Option.some.injEq] at hp
    subst p'
    have hw := tied?_eq_some ht
    rw [hq] at hw
    exact .inl (Option.some.inj hw)
  | none =>
    cases hb : m.blocked with
    | true => simp [ht, hb] at hp
    | false =>
      simp only [ht, hb, Bool.false_eq_true, ↓reduceIte] at hp
      obtain ⟨⟨p', ts⟩, hs, rfl⟩ := Option.map_eq_some_iff.1 hp
      have hts := smallest?_entries hs
      rw [hq] at hts
      have hts : e.timestamp = ts := Option.some.inj hts
      refine .inr ⟨rfl, fun q f hf => ?_⟩
      cases hl : m.lane? q with
      | none => simp [queued_of_lane?_none hl] at hf
      | some lane =>
        rw [hts]
        refine smallest?_le hs (q, lane) (Table.mem_entries_iff.2 hl) _ ?_
        rw [head?_lane hl, hf, Option.map_some]

/-- Nothing goes only if no head ties with the watermark and some partition blocks, unless there is
nothing at all. -/
theorem departure?_eq_none (h : m.departure? = none) :
    (∀ p f, (m.queued p).head? = some f → f.timestamp ≠ m.watermark) ∧
      (m.blocked = true ∨ ∀ p, m.queued p = []) := by
  unfold departure? source? at h
  cases ht : m.tied? with
  | some p =>
    have hw := tied?_eq_some ht
    simp only [ht, Option.bind_some] at h
    simp [h] at hw
  | none =>
    refine ⟨fun p f hf he => ?_, ?_⟩
    · refine tied?_eq_none ht p ?_
      rw [hf, Option.map_some, he]
    cases hb : m.blocked with
    | true => exact .inl rfl
    | false =>
      simp only [ht, hb, Bool.false_eq_true, ↓reduceIte] at h
      cases hs : smallest? m.lanes.entries with
      | none =>
        refine .inr fun p => ?_
        cases hl : m.lane? p with
        | none => exact queued_of_lane?_none hl
        | some lane =>
          have := smallest?_eq_none.1 hs (p, lane) (Table.mem_entries_iff.2 hl)
          rw [head?_lane hl] at this
          simpa using this
      | some x =>
        obtain ⟨p, ts⟩ := x
        have hts := smallest?_entries hs
        simp only [hs, Option.map_some, Option.bind_some] at h
        simp [h] at hts

/-- What `take` releases, labelled. -/
def departures : Nat → Merger α → List (Entry α)
  | 0, _ => []
  | n + 1, m =>
    match m.departure? with
    | none => []
    | some e => e :: departures n (m.depart e)

theorem take_of_none (h : m.departure? = none) (n : Nat) : m.take n = ([], m) := by
  cases n <;> simp [take, next_eq, h]

theorem take_succ_of_some (h : m.departure? = some e) (n : Nat) :
    m.take (n + 1) = (e.record :: ((m.depart e).take n).1, ((m.depart e).take n).2) := by
  simp [take, next_eq, h]

theorem records_departures (n : Nat) (m : Merger α) :
    (m.departures n).map (·.record) = (m.take n).1 := by
  induction n generalizing m with
  | zero => rfl
  | succ n ih =>
    cases h : m.departure? with
    | none => simp [departures, take_of_none, h]
    | some e => simp [departures, take_succ_of_some, h, ih]

theorem drain_of_none (h : m.departure? = none) : m.drain = ([], m) := by
  have hn : m.next = none := by rw [next_eq, h, Option.map_none]
  rw [drain]
  split
  · rfl
  · rename_i hs
    simp [hn] at hs

theorem drain_of_some (h : m.departure? = some e) :
    m.drain = (e.record :: (m.depart e).drain.1, (m.depart e).drain.2) := by
  have hn : m.next = some (e.record, m.depart e) := by rw [next_eq, h, Option.map_some]
  rw [drain]
  split
  · rename_i hs
    simp [hn] at hs
  · rename_i hs
    rw [hn] at hs
    cases hs
    rfl

theorem mem_queued_of_departure? (h : m.departure? = some e) : e ∈ m.queued e.partition :=
  List.mem_of_head? (head?_of_departure? h)

/-- Nothing is there to go at first. -/
theorem departure?_ofPartitions (ids : List PartitionId) :
    (ofPartitions ids : Merger α).departure? = none := by
  rw [Option.eq_none_iff_forall_ne_some]
  intro e he
  have hm := mem_queued_of_departure? he
  rw [queued_ofPartitions] at hm
  cases hm

/-- Every departure makes a merger smaller, so its size bounds what a drain can release. -/
theorem drain_eq_take {n : Nat} (h : m.size ≤ n) : m.drain = m.take n := by
  induction n generalizing m with
  | zero =>
    cases hd : m.departure? with
    | none => rw [drain_of_none hd, take_of_none hd]
    | some e =>
      have := size_depart (mem_queued_of_departure? hd)
      omega
  | succ n ih =>
    cases hd : m.departure? with
    | none => rw [drain_of_none hd, take_of_none hd]
    | some e =>
      have := size_depart (mem_queued_of_departure? hd)
      rw [drain_of_some hd, take_succ_of_some hd, ih (by omega)]

/-- Nothing can go after a drain. -/
theorem departure?_drain (m : Merger α) : m.drain.2.departure? = none := by
  fun_induction drain m with
  | case1 m h =>
    rw [next_eq] at h
    simpa using h
  | case2 m record m' h r ih => exact ih

end Merger

end TimeMerge
