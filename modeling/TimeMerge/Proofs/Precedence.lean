import TimeMerge.Proofs.Sweeps

/-!
# Which head goes first

The head that goes next is determined by the heads, the watermark and whether anything blocks, and not
by how lanes are stored. So it stays the next one while fewer partitions block, and it does not matter
whether partitions are disabled before everything has gone that may go, or after that. -/
namespace TimeMerge

namespace Merger

variable {m m' : Merger α} {p q : PartitionId} {e e' f : Entry α}

theorem tied?_le (h : m.tied? = some p)
    (hq : (m.queued q).head?.map (·.timestamp) = some m.watermark) : p ≤ q := by
  obtain ⟨⟨p, lane⟩, hfind, rfl⟩ := Option.map_eq_some_iff.1 h
  obtain ⟨_, before, behind, hentries, hbefore⟩ := List.find?_eq_some_iff_append.1 hfind
  cases hl : m.lane? q with
  | none => simp [queued_of_lane?_none hl] at hq
  | some lane' =>
    rw [← head?_lane hl] at hq
    have hm : (q, lane') ∈ m.lanes.entries := Table.mem_entries_iff.2 hl
    have hsorted := m.lanes.ascending
    rw [hentries] at hm hsorted
    rcases List.mem_append.1 hm with hm | hm
    · simpa [hq] using hbefore _ hm
    · have hle := (List.pairwise_cons.1 (List.pairwise_append.1 hsorted).2.1).1
      rcases List.mem_cons.1 hm with he | hm
      · exact Nat.le_of_eq (Prod.mk.inj he).1.symm
      · exact Nat.le_of_lt (hle _ hm)

/-- Of the smallest heads the first one in the list is taken. -/
theorem smallest?_first {es : List (PartitionId × Lane α)} {ts : Timestamp}
    (hsorted : es.Pairwise (·.1 < ·.1)) (h : smallest? es = some (p, ts)) :
    ∀ x ∈ es, x.2.head? = some ts → p ≤ x.1 := by
  induction es generalizing p ts with
  | nil => simp
  | cons y es ih =>
    obtain ⟨q, lane⟩ := y
    obtain ⟨hfirst, hsorted⟩ := List.pairwise_cons.1 hsorted
    intro x hx hts
    simp only [smallest?] at h
    split at h
    · rename_i hl
      rcases List.mem_cons.1 hx with rfl | hx
      · simp [hl] at hts
      · exact ih hsorted h x hx hts
    · cases h
      rcases List.mem_cons.1 hx with rfl | hx
      · exact Nat.le_refl _
      · exact Nat.le_of_lt (hfirst x hx)
    · rename_i t r best hl hs
      split at h
      · rename_i hlt
        cases h
        rcases List.mem_cons.1 hx with rfl | hx
        · obtain rfl : t = ts := Option.some.inj (hl.symm.trans hts)
          exact absurd hlt (Int.lt_irrefl _)
        · exact ih hsorted hs x hx hts
      · cases h
        rcases List.mem_cons.1 hx with rfl | hx
        · exact Nat.le_refl _
        · exact Nat.le_of_lt (hfirst x hx)

/-- A head is the next to go: it is the first to tie with the watermark, or nothing ties or blocks and
it is the first of the smallest. -/
inductive Goes (m : Merger α) (e : Entry α) : Prop where
  | tie (head : (m.queued e.partition).head? = some e) (level : e.timestamp = m.watermark)
      (first : ∀ q f, (m.queued q).head? = some f → f.timestamp = m.watermark → e.partition ≤ q)
  | least (head : (m.queued e.partition).head? = some e) (free : m.blocked = false)
      (untied : ∀ q f, (m.queued q).head? = some f → f.timestamp ≠ m.watermark)
      (smallest : ∀ q f, (m.queued q).head? = some f → e.timestamp ≤ f.timestamp)
      (first : ∀ q f, (m.queued q).head? = some f → f.timestamp = e.timestamp → e.partition ≤ q)

theorem Goes.head (h : m.Goes e) : (m.queued e.partition).head? = some e := by
  cases h with
  | tie head level first => exact head
  | least head free untied smallest first => exact head

theorem goes_of_departure? (h : m.departure? = some e) : m.Goes e := by
  have hhead := head?_of_departure? h
  obtain ⟨p, hp, hq⟩ := Option.bind_eq_some_iff.1 h
  obtain rfl : e.partition = p := partition_of_mem_queued (List.mem_of_head? hq)
  unfold source? at hp
  cases ht : m.tied? with
  | some p' =>
    simp only [ht, Option.some.injEq] at hp
    rw [hp] at ht
    have hlevel := tied?_eq_some ht
    rw [hq, Option.map_some, Option.some.injEq] at hlevel
    refine .tie hhead hlevel fun q f hf hfl => tied?_le ht ?_
    rw [hf, Option.map_some, hfl]
  | none =>
    have huntied : ∀ q f, (m.queued q).head? = some f → f.timestamp ≠ m.watermark := by
      intro q f hf he
      exact tied?_eq_none ht q (by rw [hf, Option.map_some, he])
    obtain ⟨hfree, hsmallest⟩ := (due_of_departure? h).resolve_left (huntied _ e hhead)
    simp only [ht, hfree, Bool.false_eq_true, ↓reduceIte] at hp
    obtain ⟨⟨p', ts⟩, hs, hp'⟩ := Option.map_eq_some_iff.1 hp
    obtain rfl : p' = e.partition := hp'
    have hts := smallest?_entries hs
    rw [hq, Option.map_some, Option.some.injEq] at hts
    refine .least hhead hfree huntied hsmallest fun q f hf he => ?_
    cases hl : m.lane? q with
    | none => simp [queued_of_lane?_none hl] at hf
    | some lane =>
      refine smallest?_first m.lanes.ascending hs (q, lane) (Table.mem_entries_iff.2 hl) ?_
      rw [head?_lane hl, hf, Option.map_some, he, hts]

/-- Only one head can be the next. -/
theorem Goes.unique (h : m.Goes e) (h' : m.Goes e') : e = e' := by
  have hpartition : e.partition = e'.partition := by
    cases h with
    | tie head level first =>
      cases h' with
      | tie head' level' first' =>
        exact Nat.le_antisymm (first _ e' head' level') (first' _ e head level)
      | least head' free untied smallest first' => exact absurd level (untied _ e head)
    | least head free untied smallest first =>
      cases h' with
      | tie head' level first' => exact absurd level (untied _ e' head')
      | least head' free' untied' smallest' first' =>
        have hts := Int.le_antisymm (smallest _ e' head') (smallest' _ e head)
        exact Nat.le_antisymm (first _ e' head' hts.symm) (first' _ e head hts)
  have hhead := h.head
  rw [hpartition, h'.head, Option.some.injEq] at hhead
  exact hhead.symm

/-- A head that is the next by this account does go. -/
theorem departure?_eq_some_iff : m.departure? = some e ↔ m.Goes e := by
  constructor
  · exact goes_of_departure?
  · intro h
    cases hd : m.departure? with
    | some e' => rw [(goes_of_departure? hd).unique h]
    | none =>
      obtain ⟨huntied, hstuck⟩ := departure?_eq_none hd
      cases h with
      | tie head level first => exact absurd level (huntied _ e head)
      | least head free untied smallest first =>
        rcases hstuck with hblocked | hempty
        · simp [hblocked] at free
        · simp [hempty] at head

/-- With the same queued and the same watermark, and nothing blocking that did not, the next head is
still the next. -/
theorem Goes.congr (h : m.Goes e) (hq : ∀ p, m'.queued p = m.queued p)
    (hw : m'.watermark = m.watermark) (hb : m.blocked = false → m'.blocked = false) : m'.Goes e := by
  cases h with
  | tie head level first =>
    apply Goes.tie
    · rw [hq, head]
    · rw [hw, level]
    · simpa only [hq, hw] using first
  | least head free untied smallest first =>
    apply Goes.least
    · rw [hq, head]
    · exact hb free
    · simpa only [hq, hw] using untied
    · simpa only [hq] using smallest
    · simpa only [hq] using first

theorem departure?_congr (hq : ∀ p, m'.queued p = m.queued p) (hw : m'.watermark = m.watermark)
    (hb : m'.blocked = m.blocked) : m'.departure? = m.departure? := by
  apply Option.ext
  intro e
  rw [departure?_eq_some_iff, departure?_eq_some_iff]
  constructor
  · intro h
    exact h.congr (fun p => (hq p).symm) hw.symm (by rw [hb]; exact id)
  · intro h
    exact h.congr hq hw (by rw [hb]; exact id)

theorem blocked_unblockAll (ps : List PartitionId) (h : m.blocked = false) :
    (m.unblockAll ps).blocked = false := by
  rw [← Bool.not_eq_true, blocked_iff] at h ⊢
  rintro ⟨p, henabled, hempty⟩
  rw [isEnabled_unblockAll] at henabled
  split at henabled
  · cases henabled
  · exact h ⟨p, henabled, by rwa [queued_unblockAll] at hempty⟩

/-- What goes while partitions still block goes all the same once they do not. -/
theorem departure?_unblockAll (ps : List PartitionId) (h : m.departure? = some e) :
    (m.unblockAll ps).departure? = some e :=
  departure?_eq_some_iff.2 ((goes_of_departure? h).congr (m.queued_unblockAll ps)
    (m.watermark_unblockAll ps) (blocked_unblockAll ps))

theorem disableAll_unblock (m : Merger α) (p : PartitionId) :
    (m.unblock p).disableAll = m.disableAll := by
  refine ext_lane? (fun q => ?_) rfl rfl
  rw [lane?_disableAll, lane?_disableAll, lane?_unblock, Option.map_map]
  congr 1
  funext lane
  by_cases hq : q = p <;> simp [hq, Lane.disable]

theorem disableAll_of_disabled (h : ∀ p, m.isEnabled p = false) : m.disableAll = m := by
  refine ext_lane? (fun p => ?_) rfl rfl
  rw [lane?_disableAll]
  cases hl : m.lane? p with
  | none => rfl
  | some lane =>
    have hd : lane.enabled = false := by rw [← isEnabled_of_lane? hl, h]
    rw [Option.map_some, Lane.disable, ← hd]

theorem depart_unblockAll (ps : List PartitionId) (m : Merger α) (e : Entry α) :
    (m.unblockAll ps).depart e = (m.depart e).unblockAll ps := by
  refine ext_lane? (fun q => ?_) (by simp) (by simp)
  rw [lane?_depart, lane?_unblockAll, lane?_unblockAll, lane?_depart, Option.map_map, Option.map_map]
  congr 1
  funext lane
  by_cases hq : q = e.partition
  · subst hq
    by_cases hm : e.partition ∈ ps <;> simp [hm, Lane.disable, Lane.drop]
  · simp [hq]

/-- With partitions disabled from the start, a merger releases what it would have released and then
what only they held back. -/
theorem drain_unblockAll (ps : List PartitionId) (m : Merger α) : (m.unblockAll ps).drain =
    (m.drain.1 ++ (m.drain.2.unblockAll ps).drain.1, (m.drain.2.unblockAll ps).drain.2) := by
  induction m using drain.induct with
  | case1 m hn =>
    rw [next_eq, Option.map_eq_none_iff] at hn
    rw [drain_of_none hn, List.nil_append]
  | case2 m record m' hn ih =>
    rw [next_eq] at hn
    obtain ⟨e, hd, he⟩ := Option.map_eq_some_iff.1 hn
    cases he
    rw [drain_of_some (departure?_unblockAll ps hd), depart_unblockAll, ih, drain_of_some hd]
    rfl

theorem drain_disableAll (m : Merger α) : m.disableAll.drain =
    (m.drain.1 ++ m.drain.2.disableAll.drain.1, m.drain.2.disableAll.drain.2) := by
  have hall : m.disableAll = m.unblockAll m.partitions := disableAll_eq_unblockAll fun _ hp => hp
  have hleft : m.drain.2.disableAll = m.drain.2.unblockAll m.partitions := by
    refine disableAll_eq_unblockAll fun p hp => ?_
    rwa [mem_partitions_iff, standing_drain, ← mem_partitions_iff] at hp
  rw [hall, hleft, drain_unblockAll]

/-- The same but for disabled partitions that hold nothing. -/
def Alike (m m' : Merger α) : Prop := m.closeDrained = m'.closeDrained

theorem blocked_closeDrained (m : Merger α) : m.closeDrained.blocked = m.blocked := by
  rw [Bool.eq_iff_iff, blocked_iff, blocked_iff]
  simp only [isEnabled_closeDrained, queued_closeDrained]

theorem departure?_of_closeDrained (m : Merger α) : m.closeDrained.departure? = m.departure? :=
  departure?_congr m.queued_closeDrained rfl m.blocked_closeDrained

theorem Alike.departure? (h : Alike m m') : m.departure? = m'.departure? := by
  rw [← departure?_of_closeDrained, h, departure?_of_closeDrained]

theorem closeDrained_lane? (h : m.queued p ≠ []) : m.closeDrained.lane? p = m.lane? p := by
  cases hl : m.lane? p with
  | none => exact absurd (queued_of_lane?_none hl) h
  | some lane =>
    rw [queued_of_lane? hl, Ne, List.map_eq_nil_iff] at h
    rw [lane?_closeDrained, hl, Option.filter_some]
    simp [h]

theorem Alike.depart (h : Alike m m') (he : (m.queued e.partition).head? = some e) :
    Alike (m.depart e) (m'.depart e) := by
  have hheld : m.queued e.partition ≠ [] := List.ne_nil_of_mem (List.mem_of_head? he)
  have hheld' : m'.queued e.partition ≠ [] := by
    rwa [← queued_closeDrained, ← h, queued_closeDrained]
  have hsame : m.lane? e.partition = m'.lane? e.partition := by
    rw [← closeDrained_lane? hheld, h, closeDrained_lane? hheld']
  have hclosed : m.closeDrained = m'.closeDrained := h
  refine ext_lane? (fun q => ?_) rfl ?_
  · rw [lane?_closeDrained, lane?_closeDrained, lane?_depart, lane?_depart]
    by_cases hq : q = e.partition
    · rw [hq, hsame]
    · have hrest : m.closeDrained.lane? q = m'.closeDrained.lane? q := by rw [hclosed]
      simpa only [if_neg hq, Option.map_id', lane?_closeDrained] using hrest
  · exact congrArg (·.buffered - 1) hclosed

/-- Mergers that are alike release the same and stay alike. -/
theorem Alike.drain (h : Alike m m') :
    m.drain.1 = m'.drain.1 ∧ Alike m.drain.2 m'.drain.2 := by
  induction m using drain.induct generalizing m' with
  | case1 m hn =>
    rw [next_eq, Option.map_eq_none_iff] at hn
    have hn' : m'.departure? = none := by rw [← h.departure?, hn]
    rw [drain_of_none hn, drain_of_none hn']
    exact ⟨rfl, h⟩
  | case2 m record m₁ hn ih =>
    rw [next_eq] at hn
    obtain ⟨e, hd, he⟩ := Option.map_eq_some_iff.1 hn
    cases he
    have hd' : m'.departure? = some e := by rw [← h.departure?, hd]
    obtain ⟨hreleased, hleft⟩ := ih (h.depart (head?_of_departure? hd))
    rw [drain_of_some hd, drain_of_some hd']
    exact ⟨congrArg (e.record :: ·) hreleased, hleft⟩

theorem alike_disableAll (m : Merger α) : Alike m.closeDrained.disableAll m.disableAll := by
  refine ext_lane? (fun p => ?_) rfl rfl
  simp only [lane?_closeDrained, lane?_disableAll]
  cases hl : m.lane? p with
  | none => rfl
  | some lane =>
    obtain ⟨queue, last, enabled⟩ := lane
    cases enabled <;> cases queue <;> rfl

end Merger

end TimeMerge
