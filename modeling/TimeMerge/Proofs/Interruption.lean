import TimeMerge.Proofs.Frontier
import TimeMerge.Proofs.Handing

/-!
# Turns up to a fault

Over an outlet that refuses nothing a turn goes well, and nothing is left that could go, or it comes to
a fault before anything has moved. So whatever the fault is, and whenever it comes up, what has been
handed on by then is just what no input can overtake any more. -/
namespace TimeMerge

/-- How much of what was accepted may have been let go while the partitions that are `pending` have not
come to their ends: what is not after the earliest of their latest timestamps, in order, and nothing
at all as long as one of them had nothing accepted. -/
structure SafePrefix (pending : PartitionId → Prop) (accepted emitted : List (Entry α)) : Prop where
  ascending : (emitted.map (·.timestamp)).Pairwise (· ≤ ·)
  inOrder : ∀ p, emitted.filter (·.partition = p) <+: accepted.filter (·.partition = p)
  silent : ∀ p, pending p → accepted.filter (·.partition = p) = [] → emitted = []
  frontier : (∀ p, pending p → accepted.filter (·.partition = p) ≠ []) →
    ∃ m, IsLeast {t | ∃ p, pending p ∧
        (accepted.filter (·.partition = p)).getLast?.map (·.timestamp) = some t} m ∧
      emitted.Perm (accepted.filter (·.timestamp ≤ m))

theorem SafePrefix.of_iff {pending pending' : PartitionId → Prop} {accepted emitted : List (Entry α)}
    (h : SafePrefix pending accepted emitted) (hiff : ∀ p, pending p ↔ pending' p) :
    SafePrefix pending' accepted emitted := by
  obtain rfl : pending = pending' := funext fun p => propext (hiff p)
  exact h

theorem SafePrefix.mem_accepted {pending : PartitionId → Prop} {accepted emitted : List (Entry α)}
    (h : SafePrefix pending accepted emitted) {e : Entry α} (he : e ∈ emitted) : e ∈ accepted := by
  have hm : e ∈ emitted.filter (·.partition = e.partition) := List.mem_filter.2 ⟨he, by simp⟩
  exact List.mem_of_mem_filter ((h.inOrder e.partition).subset hm)

/-- Once nothing more can go, what went is safe. -/
theorem Ledger.Ordered.safePrefix [Record α] {policy : Policy α} {l : Ledger α}
    (h : l.Balanced policy) (o : l.Ordered) (hs : l.merger.departure? = none)
    (hne : l.merger.front ≠ []) : SafePrefix (· ∈ l.merger.front) l.accepted l.released where
  ascending := o.ascending
  inOrder p := ⟨_, (h.conserved p).symm⟩
  silent _ hp hn := o.released_eq_nil h (Merger.mem_front_iff.1 hp) hn
  frontier hall := by
    obtain ⟨m, hm⟩ := l.exists_isFrontier hne hall
    exact ⟨m, hm, o.released_perm h hm hall hs⟩

namespace Intake

variable {s : Intake α} {p : PartitionId} {i : Nat} {k : Outlet ω α} {w : ω}

/-- It went well, and nothing is left that could go. -/
structure Settles (r : Except Fault Turn × (Intake α × ω)) : Prop where
  well : ∃ t, r.1 = .ok t
  settled : r.2.1.merger.departure? = none

/-- It came to a fault before anything moved. -/
structure Fails (s : Intake α) (w : ω) (r : Except Fault Turn × (Intake α × ω)) : Prop where
  fault : ∃ fault, r.1 = .error fault
  merger : r.2.1.merger = s.merger
  outlet : r.2.2 = w

theorem tryClose_settles (hk : k.NeverFails w) {b : Bool} (hs : s.merger.standing p = some b)
    (i : Nat) : Settles (s.tryClose k i p w) := by
  obtain ⟨lane, hl, _⟩ := Merger.standing_eq_some.1 hs
  by_cases hq : lane.queue = []
  · rw [tryClose_of_drained hk hl hq]
    refine ⟨⟨_, rfl⟩, ?_⟩
    split <;> exact Merger.departure?_drain _
  · have hqueued : s.merger.queued p ≠ [] := by
      rw [Merger.queued_of_lane? hl]
      simpa using hq
    rw [tryClose_of_queued hk hqueued]
    exact ⟨⟨_, rfl⟩, Merger.departure?_drain _⟩

variable [Record α] {policy : Policy α}

theorem accept_settles (hk : k.NeverFails w) (hsettled : s.merger.departure? = none)
    (policy : Policy α) (p : PartitionId) (record : α) :
    Settles (s.accept policy k p record w) ∨ Fails s w (s.accept policy k p record w) := by
  rcases accept_cases policy k p record s w with ⟨d, _, he⟩ | ⟨fault, _, _, he⟩ | ⟨m, ha, _⟩
  · rw [he]
    exact .inl ⟨⟨_, rfl⟩, hsettled⟩
  · rw [he]
    exact .inr ⟨⟨_, rfl⟩, rfl, rfl⟩
  · rw [accept_of_ok hk ha]
    exact .inl ⟨⟨_, rfl⟩, Merger.departure?_drain _⟩

/-- A turn goes well or fails, and it fails only if it reads. -/
theorem turn_cases (hk : k.NeverFails w) (hsettled : s.merger.departure? = none)
    (aligned : ∀ slot ∈ s.slots, s.merger.standing slot.partition = slot.standing)
    (policy : Policy α) : Settles (s.turn policy k w) ∨
      Fails s w (s.turn policy k w) ∧ ∃ slot ∈ s.slots, slot.isReading = true := by
  cases h : s.nextLive with
  | none =>
    rw [turn_of_none h hk]
    exact .inl ⟨⟨_, rfl⟩, hsettled⟩
  | some found =>
    obtain ⟨i, p, phase⟩ := found
    obtain ⟨_, _, _, hslot, hopen, _⟩ := nextLive_eq_some h
    have hs : s.merger.standing p = (⟨p, phase⟩ : Slot α).standing :=
      aligned _ (List.mem_of_getElem? hslot)
    cases phase with
    | closed => cases hopen
    | exhausted inlet =>
      let passed : Intake α := { s with cursor := (i + 1) % s.slots.length }
      have hclose : Settles (passed.tryClose k i p w) := tryClose_settles (s := passed) hk hs i
      rw [turn_of_exhausted h]
      exact .inl hclose
    | reading inlet =>
      refine Or.imp_right (fun hfails => ⟨hfails, _, List.mem_of_getElem? hslot, rfl⟩) ?_
      rw [turn_of_reading h]
      cases inlet.read.1 with
      | error fault =>
        cases fault with
        | malformed d => exact .inl ⟨⟨_, rfl⟩, hsettled⟩
        | _ => exact .inr ⟨⟨_, rfl⟩, rfl, rfl⟩
      | ok given =>
        cases given with
        | some record =>
          have haccept := accept_settles (s := s.visit i ⟨p, .reading inlet.read.2⟩) hk hsettled
            policy p record
          exact haccept.imp_right fun hfails => ⟨hfails.fault, hfails.merger, hfails.outlet⟩
        | none =>
          have hvisit : (s.visit i ⟨p, .reading inlet.read.2⟩).merger.standing p = some true := hs
          let ended : Intake α := { s.visit i ⟨p, .reading inlet.read.2⟩ with
            slots := (s.visit i ⟨p, .reading inlet.read.2⟩).slots.set i ⟨p, .exhausted inlet.read.2⟩,
            merger := s.merger.unblock p }
          have hended : ended.merger.standing p = some false := by
            rw [Merger.standing_unblock, if_pos rfl, hs]
            rfl
          have hclose : Settles (ended.tryClose k i p w) := tryClose_settles hk hended i
          rw [respond, exhaust_of_standing hvisit]
          exact .inl hclose

/-- A record that nothing goes wrong with is accepted if it has a timestamp, and else it is skipped. -/
theorem arrival?_of_accept {b : Bool} (hs : s.merger.standing p = some b) {record : α} {t : Turn}
    (hwell : (s.accept policy k p record w).1 = .ok t) :
    (s.merger.arrival? policy (.add p record)).toList = policy.entries p [.ok (some record)] := by
  obtain ⟨lane, hl, _⟩ := Merger.standing_eq_some.1 hs
  rcases ha : s.merger.add policy p record with ⟨fault | ⟨⟩, m⟩
  · have hnone : policy.key? (.ok (some record)) = none := by
      rcases Merger.add_eq_error hl ha with hrule | ⟨_, _, rfl⟩
      · simp only [Policy.key?, hrule]
      · simp only [accept, ha] at hwell
        cases hwell
    rw [arrival?_of_error ha, Policy.entries_cons_of_none hnone]
    rfl
  · obtain ⟨_, ts, _, keyed, _, _⟩ := Merger.add_eq_ok_iff.1 ha
    have hkey : policy.key? (.ok (some record)) = some (ts, record) := by
      simp only [Policy.key?, keyed]
    rw [Policy.entries_cons_of_some hkey]
    simp only [Merger.arrival?, ha, keyed]
    rfl

theorem arrival?_of_reading {inlet : Inlet α} (h : s.nextLive = some (i, ⟨p, .reading inlet⟩))
    (hs : s.merger.standing p = some true) {t : Turn} (hwell : (s.turn policy k w).1 = .ok t) :
    (s.arrival? policy).toList = policy.entries p [inlet.read.1] := by
  rw [turn_of_reading h] at hwell
  simp only [arrival?, poll_of_reading h]
  cases hr : inlet.read.1 with
  | error fault => rfl
  | ok given =>
    cases given with
    | none => rfl
    | some record =>
      rw [hr] at hwell
      exact arrival?_of_accept (s := s.visit i ⟨p, .reading inlet.read.2⟩) hs hwell

section Runs

variable {inlets : List (PartitionId × Inlet α)} {log : List (Nat × Reading α)}
  {x : PartitionId × Inlet α} {n : Nat}

theorem neverFails_pulls (hk : k.NeverFails w) (policy : Policy α) (n : Nat) (s : Intake α) :
    k.NeverFails (pulls policy k n s w).2 := by
  rw [state_pulls]
  exact hk.replay _

/-- As long as turns go well, nothing is left behind that could go. -/
theorem Phased.settled_pulls (h : Phased inlets s log) (hn : (inlets.map (·.1)).Nodup)
    (hk : k.NeverFails w) (hsettled : s.merger.departure? = none)
    (hwell : ∀ answer ∈ replies policy k n s w, ∃ t, answer = .ok t) :
    (Intake.pulls policy k n s w).1.merger.departure? = none := by
  induction n generalizing s w log with
  | zero => exact hsettled
  | succ n ih =>
    obtain ⟨hfirst, hrest⟩ := List.forall_mem_cons.1 hwell
    have hnext : (s.turn policy k w).2.1.merger.departure? = none := by
      rcases turn_cases hk hsettled h.aligned policy with hsettles | ⟨hfails, _⟩
      · exact hsettles.settled
      · rw [hfails.merger, hsettled]
    exact ih (h.turn_over hn policy k w) (neverFails_pulls hk policy 1 s) hnext hrest

/-- A turn that goes well accepts of an input what its answer is worth. -/
theorem Phased.arrival?_eq (h : Phased inlets s log) (hn : (inlets.map (·.1)).Nodup)
    (hx : inlets[i]? = some x) {t : Turn} (hwell : (s.turn policy k w).1 = .ok t) :
    (s.arrival? policy).toList.filter (·.partition = x.1) =
      policy.entries x.1 (answersOf i s.reading?.toList) := by
  cases hl : s.nextLive with
  | none =>
    simp only [arrival?, poll_of_idle hl, reading?_of_idle hl]
    rfl
  | some found =>
    obtain ⟨j, p, phase⟩ := found
    obtain ⟨_, _, _, hslot, hopen, _⟩ := nextLive_eq_some hl
    cases phase with
    | closed => cases hopen
    | exhausted inlet =>
      simp only [arrival?, poll_of_exhausted hl, reading?_of_exhausted hl]
      rfl
    | reading inlet =>
      have hs : s.merger.standing p = some true := h.aligned _ (List.mem_of_getElem? hslot)
      obtain ⟨y, hy, rfl⟩ := h.exists_input hslot
      rw [arrival?_of_reading hl hs hwell, Policy.entries_filter, reading?_of_reading hl,
        Option.toList_some]
      by_cases hj : j = i
      · subst hj
        obtain rfl : y = x := Option.some.inj (hy.symm.trans hx)
        simp [answersOf]
      · have hne : y.1 ≠ x.1 := fun he => hj (index_eq hn hy hx he)
        simp [answersOf, hne, hj, Policy.entries]

/-- As long as turns go well, what is accepted of an input is what its answers are worth. -/
theorem Phased.arrivals_eq (h : Phased inlets s log) (hn : (inlets.map (·.1)).Nodup)
    (hx : inlets[i]? = some x) (hwell : ∀ answer ∈ replies policy k n s w, ∃ t, answer = .ok t) :
    (arrivals policy k n s w).filter (·.partition = x.1) =
      policy.entries x.1 (answersOf i (readings policy k n s w)) := by
  induction n generalizing s w log with
  | zero => rfl
  | succ n ih =>
    obtain ⟨⟨t, hfirst⟩, hrest⟩ := List.forall_mem_cons.1 hwell
    rw [arrivals, readings, answersOf_append, List.filter_append, h.arrival?_eq hn hx hfirst,
      ih (h.turn_over hn policy k w) hrest, Policy.entries, Policy.entries, Policy.entries,
      List.filterMap_append, List.map_append]

omit [Record α] in
/-- What an input has answered is what it gives first. -/
theorem Phased.exists_outcomes (h : Phased inlets s log) (hx : inlets[i]? = some x) :
    ∃ m, answersOf i log = (x.2.outcomes m).1 := by
  obtain ⟨slot, hslot, _⟩ := h.exists_slot hx
  obtain ⟨m, hm, _⟩ := (h.spent i x slot hx hslot).answered
  exact ⟨m, hm⟩

omit [Record α] in
/-- The front is made of the inputs whose end has not been read. -/
theorem Phased.mem_front_iff (h : Phased inlets s log) (hx : inlets[i]? = some x) :
    x.1 ∈ s.merger.front ↔ .ok none ∉ answersOf i log := by
  obtain ⟨⟨p, phase⟩, hslot, rfl⟩ := h.exists_slot hx
  have hs := h.aligned _ (List.mem_of_getElem? hslot)
  have hended := (h.spent i x _ hx hslot).ended
  rw [Merger.mem_front_iff, Merger.isEnabled_iff_standing, hs, hended]
  cases phase <;> simp [Slot.standing]

omit [Record α] in
theorem Phased.front_iff (h : Phased inlets s log)
    (hopen : ∀ q ∉ inlets.map (·.1), s.merger.standing q = none) (q : PartitionId) :
    q ∈ s.merger.front ↔ ∃ i x, inlets[i]? = some x ∧ x.1 = q ∧ .ok none ∉ answersOf i log := by
  constructor
  · intro hq
    have hids : q ∈ inlets.map (·.1) := by
      by_contra hids
      rw [Merger.mem_front_iff, Merger.isEnabled_iff_standing, hopen q hids] at hq
      cases hq
    obtain ⟨x, hx, rfl⟩ := List.mem_map.1 hids
    obtain ⟨i, hi⟩ := List.mem_iff_getElem?.1 hx
    exact ⟨i, x, hi, rfl, (h.mem_front_iff hi).1 hq⟩
  · rintro ⟨i, x, hx, rfl, hend⟩
    exact (h.mem_front_iff hx).2 hend

/-- A run that comes to a fault is a number of turns that go well and one that does not. -/
theorem exists_turn_of_error {fault : Fault} (h : (turns policy k n s w).1 = .error fault) :
    ∃ m, (∀ answer ∈ replies policy k m s w, ∃ t, answer = .ok t ∧ t ≠ .finished) ∧
      (pulls policy k m s w).1.turn policy k (pulls policy k m s w).2 =
        (.error fault, (turns policy k n s w).2) := by
  induction n generalizing s w with
  | zero => cases h
  | succ n ih =>
    rcases hturn : s.turn policy k w with ⟨fault' | t, s', w'⟩
    · rw [turns, hturn] at h ⊢
      cases h
      exact ⟨0, by simp [replies], hturn⟩
    · by_cases ht : t = .finished
      · subst ht
        rw [turns, hturn] at h
        cases h
      · rw [turns_succ hturn ht] at h ⊢
        obtain ⟨m, hwell, hlast⟩ := ih h
        refine ⟨m + 1, ?_, ?_⟩
        · rw [replies, hturn]
          exact List.forall_mem_cons.2 ⟨⟨t, rfl, ht⟩, hwell⟩
        · rw [pulls, hturn]
          exact hlast

/-- What has been handed on when a turn comes to a fault, after turns that all went well, is safe. -/
theorem exists_safePrefix (hn : (inlets.map (·.1)).Nodup) (hc : policy.checkOrder = true)
    (hk : k.NeverFails w)
    (hwell : ∀ answer ∈ replies policy k n (ofInlets inlets) w, ∃ t, answer = .ok t)
    {fault : Fault} {left : Intake α × ω}
    (hlast : (pulls policy k n (ofInlets inlets) w).1.turn policy k
      (pulls policy k n (ofInlets inlets) w).2 = (.error fault, left)) :
    ∃ (emitted : List (Entry α)) (cs : List (Signal α)), left.2 = k.replay cs w ∧
      cs.filterMap Signal.record? = emitted.map (·.record) ∧
      SafePrefix (fun p => ∃ i x, inlets[i]? = some x ∧ x.1 = p ∧
          .ok none ∉ answersOf i (readings policy k n (ofInlets inlets) w))
        (arrivals policy k n (ofInlets inlets) w) emitted := by
  have hphased := (phased_ofInlets inlets).pulls_over hn policy k n w
  have hsettled := (phased_ofInlets inlets).settled_pulls hn hk
    (Merger.departure?_ofPartitions _) hwell
  obtain ⟨l, as, hmerger, haccepted, hl, hstate⟩ := exists_books policy hn k n w
  have hbalanced := (Ledger.balanced_opening (inlets.map (·.1))).steps hl.steps
  obtain ⟨_, hordered, _⟩ := (Ledger.ordered_opening (inlets.map (·.1))).steps hc
    (Ledger.balanced_opening _) hl.steps
  rcases turn_cases (neverFails_pulls hk policy n _) hsettled hphased.aligned policy with
    hsettles | ⟨hfails, slot, hslot, hreads⟩
  · obtain ⟨t, ht⟩ := hsettles.well
    rw [hlast] at ht
    cases ht
  · -- the input whose reading came to the fault is one that is pending
    have hfront : slot.partition ∈ l.merger.front := by
      rw [hmerger, Merger.mem_front_iff, Merger.isEnabled_iff_standing, hphased.aligned slot hslot]
      obtain ⟨p, phase⟩ := slot
      cases phase with
      | reading inlet => rfl
      | _ => cases hreads
    have hsafe := hordered.safePrefix hbalanced (hmerger ▸ hsettled) (List.ne_nil_of_mem hfront)
    have hclosed : ∀ q ∉ inlets.map (·.1), l.merger.standing q = none :=
      fun q hq => Accounts.standing_eq_none ⟨l, rfl, haccepted, hl⟩ hq
    refine ⟨l.released, as.map (·.signal), ?_, ?_, haccepted ▸ hsafe.of_iff fun q => ?_⟩
    · rw [← hstate, ← hfails.outlet, hlast]
    · rw [← hl.handed, List.filterMap_map]
      rfl
    · rw [hmerger] at hclosed ⊢
      exact hphased.front_iff hclosed q

end Runs

end Intake

end TimeMerge
