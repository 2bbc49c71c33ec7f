import TimeMerge.Proofs.Ingestion
import TimeMerge.Proofs.Losses

/-!
# Requests to an intake

A caller asks for single turns, or for turns to the end, and may go on after a fault. Whatever it asks
for comes to a number of turns. Turns to the end are never cut short by their bound: each of them that
neither finishes nor ends with a fault brings the end nearer, except one at the most that only hands on
what a refusal had left behind. -/
namespace TimeMerge

/-- A release that meets no refusal is a drain. -/
theorem Merger.release_of_ok {k : Outlet ω α} {m m' : Merger α} {w w' : ω} {n : Nat}
    (h : m.release k w = (.ok n, (m', w'))) : m' = m.drain.2 ∧ n = m.drain.1.length := by
  have hseen : m.release k w = _ := release_seen k.shownBy_logged m { state := w }
  obtain ⟨answer, i, w'', new, hlogged, _, _, hend⟩ := m.release_logged k { state := w }
  rw [h, hlogged] at hseen
  obtain ⟨hanswer, hrest⟩ := Prod.mk.inj hseen
  obtain ⟨hm, _⟩ := Prod.mk.inj hrest
  rcases hend with ⟨fault, rfl, _⟩ | ⟨rfl, hdrain, _⟩
  · cases hanswer
  · rw [hdrain] at hm
    exact ⟨hm, Except.ok.inj hanswer⟩

namespace Intake

/-- One turn, or turns until everything is closed. -/
inductive Request where
  | pull | run
  deriving DecidableEq, Repr

variable [Record α] {policy : Policy α} {k : Outlet ω α} {s s' : Intake α} {w w' : ω}

/-- The answer tells whether everything was closed and flushed. -/
def obey (policy : Policy α) (k : Outlet ω α) (s : Intake α) (w : ω) :
    Request → Except Fault Bool × (Intake α × ω)
  | .pull => ((s.turn policy k w).1.map (· = .finished), (s.turn policy k w).2)
  | .run => s.run policy k w

/-- The states after a sequence of requests, given whatever the answers are. -/
def after (policy : Policy α) (k : Outlet ω α) : List Request → Intake α → ω → Intake α × ω
  | [], s, w => (s, w)
  | c :: cs, s, w => after policy k cs (s.obey policy k w c).2.1 (s.obey policy k w c).2.2

def answers (policy : Policy α) (k : Outlet ω α) :
    List Request → Intake α → ω → List (Except Fault Bool)
  | [], _, _ => []
  | c :: cs, s, w =>
    (s.obey policy k w c).1 ::
      answers policy k cs (s.obey policy k w c).2.1 (s.obey policy k w c).2.2

theorem pulls_add (m n : Nat) (s : Intake α) (w : ω) : pulls policy k (m + n) s w =
    pulls policy k n (pulls policy k m s w).1 (pulls policy k m s w).2 := by
  induction m generalizing s w with
  | zero => rw [Nat.zero_add, pulls]
  | succ m ih =>
    rw [Nat.succ_add, pulls, pulls]
    exact ih ..

theorem exists_obey_eq_pulls (policy : Policy α) (k : Outlet ω α) (s : Intake α) (w : ω)
    (c : Request) : ∃ m, (s.obey policy k w c).2 = pulls policy k m s w := by
  cases c with
  | pull => exact ⟨1, rfl⟩
  | run => exact exists_turns_eq_pulls policy k s.turnBound s w

theorem exists_after_eq_pulls (policy : Policy α) (k : Outlet ω α) (cs : List Request)
    (s : Intake α) (w : ω) : ∃ m, after policy k cs s w = pulls policy k m s w := by
  induction cs generalizing s w with
  | nil => exact ⟨0, rfl⟩
  | cons c cs ih =>
    obtain ⟨m, hm⟩ := exists_obey_eq_pulls policy k s w c
    obtain ⟨n, hn⟩ := ih (s.obey policy k w c).2.1 (s.obey policy k w c).2.2
    exact ⟨m + n, by rw [after, hn, hm, pulls_add]⟩

section Views

variable {view : ω' → ω} {k' : Outlet ω' α}

theorem turns_seen (h : k.ShownBy view k') (policy : Policy α) (n : Nat) (s : Intake α) (w : ω') :
    turns policy k n s (view w) = Outlet.seen view (turns policy k' n s w) := by
  induction n generalizing s w with
  | zero => rfl
  | succ n ih =>
    rw [turns, turns, turn_seen h]
    rcases s.turn policy k' w with ⟨fault | t, s', w'⟩
    · rfl
    · cases t with
      | finished => rfl
      | forwarded count => exact ih s' w'
      | skipped p => exact ih s' w'
      | pending p => exact ih s' w'
      | closed p => exact ih s' w'

theorem obey_seen (h : k.ShownBy view k') (policy : Policy α) (s : Intake α) (w : ω')
    (c : Request) : s.obey policy k (view w) c = Outlet.seen view (s.obey policy k' w c) := by
  cases c with
  | pull =>
    rw [obey, turn_seen h]
    rfl
  | run => exact turns_seen h policy s.turnBound s w

theorem after_seen (h : k.ShownBy view k') (policy : Policy α) (cs : List Request) (s : Intake α)
    (w : ω') : after policy k cs s (view w) =
      ((after policy k' cs s w).1, view (after policy k' cs s w).2) := by
  induction cs generalizing s w with
  | nil => rfl
  | cons c cs ih =>
    rw [after, obey_seen h]
    exact ih ..

end Views

section Turns

variable {i : Nat} {p : PartitionId} {slot : Slot α} {t : Turn}

omit [Record α]

theorem forward_of_ok {n : Nat} (h : s.forward k w = (.ok n, (s', w'))) : s' = s.settle := by
  rw [forward] at h
  rcases hr : s.merger.release k w with ⟨fault | m, m', w''⟩
  · rw [hr] at h
    cases h
  · rw [hr] at h
    obtain ⟨rfl, rfl⟩ := Merger.release_of_ok hr
    cases h
    rfl

theorem slots_finish (k : Outlet ω α) (s : Intake α) (w : ω) :
    (s.finish k w).2.1.slots = s.slots ∧ (s.finish k w).2.1.cursor = s.cursor ∧
      (s.finish k w).2.1.merger = s.merger := by
  rw [finish]
  split <;> exact ⟨rfl, rfl, rfl⟩

/-- What a turn that goes well leaves behind: nothing that may go. -/
structure Lets (s s' : Intake α) : Prop where
  slots : s'.slots = s.slots
  cursor : s'.cursor = s.cursor
  settled : s'.merger.departure? = none

theorem lets_settle (s : Intake α) : Lets s s.settle := ⟨rfl, rfl, s.merger.departure?_drain⟩

/-- Closing goes well either since the partition is drained, or since it is left for later. -/
theorem tryClose_of_ok (h : s.tryClose k i p w = (.ok t, (s', w'))) :
    (Lets s s' ∧ s.merger.queued p ≠ []) ∨ Lets (s.retire i p) s' := by
  rcases s.tryClose_cases k w i p with ⟨_, hclose⟩ | ⟨hheld, hclose⟩ | ⟨_, _, _, hclose⟩ <;>
    rw [hclose] at h
  · cases h
  · rcases hf : s.forward k w with ⟨fault | n, s₁, w₁⟩ <;> rw [hf] at h <;> cases h
    obtain rfl := forward_of_ok hf
    exact .inl ⟨s.lets_settle, hheld⟩
  · right
    rcases (s.retire i p).wrapUp_cases k p w with ⟨_, _, _, he⟩ | ⟨_, s₁, w₁, hf, he⟩
    · rw [he] at h
      cases h
    · obtain rfl := forward_of_ok hf
      rcases he with ⟨_, he⟩ | he <;> rw [he] at h
      · obtain ⟨hslots, hcursor, hmerger⟩ := slots_finish k (s.retire i p).settle w₁
        obtain ⟨rfl, _⟩ := Prod.mk.inj (Prod.mk.inj h).2
        exact ⟨hslots, hcursor, by rw [hmerger]; exact Merger.departure?_drain _⟩
      · cases h
        exact lets_settle _

/-- What a turn that goes well, and does not finish, does to the slots: an input is read, one at its end
is closed, or one has to wait with records still queued. -/
inductive Advances (s s' : Intake α) : Prop where
  | reads {i : Nat} {slot b : Slot α} (visited : s.Visited s' i slot b)
      (fewer : b.reads < slot.reads) (rest : b.isReading = true ∨ s'.merger.departure? = none)
  | closes {i : Nat} {slot b : Slot α} (visited : s.Visited s' i slot b)
      (ended : slot.isReading = false) (closed : b.isClosed = true)
      (settled : s'.merger.departure? = none)
  | waits {i : Nat} {slot : Slot α} (visited : s.Visited s' i slot slot)
      (ended : slot.isReading = false) (held : s.merger.queued slot.partition ≠ [])
      (settled : s'.merger.departure? = none)

theorem reads_at_end {inlet : Inlet α} {b : Slot α} (h : b.isReading = false) :
    b.reads < (⟨p, .reading inlet⟩ : Slot α).reads := by
  rw [Slot.reads_eq_zero h]
  exact Nat.succ_pos _

/-- A read that does not find the end takes an outcome. -/
theorem reads_before_end {inlet : Inlet α} (h : inlet.read.1 ≠ inlet.atEnd) :
    (⟨p, .reading inlet.read.2⟩ : Slot α).reads < (⟨p, .reading inlet⟩ : Slot α).reads := by
  rw [Inlet.read] at h ⊢
  cases hu : inlet.upcoming with
  | nil => simp [hu] at h
  | cons r rest => simp [Slot.reads, hu]

theorem slots_forward (k : Outlet ω α) (s : Intake α) (w : ω) :
    (s.forward k w).2.1.slots = s.slots ∧ (s.forward k w).2.1.cursor = s.cursor := by
  rw [forward]
  rcases s.merger.release k w with ⟨_ | _, _⟩ <;> exact ⟨rfl, rfl⟩

theorem slots_accept [Record α] (policy : Policy α) (k : Outlet ω α) (p : PartitionId)
    (record : α) (s : Intake α) (w : ω) :
    (s.accept policy k p record w).2.1.slots = s.slots ∧
      (s.accept policy k p record w).2.1.cursor = s.cursor := by
  rcases s.accept_cases policy k p record w with
    ⟨_, _, haccept⟩ | ⟨_, _, _, haccept⟩ | ⟨m, _, haccept⟩
  · rw [haccept]
    exact ⟨rfl, rfl⟩
  · rw [haccept]
    exact ⟨rfl, rfl⟩
  · rw [haccept]
    exact slots_forward k (s.takeIn m) w

/-- Whether the input is drained or not, trying to close it lets go what may go. -/
theorem advances_of_ended {s₁ : Intake α} {inlet : Inlet α} (h : s.nextLive = some (i, slot))
    (hslots : s₁.slots = s.slots.set i ⟨p, .exhausted inlet⟩)
    (hcursor : s₁.cursor = (i + 1) % s.slots.length)
    (hclose : s₁.tryClose k i p w = (.ok t, (s', w'))) :
    ∃ b, s.Visited s' i slot b ∧ b.isReading = false ∧ s'.merger.departure? = none ∧
      (b.isClosed = true ∨ b = ⟨p, .exhausted inlet⟩ ∧ s₁.merger.queued p ≠ []) := by
  rcases tryClose_of_ok hclose with ⟨hlets, hheld⟩ | hlets
  · exact ⟨_, ⟨h, hlets.slots.trans hslots, hlets.cursor.trans hcursor⟩, rfl, hlets.settled,
      .inr ⟨rfl, hheld⟩⟩
  · refine ⟨⟨p, .closed⟩, ⟨h, ?_, hlets.cursor.trans hcursor⟩, rfl, hlets.settled, .inl rfl⟩
    rw [hlets.slots, retire, hslots, List.set_set]

variable [Record α]

theorem turn_advances (h : s.turn policy k w = (.ok t, (s', w'))) (ht : t ≠ .finished) :
    Advances s s' := by
  cases hn : s.nextLive with
  | none =>
    rw [turn_of_idle hn] at h
    rcases hf : s.finish k w with ⟨fault | u, s₁, w₁⟩ <;> rw [hf] at h <;> cases h
    exact absurd rfl ht
  | some found =>
    obtain ⟨i, p, phase⟩ := found
    obtain ⟨_, _, _, hslot, hopen, _⟩ := nextLive_eq_some hn
    cases phase with
    | closed => cases hopen
    | exhausted inlet =>
      let passed : Intake α := { s with cursor := (i + 1) % s.slots.length }
      have hclose : passed.tryClose k i p w = (.ok t, (s', w')) := by rwa [turn_of_exhausted hn] at h
      have hsame : passed.slots = s.slots.set i ⟨p, .exhausted inlet⟩ := by
        obtain ⟨hi, he⟩ := List.getElem?_eq_some_iff.1 hslot
        rw [← he, List.set_getElem_self]
      obtain ⟨b, hvisited, _, hsettled, hclosed | ⟨rfl, hheld⟩⟩ :=
        advances_of_ended hn hsame rfl hclose
      · exact .closes hvisited rfl hclosed hsettled
      · exact .waits hvisited rfl hheld hsettled
    | reading inlet =>
      rw [turn_of_reading hn] at h
      cases hr : inlet.read.1 with
      | error fault =>
        cases fault with
        | malformed d =>
          rw [hr] at h
          cases h
          have hmore : inlet.read.1 ≠ inlet.atEnd := by
            rw [hr, Inlet.atEnd]
            cases inlet.failure <;> simp
          exact .reads ⟨hn, rfl, rfl⟩ (reads_before_end hmore) (.inl rfl)
        | _ =>
          rw [hr] at h
          cases h
      | ok given =>
        cases given with
        | some record =>
          have hmore : inlet.read.1 ≠ inlet.atEnd := by
            rw [hr, Inlet.atEnd]
            cases inlet.failure <;> simp
          have hkeeps := slots_accept policy k p record (s.visit i ⟨p, .reading inlet.read.2⟩) w
          rw [hr, respond] at h
          rw [h] at hkeeps
          exact .reads ⟨hn, hkeeps.1, hkeeps.2⟩ (reads_before_end hmore) (.inl rfl)
        | none =>
          rw [hr, respond, exhaust] at h
          split at h
          · cases h
          · rename_i m hd
            obtain ⟨b, hvisited, hread, hsettled, _⟩ :=
              advances_of_ended hn (List.set_set ..) rfl h
            exact .reads hvisited (reads_at_end hread) (.inr hsettled)

end Turns

/-- The slots say what is open, each for its own partition. -/
structure Poised (s : Intake α) : Prop where
  distinct : (s.slots.map (·.partition)).Nodup
  aligned : ∀ slot ∈ s.slots, s.merger.standing slot.partition = slot.standing
  covered : ∀ p, p ∉ s.slots.map (·.partition) → s.merger.standing p = none

section Poised

omit [Record α]

theorem poised_ofInlets {inlets : List (PartitionId × Inlet α)} (hn : (inlets.map (·.1)).Nodup) :
    Poised (ofInlets inlets) where
  distinct := by rwa [(phased_ofInlets inlets).partitions]
  aligned := (phased_ofInlets inlets).aligned
  covered p hp := by
    rw [(phased_ofInlets inlets).partitions] at hp
    rw [ofInlets, Merger.standing_ofPartitions, if_neg hp]

theorem Poised.keeps (h : Poised s) (hk : Keeps s s') : Poised s' where
  distinct := by rw [hk.slots]; exact h.distinct
  aligned slot hslot := by
    rw [hk.slots] at hslot
    rw [hk.standing, h.aligned slot hslot]
  covered p hp := by
    rw [hk.slots] at hp
    rw [hk.standing, h.covered p hp]

theorem Poised.works {i : Nat} {p : PartitionId} {phase phase' : Phase α}
    {read : Option (Reading α)} (h : Poised s) (hw : Works s s' i p phase read phase') :
    Poised s' where
  distinct := by rw [hw.partitions]; exact h.distinct
  aligned slot hslot := by
    obtain ⟨j, hj⟩ := List.mem_iff_getElem?.1 hslot
    rcases hw.slot_cases hj with ⟨_, rfl⟩ | ⟨hne, hj⟩
    · exact hw.standing
    · rw [hw.frame _ (hw.partition_ne h.distinct hne hj), h.aligned slot (List.mem_of_getElem? hj)]
  covered q hq := by
    rw [hw.partitions] at hq
    have hp : p ∈ s.slots.map (·.partition) := List.mem_map.2 ⟨_, List.mem_of_getElem? hw.found, rfl⟩
    rw [hw.frame q fun he => hq (he ▸ hp), h.covered q hq]

/-- Whoever may still hold back the others is still read. -/
theorem Poised.isEnabled_eq_false (h : Poised s)
    (hnone : ∀ slot ∈ s.slots, slot.isReading = false) (p : PartitionId) :
    s.merger.isEnabled p = false := by
  rw [Merger.isEnabled_eq]
  by_cases hp : p ∈ s.slots.map (·.partition)
  · obtain ⟨slot, hslot, rfl⟩ := List.mem_map.1 hp
    have hread := hnone slot hslot
    rw [h.aligned slot hslot]
    obtain ⟨p, phase⟩ := slot
    cases phase with
    | reading inlet => cases hread
    | exhausted inlet => rfl
    | closed => rfl
  · rw [h.covered p hp]
    rfl

/-- At most `n` turns are left: one more if nothing is read any more and records are still queued that
a refusal left behind. -/
structure Within (s : Intake α) (n : Nat) : Prop where
  rank : s.rank ≤ n
  stranded : (∀ slot ∈ s.slots, slot.isReading = false) →
    (∃ p, s.merger.queued p ≠ []) → s.rank < n

/-- To wait costs nothing once nothing is read any more. -/
theorem Visited.rank_eq {i : Nat} {slot : Slot α} (v : s.Visited s' i slot slot)
    (hnone : ∀ slot ∈ s.slots, slot.isReading = false) : s'.rank = s.rank := by
  have hslots : s'.slots = s.slots := by
    obtain ⟨hi, he⟩ := List.getElem?_eq_some_iff.1 v.found
    rw [v.slots, ← he, List.set_getElem_self]
  have hnone' : ∀ slot ∈ s'.slots, slot.isReading = false := by rwa [hslots]
  rw [rank, rank, reads, reads, live, live, distance_eq_zero hnone, distance_eq_zero hnone', hslots]

theorem Advances.within (a : Advances s s') (hp : Poised s') {n : Nat} (h : Within s (n + 1)) :
    Within s' n := by
  have hstranded : s'.merger.departure? = none →
      (∀ slot ∈ s'.slots, slot.isReading = false) → (∃ p, s'.merger.queued p ≠ []) → False := by
    rintro hsettled hnone ⟨p, hheld⟩
    exact hheld (Merger.queued_eq_nil_of_settled hsettled (hp.isEnabled_eq_false hnone) p)
  have hrank := h.rank
  cases a with
  | @reads i slot b visited fewer rest =>
    have hlt := visited.rank_lt_of_reads_lt fewer
    refine ⟨by omega, fun hnone hheld => ?_⟩
    rcases rest with hread | hsettled
    · have hm : b ∈ s'.slots := by
        rw [visited.slots]
        exact List.mem_set (List.getElem?_eq_some_iff.1 visited.found).1 _
      simp [hnone b hm] at hread
    · exact (hstranded hsettled hnone hheld).elim
  | @closes i slot b visited ended closed settled =>
    refine ⟨?_, fun hnone hheld => (hstranded settled hnone hheld).elim⟩
    have hread : b.isReading = false := by
      rw [← Bool.not_eq_true]
      intro hr
      simp [Slot.isClosed_of_isReading hr] at closed
    have hlt : s'.rank < s.rank := by
      by_cases hnone : ∀ slot ∈ s.slots, slot.isReading = false
      · exact visited.rank_lt_of_isClosed closed hnone
      · simp only [not_forall, Bool.not_eq_false] at hnone
        obtain ⟨other, hm, hr⟩ := hnone
        exact visited.rank_lt_of_reading ended hread hm hr
    omega
  | @waits i slot visited ended held settled =>
    refine ⟨?_, fun hnone hheld => (hstranded settled hnone hheld).elim⟩
    by_cases hnone : ∀ slot ∈ s.slots, slot.isReading = false
    · have hlt := h.stranded hnone ⟨_, held⟩
      rw [visited.rank_eq hnone]
      omega
    · simp only [not_forall, Bool.not_eq_false] at hnone
      obtain ⟨other, hm, hr⟩ := hnone
      have hlt := visited.rank_lt_of_reading ended ended hm hr
      omega

end Poised

theorem Poised.turn (h : Poised s) (policy : Policy α) (k : Outlet ω α) (w : ω) :
    Poised (s.turn policy k w).2.1 := by
  have hturn : s.turn policy k w = _ := turn_seen k.shownBy_logged policy s { state := w }
  rw [hturn]
  rcases (turn_turned h.aligned policy k { state := w }).change with ⟨_, hkeeps⟩ | ⟨_, _, _, _, _, hworks⟩
  · exact h.keeps hkeeps
  · exact h.works hworks

theorem Poised.pulls (h : Poised s) (policy : Policy α) (k : Outlet ω α) (n : Nat) (w : ω) :
    Poised (pulls policy k n s w).1 := by
  induction n generalizing s w with
  | zero => exact h
  | succ n ih => exact ih (h.turn policy k w) _

omit [Record α] in
theorem live_eq (s : Intake α) : s.live = s.slots.countP (!·.isClosed) := by
  rw [live]
  induction s.slots with
  | nil => rfl
  | cons slot slots ih =>
    rw [List.map_cons, List.sum_cons, List.countP_cons, ih, Slot.live, Nat.add_comm]
    cases slot.isClosed <;> rfl

omit [Record α] in
theorem live_pos (h : s.nextLive = some (i, slot)) : 0 < s.live := by
  obtain ⟨_, _, _, hslot, hopen, _⟩ := nextLive_eq_some h
  rw [live_eq, List.countP_pos_iff]
  exact ⟨slot, List.mem_of_getElem? hslot, by rw [hopen]; rfl⟩

omit [Record α] in
theorem Advances.rank_pos (a : Advances s s') : 0 < s.rank := by
  have hlive : 0 < s.live := by
    cases a with
    | reads visited fewer rest => exact live_pos visited.chosen
    | closes visited ended closed settled => exact live_pos visited.chosen
    | waits visited ended held settled => exact live_pos visited.chosen
  rw [rank]
  omega

/-- Turns whose number is enough are not cut short. -/
theorem turns_ne_false (hp : Poised s) {n : Nat} (h : Within s n) (policy : Policy α)
    (k : Outlet ω α) (w : ω) : (turns policy k (n + 1) s w).1 ≠ .ok false := by
  induction n generalizing s w with
  | zero =>
    rcases hturn : s.turn policy k w with ⟨fault | t, s', w'⟩
    · rw [turns, hturn]
      simp
    · by_cases ht : t = .finished
      · rw [turns, hturn, ht]
        simp
      · have hpos := (turn_advances hturn ht).rank_pos
        have hzero := h.rank
        omega
  | succ n ih =>
    rcases hturn : s.turn policy k w with ⟨fault | t, s', w'⟩
    · rw [turns, hturn]
      simp
    · by_cases ht : t = .finished
      · rw [turns, hturn, ht]
        simp
      · rw [turns_succ hturn ht]
        have hp' : Poised s' := by
          have hnext := hp.turn policy k w
          rwa [hturn] at hnext
        exact ih hp' ((turn_advances hturn ht).within hp' h) w'

section Bound

omit [Record α]

/-- Whoever is still read needs one read more than it has outcomes left. -/
theorem reads_eq (s : Intake α) : s.reads = s.outstanding + s.slots.countP (·.isReading) := by
  rw [outstanding_eq_sum, reads]
  induction s.slots with
  | nil => rfl
  | cons slot slots ih =>
    obtain ⟨p, phase⟩ := slot
    rw [List.map_cons, List.sum_cons, List.map_cons, List.sum_cons, List.countP_cons, ih]
    cases phase <;> simp only [Slot.reads, Slot.outstanding, Slot.isReading, if_true,
      Bool.false_eq_true, if_false] <;> omega

theorem live_le (s : Intake α) : s.live ≤ s.slots.length := by
  rw [live_eq]
  exact List.countP_le_length

/-- With all inputs still read the cursor is at one of them. -/
theorem distance_of_all (h : ∀ slot ∈ s.slots, slot.isReading = true) : s.distance = 0 := by
  rcases s.distance_spec with ⟨hd, _⟩ | ⟨hlt, _, hleast⟩
  · exact hd
  · have hin : s.cursor % s.slots.length < s.slots.length := Nat.mod_lt _ (by omega)
    have hfirst : s.ahead 0 = some s.slots[s.cursor % s.slots.length] := by
      rw [ahead, Nat.add_zero, List.getElem?_eq_getElem hin]
    exact Nat.le_zero.1 (hleast 0 _ hfirst (h _ (List.getElem_mem hin)))

/-- The bound of a run is enough, wherever the run starts. -/
theorem Poised.within (h : Poised s) :
    Within s ((s.outstanding + s.slots.length) * s.slots.length + s.slots.length) := by
  have hlive := s.live_le
  have hdistance := s.distance_le_pred
  constructor
  · rw [rank, reads_eq]
    rcases Nat.lt_or_eq_of_le (List.countP_le_length (p := (·.isReading)) (l := s.slots)) with
      hlt | hall
    · -- some input is not read any more, which leaves out a whole round
      have hround : (s.outstanding + s.slots.countP (·.isReading) + 1) * s.slots.length ≤
          (s.outstanding + s.slots.length) * s.slots.length := Nat.mul_le_mul_right _ (by omega)
      rw [Nat.succ_mul] at hround
      omega
    · rw [distance_of_all (List.countP_eq_length.1 hall), hall]
      omega
  · rintro hnone ⟨p, hheld⟩
    have hslots : 0 < s.slots.length := by
      rw [List.length_pos_iff]
      intro hempty
      have hclosed := h.covered p (by rw [hempty]; simp)
      exact hheld (Merger.queued_of_lane?_none (Merger.standing_eq_none.1 hclosed))
    have hreads : s.reads = 0 := by
      rw [reads, List.sum_eq_zero_iff_forall_eq_nat]
      intro n hn
      obtain ⟨slot, hslot, rfl⟩ := List.mem_map.1 hn
      exact Slot.reads_eq_zero (hnone slot hslot)
    have hround : 1 * s.slots.length ≤ (s.outstanding + s.slots.length) * s.slots.length :=
      Nat.mul_le_mul_right _ (by omega)
    rw [rank, hreads, distance_eq_zero hnone]
    omega

end Bound

/-- A run ends: it closes and flushes everything, or comes to a fault. -/
theorem Poised.run_ne_false (h : Poised s) (policy : Policy α) (k : Outlet ω α) (w : ω) :
    (s.run policy k w).1 ≠ .ok false :=
  turns_ne_false h h.within policy k w

end Intake

end TimeMerge
