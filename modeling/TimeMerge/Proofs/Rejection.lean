import TimeMerge.Proofs.Requests
import TimeMerge.Proofs.Skipping

/-!
# Reads that are turned away

What an input gives may be rejected by three parties: the input itself, the rule for timestamps, and the
merger that the record goes to. None of them leaves anything half-changed: the turn moves on from the
input, and all else is as before. A record that is skipped is counted, and that is all. The next turn is
for the next input in the round that is not closed.
-/
namespace TimeMerge

variable [Record α]

/-- Why what was read cannot be taken: there was a fault in its place, the record has no timestamp, or
the record goes back from the latest of its partition. -/
inductive Rejects (policy : Policy α) (m : Merger α) (p : PartitionId) (reading : Reading α) :
    Fault → Prop where
  | input {fault : Fault} (read : reading = .error fault) (worse : ∀ d, fault ≠ .malformed d) :
      Rejects policy m p reading fault
  | rule {record : α} {fault : Fault} (read : reading = .ok (some record))
      (failed : policy.rule.timestamp record = .error fault) (worse : ∀ d, fault ≠ .malformed d) :
      Rejects policy m p reading fault
  | order {record : α} {previous ts : Timestamp} (read : reading = .ok (some record))
      (keyed : policy.rule.timestamp record = .ok ts) (checked : policy.checkOrder = true)
      (latest : (m.lane? p).bind (·.last) = some previous) (back : ts < previous) :
      Rejects policy m p reading (.outOfOrder p previous ts)

/-- Why what was read is passed over. -/
inductive Skips (policy : Policy α) (reading : Reading α) : Prop where
  | input {d : Defect} (read : reading = .error (.malformed d))
  | rule {record : α} {d : Defect} (read : reading = .ok (some record))
      (failed : policy.rule.timestamp record = .error (.malformed d))

namespace Intake

variable {policy : Policy α} {k : Outlet ω α} {s s' : Intake α} {w : ω} {i : Nat} {p : PartitionId}
  {slot : Slot α} {inlet : Inlet α} {fault : Fault}

/-- Moves on from the input at `i`, of which one more outcome has been read, and counts a skip. -/
def skipPast (i : Nat) (p : PartitionId) (inlet : Inlet α) (s : Intake α) : Intake α :=
  (s.visit i ⟨p, .reading inlet⟩).countSkip

theorem turn_of_rejects {b : Bool} (h : s.nextLive = some (i, ⟨p, .reading inlet⟩))
    (hs : s.merger.standing p = some b) (hr : Rejects policy s.merger p inlet.read.1 fault)
    (k : Outlet ω α) (w : ω) :
    s.turn policy k w = (.error fault, (s.visit i ⟨p, .reading inlet.read.2⟩, w)) := by
  obtain ⟨lane, hl, _⟩ := Merger.standing_eq_some.1 hs
  rw [turn_of_reading h]
  cases hr with
  | input read worse =>
    rw [read]
    cases fault with
    | malformed d => exact absurd rfl (worse d)
    | _ => rfl
  | rule read failed worse =>
    rw [read]
    have hadd := Merger.add_of_error hl failed
    exact accept_of_error (s := s.visit i ⟨p, .reading inlet.read.2⟩) hadd worse k w
  | order read keyed checked latest back =>
    rw [hl, Option.bind_some] at latest
    rw [read]
    have hadd := Merger.add_of_back hl keyed checked latest back
    exact accept_of_error (s := s.visit i ⟨p, .reading inlet.read.2⟩) hadd
      (fun _ => Fault.noConfusion) k w

theorem turn_of_skips {b : Bool} (h : s.nextLive = some (i, ⟨p, .reading inlet⟩))
    (hs : s.merger.standing p = some b) (hr : Skips policy inlet.read.1) (k : Outlet ω α) (w : ω) :
    s.turn policy k w = (.ok (.skipped p), (s.skipPast i p inlet.read.2, w)) := by
  obtain ⟨lane, hl, _⟩ := Merger.standing_eq_some.1 hs
  rw [turn_of_reading h]
  cases hr with
  | input read =>
    rw [read]
    rfl
  | rule read failed =>
    have hadd := Merger.add_of_error hl failed
    rw [read]
    exact accept_of_malformed (s := s.visit i ⟨p, .reading inlet.read.2⟩) hadd k w

/-- An open partition that takes no record has one of the reasons. -/
theorem rejects_of_add {b : Bool} {record : α} {reading : Reading α}
    (read : reading = .ok (some record)) (hs : s.merger.standing p = some b)
    (h : s.merger.add policy p record = (.error fault, s.merger)) :
    Rejects policy s.merger p reading fault ∨ Skips policy reading := by
  obtain ⟨lane, hl, _⟩ := Merger.standing_eq_some.1 hs
  obtain ⟨⟨hnone, _⟩ | ⟨lane', hl', hrule | ⟨previous, ts, hk, hc, hlast, hlt, rfl⟩⟩, _⟩ :=
    Merger.add_eq_error_iff.1 h
  · cases hl.symm.trans hnone
  · by_cases hmild : ∃ d, fault = .malformed d
    · obtain ⟨d, rfl⟩ := hmild
      exact .inr (.rule read hrule)
    · exact .inl (.rule read hrule fun d he => hmild ⟨d, he⟩)
  · exact .inl (.order read hk hc (by rw [hl', Option.bind_some, hlast]) hlt)

omit [Record α] in
theorem tryClose_ne_skipped (k : Outlet ω α) (i : Nat) (p q : PartitionId) (s : Intake α) (w : ω) :
    (s.tryClose k i p w).1 ≠ .ok (.skipped q) := by
  intro h
  rcases tryClose_answer h with he | he <;> cases he

omit [Record α] in
theorem exhaust_ne_skipped (k : Outlet ω α) (i : Nat) (p q : PartitionId) (inlet : Inlet α)
    (s : Intake α) (w : ω) : (s.exhaust k i p inlet w).1 ≠ .ok (.skipped q) := by
  rw [exhaust]
  split
  · simp
  · exact tryClose_ne_skipped _ _ _ _ _ _

theorem accept_ne_skipped {record : α} {m : Merger α}
    (h : s.merger.add policy p record = (.ok (), m))
    (k : Outlet ω α) (q : PartitionId) (w : ω) :
    (s.accept policy k p record w).1 ≠ .ok (.skipped q) := by
  simp only [accept, h]
  split <;> simp

/-- What a turn comes to: what is read is rejected or skipped, or else nothing is skipped and only a
refusal can go wrong. -/
inductive Outcome (policy : Policy α) (s : Intake α) (w : Logged ω α)
    (r : Except Fault Turn × (Intake α × Logged ω α)) : Prop where
  | rejected {i : Nat} {p : PartitionId} {inlet : Inlet α} {fault : Fault}
      (found : s.nextLive = some (i, ⟨p, .reading inlet⟩))
      (why : Rejects policy s.merger p inlet.read.1 fault)
      (comes : r = (.error fault, (s.visit i ⟨p, .reading inlet.read.2⟩, w)))
  | skipped {i : Nat} {p : PartitionId} {inlet : Inlet α}
      (found : s.nextLive = some (i, ⟨p, .reading inlet⟩)) (why : Skips policy inlet.read.1)
      (comes : r = (.ok (.skipped p), (s.skipPast i p inlet.read.2, w)))
  | other (unskipped : ∀ q, r.1 ≠ .ok (.skipped q)) (refused : ∃ new,
      r.2.2.attempts = w.attempts ++ new ∧ ∀ fault ∈ faultOf r.1, ∃ a ∈ new, a.answer = .error fault)

/-- A turn that fails was asked to take what it could not, or the outlet refused. -/
theorem Outcome.of_error {r : Except Fault Turn × (Intake α × Logged ω α)} {w : Logged ω α}
    (h : Outcome policy s w r) (hr : r.1 = .error fault) :
    (∃ i p inlet, s.nextLive = some (i, ⟨p, .reading inlet⟩) ∧
      Rejects policy s.merger p inlet.read.1 fault) ∨
    ∃ new, r.2.2.attempts = w.attempts ++ new ∧ ∃ a ∈ new, a.answer = .error fault := by
  cases h with
  | rejected found why comes =>
    rw [comes] at hr
    cases hr
    exact .inl ⟨_, _, _, found, why⟩
  | skipped found why comes =>
    rw [comes] at hr
    cases hr
  | other unskipped refused =>
    obtain ⟨new, hlog, hrefused⟩ := refused
    exact .inr ⟨new, hlog, hrefused fault (by rw [hr]; rfl)⟩

theorem Outcome.of_skipped {r : Except Fault Turn × (Intake α × Logged ω α)} {w : Logged ω α}
    (h : Outcome policy s w r) (hr : r.1 = .ok (.skipped p)) :
    ∃ i inlet, s.nextLive = some (i, ⟨p, .reading inlet⟩) ∧ Skips policy inlet.read.1 := by
  cases h with
  | rejected found why comes =>
    rw [comes] at hr
    cases hr
  | skipped found why comes =>
    rw [comes] at hr
    cases hr
    exact ⟨_, _, found, why⟩
  | other unskipped refused => exact absurd hr (unskipped p)

theorem outcome_of_reading (h : s.nextLive = some (i, ⟨p, .reading inlet⟩))
    (hs : s.merger.standing p = some true) (policy : Policy α) (k : Outlet ω α) (w : Logged ω α) :
    Outcome policy s w (s.turn policy k.logged w) := by
  have hrejected : ∀ {fault}, Rejects policy s.merger p inlet.read.1 fault →
      Outcome policy s w (s.turn policy k.logged w) :=
    fun why => .rejected h why (turn_of_rejects h hs why k.logged w)
  have hskipped : Skips policy inlet.read.1 → Outcome policy s w (s.turn policy k.logged w) :=
    fun why => .skipped h why (turn_of_skips h hs why k.logged w)
  have hvisit : (s.visit i ⟨p, .reading inlet.read.2⟩).merger.standing p = some true := hs
  cases hr : inlet.read.1 with
  | error fault =>
    by_cases hmild : ∃ d, fault = .malformed d
    · obtain ⟨d, rfl⟩ := hmild
      exact hskipped (.input hr)
    · exact hrejected (.input hr fun d he => hmild ⟨d, he⟩)
  | ok given =>
    cases given with
    | some record =>
      rcases ha : s.merger.add policy p record with ⟨fault | ⟨⟩, m⟩
      · obtain rfl := Merger.eq_of_add_error ha
        exact (rejects_of_add hr hs ha).elim hrejected hskipped
      · rw [turn_of_reading h, hr, respond]
        exact .other (accept_ne_skipped (s := s.visit i ⟨p, .reading inlet.read.2⟩) ha k.logged · w)
          (accept_passes (s := s.visit i ⟨p, .reading inlet.read.2⟩) ha k w).refused
    | none =>
      have hunblocked : (s.merger.unblock p).standing p = some false := by
        rw [Merger.standing_unblock, if_pos rfl, hs]
        rfl
      rw [turn_of_reading h, hr, respond]
      refine .other (exhaust_ne_skipped k.logged i p · _ _ w) ?_
      rw [exhaust_of_standing hvisit]
      let ended : Intake α := { s.visit i ⟨p, .reading inlet.read.2⟩ with
        slots := (s.visit i ⟨p, .reading inlet.read.2⟩).slots.set i ⟨p, .exhausted inlet.read.2⟩,
        merger := s.merger.unblock p }
      have hclose := tryClose_passes (s := ended) hunblocked k i w
      exact hclose.elim (·.refused) (·.refused)

theorem outcome_of_turn (aligned : ∀ slot ∈ s.slots, s.merger.standing slot.partition = slot.standing)
    (policy : Policy α) (k : Outlet ω α) (w : Logged ω α) :
    Outcome policy s w (s.turn policy k.logged w) := by
  cases hn : s.nextLive with
  | none =>
    have hfinish := (finish_passes k s w).answers (faultOf_map (fun () => Turn.finished) _)
    rw [turn_of_idle hn]
    refine .other (fun q => ?_) hfinish.refused
    rcases (s.finish k.logged w).1 with _ | _ <;> simp [Except.map]
  | some found =>
    obtain ⟨i, p, phase⟩ := found
    obtain ⟨_, _, _, hslot, hopen, _⟩ := nextLive_eq_some hn
    have hs : s.merger.standing p = (⟨p, phase⟩ : Slot α).standing :=
      aligned _ (List.mem_of_getElem? hslot)
    cases phase with
    | closed => cases hopen
    | exhausted inlet =>
      have hclose := tryClose_passes (s := { s with cursor := (i + 1) % s.slots.length }) hs k i w
      rw [turn_of_exhausted hn]
      exact .other (tryClose_ne_skipped _ _ _ · _ _) (hclose.elim (·.refused) (·.refused))
    | reading inlet => exact outcome_of_reading hn hs policy k w

omit [Record α] in
theorem slots_wrapUp (k : Outlet ω α) (p : PartitionId) (s : Intake α) (w : ω) :
    (s.wrapUp k p w).2.1.slots = s.slots ∧ (s.wrapUp k p w).2.1.cursor = s.cursor := by
  obtain ⟨hslots, hcursor⟩ := slots_forward k s w
  rcases s.wrapUp_cases k p w with ⟨_, _, hf, he⟩ | ⟨_, s', w', hf, ⟨_, he⟩ | he⟩ <;>
    rw [hf] at hslots hcursor <;> rw [he]
  · exact ⟨hslots, hcursor⟩
  · obtain ⟨hslots', hcursor', _⟩ := slots_finish k s' w'
    exact ⟨hslots'.trans hslots, hcursor'.trans hcursor⟩
  · exact ⟨hslots, hcursor⟩

omit [Record α] in
theorem slots_tryClose (k : Outlet ω α) (i : Nat) (p : PartitionId) (s : Intake α) (w : ω) :
    (s.tryClose k i p w).2.1.cursor = s.cursor ∧
      ((s.tryClose k i p w).2.1.slots = s.slots ∨
        (s.tryClose k i p w).2.1.slots = s.slots.set i ⟨p, .closed⟩) := by
  rcases s.tryClose_cases k w i p with ⟨_, hclose⟩ | ⟨_, hclose⟩ | ⟨_, _, _, hclose⟩
  · rw [hclose]
    exact ⟨rfl, .inl rfl⟩
  · obtain ⟨hslots, hcursor⟩ := slots_forward k s w
    rw [hclose]
    exact ⟨hcursor, .inl hslots⟩
  · obtain ⟨hslots, hcursor⟩ := slots_wrapUp k p (s.retire i p) w
    rw [hclose]
    exact ⟨hcursor, .inr hslots⟩

omit [Record α] in
theorem slots_exhaust (k : Outlet ω α) (i : Nat) (p : PartitionId) (inlet : Inlet α) (s : Intake α)
    (w : ω) : (s.exhaust k i p inlet w).2.1.cursor = s.cursor ∧
      ((s.exhaust k i p inlet w).2.1.slots = s.slots.set i ⟨p, .exhausted inlet⟩ ∨
        (s.exhaust k i p inlet w).2.1.slots = s.slots.set i ⟨p, .closed⟩) := by
  rw [exhaust]
  split
  · exact ⟨rfl, .inl rfl⟩
  · rename_i m _
    obtain ⟨hcursor, hslots⟩ := slots_tryClose k i p
      { s with slots := s.slots.set i ⟨p, .exhausted inlet⟩, merger := m } w
    rw [List.set_set] at hslots
    exact ⟨hcursor, hslots⟩

/-- Whatever a turn comes to, it works on the slot that it finds, once, and then moves on. -/
theorem turn_visits (h : s.nextLive = some (i, slot)) (policy : Policy α) (k : Outlet ω α) (w : ω) :
    ∃ read phase', slot.phase.Becomes read phase' ∧
      s.Visited (s.turn policy k w).2.1 i slot ⟨slot.partition, phase'⟩ := by
  obtain ⟨p, phase⟩ := slot
  obtain ⟨_, _, _, hslot, hopen, _⟩ := nextLive_eq_some h
  cases phase with
  | closed => cases hopen
  | exhausted inlet =>
    have hsame : s.slots = s.slots.set i ⟨p, .exhausted inlet⟩ := by
      obtain ⟨hi, he⟩ := List.getElem?_eq_some_iff.1 hslot
      rw [← he, List.set_getElem_self]
    rw [turn_of_exhausted h]
    obtain ⟨hcursor, hslots | hslots⟩ := slots_tryClose k i p
      { s with cursor := (i + 1) % s.slots.length } w
    · exact ⟨none, .exhausted inlet, .waits, h, hslots.trans hsame, hcursor⟩
    · exact ⟨none, .closed, .leaves, h, hslots, hcursor⟩
  | reading inlet =>
    refine ⟨some inlet.read.1, ?_⟩
    rw [turn_of_reading h]
    cases hr : inlet.read.1 with
    | error fault =>
      have hmore : inlet.read.1 ≠ .ok none := by simp [hr]
      rw [← hr]
      refine ⟨.reading inlet.read.2, .reads hmore, h, ?_, ?_⟩ <;> rw [hr] <;> cases fault <;> rfl
    | ok given =>
      cases given with
      | some record =>
        have hmore : inlet.read.1 ≠ .ok none := by simp [hr]
        obtain ⟨hslots, hcursor⟩ :=
          slots_accept policy k p record (s.visit i ⟨p, .reading inlet.read.2⟩) w
        rw [respond, ← hr]
        exact ⟨.reading inlet.read.2, .reads hmore, h, hslots, hcursor⟩
      | none =>
        obtain ⟨hcursor, hslots⟩ :=
          slots_exhaust k i p inlet.read.2 (s.visit i ⟨p, .reading inlet.read.2⟩) w
        rw [visit, List.set_set, List.set_set] at hslots
        rw [respond, ← hr]
        rcases hslots with hslots | hslots
        · exact ⟨.exhausted inlet.read.2, .ends hr, h, hslots, hcursor⟩
        · exact ⟨.closed, .closes hr, h, hslots, hcursor⟩

omit [Record α] in
theorem Visited.reading_eq {b : Slot α} {phase' : Phase α} {read : Option (Reading α)}
    (v : s.Visited s' i slot b) (hb : slot.phase.Becomes read phase') :
    s.reading? = read.map (i, ·) := by
  obtain ⟨p, phase⟩ := slot
  cases hb with
  | reads more => exact reading?_of_reading v.chosen
  | ends last => exact reading?_of_reading v.chosen
  | closes last => exact reading?_of_reading v.chosen
  | waits => exact reading?_of_exhausted v.chosen
  | leaves => exact reading?_of_exhausted v.chosen

end Intake

/-- The slot at `j` is the first from `c` on, round the end, that is not closed. -/
def IsNext (slots : List (Slot α)) (c j : Nat) : Prop :=
  slots[j]?.any (!·.isClosed) = true ∧ ∃ step < slots.length, j = (c + step) % slots.length ∧
    ∀ passed < step, slots[(c + passed) % slots.length]?.any (·.isClosed) = true

namespace Intake

variable {policy : Policy α} {s : Intake α} {i : Nat} {slot : Slot α}

/-- Behind a slot that is not closed the turn works on the next one that is not, which may be the same
again. -/
theorem turn_visits_next (hcursor : s.cursor = (i + 1) % s.slots.length)
    (hslot : s.slots[i]? = some slot) (hopen : slot.isClosed = false) (policy : Policy α)
    (k : Outlet ω α) (w : ω) : ∃ j next read phase', IsNext s.slots (i + 1) j ∧
      next.phase.Becomes read phase' ∧
      s.Visited (s.turn policy k w).2.1 j next ⟨next.partition, phase'⟩ := by
  cases h : s.nextLive with
  | none =>
    have hclosed := nextLive_eq_none_iff.1 h slot (List.mem_of_getElem? hslot)
    rw [hopen] at hclosed
    cases hclosed
  | some found =>
    obtain ⟨j, next⟩ := found
    obtain ⟨step, hstep, hj, hnext, hlive, hpassed⟩ := nextLive_eq_some h
    obtain ⟨read, phase', hbecomes, hvisited⟩ := turn_visits h policy k w
    rw [hcursor, Nat.mod_add_mod] at hj
    refine ⟨j, next, read, phase', ⟨by simp [hnext, hlive], step, hstep, hj, ?_⟩, hbecomes, hvisited⟩
    intro m hm
    have hlt : (i + 1 + m) % s.slots.length < s.slots.length := Nat.mod_lt _ (by omega)
    rw [List.getElem?_eq_getElem hlt, Option.any_some]
    apply hpassed m hm
    rw [ahead, hcursor, Nat.mod_add_mod, List.getElem?_eq_getElem hlt]

theorem Poised.after (h : Poised s) (policy : Policy α) (k : Outlet ω α) (cs : List Request)
    (w : ω) : Poised (after policy k cs s w).1 := by
  obtain ⟨n, hn⟩ := exists_after_eq_pulls policy k cs s w
  rw [hn]
  exact h.pulls policy k n w

/-- The name that an intake counts under stays. -/
theorem name_after (policy : Policy α) (k : Outlet ω α) (cs : List Request) (s : Intake α) (w : ω) :
    (after policy k cs s w).1.name = s.name := by
  obtain ⟨n, hn⟩ := exists_after_eq_pulls policy k cs s w
  rw [hn]
  clear hn
  induction n generalizing s w with
  | zero => rfl
  | succ n ih =>
    obtain ⟨_, h⟩ := notes_turn policy k s w
    rw [pulls, ih, h.name]

theorem turn_moves_on {p : PartitionId} {inlet : Inlet α} {b : Bool}
    (h : s.nextLive = some (i, ⟨p, .reading inlet⟩)) (hs : s.merger.standing p = some b)
    (why : (∃ fault, Rejects policy s.merger p inlet.read.1 fault) ∨ Skips policy inlet.read.1)
    (k : Outlet ω α) (w : ω) :
    (s.turn policy k w).2.1.slots = s.slots.set i ⟨p, .reading inlet.read.2⟩ ∧
      (s.turn policy k w).2.1.cursor = (i + 1) % s.slots.length := by
  rcases why with ⟨fault, why⟩ | why
  · rw [turn_of_rejects h hs why]
    exact ⟨rfl, rfl⟩
  · rw [turn_of_skips h hs why]
    exact ⟨rfl, rfl⟩

/-- After a turn whose read was turned away comes one for the next slot that is not closed. -/
theorem turn_visits_next_of_turned_away {p : PartitionId} {inlet : Inlet α} {b : Bool}
    (h : s.nextLive = some (i, ⟨p, .reading inlet⟩)) (hs : s.merger.standing p = some b)
    (why : (∃ fault, Rejects policy s.merger p inlet.read.1 fault) ∨ Skips policy inlet.read.1)
    (k : Outlet ω α) (w : ω) :
    let s' := (s.turn policy k w).2.1
    ∃ j next read phase', IsNext s'.slots (i + 1) j ∧ s'.reading? = read.map (j, ·) ∧
      next.phase.Becomes read phase' ∧
      s'.Visited (s'.turn policy k w).2.1 j next ⟨next.partition, phase'⟩ := by
  intro s'
  obtain ⟨_, _, _, hslot, _, _⟩ := nextLive_eq_some h
  obtain ⟨hslots, hcursor⟩ := turn_moves_on h hs why k w
  have hstays : s'.slots[i]? = some ⟨p, .reading inlet.read.2⟩ := by
    rw [hslots, List.getElem?_set_self (List.getElem?_eq_some_iff.1 hslot).1]
  have hnext : s'.cursor = (i + 1) % s'.slots.length := by
    rw [hcursor, hslots, List.length_set]
  obtain ⟨j, next, read, phase', hnext, hbecomes, hvisited⟩ :=
    turn_visits_next hnext hstays rfl policy k w
  exact ⟨j, next, read, phase', hnext, hvisited.reading_eq hbecomes, hbecomes, hvisited⟩

/-- After any requests over any outlet, whatever was refused and whichever faults came up: a turn that
fails, unless the outlet was asked and refused, fails since what it read is rejected; a turn skips only
what is to be skipped. If what it read is rejected, it leaves all as it was but the cursor and the input.
If that is skipped, it counts so in the stats and in the meters, at the stage of its name, besides. In
both cases the turn after that works on the next slot in the round that is not closed. -/
theorem rejected_reads (policy : Policy α) (name : String) (meters : Meters)
    (inlets : List (PartitionId × Inlet α)) (hn : (inlets.map (·.1)).Nodup) (k : Outlet ω α) (w : ω)
    (cs : List Request) :
    let start : Intake α := { ofInlets inlets with name := name, meters := meters }
    let s := (after policy k cs start w).1
    let seen := (after policy k cs start w).2
    (∀ fault, (s.turn policy k seen).1 = .error fault →
      (∃ i p inlet, s.nextLive = some (i, ⟨p, .reading inlet⟩) ∧
        Rejects policy s.merger p inlet.read.1 fault) ∨
      ∃ a ∈ (s.turn policy k.logged { state := seen }).2.2.attempts, a.answer = .error fault) ∧
    (∀ p, (s.turn policy k seen).1 = .ok (.skipped p) →
      ∃ i inlet, s.nextLive = some (i, ⟨p, .reading inlet⟩) ∧ Skips policy inlet.read.1) ∧
    ∀ i p inlet, s.nextLive = some (i, ⟨p, .reading inlet⟩) →
      let passed : Intake α := { s with
        slots := s.slots.set i ⟨p, .reading inlet.read.2⟩, cursor := (i + 1) % s.slots.length }
      (∀ fault, Rejects policy s.merger p inlet.read.1 fault →
        s.turn policy k seen = (.error fault, (passed, seen))) ∧
      (Skips policy inlet.read.1 → ∃ counted, Meters.Skip name s.meters counted ∧
        s.turn policy k seen = (.ok (.skipped p), ({ passed with
          stats.malformed := s.stats.malformed + 1, meters := counted }, seen))) ∧
      ((∃ fault, Rejects policy s.merger p inlet.read.1 fault) ∨ Skips policy inlet.read.1 →
        let s' := (s.turn policy k seen).2.1
        ∃ j next read phase', IsNext s'.slots (i + 1) j ∧ s'.reading? = read.map (j, ·) ∧
          next.phase.Becomes read phase' ∧
          s'.Visited (s'.turn policy k seen).2.1 j next ⟨next.partition, phase'⟩) := by
  intro start s seen
  have hstart : Poised start :=
    ⟨(poised_ofInlets hn).distinct, (poised_ofInlets hn).aligned, (poised_ofInlets hn).covered⟩
  have hpoised : Poised s := hstart.after policy k cs w
  have hname : s.name = name := name_after policy k cs start w
  have hturn : s.turn policy k seen = _ := turn_seen k.shownBy_logged policy s { state := seen }
  have houtcome := outcome_of_turn hpoised.aligned policy k { state := seen }
  refine ⟨fun fault hfault => ?_, fun p hskipped => ?_, ?_⟩
  · rw [hturn] at hfault
    refine (houtcome.of_error hfault).imp_right ?_
    rintro ⟨new, hlog, hrefused⟩
    rwa [hlog, List.nil_append]
  · rw [hturn] at hskipped
    exact houtcome.of_skipped hskipped
  · intro i p inlet hfound passed
    obtain ⟨_, _, _, hslot, _, _⟩ := nextLive_eq_some hfound
    have hs : s.merger.standing p = some true := hpoised.aligned _ (List.mem_of_getElem? hslot)
    have hcounts : Meters.Skip name s.meters (s.meters.countMalformed s.name 1) := by
      rw [hname]
      exact s.meters.skip_countMalformed name
    exact ⟨fun fault why => turn_of_rejects hfound hs why k seen,
      fun why => ⟨_, hcounts, turn_of_skips hfound hs why k seen⟩,
      fun why => turn_visits_next_of_turned_away hfound hs why k seen⟩

/-- The 3 of the first input waits for the third, whose first record is malformed, and behind the 3
stands a 1. The input between them is empty. -/
def backwards : List (PartitionId × Inlet Int) :=
  [(0, .ofRecords [3, 1]), (9, .ofRecords []),
    (4, { upcoming := [.error (.malformed (.reported "torn")), .ok (some 5)] })]

/-- Two turns later the 3 is queued and the empty input closed. -/
def backwardsLater (meters : Meters) : Intake Int :=
  { ofInlets backwards with
    name := "fixed", meters := meters, cursor := 2, stats := { read := 1, closed := 1 },
    merger := (((Merger.ofPartitions [0, 9, 4]).arrive ⟨0, 3, 3⟩).unblock 9).shut 9,
    slots := [⟨0, .reading (.ofRecords [1])⟩, ⟨9, .closed⟩,
      ⟨4, .reading { upcoming := [.error (.malformed (.reported "torn")), .ok (some 5)] }⟩] }

theorem after_backwards (meters : Meters) (cs : List Request) :
    after .selfKeyed .collect (.pull :: .pull :: cs)
      { ofInlets backwards with name := "fixed", meters := meters } [] =
      after .selfKeyed .collect cs (backwardsLater meters) [] := by
  let start : Intake Int := { ofInlets backwards with name := "fixed", meters := meters }
  let s : Intake Int := { start with
    merger := start.merger.arrive ⟨0, 3, 3⟩, cursor := 1, stats.read := 1,
    slots := start.slots.set 0 ⟨0, .reading (.ofRecords [1])⟩ }
  -- a release evaluates only as departures that are counted beforehand
  have hfirst : (start.turn .selfKeyed .collect []).2 = (s, []) := by
    simp only [turn, respond, accept, forward, Merger.release_eq_offer,
      Merger.drain_eq_take (Nat.le_refl _)]
    with_unfolding_all rfl
  have hsecond : (s.turn .selfKeyed .collect []).2 = (backwardsLater meters, []) := by
    simp only [turn, respond, exhaust, tryClose, wrapUp, forward, Merger.release_eq_offer,
      Merger.drain_eq_take (Nat.le_refl _)]
    with_unfolding_all rfl
  simp only [start] at hfirst
  simp only [after, obey, hfirst, hsecond]

omit [Record α] in
/-- Which slot comes next can be told from what is read there. -/
theorem isNext_of_reading {slots : List (Slot α)} {c j j' : Nat} {r : Reading α}
    {read : Option (Reading α)} {reading : Option (Nat × Reading α)} (h : IsNext slots c j)
    (hread : reading = read.map (j, ·)) (hr : reading = some (j', r)) :
    IsNext slots c j' ∧ reading = some (j', r) := by
  obtain ⟨_, _, he⟩ := Option.map_eq_some_iff.1 (hread.symm.trans hr)
  cases he
  exact ⟨h, hr⟩

/-- The third turn skips the malformed record, and the next slot is the first. There the fourth turn
finds that the 1 goes back from the 3, and the next slot is the third, behind the closed one. -/
theorem rejected_reads_backwards :
    let meters : Meters := { malformed := [("other", 2), ("fixed", 7)] }
    let start : Intake Int := { ofInlets backwards with name := "fixed", meters := meters }
    let third := (after .selfKeyed .collect [.pull, .pull] start []).1
    let fourth := (after .selfKeyed .collect [.pull, .pull, .pull] start []).1
    let fifth := (fourth.turn .selfKeyed .collect []).2.1
    ((third.turn .selfKeyed .collect []).1 = .ok (.skipped 4) ∧
      fourth.stats.malformed = third.stats.malformed + 1 ∧
      fourth.meters.malformed.lookup "fixed" = some 8 ∧
      fourth.meters.malformed.lookup "other" = some 2 ∧
      IsNext fourth.slots 3 0 ∧ fourth.reading? = some (0, .ok (some 1))) ∧
    (fourth.turn .selfKeyed .collect []).1 = .error (.outOfOrder 0 3 1) ∧
      fifth.meters = fourth.meters ∧ IsNext fifth.slots 1 2 ∧
      fifth.reading? = some (2, .ok (some 5)) := by
  intro meters start third fourth fifth
  have hn : (backwards.map (·.1)).Nodup := by decide
  obtain ⟨_, _, hreads⟩ :=
    rejected_reads .selfKeyed "fixed" meters backwards hn .collect [] [.pull, .pull]
  simp only [after_backwards] at hreads
  simp only [after] at hreads
  let torn : Inlet Int := { upcoming := [.error (.malformed (.reported "torn")), .ok (some 5)] }
  have hskips : Skips .selfKeyed torn.read.1 := .input rfl
  obtain ⟨_, hskipped, hnext⟩ := hreads 2 4 torn (by with_unfolding_all rfl)
  obtain ⟨counted, hcounted, hturn⟩ := hskipped hskips
  obtain ⟨j, _, read, _, hbehind, hread, _, _⟩ := hnext (.inr hskips)
  obtain ⟨_, _, hreads'⟩ :=
    rejected_reads .selfKeyed "fixed" meters backwards hn .collect [] [.pull, .pull, .pull]
  have hrejects : Rejects .selfKeyed (backwardsLater meters).merger 0
      (Inlet.ofRecords [(1 : Int)]).read.1 (.outOfOrder 0 3 1) := .order rfl rfl rfl rfl (by decide)
  simp only [after_backwards] at hreads'
  simp only [after, obey, hturn] at hreads'
  obtain ⟨hrejected, _, hnext'⟩ := hreads' 0 0 (.ofRecords [1]) (by with_unfolding_all rfl)
  obtain ⟨j', _, read', _, hbehind', hread', _, _⟩ := hnext' (.inl ⟨_, hrejects⟩)
  simp only [hturn] at hbehind hread
  simp only [hrejected _ hrejects] at hbehind' hread'
  simp only [third, fourth, fifth, start, after_backwards]
  simp only [after, obey, hturn, hrejected _ hrejects, true_and]
  have hother := hcounted.others "other" (by decide)
  exact ⟨⟨hcounted.counted, hother,
    isNext_of_reading hbehind hread (by with_unfolding_all rfl)⟩,
    isNext_of_reading hbehind' hread' (by with_unfolding_all rfl)⟩

end Intake

end TimeMerge
