import TimeMerge.Proofs.Rejection

/-!
# Fair reading

Reads go round the inputs that are still read, whatever the turns come to. In every round each of them
is read once, those that the cursor has passed already and the others not yet, so no two of them are
ever more than one read apart.
-/
namespace TimeMerge

theorem Inlet.length_outcomes (n : Nat) (inlet : Inlet α) : (inlet.outcomes n).1.length = n := by
  induction n generalizing inlet with
  | zero => rfl
  | succ n ih => rw [outcomes, List.length_cons, ih]

/-- The answers that an input has given are its first, as many as there are. -/
theorem Phase.Spent.outcomes_eq {inlet left : Inlet α} {answers : List (Reading α)} {phase : Phase α}
    (h : phase.Spent inlet answers) (hkept : left ∈ phase.inlet?) :
    inlet.outcomes answers.length = (answers, left) := by
  obtain ⟨n, rfl, hleft⟩ := h.answered
  rw [Inlet.length_outcomes, hleft left hkept]

/-- Going on from a place on the ring passes its end at most once in a round. -/
theorem add_mod_of_le {c step n : Nat} (hc : c < n) (hs : step ≤ n) :
    (c + step) % n = if c + step < n then c + step else c + step - n := by
  split
  · rename_i hlt
    exact Nat.mod_eq_of_lt hlt
  · rename_i hle
    rw [Nat.mod_eq_sub_mod (Nat.le_of_not_lt hle), Nat.mod_eq_of_lt (by omega)]

/-- How often a cursor at `c` has passed the place `i` in the round that it is on. -/
def laps (c i : Nat) : Nat := if i < c then 1 else 0

/-- Whether a round is over when the cursor goes on from `c` to `c'`. -/
def wraps (c c' : Nat) : Nat := if c' ≤ c then 1 else 0

section Ring

variable {c n step further : Nat}

/-- The place that the cursor goes over is passed once more. -/
theorem laps_at (hc : c < n) (hs : step < n) :
    let i := (c + step) % n
    laps c i + 1 = wraps c ((i + 1) % n) + laps ((i + 1) % n) i := by
  have hplace := add_mod_of_le hc (Nat.le_of_lt hs)
  have hnext := add_mod_of_le (Nat.mod_lt (c + step) (show 0 < n by omega)) (show 1 ≤ n by omega)
  simp only [laps, wraps]
  grind

/-- A place further on is passed as often as before. -/
theorem laps_beyond (hc : c < n) (hs : step < further) (hf : further < n) :
    let i := (c + step) % n
    let j := (c + further) % n
    laps c j = wraps c ((i + 1) % n) + laps ((i + 1) % n) j := by
  have hplace := add_mod_of_le hc (show step ≤ n by omega)
  have hother := add_mod_of_le hc (Nat.le_of_lt hf)
  have hnext := add_mod_of_le (Nat.mod_lt (c + step) (show 0 < n by omega)) (show 1 ≤ n by omega)
  simp only [laps, wraps]
  grind

end Ring

namespace Intake

variable {s s' : Intake α} {i j : Nat} {slot other b : Slot α} {phase' : Phase α}
  {read : Option (Reading α)} {log : List (Nat × Reading α)} {turns rounds : Nat}
  {inlets : List (PartitionId × Inlet α)}

namespace Visited

theorem slot_cases (v : s.Visited s' i slot b) (h : s'.slots[j]? = some other) :
    j = i ∧ other = b ∨ j ≠ i ∧ s.slots[j]? = some other :=
  getElem?_set_cases (v.slots ▸ h)

/-- The cursor goes over the slot that the turn works on. -/
theorem laps_eq (v : s.Visited s' i slot b) (hc : s.cursor < s.slots.length) :
    laps s.cursor i + 1 = wraps s.cursor s'.cursor + laps s'.cursor i := by
  obtain ⟨step, hstep, rfl, _⟩ := nextLive_eq_some v.chosen
  rw [v.cursor]
  exact laps_at hc hstep

/-- It goes over no other slot that is not closed. -/
theorem laps_eq_of_ne (v : s.Visited s' i slot b) (hc : s.cursor < s.slots.length) (hj : j ≠ i)
    (h : s.slots[j]? = some other) (hopen : other.isClosed = false) :
    laps s.cursor j = wraps s.cursor s'.cursor + laps s'.cursor j := by
  obtain ⟨step, _, rfl, _, _, hpassed⟩ := nextLive_eq_some v.chosen
  obtain ⟨further, hfurther, rfl, hahead⟩ := exists_ahead h
  have hlt : step < further := by
    refine Nat.lt_of_le_of_ne (Nat.le_of_not_lt fun hlt => ?_) fun he => hj (by rw [he])
    rw [hpassed further hlt other hahead] at hopen
    cases hopen
  rw [v.cursor]
  exact laps_beyond hc hlt hfurther

end Visited

/-- Every slot stands for an input that has given the answers in the log. -/
def Drawn (inlets : List (PartitionId × Inlet α)) (s : Intake α) (log : List (Nat × Reading α)) :
    Prop :=
  ∀ (i : Nat) (slot : Slot α), s.slots[i]? = some slot → ∃ inlet,
    inlets[i]? = some (slot.partition, inlet) ∧ slot.phase.Spent inlet (answersOf i log)

/-- The inputs that are read have been read once in each of these rounds, and once more in the round
that the cursor is on if it has passed them. As long as some input is not closed, every turn has brought
the cursor on. -/
structure EvenlyRead (turns : Nat) (s : Intake α) (log : List (Nat × Reading α)) (rounds : Nat) :
    Prop where
  cursor : s.cursor % s.slots.length = s.cursor
  reads : ∀ (i : Nat) (slot : Slot α), s.slots[i]? = some slot → slot.isReading = true →
    (answersOf i log).length = rounds + laps s.cursor i
  paced : (∃ slot ∈ s.slots, slot.isClosed = false) → turns ≤ rounds * s.slots.length + s.cursor

theorem drawn_ofInlets (inlets : List (PartitionId × Inlet α)) :
    Drawn inlets (ofInlets inlets) [] := by
  intro i slot hslot
  rw [ofInlets, List.getElem?_map] at hslot
  obtain ⟨⟨p, inlet⟩, hx, rfl⟩ := Option.map_eq_some_iff.1 hslot
  exact ⟨inlet, hx, ⟨0, rfl, fun left h => by cases h; rfl⟩, by simp [answersOf]⟩

theorem evenlyRead_ofInlets (inlets : List (PartitionId × Inlet α)) :
    EvenlyRead 0 (ofInlets inlets) [] 0 :=
  ⟨Nat.zero_mod _, fun _ _ _ _ => rfl, fun _ => Nat.zero_le _⟩

theorem Drawn.visited (h : Drawn inlets s log) (hb : slot.phase.Becomes read phase')
    (v : s.Visited s' i slot ⟨slot.partition, phase'⟩) :
    Drawn inlets s' (log ++ s.reading?.toList) := by
  intro j other hother
  rw [answersOf_append, answersOf_reading (v.reading_eq hb)]
  rcases v.slot_cases hother with ⟨rfl, rfl⟩ | ⟨hne, hj⟩
  · obtain ⟨inlet, hinlet, hspent⟩ := h _ _ v.found
    rw [if_pos rfl]
    exact ⟨inlet, hinlet, hspent.becomes hb⟩
  · rw [if_neg hne, List.append_nil]
    exact h j other hj

/-- The place that the cursor goes to is further on, if whole rounds are counted. -/
theorem Visited.passes (v : s.Visited s' i slot b) (hc : s.cursor < s.slots.length) (rounds : Nat) :
    rounds * s.slots.length + s.cursor <
      (rounds + wraps s.cursor s'.cursor) * s'.slots.length + s'.cursor := by
  rw [v.length_eq, Nat.add_mul, wraps]
  split <;> omega

theorem EvenlyRead.visited (h : EvenlyRead turns s log rounds) (hb : slot.phase.Becomes read phase')
    (v : s.Visited s' i slot ⟨slot.partition, phase'⟩) :
    EvenlyRead (turns + 1) s' (log ++ s.reading?.toList) (rounds + wraps s.cursor s'.cursor) := by
  obtain ⟨step, hstep, _, _, hopen, _⟩ := nextLive_eq_some v.chosen
  have hc : s.cursor < s.slots.length := by
    rw [← h.cursor]
    exact Nat.mod_lt _ (by omega)
  refine ⟨by rw [v.length_eq, v.cursor, Nat.mod_mod], fun j other hother hreading => ?_, fun _ => ?_⟩
  · rw [answersOf_append, answersOf_reading (v.reading_eq hb), List.length_append]
    rcases v.slot_cases hother with ⟨rfl, rfl⟩ | ⟨hne, hj⟩
    · -- a slot that is still read after the turn has been read in it
      have hread : read.toList.length = 1 ∧ slot.isReading = true := by
        obtain ⟨p, phase⟩ := slot
        cases hb with
        | reads more => exact ⟨rfl, rfl⟩
        | ends last => cases hreading
        | closes last => cases hreading
        | waits => cases hreading
        | leaves => cases hreading
      have hlaps := v.laps_eq hc
      rw [if_pos rfl, hread.1, h.reads _ slot v.found hread.2]
      omega
    · have hlaps := v.laps_eq_of_ne hc hne hj (Slot.isClosed_of_isReading hreading)
      rw [if_neg hne, List.length_nil, h.reads j other hj hreading]
      omega
  · have hbefore := h.paced ⟨slot, List.mem_of_getElem? v.found, hopen⟩
    have hpasses := v.passes hc rounds
    omega

section Turns

variable [Record α] {ω : Type}

/-- A turn works on one slot, if any is left, and else it leaves the slots and the cursor alone. -/
theorem visited_or_kept (s : Intake α) (policy : Policy α) (k : Outlet ω α) (w : ω) :
    (s.nextLive = none ∧ s.reading? = none ∧ (s.turn policy k w).2.1.slots = s.slots ∧
      (s.turn policy k w).2.1.cursor = s.cursor) ∨
    ∃ i slot read phase', slot.phase.Becomes read phase' ∧
      s.Visited (s.turn policy k w).2.1 i slot ⟨slot.partition, phase'⟩ := by
  cases hn : s.nextLive with
  | none =>
    obtain ⟨hslots, hcursor, _⟩ := slots_finish k s w
    rw [turn_of_idle hn]
    exact .inl ⟨rfl, reading?_of_idle hn, hslots, hcursor⟩
  | some found =>
    obtain ⟨i, slot⟩ := found
    exact .inr ⟨i, slot, turn_visits hn policy k w⟩

theorem Drawn.turn (h : Drawn inlets s log) (policy : Policy α) (k : Outlet ω α) (w : ω) :
    Drawn inlets (s.turn policy k w).2.1 (log ++ s.reading?.toList) := by
  rcases s.visited_or_kept policy k w with ⟨_, hnone, hslots, _⟩ | ⟨_, _, _, _, hb, v⟩
  · rw [hnone, Option.toList_none, List.append_nil, Drawn, hslots]
    exact h
  · exact h.visited hb v

theorem EvenlyRead.turn (h : EvenlyRead turns s log rounds) (policy : Policy α) (k : Outlet ω α)
    (w : ω) : ∃ rounds',
      EvenlyRead (turns + 1) (s.turn policy k w).2.1 (log ++ s.reading?.toList) rounds' := by
  rcases s.visited_or_kept policy k w with ⟨hall, hnone, hslots, hcursor⟩ | ⟨_, _, _, _, hb, v⟩
  · rw [hnone, Option.toList_none, List.append_nil]
    refine ⟨rounds, by rw [hslots, hcursor, h.cursor], by rw [hslots, hcursor]; exact h.reads, ?_⟩
    rintro ⟨slot, hslot, hopen⟩
    rw [hslots] at hslot
    rw [nextLive_eq_none_iff.1 hall slot hslot] at hopen
    cases hopen
  · exact ⟨_, h.visited hb v⟩

/-- After any number of turns over any outlet, whatever was refused and whichever faults came up, and
even if inputs share a partition: of every input that is still read just the first answers have been
read, in their order, and the rest is left. Of two such inputs the earlier has been read as often as
the later or once more, and none of them waits longer than a round for its next read. -/
theorem reads_in_rounds (policy : Policy α) (name : String) (inlets : List (PartitionId × Inlet α))
    (k : Outlet ω α) (w : ω) (n : Nat) :
    let start : Intake α := { ofInlets inlets with name := name }
    let s := (pulls policy k n start w).1
    let log := readings policy k n start w
    let reads i := (answersOf i log).length
    (∀ i p left, s.slots[i]? = some ⟨p, .reading left⟩ → ∃ inlet, inlets[i]? = some (p, inlet) ∧
      inlet.outcomes (reads i) = (answersOf i log, left)) ∧
    (∀ i j, i < j → s.slots[i]?.any (·.isReading) = true → s.slots[j]?.any (·.isReading) = true →
      reads j ≤ reads i ∧ reads i ≤ reads j + 1) ∧
    ∀ i, s.slots[i]?.any (·.isReading) = true → n < (reads i + 1) * s.slots.length := by
  intro start s log reads
  have hstart : Drawn inlets start [] ∧ EvenlyRead 0 start [] 0 :=
    ⟨drawn_ofInlets inlets, (evenlyRead_ofInlets inlets).cursor,
      (evenlyRead_ofInlets inlets).reads, (evenlyRead_ofInlets inlets).paced⟩
  have hdrawn : Drawn inlets s log :=
    pulls_preserves (P := fun _ => Drawn inlets) (m := 0) (fun _ _ _ w h => h.turn policy k w)
      hstart.1 n w
  obtain ⟨rounds, heven⟩ : ∃ rounds, EvenlyRead (0 + n) s log rounds :=
    pulls_preserves (P := fun turns s log => ∃ rounds, EvenlyRead turns s log rounds)
      (fun _ _ _ w ⟨_, h⟩ => h.turn policy k w) ⟨0, hstart.2⟩ n w
  refine ⟨fun i p left hi => ?_, fun i j hij hi hj => ?_, fun i hi => ?_⟩
  · obtain ⟨inlet, hinlet, hspent⟩ := hdrawn i _ hi
    exact ⟨inlet, hinlet, hspent.outcomes_eq rfl⟩
  · obtain ⟨_, hslot, hreading⟩ := (Option.any_eq_true _ _).1 hi
    obtain ⟨_, hslot', hreading'⟩ := (Option.any_eq_true _ _).1 hj
    have hri : reads i = _ := heven.reads i _ hslot hreading
    have hrj : reads j = _ := heven.reads j _ hslot' hreading'
    simp only [laps] at hri hrj
    grind
  · obtain ⟨slot, hslot, hreading⟩ := (Option.any_eq_true _ _).1 hi
    have hri : reads i = _ := heven.reads i _ hslot hreading
    have hpaced := heven.paced ⟨slot, List.mem_of_getElem? hslot, Slot.isClosed_of_isReading hreading⟩
    have hc : s.cursor < s.slots.length := by
      rw [← heven.cursor]
      exact Nat.mod_lt _ (List.length_pos_of_mem (List.mem_of_getElem? hslot))
    rw [Nat.zero_add] at hpaced
    calc n ≤ rounds * s.slots.length + s.cursor := hpaced
      _ < rounds * s.slots.length + s.slots.length := Nat.add_lt_add_left hc _
      _ = (rounds + 1) * s.slots.length := (Nat.succ_mul _ _).symm
      _ ≤ (reads i + 1) * s.slots.length := Nat.mul_le_mul_right _ (by omega)

end Turns

theorem getElem?_any_iff {xs : List β} {f : β → Bool} {i : Nat} :
    xs[i]?.any f = true ↔ (xs.map f)[i]? = some true := by
  rw [List.getElem?_map]
  cases xs[i]? <;> simp

/-- Two inputs share a partition, and one of them fails at its second read. -/
def sharedInlets : List (PartitionId × Inlet Int) :=
  [(7, .ofRecords [1, 2, 3]), (7, { upcoming := [.ok (some 1)], failure := some (.reported "gone") }),
    (9, .ofRecords [4])]

/-- A channel that lets nobody wait refuses what goes out. After five turns the first two inputs have
been read twice each, with a failure at the end, and the third once. -/
theorem reads_in_rounds_shared :
    let start : Intake Int := { ofInlets sharedInlets with name := "shared" }
    let s := (pulls .selfKeyed (.bounded false) 5 start {}).1
    let log := readings .selfKeyed (.bounded false) 5 start {}
    log.map (·.1) = [0, 1, 2, 0, 1] ∧ s.slots.map (·.isReading) = [true, true, true] ∧
      (answersOf 2 log).length ≤ (answersOf 1 log).length ∧
        (answersOf 1 log).length ≤ (answersOf 2 log).length + 1 := by
  intro start s log
  have hrun : log.map (·.1) = [0, 1, 2, 0, 1] ∧ s.slots.map (·.isReading) = [true, true, true] := by
    -- a release evaluates only as departures that are counted beforehand
    simp only [s, log, start, pulls, readings, turn, respond, accept, exhaust, tryClose, wrapUp,
      forward, Merger.release_eq_offer, Merger.drain_eq_take (Nat.le_refl _)]
    decide
  obtain ⟨_, hfair, _⟩ := reads_in_rounds .selfKeyed "shared" sharedInlets (.bounded false) {} 5
  have hspread := hfair 1 2 (by decide) (getElem?_any_iff.2 (by rw [hrun.2]; rfl))
    (getElem?_any_iff.2 (by rw [hrun.2]; rfl))
  exact ⟨hrun.1, hrun.2, hspread⟩

end Intake

end TimeMerge
