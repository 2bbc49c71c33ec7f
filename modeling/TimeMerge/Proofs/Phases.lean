import TimeMerge.Proofs.Refusals

/-!
# Phases of inputs

Where an input is and where its partition stands are changed by separate acts, and a fault may come
between them. Whatever is refused and whichever faults come up, they are in step again whenever a
turn is over, and an input is not read again once it was at its end. -/
namespace TimeMerge

/-- What the first `n` reads of an input give, and what is left of it then. -/
def Inlet.outcomes : Nat → Inlet α → List (Reading α) × Inlet α
  | 0, inlet => ([], inlet)
  | n + 1, inlet =>
    (inlet.read.1 :: (inlet.read.2.outcomes n).1, (inlet.read.2.outcomes n).2)

/-- What is left of an input after a read was to come before it. -/
theorem Inlet.upcoming_read (inlet : Inlet α) : ∀ r ∈ inlet.read.2.upcoming, r ∈ inlet.upcoming := by
  intro r hr
  rw [read] at hr
  split at hr
  · exact hr
  · rename_i hcons
    rw [hcons]
    exact List.mem_cons_of_mem _ hr

/-- A record that is read was to come. -/
theorem Inlet.mem_upcoming_of_read {inlet : Inlet α} {record : α}
    (h : inlet.read.1 = .ok (some record)) : .ok (some record) ∈ inlet.upcoming := by
  rw [read] at h
  split at h
  · rw [atEnd] at h
    split at h <;> cases h
  · rename_i hcons
    cases h
    exact hcons ▸ List.mem_cons_self

theorem Inlet.outcomes_succ (n : Nat) (inlet : Inlet α) : inlet.outcomes (n + 1) =
    ((inlet.outcomes n).1 ++ [(inlet.outcomes n).2.read.1], (inlet.outcomes n).2.read.2) := by
  induction n generalizing inlet with
  | zero => rfl
  | succ n ih =>
    rw [outcomes, ih]
    rfl

/-- Reading an input gives these outcomes and then, however often it is read, the end of the data. -/
def Inlet.Reads (inlet : Inlet α) (outcomes : List (Reading α)) : Prop :=
  ∀ n, (inlet.outcomes (outcomes.length + n)).1 = outcomes ++ List.replicate n (.ok none)

theorem Inlet.outcomes_of_upcoming_nil {inlet : Inlet α} (hends : inlet.failure = none)
    (hup : inlet.upcoming = []) (n : Nat) :
    (inlet.outcomes n).1 = List.replicate n (.ok none) := by
  induction n with
  | zero => rfl
  | succ n ih =>
    have hread : inlet.read = (.ok none, inlet) := by simp only [read, hup, atEnd, hends]
    rw [outcomes, hread, ih, List.replicate_succ]

/-- An input that does not fail reads as what is to come of it. -/
theorem Inlet.reads_of_upcoming {inlet : Inlet α} {outcomes : List (Reading α)}
    (hends : inlet.failure = none) (hup : inlet.upcoming = outcomes) : inlet.Reads outcomes := by
  intro n
  induction outcomes generalizing inlet with
  | nil => rw [List.length_nil, Nat.zero_add, outcomes_of_upcoming_nil hends hup, List.nil_append]
  | cons r rest ih =>
    have hread : inlet.read = (r, { inlet with upcoming := rest }) := by simp only [read, hup]
    rw [List.length_cons, Nat.add_right_comm, Inlet.outcomes, hread,
      @ih { inlet with upcoming := rest } hends rfl, List.cons_append]

/-- The input that a phase keeps: it is there until its partition is closed. -/
def Phase.inlet? : Phase α → Option (Inlet α)
  | .reading inlet => some inlet
  | .exhausted inlet => some inlet
  | .closed => none

/-- An input after it has given these answers: what is left of it, as long as it is kept, and
whether its end was among them. -/
structure Phase.Spent (inlet : Inlet α) (answers : List (Reading α)) (phase : Phase α) : Prop where
  answered : ∃ n, answers = (inlet.outcomes n).1 ∧
    ∀ left ∈ phase.inlet?, left = (inlet.outcomes n).2
  ended : .ok none ∈ answers ↔ ∀ left, phase ≠ .reading left

variable {inlet : Inlet α} {answers : List (Reading α)} {phase phase' : Phase α}

/-- One more read of an input leaves it with one more answer. -/
theorem Phase.Spent.answered_read {left : Inlet α} (h : (Phase.reading left).Spent inlet answers) :
    ∃ n, answers ++ [left.read.1] = (inlet.outcomes n).1 ∧ left.read.2 = (inlet.outcomes n).2 := by
  obtain ⟨n, hanswers, hleft⟩ := h.answered
  obtain rfl := hleft left rfl
  refine ⟨n + 1, ?_, ?_⟩
  · rw [Inlet.outcomes_succ, hanswers]
  · rw [Inlet.outcomes_succ]

theorem Phase.Spent.becomes {read : Option (Reading α)} (h : phase.Spent inlet answers)
    (b : phase.Becomes read phase') : phase'.Spent inlet (answers ++ read.toList) := by
  have hended := h.ended
  cases b with
  | @reads left more =>
    obtain ⟨n, hanswers, hleft⟩ := h.answered_read
    constructor
    · exact ⟨n, hanswers, fun left' he => by cases he; exact hleft⟩
    · simp [hended, Ne.symm more]
  | ends last =>
    obtain ⟨n, hanswers, hleft⟩ := h.answered_read
    constructor
    · exact ⟨n, hanswers, fun left' he => by cases he; exact hleft⟩
    · simp [last]
  | closes last =>
    obtain ⟨n, hanswers, _⟩ := h.answered_read
    constructor
    · exact ⟨n, hanswers, fun _ he => by cases he⟩
    · simp [last]
  | waits =>
    rw [Option.toList_none, List.append_nil]
    exact h
  | leaves =>
    obtain ⟨n, hanswers, _⟩ := h.answered
    rw [Option.toList_none, List.append_nil]
    constructor
    · exact ⟨n, hanswers, fun _ he => by cases he⟩
    · simp [hended]

namespace Intake

/-- The answers of the input at `i` among all readings. -/
def answersOf (i : Nat) (log : List (Nat × Reading α)) : List (Reading α) :=
  (log.filter (·.1 = i)).map (·.2)

theorem answersOf_append (i : Nat) (log more : List (Nat × Reading α)) :
    answersOf i (log ++ more) = answersOf i log ++ answersOf i more := by
  rw [answersOf, List.filter_append, List.map_append]
  rfl

/-- A turn that works on the input at `i` reads no other. -/
theorem answersOf_reading {s : Intake α} {i : Nat} {read : Option (Reading α)}
    (h : s.reading? = read.map (i, ·)) (j : Nat) :
    answersOf j s.reading?.toList = if j = i then read.toList else [] := by
  rw [h]
  by_cases hj : j = i <;> cases read <;> simp [answersOf, hj, eq_comm]

/-- What the slots of an intake say, and what holds of its partitions and its readings: they are in
step. -/
structure Phased (inlets : List (PartitionId × Inlet α)) (s : Intake α)
    (log : List (Nat × Reading α)) : Prop where
  partitions : s.slots.map (·.partition) = inlets.map (·.1)
  aligned : ∀ slot ∈ s.slots, s.merger.standing slot.partition = slot.standing
  closed : s.stats.closed = s.slots.countP (·.isClosed)
  spent : ∀ (i : Nat) (x : PartitionId × Inlet α) (slot : Slot α), inlets[i]? = some x →
    s.slots[i]? = some slot → slot.phase.Spent x.2 (answersOf i log)
  once : log.Pairwise fun a b => a.1 = b.1 → a.2 ≠ .ok none

variable {inlets : List (PartitionId × Inlet α)} {s s' : Intake α} {log : List (Nat × Reading α)}

theorem phased_ofInlets (inlets : List (PartitionId × Inlet α)) :
    Phased inlets (ofInlets inlets) [] where
  partitions := by
    rw [ofInlets, List.map_map]
    rfl
  aligned := by
    intro slot hslot
    obtain ⟨x, hx, rfl⟩ := List.mem_map.1 hslot
    have hs : (ofInlets inlets).merger.standing x.1 = _ := Merger.standing_ofPartitions _ x.1
    rw [hs, if_pos (List.mem_map_of_mem hx)]
    rfl
  closed := by
    simp [ofInlets, List.countP_map, Function.comp_def, Slot.isClosed]
  spent := by
    intro i x slot hx hslot
    simp only [ofInlets, List.getElem?_map, hx, Option.map_some, Option.some.injEq] at hslot
    subst slot
    exact ⟨⟨0, rfl, fun left h => by cases h; rfl⟩, by simp [answersOf]⟩
  once := .nil

theorem Phased.keeps (h : Phased inlets s log) (k : Keeps s s') : Phased inlets s' log where
  partitions := by rw [k.slots, h.partitions]
  aligned := by
    intro slot hslot
    rw [k.slots] at hslot
    rw [k.standing, h.aligned slot hslot]
  closed := by rw [k.closed, k.slots, h.closed]
  spent := by
    rw [k.slots]
    exact h.spent
  once := h.once

/-- The slot of an input. -/
theorem Phased.exists_slot (h : Phased inlets s log) {i : Nat} {x : PartitionId × Inlet α}
    (hx : inlets[i]? = some x) : ∃ slot, s.slots[i]? = some slot ∧ slot.partition = x.1 := by
  have hpartition : (s.slots.map (·.partition))[i]? = some x.1 := by
    rw [h.partitions, List.getElem?_map, hx, Option.map_some]
  rw [List.getElem?_map] at hpartition
  exact Option.map_eq_some_iff.1 hpartition

/-- The input of a slot. -/
theorem Phased.exists_input (h : Phased inlets s log) {i : Nat} {slot : Slot α}
    (hslot : s.slots[i]? = some slot) : ∃ x, inlets[i]? = some x ∧ x.1 = slot.partition := by
  have hpartition : (inlets.map (·.1))[i]? = some slot.partition := by
    rw [← h.partitions, List.getElem?_map, hslot, Option.map_some]
  rw [List.getElem?_map] at hpartition
  exact Option.map_eq_some_iff.1 hpartition

section Works

variable {i j : Nat} {p : PartitionId} {phase phase' : Phase α} {read : Option (Reading α)}
  {slot : Slot α}

theorem Works.slot_cases (w : Works s s' i p phase read phase') (h : s'.slots[j]? = some slot) :
    j = i ∧ slot = ⟨p, phase'⟩ ∨ j ≠ i ∧ s.slots[j]? = some slot :=
  getElem?_set_cases (w.slots ▸ h)

theorem Works.partitions (w : Works s s' i p phase read phase') :
    s'.slots.map (·.partition) = s.slots.map (·.partition) := by
  have hp : (s.slots.map (·.partition))[i]? = some p := by
    rw [List.getElem?_map, w.found, Option.map_some]
  obtain ⟨hi, hp⟩ := List.getElem?_eq_some_iff.1 hp
  rw [w.slots, List.map_set]
  change (s.slots.map (·.partition)).set i p = _
  rw [← hp, List.set_getElem_self]

/-- The other slots have other partitions. -/
theorem Works.partition_ne (w : Works s s' i p phase read phase')
    (hn : (s.slots.map (·.partition)).Nodup) (hj : j ≠ i) (h : s.slots[j]? = some slot) :
    slot.partition ≠ p := by
  intro he
  have hlt : i < (s.slots.map (·.partition)).length := by
    rw [List.length_map]
    exact (List.getElem?_eq_some_iff.1 w.found).1
  refine hj ((List.getElem?_inj hlt hn).1 ?_).symm
  rw [List.getElem?_map, List.getElem?_map, w.found, h, Option.map_some, Option.map_some, he]

/-- An input that is read has not been at its end before. -/
theorem Phased.not_ended (h : Phased inlets s log) (w : Works s s' i p phase read phase')
    {r : Nat × Reading α} (hr : s.reading? = some r) : .ok none ∉ answersOf r.1 log := by
  rw [w.reading] at hr
  obtain ⟨reading, rfl, rfl⟩ := Option.map_eq_some_iff.1 hr
  have hlen : s.slots.length = inlets.length := by simpa using congrArg List.length h.partitions
  have hlt : i < inlets.length := hlen ▸ (List.getElem?_eq_some_iff.1 w.found).1
  have hspent := h.spent i _ _ (List.getElem?_eq_getElem hlt) w.found
  intro hm
  have hended := hspent.ended.1 hm
  have hbecomes := w.becomes
  generalize hread : some reading = read at hbecomes
  cases hbecomes with
  | reads more => exact hended _ rfl
  | ends last => exact hended _ rfl
  | closes last => exact hended _ rfl
  | waits => cases hread
  | leaves => cases hread

theorem Phased.works (h : Phased inlets s log) (hn : (inlets.map (·.1)).Nodup)
    (w : Works s s' i p phase read phase') : Phased inlets s' (log ++ s.reading?.toList) := by
  have hnodup : (s.slots.map (·.partition)).Nodup := by rwa [h.partitions]
  obtain ⟨hi, hfound⟩ := List.getElem?_eq_some_iff.1 w.found
  constructor
  · rw [w.partitions, h.partitions]
  · intro slot hslot
    obtain ⟨j, hj⟩ := List.mem_iff_getElem?.1 hslot
    rcases w.slot_cases hj with ⟨_, rfl⟩ | ⟨hne, hj⟩
    · exact w.standing
    · rw [w.frame _ (w.partition_ne hnodup hne hj), h.aligned slot (List.mem_of_getElem? hj)]
  · have hopen : (s.slots[i]).isClosed = false := by
      rw [hfound]
      have hb := w.becomes
      cases hb <;> rfl
    rw [w.closed, w.slots, List.countP_set hi, hopen, h.closed]
    rfl
  · intro j x slot hx hslot
    rw [answersOf_append, answersOf_reading w.reading]
    rcases w.slot_cases hslot with ⟨rfl, rfl⟩ | ⟨hne, hj⟩
    · rw [if_pos rfl]
      exact (h.spent j x _ hx w.found).becomes w.becomes
    · rw [if_neg hne, List.append_nil]
      exact h.spent j x slot hx hj
  · refine List.pairwise_append.2 ⟨h.once, ?_, ?_⟩
    · cases s.reading? <;> simp
    · intro a ha b hb he hend
      have hr : s.reading? = some b := by simpa using hb
      exact h.not_ended w hr (List.mem_map.2 ⟨a, List.mem_filter.2 ⟨ha, by simp [he]⟩, hend⟩)

end Works

section Runs

variable [Record α] {ω : Type}

/-- The state after `n` turns, whatever they came to. -/
def pulls (policy : Policy α) (k : Outlet ω α) : Nat → Intake α → ω → Intake α × ω
  | 0, s, w => (s, w)
  | n + 1, s, w => pulls policy k n (s.turn policy k w).2.1 (s.turn policy k w).2.2

/-- What `n` turns answer. -/
def replies (policy : Policy α) (k : Outlet ω α) : Nat → Intake α → ω → List (Except Fault Turn)
  | 0, _, _ => []
  | n + 1, s, w =>
    (s.turn policy k w).1 :: replies policy k n (s.turn policy k w).2.1 (s.turn policy k w).2.2

/-- What is read in the course of `n` turns. -/
def readings (policy : Policy α) (k : Outlet ω α) : Nat → Intake α → ω → List (Nat × Reading α)
  | 0, _, _ => []
  | n + 1, s, w =>
    s.reading?.toList ++ readings policy k n (s.turn policy k w).2.1 (s.turn policy k w).2.2

theorem pulls_seen {k : Outlet ω α} {view : ω' → ω} {k' : Outlet ω' α} (h : k.ShownBy view k')
    (policy : Policy α) (n : Nat) (s : Intake α) (w : ω') :
    pulls policy k n s (view w) =
      ((pulls policy k' n s w).1, view (pulls policy k' n s w).2) := by
  induction n generalizing s w with
  | zero => rfl
  | succ n ih =>
    rw [pulls, turn_seen h]
    exact ih ..

/-- Turns that are taken until a fault comes up or nothing is left are some number of turns. -/
theorem exists_turns_eq_pulls (policy : Policy α) (k : Outlet ω α) (n : Nat) (s : Intake α)
    (w : ω) : ∃ m, (turns policy k n s w).2 = pulls policy k m s w := by
  induction n generalizing s w with
  | zero => exact ⟨0, rfl⟩
  | succ n ih =>
    have hone : (s.turn policy k w).2 = pulls policy k 1 s w := rfl
    rcases hturn : s.turn policy k w with ⟨fault | t, s', w'⟩
    · refine ⟨1, ?_⟩
      rw [turns, ← hone, hturn]
    · rw [turns, hturn]
      cases t with
      | finished =>
        refine ⟨1, ?_⟩
        rw [← hone, hturn]
      | _ =>
        obtain ⟨m, hm⟩ := ih s' w'
        refine ⟨m + 1, ?_⟩
        rw [pulls, hturn]
        exact hm

/-- What every turn preserves of the number of turns, the state and the readings so far holds after any
number of turns. -/
theorem pulls_preserves {P : Nat → Intake α → List (Nat × Reading α) → Prop} {policy : Policy α}
    {k : Outlet ω α} {m : Nat}
    (step : ∀ m s log w, P m s log → P (m + 1) (s.turn policy k w).2.1 (log ++ s.reading?.toList))
    (h : P m s log) (n : Nat) (w : ω) :
    P (m + n) (pulls policy k n s w).1 (log ++ readings policy k n s w) := by
  induction n generalizing m s w log with
  | zero =>
    rw [readings, List.append_nil]
    exact h
  | succ n ih =>
    rw [readings, ← List.append_assoc, ← Nat.add_assoc, Nat.add_right_comm]
    exact ih (step m s log w h) _

/-- Whatever a turn comes to, the slots are in step after it. -/
theorem Phased.turn (h : Phased inlets s log)
    (hn : (inlets.map (·.1)).Nodup) (policy : Policy α) (k : Outlet ω α) (w : Logged ω α) :
    Phased inlets (s.turn policy k.logged w).2.1 (log ++ s.reading?.toList) := by
  rcases (turn_turned h.aligned policy k w).change with ⟨hnone, hkeeps⟩ | ⟨_, _, _, _, _, hworks⟩
  · rw [hnone, Option.toList_none, List.append_nil]
    exact h.keeps hkeeps
  · exact h.works hn hworks

/-- Nor does it matter whether the attempts are logged. -/
theorem Phased.turn_over (h : Phased inlets s log) (hn : (inlets.map (·.1)).Nodup)
    (policy : Policy α) (k : Outlet ω α) (w : ω) :
    Phased inlets (s.turn policy k w).2.1 (log ++ s.reading?.toList) := by
  have hturn : s.turn policy k w = _ := turn_seen k.shownBy_logged policy s { state := w }
  rw [hturn]
  exact h.turn hn policy k { state := w }

theorem Phased.pulls_over (h : Phased inlets s log) (hn : (inlets.map (·.1)).Nodup)
    (policy : Policy α) (k : Outlet ω α) (n : Nat) (w : ω) :
    Phased inlets (Intake.pulls policy k n s w).1 (log ++ readings policy k n s w) :=
  pulls_preserves (P := fun _ => Phased inlets) (m := 0)
    (fun _ _ _ w h => h.turn_over hn policy k w) h n w

theorem Phased.pulls (h : Phased inlets s log) (hn : (inlets.map (·.1)).Nodup)
    (policy : Policy α) (k : Outlet ω α) (n : Nat) (w : Logged ω α) :
    Phased inlets (pulls policy k.logged n s w).1 (log ++ readings policy k.logged n s w) :=
  h.pulls_over hn policy k.logged n w

end Runs

/-- After any number of turns over any outlet, whatever was refused and whichever faults came up: an
input that is read has its partition open and enabled, one that is at its end has it open and
disabled, and one that is closed has it closed. As many are counted as closed. Of every input just
the first answers have been read, nothing after its end, and it is read as long as its end has not
come up. A fault of the next turn is a record out of order or a failure of the rule for timestamps,
of the input that is read or of the outlet. -/
theorem phases_under_refusals [Record α] (policy : Policy α) (inlets : List (PartitionId × Inlet α))
    (hn : (inlets.map (·.1)).Nodup) (k : Outlet ω α) (w : ω) (n : Nat) :
    let s := (pulls policy k.logged n (ofInlets inlets) { state := w }).1
    let seen := (pulls policy k.logged n (ofInlets inlets) { state := w }).2
    let log := readings policy k.logged n (ofInlets inlets) { state := w }
    let next := s.turn policy k.logged seen
    pulls policy k n (ofInlets inlets) w = (s, seen.state) ∧
    s.slots.map (·.partition) = inlets.map (·.1) ∧
    (∀ slot ∈ s.slots, match slot.phase with
      | .reading _ =>
        s.merger.isOpen slot.partition = true ∧ s.merger.isDisabled slot.partition = false
      | .exhausted _ =>
        s.merger.isOpen slot.partition = true ∧ s.merger.isDisabled slot.partition = true
      | .closed => s.merger.isOpen slot.partition = false) ∧
    s.stats.closed = s.slots.countP (·.isClosed) ∧
    log.Pairwise (fun a b => a.1 = b.1 → a.2 ≠ .ok none) ∧
    (∀ (i : Nat) (x : PartitionId × Inlet α) (slot : Slot α), inlets[i]? = some x →
      s.slots[i]? = some slot → slot.phase.Spent x.2 (answersOf i log)) ∧
    ∃ new, next.2.2.attempts = seen.attempts ++ new ∧
      ∀ fault, next.1 = .error fault → Cause policy s new fault := by
  intro s seen log next
  have h : Phased inlets s log := (phased_ofInlets inlets).pulls hn policy k n { state := w }
  refine ⟨pulls_seen k.shownBy_logged policy n (ofInlets inlets) { state := w }, h.partitions, ?_,
    h.closed, h.once, h.spent, ?_⟩
  · intro slot hslot
    have hs := h.aligned slot hslot
    obtain ⟨p, phase⟩ := slot
    rw [Merger.isOpen_eq, Merger.isDisabled_eq, hs]
    cases phase <;> simp [Slot.standing]
  · obtain ⟨new, hlog, hcause⟩ := (turn_turned h.aligned policy k seen).cause
    refine ⟨new, hlog, fun fault hf => hcause fault ?_⟩
    change faultOf next.1 = some fault
    rw [hf]
    rfl

/-- Two inputs of one record each. The first comes to its end, the second fails at every read after
its record. -/
def refusedInlets : List (PartitionId × Inlet Int) :=
  [(0, .ofRecords [5]), (1, { upcoming := [.ok (some 6)], failure := some (.reported "gone") })]

/-- A channel that lets nobody wait refuses both records, the second while the first input is being
closed. That one is closed all the same, and the other is still read. -/
theorem phases_under_refusals_bounded : (refusedInlets.map (·.1)).Nodup ∧
    let r := pulls .selfKeyed (Outlet.bounded false).logged 4 (ofInlets refusedInlets)
      { state := {} }
    r.2.attempts.map (·.isTaken) = [false, false] ∧
      r.1.slots.map (·.partition) = [0, 1] ∧ r.1.slots.countP (·.isClosed) = 1 := by
  obtain ⟨_, hpartitions, _, hclosed, _⟩ :=
    phases_under_refusals .selfKeyed refusedInlets (by decide) (Outlet.bounded false) {} 4
  have hrun : ((pulls .selfKeyed (Outlet.bounded false).logged 4 (ofInlets refusedInlets)
      { state := {} }).2.attempts.map (·.isTaken),
      (pulls .selfKeyed (Outlet.bounded false).logged 4 (ofInlets refusedInlets)
        { state := {} }).1.stats.closed) = ([false, false], 1) := by
    -- a release evaluates only as departures that are counted beforehand
    simp only [pulls, turn, respond, accept, exhaust, tryClose, wrapUp, forward,
      Merger.release_eq_offer, Merger.drain_eq_take (Nat.le_refl _)]
    decide
  obtain ⟨hattempts, hone⟩ := Prod.ext_iff.1 hrun
  exact ⟨by decide, hattempts, hpartitions, hclosed.symm.trans hone⟩

end Intake

end TimeMerge
