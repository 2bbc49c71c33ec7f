import TimeMerge.Proofs.Attempts
import TimeMerge.Proofs.Sweeps
import TimeMerge.Proofs.Turns

/-!
# Turns under refusals

An outlet may refuse anything at any time, an input may fail, and so may the rule that finds
timestamps. What a turn comes to is said here for all of these at once: what it makes of the slot
that it works on and of the partition of that slot, and where the fault comes from if it ends with
one. -/
namespace TimeMerge

/-- The fault that an answer reports. -/
def faultOf : Except Fault τ → Option Fault
  | .error fault => some fault
  | .ok _ => none

theorem faultOf_map (f : τ → τ') (answer : Except Fault τ) :
    faultOf (answer.map f) = faultOf answer := by
  cases answer <;> rfl

namespace Intake

variable {s s' s'' : Intake α} {p : PartitionId} {i : Nat}

/-- What leaves the slots and the standing of all partitions as they are. -/
structure Keeps (s s' : Intake α) : Prop where
  slots : s'.slots = s.slots
  closed : s'.stats.closed = s.stats.closed
  standing : ∀ p, s'.merger.standing p = s.merger.standing p

theorem Keeps.trans (h : Keeps s s') (h' : Keeps s' s'') : Keeps s s'' where
  slots := h'.slots.trans h.slots
  closed := h'.closed.trans h.closed
  standing p := (h'.standing p).trans (h.standing p)

/-- An act that keeps everything in place, and whose fault, if it ends with one, is a refusal that
it met. -/
structure Passes (s : Intake α) (w : Logged ω α) (r : Except Fault τ × (Intake α × Logged ω α)) :
    Prop where
  keeps : Keeps s r.2.1
  refused : ∃ new, r.2.2.attempts = w.attempts ++ new ∧
    ∀ fault ∈ faultOf r.1, ∃ a ∈ new, a.answer = .error fault

variable {w w' : Logged ω α}

/-- What follows an act that went well. -/
theorem Passes.trans {a : τ} (h : Passes s w (Except.ok a, (s', w')))
    {r : Except Fault τ' × (Intake α × Logged ω α)} (h' : Passes s' w' r) : Passes s w r where
  keeps := h.keeps.trans h'.keeps
  refused := by
    obtain ⟨new, hlog, _⟩ := h.refused
    obtain ⟨more, hmore, hrefused⟩ := h'.refused
    refine ⟨new ++ more, by rw [hmore, hlog, List.append_assoc], fun fault hf => ?_⟩
    obtain ⟨a, ha, hanswer⟩ := hrefused fault hf
    exact ⟨a, List.mem_append_right _ ha, hanswer⟩

/-- Of an answer nothing matters but its fault. -/
theorem Passes.answers {answer : Except Fault τ} {answer' : Except Fault τ'}
    {rest : Intake α × Logged ω α} (h : Passes s w (answer, rest))
    (hf : faultOf answer' = faultOf answer) : Passes s w (answer', rest) where
  keeps := h.keeps
  refused := by
    rw [hf]
    exact h.refused

theorem forward_passes (k : Outlet ω α) (s : Intake α) (w : Logged ω α) :
    Passes s w (s.forward k.logged w) := by
  obtain ⟨answer, n, w', new, hrelease, hlog, _, hend⟩ := s.merger.release_logged k w
  have hstanding := Merger.standing_take n s.merger
  rw [forward, hrelease]
  rcases hend with ⟨fault, rfl, hrefusal⟩ | ⟨rfl, _, _⟩
  · refine ⟨⟨rfl, rfl, hstanding⟩, new, hlog, fun fault' hf => ?_⟩
    cases hf
    exact hrefusal
  · exact ⟨⟨rfl, rfl, hstanding⟩, new, hlog, by simp [faultOf]⟩

theorem finish_passes (k : Outlet ω α) (s : Intake α) (w : Logged ω α) :
    Passes s w (s.finish k.logged w) := by
  rw [finish]
  split
  · exact ⟨⟨rfl, rfl, fun _ => rfl⟩, [], (List.append_nil _).symm, by simp [faultOf]⟩
  · refine ⟨⟨rfl, rfl, fun _ => rfl⟩, [⟨.flush, (k.flush w.state).1⟩], rfl, fun fault hf => ?_⟩
    refine ⟨_, List.mem_singleton_self _, ?_⟩
    change faultOf (k.flush w.state).1 = some fault at hf
    cases hr : (k.flush w.state).1 <;> simp_all [faultOf]

theorem wrapUp_passes (k : Outlet ω α) (p : PartitionId) (s : Intake α) (w : Logged ω α) :
    Passes s w (s.wrapUp k.logged p w) := by
  have hforward := forward_passes k s w
  rcases s.wrapUp_cases k.logged p w with ⟨fault, rest, hf, he⟩ | ⟨n, s', w', hf, ⟨_, he⟩ | he⟩ <;>
    rw [hf] at hforward <;> rw [he]
  · exact hforward.answers rfl
  · exact (hforward.trans (finish_passes k s' w')).answers (faultOf_map _ _)
  · exact hforward.answers rfl

/-- An open partition is closed or not, according to what it holds. -/
theorem tryClose_passes {b : Bool} (hs : s.merger.standing p = some b) (k : Outlet ω α) (i : Nat)
    (w : Logged ω α) :
    Passes s w (s.tryClose k.logged i p w) ∨
      Passes (s.retire i p) w (s.tryClose k.logged i p w) := by
  obtain ⟨lane, hl, _⟩ := Merger.standing_eq_some.1 hs
  rcases s.tryClose_cases k.logged w i p with ⟨hnone, _⟩ | ⟨_, hclose⟩ | ⟨_, _, _, hclose⟩
  · cases hl.symm.trans hnone
  · left
    rw [hclose]
    exact (forward_passes k s w).answers (faultOf_map _ _)
  · right
    rw [hclose]
    exact wrapUp_passes k p _ w

/-- The place of the input that the next turn reads, if it reads one, and what reading gives. -/
def reading? (s : Intake α) : Option (Nat × Reading α) :=
  match s.poll.1 with
  | .read i _ reading _ => some (i, reading)
  | _ => none

theorem reading?_of_idle (h : s.nextLive = none) : s.reading? = none := by
  rw [reading?, poll_of_idle h]

theorem reading?_of_exhausted {inlet : Inlet α} (h : s.nextLive = some (i, ⟨p, .exhausted inlet⟩)) :
    s.reading? = none := by
  rw [reading?, poll_of_exhausted h]

theorem reading?_of_reading {inlet : Inlet α} (h : s.nextLive = some (i, ⟨p, .reading inlet⟩)) :
    s.reading? = some (i, inlet.read.1) := by
  rw [reading?, poll_of_reading h]

end Intake

/-- What a turn may make of the phase that it finds, given what it reads. -/
inductive Phase.Becomes : Phase α → Option (Reading α) → Phase α → Prop where
  | reads {inlet : Inlet α} (more : inlet.read.1 ≠ .ok none) :
      Becomes (.reading inlet) (some inlet.read.1) (.reading inlet.read.2)
  | ends {inlet : Inlet α} (last : inlet.read.1 = .ok none) :
      Becomes (.reading inlet) (some inlet.read.1) (.exhausted inlet.read.2)
  | closes {inlet : Inlet α} (last : inlet.read.1 = .ok none) :
      Becomes (.reading inlet) (some inlet.read.1) .closed
  | waits {inlet : Inlet α} : Becomes (.exhausted inlet) none (.exhausted inlet)
  | leaves {inlet : Inlet α} : Becomes (.exhausted inlet) none .closed

namespace Intake

variable {s s' : Intake α} {p : PartitionId} {i : Nat} {w : Logged ω α}

/-- What a turn does to the slot at `i`: reading and closing go along with what becomes of the
partition. -/
structure Works (s s' : Intake α) (i : Nat) (p : PartitionId) (phase : Phase α)
    (read : Option (Reading α)) (phase' : Phase α) : Prop where
  found : s.slots[i]? = some ⟨p, phase⟩
  reading : s.reading? = read.map (i, ·)
  becomes : phase.Becomes read phase'
  slots : s'.slots = s.slots.set i ⟨p, phase'⟩
  closed : s'.stats.closed =
    s.stats.closed + if (⟨p, phase'⟩ : Slot α).isClosed then 1 else 0
  standing : s'.merger.standing p = (⟨p, phase'⟩ : Slot α).standing
  frame : ∀ q, q ≠ p → s'.merger.standing q = s.merger.standing q

variable [Record α] {policy : Policy α} {record : α}

/-- Where the fault of a turn can come from: the order of records, the rule for their timestamps,
the input that is read, or the outlet. -/
inductive Cause (policy : Policy α) (s : Intake α) (new : List (Attempt α)) (fault : Fault) :
    Prop where
  | order {p : PartitionId} {previous ts : Timestamp} (back : fault = .outOfOrder p previous ts)
  | rule {i : Nat} {record : α} (read : s.reading? = some (i, .ok (some record)))
      (failed : policy.rule.timestamp record = .error fault)
  | input {i : Nat} (read : s.reading? = some (i, .error fault))
  | outlet {a : Attempt α} (tried : a ∈ new) (refused : a.answer = .error fault)

/-- What a turn comes to. -/
structure Turned (policy : Policy α) (s : Intake α) (w : Logged ω α)
    (r : Except Fault Turn × (Intake α × Logged ω α)) : Prop where
  change : (s.reading? = none ∧ Keeps s r.2.1) ∨
    ∃ i p phase read phase', Works s r.2.1 i p phase read phase'
  cause : ∃ new, r.2.2.attempts = w.attempts ++ new ∧
    ∀ fault ∈ faultOf r.1, Cause policy s new fault

theorem Passes.cause {r : Except Fault Turn × (Intake α × Logged ω α)} (h : Passes s' w r)
    (policy : Policy α) (s : Intake α) :
    ∃ new, r.2.2.attempts = w.attempts ++ new ∧
      ∀ fault ∈ faultOf r.1, Cause policy s new fault := by
  obtain ⟨new, hlog, hrefused⟩ := h.refused
  refine ⟨new, hlog, fun fault hf => ?_⟩
  obtain ⟨a, ha, hanswer⟩ := hrefused fault hf
  exact .outlet ha hanswer

omit [Record α] in
/-- Trying to close the input at `i`, once its partition is disabled, is all that a turn does to its
slot. -/
theorem Works.of_tryClose (s₁ : Intake α) (read : Option (Reading α)) {phase : Phase α}
    {inlet : Inlet α} {r : Except Fault Turn × (Intake α × Logged ω α)}
    (found : s.slots[i]? = some ⟨p, phase⟩) (reading : s.reading? = read.map (i, ·))
    (waits : phase.Becomes read (.exhausted inlet)) (closes : phase.Becomes read .closed)
    (slots : s₁.slots = s.slots.set i ⟨p, .exhausted inlet⟩)
    (closed : s₁.stats.closed = s.stats.closed) (standing : s₁.merger.standing p = some false)
    (frame : ∀ q, q ≠ p → s₁.merger.standing q = s.merger.standing q)
    (h : Passes s₁ w r ∨ Passes (s₁.retire i p) w r) :
    ∃ i p phase read phase', Works s r.2.1 i p phase read phase' := by
  rcases h with h | h
  · exact ⟨i, p, phase, read, .exhausted inlet, found, reading, waits, h.keeps.slots.trans slots,
      h.keeps.closed.trans closed, (h.keeps.standing p).trans standing,
      fun q hq => (h.keeps.standing q).trans (frame q hq)⟩
  · refine ⟨i, p, phase, read, .closed, found, reading, closes, ?_, ?_, ?_, fun q hq => ?_⟩
    · rw [h.keeps.slots, retire, slots, List.set_set]
    · rw [h.keeps.closed, retire, closed]
      rfl
    · rw [h.keeps.standing, retire, Merger.standing_shut, if_pos rfl]
      rfl
    · rw [h.keeps.standing, retire, Merger.standing_shut, if_neg hq, frame q hq]

/-- Once a record is taken, nothing but a refusal can go wrong. -/
theorem accept_passes {m : Merger α} (ha : s.merger.add policy p record = (.ok (), m)) (k : Outlet ω α)
    (w : Logged ω α) :
    Passes (s.takeIn m) w (s.accept policy k.logged p record w) := by
  rw [accept_of_add ha]
  exact (forward_passes k (s.takeIn m) w).answers (faultOf_map _ _)

theorem accept_works (hs : s.merger.standing p = some b) (policy : Policy α) (k : Outlet ω α)
    (record : α) (w : Logged ω α) :
    Keeps s (s.accept policy k.logged p record w).2.1 ∧
      ∃ new, (s.accept policy k.logged p record w).2.2.attempts = w.attempts ++ new ∧
        ∀ fault ∈ faultOf (s.accept policy k.logged p record w).1,
          policy.rule.timestamp record = .error fault ∨
          (∃ previous ts, fault = .outOfOrder p previous ts) ∨
          ∃ a ∈ new, a.answer = .error fault := by
  obtain ⟨lane, hl, _⟩ := Merger.standing_eq_some.1 hs
  rcases s.accept_cases policy k.logged p record w with
    ⟨d, _, haccept⟩ | ⟨fault, _, ha, haccept⟩ | ⟨m, ha, _⟩
  · rw [haccept]
    exact ⟨⟨rfl, rfl, fun _ => rfl⟩, [], (List.append_nil _).symm, by simp [faultOf, skip]⟩
  · have hcause := Merger.add_eq_error hl ha
    rw [haccept]
    refine ⟨⟨rfl, rfl, fun _ => rfl⟩, [], (List.append_nil _).symm, fun fault' hf => ?_⟩
    cases hf
    exact hcause.imp_right .inl
  · have hpasses := accept_passes ha k w
    obtain ⟨lane, ts, _, _, _, rfl⟩ := Merger.add_eq_ok_iff.1 ha
    have harrive : Keeps s (s.takeIn (s.merger.arrive ⟨p, ts, record⟩)) :=
      ⟨rfl, rfl, fun q => Merger.standing_arrive⟩
    obtain ⟨new, hlog, hrefused⟩ := hpasses.refused
    exact ⟨harrive.trans hpasses.keeps, new, hlog,
      fun fault hf => .inr (.inr (hrefused fault hf))⟩

omit [Record α] in
theorem exhaust_of_standing {b : Bool} (hs : s.merger.standing p = some b) (k : Outlet ω α)
    (i : Nat) (inlet : Inlet α) (w : ω) : s.exhaust k i p inlet w =
      { s with
        slots := s.slots.set i ⟨p, .exhausted inlet⟩,
        merger := s.merger.unblock p }.tryClose k i p w := by
  obtain ⟨lane, hl, _⟩ := Merger.standing_eq_some.1 hs
  have hd : s.merger.disable p = (.ok (), s.merger.unblock p) :=
    Merger.disable_eq_ok_iff.2 ⟨Option.isSome_of_eq_some hl, rfl⟩
  simp only [exhaust, hd]

omit [Record α] in
/-- Unless the input is at its end, its slot is still read and its partition enabled. -/
theorem Works.of_more {inlet : Inlet α} {s' : Intake α}
    (hslot : s.slots[i]? = some ⟨p, .reading inlet⟩)
    (hreading : s.reading? = some (i, inlet.read.1)) (hs : s.merger.standing p = some true)
    (more : inlet.read.1 ≠ .ok none) (h : Keeps (s.visit i ⟨p, .reading inlet.read.2⟩) s') :
    ∃ i p phase read phase', Works s s' i p phase read phase' :=
  ⟨i, p, .reading inlet, some inlet.read.1, .reading inlet.read.2, hslot, hreading, .reads more,
    h.slots, h.closed, (h.standing p).trans hs, fun q _ => h.standing q⟩

/-- As long as the partition of an input that is read is enabled, what follows goes wrong for a
cause only. -/
theorem respond_turned {inlet : Inlet α} (hslot : s.slots[i]? = some ⟨p, .reading inlet⟩)
    (hreading : s.reading? = some (i, inlet.read.1)) (hs : s.merger.standing p = some true)
    (policy : Policy α) (k : Outlet ω α) (w : Logged ω α) :
    Turned policy s w ((s.visit i ⟨p, .reading inlet.read.2⟩).respond policy k.logged
      (.read i p inlet.read.1 inlet.read.2) w) := by
  have hvisit : (s.visit i ⟨p, .reading inlet.read.2⟩).merger.standing p = some true := hs
  have hmore : ∀ {s'}, inlet.read.1 ≠ .ok none → Keeps (s.visit i ⟨p, .reading inlet.read.2⟩) s' →
      ∃ i p phase read phase', Works s s' i p phase read phase' :=
    Works.of_more hslot hreading hs
  have hunblocked : (s.merger.unblock p).standing p = some false := by
    rw [Merger.standing_unblock, if_pos rfl, hs]
    rfl
  cases hr : inlet.read.1 with
  | ok given =>
    cases given with
    | some record =>
      obtain ⟨hkeeps, new, hlog, hcause⟩ := accept_works hvisit policy k record w
      refine ⟨.inr (hmore (by simp [hr]) hkeeps), new, hlog, fun fault hf => ?_⟩
      rcases hcause fault hf with hrule | ⟨_, _, hback⟩ | ⟨a, ha, hanswer⟩
      · exact .rule (hr ▸ hreading) hrule
      · exact .order hback
      · exact .outlet ha hanswer
    | none =>
      let ended : Intake α := { s.visit i ⟨p, .reading inlet.read.2⟩ with
        slots := (s.visit i ⟨p, .reading inlet.read.2⟩).slots.set i ⟨p, .exhausted inlet.read.2⟩,
        merger := s.merger.unblock p }
      have hclose := tryClose_passes (s := ended) hunblocked k i w
      rw [respond, exhaust_of_standing hvisit]
      refine ⟨.inr (Works.of_tryClose ended (some inlet.read.1) hslot hreading (.ends hr)
        (.closes hr) (List.set_set ..) rfl hunblocked (fun q hq => ?_) hclose),
        hclose.elim (·.cause policy s) (·.cause policy s)⟩
      exact (Merger.standing_unblock s.merger p q).trans (if_neg hq)
  | error fault =>
    have hcause : Cause policy s [] fault := .input (hr ▸ hreading)
    cases fault with
    | malformed d =>
      refine ⟨.inr (hmore (by simp [hr]) ⟨rfl, rfl, fun _ => rfl⟩), [],
        (List.append_nil _).symm, ?_⟩
      simp [faultOf, skip, respond]
    | _ =>
      refine ⟨.inr (hmore (by simp [hr]) ⟨rfl, rfl, fun _ => rfl⟩), [], (List.append_nil _).symm,
        fun fault' hf => ?_⟩
      cases hf
      exact hcause

/-- As long as the partitions stand as the slots say, a turn goes wrong for a cause only. -/
theorem turn_turned (aligned : ∀ slot ∈ s.slots, s.merger.standing slot.partition = slot.standing)
    (policy : Policy α) (k : Outlet ω α) (w : Logged ω α) :
    Turned policy s w (s.turn policy k.logged w) := by
  cases h : s.nextLive with
  | none =>
    have hnone := reading?_of_idle h
    have hturn : Passes s w (s.turn policy k.logged w) := by
      rw [turn_of_idle h]
      exact (finish_passes k s w).answers (faultOf_map _ _)
    exact ⟨.inl ⟨hnone, hturn.keeps⟩, hturn.cause policy s⟩
  | some found =>
    obtain ⟨i, p, phase⟩ := found
    obtain ⟨_, _, _, hslot, hopen, _⟩ := nextLive_eq_some h
    have hs : s.merger.standing p = (⟨p, phase⟩ : Slot α).standing :=
      aligned _ (List.mem_of_getElem? hslot)
    cases phase with
    | closed => cases hopen
    | exhausted inlet =>
      have hnone := reading?_of_exhausted h
      let passed : Intake α := { s with cursor := (i + 1) % s.slots.length }
      have hsame : s.slots = s.slots.set i ⟨p, .exhausted inlet⟩ := by
        obtain ⟨hi, he⟩ := List.getElem?_eq_some_iff.1 hslot
        rw [← he, List.set_getElem_self]
      have hclose := tryClose_passes (s := passed) hs k i w
      rw [turn_of_exhausted h]
      exact ⟨.inr (Works.of_tryClose passed none hslot hnone .waits .leaves hsame rfl hs
          (fun _ _ => rfl) hclose),
        hclose.elim (·.cause policy s) (·.cause policy s)⟩
    | reading inlet =>
      rw [turn_of_reading h]
      exact respond_turned hslot (reading?_of_reading h) hs policy k w

section Views

variable {k : Outlet ω α} {view : ω' → ω} {k' : Outlet ω' α}

omit [Record α] in
theorem forward_seen (h : k.ShownBy view k') (s : Intake α) (w : ω') :
    s.forward k (view w) = Outlet.seen view (s.forward k' w) := by
  rw [forward, forward, Merger.release_seen h]
  rcases s.merger.release k' w with ⟨_ | _, _⟩ <;> rfl

omit [Record α] in
theorem finish_seen (h : k.ShownBy view k') (s : Intake α) (w : ω') :
    s.finish k (view w) = Outlet.seen view (s.finish k' w) := by
  rw [finish, finish, h.flush]
  split <;> rfl

omit [Record α] in
theorem wrapUp_seen (h : k.ShownBy view k') (p : PartitionId) (s : Intake α) (w : ω') :
    s.wrapUp k p (view w) = Outlet.seen view (s.wrapUp k' p w) := by
  rw [wrapUp, wrapUp, forward_seen h]
  rcases s.forward k' w with ⟨_ | _, s', w'⟩
  · rfl
  · simp only [Outlet.seen, finish_seen h]
    split
    · rcases s'.finish k' w' with ⟨_ | _, _⟩ <;> rfl
    · rfl

omit [Record α] in
theorem tryClose_seen (h : k.ShownBy view k') (i : Nat) (p : PartitionId) (s : Intake α) (w : ω') :
    s.tryClose k i p (view w) = Outlet.seen view (s.tryClose k' i p w) := by
  simp only [tryClose, forward_seen h, wrapUp_seen h]
  split
  · rfl
  · rcases Intake.forward k' _ w with ⟨_ | _, _⟩ <;> rfl
  · rfl

theorem accept_seen (h : k.ShownBy view k') (policy : Policy α) (p : PartitionId) (record : α)
    (s : Intake α) (w : ω') :
    s.accept policy k p record (view w) = Outlet.seen view (s.accept policy k' p record w) := by
  simp only [accept, forward_seen h]
  split
  · rfl
  · rfl
  · rcases Intake.forward k' _ w with ⟨_ | _, _⟩ <;> rfl

theorem respond_seen (h : k.ShownBy view k') (policy : Policy α) (found : Poll α) (s : Intake α)
    (w : ω') : s.respond policy k found (view w) =
      Outlet.seen view (s.respond policy k' found w) := by
  simp only [respond, exhaust, finish_seen h, tryClose_seen h, accept_seen h]
  split
  · rcases s.finish k' w with ⟨_ | _, _⟩ <;> rfl
  · rfl
  · rfl
  · split <;> rfl
  · rfl
  · rfl

theorem turn_seen (h : k.ShownBy view k') (policy : Policy α) (s : Intake α) (w : ω') :
    s.turn policy k (view w) = Outlet.seen view (s.turn policy k' w) :=
  respond_seen h policy s.poll.1 s.poll.2 w

end Views

end Intake

end TimeMerge
