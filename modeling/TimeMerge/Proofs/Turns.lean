import TimeMerge.Proofs.Tracking

/-!
# Turns over an outlet that refuses nothing

With such an outlet a turn cannot go wrong as long as the inputs are in order. Between two turns nothing
is left that could go, and what the outlet has seen is what the books say was given out, with a flush
behind it once everything is closed.
-/
namespace TimeMerge

namespace Intake

variable {s : Intake α} {i : Nat} {p : PartitionId}

/-- Marks the flush as passed on. -/
def conclude (s : Intake α) : Intake α := { s with flushed := true }

/-- The flush, unless it was passed on before. -/
def dueFlush (s : Intake α) : List (Signal α) := if s.flushed then [] else [.flush]

/-- What goes when whatever may go is let go. -/
def outflow (s : Intake α) : List (Signal α) := s.merger.drain.1.map .record

theorem flushed_settle : s.settle.flushed = s.flushed := rfl

theorem isFinished_iff : s.isFinished = true ↔ ∀ p, s.merger.standing p = none := by
  rw [isFinished, beq_iff_eq, Merger.openCount_eq_zero_iff]

section Operations

variable {k : Outlet ω α} {w : ω}

theorem forward_of_neverFails (hk : k.NeverFails w) (s : Intake α) :
    s.forward k w = (.ok s.merger.drain.1.length, (s.settle, k.replay s.outflow w)) := by
  simp only [forward, Merger.release_of_neverFails hk]
  rfl

theorem finish_of_neverFails (hk : k.NeverFails w) (s : Intake α) :
    s.finish k w = (.ok (), (s.conclude, k.replay s.dueFlush w)) := by
  simp only [finish, dueFlush, hk.flush]
  cases h : s.flushed with
  | false => rfl
  | true =>
    have hs : s.conclude = s := by
      rw [conclude, ← h]
    rw [hs]
    rfl

theorem tryClose_of_queued (hk : k.NeverFails w) (h : s.merger.queued p ≠ []) (i : Nat) :
    s.tryClose k i p w = (.ok (.pending p), (s.settle, k.replay s.outflow w)) := by
  have hc : s.merger.close p = (.ok false, s.merger) := Merger.close_eq_false_iff.2 ⟨h, rfl⟩
  simp only [tryClose, hc, forward_of_neverFails hk]

theorem tryClose_of_drained (hk : k.NeverFails w) {lane : Lane α}
    (hl : s.merger.lane? p = some lane) (hq : lane.queue = []) (i : Nat) :
    s.tryClose k i p w = (.ok (.closed p),
      if (s.retire i p).settle.isFinished then
        ((s.retire i p).settle.conclude,
          k.replay ((s.retire i p).outflow ++ (s.retire i p).settle.dueFlush) w)
      else ((s.retire i p).settle, k.replay (s.retire i p).outflow w)) := by
  have hc : s.merger.close p = (.ok true, s.merger.shut p) :=
    Merger.close_eq_true_iff.2 ⟨lane, hl, hq, rfl⟩
  have hfinish : ∀ cs (s : Intake α), s.finish k (k.replay cs w) =
      (.ok (), (s.conclude, k.replay s.dueFlush (k.replay cs w))) :=
    fun cs => finish_of_neverFails (hk.replay cs)
  simp only [tryClose, hc, wrapUp, forward_of_neverFails hk, hfinish]
  change (if (s.retire i p).settle.isFinished = true then _ else _) = _
  cases (s.retire i p).settle.isFinished with
  | false => rfl
  | true =>
    rw [Outlet.replay_append]
    rfl

variable (k w) in
/-- An input whose partition is not open is none to close; one that has records queued waits; any other
is closed, and what that sets free goes. -/
theorem tryClose_cases (i : Nat) (p : PartitionId) (s : Intake α) :
    (s.merger.lane? p = none ∧ s.tryClose k i p w = (.error (.partitionNotOpen p), (s, w))) ∨
    (s.merger.queued p ≠ [] ∧ s.tryClose k i p w =
      ((s.forward k w).1.map fun _ => .pending p, (s.forward k w).2)) ∨
    ∃ lane, s.merger.lane? p = some lane ∧ lane.queue = [] ∧
      s.tryClose k i p w = (s.retire i p).wrapUp k p w := by
  rcases hc : s.merger.close p with ⟨fault | done, m⟩
  · obtain ⟨hl, rfl, rfl⟩ := Merger.close_eq_error_iff.1 hc
    exact .inl ⟨hl, by rw [tryClose, hc]⟩
  · cases done with
    | false =>
      obtain ⟨hq, rfl⟩ := Merger.close_eq_false_iff.1 hc
      refine .inr (.inl ⟨hq, ?_⟩)
      rcases hf : s.forward k w with ⟨_ | _, _⟩ <;> simp only [tryClose, hc, hf, Except.map]
    | true =>
      obtain ⟨lane, hl, hq, rfl⟩ := Merger.close_eq_true_iff.1 hc
      exact .inr (.inr ⟨lane, hl, hq, by rw [tryClose, hc]; rfl⟩)

/-- Unless an act that is handed on is refused, what closing a partition comes to is what the flush comes
to if it is due, and else nothing. -/
theorem wrapUp_cases (k : Outlet ω α) (p : PartitionId) (s : Intake α) (w : ω) :
    (∃ fault rest, s.forward k w = (.error fault, rest) ∧ s.wrapUp k p w = (.error fault, rest)) ∨
    ∃ n s' w', s.forward k w = (.ok n, (s', w')) ∧
      (s'.isFinished = true ∧ s.wrapUp k p w =
          ((s'.finish k w').1.map fun () => .closed p, (s'.finish k w').2) ∨
        s.wrapUp k p w = (.ok (.closed p), (s', w'))) := by
  rcases hf : s.forward k w with ⟨fault | n, s', w'⟩
  · exact .inl ⟨fault, _, rfl, by simp only [wrapUp, hf]⟩
  · refine .inr ⟨n, s', w', rfl, ?_⟩
    cases hfinished : s'.isFinished with
    | false => exact .inr (by simp only [wrapUp, hf, hfinished, Bool.false_eq_true, if_false])
    | true =>
      refine .inl ⟨rfl, ?_⟩
      rcases he : s'.finish k w' with ⟨_ | _, _⟩ <;>
        simp only [wrapUp, hf, hfinished, if_true, he, Except.map]

/-- Where closing a partition goes well, it is closed or still has to wait. -/
theorem tryClose_answer {turn : Turn} (h : (s.tryClose k i p w).1 = .ok turn) :
    turn = .pending p ∨ turn = .closed p := by
  rcases s.tryClose_cases k w i p with ⟨_, hclose⟩ | ⟨_, hclose⟩ | ⟨_, _, _, hclose⟩ <;>
    rw [hclose] at h
  · cases h
  · cases hf : (s.forward k w).1 <;> rw [hf] at h <;> cases h
    exact .inl rfl
  · right
    rcases (s.retire i p).wrapUp_cases k p w with ⟨_, _, _, he⟩ | ⟨_, s', w', _, ⟨_, he⟩ | he⟩ <;>
      rw [he] at h
    · cases h
    · cases hf : (s'.finish k w').1 <;> rw [hf] at h <;> cases h
      rfl
    · cases h
      rfl

end Operations

variable [Record α]

/-- Between two turns: the intake is in step, nothing is left that could go, and `calls` is what the
outlet has seen. -/
structure Rests (policy : Policy α) (inlets : List (PartitionId × Inlet α)) (l : Ledger α)
    (s : Intake α) (calls : List (Signal α)) : Prop extends Tracks policy inlets l s where
  settled : l.merger.departure? = none
  forwarded : s.stats.forwarded = l.released.length
  seen : calls = l.signals ++ if s.flushed then [.flush] else []
  done : s.flushed = true → s.isFinished = true

variable {policy : Policy α} {inlets : List (PartitionId × Inlet α)} {l : Ledger α}
  {calls : List (Signal α)} {slot : Slot α}

theorem rests_ofInlets (h : Tame policy inlets) :
    Rests policy inlets (.opening (inlets.map (·.1))) (ofInlets inlets) [] where
  toTracks := tracks_ofInlets h
  settled := Merger.departure?_ofPartitions _
  forwarded := rfl
  seen := rfl
  done := fun h => by cases h

/-- While there is a live slot, the flush is still due. -/
theorem Rests.unflushed (r : Rests policy inlets l s calls) (hslot : s.slots[i]? = some slot)
    (hlive : slot.isClosed = false) : s.flushed = false ∧ calls = l.signals := by
  have hf : s.flushed = false := by
    cases hf : s.flushed with
    | false => rfl
    | true =>
      obtain ⟨x, _, hx⟩ := r.exists_inlet hslot
      have hnone := isFinished_iff.1 (r.done hf) x.1
      rw [← r.merger, hx.aligned, Slot.standing_eq_none_iff, hlive] at hnone
      cases hnone
  refine ⟨hf, ?_⟩
  rw [r.seen, hf]
  exact List.append_nil _

theorem Rests.conclude (r : Rests policy inlets l s calls) (hfin : s.isFinished = true) :
    Rests policy inlets l s.conclude (calls ++ s.dueFlush) where
  toTracks := r.toTracks.of_eq rfl rfl rfl
  settled := r.settled
  forwarded := r.forwarded
  seen := by
    rw [r.seen, dueFlush, Intake.conclude]
    cases s.flushed <;> simp
  done := fun _ => hfin

/-- Whatever was let go has been handed on and counted. -/
theorem Tracks.rests_settle (t : Tracks policy inlets l s) (hf : s.flushed = false)
    (hw : s.stats.forwarded = l.released.length) :
    Rests policy inlets l.drain s.settle (l.signals ++ s.outflow) where
  toTracks := t.settle
  settled := by
    rw [Ledger.merger_drain]
    exact l.merger.departure?_drain
  forwarded := by rw [Ledger.length_released_drain, Intake.settle, hw, t.merger]
  seen := by
    rw [Ledger.signals_drain, outflow, t.merger, flushed_settle, hf]
    exact (List.append_nil _).symm
  done := by
    intro h
    rw [flushed_settle, hf] at h
    cases h

/-- What a turn comes to with every outlet that refuses nothing. -/
def TurnsTo (policy : Policy α) (s : Intake α) (t : Turn) (s' : Intake α)
    (new : List (Signal α)) : Prop :=
  ∀ {ω : Type} (k : Outlet ω α) (w : ω), k.NeverFails w →
    s.turn policy k w = (.ok t, (s', k.replay new w))

/-- Trying to close an input at its end either finds it drained and closes it, or leaves its slot as it
is. -/
theorem Tracks.tryClose (t : Tracks policy inlets l s) (ho : Tame policy inlets)
    {inlet : Inlet α} (hslot : s.slots[i]? = some ⟨p, .exhausted inlet⟩) (hf : s.flushed = false)
    (hw : s.stats.forwarded = l.released.length) :
    ∃ turn l' s' new b, turn ≠ .finished ∧
      (∀ {ω : Type} (k : Outlet ω α) (w : ω), k.NeverFails w →
        s.tryClose k i p w = (.ok turn, (s', k.replay new w))) ∧
      Rests policy inlets l' s' (l.signals ++ new) ∧
      s'.slots = s.slots.set i b ∧ s'.cursor = s.cursor ∧ b.isReading = false ∧
      (s.merger.queued p = [] → b.isClosed = true) := by
  obtain ⟨lane, hl, _⟩ := t.exists_lane hslot rfl
  by_cases hq : lane.queue = []
  · have hrests := (t.retire ho hslot hl hq).rests_settle hf hw
    cases hfin : (s.retire i p).settle.isFinished with
    | true =>
      refine ⟨.closed p, (l.shut p).drain, (s.retire i p).settle.conclude,
        (s.retire i p).outflow ++ (s.retire i p).settle.dueFlush, ⟨p, .closed⟩, Turn.noConfusion,
        fun k w hk => ?_, ?_, rfl, rfl, rfl, fun _ => rfl⟩
      · rw [tryClose_of_drained hk hl hq, if_pos hfin]
      · rw [← List.append_assoc]
        exact hrests.conclude hfin
    | false =>
      refine ⟨.closed p, (l.shut p).drain, (s.retire i p).settle, (s.retire i p).outflow, ⟨p, .closed⟩,
        Turn.noConfusion, fun k w hk => ?_, hrests, rfl, rfl, rfl, fun _ => rfl⟩
      rw [tryClose_of_drained hk hl hq, if_neg (by simp [hfin])]
  · have hne : s.merger.queued p ≠ [] := by
      rw [Merger.queued_of_lane? hl]
      simpa using hq
    have hsame : s.slots = s.slots.set i ⟨p, .exhausted inlet⟩ := by
      obtain ⟨hi, he⟩ := List.getElem?_eq_some_iff.1 hslot
      rw [← he, List.set_getElem_self]
    exact ⟨.pending p, l.drain, s.settle, s.outflow, ⟨p, .exhausted inlet⟩, Turn.noConfusion,
      fun k w hk => tryClose_of_queued hk hne i, t.rests_settle hf hw, hsame, rfl, rfl,
      fun h => absurd h hne⟩

section Turns

variable {inlet : Inlet α} {rest : List (Reading α)} {record : α}

omit [Record α] in
theorem poll_of_idle (h : s.nextLive = none) : s.poll = (.idle, s) := by
  simp only [poll, h]

omit [Record α] in
theorem poll_of_exhausted (h : s.nextLive = some (i, ⟨p, .exhausted inlet⟩)) :
    s.poll = (.ended i p, { s with cursor := (i + 1) % s.slots.length }) := by
  simp only [poll, h]

omit [Record α] in
theorem poll_of_reading (h : s.nextLive = some (i, ⟨p, .reading inlet⟩)) :
    s.poll = (.read i p inlet.read.1 inlet.read.2, s.visit i ⟨p, .reading inlet.read.2⟩) := by
  simp only [poll, h, visit]

omit [Record α] in
/-- Only an input that is next in the round is read. -/
theorem nextLive_of_read {reading : Reading α} {left : Inlet α}
    (h : s.poll.1 = .read i p reading left) :
    ∃ inlet, s.nextLive = some (i, ⟨p, .reading inlet⟩) ∧ inlet.read = (reading, left) := by
  cases hn : s.nextLive with
  | none =>
    rw [poll_of_idle hn] at h
    cases h
  | some found =>
    obtain ⟨j, q, phase⟩ := found
    cases phase with
    | closed => simp [poll, hn] at h
    | exhausted inlet =>
      rw [poll_of_exhausted hn] at h
      cases h
    | reading inlet =>
      rw [poll_of_reading hn] at h
      cases h
      exact ⟨inlet, rfl, rfl⟩

theorem respond_idle (policy : Policy α) (k : Outlet ω α) (s : Intake α) (w : ω) :
    s.respond policy k .idle w =
      ((s.finish k w).1.map fun () => .finished, (s.finish k w).2) := by
  rcases hf : s.finish k w with ⟨_ | _, _⟩ <;> simp only [respond, hf, Except.map]

theorem turn_of_idle (h : s.nextLive = none) (k : Outlet ω α) (w : ω) : s.turn policy k w =
    ((s.finish k w).1.map fun () => .finished, (s.finish k w).2) := by
  rw [turn, poll_of_idle h]
  exact s.respond_idle policy k w

theorem turn_of_exhausted (h : s.nextLive = some (i, ⟨p, .exhausted inlet⟩)) (k : Outlet ω α)
    (w : ω) : s.turn policy k w =
      { s with cursor := (i + 1) % s.slots.length }.tryClose k i p w := by
  rw [turn, poll_of_exhausted h]
  rfl

theorem turn_of_reading (h : s.nextLive = some (i, ⟨p, .reading inlet⟩)) (policy : Policy α)
    (k : Outlet ω α) (w : ω) : s.turn policy k w =
      (s.visit i ⟨p, .reading inlet.read.2⟩).respond policy k
        (.read i p inlet.read.1 inlet.read.2) w := by
  rw [turn, poll_of_reading h]

theorem turn_of_end {m : Merger α} (h : s.nextLive = some (i, ⟨p, .reading inlet⟩))
    (hr : inlet.upcoming = []) (hf : inlet.failure = none) (hd : s.merger.disable p = (.ok (), m))
    (k : Outlet ω α) (w : ω) : s.turn policy k w =
      { s.visit i ⟨p, .exhausted inlet⟩ with merger := m }.tryClose k i p w := by
  rw [turn_of_reading h]
  simp only [Inlet.read, hr, Inlet.atEnd, hf, respond, exhaust, visit, hd, List.set_set]

theorem turn_of_record (h : s.nextLive = some (i, ⟨p, .reading inlet⟩))
    (hr : inlet.upcoming = .ok (some record) :: rest) (k : Outlet ω α) (w : ω) :
    s.turn policy k w = (s.advance i p inlet rest).accept policy k p record w := by
  rw [turn_of_reading h]
  simp only [Inlet.read, hr, respond, advance]

theorem turn_of_malformed {d : Defect} (h : s.nextLive = some (i, ⟨p, .reading inlet⟩))
    (hr : inlet.upcoming = .error (.malformed d) :: rest) (k : Outlet ω α) (w : ω) :
    s.turn policy k w = (s.advance i p inlet rest).skip p w := by
  rw [turn_of_reading h]
  simp only [Inlet.read, hr, respond, advance]

/-- Once a record is taken, what may go then goes. -/
theorem accept_of_add {m : Merger α} (h : s.merger.add policy p record = (.ok (), m))
    (k : Outlet ω α) (w : ω) : s.accept policy k p record w =
      (((s.takeIn m).forward k w).1.map .forwarded, ((s.takeIn m).forward k w).2) := by
  rcases hf : (s.takeIn m).forward k w with ⟨_ | _, _⟩ <;>
    simp only [takeIn] at hf <;> simp only [accept, h, hf, Except.map]

theorem accept_of_ok {k : Outlet ω α} {w : ω} (hk : k.NeverFails w) {m : Merger α}
    (h : s.merger.add policy p record = (.ok (), m)) :
    s.accept policy k p record w = (.ok (.forwarded m.drain.1.length),
      ((s.takeIn m).settle, k.replay (m.drain.1.map .record) w)) := by
  rw [accept_of_add h, forward_of_neverFails hk]
  rfl

theorem accept_of_error {fault : Fault}
    (h : s.merger.add policy p record = (.error fault, s.merger)) (worse : ∀ d, fault ≠ .malformed d)
    (k : Outlet ω α) (w : ω) : s.accept policy k p record w = (.error fault, (s, w)) := by
  cases fault with
  | malformed d => exact absurd rfl (worse d)
  | _ => simp only [accept, h]

theorem accept_of_malformed {d : Defect}
    (h : s.merger.add policy p record = (.error (.malformed d), s.merger)) (k : Outlet ω α) (w : ω) :
    s.accept policy k p record w = s.skip p w := by
  simp only [accept, h]

/-- A record is skipped, or refused, or else it is taken and what may go then goes. -/
theorem accept_cases (policy : Policy α) (k : Outlet ω α) (p : PartitionId) (record : α)
    (s : Intake α) (w : ω) :
    (∃ d, s.merger.add policy p record = (.error (.malformed d), s.merger) ∧
      s.accept policy k p record w = s.skip p w) ∨
    (∃ fault, (∀ d, fault ≠ .malformed d) ∧
      s.merger.add policy p record = (.error fault, s.merger) ∧
      s.accept policy k p record w = (.error fault, (s, w))) ∨
    ∃ m, s.merger.add policy p record = (.ok (), m) ∧ s.accept policy k p record w =
      (((s.takeIn m).forward k w).1.map .forwarded, ((s.takeIn m).forward k w).2) := by
  rcases ha : s.merger.add policy p record with ⟨fault | ⟨⟩, m⟩
  · obtain rfl := Merger.eq_of_add_error ha
    by_cases hmild : ∃ d, fault = .malformed d
    · obtain ⟨d, rfl⟩ := hmild
      exact .inl ⟨d, rfl, accept_of_malformed ha k w⟩
    · have worse : ∀ d, fault ≠ .malformed d := fun d he => hmild ⟨d, he⟩
      exact .inr (.inl ⟨fault, worse, rfl, accept_of_error ha worse k w⟩)
  · exact .inr (.inr ⟨m, rfl, accept_of_add ha k w⟩)

end Turns

/-- Once no input is read any more, no partition is enabled, so nothing is held back. -/
theorem Rests.queued_eq_nil (r : Rests policy inlets l s calls)
    (hnone : ∀ slot ∈ s.slots, slot.isReading = false) (p : PartitionId) :
    s.merger.queued p = [] := by
  have hfree : l.merger.blocked ≠ true := by
    intro hb
    obtain ⟨q, hq, _⟩ := Merger.blocked_iff.1 hb
    obtain ⟨slot, hm, hs⟩ := r.exists_slot (Merger.isEnabled_iff_standing.1 hq)
    rw [Slot.standing_eq_true_iff, hnone slot hm] at hs
    cases hs
  rw [← r.merger]
  exact (Merger.departure?_eq_none r.settled).2.resolve_left hfree p

/-- One more turn does not finish yet, comes to rest again and brings the end nearer. -/
def MovesOn (policy : Policy α) (inlets : List (PartitionId × Inlet α)) (s : Intake α)
    (calls : List (Signal α)) : Prop :=
  ∃ turn l' s' new, turn ≠ .finished ∧ TurnsTo policy s turn s' new ∧
    Rests policy inlets l' s' (calls ++ new) ∧ s'.rank < s.rank

/-- An input goes back: what it gives after `previous`, the latest of what was taken for its
partition, has the timestamp `ts`. -/
def Descends (policy : Policy α) (inlets : List (PartitionId × Inlet α)) (l : Ledger α)
    (p : PartitionId) (previous ts : Timestamp) : Prop :=
  policy.checkOrder = true ∧ l.latest? p = some previous ∧ ts < previous ∧
    ∃ x ∈ inlets, x.1 = p ∧ ∃ e es, e.timestamp = ts ∧
      policy.entries p x.2.upcoming = l.acceptedOn p ++ e :: es

theorem not_descends (ho : Orderly policy inlets) {previous ts : Timestamp} :
    ¬Descends policy inlets l p previous ts := by
  rintro ⟨hc, hlast, hlt, x, hx, rfl, e, es, rfl, hs⟩
  exact Int.not_lt.2 (ho.le_next hx hc hs hlast) hlt

/-- The next turn finds an input that goes back, and stops there. -/
def Breaks (policy : Policy α) (inlets : List (PartitionId × Inlet α)) (l : Ledger α)
    (s : Intake α) : Prop :=
  s.flushed = false ∧ ∃ p previous ts s', Descends policy inlets l p previous ts ∧
    ∀ {ω : Type} (k : Outlet ω α) (w : ω),
      s.turn policy k w = (.error (.outOfOrder p previous ts), (s', w))

section Moves

variable {inlet : Inlet α} {reading : Reading α} {rest : List (Reading α)} {record : α}

theorem Rests.movesOn_skip (r : Rests policy inlets l s calls) (ho : Tame policy inlets)
    (h : s.nextLive = some (i, ⟨p, .reading inlet⟩)) (hr : inlet.upcoming = reading :: rest)
    (hk : policy.key? reading = none)
    (hturn : ∀ {ω : Type} (k : Outlet ω α) (w : ω),
      s.turn policy k w = (s.advance i p inlet rest).skip p w) : MovesOn policy inlets s calls := by
  have v := visited_visit h ⟨p, .reading { inlet with upcoming := rest }⟩
  refine ⟨.skipped p, l, (s.advance i p inlet rest).countSkip, [], Turn.noConfusion,
    fun k w _ => hturn k w, ?_, ?_⟩
  · rw [List.append_nil]
    exact ⟨r.toTracks.skip ho v.found hr hk, r.settled, r.forwarded, r.seen, r.done⟩
  · exact v.rank_lt_of_reads_lt (by simp [Slot.reads, hr])

theorem Rests.movesOn_record (r : Rests policy inlets l s calls) (ho : Tame policy inlets)
    (h : s.nextLive = some (i, ⟨p, .reading inlet⟩))
    (hr : inlet.upcoming = .ok (some record) :: rest) :
    MovesOn policy inlets s calls ∨ Breaks policy inlets l s := by
  have v := visited_visit h ⟨p, .reading { inlet with upcoming := rest }⟩
  obtain ⟨lane, hl, _⟩ := r.exists_lane v.found rfl
  cases hk : policy.rule.timestamp record with
  | error fault =>
    obtain ⟨d, rfl⟩ := ho.mild record fault hk
    have hkey : policy.key? (.ok (some record)) = none := by
      simp only [Policy.key?, hk]
    have hadd : s.merger.add policy p record = _ := Merger.add_of_error hl hk
    refine .inl (r.movesOn_skip ho h hr hkey fun k w => ?_)
    rw [turn_of_record h hr]
    exact accept_of_malformed (s := s.advance i p inlet rest) hadd k w
  | ok ts =>
    by_cases hforward : policy.checkOrder = true → ∀ t, l.latest? p = some t → t ≤ ts
    · obtain ⟨hf, hcalls⟩ := r.unflushed v.found rfl
      obtain ⟨hadd, ht⟩ := r.toTracks.arrive ho v.found hr hk hforward
      subst hcalls
      refine .inl ⟨.forwarded (s.merger.arrive ⟨p, ts, record⟩).drain.1.length, _, _, _,
        Turn.noConfusion, fun k w hn => ?_, ht.rests_settle hf r.forwarded, ?_⟩
      · rw [turn_of_record h hr]
        exact accept_of_ok (s := s.advance i p inlet rest) hn hadd
      · exact v.rank_lt_of_reads_lt (by simp [Slot.reads, hr])
    · simp only [Classical.not_imp, not_forall, Int.not_le] at hforward
      obtain ⟨hc, previous, hlast, hlt⟩ := hforward
      obtain ⟨x, hx, hf⟩ := r.exists_inlet v.found
      obtain rfl : p = x.1 := hf.partition
      have hkey : policy.key? (.ok (some record)) = some (ts, record) := by
        simp only [Policy.key?, hk]
      have hsupply := hf.supply
      simp only [Slot.upcoming, hr, Policy.entries_cons_of_some hkey] at hsupply
      have hlane : lane.last = some previous := by
        rw [← hlast]
        exact r.balanced.latest _ _ (r.merger ▸ hl)
      have hadd := Merger.add_of_back hl hk hc hlane hlt
      have hback : Descends policy inlets l x.1 previous ts :=
        ⟨hc, hlast, hlt, x, List.mem_of_getElem? hx, rfl, _, _, rfl, hsupply⟩
      refine .inr ⟨(r.unflushed v.found rfl).1, x.1, previous, ts, s.advance i x.1 inlet rest, hback,
        fun k w => ?_⟩
      rw [turn_of_record h hr]
      exact accept_of_error (s := s.advance i x.1 inlet rest) hadd (fun _ => Fault.noConfusion) k w

/-- An input that turns out to be at its end needs no more reads. -/
theorem Rests.movesOn_end (r : Rests policy inlets l s calls) (ho : Tame policy inlets)
    (h : s.nextLive = some (i, ⟨p, .reading inlet⟩)) (hr : inlet.upcoming = []) :
    MovesOn policy inlets s calls := by
  have v := visited_visit h ⟨p, .exhausted inlet⟩
  obtain ⟨hf, hcalls⟩ := r.unflushed v.found rfl
  obtain ⟨hdis, ht⟩ := r.toTracks.unblock ho v.found hr
  have hends : inlet.failure = none := by
    obtain ⟨x, _, hx⟩ := r.exists_inlet v.found
    exact (hx.regular inlet rfl).ends
  have hlt : i < s.slots.length := (List.getElem?_eq_some_iff.1 v.found).1
  have hslot : (s.slots.set i ⟨p, .exhausted inlet⟩)[i]? = some ⟨p, .exhausted inlet⟩ :=
    List.getElem?_set_self hlt
  obtain ⟨turn, l', s', new, b, hne, hclose, hrest, hslots, hcursor, hb, _⟩ :=
    ht.tryClose ho hslot hf r.forwarded
  refine ⟨turn, l', s', new, hne, fun k w hk => ?_, ?_, ?_⟩
  · rw [turn_of_end h hr hends hdis]
    exact hclose k w hk
  · rw [hcalls]
    exact hrest
  · have v' : s.Visited s' i ⟨p, .reading inlet⟩ b := ⟨h, hslots.trans (List.set_set ..), hcursor⟩
    refine v'.rank_lt_of_reads_lt ?_
    rw [Slot.reads_eq_zero hb]
    exact Nat.succ_pos _

/-- An input at its end waits only as long as another one is read. -/
theorem Rests.movesOn_close (r : Rests policy inlets l s calls) (ho : Tame policy inlets)
    (h : s.nextLive = some (i, ⟨p, .exhausted inlet⟩)) : MovesOn policy inlets s calls := by
  have v := visited_visit h ⟨p, .exhausted inlet⟩
  obtain ⟨hf, hcalls⟩ := r.unflushed v.found rfl
  have ht : Tracks policy inlets l { s with cursor := (i + 1) % s.slots.length } :=
    r.toTracks.of_eq rfl rfl rfl
  obtain ⟨turn, l', s', new, b, hne, hclose, hrest, hslots, hcursor, hb, hclosed⟩ :=
    ht.tryClose ho v.found hf r.forwarded
  have v' : s.Visited s' i ⟨p, .exhausted inlet⟩ b := ⟨h, hslots, hcursor⟩
  refine ⟨turn, l', s', new, hne, fun k w hk => ?_, ?_, ?_⟩
  · rw [turn_of_exhausted h]
    exact hclose k w hk
  · rw [hcalls]
    exact hrest
  · by_cases hread : ∃ other ∈ s.slots, other.isReading = true
    · obtain ⟨other, hm, hr⟩ := hread
      exact v'.rank_lt_of_reading rfl hb hm hr
    · have hnone : ∀ other ∈ s.slots, other.isReading = false := by
        intro other hm
        rw [← Bool.not_eq_true]
        exact fun hr => hread ⟨other, hm, hr⟩
      exact v'.rank_lt_of_isClosed (hclosed (r.queued_eq_nil hnone p)) hnone

end Moves

end Intake

end TimeMerge
