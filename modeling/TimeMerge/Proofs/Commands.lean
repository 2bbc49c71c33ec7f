import TimeMerge.Resequencer
import TimeMerge.Proofs.Attempts
import TimeMerge.Proofs.Sweeps

/-!
# Commands to a resequencer

A caller feeds messages, drains, or takes every producer for done, and may go on after a fault. A
command either changes what is queued and who is done, and then drains, or leaves all but a count as
it was. What a drain can come to is said here, once. -/
namespace TimeMerge

inductive Command (α : Type) where
  | feed (msg : Message α)
  | drain
  | disableAll
  deriving DecidableEq, Repr

namespace Resequencer

variable {s s' : Resequencer α} {p : PartitionId}

/-- Counts a message. -/
def receive (s : Resequencer α) : Resequencer α :=
  { s with stats.received := s.stats.received + 1 }

def enqueue (e : Entry α) (s : Resequencer α) : Resequencer α :=
  { s with merger := s.merger.arrive e }

/-- Takes a producer for done. -/
def silence (p : PartitionId) (s : Resequencer α) : Resequencer α :=
  { s with
    merger := s.merger.unblock p, flushed := s.flushed.insert p (),
    stats.flushes := s.stats.flushes + 1 }

def silenceAll (s : Resequencer α) : Resequencer α :=
  { s with
    merger := s.merger.disableAll,
    flushed := s.merger.partitions.foldl (fun t p => t.insert p ()) s.flushed }

/-- The progress once nobody is left who could still send. -/
def ebb (s : Resequencer α) : Progress :=
  if s.progress = .active ∧ s.merger.allDisabled then .draining else s.progress

/-- Stops after `n` departures, the last of them refused. -/
def breakOff (n : Nat) (s : Resequencer α) : Resequencer α :=
  { s with merger := (s.merger.take n).2, progress := s.ebb }

/-- Lets go whatever may go and closes what is empty and done. -/
def settle (s : Resequencer α) : Resequencer α :=
  { s with
    merger := s.merger.drain.2.closeDrained, progress := s.ebb,
    stats.forwarded := s.stats.forwarded + s.merger.drain.1.length }

/-- Marks the flush as passed on. -/
def conclude (s : Resequencer α) : Resequencer α := { s with progress := .done }

@[simp] theorem merger_breakOff (n : Nat) : (s.breakOff n).merger = (s.merger.take n).2 := rfl
@[simp] theorem merger_settle : s.settle.merger = s.merger.drain.2.closeDrained := rfl

@[simp] theorem flushed_receive : s.receive.flushed = s.flushed := rfl
@[simp] theorem flushed_enqueue (e : Entry α) : (s.enqueue e).flushed = s.flushed := rfl
@[simp] theorem flushed_silence : (s.silence p).flushed = s.flushed.insert p () := rfl

theorem standing_settle (s : Resequencer α) (p : PartitionId) : s.settle.merger.standing p =
    if s.merger.standing p = some false ∧ s.settle.merger.queued p = [] then none
    else s.merger.standing p := by
  rw [settle, Merger.standing_closeDrained, Merger.queued_closeDrained, Merger.standing_drain]

theorem departure?_settle (s : Resequencer α) : s.settle.merger.departure? = none :=
  Merger.departure?_closeDrained s.merger.departure?_drain

theorem isEnabled_settle (s : Resequencer α) (p : PartitionId) :
    s.settle.merger.isEnabled p = s.merger.isEnabled p := by
  rw [settle, Merger.isEnabled_closeDrained, Merger.isEnabled_eq, Merger.standing_drain,
    ← Merger.isEnabled_eq]

/-- Partitions stay open exactly as long as somebody may still send. -/
theorem openCount_settle : s.settle.merger.openCount = 0 ↔ ∀ p, s.merger.isEnabled p = false := by
  rw [Merger.openCount_eq_zero_iff]
  constructor
  · intro h p
    rw [← isEnabled_settle, Merger.isEnabled_eq, h]
    rfl
  · intro h p
    rw [standing_settle, settle, Merger.queued_closeDrained, Merger.queued_drain_eq_nil h]
    have hp := h p
    rw [Merger.isEnabled_eq] at hp
    cases hs : s.merger.standing p with
    | none => rfl
    | some b => cases b <;> simp_all

theorem ebb_eq_active :
    s.ebb = .active ↔ s.progress = .active ∧ ∃ p, s.merger.isEnabled p = true := by
  have hopen : s.merger.allDisabled = true ↔ ¬∃ p, s.merger.isEnabled p = true := by
    simp [Merger.allDisabled_iff]
  by_cases hp : s.progress = .active <;> by_cases hd : s.merger.allDisabled = true <;>
    simp_all [ebb]

theorem ebb_eq_done : s.ebb = .done ↔ s.progress = .done := by
  by_cases hp : s.progress = .active <;> by_cases hd : s.merger.allDisabled = true <;>
    simp [ebb, hp, hd]

theorem drain_of_done (h : s.progress = .done) (k : Outlet ω α) (w : ω) :
    s.drain k w = (.ok 0, (s, w)) := by
  rw [drain, if_pos h]

/-- Passes the flush on if no partition is left, and else answers `n`. -/
def finish (k : Outlet ω α) (n : Nat) (s : Resequencer α) (w : ω) :
    Except Fault Nat × (Resequencer α × ω) :=
  if s.merger.openCount = 0 then
    match k.flush w with
    | (.error e, w) => (.error e, (s, w))
    | (.ok (), w) => (.ok n, (s.conclude, w))
  else (.ok n, (s, w))

theorem drain_of_refused (h : s.progress ≠ .done) {k : Outlet ω α} {w w' : ω} {m : Merger α}
    {fault : Fault} (hr : s.merger.release k w = (.error fault, (m, w'))) :
    s.drain k w = (.error fault, ({ s with merger := m, progress := s.ebb }, w')) := by
  rw [drain, if_neg h]
  by_cases hd : s.progress = .active ∧ s.merger.allDisabled <;> simp [hd, hr, ebb]

theorem drain_of_released (h : s.progress ≠ .done) {k : Outlet ω α} {w w' : ω} {m : Merger α}
    {n : Nat} (hr : s.merger.release k w = (.ok n, (m, w'))) : s.drain k w =
      { s with
        merger := m.closeDrained, progress := s.ebb,
        stats.forwarded := s.stats.forwarded + n }.finish k n w' := by
  rw [drain, if_neg h, finish]
  by_cases hd : s.progress = .active ∧ s.merger.allDisabled
  · simp only [if_pos hd, hr, ebb]
    rcases k.flush w' with ⟨_ | _, _⟩ <;> rfl
  · simp only [if_neg hd, hr, ebb]
    rcases k.flush w' with ⟨_ | _, _⟩ <;> rfl

/-- What a drain that is not over before it starts can come to: its answer, the state it leaves and
the attempts it made. -/
inductive Drains (s : Resequencer α) :
    Except Fault Nat → Resequencer α → List (Attempt α) → Prop where
  | refused {fault : Fault} {n : Nat} {new : List (Attempt α)}
      (records : new.map (·.signal) = (s.merger.take n).1.map .record)
      (refusal : ∃ a ∈ new, a.answer = .error fault) :
      Drains s (.error fault) (s.breakOff n) new
  | waiting {new : List (Attempt α)}
      (records : new.map (·.signal) = s.merger.drain.1.map .record)
      (taken : ∀ a ∈ new, a.isTaken = true) (left : s.settle.merger.openCount ≠ 0) :
      Drains s (.ok s.merger.drain.1.length) s.settle new
  | unflushed {fault : Fault} {new : List (Attempt α)}
      (records : new.map (·.signal) = s.merger.drain.1.map .record)
      (taken : ∀ a ∈ new, a.isTaken = true) (none : s.settle.merger.openCount = 0) :
      Drains s (.error fault) s.settle (new ++ [⟨.flush, .error fault⟩])
  | flushed {new : List (Attempt α)}
      (records : new.map (·.signal) = s.merger.drain.1.map .record)
      (taken : ∀ a ∈ new, a.isTaken = true) (none : s.settle.merger.openCount = 0) :
      Drains s (.ok s.merger.drain.1.length) s.settle.conclude (new ++ [⟨.flush, .ok ()⟩])

theorem drain_logged (h : s.progress ≠ .done) (k : Outlet ω α) (w : Logged ω α) :
    ∃ answer s' w' new, s.drain k.logged w = (answer, (s', w')) ∧
      w'.attempts = w.attempts ++ new ∧ Drains s answer s' new := by
  obtain ⟨answer, n, w', new, hrelease, hlog, hrecords, hend⟩ := s.merger.release_logged k w
  rcases hend with ⟨fault, rfl, hrefusal⟩ | ⟨rfl, hdrain, htaken⟩
  · exact ⟨.error fault, s.breakOff n, w', new, drain_of_refused h hrelease, hlog,
      .refused hrecords hrefusal⟩
  rw [hdrain] at hrelease hrecords
  have hdrains : s.drain k.logged w = s.settle.finish k.logged s.merger.drain.1.length w' :=
    drain_of_released h hrelease
  rw [hdrains, finish]
  by_cases hopen : s.settle.merger.openCount = 0
  · have hflush : k.logged.flush w' =
        ((k.flush w'.state).1, w'.enter .flush (k.flush w'.state)) := rfl
    rw [if_pos hopen, hflush]
    obtain ⟨answer, state⟩ := k.flush w'.state
    cases answer with
    | error fault =>
      refine ⟨.error fault, s.settle, w'.enter .flush (.error fault, state),
        new ++ [⟨.flush, .error fault⟩], rfl, ?_, .unflushed hrecords htaken hopen⟩
      rw [Logged.enter, hlog, List.append_assoc]
    | ok =>
      refine ⟨.ok _, s.settle.conclude, w'.enter .flush (.ok (), state), new ++ [⟨.flush, .ok ()⟩],
        rfl, ?_, .flushed hrecords htaken hopen⟩
      rw [Logged.enter, hlog, List.append_assoc]
  · rw [if_neg hopen]
    exact ⟨.ok _, s.settle, w', new, rfl, hlog, .waiting hrecords htaken hopen⟩

theorem disableAll_eq_drain (h : s.progress ≠ .done) (k : Outlet ω α) (w : ω) :
    s.disableAll k w = s.silenceAll.drain k w := by
  rw [disableAll, if_neg h]
  rfl

variable [Record α] {policy : Policy α} {msg : Message α}

/-- A message that is taken, and what it changes before anything is handed on. -/
inductive Takes (policy : Policy α) (s : Resequencer α) : Message α → Resequencer α → Prop where
  | record {e : Entry α} {lane : Lane α} (fresh : s.flushed.contains e.partition = false)
      (found : s.merger.lane? e.partition = some lane)
      (keyed : policy.rule.timestamp e.record = .ok e.timestamp)
      (forward : policy.checkOrder = true → ∀ t ∈ lane.last, t ≤ e.timestamp) :
      Takes policy s ⟨e.partition, .record e.record⟩ (s.receive.enqueue e)
  | flush {p : PartitionId} (fresh : s.flushed.contains p = false)
      (found : (s.merger.lane? p).isSome) : Takes policy s ⟨p, .flush⟩ (s.receive.silence p)

theorem Takes.progress (h : Takes policy s msg s') : s'.progress = s.progress := by
  cases h <;> rfl

theorem feed_of_takes (hp : s.progress ≠ .done) (h : Takes policy s msg s') (k : Outlet ω α)
    (w : ω) : s.feed policy k msg w = s'.drain k w := by
  rw [feed, if_neg hp]
  cases h with
  | @record e lane fresh found keyed forward =>
    have hadd : s.merger.add policy e.partition e.record = (.ok (), s.merger.arrive e) :=
      Merger.add_eq_ok_iff.2 ⟨lane, e.timestamp, found, keyed, forward, rfl⟩
    simp only [fresh, Bool.false_eq_true, if_false, hadd]
    rfl
  | @flush p fresh found =>
    have hdisable : s.merger.disable p = (.ok (), s.merger.unblock p) :=
      Merger.disable_eq_ok_iff.2 ⟨found, rfl⟩
    simp only [fresh, Bool.false_eq_true, if_false, hdisable]
    rfl

theorem feed_of_ended_flush (hp : s.progress ≠ .done) (he : s.flushed.contains p = true)
    (k : Outlet ω α) (w : ω) :
    s.feed policy k ⟨p, .flush⟩ w = (.ok 0, (s.receive, w)) := by
  simp only [feed, if_neg hp, he, if_true, receive]

theorem feed_of_ended_record (hp : s.progress ≠ .done) (he : s.flushed.contains p = true)
    (record : α) (k : Outlet ω α) (w : ω) :
    s.feed policy k ⟨p, .record record⟩ w = (.error (.producerFlushed p), (s.receive, w)) := by
  simp only [feed, if_neg hp, he, if_true, receive]

theorem feed_of_add_error (hp : s.progress ≠ .done) (hf : s.flushed.contains p = false)
    {record : α} {fault : Fault} (ha : s.merger.add policy p record = (.error fault, s.merger))
    (k : Outlet ω α) (w : ω) :
    s.feed policy k ⟨p, .record record⟩ w = (.error fault, (s.receive, w)) := by
  simp only [feed, if_neg hp, hf, Bool.false_eq_true, if_false, ha, receive]

theorem feed_of_disable_error {fault : Fault} (hp : s.progress ≠ .done)
    (hf : s.flushed.contains p = false) (hd : s.merger.disable p = (.error fault, s.merger))
    (k : Outlet ω α) (w : ω) : s.feed policy k ⟨p, .flush⟩ w = (.error fault, (s.receive, w)) := by
  simp only [feed, if_neg hp, hf, Bool.false_eq_true, if_false, hd, receive]

/-- A message is taken, and then a drain follows; or it is one more flush of a producer that is done
already; or it is refused. -/
theorem feed_cases (policy : Policy α) (k : Outlet ω α) (msg : Message α) (s : Resequencer α)
    (w : ω) :
    (s.progress ≠ .done ∧ ∃ s', Takes policy s msg s' ∧ s.feed policy k msg w = s'.drain k w) ∨
    (s.progress ≠ .done ∧ msg.payload = .flush ∧ s.flushed.contains msg.producer = true ∧
      s.feed policy k msg w = (.ok 0, (s.receive, w))) ∨
    ∃ fault, s.feed policy k msg w =
      (.error fault, (if s.progress = .done then s else s.receive, w)) := by
  by_cases hp : s.progress = .done
  · exact .inr (.inr ⟨.terminated, by rw [feed, if_pos hp, if_pos hp]⟩)
  obtain ⟨p, payload⟩ := msg
  cases hf : s.flushed.contains p with
  | true =>
    cases payload with
    | record record =>
      refine .inr (.inr ⟨.producerFlushed p, ?_⟩)
      rw [feed_of_ended_record hp hf, if_neg hp]
    | flush => exact .inr (.inl ⟨hp, rfl, rfl, feed_of_ended_flush hp hf k w⟩)
  | false =>
    cases payload with
    | record record =>
      rcases ha : s.merger.add policy p record with ⟨fault | ⟨⟩, m⟩
      · obtain rfl := Merger.eq_of_add_error ha
        refine .inr (.inr ⟨fault, ?_⟩)
        rw [feed_of_add_error hp hf ha, if_neg hp]
      · obtain ⟨lane, ts, found, keyed, forward, _⟩ := Merger.add_eq_ok_iff.1 ha
        have h : Takes policy s ⟨p, .record record⟩ (s.receive.enqueue ⟨p, ts, record⟩) :=
          .record (e := ⟨p, ts, record⟩) hf found keyed forward
        exact .inl ⟨hp, _, h, feed_of_takes hp h k w⟩
    | flush =>
      rcases hd : s.merger.disable p with ⟨fault | ⟨⟩, m⟩
      · obtain ⟨_, _, rfl⟩ := Merger.disable_eq_error_iff.1 hd
        refine .inr (.inr ⟨fault, ?_⟩)
        rw [feed_of_disable_error hp hf hd, if_neg hp]
      · have h : Takes policy s ⟨p, .flush⟩ (s.receive.silence p) :=
          .flush hf (Merger.disable_eq_ok_iff.1 hd).1
        exact .inl ⟨hp, _, h, feed_of_takes hp h k w⟩

def obey (policy : Policy α) (k : Outlet ω α) (s : Resequencer α) (w : ω) :
    Command α → Except Fault Nat × (Resequencer α × ω)
  | .feed msg => s.feed policy k msg w
  | .drain => s.drain k w
  | .disableAll => s.disableAll k w

/-- The states after a sequence of commands, given whatever the answers are. -/
def after (policy : Policy α) (k : Outlet ω α) :
    List (Command α) → Resequencer α → ω → Resequencer α × ω
  | [], s, w => (s, w)
  | c :: cs, s, w => after policy k cs (s.obey policy k w c).2.1 (s.obey policy k w c).2.2

def replies (policy : Policy α) (k : Outlet ω α) :
    List (Command α) → Resequencer α → ω → List (Except Fault Nat)
  | [], _, _ => []
  | c :: cs, s, w =>
    (s.obey policy k w c).1 ::
      replies policy k cs (s.obey policy k w c).2.1 (s.obey policy k w c).2.2

theorem after_append (policy : Policy α) (k : Outlet ω α) (cs ds : List (Command α))
    (s : Resequencer α) (w : ω) : after policy k (cs ++ ds) s w =
      after policy k ds (after policy k cs s w).1 (after policy k cs s w).2 := by
  induction cs generalizing s w with
  | nil => rfl
  | cons c cs ih => exact ih ..

theorem replies_append (policy : Policy α) (k : Outlet ω α) (cs ds : List (Command α))
    (s : Resequencer α) (w : ω) : replies policy k (cs ++ ds) s w =
      replies policy k cs s w ++
        replies policy k ds (after policy k cs s w).1 (after policy k cs s w).2 := by
  induction cs generalizing s w with
  | nil => rfl
  | cons c cs ih => exact congrArg (_ :: ·) (ih ..)

/-- What a command may do to a state before it drains. -/
inductive Prepares (policy : Policy α) (s : Resequencer α) : Resequencer α → Prop where
  | message {msg : Message α} {s' : Resequencer α} (taken : Takes policy s msg s') :
      Prepares policy s s'
  | nothing : Prepares policy s s
  | teardown : Prepares policy s s.silenceAll

theorem Prepares.progress (h : Prepares policy s s') : s'.progress = s.progress := by
  cases h with
  | message taken => exact taken.progress
  | nothing => rfl
  | teardown => rfl

/-- Any command either drains a state that it has prepared, or changes a count at the most. -/
theorem obey_cases (policy : Policy α) (k : Outlet ω α) (s : Resequencer α) (w : ω)
    (c : Command α) :
    (s.progress ≠ .done ∧ ∃ s', Prepares policy s s' ∧ s.obey policy k w c = s'.drain k w) ∨
    ∃ answer s', (s' = s ∨ s' = s.receive) ∧ s.obey policy k w c = (answer, (s', w)) := by
  cases c with
  | feed msg =>
    rcases feed_cases policy k msg s w with ⟨hp, s', h, he⟩ | ⟨_, _, _, he⟩ | ⟨fault, he⟩
    · exact .inl ⟨hp, s', .message h, he⟩
    · exact .inr ⟨.ok 0, s.receive, .inr rfl, he⟩
    · refine .inr ⟨.error fault, _, ?_, he⟩
      split
      · exact .inl rfl
      · exact .inr rfl
  | drain =>
    by_cases hp : s.progress = .done
    · exact .inr ⟨.ok 0, s, .inl rfl, drain_of_done hp k w⟩
    · exact .inl ⟨hp, s, .nothing, rfl⟩
  | disableAll =>
    by_cases hp : s.progress = .done
    · refine .inr ⟨.ok 0, s, .inl rfl, ?_⟩
      rw [obey, disableAll, if_pos hp]
    · exact .inl ⟨hp, s.silenceAll, .teardown, disableAll_eq_drain hp k w⟩

section Views

variable {k : Outlet ω α} {view : ω' → ω} {k' : Outlet ω' α}

omit [Record α] in
theorem finish_seen (h : k.ShownBy view k') (n : Nat) (s : Resequencer α) (w : ω') :
    s.finish k n (view w) = Outlet.seen view (s.finish k' n w) := by
  rw [finish, finish, h.flush]
  split
  · rcases k'.flush w with ⟨_ | _, _⟩ <;> rfl
  · rfl

omit [Record α] in
theorem drain_seen (h : k.ShownBy view k') (s : Resequencer α) (w : ω') :
    s.drain k (view w) = Outlet.seen view (s.drain k' w) := by
  by_cases hp : s.progress = .done
  · rw [drain_of_done hp, drain_of_done hp]
    rfl
  have hseen := Merger.release_seen h s.merger w
  cases hr : s.merger.release k' w with
  | mk answer rest =>
    rw [hr] at hseen
    cases answer with
    | error fault =>
      rw [drain_of_refused hp hr, drain_of_refused hp hseen]
      rfl
    | ok n =>
      rw [drain_of_released hp hr, drain_of_released hp hseen]
      exact finish_seen h ..

theorem feed_seen (h : k.ShownBy view k') (policy : Policy α) (msg : Message α) (s : Resequencer α)
    (w : ω') : s.feed policy k msg (view w) = Outlet.seen view (s.feed policy k' msg w) := by
  simp only [feed, drain_seen h]
  repeat' split
  all_goals rfl

theorem obey_seen (h : k.ShownBy view k') (policy : Policy α) (s : Resequencer α) (w : ω')
    (c : Command α) : s.obey policy k (view w) c = Outlet.seen view (s.obey policy k' w c) := by
  cases c with
  | feed msg => exact feed_seen h policy msg s w
  | drain => exact drain_seen h s w
  | disableAll =>
    simp only [obey, disableAll, drain_seen h]
    split <;> rfl

theorem after_seen (h : k.ShownBy view k') (policy : Policy α) (cs : List (Command α))
    (s : Resequencer α) (w : ω') : after policy k cs s (view w) =
      ((after policy k' cs s w).1, view (after policy k' cs s w).2) := by
  induction cs generalizing s w with
  | nil => rfl
  | cons c cs ih =>
    rw [after, obey_seen h]
    exact ih ..

end Views

end Resequencer

end TimeMerge
