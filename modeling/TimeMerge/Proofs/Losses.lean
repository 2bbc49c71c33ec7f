import TimeMerge.Proofs.Accounts
import TimeMerge.Proofs.Phases
import TimeMerge.Proofs.Progress

/-!
# What a refusal costs

A record that an outlet refuses is gone, and nothing else is. Whoever goes on after a fault, with an
intake or with a resequencer, hands over all that was accepted, each record once, in the same order
as if nothing had been refused. -/
namespace TimeMerge

namespace Intake

variable [Record α] {policy : Policy α} {inlets : List (PartitionId × Inlet α)}
  {accepted : List (Entry α)} {ids : List PartitionId} {s : Intake α} {p : PartitionId} {i : Nat}
  {log : List (Nat × Reading α)} {k : Outlet ω α} {w : Logged ω α}

/-- The entry that the next turn makes among what was accepted. -/
def arrival? (policy : Policy α) (s : Intake α) : Option (Entry α) :=
  match s.poll.1 with
  | .read _ p (.ok (some record)) _ => s.merger.arrival? policy (.add p record)
  | _ => none

/-- What is accepted in the course of `n` turns. -/
def arrivals (policy : Policy α) (k : Outlet ω α) : Nat → Intake α → ω → List (Entry α)
  | 0, _, _ => []
  | n + 1, s, w =>
    (s.arrival? policy).toList ++
      arrivals policy k n (s.turn policy k w).2.1 (s.turn policy k w).2.2

/-- The books of an intake, whose count of records is right. -/
structure Accounted (policy : Policy α) (ids : List PartitionId) (accepted : List (Entry α))
    (s : Intake α) (w : Logged ω α) : Prop where
  books : Accounts policy ids accepted s.merger w.attempts
  read : s.stats.read = accepted.length

theorem forward_accounted (h : Accounted policy ids accepted s w) (k : Outlet ω α) :
    Accounted policy ids accepted (s.forward k.logged w).2.1 (s.forward k.logged w).2.2 := by
  obtain ⟨answer, n, w', new, hrelease, hlog, hnew, _⟩ := s.merger.release_logged k w
  have hbooks := h.books.take n hnew
  rw [← hlog] at hbooks
  rw [forward, hrelease]
  cases answer <;> exact ⟨hbooks, h.read⟩

/-- A flush is tried with nothing open. -/
theorem finish_accounted (h : Accounted policy ids accepted s w) (hopen : s.merger.openCount = 0)
    (k : Outlet ω α) :
    Accounted policy ids accepted (s.finish k.logged w).2.1 (s.finish k.logged w).2.2 := by
  rw [finish]
  split
  · exact h
  · exact ⟨h.books.flush hopen rfl, h.read⟩

theorem wrapUp_accounted (h : Accounted policy ids accepted s w) (k : Outlet ω α) (p : PartitionId) :
    Accounted policy ids accepted (s.wrapUp k.logged p w).2.1 (s.wrapUp k.logged p w).2.2 := by
  have hforward := forward_accounted h k
  rcases s.wrapUp_cases k.logged p w with
    ⟨_, _, hf, he⟩ | ⟨_, s', w', hf, ⟨hfinished, he⟩ | he⟩ <;> rw [hf] at hforward <;> rw [he]
  · exact hforward
  · exact finish_accounted hforward (beq_iff_eq.1 hfinished) k
  · exact hforward

theorem tryClose_accounted (h : Accounted policy ids accepted s w) (k : Outlet ω α) (i : Nat)
    (p : PartitionId) : Accounted policy ids accepted (s.tryClose k.logged i p w).2.1
      (s.tryClose k.logged i p w).2.2 := by
  rcases s.tryClose_cases k.logged w i p with
    ⟨_, hclose⟩ | ⟨_, hclose⟩ | ⟨lane, found, drained, hclose⟩
  · rw [hclose]
    exact h
  · rw [hclose]
    exact forward_accounted h k
  · have hretire : Accounted policy ids accepted (s.retire i p) w :=
      ⟨h.books.shut found drained, h.read⟩
    rw [hclose]
    exact wrapUp_accounted hretire k p

theorem accept_accounted (h : Accounted policy ids accepted s w)
    (hs : s.merger.standing p = some true) (k : Outlet ω α) (record : α) :
    Accounted policy ids (accepted ++ (s.merger.arrival? policy (.add p record)).toList)
      (s.accept policy k.logged p record w).2.1 (s.accept policy k.logged p record w).2.2 := by
  rcases s.accept_cases policy k.logged p record w with
    ⟨d, ha, haccept⟩ | ⟨fault, _, ha, haccept⟩ | ⟨m, ha, haccept⟩
  · rw [arrival?_of_error ha, Option.toList_none, List.append_nil, haccept]
    exact ⟨h.books, h.read⟩
  · rw [arrival?_of_error ha, Option.toList_none, List.append_nil, haccept]
    exact h
  · obtain ⟨e, he, hadd⟩ := h.books.add hs ha
    have harrived : Accounted policy ids (accepted ++ [e]) (s.takeIn m) w := by
      refine ⟨hadd, ?_⟩
      rw [List.length_append, ← h.read]
      rfl
    rw [he, Option.toList_some, haccept]
    exact forward_accounted harrived k

/-- Whatever reading the input at `i` gives is accounted for. -/
theorem respond_accounted (h : Accounted policy ids accepted s w)
    (hs : s.merger.standing p = some true) (k : Outlet ω α) (i : Nat) (reading : Reading α)
    (inlet : Inlet α) : Accounted policy ids
      (accepted ++ (match reading with
        | .ok (some record) => s.merger.arrival? policy (.add p record)
        | _ => none).toList)
      (s.respond policy k.logged (.read i p reading inlet) w).2.1
      (s.respond policy k.logged (.read i p reading inlet) w).2.2 := by
  cases reading with
  | error fault =>
    rw [Option.toList_none, List.append_nil]
    cases fault <;> exact ⟨h.books, h.read⟩
  | ok given =>
    cases given with
    | some record => exact accept_accounted h hs k record
    | none =>
      rw [Option.toList_none, List.append_nil, respond, exhaust_of_standing hs]
      let ended : Intake α := { s with
        slots := s.slots.set i ⟨p, .exhausted inlet⟩, merger := s.merger.unblock p }
      have hended : Accounted policy ids accepted ended w := ⟨h.books.unblock p, h.read⟩
      exact tryClose_accounted hended k i p

/-- Nothing is open once all slots are closed. -/
theorem Accounted.openCount_eq_zero (h : Accounted policy (s.slots.map (·.partition)) accepted s w)
    (aligned : ∀ slot ∈ s.slots, s.merger.standing slot.partition = slot.standing)
    (hnone : s.nextLive = none) : s.merger.openCount = 0 := by
  rw [Merger.openCount_eq_zero_iff]
  intro p
  by_cases hp : p ∈ s.slots.map (·.partition)
  · obtain ⟨slot, hm, rfl⟩ := List.mem_map.1 hp
    rw [aligned slot hm, Slot.standing_eq_none_iff]
    exact nextLive_eq_none_iff.1 hnone slot hm
  · exact h.books.standing_eq_none hp

/-- A turn accounts for what it accepts and hands over. -/
theorem turn_accounted (h : Accounted policy (s.slots.map (·.partition)) accepted s w)
    (aligned : ∀ slot ∈ s.slots, s.merger.standing slot.partition = slot.standing)
    (k : Outlet ω α) : Accounted policy (s.slots.map (·.partition))
      (accepted ++ (s.arrival? policy).toList) (s.turn policy k.logged w).2.1
      (s.turn policy k.logged w).2.2 := by
  cases hn : s.nextLive with
  | none =>
    have hnone : s.arrival? policy = none := by simp only [arrival?, poll_of_idle hn]
    rw [hnone, Option.toList_none, List.append_nil, turn_of_idle hn]
    exact finish_accounted h (h.openCount_eq_zero aligned hn) k
  | some found =>
    obtain ⟨i, p, phase⟩ := found
    obtain ⟨_, _, _, hslot, hopen, _⟩ := nextLive_eq_some hn
    have hs : s.merger.standing p = (⟨p, phase⟩ : Slot α).standing :=
      aligned _ (List.mem_of_getElem? hslot)
    cases phase with
    | closed => cases hopen
    | exhausted inlet =>
      have hnone : s.arrival? policy = none := by simp only [arrival?, poll_of_exhausted hn]
      rw [hnone, Option.toList_none, List.append_nil, turn_of_exhausted hn]
      let passed : Intake α := { s with cursor := (i + 1) % s.slots.length }
      have hpassed : Accounted policy (s.slots.map (·.partition)) accepted passed w :=
        ⟨h.books, h.read⟩
      exact tryClose_accounted hpassed k i p
    | reading inlet =>
      have hvisit : Accounted policy (s.slots.map (·.partition)) accepted
          (s.visit i ⟨p, .reading inlet.read.2⟩) w := ⟨h.books, h.read⟩
      have hrespond := respond_accounted hvisit hs k i inlet.read.1 inlet.read.2
      rw [turn_of_reading hn]
      simp only [arrival?, poll_of_reading hn]
      cases hr : inlet.read.1 with
      | error fault =>
        rw [hr] at hrespond
        exact hrespond
      | ok given =>
        rw [hr] at hrespond
        cases given <;> exact hrespond

section Finish

variable {ω : Type} {k : Outlet ω α} {w : ω}

omit [Record α] in
theorem tryClose_ne_finished (k : Outlet ω α) (i : Nat) (p : PartitionId) (s : Intake α) (w : ω) :
    (s.tryClose k i p w).1 ≠ .ok .finished := by
  intro h
  rcases tryClose_answer h with he | he <;> cases he

theorem accept_ne_finished (policy : Policy α) (k : Outlet ω α) (p : PartitionId) (record : α)
    (s : Intake α) (w : ω) : (s.accept policy k p record w).1 ≠ .ok .finished := by
  simp only [accept, skip]
  repeat' split
  all_goals simp

/-- A turn that finishes has found nothing to work on. -/
theorem nextLive_of_finished (h : (s.turn policy k w).1 = .ok .finished) : s.nextLive = none := by
  cases hn : s.nextLive with
  | none => rfl
  | some found =>
    obtain ⟨i, p, phase⟩ := found
    exfalso
    cases phase with
    | closed =>
      obtain ⟨_, _, _, _, hopen, _⟩ := nextLive_eq_some hn
      cases hopen
    | exhausted inlet =>
      rw [turn_of_exhausted hn] at h
      exact tryClose_ne_finished _ _ _ _ _ h
    | reading inlet =>
      rw [turn_of_reading hn] at h
      cases hr : inlet.read.1 with
      | error fault =>
        rw [hr] at h
        cases fault <;> cases h
      | ok given =>
        rw [hr] at h
        cases given with
        | some record => exact accept_ne_finished _ _ _ _ _ _ h
        | none =>
          simp only [respond, exhaust] at h
          split at h
          · cases h
          · exact tryClose_ne_finished _ _ _ _ _ h

/-- Once there is nothing to work on, there never is again. -/
theorem nextLive_turn (h : s.nextLive = none) : (s.turn policy k w).2.1.nextLive = none := by
  rw [nextLive_eq_none_iff] at h ⊢
  have hslots : (s.finish k w).2.1.slots = s.slots := by
    rw [finish]
    split <;> rfl
  rwa [turn_of_idle (nextLive_eq_none_iff.2 h), hslots]

theorem nextLive_pulls (h : s.nextLive = none) (n : Nat) :
    (pulls policy k n s w).1.nextLive = none := by
  induction n generalizing s w with
  | zero => exact h
  | succ n ih => exact ih (nextLive_turn h)

theorem nextLive_of_mem_replies {n : Nat} (h : .ok .finished ∈ replies policy k n s w) :
    (pulls policy k n s w).1.nextLive = none := by
  induction n generalizing s w with
  | zero => cases h
  | succ n ih =>
    rcases List.mem_cons.1 h with h | h
    · exact nextLive_pulls (nextLive_turn (nextLive_of_finished h.symm)) n
    · exact ih h

end Finish

theorem pulls_accounted (hp : Phased inlets s log) (hn : (inlets.map (·.1)).Nodup)
    (h : Accounted policy (inlets.map (·.1)) accepted s w) (k : Outlet ω α) (n : Nat) :
    Accounted policy (inlets.map (·.1)) (accepted ++ arrivals policy k.logged n s w)
      (pulls policy k.logged n s w).1 (pulls policy k.logged n s w).2 := by
  induction n generalizing s w log accepted with
  | zero =>
    rw [arrivals, List.append_nil]
    exact h
  | succ n ih =>
    rw [← hp.partitions] at h
    have hturn := turn_accounted h hp.aligned k
    rw [hp.partitions] at hturn
    rw [arrivals, ← List.append_assoc]
    exact ih (hp.turn hn policy k w) hturn

end Intake

namespace Resequencer

variable [Record α] {policy : Policy α} {producers ids : List PartitionId}
  {accepted : List (Entry α)} {s s' : Resequencer α} {k : Outlet ω α} {w : Logged ω α}

/-- The entry that a command makes among what was accepted. -/
def arrival? (policy : Policy α) (s : Resequencer α) : Command α → Option (Entry α)
  | .feed ⟨p, .record record⟩ =>
    if s.progress = .done ∨ s.flushed.contains p then none
    else s.merger.arrival? policy (.add p record)
  | _ => none

/-- What is accepted in the course of a sequence of commands. -/
def arrivals (policy : Policy α) (k : Outlet ω α) :
    List (Command α) → Resequencer α → ω → List (Entry α)
  | [], _, _ => []
  | c :: cs, s, w =>
    (s.arrival? policy c).toList ++
      arrivals policy k cs (s.obey policy k w c).2.1 (s.obey policy k w c).2.2

theorem drain_accounted (hne : s.progress ≠ .done)
    (h : Accounts policy ids accepted s.merger w.attempts) (k : Outlet ω α) :
    Accounts policy ids accepted (s.drain k.logged w).2.1.merger
      (s.drain k.logged w).2.2.attempts := by
  obtain ⟨answer, s', w', new, hdrain, hlog, hdrains⟩ := drain_logged hne k w
  have hsettle : ∀ {as : List (Attempt α)}, as.map (·.signal) = s.merger.drain.1.map .record →
      Accounts policy ids accepted s.settle.merger (w.attempts ++ as) := by
    intro as records
    rw [Merger.drain_eq_take (Nat.le_refl _)] at records
    rw [merger_settle, Merger.drain_eq_take (Nat.le_refl _)]
    exact (h.take _ records).closeDrained
  rw [hdrain, hlog]
  cases hdrains with
  | refused records refusal => exact h.take _ records
  | waiting records taken left => exact hsettle records
  | unflushed records taken none =>
    rw [← List.append_assoc]
    exact (hsettle records).flush none rfl
  | flushed records taken none =>
    rw [← List.append_assoc]
    exact (hsettle records).flush none rfl

theorem feed_accounted (aligned : Aligned producers s)
    (h : Accounts policy ids accepted s.merger w.attempts) (k : Outlet ω α) (msg : Message α) :
    Accounts policy ids (accepted ++ (s.arrival? policy (.feed msg)).toList)
      (s.feed policy k.logged msg w).2.1.merger (s.feed policy k.logged msg w).2.2.attempts := by
  obtain ⟨p, payload⟩ := msg
  by_cases hp : s.progress = .done
  · have hnone : s.arrival? policy (.feed ⟨p, payload⟩) = none := by
      cases payload <;> simp [arrival?, hp]
    rw [hnone, Option.toList_none, List.append_nil, feed, if_pos hp]
    exact h
  cases payload with
  | flush =>
    change Accounts policy ids (accepted ++ []) _ _
    rw [List.append_nil]
    rcases feed_cases policy k.logged ⟨p, .flush⟩ s w with
      ⟨_, s', htaken, he⟩ | ⟨_, _, _, he⟩ | ⟨_, he⟩
    · rw [he]
      cases htaken with
      | flush fresh found => exact drain_accounted (s := s.receive.silence p) hp (h.unblock p) k
    · rw [he]
      exact h
    · rw [he, if_neg hp]
      exact h
  | record record =>
    cases hf : s.flushed.contains p with
    | true =>
      have hnone : s.arrival? policy (.feed ⟨p, .record record⟩) = none := by simp [arrival?, hf]
      rw [hnone, Option.toList_none, List.append_nil]
      rw [feed_of_ended_record hp hf]
      exact h
    | false =>
      have harrival : s.arrival? policy (.feed ⟨p, .record record⟩) =
          s.merger.arrival? policy (.add p record) := by
        simp [arrival?, hp, hf]
      rw [harrival]
      rcases ha : s.merger.add policy p record with ⟨fault | ⟨⟩, m⟩
      · obtain rfl := Merger.eq_of_add_error ha
        rw [arrival?_of_error ha, Option.toList_none, List.append_nil]
        rw [feed_of_add_error hp hf ha]
        exact h
      · obtain ⟨lane, _, found, _⟩ := Merger.add_eq_ok_iff.1 ha
        have hs : s.merger.standing p = some lane.enabled :=
          Merger.standing_eq_some.2 ⟨lane, found, rfl⟩
        have hen := aligned.flushed p _ hs
        rw [hf, eq_comm, Bool.not_eq_false'] at hen
        rw [hen] at hs
        obtain ⟨e, he, hadd⟩ := h.add hs ha
        have hdrain := drain_accounted (s := { s.receive with merger := m }) hp hadd k
        rw [he, Option.toList_some]
        simp only [feed, if_neg hp, hf, Bool.false_eq_true, if_false, ha]
        exact hdrain

/-- A command accounts for what it accepts and hands over. -/
theorem obey_accounted (aligned : Aligned producers s)
    (h : Accounts policy ids accepted s.merger w.attempts) (k : Outlet ω α) (c : Command α) :
    Accounts policy ids (accepted ++ (s.arrival? policy c).toList)
      (s.obey policy k.logged w c).2.1.merger (s.obey policy k.logged w c).2.2.attempts := by
  cases c with
  | feed msg => exact feed_accounted aligned h k msg
  | drain =>
    change Accounts policy ids (accepted ++ []) _ _
    rw [List.append_nil, obey]
    by_cases hp : s.progress = .done
    · rw [drain_of_done hp]
      exact h
    · exact drain_accounted hp h k
  | disableAll =>
    change Accounts policy ids (accepted ++ []) _ _
    rw [List.append_nil, obey]
    by_cases hp : s.progress = .done
    · rw [disableAll, if_pos hp]
      exact h
    · rw [disableAll_eq_drain hp]
      exact drain_accounted (s := s.silenceAll) hp h.disableAll k

theorem after_accounted (hs : Sound producers s w.attempts)
    (h : Accounts policy ids accepted s.merger w.attempts) (k : Outlet ω α)
    (cs : List (Command α)) :
    Accounts policy ids (accepted ++ arrivals policy k.logged cs s w)
      (after policy k.logged cs s w).1.merger (after policy k.logged cs s w).2.attempts := by
  induction cs generalizing s w accepted with
  | nil =>
    rw [arrivals, List.append_nil]
    exact h
  | cons c cs ih =>
    rw [arrivals, ← List.append_assoc]
    exact ih (hs.obey policy k c).1 (obey_accounted hs.toAligned h k c)

end Resequencer

/-- However often an outlet refuses and whatever it refuses, whoever goes on hands over what was
accepted, in order and each record once. That holds of an intake after any number of turns, and once
it has finished nothing is left of what was accepted; it holds of a resequencer after any commands,
and once it is done nothing is left. -/
theorem losses_under_refusals [Record α] (policy : Policy α) (hc : policy.checkOrder = true)
    (k : Outlet ω α) (w : ω) :
    (∀ inlets : List (PartitionId × Inlet α), (inlets.map (·.1)).Nodup → ∀ n,
      let start := Intake.ofInlets inlets
      let s := (Intake.pulls policy k.logged n start { state := w }).1
      let seen := (Intake.pulls policy k.logged n start { state := w }).2
      let accepted := Intake.arrivals policy k.logged n start { state := w }
      Intake.pulls policy k n start w = (s, seen.state) ∧
      s.stats.read = accepted.length ∧
      ∃ handed, Preserved policy accepted handed s.merger seen.attempts ∧
        (.ok .finished ∈ Intake.replies policy k.logged n start { state := w } →
          handed.Perm accepted ∧ s.merger.openCount = 0)) ∧
    ∀ (producers : List PartitionId) (cs : List (Command α)),
      let start := Resequencer.ofProducers producers
      let s := (Resequencer.after policy k.logged cs start { state := w }).1
      let seen := (Resequencer.after policy k.logged cs start { state := w }).2
      let accepted := Resequencer.arrivals policy k.logged cs start { state := w }
      Resequencer.after policy k cs start w = (s, seen.state) ∧
      ∃ handed, Preserved policy accepted handed s.merger seen.attempts ∧
        (s.progress = .done → handed.Perm accepted ∧ s.merger.openCount = 0) := by
  constructor
  · intro inlets hn n start s seen accepted
    have hphased : Intake.Phased inlets s _ :=
      (Intake.phased_ofInlets inlets).pulls hn policy k n { state := w }
    have hstart : Intake.Accounted policy (inlets.map (·.1)) [] start { state := w } :=
      ⟨accounts_opening policy _, rfl⟩
    have h : Intake.Accounted policy (inlets.map (·.1)) accepted s seen :=
      Intake.pulls_accounted (Intake.phased_ofInlets inlets) hn hstart k n
    obtain ⟨handed, hp⟩ := h.books.exists_handed hc
    refine ⟨Intake.pulls_seen k.shownBy_logged policy n start { state := w }, h.read, handed, hp,
      fun hfinished => ?_⟩
    have hnone : s.nextLive = none := Intake.nextLive_of_mem_replies hfinished
    rw [← hphased.partitions] at h
    have hopen := h.openCount_eq_zero hphased.aligned hnone
    exact ⟨hp.perm hopen, hopen⟩
  · intro producers cs start s seen accepted
    have hs : Resequencer.Sound producers s seen.attempts :=
      (Resequencer.Sound.after policy k (Resequencer.sound_ofProducers producers) cs).1
    have hstart : Accounts policy producers [] start.merger ([] : List (Attempt α)) :=
      accounts_opening policy producers
    have h : Accounts policy producers accepted s.merger seen.attempts :=
      Resequencer.after_accounted (w := { state := w }) (Resequencer.sound_ofProducers producers)
        hstart k cs
    obtain ⟨handed, hp⟩ := h.exists_handed hc
    refine ⟨Resequencer.after_seen k.shownBy_logged policy cs start { state := w }, handed, hp,
      fun hdone => ?_⟩
    obtain ⟨a, ha, hflush, _⟩ := hs.done.1 hdone
    have hopen := hs.shut a ha hflush
    exact ⟨hp.perm hopen, hopen⟩

/-- Two inputs and the same records as messages of two producers. The caller of the resequencer goes on
with two drains, for what the first of them leaves behind. -/
def refusedRecords : List (PartitionId × Inlet Int) := [(0, .ofRecords [5]), (1, .ofRecords [3, 6])]

def refusedCommands : List (Command Int) :=
  [.feed ⟨0, .record 5⟩, .feed ⟨1, .record 3⟩, .feed ⟨0, .flush⟩, .feed ⟨1, .record 6⟩,
    .feed ⟨1, .flush⟩, .drain, .drain]

/-- A channel that lets nobody wait refuses every record. Each is offered once all the same, by the
intake and by the resequencer, and in order. -/
theorem losses_under_refusals_bounded : Policy.selfKeyed.checkOrder = true ∧
    (refusedRecords.map (·.1)).Nodup ∧
    (∃ handed : List (Entry Int), handed.map (·.record) = [3, 5, 6] ∧
      handed.Perm (Intake.arrivals .selfKeyed (Outlet.bounded false).logged 7
        (.ofInlets refusedRecords) { state := {} })) ∧
    ∃ handed : List (Entry Int), handed.map (·.record) = [3, 5, 6] ∧
      handed.Perm (Resequencer.arrivals .selfKeyed (Outlet.bounded false).logged refusedCommands
        (.ofProducers [0, 1]) { state := {} }) := by
  obtain ⟨hinlets, hproducers⟩ := losses_under_refusals .selfKeyed rfl (Outlet.bounded false) {}
  refine ⟨rfl, by decide, ?_, ?_⟩
  · obtain ⟨_, _, handed, hp, hperm⟩ := hinlets refusedRecords (by decide) 7
    have hrun : ((Intake.pulls .selfKeyed (Outlet.bounded false).logged 7
        (.ofInlets refusedRecords) { state := {} }).2.attempts.filterMap Attempt.record?,
        (Intake.replies .selfKeyed (Outlet.bounded false).logged 7
          (.ofInlets refusedRecords) { state := {} }).map Except.toOption) =
          ([3, 5, 6], [some (.forwarded 0), none, some (.pending 0), none, none,
            some (.closed 1), some .finished]) := by
      -- a release evaluates only as departures that are counted beforehand
      simp only [Intake.pulls, Intake.replies, Intake.turn, Intake.respond, Intake.accept,
        Intake.exhaust, Intake.tryClose, Intake.wrapUp, Intake.forward, Merger.release_eq_offer,
        Merger.drain_eq_take (Nat.le_refl _)]
      decide
    obtain ⟨hattempts, hreplies⟩ := Prod.mk.inj hrun
    have hfinished : some Turn.finished ∈ (Intake.replies .selfKeyed (Outlet.bounded false).logged 7
        (.ofInlets refusedRecords) { state := {} }).map Except.toOption := by
      rw [hreplies]
      decide
    obtain ⟨answer, hm, ha⟩ := List.mem_map.1 hfinished
    cases answer with
    | error fault => cases ha
    | ok turn =>
      cases ha
      exact ⟨handed, hp.records.symm.trans hattempts, (hperm hm).1⟩
  · obtain ⟨_, handed, hp, hperm⟩ := hproducers [0, 1] refusedCommands
    have hrun : ((Resequencer.after .selfKeyed (Outlet.bounded false).logged refusedCommands
        (.ofProducers [0, 1]) { state := {} }).2.attempts.filterMap Attempt.record?,
        (Resequencer.after .selfKeyed (Outlet.bounded false).logged refusedCommands
          (.ofProducers [0, 1]) { state := {} }).1.progress) = ([3, 5, 6], .done) := by
      simp only [refusedCommands, Resequencer.after, Resequencer.obey, Resequencer.feed,
        Resequencer.drain, Merger.release_eq_offer, Merger.drain_eq_take (Nat.le_refl _)]
      decide
    obtain ⟨hattempts, hdone⟩ := Prod.mk.inj hrun
    exact ⟨handed, hp.records.symm.trans hattempts, (hperm hdone).1⟩

end TimeMerge
