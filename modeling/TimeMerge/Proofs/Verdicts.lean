import TimeMerge.Proofs.Losses

/-!
# What becomes of a message

Whether a message is taken follows from the history alone: from the producers, from who was taken for
done, and from what was accepted. A message that the contract forbids is counted and changes nothing
else, whatever the outlet refused before; any other message is taken, and then only the outlet can fail.
-/
namespace TimeMerge

/-- What the contract makes of a message. -/
inductive Verdict where
  | accepted
  /-- One more flush of a producer that is done, which is passed over. -/
  | repeated
  | refused (fault : Fault)
  deriving DecidableEq

/-- The contract with some producers, given who is done and the latest timestamp of each. -/
def verdict [Record α] (policy : Policy α) (producers : List PartitionId)
    (ended : PartitionId → Bool) (latest : PartitionId → Option Timestamp) (msg : Message α) :
    Verdict :=
  if msg.producer ∉ producers then .refused (.partitionNotOpen msg.producer)
  else
    match msg.payload with
    | .flush => if ended msg.producer then .repeated else .accepted
    | .record record =>
      if ended msg.producer then .refused (.producerFlushed msg.producer)
      else
        match policy.rule.timestamp record with
        | .error fault => .refused fault
        | .ok ts =>
          match latest msg.producer with
          | none => .accepted
          | some previous =>
            if ts < previous ∧ policy.checkOrder then
              .refused (.outOfOrder msg.producer previous ts)
            else .accepted

/-- Whether a command says that a producer is done. -/
def Command.ends (p : PartitionId) : Command α → Bool
  | .feed ⟨q, .flush⟩ => q == p
  | .disableAll => true
  | _ => false

/-- The timestamp of what was accepted last for a partition. -/
def latestOf (accepted : List (Entry α)) (p : PartitionId) : Option Timestamp :=
  (accepted.filter (·.partition = p)).getLast?.map (·.timestamp)

namespace Resequencer

variable {s s' : Resequencer α} {p : PartitionId} {producers : List PartitionId}
  {ended : PartitionId → Bool} {latest : PartitionId → Option Timestamp} {log : List (Attempt α)}

/-- A state agrees with its history on who is done and on the latest timestamps, and the partitions
of those who are not done are open. -/
structure Recalls (producers : List PartitionId) (ended : PartitionId → Bool)
    (latest : PartitionId → Option Timestamp) (s : Resequencer α) : Prop where
  flushed : ∀ p, s.flushed.contains p = (decide (p ∈ producers) && ended p)
  unknown : ∀ p, p ∉ producers → s.merger.lane? p = none
  waiting : ∀ p ∈ producers, ended p = false → ∃ lane, s.merger.lane? p = some lane
  latest : ∀ p lane, s.merger.lane? p = some lane → lane.last = latest p

theorem received_drain (k : Outlet ω α) (s : Resequencer α) (w : ω) :
    (s.drain k w).2.1.stats.received = s.stats.received := by
  simp only [drain]
  repeat' split
  all_goals rfl

theorem flushed_drain (k : Outlet ω α) (s : Resequencer α) (w : ω) :
    (s.drain k w).2.1.flushed = s.flushed := by
  simp only [drain]
  repeat' split
  all_goals rfl

/-- The fault of a drain is a refusal that it met. -/
theorem Drains.refused_of_error {fault : Fault} {new : List (Attempt α)}
    (h : Drains s (.error fault) s' new) : ∃ a ∈ new, a.answer = .error fault := by
  cases h with
  | refused records refusal => exact refusal
  | unflushed records taken none =>
    exact ⟨_, List.mem_append_right _ (List.mem_singleton_self _), rfl⟩

section Feed

variable [Record α] {policy : Policy α} {msg : Message α}

theorem Takes.received (h : Takes policy s msg s') : s'.stats.received = s.stats.received + 1 := by
  cases h <;> rfl

theorem feed_of_unknown (hp : s.progress ≠ .done) (hf : s.flushed.contains p = false)
    (hl : s.merger.lane? p = none) (payload : Payload α) (k : Outlet ω α) (w : ω) :
    s.feed policy k ⟨p, payload⟩ w = (.error (.partitionNotOpen p), (s.receive, w)) := by
  cases payload with
  | record record => exact feed_of_add_error hp hf (by rw [Merger.add, hl]) k w
  | flush => exact feed_of_disable_error hp hf (by rw [Merger.disable, hl]) k w

/-- Feeding a message follows the verdict. -/
theorem Recalls.feed (h : Recalls producers ended latest s) (hp : s.progress ≠ .done)
    (policy : Policy α) (k : Outlet ω α) (msg : Message α) (w : ω) :
    match verdict policy producers ended latest msg with
    | .repeated => s.feed policy k msg w = (.ok 0, (s.receive, w))
    | .refused fault => s.feed policy k msg w = (.error fault, (s.receive, w))
    | .accepted => ∃ s', Takes policy s msg s' := by
  obtain ⟨p, payload⟩ := msg
  have hflushed := h.flushed p
  by_cases hm : p ∈ producers
  · rw [decide_eq_true hm, Bool.true_and] at hflushed
    rw [verdict, if_neg (not_not.2 hm)]
    cases he : ended p with
    | true =>
      rw [he] at hflushed
      cases payload with
      | record record => simp only [if_true, feed_of_ended_record hp hflushed]
      | flush => simp only [if_true, feed_of_ended_flush hp hflushed]
    | false =>
      rw [he] at hflushed
      obtain ⟨lane, hl⟩ := h.waiting p hm he
      cases payload with
      | flush =>
        simp only [Bool.false_eq_true, if_false]
        exact ⟨_, .flush hflushed (Option.isSome_of_eq_some hl)⟩
      | record record =>
        simp only [Bool.false_eq_true, if_false, ← h.latest p lane hl]
        cases ht : policy.rule.timestamp record with
        | error fault => exact feed_of_add_error hp hflushed (Merger.add_of_error hl ht) k w
        | ok ts =>
          have htakes : (policy.checkOrder = true → ∀ t ∈ lane.last, t ≤ ts) →
              ∃ s', Takes policy s ⟨p, .record record⟩ s' :=
            fun hforward => ⟨_, .record (e := ⟨p, ts, record⟩) hflushed hl ht hforward⟩
          cases hlast : lane.last with
          | none => exact htakes (by simp [hlast])
          | some previous =>
            by_cases hback : ts < previous ∧ policy.checkOrder = true
            · have hadd := Merger.add_of_back hl ht hback.2 hlast hback.1
              simp only [if_pos hback]
              exact feed_of_add_error hp hflushed hadd k w
            · simp only [if_neg hback]
              refine htakes fun hc t hmem => ?_
              rw [hlast, Option.mem_some_iff] at hmem
              rw [← hmem]
              exact Int.not_lt.1 fun hlt => hback ⟨hlt, hc⟩
  · rw [decide_eq_false hm, Bool.false_and] at hflushed
    rw [verdict, if_pos hm]
    exact feed_of_unknown hp hflushed (h.unknown p hm) payload k w

omit [Record α] in
/-- With the flush passed on, every producer is done. -/
theorem Sound.contains_of_done (h : Sound producers s log) (hd : s.progress = .done)
    (hp : p ∈ producers) : s.flushed.contains p = true := by
  obtain ⟨a, ha, hflush, _⟩ := h.done.1 hd
  exact h.gone p hp (Merger.openCount_eq_zero_iff.1 (h.shut a ha hflush) p)

/-- A flush takes its sender for done, if that is one of the producers. -/
theorem Aligned.contains_feed_flush (h : Aligned producers s)
    (unknown : ∀ p, p ∉ producers → s.merger.lane? p = none) (hne : s.progress ≠ .done)
    (policy : Policy α) (k : Outlet ω α) (w : ω) (q p : PartitionId) :
    (s.feed policy k ⟨q, .flush⟩ w).2.1.flushed.contains p =
      (s.flushed.contains p || (decide (p ∈ producers) && q == p)) := by
  cases hf : s.flushed.contains q with
  | true =>
    rw [feed_of_ended_flush hne hf, flushed_receive]
    by_cases hq : q = p
    · rw [← hq, hf, Bool.true_or]
    · rw [beq_false_of_ne hq, Bool.and_false, Bool.or_false]
  | false =>
    cases hl : s.merger.lane? q with
    | none =>
      have hq : q ∉ producers := fun hm => by
        rw [h.gone q hm (Merger.standing_eq_none.2 hl)] at hf
        cases hf
      rw [feed_of_unknown hne hf hl, flushed_receive]
      by_cases hp : q = p
      · rw [← hp, decide_eq_false hq, Bool.false_and, Bool.or_false]
      · rw [beq_false_of_ne hp, Bool.and_false, Bool.or_false]
    | some lane =>
      have hq : q ∈ producers := by
        by_contra hq
        rw [unknown q hq] at hl
        cases hl
      have htakes : Takes policy s ⟨q, .flush⟩ (s.receive.silence q) :=
        .flush hf (Option.isSome_of_eq_some hl)
      rw [feed_of_takes hne htakes, flushed_drain, flushed_silence, flushed_receive,
        Table.contains_insert]
      by_cases hp : p = q
      · rw [if_pos hp, hp, decide_eq_true hq, beq_self_eq_true, Bool.and_true, Bool.or_true]
      · rw [if_neg hp, beq_false_of_ne (Ne.symm hp), Bool.and_false, Bool.or_false]

theorem flushed_feed_record (policy : Policy α) (k : Outlet ω α) (q : PartitionId) (record : α)
    (s : Resequencer α) (w : ω) :
    (s.feed policy k ⟨q, .record record⟩ w).2.1.flushed = s.flushed := by
  rcases feed_cases policy k ⟨q, .record record⟩ s w with
    ⟨_, s', htaken, he⟩ | ⟨_, hflush, _⟩ | ⟨fault, he⟩
  · rw [he, flushed_drain]
    cases htaken with
    | record fresh found keyed forward => rfl
  · cases hflush
  · rw [he]
    split <;> rfl

/-- A command takes for done whom it says to be done, if that is one of the producers. -/
theorem contains_obey (h : Sound producers s log)
    (unknown : ∀ p, p ∉ producers → s.merger.lane? p = none) (policy : Policy α) (k : Outlet ω α)
    (w : ω) (c : Command α) (p : PartitionId) :
    (s.obey policy k w c).2.1.flushed.contains p =
      (s.flushed.contains p || (decide (p ∈ producers) && c.ends p)) := by
  by_cases hd : s.progress = .done
  · -- a command changes nothing any more, and a producer is done already
    have hsame : (s.obey policy k w c).2.1 = s := by
      rcases c with msg | _ | _
      · rw [obey, feed, if_pos hd]
      · rw [obey, drain_of_done hd]
      · rw [obey, disableAll, if_pos hd]
    rw [hsame]
    by_cases hp : p ∈ producers
    · rw [h.contains_of_done hd hp, Bool.true_or]
    · rw [decide_eq_false hp, Bool.false_and, Bool.or_false]
  cases c with
  | feed msg =>
    obtain ⟨q, payload⟩ := msg
    cases payload with
    | record record =>
      rw [obey, flushed_feed_record]
      simp only [Command.ends, Bool.and_false, Bool.or_false]
    | flush => exact h.contains_feed_flush unknown hd policy k w q p
  | drain =>
    rw [obey, flushed_drain]
    simp only [Command.ends, Bool.and_false, Bool.or_false]
  | disableAll =>
    rw [obey, disableAll_eq_drain hd, flushed_drain, contains_silenceAll, Command.ends,
      Bool.and_true]
    by_cases hp : p ∈ producers
    · rw [decide_eq_true hp, Bool.or_true]
      cases hs : s.merger.standing p with
      | none => rw [h.gone p hp hs, Bool.true_or]
      | some b => exact Bool.or_true _
    · rw [Merger.standing_eq_none.2 (unknown p hp), decide_eq_false hp, Option.isSome_none]

end Feed

section Runs

variable [Record α] {policy : Policy α} {accepted : List (Entry α)} {w : Logged ω α}

/-- Whom the commands say to be done is done after them, in addition to who was before. -/
theorem contains_after (hs : Sound producers s w.attempts)
    (h : Accounts policy producers accepted s.merger w.attempts) (k : Outlet ω α)
    (cs : List (Command α)) (p : PartitionId) :
    (after policy k.logged cs s w).1.flushed.contains p =
      (s.flushed.contains p || (decide (p ∈ producers) && cs.any (·.ends p))) := by
  induction cs generalizing s w accepted with
  | nil => rw [after, List.any_nil, Bool.and_false, Bool.or_false]
  | cons c cs ih =>
    have hunknown : ∀ q, q ∉ producers → s.merger.lane? q = none := fun q hq =>
      Merger.standing_eq_none.1 (h.standing_eq_none hq)
    rw [after, ih (hs.obey policy k c).1 (obey_accounted hs.toAligned h k c),
      contains_obey hs hunknown, List.any_cons, Bool.and_or_distrib_left, Bool.or_assoc]

theorem recalls_after (policy : Policy α) (producers : List PartitionId) (k : Outlet ω α) (w : ω)
    (cs : List (Command α)) : Recalls producers (fun p => cs.any (·.ends p))
      (latestOf (arrivals policy k.logged cs (ofProducers producers) { state := w }))
      (after policy k.logged cs (ofProducers producers) { state := w }).1 := by
  have hstart : Sound producers (ofProducers producers : Resequencer α) [] :=
    sound_ofProducers producers
  have hopening : Accounts policy producers [] (ofProducers producers : Resequencer α).merger
      ([] : List (Attempt α)) := accounts_opening policy producers
  have hcontains := contains_after (w := { state := w }) hstart hopening k cs
  have hbooks := after_accounted (w := { state := w }) hstart hopening k cs
  obtain ⟨hs, _⟩ := Sound.after (w := { state := w }) policy k hstart cs
  refine ⟨hcontains, ?_, ?_, ?_⟩
  · exact fun p hp => Merger.standing_eq_none.1 (hbooks.standing_eq_none hp)
  · intro p hp hended
    rw [← Option.ne_none_iff_exists', Ne, ← Merger.standing_eq_none]
    intro hclosed
    have hflushed := hcontains p
    rw [hs.gone p hp hclosed, hended, Bool.and_false] at hflushed
    cases hflushed
  · obtain ⟨l, hmerger, haccepted, hl⟩ := hbooks
    have hbalanced := (Ledger.balanced_opening producers).steps hl.steps
    intro p lane hlane
    rw [← hmerger] at hlane
    rw [hbalanced.latest p lane hlane, Ledger.latest?, Ledger.acceptedOn, haccepted, latestOf]
    rfl

/-- After any commands to a resequencer with any outlet, whatever was refused, a message that is fed
comes to what the contract makes of it. A resequencer that is done is left as it was; any other counts
the message. One more flush of a producer that is done is answered with nothing, and what the contract
forbids with its fault, and neither changes anything else, the outlet included. Whatever is left is
taken, and then it is only the outlet that can fail. -/
theorem feed_verdict (policy : Policy α) (producers : List PartitionId) (k : Outlet ω α) (w : ω)
    (cs : List (Command α)) (msg : Message α) :
    let start : Resequencer α := ofProducers producers
    let s := (after policy k.logged cs start { state := w }).1
    let seen := (after policy k.logged cs start { state := w }).2
    let accepted := arrivals policy k.logged cs start { state := w }
    let fed := s.feed policy k.logged msg seen
    let counted := { s with stats.received := s.stats.received + 1 }
    after policy k cs start w = (s, seen.state) ∧
    (s.progress = .done → fed = (.error .terminated, (s, seen))) ∧
    (s.progress ≠ .done →
      match verdict policy producers (fun p => cs.any (·.ends p)) (latestOf accepted) msg with
      | .repeated => fed = (.ok 0, (counted, seen))
      | .refused fault => fed = (.error fault, (counted, seen))
      | .accepted => ∃ s' new, Takes policy s msg s' ∧ fed = s'.drain k.logged seen ∧
        fed.2.1.stats.received = s.stats.received + 1 ∧
        fed.2.2.attempts = seen.attempts ++ new ∧
        ∀ fault, fed.1 = .error fault → ∃ a ∈ new, a.answer = .error fault) := by
  intro start s seen accepted fed counted
  refine ⟨after_seen k.shownBy_logged policy cs start { state := w }, ?_, fun hne => ?_⟩
  · intro hd
    simp only [fed, feed, if_pos hd]
  have h := (recalls_after policy producers k w cs).feed hne policy k.logged msg seen
  cases hv : verdict policy producers (fun p => cs.any (·.ends p)) (latestOf accepted) msg with
  | repeated =>
    rw [hv] at h
    exact h
  | refused fault =>
    rw [hv] at h
    exact h
  | accepted =>
    rw [hv] at h
    obtain ⟨s', htakes⟩ := h
    have hne' : s'.progress ≠ .done := by rwa [htakes.progress]
    have hfed : fed = s'.drain k.logged seen := feed_of_takes hne htakes k.logged seen
    have hreceived : fed.2.1.stats.received = s.stats.received + 1 := by
      rw [hfed, received_drain, htakes.received]
    obtain ⟨answer, s'', seen', new, hdrain, hlog, hdrains⟩ := drain_logged hne' k seen
    refine ⟨s', new, htakes, hfed, hreceived, ?_, fun fault hfault => ?_⟩
    · rw [hfed, hdrain, hlog]
    · rw [hfed, hdrain] at hfault
      have hfault : answer = .error fault := hfault
      rw [hfault] at hdrains
      exact hdrains.refused_of_error

end Runs

/-- Three commands, after which one producer is done and the other is not. -/
def openCommands : List (Command Int) :=
  [.feed ⟨0, .record 5⟩, .feed ⟨1, .record 3⟩, .feed ⟨0, .flush⟩]

/-- A channel that lets nobody wait refused the one record of a producer. That producer may not go
back before it all the same, and the others may do no more than the contract says. -/
theorem feed_verdict_bounded :
    let k : Outlet (Logged (Channel Int) Int) Int := (Outlet.bounded false).logged
    let s := (after .selfKeyed k openCommands (ofProducers [0, 1]) { state := {} }).1
    let seen := (after .selfKeyed k openCommands (ofProducers [0, 1]) { state := {} }).2
    seen.attempts.map (·.isTaken) = [false] ∧
      s.feed .selfKeyed k ⟨1, .record 1⟩ seen = (.error (.outOfOrder 1 3 1), (s.receive, seen)) ∧
      s.feed .selfKeyed k ⟨0, .record 7⟩ seen = (.error (.producerFlushed 0), (s.receive, seen)) ∧
      s.feed .selfKeyed k ⟨0, .flush⟩ seen = (.ok 0, (s.receive, seen)) ∧
      s.feed .selfKeyed k ⟨2, .flush⟩ seen = (.error (.partitionNotOpen 2), (s.receive, seen)) := by
  intro k s seen
  have hrun : (s.progress, seen.attempts.map (·.isTaken)) = (.active, [false]) := by
    -- a release evaluates only as departures that are counted beforehand
    simp only [s, seen, k, openCommands, after, obey, feed, drain, Merger.release_eq_offer,
      Merger.drain_eq_take (Nat.le_refl _)]
    decide
  have haccepted : arrivals .selfKeyed k openCommands (ofProducers [0, 1]) { state := {} } =
      [⟨0, 5, 5⟩, ⟨1, 3, 3⟩] := by
    simp only [k, openCommands, arrivals, obey, feed, drain, Merger.release_eq_offer,
      Merger.drain_eq_take (Nat.le_refl _)]
    decide
  obtain ⟨hactive, htaken⟩ := Prod.mk.inj hrun
  have hne : s.progress ≠ .done := by rw [hactive]; decide
  have hback := (feed_verdict .selfKeyed [0, 1] (Outlet.bounded false) {} openCommands
    ⟨1, .record 1⟩).2.2 hne
  have hlate := (feed_verdict .selfKeyed [0, 1] (Outlet.bounded false) {} openCommands
    ⟨0, .record 7⟩).2.2 hne
  have hagain := (feed_verdict .selfKeyed [0, 1] (Outlet.bounded false) {} openCommands
    ⟨0, .flush⟩).2.2 hne
  have hstranger := (feed_verdict .selfKeyed [0, 1] (Outlet.bounded false) {} openCommands
    ⟨2, .flush⟩).2.2 hne
  rw [haccepted] at hback hlate hagain hstranger
  exact ⟨htaken, hback, hlate, hagain, hstranger⟩

end Resequencer

end TimeMerge
