import TimeMerge.Proofs.Forwarding
import TimeMerge.Proofs.Frontier
import TimeMerge.Proofs.Reception

/-!
# When a channel is served to the end

A run over a channel finishes just when each of its producers has flushed, and there is one. Without
producers nothing is ever taken, so nothing drains, and the run ends as one that had no more messages. -/
namespace TimeMerge.Resequencer

variable [Record α] {policy : Policy α} {producers : List PartitionId} {s : Resequencer α}
  {k : Outlet ω α} {w : ω} {msgs sent more : List (Message α)} {l : Ledger α}
  {calls : List (Signal α)}

/-- Fed one by one, no message is refused before the flush is passed on. -/
def Accepts (policy : Policy α) (k : Outlet ω α) (msgs : List (Message α)) (s : Resequencer α)
    (w : ω) : Prop :=
  ∀ sent msg rest, msgs = sent ++ msg :: rest → (fed policy k sent s w).1.progress ≠ .done →
    ∃ count, ((fed policy k sent s w).1.feed policy k msg (fed policy k sent s w).2).1 = .ok count

/-- Without a refusal all messages are served, or those up to where the flush is passed on. -/
theorem Accepts.exists_taken (h : Accepts policy k msgs s w) (hp : s.progress ≠ .done) :
    ∃ sent more, msgs = sent ++ more ∧ Taken policy k sent s w ∧
      (more ≠ [] → (fed policy k sent s w).1.progress = .done) := by
  rcases fed_cases hp policy k msgs w with ⟨sent, msg, rest, fault, hmsgs, _, hopen, hfault⟩ |
    ⟨sent, more, hmsgs, htaken, hdone⟩ | ⟨htaken, _⟩
  · obtain ⟨count, hcount⟩ := h sent msg rest hmsgs hopen
    rw [hfault] at hcount
    cases hcount
  · exact ⟨sent, more, hmsgs, htaken, fun _ => hdone⟩
  · exact ⟨msgs, [], (List.append_nil _).symm, htaken, fun hne => absurd rfl hne⟩

theorem fed_of_done (policy : Policy α) (k : Outlet ω α) (hp : s.progress = .done)
    (msgs : List (Message α)) (w : ω) : fed policy k msgs s w = (s, w) := by
  induction msgs with
  | nil => rfl
  | cons msg msgs ih =>
    rw [fed_cons, feed, if_pos hp]
    exact ih

/-- What is sent behind the point where the flush is passed on is not refused, as nobody feeds it. -/
theorem Taken.accepts (h : Taken policy k sent s w)
    (hmore : more ≠ [] → (fed policy k sent s w).1.progress = .done) :
    Accepts policy k (sent ++ more) s w := by
  intro first msg rest hsplit hopen
  rcases List.append_eq_append_iff.1 hsplit with ⟨as, rfl, hbehind⟩ | ⟨bs, rfl, hwithin⟩
  · have hdone := hmore (by simp [hbehind])
    have hstays : fed policy k (sent ++ as) s w = fed policy k sent s w := by
      rw [fed, List.map_append, after_append]
      exact fed_of_done policy k hdone as _
    rw [hstays] at hopen
    exact absurd hdone hopen
  · cases bs with
    | nil =>
      rw [List.append_nil] at hmore
      rw [List.nil_append] at hwithin
      exact absurd (hmore (by simp [← hwithin])) hopen
    | cons msg' bs =>
      obtain ⟨rfl, -⟩ := List.cons.inj hwithin
      refine h _ ?_
      rw [List.map_append, replies_append]
      exact List.mem_append_right _ List.mem_cons_self

theorem forward_of_taken (hp : s.progress ≠ .done) (h : Taken policy k sent s w)
    (hmore : more ≠ [] → (fed policy k sent s w).1.progress = .done) :
    s.forward policy k (sent ++ more) w =
      (.ok { stats := (fed policy k sent s w).1.stats
             finished := (fed policy k sent s w).1.progress = .done }, (fed policy k sent s w).2) := by
  have hserve : s.serve policy k (sent ++ more) w = (.ok (), fed policy k sent s w) := by
    rw [serve_of_taken hp h more]
    split
    · rfl
    · rename_i hopen
      obtain rfl := Classical.not_not.1 (mt hmore hopen)
      rfl
  rw [forward, hserve]
  rfl

/-- At rest nobody is left just when each producer has flushed. -/
theorem Rests.openCount_eq_zero_iff (r : Rests policy producers msgs l s calls) :
    s.merger.openCount = 0 ↔ ∀ p ∈ producers, ⟨p, .flush⟩ ∈ msgs := by
  rw [Merger.openCount_eq_zero_iff]
  constructor
  · intro h p hp
    exact (r.ended p).1 (r.gone p hp (h p))
  · intro h p
    have hnobody : ∀ q, s.merger.isEnabled q = false := by
      intro q
      rw [← Bool.not_eq_true, r.isEnabled_iff]
      rintro ⟨hq, hfresh⟩
      simp [(r.ended q).2 (h q hq)] at hfresh
    -- who is done is closed, as nothing is left in any partition
    cases hs : s.merger.standing p with
    | none => rfl
    | some b =>
      cases b with
      | true =>
        have hp := hnobody p
        rw [Merger.isEnabled_iff_standing.2 hs] at hp
        cases hp
      | false =>
        exact absurd (Merger.queued_eq_nil_of_settled r.settled hnobody p) (r.closed p hs)

/-- The flush is passed on just when each producer has flushed, and there is one. -/
theorem Rests.done_iff (r : Rests policy producers msgs l s calls) :
    s.progress = .done ↔ producers ≠ [] ∧ ∀ p ∈ producers, ⟨p, .flush⟩ ∈ msgs := by
  rw [← r.openCount_eq_zero_iff, r.progress]
  by_cases hnone : producers = [] <;> by_cases hopen : s.merger.openCount = 0 <;>
    simp [hnone, hopen]

/-- Once the flush is passed on, all that was sent has gone before it. -/
theorem Rests.perm_of_done (r : Rests policy producers msgs l s calls) (h : s.progress = .done) :
    l.released.Perm (policy.sent msgs) := by
  have hopen := r.openCount_eq_zero_iff.2 (r.done_iff.1 h).2
  have hfront : l.merger.front = [] := by
    rw [List.eq_nil_iff_forall_not_mem, r.merger]
    intro p hp
    rw [Merger.mem_front_iff, Merger.isEnabled_iff_standing,
      Merger.openCount_eq_zero_iff.1 hopen p] at hp
    cases hp
  rw [← r.accepted]
  exact r.balanced.released_perm hfront (by rw [r.merger, r.settled])

/-- With an outlet that refuses nothing and messages none of which is refused, serving a channel that
is closed behind them ends without a fault. It finishes if there are producers and each has sent a
flush; then all records taken were handed over, and one flush after them. Else the outlet has seen
records alone. Without producers it does not finish. -/
theorem forward_completes (policy : Policy α) (producers : List PartitionId)
    (msgs : List (Message α)) (hk : k.NeverFails w)
    (ha : Accepts policy k msgs (ofProducers producers) w) :
    ∃ (sent more : List (Message α)) (emitted : List (Entry α)) (stats : ResequencerStats)
      (finished : Bool),
      msgs = sent ++ more ∧ Taken policy k sent (ofProducers producers) w ∧
      (more ≠ [] → finished = true) ∧
      (ofProducers producers).forward policy k msgs w = (.ok { stats, finished },
        k.replay (emitted.map (.record ·.record) ++ if finished then [.flush] else []) w) ∧
      (finished = true ↔ producers ≠ [] ∧ ∀ p ∈ producers, ⟨p, .flush⟩ ∈ msgs) ∧
      (finished = true → emitted.Perm (policy.sent sent)) ∧
      stats.received = sent.length ∧ stats.forwarded = emitted.length := by
  have hstart : (ofProducers producers : Resequencer α).progress ≠ .done := by
    rw [progress_ofProducers]
    split <;> decide
  obtain ⟨sent, more, rfl, htaken, hmore⟩ := ha.exists_taken hstart
  obtain ⟨counts, l, s, calls, r⟩ := exists_reaches hk htaken
  have hfed : fed policy k sent (ofProducers producers) w = (s, k.replay calls w) :=
    r.served.after k w hk
  have hforward := forward_of_taken hstart htaken hmore
  rw [hfed] at hmore hforward
  have hall : (∀ p ∈ producers, ⟨p, .flush⟩ ∈ sent ++ more) ↔ ∀ p ∈ producers, ⟨p, .flush⟩ ∈ sent := by
    by_cases hnone : more = []
    · rw [hnone, List.append_nil]
    · have hsent := (r.done_iff.1 (hmore hnone)).2
      exact ⟨fun _ => hsent, fun _ p hp => List.mem_append_left _ (hsent p hp)⟩
  refine ⟨sent, more, l.released, s.stats, s.progress = .done, rfl, htaken, ?_, ?_, ?_, ?_,
    r.received, r.forwarded⟩
  · simpa using hmore
  · rw [hforward, r.seen]
    simp only [decide_eq_true_eq, Ledger.signals]
  · rw [decide_eq_true_eq, r.done_iff, hall]
  · rw [decide_eq_true_eq]
    exact r.perm_of_done

/-- One of two producers flushes twice, and its last record comes when all is over. -/
def repeatedFlush : List (Message Int) :=
  [⟨0, .record 5⟩, ⟨0, .flush⟩, ⟨1, .record 3⟩, ⟨0, .flush⟩, ⟨1, .flush⟩]

theorem forward_completes_repeated : ∃ stats,
    ((ofProducers [0, 1]).forward .selfKeyed Outlet.collect (repeatedFlush ++ [⟨0, .record 9⟩]) []).1 =
      .ok { stats, finished := true } := by
  have hrun : ((replies .selfKeyed Outlet.collect (repeatedFlush.map .feed)
        (ofProducers [0, 1]) []).all (·.toOption.isSome),
      (fed .selfKeyed Outlet.collect repeatedFlush (ofProducers [0, 1]) []).1.progress) =
      (true, .done) := by
    -- a release evaluates only as departures that are counted beforehand
    simp only [repeatedFlush, fed, List.map_cons, List.map_nil, replies, after, obey, feed, drain,
      Merger.release_eq_offer, Merger.drain_eq_take (Nat.le_refl _)]
    decide
  simp only [Prod.mk.injEq, List.all_eq_true] at hrun
  obtain ⟨hreplies, hdone⟩ := hrun
  have htaken : Taken .selfKeyed Outlet.collect repeatedFlush (ofProducers [0, 1]) [] := by
    intro answer ha
    have hsome := hreplies answer ha
    cases answer with
    | error fault => cases hsome
    | ok count => exact ⟨count, rfl⟩
  obtain ⟨sent, more, emitted, stats, finished, _, _, _, hforward, hfinished, _⟩ :=
    forward_completes .selfKeyed [0, 1] (repeatedFlush ++ [⟨0, .record 9⟩])
      (Outlet.neverFails_collect []) (htaken.accepts fun _ => hdone)
  obtain rfl := hfinished.2 (by decide)
  exact ⟨stats, by rw [hforward]⟩

/-- Without producers there is nobody who has not flushed, and still the run does not finish. -/
theorem not_finished_without_producers :
    Outlet.collect.NeverFails ([] : List Int) ∧
    Accepts .selfKeyed .collect [] (ofProducers []) [] ∧
    (∀ p ∈ ([] : List PartitionId), (⟨p, .flush⟩ : Message Int) ∈ ([] : List (Message Int))) ∧
    (ofProducers []).forward .selfKeyed .collect [] [] =
      (.ok { stats := {}, finished := false }, []) := by
  refine ⟨Outlet.neverFails_collect [], ?_, by simp, rfl⟩
  intro sent msg rest hsplit
  simp at hsplit

end TimeMerge.Resequencer
