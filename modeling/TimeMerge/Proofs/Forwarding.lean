import Mathlib.Data.List.Induction
import TimeMerge.Proofs.Calls
import TimeMerge.Proofs.Progress

/-!
# Serving a channel

What comes out of serving a channel is what feeding its messages one by one comes to, up to the first
fault or until the flush is passed on. Nothing is fed after that, whatever else the channel holds. -/
namespace TimeMerge.Resequencer

variable [Record α] {policy : Policy α} {k : Outlet ω α} {s s' : Resequencer α} {w w' : ω}
  {msg : Message α} {sent msgs : List (Message α)}

/-- The state after feeding messages one by one, given whatever the answers are. -/
def fed (policy : Policy α) (k : Outlet ω α) (msgs : List (Message α)) (s : Resequencer α) (w : ω) :
    Resequencer α × ω :=
  after policy k (msgs.map .feed) s w

/-- None of the messages, fed one by one, comes to a fault. -/
def Taken (policy : Policy α) (k : Outlet ω α) (msgs : List (Message α)) (s : Resequencer α) (w : ω) :
    Prop :=
  ∀ answer ∈ replies policy k (msgs.map .feed) s w, ∃ count, answer = .ok count

theorem fed_cons (policy : Policy α) (k : Outlet ω α) (msg : Message α) (msgs : List (Message α))
    (s : Resequencer α) (w : ω) : fed policy k (msg :: msgs) s w =
      fed policy k msgs (s.feed policy k msg w).2.1 (s.feed policy k msg w).2.2 := rfl

theorem fed_concat (policy : Policy α) (k : Outlet ω α) (msgs : List (Message α)) (msg : Message α)
    (s : Resequencer α) (w : ω) : fed policy k (msgs ++ [msg]) s w =
      ((fed policy k msgs s w).1.feed policy k msg (fed policy k msgs s w).2).2 := by
  rw [fed, List.map_append, after_append]
  rfl

theorem taken_cons : Taken policy k (msg :: msgs) s w ↔
    (∃ count, (s.feed policy k msg w).1 = .ok count) ∧
      Taken policy k msgs (s.feed policy k msg w).2.1 (s.feed policy k msg w).2.2 :=
  List.forall_mem_cons

theorem Taken.concat (h : Taken policy k msgs s w) {count : Nat}
    (hmsg : ((fed policy k msgs s w).1.feed policy k msg (fed policy k msgs s w).2).1 = .ok count) :
    Taken policy k (msgs ++ [msg]) s w := by
  intro answer ha
  rw [List.map_append, replies_append, List.mem_append] at ha
  rcases ha with ha | ha
  · exact h answer ha
  · exact ⟨count, (List.mem_singleton.1 ha).trans hmsg⟩

/-- A message is taken only as long as the flush has not been passed on. -/
theorem Taken.eq_nil_of_done (h : Taken policy k msgs s w) (hp : s.progress = .done) : msgs = [] := by
  cases msgs with
  | nil => rfl
  | cons msg msgs =>
    obtain ⟨⟨count, hcount⟩, _⟩ := taken_cons.1 h
    rw [feed, if_pos hp] at hcount
    cases hcount

/-- Messages that are taken are all served, and the rest only if the flush is still to come. -/
theorem serve_of_taken (hp : s.progress ≠ .done) (h : Taken policy k sent s w)
    (more : List (Message α)) : s.serve policy k (sent ++ more) w =
      if (fed policy k sent s w).1.progress = .done then (.ok (), fed policy k sent s w)
      else (fed policy k sent s w).1.serve policy k more (fed policy k sent s w).2 := by
  induction sent generalizing s w with
  | nil => exact (if_neg hp).symm
  | cons msg sent ih =>
    obtain ⟨⟨count, hcount⟩, hrest⟩ := taken_cons.1 h
    rw [fed_cons]
    rcases hfeed : s.feed policy k msg w with ⟨answer, s', w'⟩
    rw [hfeed] at hcount hrest
    cases hcount
    rw [List.cons_append, serve, hfeed]
    by_cases hdone : s'.progress = .done
    · obtain rfl := hrest.eq_nil_of_done hdone
      rw [fed, List.map_nil, after]
      simp only [if_pos hdone]
    · simp only [if_neg hdone]
      exact ih hdone hrest

/-- Feeding either comes to a fault before the flush is passed on, or to the point where it is, or
to the end of the messages. -/
theorem fed_cases (hp : s.progress ≠ .done) (policy : Policy α) (k : Outlet ω α)
    (msgs : List (Message α)) (w : ω) :
    (∃ sent msg rest fault, msgs = sent ++ msg :: rest ∧ Taken policy k sent s w ∧
      (fed policy k sent s w).1.progress ≠ .done ∧
      ((fed policy k sent s w).1.feed policy k msg (fed policy k sent s w).2).1 = .error fault) ∨
    (∃ sent more, msgs = sent ++ more ∧ Taken policy k sent s w ∧
      (fed policy k sent s w).1.progress = .done) ∨
    Taken policy k msgs s w ∧ (fed policy k msgs s w).1.progress ≠ .done := by
  induction msgs using List.reverseRecOn with
  | nil => exact .inr (.inr ⟨by simp [Taken, replies], hp⟩)
  | append_singleton msgs msg ih =>
    rcases ih with ⟨sent, first, rest, fault, rfl, htaken, hopen, hfault⟩ |
      ⟨sent, more, rfl, htaken, hdone⟩ | ⟨htaken, hopen⟩
    · exact .inl ⟨sent, first, rest ++ [msg], fault, by simp, htaken, hopen, hfault⟩
    · exact .inr (.inl ⟨sent, more ++ [msg], by simp, htaken, hdone⟩)
    · rcases hfeed : ((fed policy k msgs s w).1.feed policy k msg (fed policy k msgs s w).2).1 with
        fault | count
      · exact .inl ⟨msgs, msg, [], fault, rfl, htaken, hopen, hfeed⟩
      · have hall := htaken.concat hfeed
        by_cases hdone : (fed policy k (msgs ++ [msg]) s w).1.progress = .done
        · exact .inr (.inl ⟨msgs ++ [msg], [], by simp, hall, hdone⟩)
        · exact .inr (.inr ⟨hall, hdone⟩)

/-- Where the fault of a message can come from before the flush is passed on: its producer, the order
of records, the rule for their timestamps, or the outlet. -/
inductive Cause (policy : Policy α) (msg : Message α) (tried : List (Attempt α)) (fault : Fault) :
    Prop where
  | unknown (closed : fault = .partitionNotOpen msg.producer)
  | flushed (late : fault = .producerFlushed msg.producer)
  | order {previous ts : Timestamp} (back : fault = .outOfOrder msg.producer previous ts)
  | rule {record : α} (sent : msg.payload = .record record)
      (failed : policy.rule.timestamp record = .error fault)
  | outlet {a : Attempt α} (tried : a ∈ tried) (refused : a.answer = .error fault)

variable {fault : Fault}

theorem drain_cause {w : Logged ω α} (hp : s.progress ≠ .done)
    (h : (s.drain k.logged w).1 = .error fault) (policy : Policy α) (msg : Message α) :
    Cause policy msg (s.drain k.logged w).2.2.attempts fault := by
  obtain ⟨answer, s', w', new, hdrain, hlog, hdrains⟩ := drain_logged hp k w
  rw [hdrain] at h ⊢
  obtain rfl : answer = .error fault := h
  rw [hlog]
  cases hdrains with
  | refused records refusal =>
    obtain ⟨a, ha, hanswer⟩ := refusal
    exact .outlet (List.mem_append_right _ ha) hanswer
  | unflushed records taken none =>
    exact .outlet (List.mem_append_right _ (List.mem_append_right _ List.mem_cons_self)) rfl

theorem add_cause {p : PartitionId} {record : α} {m m' : Merger α}
    (h : m.add policy p record = (.error fault, m')) (tried : List (Attempt α)) :
    Cause policy ⟨p, .record record⟩ tried fault := by
  obtain ⟨⟨_, rfl⟩ | ⟨_, _, hrule | ⟨_, _, _, _, _, _, rfl⟩⟩, _⟩ := Merger.add_eq_error_iff.1 h
  · exact .unknown rfl
  · exact .rule rfl hrule
  · exact .order rfl

theorem disable_cause {p : PartitionId} {m m' : Merger α} (h : m.disable p = (.error fault, m'))
    (tried : List (Attempt α)) : Cause policy ⟨p, .flush⟩ tried fault := by
  obtain ⟨_, rfl, _⟩ := Merger.disable_eq_error_iff.1 h
  exact .unknown rfl

theorem feed_cause {w : Logged ω α} (hp : s.progress ≠ .done)
    (h : (s.feed policy k.logged msg w).1 = .error fault) :
    Cause policy msg (s.feed policy k.logged msg w).2.2.attempts fault := by
  obtain ⟨p, payload⟩ := msg
  rw [feed, if_neg hp] at h ⊢
  cases payload with
  | flush =>
    dsimp only at h ⊢
    split at h
    · cases h
    · rename_i hfresh
      rw [if_neg hfresh]
      split at h
      · rename_i hdisable
        cases h
        exact disable_cause hdisable _
      · refine drain_cause ?_ h policy _
        exact hp
  | record record =>
    dsimp only at h ⊢
    split at h
    · cases h
      exact .flushed rfl
    · rename_i hfresh
      rw [if_neg hfresh]
      split at h
      · rename_i hadd
        cases h
        exact add_cause hadd _
      · refine drain_cause ?_ h policy _
        exact hp

/-- A fault that serving comes to is the fault of one of the messages. -/
theorem serve_cause {w : Logged ω α} (hp : s.progress ≠ .done)
    (h : (s.serve policy k.logged msgs w).1 = .error fault) :
    ∃ msg ∈ msgs, Cause policy msg (s.serve policy k.logged msgs w).2.2.attempts fault := by
  induction msgs generalizing s w with
  | nil => cases h
  | cons msg msgs ih =>
    rcases hfeed : s.feed policy k.logged msg w with ⟨answer, s', w'⟩
    rw [serve, hfeed] at h ⊢
    cases answer with
    | error fault' =>
      cases h
      have hcause : Cause policy msg (s.feed policy k.logged msg w).2.2.attempts fault :=
        feed_cause hp (by rw [hfeed])
      rw [hfeed] at hcause
      exact ⟨msg, List.mem_cons_self, hcause⟩
    | ok count =>
      dsimp only at h ⊢
      split at h
      · cases h
      · rename_i hopen
        rw [if_neg hopen]
        obtain ⟨m, hm, hcause⟩ := ih hopen h
        exact ⟨m, List.mem_cons_of_mem _ hm, hcause⟩

theorem serve_seen {view : ω' → ω} {k' : Outlet ω' α} (h : k.ShownBy view k') (policy : Policy α)
    (msgs : List (Message α)) (s : Resequencer α) (w : ω') :
    s.serve policy k msgs (view w) = Outlet.seen view (s.serve policy k' msgs w) := by
  induction msgs generalizing s w with
  | nil => rfl
  | cons msg msgs ih =>
    rw [serve, serve, feed_seen h]
    rcases s.feed policy k' msg w with ⟨_ | _, s', w'⟩
    · rfl
    · simp only [Outlet.seen]
      split
      · rfl
      · exact ih s' w'

theorem serve_of_forward (h : (s.forward policy k msgs w).1 = .error fault) :
    (s.serve policy k msgs w).1 = .error fault := by
  rw [forward] at h
  rcases hserve : s.serve policy k msgs w with ⟨fault' | _, s', w'⟩
  · rw [hserve] at h
    cases h
    rfl
  · rw [hserve] at h
    cases h

/-- To have been fed when all was over is the fault neither of a producer nor of the order. -/
theorem rule_or_outlet_of_terminated (hp : s.progress ≠ .done)
    (h : (s.forward policy k msgs w).1 = .error .terminated) :
    (∃ p record, ⟨p, .record record⟩ ∈ msgs ∧
      policy.rule.timestamp record = .error .terminated) ∨
    ∃ a ∈ (s.forward policy k.logged msgs { state := w }).2.attempts,
      a.answer = .error .terminated := by
  have hseen : s.serve policy k msgs w = _ :=
    serve_seen k.shownBy_logged policy msgs s { state := w }
  have hserve := serve_of_forward h
  rw [hseen] at hserve
  obtain ⟨msg, hm, hcause⟩ := serve_cause hp hserve
  cases hcause with
  | unknown closed => cases closed
  | flushed late => cases late
  | order back => cases back
  | @rule record sent failed =>
    obtain ⟨p, payload⟩ := msg
    obtain rfl : payload = .record record := sent
    exact .inl ⟨p, record, hm, failed⟩
  | outlet tried refused => exact .inr ⟨_, tried, refused⟩

/-- If feeding comes to a fault before the flush is passed on, that is what a channel that holds these
messages comes to. If the flush is passed on, what was counted by then is the result, and the
outlet is as it was left then, whatever else the channel holds; and if neither happens, the run
does not finish and everything was fed. One of the three is the case for any channel. None of them
is the fault of feeding when all is over: that one can only be an answer of the rule for timestamps
or of the outlet. -/
theorem forward_refines (policy : Policy α) (producers : List PartitionId) (k : Outlet ω α) (w : ω) :
    let start : Resequencer α := ofProducers producers
    (∀ sent msg rest fault, Taken policy k sent start w →
      (fed policy k sent start w).1.progress ≠ .done →
      ((fed policy k sent start w).1.feed policy k msg (fed policy k sent start w).2).1 =
        .error fault →
      start.forward policy k (sent ++ msg :: rest) w =
        (.error fault, (fed policy k (sent ++ [msg]) start w).2)) ∧
    (∀ sent, Taken policy k sent start w → (fed policy k sent start w).1.progress = .done →
      ∀ more, start.forward policy k (sent ++ more) w =
        (.ok { stats := (fed policy k sent start w).1.stats, finished := true },
          (fed policy k sent start w).2)) ∧
    (∀ msgs, Taken policy k msgs start w → (fed policy k msgs start w).1.progress ≠ .done →
      start.forward policy k msgs w =
        (.ok { stats := (fed policy k msgs start w).1.stats, finished := false },
          (fed policy k msgs start w).2)) ∧
    (∀ msgs,
      (∃ sent msg rest fault, msgs = sent ++ msg :: rest ∧ Taken policy k sent start w ∧
        (fed policy k sent start w).1.progress ≠ .done ∧
        ((fed policy k sent start w).1.feed policy k msg (fed policy k sent start w).2).1 =
          .error fault) ∨
      (∃ sent more, msgs = sent ++ more ∧ Taken policy k sent start w ∧
        (fed policy k sent start w).1.progress = .done) ∨
      Taken policy k msgs start w ∧ (fed policy k msgs start w).1.progress ≠ .done) ∧
    ∀ msgs, (start.forward policy k msgs w).1 = .error .terminated →
      (∃ p record, ⟨p, .record record⟩ ∈ msgs ∧
        policy.rule.timestamp record = .error .terminated) ∨
      ∃ a ∈ (start.forward policy k.logged msgs { state := w }).2.attempts,
        a.answer = .error .terminated := by
  intro start
  have hstart : start.progress ≠ .done := by
    rw [progress_ofProducers]
    split <;> simp
  refine ⟨?_, ?_, ?_, fun msgs => fed_cases hstart policy k msgs w, ?_⟩
  · intro sent msg rest fault htaken hopen hfault
    rw [forward, serve_of_taken hstart htaken, if_neg hopen, fed_concat, serve]
    rcases hfeed : (fed policy k sent start w).1.feed policy k msg (fed policy k sent start w).2
      with ⟨answer, s', w'⟩
    rw [hfeed] at hfault
    obtain rfl : answer = .error fault := hfault
    rfl
  · intro sent htaken hdone more
    rw [forward, serve_of_taken hstart htaken, if_pos hdone]
    simp only [Except.map, hdone, decide_true]
  · intro msgs htaken hopen
    have hserve := serve_of_taken hstart htaken []
    rw [List.append_nil, if_neg hopen, serve] at hserve
    rw [forward, hserve]
    simp only [Except.map, hopen, decide_false]
  · exact fun msgs hfault => rule_or_outlet_of_terminated hstart hfault

/-- What two producers send until both have flushed, and what is sent behind that. -/
def completeMessages : List (Message Int) :=
  [⟨0, .record 5⟩, ⟨1, .record 3⟩, ⟨0, .flush⟩, ⟨1, .flush⟩]

def surplusMessages : List (Message Int) := [⟨1, .record 7⟩, ⟨0, .flush⟩, ⟨9, .flush⟩]

/-- Messages that nobody would take any more are left in the channel. -/
theorem forward_refines_surplus :
    (ofProducers [0, 1]).forward .selfKeyed Outlet.collect (completeMessages ++ surplusMessages) [] =
      (.ok { stats := { received := 4, forwarded := 2, flushes := 2 }, finished := true },
        [3, 5]) := by
  obtain ⟨_, hdone, _⟩ := forward_refines .selfKeyed [0, 1] Outlet.collect []
  have hrun : ((replies .selfKeyed Outlet.collect (completeMessages.map .feed)
        (ofProducers [0, 1]) []).all (·.toOption.isSome),
      fed .selfKeyed Outlet.collect completeMessages (ofProducers [0, 1]) [] |>.1.progress,
      fed .selfKeyed Outlet.collect completeMessages (ofProducers [0, 1]) [] |>.1.stats,
      fed .selfKeyed Outlet.collect completeMessages (ofProducers [0, 1]) [] |>.2) =
      (true, .done, { received := 4, forwarded := 2, flushes := 2 }, [3, 5]) := by
    -- a release evaluates only as departures that are counted beforehand
    simp only [completeMessages, fed, List.map_cons, List.map_nil, replies, after, obey, feed, drain,
      Merger.release_eq_offer, Merger.drain_eq_take (Nat.le_refl _)]
    decide
  simp only [Prod.mk.injEq, List.all_eq_true] at hrun
  obtain ⟨hreplies, hprogress, hstats, hsent⟩ := hrun
  have htaken : Taken .selfKeyed Outlet.collect completeMessages (ofProducers [0, 1]) [] := by
    intro answer ha
    have hsome := hreplies answer ha
    cases answer with
    | error fault => cases hsome
    | ok count => exact ⟨count, rfl⟩
  rw [hdone completeMessages htaken hprogress surplusMessages, hstats, hsent]

end TimeMerge.Resequencer
