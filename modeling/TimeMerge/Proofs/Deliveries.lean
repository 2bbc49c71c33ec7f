import TimeMerge.Proofs.Requests

/-!
# What the counts of deliveries tell

One turn of an intake, or one command to a resequencer, hands over a burst of records. Their number is
added to the count of what was forwarded once the burst is over, and not at all if a refusal cuts it
short, although what came before the refusal was taken. So the counts tell what was delivered in the
bursts that met no refusal. -/
namespace TimeMerge

namespace Attempt

/-- A record that was taken. -/
def isDelivery (a : Attempt α) : Bool := !a.isFlush && a.isTaken

/-- A record that was refused. -/
def isLoss (a : Attempt α) : Bool := !a.isFlush && !a.isTaken

end Attempt

/-- How many records were taken. -/
def deliveries (log : List (Attempt α)) : Nat := log.countP (·.isDelivery)

/-- A record of the burst was refused. -/
def interrupted (burst : List (Attempt α)) : Bool := burst.any (·.isLoss)

/-- What is added to the count for a burst. -/
def counted (burst : List (Attempt α)) : Nat := if interrupted burst then 0 else deliveries burst

section Bursts

variable {new : List (Attempt α)} {a : Attempt α} {bs : List (List (Attempt α))}

theorem counted_of_refused (records : ∀ a ∈ new, a.isFlush = false) {fault : Fault}
    (refusal : ∃ a ∈ new, a.answer = .error fault) : counted new = 0 := by
  obtain ⟨a, ha, hanswer⟩ := refusal
  have hloss : a.isLoss = true := by
    rw [Attempt.isLoss, records a ha, Attempt.isTaken, hanswer]
    rfl
  have hcut : interrupted new = true := List.any_eq_true.2 ⟨a, ha, hloss⟩
  rw [counted, if_pos hcut]

theorem counted_of_taken (records : ∀ a ∈ new, a.isFlush = false)
    (taken : ∀ a ∈ new, a.isTaken = true) : counted new = new.length := by
  have hwhole : interrupted new = false := by
    rw [interrupted, List.any_eq_false]
    intro a ha
    rw [Attempt.isLoss, taken a ha]
    simp
  rw [counted, hwhole, if_neg Bool.false_ne_true, deliveries, List.countP_eq_length]
  intro a ha
  rw [Attempt.isDelivery, records a ha, taken a ha]
  rfl

/-- A flush is no record, whatever becomes of it. -/
theorem counted_concat (flush : a.isFlush = true) (new : List (Attempt α)) :
    counted (new ++ [a]) = counted new := by
  have hdelivery : a.isDelivery = false := by rw [Attempt.isDelivery, flush]; rfl
  have hloss : a.isLoss = false := by rw [Attempt.isLoss, flush]; rfl
  simp [counted, interrupted, deliveries, hdelivery, hloss]

theorem deliveries_flatten (bs : List (List (Attempt α))) :
    (bs.map counted).sum + ((bs.filter interrupted).map deliveries).sum =
      deliveries bs.flatten := by
  induction bs with
  | nil => rfl
  | cons b bs ih =>
    rw [List.flatten_cons, deliveries, List.countP_append, ← deliveries, ← deliveries, ← ih,
      List.map_cons, List.sum_cons, counted]
    cases hb : interrupted b with
    | true =>
      rw [List.filter_cons_of_pos hb, List.map_cons, List.sum_cons, if_pos rfl]
      omega
    | false =>
      rw [List.filter_cons_of_neg (by simp [hb]), if_neg Bool.false_ne_true]
      omega

/-- A count of what was forwarded, next to the bursts in which records were handed over. -/
structure Recounts (forwarded : Nat) (log : List (Attempt α)) (bs : List (List (Attempt α))) :
    Prop where
  whole : bs.flatten = log
  counted : forwarded = (bs.map counted).sum
  missed : forwarded + ((bs.filter interrupted).map deliveries).sum = deliveries log
  exact : forwarded = deliveries log ↔ ∀ b ∈ bs, interrupted b = true → deliveries b = 0

theorem recounts_of_bursts {forwarded : Nat} {log : List (Attempt α)} (hlog : log = bs.flatten)
    (hcounted : forwarded = (bs.map counted).sum) : Recounts forwarded log bs := by
  have hmissed : forwarded + ((bs.filter interrupted).map deliveries).sum = deliveries log := by
    rw [hlog, hcounted, deliveries_flatten]
  refine ⟨hlog.symm, hcounted, hmissed, ?_⟩
  have hzero : ((bs.filter interrupted).map deliveries).sum = 0 ↔
      ∀ b ∈ bs, interrupted b = true → deliveries b = 0 := by
    rw [List.sum_eq_zero_iff_forall_eq_nat]
    simp only [List.forall_mem_map, List.mem_filter, and_imp]
  rw [← hzero]
  omega

end Bursts

namespace Intake

variable {s s₁ s' : Intake α} {new : List (Attempt α)} {fault? : Option Fault}

/-- Records are handed over, all of them taken, and counted. -/
structure Hands (s s' : Intake α) (new : List (Attempt α)) : Prop where
  records : ∀ a ∈ new, a.isFlush = false
  taken : ∀ a ∈ new, a.isTaken = true
  forwarded : s'.stats.forwarded = s.stats.forwarded + new.length
  flushed : s'.flushed = s.flushed

theorem hands_nothing (hc : s'.stats.forwarded = s.stats.forwarded)
    (hf : s'.flushed = s.flushed) : Hands s s' [] :=
  ⟨by simp, by simp, hc, hf⟩

/-- What an act tries on the outlet, the fault with which it ends, if it does, and what that does to the
count of what was forwarded and to the mark that a flush was tried. -/
inductive Tries (s : Intake α) : Option Fault → Intake α → List (Attempt α) → Prop where
  | refused {fault : Fault} {s' : Intake α} {new : List (Attempt α)}
      (records : ∀ a ∈ new, a.isFlush = false) (refusal : ∃ a ∈ new, a.answer = .error fault)
      (forwarded : s'.stats.forwarded = s.stats.forwarded) (flushed : s'.flushed = s.flushed) :
      Tries s (some fault) s' new
  | hands {fault? : Option Fault} {s' : Intake α} {new : List (Attempt α)}
      (hands : Hands s s' new) : Tries s fault? s' new
  | flushes {s₁ s' : Intake α} {new : List (Attempt α)} {a : Attempt α} (hands : Hands s s₁ new)
      (flush : a.isFlush = true) (due : s.flushed = false)
      (forwarded : s'.stats.forwarded = s₁.stats.forwarded) (tried : s'.flushed = true) :
      Tries s (faultOf a.answer) s' (new ++ [a])

theorem Tries.counted (h : Tries s fault? s' new) :
    s'.stats.forwarded = s.stats.forwarded + TimeMerge.counted new := by
  cases h with
  | refused records refusal forwarded flushed =>
    rw [forwarded, counted_of_refused records refusal, Nat.add_zero]
  | hands hands => rw [hands.forwarded, counted_of_taken hands.records hands.taken]
  | flushes hands flush due forwarded tried =>
    rw [forwarded, hands.forwarded, counted_concat flush, counted_of_taken hands.records hands.taken]

/-- An act as the log shows it. -/
def Acts (s : Intake α) (w : Logged ω α) (r : Except Fault τ × (Intake α × Logged ω α)) : Prop :=
  ∃ new, r.2.2.attempts = w.attempts ++ new ∧ Tries s (faultOf r.1) r.2.1 new

variable {w w₁ : Logged ω α} {p : PartitionId} {i : Nat}

theorem acts_nothing (answer : Except Fault τ) (hc : s'.stats.forwarded = s.stats.forwarded)
    (hf : s'.flushed = s.flushed) : Acts s w (answer, (s', w)) :=
  ⟨[], (List.append_nil _).symm, .hands (hands_nothing hc hf)⟩

/-- Of the state before an act nothing matters but the count and the mark, and of its answer nothing
but the fault. -/
theorem Acts.answers {answer : Except Fault τ} {answer' : Except Fault τ'}
    {rest : Intake α × Logged ω α} (h : Acts s₁ w (answer, rest))
    (hf : faultOf answer' = faultOf answer) (hc : s₁.stats.forwarded = s.stats.forwarded)
    (hm : s₁.flushed = s.flushed) : Acts s w (answer', rest) := by
  obtain ⟨new, hlog, htries⟩ := h
  refine ⟨new, hlog, ?_⟩
  rw [hf]
  generalize faultOf answer = fault? at htries
  cases htries with
  | refused records refusal forwarded flushed =>
    exact .refused records refusal (forwarded.trans hc) (flushed.trans hm)
  | hands hands =>
    exact .hands ⟨hands.records, hands.taken, hc ▸ hands.forwarded, hands.flushed.trans hm⟩
  | flushes hands flush due forwarded tried =>
    exact .flushes ⟨hands.records, hands.taken, hc ▸ hands.forwarded, hands.flushed.trans hm⟩ flush
      (hm ▸ due) forwarded tried

theorem forward_cases (k : Outlet ω α) (s : Intake α) (w : Logged ω α) :
    (∃ fault rest, s.forward k.logged w = (.error fault, rest) ∧
      Acts s w ((.error fault : Except Fault Nat), rest)) ∨
    ∃ n s' w' new, s.forward k.logged w = (.ok n, (s', w')) ∧
      w'.attempts = w.attempts ++ new ∧ Hands s s' new := by
  obtain ⟨answer, n, w', new, hrelease, hlog, hrecords, hend⟩ := s.merger.release_logged k w
  have hrecord := Attempt.isFlush_of_records hrecords
  rw [forward, hrelease]
  rcases hend with ⟨fault, rfl, hrefusal⟩ | ⟨rfl, hdrain, htaken⟩
  · exact .inl ⟨fault, _, rfl, new, hlog, .refused hrecord hrefusal rfl rfl⟩
  · refine .inr ⟨_, _, w', new, rfl, hlog, hrecord, htaken, ?_, rfl⟩
    have hlength : new.length = s.merger.drain.1.length := by
      simpa [hdrain] using congrArg List.length hrecords
    rw [hlength]

/-- A flush may follow once records were handed over. -/
theorem Hands.finish_acts (h : Hands s s₁ new) (hlog : w₁.attempts = w.attempts ++ new)
    (k : Outlet ω α) : Acts s w (s₁.finish k.logged w₁) := by
  cases hf : s₁.flushed with
  | true =>
    simp only [finish, hf, if_true]
    exact ⟨new, hlog, .hands h⟩
  | false =>
    have hdue : s.flushed = false := h.flushed ▸ hf
    have hflush : k.logged.flush w₁ =
        ((k.flush w₁.state).1, w₁.enter .flush (k.flush w₁.state)) := rfl
    simp only [finish, hf, Bool.false_eq_true, if_false, hflush]
    let a : Attempt α := ⟨.flush, (k.flush w₁.state).1⟩
    have htries : Tries s (faultOf a.answer) { s₁ with flushed := true } (new ++ [a]) := by
      apply Tries.flushes h _ hdue <;> rfl
    refine ⟨_, ?_, htries⟩
    rw [Logged.enter, hlog, List.append_assoc]

theorem finish_acts (k : Outlet ω α) (s : Intake α) (w : Logged ω α) :
    Acts s w (s.finish k.logged w) :=
  (hands_nothing rfl rfl).finish_acts (List.append_nil _).symm k

theorem wrapUp_acts (k : Outlet ω α) (p : PartitionId) (s : Intake α) (w : Logged ω α) :
    Acts s w (s.wrapUp k.logged p w) := by
  rcases forward_cases k s w with ⟨fault, rest, hf, hacts⟩ | ⟨n, s₁, w₁, new, hf, hlog, hhands⟩ <;>
    rcases s.wrapUp_cases k.logged p w with ⟨_, _, hf', he⟩ | ⟨_, _, _, hf', he⟩ <;>
    cases hf.symm.trans hf'
  · rw [he]
    exact hacts.answers rfl rfl rfl
  · rcases he with ⟨_, he⟩ | he <;> rw [he]
    · exact (hhands.finish_acts hlog k).answers (faultOf_map _ _) rfl rfl
    · exact ⟨new, hlog, .hands hhands⟩

theorem tryClose_acts (k : Outlet ω α) (i : Nat) (p : PartitionId) (s : Intake α)
    (w : Logged ω α) : Acts s w (s.tryClose k.logged i p w) := by
  rcases s.tryClose_cases k.logged w i p with ⟨_, hclose⟩ | ⟨_, hclose⟩ | ⟨_, _, _, hclose⟩
  · rw [hclose]
    exact acts_nothing _ rfl rfl
  · rcases forward_cases k s w with ⟨fault, rest, hf, hacts⟩ | ⟨n, s₁, w₁, new, hf, hlog, hhands⟩
    · rw [hclose, hf]
      exact hacts.answers rfl rfl rfl
    · rw [hclose, hf]
      exact ⟨new, hlog, .hands hhands⟩
  · rw [hclose]
    exact (wrapUp_acts k p (s.retire i p) w).answers rfl rfl rfl

variable [Record α] {policy : Policy α}

theorem accept_acts (policy : Policy α) (k : Outlet ω α) (p : PartitionId) (record : α)
    (s : Intake α) (w : Logged ω α) : Acts s w (s.accept policy k.logged p record w) := by
  rcases s.accept_cases policy k.logged p record w with
    ⟨_, _, haccept⟩ | ⟨_, _, _, haccept⟩ | ⟨m, _, haccept⟩
  · rw [haccept]
    exact acts_nothing _ rfl rfl
  · rw [haccept]
    exact acts_nothing _ rfl rfl
  · have hacts : Acts s w ((s.takeIn m).forward k.logged w) := by
      rcases forward_cases k (s.takeIn m) w with ⟨_, _, hf, hacts⟩ | ⟨_, _, _, new, hf, hlog, hh⟩
      · rw [hf]
        exact hacts.answers rfl rfl rfl
      · rw [hf]
        exact ⟨new, hlog, .hands ⟨hh.records, hh.taken, hh.forwarded, hh.flushed⟩⟩
    rw [haccept]
    exact hacts.answers (faultOf_map _ _) rfl rfl

/-- What a turn tries; and a turn that finishes leaves the mark that a flush was tried. -/
theorem turn_acts (policy : Policy α) (k : Outlet ω α) (s : Intake α) (w : Logged ω α) :
    Acts s w (s.turn policy k.logged w) ∧
      ((s.turn policy k.logged w).1 = .ok .finished →
        (s.turn policy k.logged w).2.1.flushed = true) := by
  cases hn : s.nextLive with
  | none =>
    have hfinish := finish_acts k s w
    have hflushed : (s.finish k.logged w).2.1.flushed = true := by
      rw [finish]
      split
      · assumption
      · rfl
    rw [turn_of_idle hn]
    exact ⟨hfinish.answers (faultOf_map _ _) rfl rfl, fun _ => hflushed⟩
  | some found =>
    refine ⟨?_, fun hfinished => ?_⟩
    · obtain ⟨i, p, phase⟩ := found
      cases phase with
      | closed =>
        obtain ⟨_, _, _, _, hopen, _⟩ := nextLive_eq_some hn
        cases hopen
      | exhausted inlet =>
        rw [turn_of_exhausted hn]
        exact (tryClose_acts k i p _ w).answers rfl rfl rfl
      | reading inlet =>
        rw [turn_of_reading hn]
        cases inlet.read.1 with
        | error fault => cases fault <;> exact acts_nothing _ rfl rfl
        | ok given =>
          cases given with
          | some record => exact (accept_acts policy k p record _ w).answers rfl rfl rfl
          | none =>
            simp only [respond, exhaust]
            split
            · exact acts_nothing _ rfl rfl
            · exact (tryClose_acts k i p _ w).answers rfl rfl rfl
    · rw [nextLive_of_finished hfinished] at hn
      cases hn

/-- What each of `n` turns adds to the log. -/
def bursts (policy : Policy α) (k : Outlet ω α) :
    Nat → Intake α → Logged ω α → List (List (Attempt α))
  | 0, _, _ => []
  | n + 1, s, w =>
    (s.turn policy k.logged w).2.2.attempts.drop w.attempts.length ::
      bursts policy k n (s.turn policy k.logged w).2.1 (s.turn policy k.logged w).2.2

theorem pulls_counted (policy : Policy α) (k : Outlet ω α) (n : Nat) (s : Intake α)
    (w : Logged ω α) :
    (pulls policy k.logged n s w).2.attempts = w.attempts ++ (bursts policy k n s w).flatten ∧
      (pulls policy k.logged n s w).1.stats.forwarded =
        s.stats.forwarded + ((bursts policy k n s w).map TimeMerge.counted).sum := by
  induction n generalizing s w with
  | zero => exact ⟨(List.append_nil _).symm, rfl⟩
  | succ n ih =>
    obtain ⟨⟨new, hlog, htries⟩, _⟩ := turn_acts policy k s w
    obtain ⟨hrest, hcount⟩ := ih (s.turn policy k.logged w).2.1 (s.turn policy k.logged w).2.2
    have hnew : (s.turn policy k.logged w).2.2.attempts.drop w.attempts.length = new := by
      rw [hlog, List.drop_left]
    rw [pulls, bursts, hrest, hcount, hnew, hlog, htries.counted]
    simp only [List.flatten_cons, List.append_assoc, List.map_cons, List.sum_cons, Nat.add_assoc,
      and_self]

end Intake

namespace Resequencer

variable {s s' : Resequencer α} {new : List (Attempt α)} {answer : Except Fault Nat}

theorem Drains.counted (h : Drains s answer s' new) :
    s'.stats.forwarded = s.stats.forwarded + TimeMerge.counted new := by
  have hsettle : ∀ {as : List (Attempt α)}, as.map (·.signal) = s.merger.drain.1.map .record →
      (∀ a ∈ as, a.isTaken = true) →
        s.settle.stats.forwarded = s.stats.forwarded + TimeMerge.counted as := by
    intro as records taken
    have hlength : as.length = s.merger.drain.1.length := by
      simpa using congrArg List.length records
    rw [counted_of_taken (Attempt.isFlush_of_records records) taken, hlength]
    rfl
  cases h with
  | refused records refusal =>
    rw [counted_of_refused (Attempt.isFlush_of_records records) refusal]
    rfl
  | waiting records taken left => exact hsettle records taken
  | unflushed records taken none =>
    rw [counted_concat rfl]
    exact hsettle records taken
  | flushed records taken none =>
    rw [counted_concat rfl]
    exact hsettle records taken

variable [Record α] {policy : Policy α}

/-- Nothing is counted as forwarded before it is handed over. -/
theorem Prepares.forwarded (h : Prepares policy s s') :
    s'.stats.forwarded = s.stats.forwarded := by
  cases h with
  | message taken => cases taken <;> rfl
  | nothing => rfl
  | teardown => rfl

theorem obey_counted (policy : Policy α) (k : Outlet ω α) (s : Resequencer α) (w : Logged ω α)
    (c : Command α) :
    ∃ new, (s.obey policy k.logged w c).2.2.attempts = w.attempts ++ new ∧
      (s.obey policy k.logged w c).2.1.stats.forwarded = s.stats.forwarded + TimeMerge.counted new := by
  rcases obey_cases policy k.logged s w c with ⟨hne, s', hprepares, he⟩ | ⟨answer, s', hs, he⟩
  · have hne' : s'.progress ≠ .done := by rwa [hprepares.progress]
    obtain ⟨answer, s'', w', new, hdrain, hlog, hdrains⟩ := drain_logged hne' k w
    rw [he, hdrain]
    exact ⟨new, hlog, by rw [hdrains.counted, hprepares.forwarded]⟩
  · rw [he]
    refine ⟨[], (List.append_nil _).symm, ?_⟩
    rcases hs with rfl | rfl <;> rfl

/-- What each of these commands adds to the log. -/
def bursts (policy : Policy α) (k : Outlet ω α) :
    List (Command α) → Resequencer α → Logged ω α → List (List (Attempt α))
  | [], _, _ => []
  | c :: cs, s, w =>
    (s.obey policy k.logged w c).2.2.attempts.drop w.attempts.length ::
      bursts policy k cs (s.obey policy k.logged w c).2.1 (s.obey policy k.logged w c).2.2

theorem after_counted (policy : Policy α) (k : Outlet ω α) (cs : List (Command α))
    (s : Resequencer α) (w : Logged ω α) :
    (after policy k.logged cs s w).2.attempts = w.attempts ++ (bursts policy k cs s w).flatten ∧
      (after policy k.logged cs s w).1.stats.forwarded =
        s.stats.forwarded + ((bursts policy k cs s w).map TimeMerge.counted).sum := by
  induction cs generalizing s w with
  | nil => exact ⟨(List.append_nil _).symm, rfl⟩
  | cons c cs ih =>
    obtain ⟨new, hlog, hcounted⟩ := obey_counted policy k s w c
    obtain ⟨hrest, hcount⟩ :=
      ih (s.obey policy k.logged w c).2.1 (s.obey policy k.logged w c).2.2
    have hnew : (s.obey policy k.logged w c).2.2.attempts.drop w.attempts.length = new := by
      rw [hlog, List.drop_left]
    rw [after, bursts, hrest, hcount, hnew, hlog, hcounted]
    simp only [List.flatten_cons, List.append_assoc, List.map_cons, List.sum_cons, Nat.add_assoc,
      and_self]

end Resequencer

/-- Whatever an outlet refuses, and whatever a caller asks an intake or a resequencer for after that,
the count of what was forwarded is the number of records taken in the bursts that met no refusal. What
was taken in the others is missing from it, so the count tells what was delivered just when each burst
that met a refusal met it at its first record. -/
theorem forwarded_under_refusals [Record α] (policy : Policy α) (k : Outlet ω α) (w : ω) :
    (∀ (inlets : List (PartitionId × Inlet α)) (cs : List Intake.Request),
      let start := Intake.ofInlets inlets
      let s := (Intake.after policy k.logged cs start { state := w }).1
      let seen := (Intake.after policy k.logged cs start { state := w }).2
      Intake.after policy k cs start w = (s, seen.state) ∧
      ∃ n, (s, seen) = Intake.pulls policy k.logged n start { state := w } ∧
        Recounts s.stats.forwarded seen.attempts
          (Intake.bursts policy k n start { state := w })) ∧
    ∀ (producers : List PartitionId) (cs : List (Command α)),
      let start : Resequencer α := .ofProducers producers
      let s := (Resequencer.after policy k.logged cs start { state := w }).1
      let seen := (Resequencer.after policy k.logged cs start { state := w }).2
      Resequencer.after policy k cs start w = (s, seen.state) ∧
      Recounts s.stats.forwarded seen.attempts
        (Resequencer.bursts policy k cs start { state := w }) := by
  constructor
  · intro inlets cs start s seen
    obtain ⟨n, hn⟩ := Intake.exists_after_eq_pulls policy k.logged cs start { state := w }
    obtain ⟨hlog, hcount⟩ := Intake.pulls_counted policy k n start { state := w }
    rw [← hn] at hlog hcount
    have hzero : start.stats.forwarded = 0 := rfl
    rw [hzero, Nat.zero_add] at hcount
    exact ⟨Intake.after_seen k.shownBy_logged policy cs start { state := w }, n, hn,
      recounts_of_bursts hlog hcount⟩
  · intro producers cs start s seen
    obtain ⟨hlog, hcount⟩ := Resequencer.after_counted policy k cs start { state := w }
    have hzero : start.stats.forwarded = 0 := rfl
    rw [hzero, Nat.zero_add] at hcount
    exact ⟨Resequencer.after_seen k.shownBy_logged policy cs start { state := w },
      recounts_of_bursts hlog hcount⟩

/-- An outlet that counts the attempts and refuses those that `refuses` picks. -/
def Outlet.fickle (refuses : Nat → Bool) : Outlet Nat α where
  emit _ n := (if refuses n then .error (.refused (.reported "refused")) else .ok (), n + 1)
  flush n := (if refuses n then .error (.refused (.reported "refused")) else .ok (), n + 1)

/-- Two records go at once and the second is refused: the first was delivered, and is not counted. -/
theorem forwarded_ne_deliveries :
    let r := Intake.after .selfKeyed (Outlet.fickle (· == 1)).logged [.pull, .pull]
      (.ofInlets [(0, .ofRecords [1]), (1, .ofRecords [1])]) { state := 0 }
    let r' := Resequencer.after .selfKeyed (Outlet.fickle (· == 1)).logged
      [.feed ⟨0, .record 5⟩, .feed ⟨1, .record 5⟩] (.ofProducers [0, 1]) { state := 0 }
    (r.1.stats.forwarded = 0 ∧ deliveries r.2.attempts = 1) ∧
      r'.1.stats.forwarded = 0 ∧ deliveries r'.2.attempts = 1 := by
  -- a release evaluates only as departures that are counted beforehand
  simp only [Intake.after, Intake.obey, Intake.turn, Intake.respond, Intake.accept, Intake.exhaust,
    Intake.tryClose, Intake.wrapUp, Intake.forward, Resequencer.after, Resequencer.obey,
    Resequencer.feed, Resequencer.drain, Merger.release_eq_offer, Merger.drain_eq_take (Nat.le_refl _)]
  decide

end TimeMerge
