import TimeMerge.Proofs.Losses
import TimeMerge.Proofs.Merging

/-!
# What a merge hands on

However a merge ends, what it has written by then are records of its inputs that have timestamps, and
they came in the order of these if the order is checked. -/
namespace TimeMerge

namespace Outlet

/-- An outlet that keeps the attempts alone. The state they lead to is worked out from them. -/
def recounted (k : Outlet ω α) (w : ω) : Outlet (List (Attempt α)) α where
  emit r as :=
    let answer := (k.emit r (k.replay (as.map (·.signal)) w)).1
    (answer, as ++ [⟨.record r, answer⟩])
  flush as :=
    let answer := (k.flush (k.replay (as.map (·.signal)) w)).1
    (answer, as ++ [⟨.flush, answer⟩])

/-- The log of an outlet with the state that it tells. -/
def recount (k : Outlet ω α) (w : ω) (as : List (Attempt α)) : Logged ω α :=
  ⟨k.replay (as.map (·.signal)) w, as⟩

theorem shownBy_recounted (k : Outlet ω α) (w : ω) :
    k.logged.ShownBy (k.recount w) (k.recounted w) where
  emit r as := by
    simp only [logged, recounted, recount, Logged.enter, List.map_append, replay_append]
    rfl
  flush as := by
    simp only [logged, recounted, recount, Logged.enter, List.map_append, replay_append]
    rfl

end Outlet

theorem Inlet.upcoming_outcomes (n : Nat) (inlet : Inlet α) :
    ∀ r ∈ (inlet.outcomes n).2.upcoming, r ∈ inlet.upcoming := by
  induction n generalizing inlet with
  | zero => exact fun _ h => h
  | succ n ih => exact fun r hr => inlet.upcoming_read r (ih inlet.read.2 r hr)

namespace Intake

variable [Record α] {policy : Policy α} {inlets : List (PartitionId × Inlet α)} {s : Intake α}
  {log : List (Nat × Reading α)} {e : Entry α}

/-- The attempts lead to the state of the outlet. -/
theorem state_pulls (policy : Policy α) (k : Outlet ω α) (n : Nat) (s : Intake α) (w : ω) :
    (pulls policy k n s w).2 =
      k.replay ((pulls policy k.logged n s { state := w }).2.attempts.map (·.signal)) w := by
  have hlogged := pulls_seen (k.shownBy_recounted w) policy n s []
  have hstate : pulls policy k n s w = _ := pulls_seen k.shownBy_logged policy n s { state := w }
  have hstart : k.recount w [] = { state := w } := rfl
  rw [hstart] at hlogged
  rw [hstate, hlogged]
  rfl

theorem source_of_arrival? {m : Merger α} {p : PartitionId} {record : α}
    (h : m.arrival? policy (.add p record) = some e) : e.partition = p ∧ e.record = record := by
  simp only [Merger.arrival?] at h
  split at h
  · cases h
    exact ⟨rfl, rfl⟩
  · cases h

/-- What arrives was among the outcomes of the input that it belongs to. -/
theorem Phased.mem_of_arrival? (h : Phased inlets s log) (he : s.arrival? policy = some e) :
    ∃ x ∈ inlets, x.1 = e.partition ∧ .ok (some e.record) ∈ x.2.upcoming := by
  rw [arrival?] at he
  split at he
  · rename_i i p record left hpoll
    obtain ⟨inlet, hn, hread⟩ := nextLive_of_read hpoll
    obtain ⟨_, _, _, hslot, _⟩ := nextLive_eq_some hn
    obtain ⟨x, hx, rfl⟩ := h.exists_input hslot
    obtain ⟨n, _, hleft⟩ := (h.spent i x _ hx hslot).answered
    obtain ⟨hp, hr⟩ := source_of_arrival? he
    rw [hp, hr]
    refine ⟨x, List.mem_of_getElem? hx, rfl, Inlet.upcoming_outcomes n _ _ ?_⟩
    rw [← hleft inlet rfl]
    exact Inlet.mem_upcoming_of_read (congrArg Prod.fst hread)
  · cases he

theorem Phased.mem_of_arrivals (h : Phased inlets s log) (hn : (inlets.map (·.1)).Nodup)
    {k : Outlet ω α} {n : Nat} {w : ω} (he : e ∈ arrivals policy k n s w) :
    ∃ x ∈ inlets, x.1 = e.partition ∧ .ok (some e.record) ∈ x.2.upcoming := by
  induction n generalizing s w log with
  | zero => cases he
  | succ n ih =>
    rcases List.mem_append.1 he with he | he
    · exact h.mem_of_arrival? (Option.mem_toList.1 he)
    · exact ih (h.turn_over hn policy k w) he

theorem arrivals_seen {k : Outlet ω α} {view : ω' → ω} {k' : Outlet ω' α} (h : k.ShownBy view k')
    (policy : Policy α) (n : Nat) (s : Intake α) (w : ω') :
    arrivals policy k n s (view w) = arrivals policy k' n s w := by
  induction n generalizing s w with
  | zero => rfl
  | succ n ih =>
    rw [arrivals, arrivals, turn_seen h]
    exact congrArg _ (ih ..)

/-- Whatever turns come to, books account for them, and the attempts in these books have led to the
state of the outlet. -/
theorem exists_books (policy : Policy α) (hn : (inlets.map (·.1)).Nodup) (k : Outlet ω α) (n : Nat)
    (w : ω) : ∃ (l : Ledger α) (as : List (Attempt α)),
      l.merger = (pulls policy k n (ofInlets inlets) w).1.merger ∧
      l.accepted = arrivals policy k n (ofInlets inlets) w ∧
      l.Shown policy (inlets.map (·.1)) as ∧
      (pulls policy k n (ofInlets inlets) w).2 = k.replay (as.map (·.signal)) w := by
  have haccounted : Accounted policy (inlets.map (·.1)) _ _ _ :=
    pulls_accounted (phased_ofInlets inlets) hn (w := { state := w })
      ⟨accounts_opening policy (inlets.map (·.1)), rfl⟩ k n
  have hseen : pulls policy k n (ofInlets inlets) w = _ :=
    pulls_seen k.shownBy_logged policy n (ofInlets inlets) { state := w }
  have harrivals : arrivals policy k n (ofInlets inlets) w = _ :=
    arrivals_seen k.shownBy_logged policy n (ofInlets inlets) { state := w }
  obtain ⟨l, hmerger, haccepted, hl⟩ := haccounted.books
  refine ⟨l, _, ?_, ?_, hl, state_pulls policy k n (ofInlets inlets) w⟩
  · rw [hmerger, hseen]
  · rw [haccepted, List.nil_append, harrivals]

/-- A record with its timestamp that one of the inputs gives. -/
structure Given (policy : Policy α) (inlets : List (PartitionId × Inlet α)) (e : Entry α) :
    Prop where
  keyed : policy.rule.timestamp e.record = .ok e.timestamp
  source : ∃ x ∈ inlets, .ok (some e.record) ∈ x.2.upcoming

/-- However turns end, the outlet was handed records that the inputs gave, in order if that is
checked. -/
theorem exists_handed (policy : Policy α) (hn : (inlets.map (·.1)).Nodup) (k : Outlet ω α) (n : Nat)
    (w : ω) : ∃ (handed : List (Entry α)) (cs : List (Signal α)),
      (turns policy k n (ofInlets inlets) w).2.2 = k.replay cs w ∧
      cs.filterMap Signal.record? = handed.map (·.record) ∧
      (∀ e ∈ handed, Given policy inlets e) ∧
      (policy.checkOrder = true → (handed.map (·.timestamp)).Pairwise (· ≤ ·)) := by
  obtain ⟨m, hm⟩ := exists_turns_eq_pulls policy k n (ofInlets inlets) w
  obtain ⟨l, as, _, haccepted, hl, hstate⟩ := exists_books policy hn k m w
  have hbalanced := (Ledger.balanced_opening (inlets.map (·.1))).steps hl.steps
  refine ⟨l.released, as.map (·.signal), ?_, ?_, fun e he => ?_, fun hc => ?_⟩
  · rw [hm, hstate]
  · rw [← hl.handed, List.filterMap_map]
    rfl
  · have he := hbalanced.mem_accepted_of_mem_released he
    refine ⟨hbalanced.keyed e he, ?_⟩
    rw [haccepted] at he
    obtain ⟨x, hx, _, hm⟩ := (phased_ofInlets inlets).mem_of_arrivals hn he
    exact ⟨x, hx, hm⟩
  · have hordered := (Ledger.ordered_opening (inlets.map (·.1))).steps hc
      (Ledger.balanced_opening _) hl.steps
    exact hordered.2.1.ascending

end Intake

namespace Settings

variable [Record α] {s : Settings} {inlets : List (Inlet α)}

/-- The records that a merge hands on to be written. -/
def handed (s : Settings) (inlets : List (Inlet α)) : List α :=
  ((Intake.ofInlets (numbered inlets)).run s.policy lineOutlet { state := {} }).2.2.state.sent

/-- Whether a merge can start is up to the capacity alone. -/
theorem stoppage_mergeInlets_iff {cancelled : Bool} :
    (s.mergeInlets cancelled inlets).stoppage = some .overCapacity ↔
      maxChannelCapacity < s.channelCapacity := by
  rw [mergeInlets]
  split
  · rename_i hover
    exact iff_of_true rfl hover
  · rename_i hroom
    refine iff_of_false (fun hover => ?_) hroom
    split at hover
    · cases hover
    · dsimp only at hover
      split at hover <;> cases hover

theorem capacity_of_stoppage {stoppage : Option Stoppage}
    (h : (s.mergeInlets false inlets).stoppage = stoppage) (hne : stoppage ≠ some .overCapacity) :
    s.channelCapacity ≤ maxChannelCapacity :=
  Nat.not_lt.1 (mt stoppage_mergeInlets_iff.2 (h ▸ hne))

/-- A merge that is neither cancelled nor without a channel writes what it hands on. -/
theorem lines_mergeInlets (hcap : s.channelCapacity ≤ maxChannelCapacity) :
    (s.mergeInlets false inlets).lines = (s.handed inlets).filterMap Record.line? := by
  rw [mergeInlets, if_neg (Nat.not_lt.2 hcap), if_neg Bool.false_ne_true]
  rfl

/-- What a merge hands on are records of its inputs, in the order of their timestamps if that is
checked. -/
theorem handed_given (s : Settings) (inlets : List (Inlet α)) : ∃ es : List (Entry α),
    s.handed inlets = es.map (·.record) ∧ (∀ e ∈ es, Intake.Given s.policy (numbered inlets) e) ∧
      (s.checkOrder = true → (es.map (·.timestamp)).Pairwise (· ≤ ·)) := by
  obtain ⟨es, cs, hstate, hrecords, hgiven, hordered⟩ := Intake.exists_handed s.policy
    (nodup_numbered inlets) lineOutlet (Intake.ofInlets (numbered inlets)).turnBound { state := {} }
  refine ⟨es, ?_, hgiven, hordered⟩
  rw [handed, Intake.run, hstate, (written_nil.replay cs).state, ← hrecords]
  rfl

end Settings

end TimeMerge
