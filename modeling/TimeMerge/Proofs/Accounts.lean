import TimeMerge.Proofs.Attempts
import TimeMerge.Proofs.Order
import TimeMerge.Proofs.Sweeps

/-!
# Books that an outlet shows

What went out of a merger is what was handed to the outlet, whether or not it was taken there. Books
that agree with the attempts on an outlet in this way agree with them after every change of the
merger, as long as what departs is handed over and a flush is tried only with nothing left open. -/
namespace TimeMerge

/-- The record that was handed over, taken or not. -/
def Attempt.record? (a : Attempt α) : Option α :=
  match a.signal with
  | .record r => some r
  | .flush => none

theorem Attempt.record?_of_isFlush {a : Attempt α} (h : a.isFlush = true) : a.record? = none := by
  obtain ⟨signal, answer⟩ := a
  cases signal with
  | record r => cases h
  | flush => rfl

theorem Attempt.filterMap_record? {as : List (Attempt α)} {rs : List α}
    (h : as.map (·.signal) = rs.map .record) : as.filterMap record? = rs := by
  induction as generalizing rs with
  | nil => exact (List.map_eq_nil_iff.1 h.symm).symm
  | cons a as ih =>
    cases rs with
    | nil => simp at h
    | cons r rs =>
      obtain ⟨ha, has⟩ := List.cons.inj h
      have ha : a.signal = .record r := ha
      have hr : a.record? = some r := by rw [record?, ha]
      rw [List.filterMap_cons_some hr, ih has]

namespace Ledger

variable [Record α] {policy : Policy α} {ids : List PartitionId} {l l' : Ledger α}
  {log new : List (Attempt α)}

/-- Books kept from the start, with records on enabled partitions only, that agree with the attempts
in `log`. -/
structure Shown (policy : Policy α) (ids : List PartitionId) (l : Ledger α)
    (log : List (Attempt α)) : Prop where
  steps : Steps policy (·.enabled = true) (opening ids) l
  handed : log.filterMap Attempt.record? = l.released.map (·.record)
  shut : ∀ a ∈ log, a.isFlush = true → l.merger.openCount = 0
  quiet : log.Pairwise fun a b => a.isFlush = true → b.isFlush = true

theorem shown_opening (policy : Policy α) (ids : List PartitionId) :
    Shown policy ids (opening ids) [] where
  steps := .refl
  handed := rfl
  shut := by simp
  quiet := .nil

theorem openCount_of_steps {Open : Lane α → Prop} (s : Steps policy Open l l')
    (h : l.merger.openCount = 0) : l'.merger.openCount = 0 := by
  rw [Merger.openCount_eq_zero_iff] at h ⊢
  exact fun p => (s.of_closed (h p)).1

/-- What lets nothing out need not be shown. -/
theorem Shown.silent (h : Shown policy ids l log) (s : Steps policy (·.enabled = true) l l')
    (hr : l'.released = l.released) : Shown policy ids l' log where
  steps := h.steps.trans s
  handed := by rw [h.handed, hr]
  shut a ha hf := openCount_of_steps s (h.shut a ha hf)
  quiet := h.quiet

/-- What is let out is handed over, and there is none of it after a flush. -/
theorem Shown.take (h : Shown policy ids l log) (n : Nat)
    (hnew : new.map (·.signal) = (l.merger.take n).1.map .record) :
    Shown policy ids (l.take n) (log ++ new) where
  steps := h.steps.trans (steps_take n l)
  handed := by
    rw [List.filterMap_append, h.handed, Attempt.filterMap_record? hnew, Ledger.take,
      List.map_append, Merger.records_departures]
  shut a ha hf := by
    rcases List.mem_append.1 ha with ha | ha
    · have hsteps : Steps policy (·.enabled = true) l (l.take n) := steps_take n l
      exact openCount_of_steps hsteps (h.shut a ha hf)
    · simp [Attempt.isFlush_of_records hnew a ha] at hf
  quiet := by
    refine List.pairwise_append.2 ⟨h.quiet, ?_, fun a ha b hb hf => ?_⟩
    · refine List.pairwise_of_forall_mem_list fun a ha b _ hf => ?_
      simp [Attempt.isFlush_of_records hnew a ha] at hf
    · -- with nothing open there is nothing to let out
      have hnone := Merger.departure?_of_openCount (h.shut a ha hf)
      rw [Merger.take_of_none hnone, List.map_nil, List.map_eq_nil_iff] at hnew
      simp [hnew] at hb

theorem Shown.flush (h : Shown policy ids l log) (hopen : l.merger.openCount = 0) {a : Attempt α}
    (ha : a.isFlush = true) : Shown policy ids l (log ++ [a]) where
  steps := h.steps
  handed := by
    rw [List.filterMap_append, h.handed, List.filterMap_cons_none (a.record?_of_isFlush ha)]
    exact List.append_nil _
  shut _ _ _ := hopen
  quiet := by
    refine List.pairwise_append.2 ⟨h.quiet, List.pairwise_singleton .., fun _ _ b hb _ => ?_⟩
    rw [List.mem_singleton.1 hb]
    exact ha

end Ledger

section Accounts

variable [Record α] {policy : Policy α} {ids : List PartitionId} {accepted : List (Entry α)}
  {m : Merger α} {log new : List (Attempt α)}

/-- Some books account for the state of a merger and for the attempts, with just these records
accepted. -/
def Accounts (policy : Policy α) (ids : List PartitionId) (accepted : List (Entry α)) (m : Merger α)
    (log : List (Attempt α)) : Prop :=
  ∃ l : Ledger α, l.merger = m ∧ l.accepted = accepted ∧ l.Shown policy ids log

theorem accounts_opening (policy : Policy α) (ids : List PartitionId) :
    Accounts policy ids [] (.ofPartitions ids) [] :=
  ⟨.opening ids, rfl, rfl, Ledger.shown_opening policy ids⟩

theorem Accounts.arrive (h : Accounts policy ids accepted m log) {e : Entry α} {lane : Lane α}
    (found : m.lane? e.partition = some lane) (enabled : lane.enabled = true)
    (keyed : policy.rule.timestamp e.record = .ok e.timestamp)
    (forward : policy.checkOrder = true → ∀ t ∈ lane.last, t ≤ e.timestamp) :
    Accounts policy ids (accepted ++ [e]) (m.arrive e) log := by
  obtain ⟨l, rfl, rfl, hl⟩ := h
  exact ⟨l.arrive e, rfl, rfl, hl.silent (.single (.arrive found enabled keyed forward)) rfl⟩

theorem arrival?_of_error {m' : Merger α} {p : PartitionId} {record : α} {fault : Fault}
    (h : m.add policy p record = (.error fault, m')) : m.arrival? policy (.add p record) = none := by
  simp only [Merger.arrival?, h]

/-- A record that is added to an enabled partition is accepted. -/
theorem Accounts.add (h : Accounts policy ids accepted m log) {m' : Merger α} {p : PartitionId}
    {record : α} (hs : m.standing p = some true) (ha : m.add policy p record = (.ok (), m')) :
    ∃ e, m.arrival? policy (.add p record) = some e ∧
      Accounts policy ids (accepted ++ [e]) m' log := by
  obtain ⟨lane, ts, found, keyed, forward, rfl⟩ := Merger.add_eq_ok_iff.1 ha
  obtain ⟨lane', found', enabled⟩ := Merger.standing_eq_some.1 hs
  cases found.symm.trans found'
  refine ⟨⟨p, ts, record⟩, ?_, h.arrive found enabled keyed forward⟩
  simp only [Merger.arrival?, ha, keyed]

theorem Accounts.unblock (h : Accounts policy ids accepted m log) (p : PartitionId) :
    Accounts policy ids accepted (m.unblock p) log := by
  obtain ⟨l, rfl, rfl, hl⟩ := h
  exact ⟨l.unblock p, rfl, rfl, hl.silent (.single .unblock) rfl⟩

theorem Accounts.disableAll (h : Accounts policy ids accepted m log) :
    Accounts policy ids accepted m.disableAll log := by
  obtain ⟨l, rfl, rfl, hl⟩ := h
  exact ⟨{ l with merger := l.merger.disableAll }, rfl, rfl, hl.silent l.steps_disableAll rfl⟩

theorem Accounts.shut (h : Accounts policy ids accepted m log) {p : PartitionId} {lane : Lane α}
    (found : m.lane? p = some lane) (drained : lane.queue = []) :
    Accounts policy ids accepted (m.shut p) log := by
  obtain ⟨l, rfl, rfl, hl⟩ := h
  exact ⟨l.shut p, rfl, rfl, hl.silent (.single (.shut found drained)) rfl⟩

theorem Accounts.closeDrained (h : Accounts policy ids accepted m log) :
    Accounts policy ids accepted m.closeDrained log := by
  obtain ⟨l, rfl, rfl, hl⟩ := h
  exact ⟨l.sweep, rfl, rfl, hl.silent l.steps_sweep rfl⟩

theorem Accounts.take (h : Accounts policy ids accepted m log) (n : Nat)
    (hnew : new.map (·.signal) = (m.take n).1.map .record) :
    Accounts policy ids accepted (m.take n).2 (log ++ new) := by
  obtain ⟨l, rfl, rfl, hl⟩ := h
  exact ⟨l.take n, rfl, rfl, hl.take n hnew⟩

theorem Accounts.flush (h : Accounts policy ids accepted m log) (hopen : m.openCount = 0)
    {a : Attempt α} (ha : a.isFlush = true) : Accounts policy ids accepted m (log ++ [a]) := by
  obtain ⟨l, rfl, rfl, hl⟩ := h
  exact ⟨l, rfl, rfl, hl.flush hopen ha⟩

/-- Nothing is open but what was open at the start. -/
theorem Accounts.standing_eq_none (h : Accounts policy ids accepted m log) {p : PartitionId}
    (hp : p ∉ ids) : m.standing p = none := by
  obtain ⟨l, rfl, rfl, hl⟩ := h
  have hclosed : (Ledger.opening ids : Ledger α).merger.standing p = none := by
    rw [Ledger.merger_opening, Merger.standing_ofPartitions, if_neg hp]
  exact (hl.steps.of_closed hclosed).1

/-- Nothing is lost on the way to an outlet. The records that it was handed, whether or not it took
them, came in the order of their timestamps, each partition's as they were accepted, and what else
was accepted is still queued; none was handed over after a flush. -/
structure Preserved (policy : Policy α) (accepted handed : List (Entry α)) (m : Merger α)
    (log : List (Attempt α)) : Prop where
  keyed : ∀ e ∈ accepted, policy.rule.timestamp e.record = .ok e.timestamp
  records : log.filterMap Attempt.record? = handed.map (·.record)
  ascending : (Ledger.timestamps handed).Pairwise (· ≤ ·)
  conserved : ∀ p, accepted.filter (·.partition = p) =
    handed.filter (·.partition = p) ++ m.queued p
  quiet : log.Pairwise fun a b => a.isFlush = true → b.isFlush = true

theorem Accounts.exists_handed (h : Accounts policy ids accepted m log)
    (hc : policy.checkOrder = true) : ∃ handed, Preserved policy accepted handed m log := by
  obtain ⟨l, rfl, rfl, hl⟩ := h
  obtain ⟨hb, ho, _⟩ := (Ledger.ordered_opening ids).steps hc (Ledger.balanced_opening ids) hl.steps
  exact ⟨l.released, hb.keyed, hl.handed, ho.ascending, hb.conserved, hl.quiet⟩

/-- Once nothing is open, all that was accepted has been handed over. -/
theorem Preserved.perm {handed : List (Entry α)} (h : Preserved policy accepted handed m log)
    (hopen : m.openCount = 0) : handed.Perm accepted := by
  refine perm_of_filter_partition fun p => ?_
  have hp := Merger.standing_eq_none.1 (Merger.openCount_eq_zero_iff.1 hopen p)
  rw [h.conserved, Merger.queued_of_lane?_none hp, List.append_nil]

end Accounts

end TimeMerge
