import TimeMerge.Proofs.Ledger

/-!
# Sequences of calls

Any caller of a merger makes a sequence of calls and sees a reply to each. The ledger is kept beside
it, and what it holds is what the replies say: nothing is lost, nothing comes out twice, and a call
that is refused changes nothing.
-/
namespace TimeMerge

inductive Call (α : Type) where
  | add (partition : PartitionId) (record : α)
  | next
  | drain
  /-- A drain that is left after so many records. -/
  | take (count : Nat)
  | close (partition : PartitionId)
  | disable (partition : PartitionId)
  deriving DecidableEq, Repr

inductive Reply (α : Type) where
  | added (result : Except Fault Unit)
  | released (records : List α)
  | closed (result : Except Fault Bool)
  | disabled (result : Except Fault Unit)

def Reply.records : Reply α → List α
  | .released records => records
  | _ => []

/-- A fault, or a partition that could not be closed yet. -/
def Reply.isRefusal : Reply α → Bool
  | .added (.error _) | .closed (.error _) | .closed (.ok false) | .disabled (.error _) => true
  | _ => false

/-- The most records that a call releases. -/
def Call.limit (m : Merger α) : Call α → Nat
  | .next => 1
  | .drain => m.size
  | .take n => n
  | _ => 0

/-- The record that a call added, if its reply says so. -/
def Call.addition? : Call α × Reply α → Option (PartitionId × α)
  | (.add p record, .added (.ok ())) => some (p, record)
  | _ => none

variable [Record α]

namespace Merger

def answer (policy : Policy α) (m : Merger α) : Call α → Reply α × Merger α
  | .add p record =>
    match m.add policy p record with
    | (answer, m) => (.added answer, m)
  | .next =>
    match m.next with
    | none => (.released [], m)
    | some (record, m') => (.released [record], m')
  | .drain => (.released m.drain.1, m.drain.2)
  | .take n => (.released (m.take n).1, (m.take n).2)
  | .close p =>
    match m.close p with
    | (answer, m) => (.closed answer, m)
  | .disable p =>
    match m.disable p with
    | (answer, m) => (.disabled answer, m)

/-- The state after a sequence of calls. -/
def after (policy : Policy α) : List (Call α) → Merger α → Merger α
  | [], m => m
  | c :: cs, m => after policy cs (m.answer policy c).2

/-- The calls with their replies. -/
def transcript (policy : Policy α) : List (Call α) → Merger α → List (Call α × Reply α)
  | [], _ => []
  | c :: cs, m => (c, (m.answer policy c).1) :: transcript policy cs (m.answer policy c).2

/-- The records that a sequence of calls releases, in order. -/
def output (policy : Policy α) (cs : List (Call α)) (m : Merger α) : List α :=
  (m.transcript policy cs).flatMap (·.2.records)

/-- The entry that a call makes among what was taken. -/
def arrival? (policy : Policy α) (m : Merger α) : Call α → Option (Entry α)
  | .add p record =>
    match (m.add policy p record).1, policy.rule.timestamp record with
    | .ok (), .ok ts => some ⟨p, ts, record⟩
    | _, _ => none
  | _ => none

end Merger

/-- Integers that are their own timestamps. -/
def Policy.selfKeyed : Policy Int := { rule := .computed .ok }

namespace Ledger

def enter (policy : Policy α) (l : Ledger α) (c : Call α) : Ledger α where
  merger := (l.merger.answer policy c).2
  accepted := l.accepted ++ (l.merger.arrival? policy c).toList
  released := l.released ++ l.merger.departures (c.limit l.merger)

/-- The books after a sequence of calls. -/
def run (policy : Policy α) (cs : List (Call α)) (l : Ledger α) : Ledger α :=
  cs.foldl (enter policy) l

variable {policy : Policy α} {Open : Lane α → Prop}

@[simp] theorem merger_enter (l : Ledger α) (c : Call α) :
    (l.enter policy c).merger = (l.merger.answer policy c).2 := rfl

theorem enter_add {l : Ledger α} {p : PartitionId} {record : α} {ts : Timestamp}
    {m : Merger α} (h : l.merger.add policy p record = (.ok (), m))
    (ht : policy.rule.timestamp record = .ok ts) :
    l.enter policy (.add p record) = l.arrive ⟨p, ts, record⟩ := by
  obtain ⟨lane, ts', _, ht', _, rfl⟩ := Merger.add_eq_ok_iff.1 h
  cases ht.symm.trans ht'
  simp [enter, Merger.answer, Merger.arrival?, h, ht, Call.limit, Merger.departures, arrive]

theorem enter_next (l : Ledger α) : l.enter policy .next = l.take 1 := by
  cases h : l.merger.departure? with
  | none =>
    rw [take_of_none h]
    simp [enter, Merger.answer, Merger.next_eq, h, Merger.arrival?, Call.limit, Merger.departures]
  | some e =>
    rw [take_succ_of_some h, take_zero]
    simp [enter, Merger.answer, Merger.next_eq, h, Merger.arrival?, Call.limit, Merger.departures,
      depart]

theorem enter_drain (l : Ledger α) : l.enter policy .drain = l.take l.merger.size := by
  simp [enter, Merger.answer, Merger.arrival?, Call.limit, take,
    Merger.drain_eq_take (Nat.le_refl _)]

theorem enter_take (l : Ledger α) (n : Nat) : l.enter policy (.take n) = l.take n := by
  simp [enter, Merger.answer, Merger.arrival?, Call.limit, take]

theorem enter_close {l : Ledger α} {p : PartitionId} {m : Merger α}
    (h : l.merger.close p = (.ok true, m)) : l.enter policy (.close p) = l.shut p := by
  obtain ⟨lane, _, _, rfl⟩ := Merger.close_eq_true_iff.1 h
  simp [enter, Merger.answer, Merger.arrival?, h, Call.limit, Merger.departures, shut]

theorem enter_disable {l : Ledger α} {p : PartitionId} {m : Merger α}
    (h : l.merger.disable p = (.ok (), m)) : l.enter policy (.disable p) = l.unblock p := by
  obtain ⟨_, rfl⟩ := Merger.disable_eq_ok_iff.1 h
  simp [enter, Merger.answer, Merger.arrival?, h, Call.limit, Merger.departures, unblock]

/-- A call that is refused leaves no mark in the books. -/
theorem enter_refused {l : Ledger α} {c : Call α}
    (h : (l.merger.answer policy c).1.isRefusal = true) : l.enter policy c = l := by
  cases c with
  | add p record =>
    rcases ha : l.merger.add policy p record with ⟨fault | ⟨⟩, m⟩
    · obtain rfl := Merger.eq_of_add_error ha
      simp [enter, Merger.answer, Merger.arrival?, ha, Call.limit, Merger.departures]
    · simp [Merger.answer, ha, Reply.isRefusal] at h
  | next => cases hn : l.merger.next <;> simp [Merger.answer, hn, Reply.isRefusal] at h
  | drain => simp [Merger.answer, Reply.isRefusal] at h
  | take n => simp [Merger.answer, Reply.isRefusal] at h
  | close p =>
    have hsame : (l.merger.close p).2 = l.merger := by
      rcases hc : l.merger.close p with ⟨fault | done, m⟩
      · exact (Merger.close_eq_error_iff.1 hc).2.2.symm
      · cases done with
        | true => simp [Merger.answer, hc, Reply.isRefusal] at h
        | false => exact (Merger.close_eq_false_iff.1 hc).2.symm
    simp [enter, Merger.answer, Merger.arrival?, hsame, Call.limit, Merger.departures]
  | disable p =>
    rcases hd : l.merger.disable p with ⟨fault | ⟨⟩, m⟩
    · obtain ⟨_, _, rfl⟩ := Merger.disable_eq_error_iff.1 hd
      simp [enter, Merger.answer, Merger.arrival?, hd, Call.limit, Merger.departures]
    · simp [Merger.answer, hd, Reply.isRefusal] at h

/-- Every call is a sequence of steps, whose records arrive where the call adds them. -/
theorem steps_enter {l : Ledger α} {c : Call α}
    (ho : ∀ p record lane, c = .add p record → l.merger.lane? p = some lane → Open lane) :
    Steps policy Open l (l.enter policy c) := by
  by_cases hr : (l.merger.answer policy c).1.isRefusal = true
  · rw [enter_refused hr]
  cases c with
  | add p record =>
    rcases ha : l.merger.add policy p record with ⟨fault | ⟨⟩, m⟩
    · simp [Merger.answer, ha, Reply.isRefusal] at hr
    · obtain ⟨lane, ts, found, keyed, forward, _⟩ := Merger.add_eq_ok_iff.1 ha
      rw [enter_add ha keyed]
      exact .single (.arrive found (ho p record lane rfl found) keyed forward)
  | next =>
    rw [enter_next]
    exact steps_take 1 l
  | drain =>
    rw [enter_drain]
    exact steps_take _ l
  | take n =>
    rw [enter_take]
    exact steps_take n l
  | close p =>
    rcases hc : l.merger.close p with ⟨fault | done, m⟩
    · simp [Merger.answer, hc, Reply.isRefusal] at hr
    · cases done with
      | true =>
        obtain ⟨lane, found, drained, _⟩ := Merger.close_eq_true_iff.1 hc
        rw [enter_close hc]
        exact .single (.shut found drained)
      | false => simp [Merger.answer, hc, Reply.isRefusal] at hr
  | disable p =>
    rcases hd : l.merger.disable p with ⟨fault | ⟨⟩, m⟩
    · simp [Merger.answer, hd, Reply.isRefusal] at hr
    · rw [enter_disable hd]
      exact .single .unblock

theorem records_enter (l : Ledger α) (c : Call α) : (l.enter policy c).released.map (·.record) =
    l.released.map (·.record) ++ (l.merger.answer policy c).1.records := by
  simp only [enter, List.map_append, Merger.records_departures]
  congr 1
  cases c with
  | add p record => simp [Call.limit, Merger.take, Merger.answer, Reply.records]
  | next =>
    cases hn : l.merger.next <;>
      simp [Call.limit, Merger.take, Merger.answer, hn, Reply.records]
  | drain => simp [Call.limit, Merger.answer, Reply.records, Merger.drain_eq_take (Nat.le_refl _)]
  | take n => simp [Call.limit, Merger.answer, Reply.records]
  | close p => simp [Call.limit, Merger.take, Merger.answer, Reply.records]
  | disable p => simp [Call.limit, Merger.take, Merger.answer, Reply.records]

theorem additions_enter (l : Ledger α) (c : Call α) :
    (l.enter policy c).accepted.map (fun e => (e.partition, e.record)) =
      l.accepted.map (fun e => (e.partition, e.record)) ++
        (Call.addition? (c, (l.merger.answer policy c).1)).toList := by
  simp only [enter, List.map_append]
  congr 1
  cases c with
  | add p record =>
    rcases ha : l.merger.add policy p record with ⟨fault | ⟨⟩, m⟩
    · simp [Merger.arrival?, Merger.answer, ha, Call.addition?]
    · obtain ⟨_, ts, _, hts, _⟩ := Merger.add_eq_ok_iff.1 ha
      simp [Merger.arrival?, Merger.answer, ha, hts, Call.addition?]
  | next => simp [Merger.arrival?, Call.addition?]
  | drain => simp [Merger.arrival?, Call.addition?]
  | take n => simp [Merger.arrival?, Call.addition?]
  | close p => simp [Merger.arrival?, Call.addition?]
  | disable p => simp [Merger.arrival?, Call.addition?]

theorem merger_run (policy : Policy α) (cs : List (Call α)) (l : Ledger α) :
    (l.run policy cs).merger = l.merger.after policy cs := by
  induction cs generalizing l with
  | nil => rfl
  | cons c cs ih => exact ih _

/-- What the books say was given out is what the replies gave out. -/
theorem records_run (policy : Policy α) (cs : List (Call α)) (l : Ledger α) :
    (l.run policy cs).released.map (·.record) =
      l.released.map (·.record) ++ l.merger.output policy cs := by
  induction cs generalizing l with
  | nil => simp [run, Merger.output, Merger.transcript]
  | cons c cs ih =>
    have h := ih (l.enter policy c)
    rw [records_enter, List.append_assoc] at h
    simpa [run, Merger.output, Merger.transcript] using h

/-- What the books say was taken is what was added and not refused. -/
theorem additions_run (policy : Policy α) (cs : List (Call α)) (l : Ledger α) :
    (l.run policy cs).accepted.map (fun e => (e.partition, e.record)) =
      l.accepted.map (fun e => (e.partition, e.record)) ++
        (l.merger.transcript policy cs).filterMap Call.addition? := by
  induction cs generalizing l with
  | nil => simp [run, Merger.transcript]
  | cons c cs ih =>
    have h := ih (l.enter policy c)
    rw [additions_enter, List.append_assoc] at h
    simp only [run, List.foldl_cons] at h ⊢
    rw [h, Merger.transcript, List.filterMap_cons]
    cases Call.addition? (c, (l.merger.answer policy c).1) <;> simp [enter]

theorem steps_run (cs : List (Call α)) (l : Ledger α) :
    Steps policy (fun _ => True) l (l.run policy cs) := by
  induction cs generalizing l with
  | nil => exact .refl
  | cons c cs ih => exact (steps_enter fun _ _ _ _ _ => trivial).trans (ih _)

/-- After any calls whatever: per partition, the records that were taken are those that were given out
and then those that are queued, each in its order; the count of the queued ones is right, so that
taking one off it never goes below zero; and a call that is refused leaves the state as it was. -/
theorem books_balance (policy : Policy α) (ids : List PartitionId) (calls : List (Call α)) :
    let start : Merger α := .ofPartitions ids
    let l := (opening ids).run policy calls
    l.merger = start.after policy calls ∧
    l.accepted.map (fun e => (e.partition, e.record)) =
      (start.transcript policy calls).filterMap Call.addition? ∧
    l.released.map (·.record) = start.output policy calls ∧
    (∀ p, l.acceptedOn p = l.releasedOn p ++ l.merger.queued p) ∧
    (∀ p, l.merger.isOpen p = false → l.acceptedOn p = l.releasedOn p) ∧
    l.merger.buffered = (l.merger.partitions.filterMap l.merger.bufferedIn).sum ∧
    (∀ record m, l.merger.next = some (record, m) → m.buffered + 1 = l.merger.buffered) ∧
    ∀ c, (l.merger.answer policy c).1.isRefusal = true →
      (l.merger.answer policy c).2 = l.merger := by
  intro start l
  have h : l.Balanced policy := (balanced_opening ids).steps (steps_run calls (opening ids))
  refine ⟨merger_run policy calls _, additions_run policy calls _, records_run policy calls _,
    h.conserved, ?_, ?_, ?_, ?_⟩
  · intro p hp
    have hl : l.merger.lane? p = none := by simpa [Merger.isOpen] using hp
    rw [h.conserved, Merger.queued_of_lane?_none hl, List.append_nil]
  · rw [h.counted, Merger.size_eq_sum]
  · intro record m hn
    rw [Merger.next_eq] at hn
    obtain ⟨e, chosen, he⟩ := Option.map_eq_some_iff.1 hn
    cases he
    have h' := h.depart chosen
    rw [h.counted, ← Merger.size_depart (Merger.mem_queued_of_departure? chosen)]
    exact congrArg (· + 1) h'.counted
  · intro c hc
    exact congrArg merger (enter_refused hc)

end Ledger

end TimeMerge
