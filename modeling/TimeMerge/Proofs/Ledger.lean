import Mathlib.Logic.Relation
import TimeMerge.Proofs.Departure

/-!
# The books of a merger

A ledger is a merger together with all that it ever took and gave out, each record under its partition
and timestamp. It changes in four ways only, one per change of a merger, and every run is a sequence
of such steps. The books balance at every step: per partition, what was taken is what was given out
followed by what is queued.
-/
namespace TimeMerge

/-- Lists agree as a whole, order aside, if they agree per partition. -/
theorem perm_of_filter_eq {β : Type} (f : β → PartitionId) {xs ys : List β}
    (h : ∀ p, xs.filter (f · = p) = ys.filter (f · = p)) : xs.Perm ys := by
  classical
  rw [List.perm_iff_count]
  intro x
  have hc := congrArg (List.count x) (h (f x))
  rwa [List.count_filter (by simp), List.count_filter (by simp)] at hc

theorem perm_of_filter_partition {es fs : List (Entry α)}
    (h : ∀ p, es.filter (·.partition = p) = fs.filter (·.partition = p)) : es.Perm fs :=
  perm_of_filter_eq (·.partition) h

section Parts

variable {β : Type} {xs : List β} {g : β → PartitionId} {f : β → List (Entry α)}

theorem filter_flatMap_of_not_mem (hf : ∀ x, ∀ e ∈ f x, e.partition = g x) {p : PartitionId}
    (hp : p ∉ xs.map g) : (xs.flatMap f).filter (·.partition = p) = [] := by
  rw [List.filter_eq_nil_iff]
  intro e he
  obtain ⟨x, hx, he⟩ := List.mem_flatMap.1 he
  rw [hf x e he, decide_eq_true_eq]
  exact fun heq => hp (List.mem_map.2 ⟨x, hx, heq⟩)

/-- Of lists with one partition each, put together, the part of a partition is its list. -/
theorem filter_flatMap_of_nodup (hf : ∀ x, ∀ e ∈ f x, e.partition = g x)
    (hn : (xs.map g).Nodup) {x : β} (hx : x ∈ xs) :
    (xs.flatMap f).filter (·.partition = g x) = f x := by
  obtain ⟨before, behind, rfl⟩ := List.append_of_mem hx
  rw [List.map_append, List.map_cons, List.perm_middle.nodup_iff, List.nodup_cons,
    List.mem_append, not_or] at hn
  have hown : (f x).filter (·.partition = g x) = f x :=
    List.filter_eq_self.2 fun e he => decide_eq_true (hf x e he)
  rw [List.flatMap_append, List.flatMap_cons, List.filter_append, List.filter_append, hown,
    filter_flatMap_of_not_mem hf hn.1.1, filter_flatMap_of_not_mem hf hn.1.2, List.nil_append,
    List.append_nil]

end Parts

structure Ledger (α : Type) where
  merger : Merger α
  accepted : List (Entry α) := []
  released : List (Entry α) := []

namespace Ledger

def acceptedOn (l : Ledger α) (p : PartitionId) : List (Entry α) :=
  l.accepted.filter (·.partition = p)

def releasedOn (l : Ledger α) (p : PartitionId) : List (Entry α) :=
  l.released.filter (·.partition = p)

/-- The timestamp of what was last taken for a partition. -/
def latest? (l : Ledger α) (p : PartitionId) : Option Timestamp :=
  (l.acceptedOn p).getLast?.map (·.timestamp)

/-- The books at the start, when nothing was taken or given out. -/
def opening (ids : List PartitionId) : Ledger α := { merger := .ofPartitions ids }

def arrive (e : Entry α) (l : Ledger α) : Ledger α :=
  { l with merger := l.merger.arrive e, accepted := l.accepted ++ [e] }

def depart (e : Entry α) (l : Ledger α) : Ledger α :=
  { l with merger := l.merger.depart e, released := l.released ++ [e] }

def unblock (p : PartitionId) (l : Ledger α) : Ledger α := { l with merger := l.merger.unblock p }

def shut (p : PartitionId) (l : Ledger α) : Ledger α := { l with merger := l.merger.shut p }

@[simp] theorem merger_opening (ids : List PartitionId) :
    (opening ids : Ledger α).merger = .ofPartitions ids := rfl

section Changes

variable (e : Entry α) (l : Ledger α) (p q : PartitionId)

@[simp] theorem merger_arrive : (l.arrive e).merger = l.merger.arrive e := rfl
@[simp] theorem merger_depart : (l.depart e).merger = l.merger.depart e := rfl
@[simp] theorem merger_unblock : (l.unblock p).merger = l.merger.unblock p := rfl
@[simp] theorem merger_shut : (l.shut p).merger = l.merger.shut p := rfl

@[simp] theorem accepted_arrive : (l.arrive e).accepted = l.accepted ++ [e] := rfl
@[simp] theorem accepted_depart : (l.depart e).accepted = l.accepted := rfl
@[simp] theorem accepted_unblock : (l.unblock p).accepted = l.accepted := rfl
@[simp] theorem accepted_shut : (l.shut p).accepted = l.accepted := rfl

@[simp] theorem released_arrive : (l.arrive e).released = l.released := rfl
@[simp] theorem released_depart : (l.depart e).released = l.released ++ [e] := rfl
@[simp] theorem released_unblock : (l.unblock p).released = l.released := rfl
@[simp] theorem released_shut : (l.shut p).released = l.released := rfl

theorem latest?_arrive : (l.arrive e).latest? p =
    if p = e.partition then some e.timestamp else l.latest? p := by
  by_cases h : p = e.partition <;> simp [latest?, acceptedOn, h, eq_comm]

@[simp] theorem latest?_depart : (l.depart e).latest? p = l.latest? p := rfl
@[simp] theorem latest?_unblock : (l.unblock q).latest? p = l.latest? p := rfl
@[simp] theorem latest?_shut : (l.shut q).latest? p = l.latest? p := rfl

theorem acceptedOn_arrive : (l.arrive e).acceptedOn p =
    if p = e.partition then l.acceptedOn p ++ [e] else l.acceptedOn p := by
  by_cases h : p = e.partition <;> simp [acceptedOn, h, eq_comm]

@[simp] theorem acceptedOn_depart : (l.depart e).acceptedOn p = l.acceptedOn p := rfl
@[simp] theorem acceptedOn_unblock : (l.unblock q).acceptedOn p = l.acceptedOn p := rfl
@[simp] theorem acceptedOn_shut : (l.shut q).acceptedOn p = l.acceptedOn p := rfl

@[simp] theorem releasedOn_arrive : (l.arrive e).releasedOn p = l.releasedOn p := rfl

theorem releasedOn_depart : (l.depart e).releasedOn p =
    if p = e.partition then l.releasedOn p ++ [e] else l.releasedOn p := by
  by_cases h : p = e.partition <;> simp [releasedOn, h, eq_comm]

@[simp] theorem releasedOn_unblock : (l.unblock q).releasedOn p = l.releasedOn p := rfl
@[simp] theorem releasedOn_shut : (l.shut q).releasedOn p = l.releasedOn p := rfl

end Changes

/-- One change. Records arrive at the end of lanes of the kind `Open` only. -/
inductive Step [Record α] (policy : Policy α) (Open : Lane α → Prop) (l : Ledger α) :
    Ledger α → Prop where
  | arrive {e : Entry α} {lane : Lane α} (found : l.merger.lane? e.partition = some lane)
      (allowed : Open lane) (keyed : policy.rule.timestamp e.record = .ok e.timestamp)
      (forward : policy.checkOrder = true → ∀ t ∈ lane.last, t ≤ e.timestamp) :
      Step policy Open l (l.arrive e)
  | depart {e : Entry α} (chosen : l.merger.departure? = some e) : Step policy Open l (l.depart e)
  | unblock {p : PartitionId} : Step policy Open l (l.unblock p)
  | shut {p : PartitionId} {lane : Lane α} (found : l.merger.lane? p = some lane)
      (drained : lane.queue = []) : Step policy Open l (l.shut p)

abbrev Steps [Record α] (policy : Policy α) (Open : Lane α → Prop) :
    Ledger α → Ledger α → Prop :=
  Relation.ReflTransGen (Step policy Open)

variable [Record α] {policy : Policy α} {Open : Lane α → Prop} {l l' : Ledger α}

/-- Up to `n` departures, entered one by one. -/
def take (n : Nat) (l : Ledger α) : Ledger α :=
  { l with merger := (l.merger.take n).2, released := l.released ++ l.merger.departures n }

omit [Record α] in
theorem take_zero (l : Ledger α) : l.take 0 = l := by
  simp [take, Merger.take, Merger.departures]

omit [Record α] in
theorem take_of_none (h : l.merger.departure? = none) (n : Nat) : l.take n = l := by
  cases n <;> simp [take, Merger.take_of_none, Merger.departures, h]

omit [Record α] in
theorem take_succ_of_some {e : Entry α} (h : l.merger.departure? = some e) (n : Nat) :
    l.take (n + 1) = (l.depart e).take n := by
  simp [take, Merger.take_succ_of_some, Merger.departures, h, depart]

omit [Record α] in
/-- Departures open and close nothing. -/
theorem standing_take (n : Nat) (l : Ledger α) (p : PartitionId) :
    (l.take n).merger.standing p = l.merger.standing p := by
  induction n generalizing l with
  | zero => rw [take_zero]
  | succ n ih =>
    cases h : l.merger.departure? with
    | none => rw [take_of_none h]
    | some e => rw [take_succ_of_some h, ih, merger_depart, Merger.standing_depart]

theorem steps_take (n : Nat) (l : Ledger α) : Steps policy Open l (l.take n) := by
  induction n generalizing l with
  | zero => rw [take_zero]
  | succ n ih =>
    cases h : l.merger.departure? with
    | none => rw [take_of_none h]
    | some e =>
      rw [take_succ_of_some h]
      exact .head (.depart h) (ih _)

/-- A partition that is not open stays so, and nothing is taken for it. -/
theorem Step.of_closed {p : PartitionId} (h : l.merger.standing p = none)
    (s : Step policy Open l l') :
    l'.merger.standing p = none ∧ l'.acceptedOn p = l.acceptedOn p := by
  cases s with
  | @arrive e lane found _ _ _ =>
    have hne : p ≠ e.partition := by
      rintro rfl
      simp [Merger.standing_eq_none.1 h] at found
    rw [merger_arrive, Merger.standing_arrive, acceptedOn_arrive, if_neg hne]
    exact ⟨h, rfl⟩
  | depart chosen =>
    rw [merger_depart, Merger.standing_depart]
    exact ⟨h, rfl⟩
  | @unblock q =>
    rw [merger_unblock, Merger.standing_unblock, h]
    exact ⟨by simp, rfl⟩
  | @shut q lane found drained =>
    rw [merger_shut, Merger.standing_shut, h]
    exact ⟨by simp, rfl⟩

theorem Steps.of_closed {p : PartitionId} (h : l.merger.standing p = none)
    (s : Steps policy Open l l') :
    l'.merger.standing p = none ∧ l'.acceptedOn p = l.acceptedOn p := by
  induction s with
  | refl => exact ⟨h, rfl⟩
  | tail _ s ih =>
    obtain ⟨hc, ha⟩ := s.of_closed ih.1
    exact ⟨hc, ha.trans ih.2⟩

structure Balanced (policy : Policy α) (l : Ledger α) : Prop where
  conserved : ∀ p, l.acceptedOn p = l.releasedOn p ++ l.merger.queued p
  counted : l.merger.buffered = l.merger.size
  keyed : ∀ e ∈ l.accepted, policy.rule.timestamp e.record = .ok e.timestamp
  latest : ∀ p lane, l.merger.lane? p = some lane → lane.last = l.latest? p

theorem balanced_opening (ids : List PartitionId) : Balanced policy (opening ids) := by
  constructor
  · intro p
    simp [acceptedOn, releasedOn, opening, Merger.queued_ofPartitions]
  · rw [merger_opening, Merger.size_ofPartitions]
    rfl
  · simp [opening]
  · intro p lane hl
    rw [merger_opening, Merger.lane?_ofPartitions] at hl
    split at hl <;> cases hl
    rfl

theorem Balanced.arrive {e : Entry α} (h : l.Balanced policy)
    (found : (l.merger.lane? e.partition).isSome)
    (keyed : policy.rule.timestamp e.record = .ok e.timestamp) :
    (l.arrive e).Balanced policy := by
  constructor
  · intro p
    rw [acceptedOn_arrive, releasedOn_arrive, merger_arrive, Merger.queued_arrive found]
    by_cases hp : p = e.partition <;> simp [hp, h.conserved]
  · rw [merger_arrive, Merger.buffered_arrive, Merger.size_arrive found, h.counted]
  · intro f hf
    rcases List.mem_append.1 hf with hf | hf
    · exact h.keyed f hf
    · rw [List.mem_singleton.1 hf, keyed]
  · intro p lane hl
    rw [merger_arrive, Merger.lane?_arrive] at hl
    obtain ⟨lane', hl', rfl⟩ := Option.map_eq_some_iff.1 hl
    rw [latest?_arrive]
    by_cases hp : p = e.partition
    · simp [hp, Lane.push]
    · simpa [hp] using h.latest p lane' hl'

theorem Balanced.depart {e : Entry α} (h : l.Balanced policy)
    (chosen : l.merger.departure? = some e) : (l.depart e).Balanced policy := by
  constructor
  · intro p
    rw [acceptedOn_depart, releasedOn_depart, merger_depart, Merger.queued_depart, h.conserved]
    by_cases hp : p = e.partition
    · obtain ⟨rest, hq⟩ := List.head?_eq_some_iff.1 (Merger.head?_of_departure? chosen)
      simp [hp, hq]
    · simp [hp]
  · have hs := Merger.size_depart (Merger.mem_queued_of_departure? chosen)
    rw [merger_depart, Merger.buffered_depart, h.counted]
    omega
  · exact h.keyed
  · intro p lane hl
    rw [merger_depart, Merger.lane?_depart] at hl
    obtain ⟨lane', hl', rfl⟩ := Option.map_eq_some_iff.1 hl
    have := h.latest p lane' hl'
    by_cases hp : p = e.partition <;> simpa [hp, Lane.drop] using this

theorem Balanced.unblock (h : l.Balanced policy) (p : PartitionId) :
    (l.unblock p).Balanced policy := by
  constructor
  · intro q
    rw [merger_unblock, Merger.queued_unblock]
    exact h.conserved q
  · rw [merger_unblock, Merger.size_unblock]
    exact h.counted
  · exact h.keyed
  · intro q lane hl
    rw [merger_unblock, Merger.lane?_unblock] at hl
    obtain ⟨lane', hl', rfl⟩ := Option.map_eq_some_iff.1 hl
    have := h.latest q lane' hl'
    by_cases hq : q = p <;> simpa [hq, Lane.disable] using this

theorem Balanced.shut {p : PartitionId} {lane : Lane α} (h : l.Balanced policy)
    (found : l.merger.lane? p = some lane) (drained : lane.queue = []) :
    (l.shut p).Balanced policy := by
  have hq : l.merger.queued p = [] := by simp [Merger.queued_of_lane? found, drained]
  constructor
  · intro q
    rw [merger_shut, Merger.queued_shut hq]
    exact h.conserved q
  · rw [merger_shut, Merger.size_shut found drained]
    exact h.counted
  · exact h.keyed
  · intro q lane' hl
    rw [merger_shut, Merger.lane?_shut] at hl
    split at hl
    · cases hl
    · exact h.latest q lane' hl

theorem Balanced.step (h : l.Balanced policy) (s : Step policy Open l l') :
    l'.Balanced policy := by
  cases s with
  | arrive found _ keyed _ => exact h.arrive (Option.isSome_of_eq_some found) keyed
  | depart chosen => exact h.depart chosen
  | unblock => exact h.unblock _
  | shut found drained => exact h.shut found drained

theorem Balanced.steps (h : l.Balanced policy) (s : Steps policy Open l l') :
    l'.Balanced policy := by
  induction s with
  | refl => exact h
  | tail _ s ih => exact ih.step s

end Ledger

end TimeMerge
