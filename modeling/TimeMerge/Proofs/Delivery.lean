import TimeMerge.Release
import TimeMerge.Proofs.Ledger

/-!
# What reaches an outlet

All that an outlet sees is a sequence of records and flushes. An outlet that refuses nothing ends where
that sequence takes it, whatever it does with it, so it is enough to know the sequence.
-/
namespace TimeMerge

/-- What an outlet is handed: a record, or the word that no more will come. -/
inductive Signal (α : Type) where
  | record (record : α)
  | flush
  deriving DecidableEq, Repr

namespace Outlet

variable {k : Outlet ω α} {w : ω}

def signal (k : Outlet ω α) : Signal α → ω → Except Fault Unit × ω
  | .record r, w => k.emit r w
  | .flush, w => k.flush w

/-- Where a sequence of signals takes an outlet. -/
def replay (k : Outlet ω α) : List (Signal α) → ω → ω
  | [], w => w
  | c :: cs, w => k.replay cs (k.signal c w).2

theorem replay_append (cs ds : List (Signal α)) (w : ω) :
    k.replay (cs ++ ds) w = k.replay ds (k.replay cs w) := by
  induction cs generalizing w with
  | nil => rfl
  | cons c cs ih => exact ih _

/-- From the state `w` on nothing is refused, whatever comes. -/
def NeverFails (k : Outlet ω α) (w : ω) : Prop := ∀ cs c, (k.signal c (k.replay cs w)).1 = .ok ()

theorem NeverFails.emit (h : k.NeverFails w) (r : α) :
    k.emit r w = (.ok (), k.replay [.record r] w) :=
  Prod.ext (h [] (.record r)) rfl

theorem NeverFails.flush (h : k.NeverFails w) : k.flush w = (.ok (), k.replay [.flush] w) :=
  Prod.ext (h [] .flush) rfl

theorem NeverFails.replay (h : k.NeverFails w) (cs : List (Signal α)) :
    k.NeverFails (k.replay cs w) := by
  intro ds c
  rw [← replay_append]
  exact h (cs ++ ds) c

/-- Hands over one record after the other until one is refused, and tells how many it handed over. -/
def offer (k : Outlet ω α) : List α → ω → Except Fault Nat × (Nat × ω)
  | [], w => (.ok 0, (0, w))
  | r :: rs, w =>
    match k.emit r w with
    | (.error e, w) => (.error e, (1, w))
    | (.ok (), w) =>
      match k.offer rs w with
      | (answer, (n, w)) => (answer.map (· + 1), (n + 1, w))

theorem NeverFails.offer (h : k.NeverFails w) (rs : List α) :
    k.offer rs w = (.ok rs.length, (rs.length, k.replay (rs.map .record) w)) := by
  induction rs generalizing w with
  | nil => rfl
  | cons r rs ih =>
    simp only [Outlet.offer, h.emit, ih (h.replay [.record r])]
    rfl

/-- What a collecting outlet ends with is what it was handed. -/
theorem replay_collect (es : List (Entry α)) (rs : List α) :
    collect.replay (es.map (.record ·.record) ++ [.flush]) rs = rs ++ es.map (·.record) := by
  induction es generalizing rs with
  | nil => exact (List.append_nil rs).symm
  | cons e es ih =>
    have h := ih (rs ++ [e.record])
    rw [List.append_assoc] at h
    exact h

theorem neverFails_collect (rs : List α) : collect.NeverFails rs := by
  intro cs c
  cases c <;> rfl

end Outlet

namespace Merger

variable {m : Merger α} {e : Entry α}

theorem release_of_none (h : m.departure? = none) (k : Outlet ω α) (w : ω) :
    m.release k w = (.ok 0, (m, w)) := by
  have hn : m.next = none := by rw [next_eq, h, Option.map_none]
  rw [release]
  split
  · rfl
  · rename_i hs
    simp [hn] at hs

/-- Releasing what departs first and then the rest, as `offer` does it with a list. -/
theorem release_of_some (h : m.departure? = some e) (k : Outlet ω α) (w : ω) :
    m.release k w =
      match k.emit e.record w with
      | (.error fault, w) => (.error fault, (m.depart e, w))
      | (.ok (), w) => (((m.depart e).release k w).1.map (· + 1), ((m.depart e).release k w).2) := by
  have hn : m.next = some (e.record, m.depart e) := by rw [next_eq, h, Option.map_some]
  rw [release]
  split
  · rename_i hs
    simp [hn] at hs
  · rename_i hs
    rw [hn] at hs
    cases hs
    obtain ⟨answer, w⟩ := k.emit e.record w
    cases answer with
    | error fault => rfl
    | ok =>
      dsimp only
      obtain ⟨answer, s⟩ := (m.depart e).release k w
      cases answer <;> rfl

/-- What may go is offered in the order of departure, and just what was handed over has left. -/
theorem release_eq_offer (k : Outlet ω α) (m : Merger α) (w : ω) :
    m.release k w = ((k.offer m.drain.1 w).1,
      ((m.take (k.offer m.drain.1 w).2.1).2, (k.offer m.drain.1 w).2.2)) := by
  induction m using drain.induct generalizing w with
  | case1 m hn =>
    rw [next_eq, Option.map_eq_none_iff] at hn
    rw [release_of_none hn, drain_of_none hn, take_of_none hn]
    rfl
  | case2 m record m' hn ih =>
    rw [next_eq] at hn
    obtain ⟨e, hd, he⟩ := Option.map_eq_some_iff.1 hn
    cases he
    rw [release_of_some hd, drain_of_some hd, Outlet.offer]
    obtain ⟨answer, w⟩ := k.emit e.record w
    cases answer with
    | error fault =>
      rw [take_succ_of_some hd]
      rfl
    | ok => simp only [ih, take_succ_of_some hd]

theorem take_length_drain (m : Merger α) : m.take m.drain.1.length = m.drain := by
  induction m using drain.induct with
  | case1 m hn =>
    rw [next_eq, Option.map_eq_none_iff] at hn
    rw [drain_of_none hn, take_of_none hn]
  | case2 m record m' hn ih =>
    rw [next_eq] at hn
    obtain ⟨e, hd, he⟩ := Option.map_eq_some_iff.1 hn
    cases he
    rw [drain_of_some hd, List.length_cons, take_succ_of_some hd, ih]

theorem release_of_neverFails {k : Outlet ω α} {w : ω} (h : k.NeverFails w) (m : Merger α) :
    m.release k w = (.ok m.drain.1.length, (m.drain.2, k.replay (m.drain.1.map .record) w)) := by
  rw [release_eq_offer, h.offer, take_length_drain]

end Merger

namespace Ledger

variable {l : Ledger α}

/-- The ledger once everything that may go has gone. -/
def drain (l : Ledger α) : Ledger α := l.take l.merger.size

@[simp] theorem merger_drain (l : Ledger α) : l.drain.merger = l.merger.drain.2 := by
  rw [Merger.drain_eq_take (Nat.le_refl _)]
  rfl

theorem standing_drain (l : Ledger α) (p : PartitionId) :
    l.drain.merger.standing p = l.merger.standing p :=
  standing_take ..

theorem steps_drain [Record α] {policy : Policy α} {Open : Lane α → Prop} (l : Ledger α) :
    Steps policy Open l l.drain :=
  steps_take ..

/-- What an outlet has seen of the records. -/
def signals (l : Ledger α) : List (Signal α) := l.released.map fun e => .record e.record

theorem signals_drain (l : Ledger α) :
    l.drain.signals = l.signals ++ l.merger.drain.1.map .record := by
  rw [Merger.drain_eq_take (Nat.le_refl _), ← Merger.records_departures, List.map_map]
  exact List.map_append

theorem length_released_drain (l : Ledger α) :
    l.drain.released.length = l.released.length + l.merger.drain.1.length := by
  have h := congrArg List.length l.signals_drain
  simpa [signals] using h

end Ledger

end TimeMerge
