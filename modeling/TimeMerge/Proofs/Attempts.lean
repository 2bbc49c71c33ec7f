import TimeMerge.Proofs.Delivery

/-!
# Attempts on an outlet

What an outlet refuses need not show in the state it keeps. A log beside that state holds every
attempt with its answer, and whoever hands over records cannot tell whether there is one. -/
namespace TimeMerge

structure Attempt (α : Type) where
  signal : Signal α
  answer : Except Fault Unit

namespace Attempt

def isFlush (a : Attempt α) : Bool :=
  match a.signal with
  | .flush => true
  | .record _ => false

def isTaken (a : Attempt α) : Bool :=
  match a.answer with
  | .ok () => true
  | .error _ => false

theorem isFlush_of_records {as : List (Attempt α)} {rs : List α}
    (h : as.map (·.signal) = rs.map .record) : ∀ a ∈ as, a.isFlush = false := by
  intro a ha
  have hs : a.signal ∈ rs.map Signal.record := h ▸ List.mem_map_of_mem ha
  obtain ⟨r, _, hr⟩ := List.mem_map.1 hs
  rw [isFlush, ← hr]

end Attempt

/-- The state of an outlet and all attempts on it, in their order. -/
structure Logged (ω α : Type) where
  state : ω
  attempts : List (Attempt α) := []

/-- Enters an attempt and what came of it. -/
def Logged.enter (c : Signal α) (r : Except Fault Unit × ω) (w : Logged ω α) : Logged ω α where
  state := r.2
  attempts := w.attempts ++ [⟨c, r.1⟩]

namespace Outlet

def logged (k : Outlet ω α) : Outlet (Logged ω α) α where
  emit r w := ((k.emit r w.state).1, w.enter (.record r) (k.emit r w.state))
  flush w := ((k.flush w.state).1, w.enter .flush (k.flush w.state))

/-- Seen through `view`, what `k'` does is what `k` does. -/
structure ShownBy (k : Outlet ω α) (view : ω' → ω) (k' : Outlet ω' α) : Prop where
  emit : ∀ r w, k.emit r (view w) = ((k'.emit r w).1, view (k'.emit r w).2)
  flush : ∀ w, k.flush (view w) = ((k'.flush w).1, view (k'.flush w).2)

theorem shownBy_logged (k : Outlet ω α) : k.ShownBy Logged.state k.logged where
  emit _ _ := rfl
  flush _ := rfl

/-- An answer with the states it leaves, the outlet's seen through `view`. -/
def seen (view : ω' → ω) (r : ε × (σ × ω')) : ε × (σ × ω) := (r.1, (r.2.1, view r.2.2))

end Outlet

namespace Merger

theorem release_seen {k : Outlet ω α} {view : ω' → ω} {k' : Outlet ω' α} (h : k.ShownBy view k')
    (m : Merger α) (w : ω') : m.release k (view w) = Outlet.seen view (m.release k' w) := by
  induction m using drain.induct generalizing w with
  | case1 m hn =>
    rw [next_eq, Option.map_eq_none_iff] at hn
    rw [release_of_none hn, release_of_none hn]
    rfl
  | case2 m record m' hn ih =>
    rw [next_eq] at hn
    obtain ⟨e, hd, he⟩ := Option.map_eq_some_iff.1 hn
    cases he
    rw [release_of_some hd, release_of_some hd, h.emit]
    obtain ⟨answer, w⟩ := k'.emit e.record w
    cases answer with
    | error fault => rfl
    | ok => simp only [ih, Outlet.seen]

/-- What a release leaves in the log: attempts to hand over records in the order of their departure,
of which one was refused, unless all that may go has gone. -/
theorem release_logged (k : Outlet ω α) (m : Merger α) (w : Logged ω α) : ∃ answer n w' new,
    m.release k.logged w = (answer, ((m.take n).2, w')) ∧ w'.attempts = w.attempts ++ new ∧
      new.map (·.signal) = (m.take n).1.map .record ∧
      ((∃ fault, answer = .error fault ∧ ∃ a ∈ new, a.answer = .error fault) ∨
        answer = .ok m.drain.1.length ∧ m.take n = m.drain ∧ ∀ a ∈ new, a.isTaken = true) := by
  induction m using drain.induct generalizing w with
  | case1 m hn =>
    rw [next_eq, Option.map_eq_none_iff] at hn
    refine ⟨.ok 0, 0, w, [], release_of_none hn .., (List.append_nil _).symm, rfl, .inr ?_⟩
    rw [drain_of_none hn]
    exact ⟨rfl, rfl, by simp⟩
  | case2 m record m' hn ih =>
    rw [next_eq] at hn
    obtain ⟨e, hd, he⟩ := Option.map_eq_some_iff.1 hn
    cases he
    have hemit : k.logged.emit e.record w = ((k.emit e.record w.state).1,
        w.enter (.record e.record) (k.emit e.record w.state)) := rfl
    rw [release_of_some hd, hemit]
    obtain ⟨answer, state⟩ := k.emit e.record w.state
    cases answer with
    | error fault =>
      refine ⟨.error fault, 1, w.enter (.record e.record) (.error fault, state),
        [⟨.record e.record, .error fault⟩], ?_, rfl, ?_,
        .inl ⟨fault, rfl, _, List.mem_singleton_self _, rfl⟩⟩
      · rw [take_succ_of_some hd]
        rfl
      · rw [take_succ_of_some hd]
        rfl
    | ok =>
      obtain ⟨answer, n, w', new, hrelease, hlog, hrecords, hend⟩ :=
        ih (w.enter (.record e.record) (.ok (), state))
      refine ⟨answer.map (· + 1), n + 1, w', ⟨.record e.record, .ok ()⟩ :: new, ?_, ?_, ?_, ?_⟩
      · simp only [hrelease, take_succ_of_some hd]
      · rw [hlog, Logged.enter, List.append_assoc]
        rfl
      · rw [take_succ_of_some hd, List.map_cons, hrecords]
        rfl
      · rcases hend with ⟨fault, rfl, a, ha, hanswer⟩ | ⟨rfl, hdrain, htaken⟩
        · exact .inl ⟨fault, rfl, a, List.mem_cons_of_mem _ ha, hanswer⟩
        · refine .inr ⟨?_, ?_, ?_⟩
          · rw [drain_of_some hd]
            rfl
          · rw [take_succ_of_some hd, drain_of_some hd, hdrain]
          · exact List.forall_mem_cons.2 ⟨rfl, htaken⟩

end Merger

end TimeMerge
