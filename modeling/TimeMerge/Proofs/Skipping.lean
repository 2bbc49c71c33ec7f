import TimeMerge.Proofs.Series
import TimeMerge.Proofs.Turns

/-!
# Skips and meters

Whatever an intake does, its name stays, and it counts every skip twice: in its own stats and in the
meters, at the stage of its name.
-/
namespace TimeMerge.Intake

variable {s s' s'' : Intake α} {k : Outlet ω α} {m n : Nat}

/-- In between `n` records were skipped, and counted as such. -/
structure Notes (n : Nat) (s s' : Intake α) : Prop where
  name : s'.name = s.name
  stats : s'.stats.malformed = s.stats.malformed + n
  meters : s'.meters = (Meters.countMalformed s.name 1)^[n] s.meters

theorem Notes.trans (h : Notes m s s') (h' : Notes n s' s'') : Notes (n + m) s s'' where
  name := h'.name.trans h.name
  stats := by rw [h'.stats, h.stats, Nat.add_assoc, Nat.add_comm m n]
  meters := by rw [h'.meters, h.meters, h.name, Function.iterate_add_apply]

theorem notes_countSkip (s : Intake α) : Notes 1 s s.countSkip := ⟨rfl, rfl, rfl⟩

theorem notes_forward (k : Outlet ω α) (s : Intake α) (w : ω) : Notes 0 s (s.forward k w).2.1 := by
  rw [forward]
  rcases s.merger.release k w with ⟨_ | _, _⟩ <;> exact ⟨rfl, rfl, rfl⟩

theorem notes_finish (k : Outlet ω α) (s : Intake α) (w : ω) : Notes 0 s (s.finish k w).2.1 := by
  rw [finish]
  split <;> exact ⟨rfl, rfl, rfl⟩

theorem notes_wrapUp (k : Outlet ω α) (p : PartitionId) (s : Intake α) (w : ω) :
    Notes 0 s (s.wrapUp k p w).2.1 := by
  have hforward := notes_forward k s w
  rcases s.wrapUp_cases k p w with ⟨_, _, hf, he⟩ | ⟨_, s', w', hf, ⟨_, he⟩ | he⟩ <;>
    rw [hf] at hforward <;> rw [he]
  · exact hforward
  · exact hforward.trans (notes_finish k s' w')
  · exact hforward

theorem notes_tryClose (k : Outlet ω α) (i : Nat) (p : PartitionId) (s : Intake α) (w : ω) :
    Notes 0 s (s.tryClose k i p w).2.1 := by
  rcases s.tryClose_cases k w i p with ⟨_, hclose⟩ | ⟨_, hclose⟩ | ⟨_, _, _, hclose⟩ <;> rw [hclose]
  · exact ⟨rfl, rfl, rfl⟩
  · exact notes_forward k s w
  · have hwrap := notes_wrapUp k p (s.retire i p) w
    exact ⟨hwrap.name, hwrap.stats, hwrap.meters⟩

variable [Record α]

theorem notes_accept (policy : Policy α) (k : Outlet ω α) (p : PartitionId) (record : α)
    (s : Intake α) (w : ω) : ∃ n, Notes n s (s.accept policy k p record w).2.1 := by
  rcases s.accept_cases policy k p record w with
    ⟨_, _, haccept⟩ | ⟨_, _, _, haccept⟩ | ⟨m, _, haccept⟩ <;> rw [haccept]
  · exact ⟨1, s.notes_countSkip⟩
  · exact ⟨0, rfl, rfl, rfl⟩
  · have hforward := notes_forward k (s.takeIn m) w
    exact ⟨0, hforward.name, hforward.stats, hforward.meters⟩

theorem notes_respond (policy : Policy α) (k : Outlet ω α) (found : Poll α) (s : Intake α) (w : ω) :
    ∃ n, Notes n s (s.respond policy k found w).2.1 := by
  cases found with
  | idle =>
    rw [respond_idle]
    exact ⟨0, notes_finish k s w⟩
  | ended i p => exact ⟨0, notes_tryClose k i p s w⟩
  | read i p reading left =>
    cases reading with
    | error fault =>
      cases fault with
      | malformed d => exact ⟨1, s.notes_countSkip⟩
      | _ => exact ⟨0, rfl, rfl, rfl⟩
    | ok given =>
      cases given with
      | some record => exact notes_accept policy k p record s w
      | none =>
        rw [respond, exhaust]
        split
        · exact ⟨0, rfl, rfl, rfl⟩
        · rename_i m _
          have hclose := notes_tryClose k i p
            { s with slots := s.slots.set i ⟨p, .exhausted left⟩, merger := m } w
          exact ⟨0, hclose.name, hclose.stats, hclose.meters⟩

theorem notes_turn (policy : Policy α) (k : Outlet ω α) (s : Intake α) (w : ω) :
    ∃ n, Notes n s (s.turn policy k w).2.1 := by
  obtain ⟨n, h⟩ := notes_respond policy k s.poll.1 s.poll.2 w
  have hpoll : Notes 0 s s.poll.2 := by
    rw [poll]
    repeat' split
    all_goals exact ⟨rfl, rfl, rfl⟩
  exact ⟨n, hpoll.trans h⟩

theorem notes_turns (policy : Policy α) (k : Outlet ω α) (n : Nat) (s : Intake α) (w : ω) :
    ∃ m, Notes m s (turns policy k n s w).2.1 := by
  induction n generalizing s w with
  | zero => exact ⟨0, rfl, rfl, rfl⟩
  | succ n ih =>
    obtain ⟨m, hturn⟩ := notes_turn policy k s w
    rw [turns]
    rcases hf : s.turn policy k w with ⟨_ | t, s', w'⟩ <;> rw [hf] at hturn
    · exact ⟨m, hturn⟩
    · cases t with
      | finished => exact ⟨m, hturn⟩
      | _ =>
        obtain ⟨m', hrest⟩ := ih s' w'
        exact ⟨m' + m, hturn.trans hrest⟩

/-- What an intake has counted in meters of its own is what its stats say. -/
theorem malformed_turns (policy : Policy α) (k : Outlet ω α) (n : Nat) (s : Intake α) (w : ω)
    (hstats : s.stats.malformed = 0) (hmeters : s.meters = {}) :
    (turns policy k n s w).2.1.meters.malformed =
      series s.name (turns policy k n s w).2.1.stats.malformed := by
  obtain ⟨m, h⟩ := notes_turns policy k n s w
  rw [h.meters, h.stats, hstats, hmeters, Meters.malformed_iterate, Nat.zero_add]

end TimeMerge.Intake
