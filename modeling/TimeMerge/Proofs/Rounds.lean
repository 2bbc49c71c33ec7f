import Mathlib.Algebra.GroupWithZero.Nat
import TimeMerge.Intake

/-!
# Rounds over the inputs

Turns go round the slots. What a turn works on is the first live slot from the cursor on, and a rank
falls at every turn that finds one: reading takes an outcome from an input, passing over an input that
is at its end brings the cursor closer to one that is still read, and with none left to read one input
more is closed.
-/
namespace TimeMerge

namespace Slot

variable {slot : Slot α}

def isReading (slot : Slot α) : Bool :=
  match slot.phase with
  | .reading _ => true
  | _ => false

def isClosed (slot : Slot α) : Bool :=
  match slot.phase with
  | .closed => true
  | _ => false

/-- The reads that a slot still needs, the one that finds the end among them. -/
def reads (slot : Slot α) : Nat :=
  match slot.phase with
  | .reading inlet => inlet.upcoming.length + 1
  | _ => 0

def live (slot : Slot α) : Nat := if slot.isClosed then 0 else 1

theorem reads_eq_zero (h : slot.isReading = false) : slot.reads = 0 := by
  obtain ⟨p, phase⟩ := slot
  cases phase with
  | reading inlet => cases h
  | exhausted inlet => rfl
  | closed => rfl

theorem live_le_one (slot : Slot α) : slot.live ≤ 1 := by
  simp only [live]
  split <;> omega

theorem isClosed_of_isReading (h : slot.isReading = true) : slot.isClosed = false := by
  obtain ⟨p, phase⟩ := slot
  cases phase with
  | reading inlet => rfl
  | exhausted inlet => rfl
  | closed => cases h

end Slot

/-- Replacing one item changes a total by the difference of the two. -/
theorem sum_map_set {xs : List β} {i : Nat} {a b : β} (h : xs[i]? = some a) (f : β → Nat) :
    ((xs.set i b).map f).sum + f a = (xs.map f).sum + f b := by
  induction xs generalizing i with
  | nil => simp at h
  | cons x xs ih =>
    cases i with
    | zero =>
      simp only [List.getElem?_cons_zero, Option.some.injEq] at h
      simp only [List.set_cons_zero, List.map_cons, List.sum_cons, h]
      omega
    | succ i =>
      have := ih (by simpa using h)
      simp only [List.set_cons_succ, List.map_cons, List.sum_cons]
      omega

theorem getElem?_set_cases {xs : List β} {i j : Nat} {b x : β} (h : (xs.set i b)[j]? = some x) :
    j = i ∧ x = b ∨ j ≠ i ∧ xs[j]? = some x := by
  by_cases hj : j = i
  · obtain ⟨hlt, _⟩ := List.getElem?_eq_some_iff.1 h
    rw [List.length_set, hj] at hlt
    rw [hj, List.getElem?_set_self hlt] at h
    exact .inl ⟨hj, (Option.some.inj h).symm⟩
  · rw [List.getElem?_set_ne (Ne.symm hj)] at h
    exact .inr ⟨hj, h⟩

/-- Every place on a ring is some number of steps from every other, and less than a whole round. -/
theorem exists_step {n j : Nat} (h : j < n) (c : Nat) : ∃ step < n, (c + step) % n = j := by
  refine ⟨(j + n - c % n) % n, Nat.mod_lt _ (by omega), ?_⟩
  have hc := Nat.mod_lt c (show 0 < n by omega)
  have hsplit : c + (j + n - c % n) = j + n * (c / n + 1) := by
    have := Nat.div_add_mod c n
    rw [Nat.mul_add]
    omega
  rw [Nat.add_mod_mod, hsplit, Nat.add_mul_mod_self_left, Nat.mod_eq_of_lt h]

namespace Intake

variable {s s' : Intake α} {slot b : Slot α} {i step : Nat}

/-- The slot that is a number of steps from the cursor on, round the end. -/
def ahead (s : Intake α) (step : Nat) : Option (Slot α) :=
  s.slots[(s.cursor + step) % s.slots.length]?

theorem exists_ahead (h : s.slots[i]? = some slot) :
    ∃ step < s.slots.length, (s.cursor + step) % s.slots.length = i ∧
      s.ahead step = some slot := by
  obtain ⟨hi, _⟩ := List.getElem?_eq_some_iff.1 h
  obtain ⟨step, hs, he⟩ := exists_step hi s.cursor
  exact ⟨step, hs, he, by rw [ahead, he, h]⟩

theorem nextLive_eq (s : Intake α) : s.nextLive =
    (List.range s.slots.length).findSome? fun step =>
      ((s.ahead step).filter (!·.isClosed)).map fun slot =>
        ((s.cursor + step) % s.slots.length, slot) := by
  simp only [nextLive, ahead]
  congr 1
  funext step
  cases s.slots[(s.cursor + step) % s.slots.length]? with
  | none => rfl
  | some slot =>
    obtain ⟨p, phase⟩ := slot
    cases phase <;> rfl

theorem nextLive_eq_none_iff : s.nextLive = none ↔ ∀ slot ∈ s.slots, slot.isClosed = true := by
  simp only [nextLive_eq, List.findSome?_eq_none_iff, List.mem_range, Option.map_eq_none_iff,
    Option.filter_eq_none_iff, Bool.not_eq_true', Bool.not_eq_false]
  constructor
  · intro h slot hm
    obtain ⟨i, hi⟩ := List.mem_iff_getElem?.1 hm
    obtain ⟨step, hs, _, ha⟩ := exists_ahead hi
    exact h step hs slot ha
  · intro h step _ slot ha
    exact h slot (List.mem_of_getElem? ha)

/-- The slot that a turn works on is live, and those before it are closed. -/
theorem nextLive_eq_some (h : s.nextLive = some (i, slot)) : ∃ step < s.slots.length,
    i = (s.cursor + step) % s.slots.length ∧ s.slots[i]? = some slot ∧ slot.isClosed = false ∧
      ∀ j < step, ∀ passed, s.ahead j = some passed → passed.isClosed = true := by
  rw [nextLive_eq] at h
  obtain ⟨before, step, rest, hsplit, hlive, hbefore⟩ := List.findSome?_eq_some_iff.1 h
  rw [List.range_eq_range', List.range'_eq_append_iff] at hsplit
  obtain ⟨m, hm, rfl, hrest⟩ := hsplit
  obtain ⟨rfl, hpos, _⟩ := List.range'_eq_cons_iff.1 hrest.symm
  simp only [Nat.zero_add, Nat.mul_one] at hlive hbefore
  obtain ⟨found, hf, he⟩ := Option.map_eq_some_iff.1 hlive
  cases he
  obtain ⟨ha, hopen⟩ := Option.filter_eq_some_iff.1 hf
  refine ⟨m, by omega, rfl, ha, by simpa using hopen, ?_⟩
  intro j hj passed hp
  have hn := hbefore j (by simpa [List.mem_range'_1] using hj)
  rw [hp] at hn
  simpa using hn

/-- The steps from the cursor to the next slot that is read, none if nothing is read any more. -/
def distance (s : Intake α) : Nat :=
  ((List.range s.slots.length).find? fun step => (s.ahead step).any (·.isReading)).getD 0

theorem distance_spec (s : Intake α) :
    (s.distance = 0 ∧ ∀ slot ∈ s.slots, slot.isReading = false) ∨
    s.distance < s.slots.length ∧
      (∃ next, s.ahead s.distance = some next ∧ next.isReading = true) ∧
      ∀ step slot, s.ahead step = some slot → slot.isReading = true → s.distance ≤ step := by
  simp only [distance]
  cases hf : (List.range s.slots.length).find? fun step => (s.ahead step).any (·.isReading) with
  | none =>
    refine .inl ⟨rfl, fun slot hm => ?_⟩
    obtain ⟨i, hi⟩ := List.mem_iff_getElem?.1 hm
    obtain ⟨step, hs, _, ha⟩ := exists_ahead hi
    simpa [ha] using List.find?_range_eq_none.1 hf step hs
  | some first =>
    obtain ⟨hfound, hmem, hleast⟩ := List.find?_range_eq_some.1 hf
    refine .inr ⟨List.mem_range.1 hmem, (Option.any_eq_true _ _).1 hfound, ?_⟩
    intro step slot ha hr
    refine Nat.le_of_not_lt fun hlt => ?_
    simpa [ha, hr] using hleast step hlt

theorem distance_le_pred (s : Intake α) : s.distance ≤ s.slots.length - 1 := by
  rcases s.distance_spec with ⟨h, _⟩ | ⟨h, _⟩ <;> omega

theorem distance_eq_zero (h : ∀ slot ∈ s.slots, slot.isReading = false) : s.distance = 0 := by
  rcases s.distance_spec with ⟨hd, _⟩ | ⟨_, ⟨next, ha, hr⟩, _⟩
  · exact hd
  · simp [h next (List.mem_of_getElem? ha)] at hr

def reads (s : Intake α) : Nat := (s.slots.map Slot.reads).sum

def live (s : Intake α) : Nat := (s.slots.map Slot.live).sum

/-- A bound on the turns until everything is closed. -/
def rank (s : Intake α) : Nat := s.reads * s.slots.length + s.distance + s.live

/-- What the slots are after a turn on the slot at `i`, which is `b` then. -/
structure Visited (s s' : Intake α) (i : Nat) (slot b : Slot α) : Prop where
  chosen : s.nextLive = some (i, slot)
  slots : s'.slots = s.slots.set i b
  cursor : s'.cursor = (i + 1) % s.slots.length

namespace Visited

theorem length_eq (v : s.Visited s' i slot b) : s'.slots.length = s.slots.length := by
  rw [v.slots, List.length_set]

theorem found (v : s.Visited s' i slot b) : s.slots[i]? = some slot := by
  obtain ⟨_, _, _, hi, _⟩ := nextLive_eq_some v.chosen
  exact hi

theorem reads_add (v : s.Visited s' i slot b) : s'.reads + slot.reads = s.reads + b.reads := by
  simp only [reads, v.slots]
  exact sum_map_set v.found Slot.reads

theorem live_add (v : s.Visited s' i slot b) : s'.live + 1 = s.live + b.live := by
  obtain ⟨_, _, _, hi, hopen, _⟩ := nextLive_eq_some v.chosen
  have h := sum_map_set (b := b) hi Slot.live
  have hs : slot.live = 1 := by simp [Slot.live, hopen]
  simp only [live, v.slots]
  omega

/-- A read costs one round at the most and brings the end nearer by a whole one. -/
theorem rank_lt_of_reads_lt (v : s.Visited s' i slot b) (hr : b.reads < slot.reads) :
    s'.rank < s.rank := by
  have hreads := v.reads_add
  have hlive := v.live_add
  have hb := b.live_le_one
  have hd := s'.distance_le_pred
  obtain ⟨step, hstep, _⟩ := nextLive_eq_some v.chosen
  have hmul : (s'.reads + 1) * s.slots.length ≤ s.reads * s.slots.length :=
    Nat.mul_le_mul_right _ (by omega)
  rw [Nat.succ_mul] at hmul
  rw [v.length_eq] at hd
  simp only [rank, v.length_eq]
  omega

/-- Passing over an input at its end brings the cursor closer to the next that is read. -/
theorem rank_lt_of_reading (v : s.Visited s' i slot b) (hslot : slot.isReading = false)
    (hb : b.isReading = false) {other : Slot α} (hm : other ∈ s.slots)
    (hr : other.isReading = true) : s'.rank < s.rank := by
  have hreads := v.reads_add
  have hlive := v.live_add
  have hle := b.live_le_one
  rw [Slot.reads_eq_zero hslot, Slot.reads_eq_zero hb] at hreads
  obtain ⟨step, hstep, hi, hfound, _, hbefore⟩ := nextLive_eq_some v.chosen
  obtain ⟨_, hnone⟩ | ⟨hd, ⟨next, hnext, hreading⟩, _⟩ := s.distance_spec
  · simp [hnone other hm] at hr
  have hne : s.distance ≠ step := by
    intro he
    rw [he, ahead, ← hi, hfound] at hnext
    cases hnext
    simp [hslot] at hreading
  have hge : step ≤ s.distance := by
    refine Nat.le_of_not_lt fun hlt => ?_
    have := hbefore _ hlt next hnext
    simp [Slot.isClosed_of_isReading hreading] at this
  have hahead : s'.ahead (s.distance - step - 1) = some next := by
    have hplace : (s'.cursor + (s.distance - step - 1)) % s'.slots.length =
        (s.cursor + s.distance) % s.slots.length := by
      rw [v.length_eq, v.cursor, hi, Nat.mod_add_mod, Nat.add_assoc, Nat.mod_add_mod]
      congr 1
      omega
    have hother : i ≠ (s.cursor + s.distance) % s.slots.length := by
      intro he
      rw [ahead, ← he, hfound] at hnext
      cases hnext
      simp [hslot] at hreading
    rw [ahead, hplace, v.slots, List.getElem?_set_ne hother]
    exact hnext
  have hdrop : s'.distance ≤ s.distance - step - 1 := by
    obtain ⟨_, hnone⟩ | ⟨_, _, hleast⟩ := s'.distance_spec
    · simp [hnone next (List.mem_of_getElem? hahead)] at hreading
    · exact hleast _ next hahead hreading
  have hsame : s'.reads = s.reads := by omega
  simp only [rank, v.length_eq, hsame]
  omega

/-- Once nothing is read any more, every turn that closes an input counts. -/
theorem rank_lt_of_isClosed (v : s.Visited s' i slot b) (hb : b.isClosed = true)
    (hnone : ∀ slot ∈ s.slots, slot.isReading = false) : s'.rank < s.rank := by
  have hbr : b.isReading = false := by
    cases hr : b.isReading with
    | false => rfl
    | true => simp [Slot.isClosed_of_isReading hr] at hb
  have hnone' : ∀ slot ∈ s'.slots, slot.isReading = false := by
    intro other hm
    rw [v.slots] at hm
    rcases List.mem_or_eq_of_mem_set hm with hm | rfl
    · exact hnone other hm
    · exact hbr
  have hreads := v.reads_add
  have hlive := v.live_add
  rw [Slot.reads_eq_zero hbr, Slot.reads_eq_zero (hnone slot (List.mem_of_getElem? v.found))] at hreads
  have hb0 : b.live = 0 := by simp [Slot.live, hb]
  have hsame : s'.reads = s.reads := by omega
  simp only [rank, v.length_eq, hsame, distance_eq_zero hnone, distance_eq_zero hnone']
  omega

end Visited

end Intake

end TimeMerge
