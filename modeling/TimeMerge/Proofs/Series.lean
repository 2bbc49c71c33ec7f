import Mathlib.Logic.Function.Iterate
import TimeMerge.Meters
import TimeMerge.Proofs.Table

/-!
# Series of meters

What is counted at a stage changes the series of that stage and no other. A count is read by looking
its stage up; one that is not there yet stands at zero.
-/
namespace TimeMerge

theorem lookup_touch (stage stage' : String) (fresh : β) (f : β → β) (xs : List (String × β)) :
    (touch stage fresh f xs).lookup stage' =
      if stage' = stage then some (f ((xs.lookup stage).getD fresh)) else xs.lookup stage' := by
  induction xs with
  | nil =>
    rw [touch, Table.lookup_cons_ite]
    rfl
  | cons x xs ih =>
    obtain ⟨s, b⟩ := x
    rw [touch]
    split
    · rename_i hs
      by_cases h : stage' = stage <;> simp [Table.lookup_cons_ite, h, hs]
    · rename_i hs
      rw [Table.lookup_cons_ite, ih]
      grind [Table.lookup_cons_ite]

theorem map_touch {β γ : Type} (stage : String) (fresh : β) (f : β → β) (g : β → γ) (h : γ → γ)
    (hf : ∀ b, g (f b) = h (g b)) (xs : List (String × β)) :
    (touch stage fresh f xs).map (fun x => (x.1, g x.2)) =
      touch stage (g fresh) h (xs.map fun x => (x.1, g x.2)) := by
  induction xs with
  | nil => simp [touch, hf]
  | cons x xs ih =>
    obtain ⟨stage', b⟩ := x
    by_cases hs : stage' = stage <;> simp [touch, hs, hf, ih]

/-- The series of a stage in which `n` were counted; one that counted nothing is absent. -/
def series (stage : String) (n : Nat) : List (String × Nat) := if n = 0 then [] else [(stage, n)]

theorem touch_series (stage : String) (n : Nat) :
    touch stage 0 (· + 1) (series stage n) = series stage (n + 1) := by
  cases n with
  | zero => simp [series, touch]
  | succ n => simp [series, touch]

namespace Meters

/-- The count of what was forwarded at a stage, zero if there is none. -/
def forwardedAt (stage : String) (m : Meters) : Nat := (m.forwarded.lookup stage).getD 0

/-- The count of what was malformed at a stage, zero if there is none. -/
def malformedAt (stage : String) (m : Meters) : Nat := (m.malformed.lookup stage).getD 0

/-- The number of times that were observed at a stage. -/
def timedAt (stage : String) (m : Meters) : Nat :=
  ((m.sinkTime.lookup stage).getD {}).count

/-- One more record counts as malformed at the stage, and nothing else is counted. -/
structure Skip (stage : String) (m m' : Meters) : Prop where
  counted : m'.malformed.lookup stage = some (m.malformedAt stage + 1)
  others : ∀ stage', stage' ≠ stage → m'.malformed.lookup stage' = m.malformed.lookup stage'
  forwarded : m'.forwarded = m.forwarded
  timed : m'.sinkTime = m.sinkTime

theorem skip_countMalformed (stage : String) (m : Meters) :
    Skip stage m (m.countMalformed stage 1) where
  counted := by
    rw [countMalformed, lookup_touch, if_pos rfl]
    rfl
  others stage' hne := by rw [countMalformed, lookup_touch, if_neg hne]
  forwarded := rfl
  timed := rfl

theorem malformed_iterate (stage : String) (n : Nat) :
    ((countMalformed stage 1)^[n] {}).malformed = series stage n := by
  induction n with
  | zero => rfl
  | succ n ih =>
    rw [Function.iterate_succ_apply', countMalformed, ih]
    exact touch_series stage n

end Meters

end TimeMerge
