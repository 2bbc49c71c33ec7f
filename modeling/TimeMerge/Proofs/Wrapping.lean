import TimeMerge.Proofs.Delivery
import TimeMerge.Proofs.Series

/-!
# Outlets in outlets

Outlets are wrapped in layers, as many as one likes and in any order. What such a stack does is said
here at once for all of them: where a record goes on its way from the outside to the inside, who sees
it there, and what the meters show when it was taken.
-/
namespace TimeMerge

namespace Meters

/-- Counts one record that was taken at a stage. -/
def countTaken (stage : String) (m : Meters) : Meters :=
  (m.observe stage 0).countForwarded stage 1

/-- What goes up by one with every record that is counted at the stage. -/
def Counter (stage : String) (count : Meters → Nat) : Prop :=
  ∀ stage' m, count (m.countTaken stage') = count m + if stage' = stage then 1 else 0

theorem counter_forwardedAt (stage : String) : Counter stage (forwardedAt stage) := by
  intro stage' m
  simp only [forwardedAt, countTaken, countForwarded, observe, lookup_touch]
  by_cases h : stage' = stage
  · simp [h]
  · simp [h, Ne.symm h]

theorem counter_timedAt (stage : String) : Counter stage (timedAt stage) := by
  intro stage' m
  simp only [timedAt, countTaken, countForwarded, observe, lookup_touch]
  by_cases h : stage' = stage
  · simp [h, Histogram.observe]
  · simp [h, Ne.symm h]

end Meters

/-- What is put around an outlet for records of type `γ` to make one for records of type `α`. The
functions of the layers share the state `ω` with the outlet, so they may remember what they see. -/
inductive Layer (ω : Type) : Type → Type → Type 1 where
  | inspect {α : Type} (watch : α → ω → ω) : Layer ω α α
  | map {α γ : Type} (f : α → ω → γ × ω) : Layer ω α γ
  | box {α : Type} : Layer ω α α
  | metered {α : Type} (stage : String) : Layer ω α α
  | gate {α : Type} (check : α → ω → Except Fault Unit × ω) : Layer ω α α

/-- Layers around one another, the outermost first. -/
inductive Stack (ω : Type) : Type → Type → Type 1 where
  | bare {β : Type} : Stack ω β β
  | wrap {α γ β : Type} (layer : Layer ω α γ) (inner : Stack ω γ β) : Stack ω α β

variable {ω α β γ : Type}

/-- Whatever was taken is counted at all of these stages, at the last one first. -/
def Outlet.settle (stages : List String) (r : Except Fault Unit × WithMeters ω) :
    Except Fault Unit × WithMeters ω :=
  match r with
  | (.ok (), w) => (.ok (), { w with meters := stages.foldr Meters.countTaken w.meters })
  | (.error fault, w) => (.error fault, w)

theorem Outlet.settle_nil (r : Except Fault Unit × WithMeters ω) : settle [] r = r := by
  obtain ⟨_ | _, _⟩ := r <;> rfl

theorem Outlet.settle_append (stages stages' : List String) (r : Except Fault Unit × WithMeters ω) :
    settle (stages ++ stages') r = settle stages (settle stages' r) := by
  obtain ⟨_ | _, w⟩ := r
  · rfl
  · simp only [settle, List.foldr_append]

namespace Layer

/-- The outlet that comes of it. The functions of a layer leave the meters alone. -/
def around : Layer ω α γ → Outlet (WithMeters ω) γ → Outlet (WithMeters ω) α
  | .inspect watch, k => k.inspect fun r w => { w with state := watch r w.state }
  | .map f, k => k.convert fun r w => ((f r w.state).1, { w with state := (f r w.state).2 })
  | .box, k => k
  | .metered stage, k => k.metered stage
  | .gate check, k =>
    k.guard fun r w => ((check r w.state).1, { w with state := (check r w.state).2 })

/-- What goes on when a record comes to the layer, or the fault with which it is refused, and the state
then. -/
def way : Layer ω α γ → α → ω → Except Fault γ × ω
  | .inspect watch, r, w => (.ok r, watch r w)
  | .map f, r, w => (.ok (f r w).1, (f r w).2)
  | .box, r, w => (.ok r, w)
  | .metered _, r, w => (.ok r, w)
  | .gate check, r, w => ((check r w).1.map fun _ => r, (check r w).2)

/-- The stage at which the layer counts, if it does. -/
def stages : Layer ω α γ → List String
  | .metered stage => [stage]
  | _ => []

def isGate : Layer ω α γ → Bool
  | .gate _ => true
  | _ => false

theorem emit_around (l : Layer ω α γ) (k : Outlet (WithMeters ω) γ) (r : α) (w : WithMeters ω) :
    (l.around k).emit r w = match l.way r w.state with
      | (.ok r', state) => Outlet.settle l.stages (k.emit r' { w with state := state })
      | (.error fault, state) => (.error fault, { w with state := state }) := by
  cases l with
  | inspect watch => exact (Outlet.settle_nil _).symm
  | map f => exact (Outlet.settle_nil _).symm
  | box => exact (Outlet.settle_nil _).symm
  | metered stage =>
    simp only [around, way, stages, Outlet.metered]
    rcases k.emit r w with ⟨fault | u, w'⟩ <;> rfl
  | gate check =>
    simp only [around, way, stages, Outlet.guard, Outlet.ofEmit]
    rcases check r w.state with ⟨fault | u, state⟩
    · rfl
    · exact (Outlet.settle_nil _).symm

theorem flush_around (l : Layer ω α γ) (k : Outlet (WithMeters ω) γ) (w : WithMeters ω) :
    (l.around k).flush w = if l.isGate then (.ok (), w) else k.flush w := by
  cases l <;> rfl

end Layer

namespace Stack

def around {α β : Type} : Stack ω α β → Outlet (WithMeters ω) β → Outlet (WithMeters ω) α
  | .bare, k => k
  | .wrap layer inner, k => layer.around (inner.around k)

/-- What reaches the inside when a record comes to the outermost layer, or the fault with which a layer
refuses it on the way, and the state then. -/
def way {α β : Type} : Stack ω α β → α → ω → Except Fault β × ω
  | .bare, r, w => (.ok r, w)
  | .wrap layer inner, r, w =>
    match layer.way r w with
    | (.ok r', w') => inner.way r' w'
    | (.error fault, w') => (.error fault, w')

def stages {α β : Type} : Stack ω α β → List String
  | .bare => []
  | .wrap layer inner => layer.stages ++ inner.stages

/-- Some layer is an outlet of its own, at which a flush ends. -/
def isGated {α β : Type} : Stack ω α β → Bool
  | .bare => false
  | .wrap layer inner => layer.isGate || inner.isGated

def append {α γ β : Type} : Stack ω α γ → Stack ω γ β → Stack ω α β
  | .bare, inner => inner
  | .wrap layer outer, inner => .wrap layer (outer.append inner)

theorem emit_around (s : Stack ω α β) (k : Outlet (WithMeters ω) β) (r : α) (w : WithMeters ω) :
    (s.around k).emit r w = match s.way r w.state with
      | (.ok b, state) => Outlet.settle s.stages (k.emit b { w with state := state })
      | (.error fault, state) => (.error fault, { w with state := state }) := by
  induction s generalizing w with
  | bare => exact (Outlet.settle_nil _).symm
  | wrap layer inner ih =>
    rw [around, layer.emit_around, way]
    rcases layer.way r w.state with ⟨fault | r', state⟩
    · rfl
    · dsimp only
      rw [ih]
      dsimp only
      rcases inner.way r' state with ⟨fault | b, state'⟩
      · rfl
      · exact (Outlet.settle_append _ _ _).symm

theorem flush_around (s : Stack ω α β) (k : Outlet (WithMeters ω) β) (w : WithMeters ω) :
    (s.around k).flush w = if s.isGated then (.ok (), w) else k.flush w := by
  induction s with
  | bare => rfl
  | wrap layer inner ih =>
    rw [around, layer.flush_around, ih, isGated]
    cases layer.isGate <;> rfl

theorem around_append (outer : Stack ω α γ) (inner : Stack ω γ β) (k : Outlet (WithMeters ω) β) :
    (outer.append inner).around k = outer.around (inner.around k) := by
  induction outer with
  | bare => rfl
  | wrap layer outer ih => rw [append, around, ih, around]

/-- Every layer is handed what the layers outside it make of the record. -/
theorem way_append (outer : Stack ω α γ) (inner : Stack ω γ β) (r : α) (w : ω) :
    (outer.append inner).way r w = match outer.way r w with
      | (.ok x, w') => inner.way x w'
      | (.error fault, w') => (.error fault, w') := by
  induction outer generalizing w with
  | bare => rfl
  | wrap layer outer ih =>
    rw [append, way, way]
    rcases layer.way r w with ⟨fault | r', w'⟩
    · rfl
    · exact ih _ _ _

/-- A record is refused by a gate that it comes to, and by nothing else. -/
theorem way_eq_error_iff {s : Stack ω α β} {r : α} {w w' : ω} {fault : Fault} :
    s.way r w = (.error fault, w') ↔
      ∃ (γ : Type) (outer : Stack ω α γ) (check : γ → ω → Except Fault Unit × ω)
        (inner : Stack ω γ β) (x : γ) (w₁ : ω), s = outer.append (.wrap (.gate check) inner) ∧
          outer.way r w = (.ok x, w₁) ∧ check x w₁ = (.error fault, w') := by
  constructor
  · intro h
    induction s generalizing w with
    | bare => cases h
    | wrap layer inner ih =>
      rw [way] at h
      rcases hl : layer.way r w with ⟨fault' | r', w₁⟩
      · -- only a gate refuses anything by itself
        rw [hl] at h
        cases h
        cases layer with
        | gate check =>
          refine ⟨_, .bare, check, inner, r, w, rfl, rfl, ?_⟩
          rw [Layer.way] at hl
          rcases hc : check r w with ⟨fault | u, w₂⟩ <;> rw [hc] at hl <;> cases hl
          rfl
        | _ => cases hl
      · rw [hl] at h
        obtain ⟨γ, outer, check, inner, x, w₂, rfl, hway, hc⟩ := ih h
        exact ⟨γ, .wrap layer outer, check, inner, x, w₂, rfl, by rw [way, hl]; exact hway, hc⟩
  · rintro ⟨γ, outer, check, inner, x, w₁, rfl, hway, hc⟩
    rw [way_append, hway]
    simp only [way, Layer.way, hc]
    rfl

theorem isGated_append (outer : Stack ω α γ) (inner : Stack ω γ β) :
    (outer.append inner).isGated = (outer.isGated || inner.isGated) := by
  induction outer with
  | bare => rfl
  | wrap layer outer ih => rw [append, isGated, isGated, ih, Bool.or_assoc]

theorem isGated_iff {s : Stack ω α β} : s.isGated = true ↔
    ∃ (γ : Type) (outer : Stack ω α γ) (check : γ → ω → Except Fault Unit × ω)
      (inner : Stack ω γ β), s = outer.append (.wrap (.gate check) inner) := by
  constructor
  · intro h
    induction s with
    | bare => cases h
    | wrap layer inner ih =>
      rcases Bool.or_eq_true_iff.1 h with hgate | hinner
      · cases layer with
        | gate check => exact ⟨_, .bare, check, inner, rfl⟩
        | _ => cases hgate
      · obtain ⟨γ, outer, check, inner, rfl⟩ := ih hinner
        exact ⟨γ, .wrap layer outer, check, inner, rfl⟩
  · rintro ⟨γ, outer, check, inner, rfl⟩
    rw [isGated_append, isGated]
    simp [Layer.isGate]

end Stack

/-- The calls of an outlet, each with the state that it meets. -/
def Outlet.calls (k : Outlet ω α) : List (Signal α) → ω → List (Signal α × ω)
  | [], _ => []
  | c :: cs, w => (c, w) :: k.calls cs (k.signal c w).2

/-- A record comes and is taken. -/
def Outlet.takes (k : Outlet ω α) : Signal α × ω → Bool
  | (.record r, w) => (k.emit r w).1.isOk
  | (.flush, _) => false

/-- What a call of a layer comes to for the outlet inside. -/
def Layer.pass (l : Layer ω α γ) : Signal α × WithMeters ω → Option (Signal γ × WithMeters ω)
  | (.record r, w) =>
    match l.way r w.state with
    | (.ok r', state) => some (.record r', { w with state := state })
    | (.error _, _) => none
  | (.flush, w) => if l.isGate then none else some (.flush, w)

/-- The number of records that went through layers that count at the stage and were taken there, of
these calls of the outermost layer. -/
def Stack.taken {α β : Type} (stage : String) (k : Outlet (WithMeters ω) β) :
    Stack ω α β → List (Signal α × WithMeters ω) → Nat
  | .bare, _ => 0
  | .wrap layer inner, calls =>
    (if stage ∈ layer.stages then calls.countP ((layer.around (inner.around k)).takes ·) else 0) +
      inner.taken stage k (calls.filterMap layer.pass)

theorem Outlet.isOk_settle (stages : List String) (r : Except Fault Unit × WithMeters ω) :
    (settle stages r).1.isOk = r.1.isOk := by
  obtain ⟨_ | _, _⟩ := r <;> rfl

/-- A layer takes what it hands on and what is taken there. -/
theorem Layer.takes_around (l : Layer ω α γ) (k : Outlet (WithMeters ω) γ)
    (call : Signal α × WithMeters ω) :
    (l.around k).takes call = ((l.pass call).map k.takes).getD false := by
  obtain ⟨c, w⟩ := call
  cases c with
  | flush =>
    rw [pass]
    split <;> rfl
  | record r =>
    rw [Outlet.takes, pass, l.emit_around]
    rcases l.way r w.state with ⟨fault | r', state⟩
    · rfl
    · exact Outlet.isOk_settle _ _

theorem Layer.countP_takes_around (l : Layer ω α γ) (k : Outlet (WithMeters ω) γ)
    (calls : List (Signal α × WithMeters ω)) :
    calls.countP ((l.around k).takes ·) = (calls.filterMap l.pass).countP (k.takes ·) := by
  rw [List.countP_filterMap]
  exact List.countP_congr fun call _ => by rw [l.takes_around k call]

/-- What the outermost layer takes went through all of them. -/
theorem Stack.taken_eq (stage : String) (s : Stack ω α β) (k : Outlet (WithMeters ω) β)
    (calls : List (Signal α × WithMeters ω)) :
    s.taken stage k calls = s.stages.count stage * calls.countP ((s.around k).takes ·) := by
  induction s with
  | bare => rw [taken, stages, List.count_nil, Nat.zero_mul]
  | wrap layer inner ih =>
    rw [taken, ih, stages, List.count_append, Nat.add_mul, around, layer.countP_takes_around]
    congr 1
    cases layer with
    | metered stage' =>
      by_cases h : stage = stage'
      · simp [Layer.stages, h]
      · simp [Layer.stages, h, Ne.symm h]
    | _ => simp [Layer.stages]

section Counting

variable {stage : String} {count : Meters → Nat}

theorem Meters.Counter.foldr (h : Counter stage count) (stages : List String) (m : Meters) :
    count (stages.foldr countTaken m) = count m + stages.count stage := by
  induction stages with
  | nil => rfl
  | cons stage' stages ih =>
    rw [List.foldr_cons, h, ih, List.count_cons, Nat.add_assoc]
    simp

theorem Meters.Counter.settle (h : Counter stage count) (stages : List String)
    (r : Except Fault Unit × WithMeters ω) : count (Outlet.settle stages r).2.meters =
      count r.2.meters + if r.1.isOk then stages.count stage else 0 := by
  obtain ⟨fault | u, w⟩ := r
  · rfl
  · exact h.foldr stages w.meters

/-- One call of a stack adds to a count what was taken in that call. -/
theorem Stack.count_signal (h : Meters.Counter stage count) (s : Stack ω α β) (k : Outlet ω β)
    (c : Signal α) (w : WithMeters ω) : count ((s.around k.withMeters).signal c w).2.meters =
      count w.meters +
        s.stages.count stage * if (s.around k.withMeters).takes (c, w) then 1 else 0 := by
  cases c with
  | flush =>
    have hmeters : ((s.around k.withMeters).flush w).2.meters = w.meters := by
      rw [s.flush_around]
      split <;> rfl
    rw [Outlet.signal, hmeters]
    rfl
  | record r =>
    rw [Outlet.signal, Outlet.takes, s.emit_around]
    rcases s.way r w.state with ⟨fault | b, state⟩
    · rfl
    · dsimp only
      rw [h.settle, Outlet.isOk_settle, mul_ite, Nat.mul_one, Nat.mul_zero]
      rfl

theorem Stack.count_replay (h : Meters.Counter stage count) (s : Stack ω α β) (k : Outlet ω β)
    (cs : List (Signal α)) (w : WithMeters ω) :
    count ((s.around k.withMeters).replay cs w).meters =
      count w.meters + s.taken stage k.withMeters ((s.around k.withMeters).calls cs w) := by
  rw [taken_eq]
  induction cs generalizing w with
  | nil => rfl
  | cons c cs ih =>
    rw [Outlet.replay, ih, s.count_signal h, Outlet.calls, List.countP_cons, Nat.mul_add]
    omega

end Counting

/-- What a stack does, whatever its layers are and whatever is inside. A record is handed to the inside
once, as the layers make it, unless a gate refuses it. The answer is that of the inside, or what the
gate says, and a record that was taken is counted once for every metered layer. A flush is passed on
unless there is a gate in the stack. A layer that watches or changes records is handed what the layers
outside it make of them, whatever becomes of them further inside. In any course of calls the counts of
a stage grow by what went through its metered layers and was taken there, and what the outermost layer
takes went through every one of them. -/
theorem Stack.composes (s : Stack ω α β) :
    (∀ (k : Outlet (WithMeters ω) β) (r : α) (w : WithMeters ω), (s.around k).emit r w =
      match s.way r w.state with
      | (.error fault, state) => (.error fault, { w with state := state })
      | (.ok b, state) =>
        match k.emit b { w with state := state } with
        | (.error fault, w') => (.error fault, w')
        | (.ok (), w') => (.ok (), { w' with meters := s.stages.foldr Meters.countTaken w'.meters })) ∧
    (∀ (r : α) (w w' : ω) (fault : Fault), s.way r w = (.error fault, w') ↔
      ∃ (γ : Type) (outer : Stack ω α γ) (check : γ → ω → Except Fault Unit × ω)
        (inner : Stack ω γ β) (x : γ) (w₁ : ω), s = outer.append (.wrap (.gate check) inner) ∧
          outer.way r w = (.ok x, w₁) ∧ check x w₁ = (.error fault, w')) ∧
    (∀ (k : Outlet (WithMeters ω) β) (w : WithMeters ω),
      (s.around k).flush w = if s.isGated then (.ok (), w) else k.flush w) ∧
    (s.isGated = true ↔ ∃ (γ : Type) (outer : Stack ω α γ)
      (check : γ → ω → Except Fault Unit × ω) (inner : Stack ω γ β),
        s = outer.append (.wrap (.gate check) inner)) ∧
    (∀ (γ : Type) (outer : Stack ω α γ) (inner : Stack ω γ β) (k : Outlet (WithMeters ω) β),
      (outer.append inner).around k = outer.around (inner.around k)) ∧
    (∀ (γ : Type) (outer : Stack ω α γ) (watch : γ → ω → ω) (inner : Stack ω γ β) (r : α) (w : ω),
      (outer.append (.wrap (.inspect watch) inner)).way r w =
        match outer.way r w with
        | (.error fault, w₁) => (.error fault, w₁)
        | (.ok x, w₁) => inner.way x (watch x w₁)) ∧
    (∀ (γ δ : Type) (outer : Stack ω α γ) (f : γ → ω → δ × ω) (inner : Stack ω δ β) (r : α) (w : ω),
      (outer.append (.wrap (.map f) inner)).way r w =
        match outer.way r w with
        | (.error fault, w₁) => (.error fault, w₁)
        | (.ok x, w₁) => inner.way (f x w₁).1 (f x w₁).2) ∧
    ∀ (k : Outlet ω β) (cs : List (Signal α)) (w : WithMeters ω) (stage : String),
      let wrapped := s.around k.withMeters
      let calls := wrapped.calls cs w
      let taken := s.taken stage k.withMeters calls
      (wrapped.replay cs w).meters.forwardedAt stage = w.meters.forwardedAt stage + taken ∧
      (wrapped.replay cs w).meters.timedAt stage = w.meters.timedAt stage + taken ∧
      taken = s.stages.count stage * calls.countP (wrapped.takes ·) := by
  refine ⟨fun k r w => ?_, fun r w w' fault => way_eq_error_iff, s.flush_around, isGated_iff,
    fun γ outer inner k => outer.around_append inner k, fun γ outer watch inner r w => ?_,
    fun γ δ outer f inner r w => ?_, fun k cs w stage => ?_⟩
  · rw [s.emit_around]
    rcases s.way r w.state with ⟨fault | b, state⟩
    · rfl
    · dsimp only
      rcases k.emit b { w with state := state } with ⟨fault | u, w'⟩ <;> rfl
  · rw [way_append]
    rcases outer.way r w with ⟨fault | x, w₁⟩ <;> rfl
  · rw [way_append]
    rcases outer.way r w with ⟨fault | x, w₁⟩ <;> rfl
  · exact ⟨s.count_replay (Meters.counter_forwardedAt stage) k cs w,
      s.count_replay (Meters.counter_timedAt stage) k cs w, s.taken_eq stage k.withMeters _⟩

/-- A record is seen first and then doubled. -/
example : (Stack.wrap (.inspect fun r seen => seen ++ [r])
    (.wrap (.map fun r seen => (2 * r, seen)) .bare) : Stack (List Int) Int Int).way 2 [] =
      (.ok 4, [2]) := rfl

end TimeMerge
