/-!
Partitions and tables over them. A table keeps one entry for each of its partitions in ascending
order of their ids, so that two tables with the same entries are equal.
-/
namespace TimeMerge

abbrev PartitionId := Nat

/-- Ordering key of a record; valid ones are not negative. -/
abbrev Timestamp := Int

structure Table (β : Type) where
  entries : List (PartitionId × β)
  ascending : entries.Pairwise (·.1 < ·.1)
  deriving Repr

namespace Table

@[ext] theorem ext {s t : Table β} (h : s.entries = t.entries) : s = t := by
  cases s
  cases t
  cases h
  rfl

instance [DecidableEq β] : DecidableEq (Table β) := fun s t =>
  if h : s.entries = t.entries then isTrue (ext h)
  else isFalse fun he => h (congrArg entries he)

def empty : Table β := ⟨[], .nil⟩

def ids (t : Table β) : List PartitionId := t.entries.map (·.1)

def size (t : Table β) : Nat := t.entries.length

def get? (t : Table β) (p : PartitionId) : Option β := t.entries.lookup p

def contains (t : Table β) (p : PartitionId) : Bool := t.entries.any (·.1 == p)

def place (p : PartitionId) (b : β) : List (PartitionId × β) → List (PartitionId × β)
  | [] => [(p, b)]
  | e :: es =>
    if p < e.1 then (p, b) :: e :: es
    else if p = e.1 then (p, b) :: es
    else e :: place p b es

theorem mem_place {p : PartitionId} {b : β} {es : List (PartitionId × β)} {x : PartitionId × β}
    (h : x ∈ place p b es) : x = (p, b) ∨ x ∈ es := by
  induction es with
  | nil => simpa [place] using h
  | cons e es ih =>
    rw [place] at h
    split at h
    · simpa using h
    · split at h
      · rcases List.mem_cons.1 h with h | h
        · exact .inl h
        · exact .inr (List.mem_cons_of_mem _ h)
      · rcases List.mem_cons.1 h with h | h
        · exact .inr (h ▸ List.mem_cons_self)
        · exact (ih h).imp_right (List.mem_cons_of_mem _)

theorem pairwise_place {p : PartitionId} {b : β} {es : List (PartitionId × β)}
    (h : es.Pairwise (·.1 < ·.1)) : (place p b es).Pairwise (·.1 < ·.1) := by
  induction es with
  | nil => simp [place]
  | cons e es ih =>
    have he := List.pairwise_cons.1 h
    rw [place]
    split
    · rename_i hp
      refine List.pairwise_cons.2 ⟨?_, h⟩
      intro x hx
      rcases List.mem_cons.1 hx with rfl | hx
      · exact hp
      · exact Nat.lt_trans hp (he.1 x hx)
    · split
      · rename_i hp
        exact List.pairwise_cons.2 ⟨fun x hx => hp ▸ he.1 x hx, he.2⟩
      · rename_i hlt hne
        refine List.pairwise_cons.2 ⟨?_, ih he.2⟩
        intro x hx
        rcases mem_place hx with rfl | hx
        · exact Nat.lt_of_le_of_ne (Nat.le_of_not_lt hlt) (Ne.symm hne)
        · exact he.1 x hx

/-- Adds an entry, in place of the one of the same partition if there is one. -/
def insert (t : Table β) (p : PartitionId) (b : β) : Table β :=
  ⟨place p b t.entries, pairwise_place t.ascending⟩

def ofIds (ids : List PartitionId) (b : β) : Table β :=
  ids.foldl (fun t p => t.insert p b) empty

def erase (t : Table β) (p : PartitionId) : Table β :=
  ⟨t.entries.filter (·.1 != p), t.ascending.filter _⟩

def retain (t : Table β) (keep : β → Bool) : Table β :=
  ⟨t.entries.filter fun e => keep e.2, t.ascending.filter _⟩

def mapValues (t : Table β) (f : β → γ) : Table γ where
  entries := t.entries.map fun e => (e.1, f e.2)
  ascending := t.ascending.map _ fun _ _ h => h

/-- Changes the entry of a partition, if there is one. -/
def adjust (t : Table β) (p : PartitionId) (f : β → β) : Table β where
  entries := t.entries.map fun e => (e.1, if e.1 = p then f e.2 else e.2)
  ascending := t.ascending.map _ fun _ _ h => h

@[simp] theorem ids_adjust (t : Table β) (p : PartitionId) (f : β → β) :
    (t.adjust p f).ids = t.ids := by
  simp [ids, adjust]

theorem lookup_adjust {es : List (PartitionId × β)} {p q : PartitionId} {f : β → β} :
    (es.map fun e => (e.1, if e.1 = p then f e.2 else e.2)).lookup q =
      (es.lookup q).map fun b => if q = p then f b else b := by
  induction es with
  | nil => rfl
  | cons e es ih =>
    obtain ⟨k, b⟩ := e
    by_cases h : q = k
    · simp [h]
    · have hne : (q == k) = false := by simp [h]
      simpa [List.lookup_cons, hne] using ih

theorem get?_adjust (t : Table β) (p q : PartitionId) (f : β → β) :
    (t.adjust p f).get? q = (t.get? q).map fun b => if q = p then f b else b :=
  lookup_adjust

/-- Total of a measure over the entries. -/
def total (t : Table β) (f : β → Nat) : Nat := t.entries.foldr (fun e n => f e.2 + n) 0

theorem foldr_map_of_forall_ne {es : List (PartitionId × β)} {p : PartitionId} {f : β → Nat}
    {g : β → β} (h : ∀ e ∈ es, e.1 ≠ p) :
    (es.map fun e => (e.1, if e.1 = p then g e.2 else e.2)).foldr (fun e n => f e.2 + n) 0 =
      es.foldr (fun e n => f e.2 + n) 0 := by
  induction es with
  | nil => rfl
  | cons e es ih =>
    have he := h e List.mem_cons_self
    simp only [List.map_cons, List.foldr_cons, if_neg he,
      ih fun x hx => h x (List.mem_cons_of_mem _ hx)]

theorem total_adjust {t : Table β} {p : PartitionId} {b : β} (h : t.get? p = some b) (g : β → β)
    (f : β → Nat) : (t.adjust p g).total f + f b = t.total f + f (g b) := by
  obtain ⟨es, hs⟩ := t
  simp only [get?, total, adjust] at *
  induction es with
  | nil => simp at h
  | cons e es ih =>
    obtain ⟨k, c⟩ := e
    have he := List.pairwise_cons.1 hs
    by_cases hp : p = k
    · simp only [List.lookup_cons, hp, beq_self_eq_true, Option.some.injEq] at h
      have hne : ∀ x ∈ es, x.1 ≠ p := fun x hx hxp =>
        Nat.ne_of_gt (he.1 x hx) (hxp.trans hp)
      have := foldr_map_of_forall_ne (f := f) (g := g) hne
      simp only [List.map_cons, List.foldr_cons, hp, ↓reduceIte, h] at this ⊢
      omega
    · have hb : (p == k) = false := by simp [hp]
      simp only [List.lookup_cons, hb] at h
      have := ih he.2 h
      simp only [List.map_cons, List.foldr_cons, if_neg (Ne.symm hp)]
      omega

end Table

end TimeMerge
