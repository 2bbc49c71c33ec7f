import Mathlib.Algebra.GroupWithZero.Nat
import Mathlib.Data.List.Basic
import TimeMerge.Partition

/-!
# Looking up in a table

A table is what `get?` says of it: the entries are the pairs that are found, and every operation is
given by what is found afterwards. Totals run over the entries, so an entry that is taken out takes
its share along.
-/
namespace TimeMerge

namespace Table

theorem lookup_cons_ite {κ : Type} [BEq κ] [LawfulBEq κ] [DecidableEq κ] (p q : κ) (b : β)
    (es : List (κ × β)) :
    ((p, b) :: es).lookup q = if q = p then some b else es.lookup q := by
  by_cases h : q = p
  · simp [h]
  · have hne : (q == p) = false := by simp [h]
    simp [List.lookup_cons, hne, h]

theorem lookup_of_mem {es : List (PartitionId × β)} (h : es.Pairwise (·.1 < ·.1))
    {p : PartitionId} {b : β} (hm : (p, b) ∈ es) : es.lookup p = some b := by
  induction es with
  | nil => simp at hm
  | cons e es ih =>
    obtain ⟨k, c⟩ := e
    have he := List.pairwise_cons.1 h
    rw [lookup_cons_ite]
    rcases List.mem_cons.1 hm with heq | hm
    · cases heq
      exact if_pos rfl
    · rw [if_neg (Nat.ne_of_gt (he.1 _ hm))]
      exact ih he.2 hm

theorem mem_of_lookup {es : List (PartitionId × β)} {p : PartitionId} {b : β}
    (h : es.lookup p = some b) : (p, b) ∈ es := by
  induction es with
  | nil => simp at h
  | cons e es ih =>
    obtain ⟨k, c⟩ := e
    rw [lookup_cons_ite] at h
    split at h
    · cases h
      rename_i hp
      simp [hp]
    · exact List.mem_cons_of_mem _ (ih h)

theorem mem_entries_iff {t : Table β} {p : PartitionId} {b : β} :
    (p, b) ∈ t.entries ↔ t.get? p = some b :=
  ⟨lookup_of_mem t.ascending, mem_of_lookup⟩

theorem mem_ids_iff {t : Table β} {p : PartitionId} : p ∈ t.ids ↔ (t.get? p).isSome := by
  rw [Option.isSome_iff_exists, ids, List.mem_map]
  constructor
  · rintro ⟨⟨q, b⟩, hm, rfl⟩
    exact ⟨b, mem_entries_iff.1 hm⟩
  · rintro ⟨b, hb⟩
    exact ⟨(p, b), mem_entries_iff.2 hb, rfl⟩

theorem lookup_place {es : List (PartitionId × β)} {p q : PartitionId} {b : β} :
    (place p b es).lookup q = if q = p then some b else es.lookup q := by
  induction es with
  | nil => rw [place, lookup_cons_ite]
  | cons e es ih =>
    obtain ⟨k, c⟩ := e
    rw [place]
    split
    · rw [lookup_cons_ite]
    · split
      · rename_i hk
        simp only at hk
        subst k
        by_cases h : q = p <;> simp [lookup_cons_ite, h]
      · rename_i hk
        rw [lookup_cons_ite, ih, lookup_cons_ite]
        by_cases h : q = k
        · subst q
          simp [Ne.symm hk]
        · simp [h]

theorem get?_insert (t : Table β) (p q : PartitionId) (b : β) :
    (t.insert p b).get? q = if q = p then some b else t.get? q :=
  lookup_place

@[simp] theorem get?_empty (p : PartitionId) : (empty : Table β).get? p = none := rfl

theorem get?_foldl_insert (ids : List PartitionId) (b : β) (t : Table β) (p : PartitionId) :
    (ids.foldl (fun t q => t.insert q b) t).get? p = if p ∈ ids then some b else t.get? p := by
  induction ids generalizing t with
  | nil => simp
  | cons q ids ih =>
    rw [List.foldl_cons, ih, get?_insert]
    by_cases hp : p ∈ ids <;> by_cases hq : p = q <;> simp [hp, hq]

theorem get?_ofIds (ids : List PartitionId) (b : β) (p : PartitionId) :
    (ofIds ids b).get? p = if p ∈ ids then some b else none := by
  rw [ofIds, get?_foldl_insert, get?_empty]

theorem lookup_filter_ne {es : List (PartitionId × β)} {p q : PartitionId} :
    (es.filter (·.1 != p)).lookup q = if q = p then none else es.lookup q := by
  induction es with
  | nil => simp
  | cons e es ih =>
    obtain ⟨k, c⟩ := e
    by_cases hk : k = p
    · subst k
      rw [List.filter_cons_of_neg (by simp), ih, lookup_cons_ite]
      by_cases hq : q = p <;> simp [hq]
    · by_cases hq : q = k
      · subst q
        simp [hk]
      · simp [lookup_cons_ite, hk, hq, ih]

theorem get?_erase (t : Table β) (p q : PartitionId) :
    (t.erase p).get? q = if q = p then none else t.get? q :=
  lookup_filter_ne

theorem get?_retain (t : Table β) (keep : β → Bool) (p : PartitionId) :
    (t.retain keep).get? p = (t.get? p).filter keep := by
  apply Option.ext
  intro b
  rw [← mem_entries_iff, retain, List.mem_filter, mem_entries_iff, Option.filter_eq_some_iff]

theorem get?_mapValues (t : Table β) (f : β → γ) (p : PartitionId) :
    (t.mapValues f).get? p = (t.get? p).map f := by
  apply Option.ext
  intro c
  rw [← mem_entries_iff, mapValues, List.mem_map, Option.map_eq_some_iff]
  constructor
  · rintro ⟨⟨q, b⟩, hm, he⟩
    cases he
    exact ⟨b, mem_entries_iff.1 hm, rfl⟩
  · rintro ⟨b, hb, rfl⟩
    exact ⟨(p, b), mem_entries_iff.2 hb, rfl⟩

theorem nodup_entries (t : Table β) : t.entries.Nodup :=
  t.ascending.imp fun {_ _} hlt he => Nat.ne_of_lt hlt (congrArg Prod.fst he)

theorem nodup_ids (t : Table β) : t.ids.Nodup :=
  List.Pairwise.map _ (fun _ _ hlt => Nat.ne_of_lt hlt) t.ascending

/-- Tables in which the same is found are equal, since their entries stand in the same order. -/
theorem ext_get? {s t : Table β} (h : ∀ p, s.get? p = t.get? p) : s = t := by
  apply Table.ext
  have hperm : s.entries.Perm t.entries := by
    rw [List.perm_ext_iff_of_nodup s.nodup_entries t.nodup_entries]
    rintro ⟨p, b⟩
    rw [mem_entries_iff, mem_entries_iff, h]
  exact hperm.eq_of_pairwise (fun _ _ _ _ hlt hgt => absurd hlt (Nat.lt_asymm hgt))
    s.ascending t.ascending

theorem contains_eq_isSome (t : Table β) (p : PartitionId) : t.contains p = (t.get? p).isSome := by
  rw [Bool.eq_iff_iff, Option.isSome_iff_exists, contains, List.any_eq_true]
  constructor
  · rintro ⟨⟨q, b⟩, hm, he⟩
    obtain rfl : q = p := by simpa using he
    exact ⟨b, mem_entries_iff.1 hm⟩
  · rintro ⟨b, hb⟩
    exact ⟨(p, b), mem_entries_iff.2 hb, by simp⟩

theorem contains_empty (p : PartitionId) : (empty : Table β).contains p = false := rfl

theorem contains_insert (t : Table β) (p q : PartitionId) (b : β) :
    (t.insert p b).contains q = if q = p then true else t.contains q := by
  rw [contains_eq_isSome, get?_insert, contains_eq_isSome, apply_ite Option.isSome]
  rfl

theorem contains_foldl_insert (ids : List PartitionId) (b : β) (t : Table β) (p : PartitionId) :
    (ids.foldl (fun t q => t.insert q b) t).contains p =
      if p ∈ ids then true else t.contains p := by
  rw [contains_eq_isSome, get?_foldl_insert, contains_eq_isSome, apply_ite Option.isSome]
  rfl

theorem length_place {es : List (PartitionId × β)} {p : PartitionId} (b : β)
    (h : ∀ e ∈ es, e.1 ≠ p) : (place p b es).length = es.length + 1 := by
  induction es with
  | nil => rfl
  | cons e es ih =>
    have hne := h e List.mem_cons_self
    have ih := ih fun x hx => h x (List.mem_cons_of_mem _ hx)
    rw [place]
    split
    · rfl
    · rw [if_neg (Ne.symm hne), List.length_cons, ih, List.length_cons]

/-- A partition that is new to a table adds one entry. -/
theorem size_insert {t : Table β} {p : PartitionId} (b : β) (h : t.contains p = false) :
    (t.insert p b).size = t.size + 1 := by
  apply length_place b
  intro e he heq
  have hc : t.contains p = true := List.any_eq_true.2 ⟨e, he, by simp [heq]⟩
  simp [h] at hc

/-- Totals depend on the measures of the entries alone. -/
theorem total_eq_sum (t : Table β) (f : β → Nat) :
    t.total f = (t.entries.map fun e => f e.2).sum := by
  rw [total, List.sum_eq_foldr, List.foldr_map]

theorem total_adjust_of_eq {f : β → Nat} {g : β → β} (h : ∀ b, f (g b) = f b) (t : Table β)
    (p : PartitionId) : (t.adjust p g).total f = t.total f := by
  simp only [total_eq_sum, adjust, List.map_map, Function.comp_def, apply_ite f, h, ite_self]

theorem sum_filter_add {es : List (PartitionId × β)} (h : es.Pairwise (·.1 < ·.1))
    {p : PartitionId} {b : β} (hb : (p, b) ∈ es) (f : β → Nat) :
    ((es.filter (·.1 != p)).map fun e => f e.2).sum + f b = (es.map fun e => f e.2).sum := by
  induction es with
  | nil => simp at hb
  | cons e es ih =>
    obtain ⟨k, c⟩ := e
    have he := List.pairwise_cons.1 h
    rcases List.mem_cons.1 hb with heq | hb
    · cases heq
      have hall : es.filter (·.1 != p) = es := by
        refine List.filter_eq_self.2 fun x hx => ?_
        exact bne_iff_ne.2 (Nat.ne_of_gt (he.1 x hx))
      simp [hall, Nat.add_comm]
    · have hk : (k != p) = true := bne_iff_ne.2 (Nat.ne_of_lt (he.1 _ hb))
      have := ih he.2 hb
      simp only [List.filter_cons, hk, ↓reduceIte, List.map_cons, List.sum_cons]
      omega

/-- An entry that is taken out takes its share of a total along. -/
theorem total_erase {t : Table β} {p : PartitionId} {b : β} (h : t.get? p = some b)
    (f : β → Nat) : (t.erase p).total f + f b = t.total f := by
  simp only [total_eq_sum, erase]
  exact sum_filter_add t.ascending (mem_entries_iff.2 h) f

end Table

end TimeMerge
