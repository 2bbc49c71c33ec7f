import Mathlib.Data.String.Basic
import TimeMerge.Json.Reader

/-!
# Values that are read

Reading JSON text gives values that are nested no deeper than allowed, whose members stand in the order
of their keys and whose whole numbers are integers of 64 bits. -/
namespace TimeMerge.Json

/-- An integer of 64 bits, signed or not, or else a floating-point number. -/
def Number.Fits : Number → Prop
  | .integer n => -(Text.maxSigned + 1 : Int) ≤ n ∧ n ≤ Text.maxUnsigned
  | .float _ => True

def Number.isInteger : Number → Bool
  | .integer _ => true
  | .float _ => false

/-- An integer of 64 bits, signed or not. -/
def Number.Whole (n : Number) : Prop := n.isInteger = true ∧ n.Fits

section Numbers

variable {negative : Bool} {m dropped : Nat} {exponent : Int} {s t : Bytes} {n : Number}

theorem fits_floatNumeral (h : floatNumeral negative m exponent s = .ok (n, t)) : n.Fits := by
  rw [floatNumeral] at h
  split at h <;> cases h
  trivial

theorem fits_exponentPart (h : exponentPart negative m exponent s = .ok (n, t)) : n.Fits := by
  rw [exponentPart] at h
  dsimp only at h
  split at h
  · cases h
  · split at h
    · split at h
      · split at h <;> cases h
        trivial
      · exact fits_floatNumeral h
    · cases h

theorem fits_exponentOrEnd (h : exponentOrEnd negative m exponent s = .ok (n, t)) : n.Fits := by
  unfold exponentOrEnd at h
  split at h
  · exact fits_floatNumeral h
  · split at h
    · exact fits_exponentPart h
    · exact fits_floatNumeral h

theorem fits_fractionPart (h : fractionPart negative m exponent s = .ok (n, t)) : n.Fits := by
  rw [fractionPart] at h
  split at h
  · cases h
  · exact fits_exponentOrEnd h

theorem fits_integerNumeral (hm : m ≤ Text.maxUnsigned) : (integerNumeral negative m).Fits := by
  rw [integerNumeral]
  split
  · split
    · rename_i hrange
      rw [Text.maxSigned] at hrange
      constructor <;> simp only [Text.maxSigned, Text.maxUnsigned] <;> omega
    · trivial
  · constructor
    · simp only [Text.maxSigned]
      omega
    · exact_mod_cast hm

theorem fits_afterWhole (hm : m ≤ Text.maxUnsigned)
    (h : afterWhole negative m dropped s = .ok (n, t)) : n.Fits := by
  unfold afterWhole at h
  split at h
  · split at h
    · cases h
      exact fits_integerNumeral hm
    · exact fits_floatNumeral h
  · split at h
    · exact fits_fractionPart h
    · split at h
      · exact fits_exponentPart h
      · split at h
        · cases h
          exact fits_integerNumeral hm
        · exact fits_floatNumeral h

theorem gather_le {limit value : Nat} (h : value ≤ limit) (ds : List Nat) :
    (gather limit value ds).1 ≤ limit := by
  induction ds generalizing value with
  | nil => exact h
  | cons d ds ih =>
    rw [gather]
    split
    · rename_i hmore
      exact ih hmore
    · exact h

theorem fits_numeral (h : numeral negative s = .ok (n, t)) : n.Fits := by
  unfold numeral at h
  split at h
  · cases h
  · split at h
    · split at h
      · exact fits_afterWhole (Nat.zero_le _) h
      · split at h
        · cases h
        · exact fits_afterWhole (Nat.zero_le _) h
    · split at h
      · exact fits_afterWhole (gather_le (Nat.zero_le _) _) h
      · cases h

end Numbers

/-- Members in the order of their keys, each key once. -/
def Ascending (members : List (String × Json)) : Prop := (members.map (·.1)).Pairwise (· < ·)

variable {key : String} {j : Json} {ms : List (String × Json)} {m : String × Json}

theorem mem_putMember (h : m ∈ putMember key j ms) : m = (key, j) ∨ m ∈ ms := by
  induction ms with
  | nil => exact .inl (List.mem_singleton.1 h)
  | cons first rest ih =>
    obtain ⟨k, v⟩ := first
    rw [putMember] at h
    split at h
    · exact List.mem_cons.1 h
    · split at h
      · exact (List.mem_cons.1 h).imp_right (List.mem_cons_of_mem _)
      · rcases List.mem_cons.1 h with rfl | h
        · exact .inr List.mem_cons_self
        · exact (ih h).imp_right (List.mem_cons_of_mem _)

theorem Ascending.putMember (h : Ascending ms) : Ascending (putMember key j ms) := by
  induction ms with
  | nil => exact List.pairwise_singleton ..
  | cons first rest ih =>
    obtain ⟨k, v⟩ := first
    obtain ⟨hfirst, hrest⟩ := List.pairwise_cons.1 h
    rw [Json.putMember]
    split
    · rename_i hlt
      refine List.pairwise_cons.2 ⟨fun k' hk' => ?_, h⟩
      rcases List.mem_cons.1 hk' with rfl | hk'
      · exact hlt
      · exact hlt.trans (hfirst k' hk')
    · split
      · rename_i hkey
        subst hkey
        exact List.pairwise_cons.2 ⟨hfirst, hrest⟩
      · rename_i hge hne
        refine List.pairwise_cons.2 ⟨fun k' hk' => ?_, ih hrest⟩
        obtain ⟨m, hm, rfl⟩ := List.mem_map.1 hk'
        rcases mem_putMember hm with rfl | hm
        · exact lt_of_le_of_ne (not_lt.1 hge) (Ne.symm hne)
        · exact hfirst _ (List.mem_map_of_mem hm)

/-- Whatever members an object is made of, it has them in order, and no others. -/
theorem Ascending.foldl_putMember {start : List (String × Json)} (h : Ascending start)
    (ms : List (String × Json)) :
    Ascending (ms.foldl (fun acc m => Json.putMember m.1 m.2 acc) start) ∧
      ∀ m ∈ ms.foldl (fun acc m => Json.putMember m.1 m.2 acc) start, m ∈ start ∨ m ∈ ms := by
  induction ms generalizing start with
  | nil => exact ⟨h, fun _ hm => .inl hm⟩
  | cons first rest ih =>
    obtain ⟨key, j⟩ := first
    have hput : Ascending (Json.putMember key j start) := h.putMember
    obtain ⟨hascending, hmem⟩ := ih hput
    refine ⟨hascending, fun m hm => ?_⟩
    rcases hmem m hm with hm | hm
    · rcases mem_putMember hm with rfl | hm
      · exact .inr List.mem_cons_self
      · exact .inl hm
    · exact .inr (List.mem_cons_of_mem _ hm)

/-- Values nested at most `depth` deep, with members in order and numbers of which `P` holds. -/
inductive Legible (P : Number → Prop) : Nat → Json → Prop where
  | null {depth : Nat} : Legible P depth .null
  | bool {depth : Nat} {b : Bool} : Legible P depth (.bool b)
  | number {depth : Nat} {n : Number} (holds : P n) : Legible P depth (.number n)
  | string {depth : Nat} {s : String} : Legible P depth (.string s)
  | array {depth : Nat} {items : List Json} (inner : ∀ j ∈ items, Legible P depth j) :
    Legible P (depth + 1) (.array items)
  | object {depth : Nat} {members : List (String × Json)} (ascending : Ascending members)
    (inner : ∀ m ∈ members, Legible P depth m.2) : Legible P (depth + 1) (.object members)

mutual

/-- The numbers in a value. -/
def numbers : Json → List Number
  | .number n => [n]
  | .array items => numbersOfItems items
  | .object members => numbersOfMembers members
  | _ => []

def numbersOfItems : List Json → List Number
  | [] => []
  | j :: js => numbers j ++ numbersOfItems js

def numbersOfMembers : List (String × Json) → List Number
  | [] => []
  | (_, j) :: ms => numbers j ++ numbersOfMembers ms

end

theorem numbersOfItems_eq (items : List Json) : numbersOfItems items = items.flatMap numbers := by
  induction items with
  | nil => rfl
  | cons j js ih => rw [numbersOfItems, ih, List.flatMap_cons]

theorem numbersOfMembers_eq (members : List (String × Json)) :
    numbersOfMembers members = members.flatMap fun m => numbers m.2 := by
  induction members with
  | nil => rfl
  | cons m ms ih => rw [numbersOfMembers, ih, List.flatMap_cons]

theorem Legible.imp {P Q : Number → Prop} {depth : Nat} (h : Legible P depth j)
    (himp : ∀ n ∈ j.numbers, P n → Q n) : Legible Q depth j := by
  induction h with
  | null => exact .null
  | bool => exact .bool
  | number holds => exact .number (himp _ (by simp [numbers]) holds)
  | string => exact .string
  | array _ ih =>
    rw [numbers, numbersOfItems_eq] at himp
    exact .array fun j hj => ih j hj fun n hn => himp n (List.mem_flatMap_of_mem hj hn)
  | object ascending _ ih =>
    rw [numbers, numbersOfMembers_eq] at himp
    exact .object ascending fun m hm => ih m hm fun n hn => himp n (List.mem_flatMap_of_mem hm hn)

variable {depth : Nat} {first : Bool} {s t : Bytes} {js : List Json}

/-- What `value` reads and what then lies ahead. -/
def readValue (depth : Nat) (s : Bytes) : Scan (Json × Bytes) :=
  (value depth s).map fun r => (r.1, r.2.1)

def readItems (depth : Nat) (first : Bool) (s : Bytes) : Scan (List Json × Bytes) :=
  (items depth first s).map fun r => (r.1, r.2.1)

def readMembers (depth : Nat) (first : Bool) (s : Bytes) : Scan (List (String × Json) × Bytes) :=
  (members depth first s).map fun r => (r.1, r.2.1)

theorem length_readValue (h : readValue depth s = .ok (j, t)) : t.length < s.length := by
  obtain ⟨⟨_, _, hlt⟩, _, heq⟩ := map_ok h
  cases heq
  exact hlt

theorem readValue_eq (depth : Nat) (s : Bytes) : readValue depth s =
    match skipGap s with
    | [] => stop .endOfValue []
    | b :: r =>
      if b = Ascii.openBracket then
        if depth = 0 then stopAtNext .recursionLimit (b :: r)
        else (readItems (depth - 1) true r).map fun x => (.array x.1, x.2)
      else if b = Ascii.openBrace then
        if depth = 0 then stopAtNext .recursionLimit (b :: r)
        else (readMembers (depth - 1) true r).map fun x => (ofMembers x.1, x.2)
      else scalar b r := by
  rw [readValue, value]
  split
  · rename_i hs
    conv => rhs; rw [hs]
    rfl
  · rename_i b r hs
    conv => rhs; rw [hs]
    dsimp only
    split
    · split
      · rfl
      · rw [readItems]
        split <;> rename_i hi <;> rw [hi] <;> rfl
    · split
      · split
        · rfl
        · rw [readMembers]
          split <;> rename_i hi <;> rw [hi] <;> rfl
      · split <;> rename_i hi <;> exact hi.symm

theorem readItems_eq (depth : Nat) (first : Bool) (s : Bytes) : readItems depth first s =
    match nextItem first s with
    | .error e => .error e
    | .ok (.closed r) => .ok ([], r)
    | .ok (.element r) =>
      match readValue depth r with
      | .error e => .error e
      | .ok (j, t) => (readItems depth false t).map fun x => (j :: x.1, x.2) := by
  rw [readItems, items]
  split
  · rename_i hn
    conv => rhs; rw [hn]
    rfl
  · rename_i r hn
    conv => rhs; rw [hn]
    rfl
  · rename_i r hn
    conv => rhs; rw [hn]
    dsimp only
    rw [readValue]
    split
    · rename_i hv
      rw [hv]
      rfl
    · rename_i j t ht hv
      rw [hv]
      change _ = (readItems depth false t).map fun x => (j :: x.1, x.2)
      rw [readItems]
      rcases items depth false t with e | ⟨js, u, hu⟩ <;> rfl

theorem readMembers_eq (depth : Nat) (first : Bool) (s : Bytes) : readMembers depth first s =
    match nextMember first s with
    | .error e => .error e
    | .ok (.closed r) => .ok ([], r)
    | .ok (.element r) =>
      match stringBody r with
      | .error e => .error e
      | .ok (key, t) =>
        match colon t with
        | .error e => .error e
        | .ok u =>
          match readValue depth u with
          | .error e => .error e
          | .ok (j, v) => (readMembers depth false v).map fun x => ((key, j) :: x.1, x.2) := by
  rw [readMembers, members]
  split
  · rename_i hn
    conv => rhs; rw [hn]
    rfl
  · rename_i r hn
    conv => rhs; rw [hn]
    rfl
  · rename_i r hn
    conv => rhs; rw [hn]
    dsimp only
    split
    · rename_i hk
      conv => rhs; rw [hk]
      rfl
    · rename_i key t hk
      conv => rhs; rw [hk]
      dsimp only
      split
      · rename_i hc
        conv => rhs; rw [hc]
        rfl
      · rename_i u hc
        conv => rhs; rw [hc]
        dsimp only
        rw [readValue]
        split
        · rename_i hv
          rw [hv]
          rfl
        · rename_i j v hv' hv
          rw [hv]
          change _ = (readMembers depth false v).map fun x => ((key, j) :: x.1, x.2)
          rw [readMembers]
          rcases members depth false v with e | ⟨ms, w, hw⟩ <;> rfl

theorem legible_scalar {b : UInt8} (h : scalar b s = .ok (j, t)) :
    Legible Number.Fits depth j := by
  have hword : ∀ {w : Bytes} {v : Json}, word w v s = .ok (j, t) → v = j := by
    intro w v h
    obtain ⟨_, _, heq⟩ := map_ok h
    exact congrArg Prod.fst heq
  rw [scalar] at h
  split at h
  · exact hword h ▸ .null
  split at h
  · exact hword h ▸ .bool
  split at h
  · exact hword h ▸ .bool
  split at h
  · obtain ⟨_, hn, heq⟩ := map_ok h
    cases heq
    exact .number (fits_numeral hn)
  split at h
  · obtain ⟨_, hn, heq⟩ := map_ok h
    cases heq
    exact .number (fits_numeral hn)
  split at h
  · obtain ⟨_, _, heq⟩ := map_ok h
    cases heq
    exact .string
  · cases h

/-- Reading from `s` gives legible values, items and members. -/
structure ReadsLegibly (s : Bytes) : Prop where
  value : ∀ {depth : Nat} {j : Json} {t : Bytes}, readValue depth s = .ok (j, t) →
    Legible Number.Fits depth j
  items : ∀ {depth : Nat} {first : Bool} {js : List Json} {t : Bytes},
    readItems depth first s = .ok (js, t) → ∀ j ∈ js, Legible Number.Fits depth j
  members : ∀ {depth : Nat} {first : Bool} {ms : List (String × Json)} {t : Bytes},
    readMembers depth first s = .ok (ms, t) → ∀ m ∈ ms, Legible Number.Fits depth m.2

theorem legible_value (shorter : ∀ r : Bytes, r.length < s.length → ReadsLegibly r)
    (h : readValue depth s = .ok (j, t)) : Legible Number.Fits depth j := by
  rw [readValue_eq] at h
  split at h
  · cases h
  · rename_i b r hs
    have hr := shorter r (length_lt_of_skipGap hs)
    split at h
    · split at h
      · cases h
      · obtain ⟨_, hitems, heq⟩ := map_ok h
        cases heq
        obtain ⟨depth, rfl⟩ := Nat.exists_eq_succ_of_ne_zero ‹_›
        exact .array (hr.items hitems)
    · split at h
      · split at h
        · cases h
        · obtain ⟨⟨ms, _⟩, hmembers, heq⟩ := map_ok h
          cases heq
          obtain ⟨depth, rfl⟩ := Nat.exists_eq_succ_of_ne_zero ‹_›
          have hempty : Ascending [] := .nil
          obtain ⟨hascending, hmem⟩ := hempty.foldl_putMember ms
          refine .object hascending fun m hm => hr.members hmembers m ?_
          exact (hmem m hm).resolve_left List.not_mem_nil
      · exact legible_scalar h

/-- Whatever is read is legible. Items may start where a value does, so values come first. -/
theorem readsLegibly (s : Bytes) : ReadsLegibly s := by
  induction hn : s.length using Nat.strong_induction_on generalizing s with
  | _ n ih =>
    subst hn
    have shorter : ∀ r : Bytes, r.length < s.length → ReadsLegibly r := fun r hr => ih _ hr r rfl
    have hvalue : ∀ {r : Bytes}, r.length ≤ s.length → ∀ {depth : Nat} {j : Json} {t : Bytes},
        readValue depth r = .ok (j, t) → Legible Number.Fits depth j :=
      fun hr => legible_value fun r' hr' => shorter r' (Nat.lt_of_lt_of_le hr' hr)
    refine ⟨hvalue (Nat.le_refl _), fun h => ?_, fun h => ?_⟩
    · rw [readItems_eq] at h
      split at h
      · cases h
      · cases h
        simp
      · rename_i r hn
        have hr := length_nextItem_element hn
        split at h
        · cases h
        · rename_i j t hj
          have ht := length_readValue hj
          obtain ⟨_, hrest, heq⟩ := map_ok h
          cases heq
          exact List.forall_mem_cons.2
            ⟨hvalue hr hj, (shorter t (Nat.lt_of_lt_of_le ht hr)).items hrest⟩
    · rw [readMembers_eq] at h
      split at h
      · cases h
      · cases h
        simp
      · rename_i r hn
        have hr := length_nextMember_element hn
        split at h
        · cases h
        · rename_i key t hk
          have ht := length_stringBody hk
          split at h
          · cases h
          · rename_i u hc
            have hu := length_colon hc
            split at h
            · cases h
            · rename_i j v hj
              have hv := length_readValue hj
              obtain ⟨_, hrest, heq⟩ := map_ok h
              cases heq
              exact List.forall_mem_cons.2
                ⟨hvalue (by omega) hj, (shorter v (by omega)).members hrest⟩

theorem ok_of_mapError {f : ε → ε'} {x : Except ε α} {a : α} (h : x.mapError f = .ok a) :
    x = .ok a := by
  cases x <;> cases h
  rfl

/-- A value that is parsed is legible. -/
theorem legible_parse (h : parse s = .ok j) : Legible Number.Fits maxDepth j := by
  have hdocument : document s = .ok j := ok_of_mapError h
  rw [document] at hdocument
  split at hdocument
  · cases hdocument
  · rename_i j' r hr hv
    obtain ⟨_, _, rfl⟩ := map_ok hdocument
    have hread : readValue maxDepth s = .ok (j', r) := by
      rw [readValue, hv]
      rfl
    exact (readsLegibly s).value hread

end TimeMerge.Json
