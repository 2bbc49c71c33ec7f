import Mathlib.Data.List.Basic
import Mathlib.Data.List.DropRight
import Mathlib.Data.List.Induction
import TimeMerge.Text.Ascii
import TimeMerge.Text.Blank
import TimeMerge.Text.Utf8

/-!
# The bytes of characters

An ASCII character is one byte, its own code; of any other character no byte is an ASCII one. So
whatever looks for ASCII bytes in a text finds the characters that they stand for, and cuts no other
character in two. -/
namespace TimeMerge.Utf8

/-- What is written in UTF-8. -/
def IsText (bytes : Bytes) : Prop := ∃ s, encode s = bytes

variable {c : Char} {b : UInt8} {s : String} {cs ds : List Char} {bytes : Bytes}

theorem encode_ofList (cs : List Char) :
    encode (String.ofList cs) = cs.flatMap String.utf8EncodeChar := by
  rw [encode, String.toList_ofList]

theorem isText_iff : IsText bytes ↔ ∃ cs : List Char, cs.flatMap String.utf8EncodeChar = bytes := by
  constructor
  · rintro ⟨s, rfl⟩
    exact ⟨s.toList, rfl⟩
  · rintro ⟨cs, rfl⟩
    exact ⟨String.ofList cs, encode_ofList cs⟩

theorem encodeChar_of_ascii (h : c.toNat < 128) :
    String.utf8EncodeChar c = [UInt8.ofNat c.toNat] := by
  have hc : c.val.toNat ≤ 127 := Nat.le_of_lt_succ h
  simp only [String.utf8EncodeChar, if_pos hc]
  rfl

/-- The bytes of a character that is none of ASCII are none either. -/
theorem high_of_mem_encodeChar (h : 128 ≤ c.toNat) (hb : b ∈ String.utf8EncodeChar c) :
    128 ≤ b.toNat := by
  have hc : ¬c.val.toNat ≤ 127 := Nat.not_le_of_lt h
  have hhigh : ∀ n, 128 ≤ n → n < 256 → 128 ≤ (UInt8.ofNat n).toNat := by
    intro n hl hu
    rwa [UInt8.toNat_ofNat', Nat.mod_eq_of_lt hu]
  simp only [String.utf8EncodeChar, if_neg hc] at hb
  split at hb
  · simp only [List.mem_cons, List.not_mem_nil, or_false] at hb
    rcases hb with rfl | rfl <;> exact hhigh _ (by omega) (by omega)
  split at hb
  · simp only [List.mem_cons, List.not_mem_nil, or_false] at hb
    rcases hb with rfl | rfl | rfl <;> exact hhigh _ (by omega) (by omega)
  · simp only [List.mem_cons, List.not_mem_nil, or_false] at hb
    rcases hb with rfl | rfl | rfl | rfl <;> exact hhigh _ (by omega) (by omega)

/-- A character with an ASCII byte is that byte. -/
theorem encodeChar_of_mem (h : b.toNat < 128) (hb : b ∈ String.utf8EncodeChar c) :
    String.utf8EncodeChar c = [b] ∧ c.toNat = b.toNat := by
  have hc : c.toNat < 128 := by
    by_contra hc
    have := high_of_mem_encodeChar (Nat.le_of_not_lt hc) hb
    omega
  rw [encodeChar_of_ascii hc, List.mem_singleton] at hb
  subst hb
  refine ⟨encodeChar_of_ascii hc, ?_⟩
  rw [UInt8.toNat_ofNat', Nat.mod_eq_of_lt (by omega)]

/-- The code of the character of an ASCII byte is that byte. -/
theorem toNat_charOf (h : b.toNat < 128) : (Char.ofNat b.toNat).toNat = b.toNat := by
  have hvalid : b.toNat.isValidChar := .inl (by omega)
  rw [Char.ofNat, dif_pos hvalid]
  rfl

theorem encodeChar_ofNat (h : b.toNat < 128) :
    String.utf8EncodeChar (Char.ofNat b.toNat) = [b] := by
  rw [encodeChar_of_ascii (by rwa [toNat_charOf h]), toNat_charOf h, UInt8.ofNat_toNat]

/-- Of all characters only an ASCII character has its byte. -/
theorem beq_of_mem_encodeChar {a : UInt8} (ha : a.toNat < 128) (hb : b ∈ String.utf8EncodeChar c) :
    (b == a) = (c == Char.ofNat a.toNat) := by
  refine Bool.eq_iff_iff.2 ?_
  rw [beq_iff_eq, beq_iff_eq]
  constructor
  · rintro rfl
    rw [← (encodeChar_of_mem ha hb).2, Char.ofNat_toNat]
  · rintro rfl
    rw [encodeChar_ofNat ha] at hb
    exact List.mem_singleton.1 hb

/-- The first byte belongs to the first character. -/
theorem mem_head?_encode (h : b ∈ (encode s).head?) :
    ∃ c ∈ s.toList.head?, b ∈ String.utf8EncodeChar c := by
  rw [encode] at h
  cases hs : s.toList with
  | nil => simp [hs] at h
  | cons c cs =>
    obtain ⟨a, rest, ha⟩ := List.exists_cons_of_ne_nil (String.utf8EncodeChar_ne_nil (c := c))
    rw [hs, List.flatMap_cons, ha] at h
    cases h
    exact ⟨c, rfl, ha ▸ List.mem_cons_self⟩

theorem isText_encode (s : String) : IsText (encode s) := ⟨s, rfl⟩

theorem isText_nil : IsText [] := ⟨"", rfl⟩

theorem IsText.append {bytes' : Bytes} (h : IsText bytes) (h' : IsText bytes') :
    IsText (bytes ++ bytes') := by
  obtain ⟨s, rfl⟩ := h
  obtain ⟨t, rfl⟩ := h'
  exact ⟨s ++ t, encode_append s t⟩

theorem isText_ascii (h : b.toNat < 128) : IsText [b] :=
  isText_iff.2 ⟨[Char.ofNat b.toNat], by rw [List.flatMap_singleton, encodeChar_ofNat h]⟩

theorem IsText.cons (hb : b.toNat < 128) (h : IsText bytes) : IsText (b :: bytes) :=
  (isText_ascii hb).append h

/-- An ASCII byte at the end of a text is a character of its own. -/
theorem IsText.of_concat (hb : b.toNat < 128) (h : IsText (bytes ++ [b])) : IsText bytes := by
  obtain ⟨cs, hcs⟩ := isText_iff.1 h
  cases cs using List.reverseRecOn with
  | nil => simp at hcs
  | append_singleton cs c =>
    rw [List.flatMap_append, List.flatMap_singleton] at hcs
    have hlast : b ∈ String.utf8EncodeChar c := by
      have hl := congrArg List.getLast? hcs
      rw [List.getLast?_append_of_ne_nil _ String.utf8EncodeChar_ne_nil, List.getLast?_concat] at hl
      exact List.mem_of_getLast? hl
    rw [(encodeChar_of_mem hb hlast).1] at hcs
    exact isText_iff.2 ⟨cs, List.append_cancel_right hcs⟩

/-- Dropping an ASCII byte from the end, as often as it stands there, leaves a text. -/
theorem IsText.dropEnd (hb : b.toNat < 128) (h : IsText bytes) :
    IsText (bytes.reverse.dropWhile (· == b)).reverse := by
  induction bytes using List.reverseRecOn with
  | nil => exact h
  | append_singleton bytes a ih =>
    rw [List.reverse_append, List.reverse_singleton, List.singleton_append]
    by_cases ha : a = b
    · subst ha
      rw [List.dropWhile_cons_of_pos (by simp)]
      exact ih (h.of_concat hb)
    · rw [List.dropWhile_cons_of_neg (by simpa using ha), List.reverse_cons, List.reverse_reverse]
      exact h

theorem decode_of_isText (h : IsText bytes) : ∃ s, decode bytes = .ok s ∧ encode s = bytes := by
  obtain ⟨s, rfl⟩ := h
  exact ⟨s, decode_encode s, rfl⟩

theorem encode_of_decode (h : decode bytes = .ok s) : encode s = bytes := by
  rw [decode, String.fromUTF8?] at h
  by_cases hvalid : bytes.toByteArray.IsValidUTF8
  · rw [dif_pos hvalid] at h
    cases h
    exact List.toByteArray_inj.1 (toByteArray_encode _)
  · rw [dif_neg hvalid] at h
    cases h

end TimeMerge.Utf8

namespace TimeMerge

section Ends

variable {β : Type} {p : β → Bool} {l : List β} {b : β}

theorem not_of_mem_head?_dropWhile (h : b ∈ (l.dropWhile p).head?) : p b = false := by
  have hhead := List.head?_dropWhile_not p l
  rwa [h] at hhead

theorem not_of_mem_getLast?_rdropWhile (h : b ∈ (l.rdropWhile p).getLast?) : p b = false := by
  rw [List.rdropWhile, List.getLast?_reverse] at h
  exact not_of_mem_head?_dropWhile h

theorem dropWhile_eq_self (h : ∀ b ∈ l.head?, p b = false) : l.dropWhile p = l := by
  cases l with
  | nil => rfl
  | cons b l => rw [List.dropWhile_cons_of_neg (by simp [h b rfl])]

theorem rdropWhile_eq_self (h : ∀ b ∈ l.getLast?, p b = false) : l.rdropWhile p = l := by
  rw [List.rdropWhile, dropWhile_eq_self (by rwa [List.head?_reverse]), List.reverse_reverse]

/-- What is dropped from both ends stands around what is left. -/
theorem exists_around (p : β → Bool) (l : List β) : ∃ before after,
    l = before ++ (l.dropWhile p).rdropWhile p ++ after ∧ ∀ b ∈ before ++ after, p b = true := by
  refine ⟨l.takeWhile p, (l.dropWhile p).rtakeWhile p, ?_, ?_⟩
  · rw [List.append_assoc, List.rdropWhile_append_rtakeWhile, List.takeWhile_append_dropWhile]
  · intro b hb
    rcases List.mem_append.1 hb with hb | hb
    · exact List.mem_takeWhile_imp hb
    · exact List.mem_rtakeWhile_imp hb

end Ends

section Spelled

variable {β γ : Type} {f : β → List γ} {p : γ → Bool} {q : β → Bool}

/-- What is dropped from the front of a spelling are the spellings of what is dropped from the front. -/
theorem dropWhile_flatMap (hne : ∀ x, f x ≠ []) (h : ∀ x, ∀ y ∈ f x, p y = q x) (xs : List β) :
    (xs.flatMap f).dropWhile p = (xs.dropWhile q).flatMap f := by
  induction xs with
  | nil => rfl
  | cons x xs ih =>
    rw [List.flatMap_cons]
    by_cases hx : q x
    · rw [List.dropWhile_append_of_pos fun y hy => (h x y hy).trans hx, ih,
        List.dropWhile_cons_of_pos hx]
    · obtain ⟨y, ys, hys⟩ := List.exists_cons_of_ne_nil (hne x)
      have hy : ¬p y := by rwa [h x y (hys ▸ List.mem_cons_self)]
      rw [List.dropWhile_cons_of_neg hx, List.flatMap_cons, hys, List.cons_append,
        List.dropWhile_cons_of_neg hy]

theorem rdropWhile_flatMap (hne : ∀ x, f x ≠ []) (h : ∀ x, ∀ y ∈ f x, p y = q x) (xs : List β) :
    (xs.flatMap f).rdropWhile p = (xs.rdropWhile q).flatMap f := by
  have hne' : ∀ x, (List.reverse ∘ f) x ≠ [] := fun x he => hne x (List.reverse_eq_nil_iff.1 he)
  have h' : ∀ x, ∀ y ∈ (List.reverse ∘ f) x, p y = q x :=
    fun x y hy => h x y (List.mem_reverse.1 hy)
  rw [List.rdropWhile, List.reverse_flatMap, dropWhile_flatMap hne' h', List.rdropWhile,
    List.flatMap_reverse]

theorem splitOn_append_of_not_mem [DecidableEq γ] {y : γ} {ys : List γ} (h : y ∉ ys) (zs : List γ) :
    (ys ++ zs).splitOn y = (zs.splitOn y).modifyHead (ys ++ ·) := by
  induction ys with
  | nil => exact (congrFun List.modifyHead_id _).symm
  | cons y' ys ih =>
    obtain ⟨hy, hys⟩ := not_or.1 fun hm => h (List.mem_cons.2 hm)
    rw [List.cons_append, List.splitOn_cons_eq_if_modifyHead, if_neg (by simpa using Ne.symm hy),
      ih hys, List.modifyHead_modifyHead]
    rfl

/-- A spelling is split at a mark as what it spells is at the letter of that mark. -/
theorem splitOn_flatMap [DecidableEq β] [DecidableEq γ] {x : β} {y : γ} (hx : f x = [y])
    (h : ∀ x' ≠ x, y ∉ f x') (xs : List β) :
    (xs.flatMap f).splitOn y = (xs.splitOn x).map (·.flatMap f) := by
  induction xs with
  | nil => rfl
  | cons x' xs ih =>
    rw [List.flatMap_cons, List.splitOn_cons_eq_if_modifyHead]
    by_cases hx' : x' = x
    · rw [hx', hx, List.singleton_append, List.splitOn_cons_eq_if_modifyHead, if_pos (by simp),
        if_pos (by simp), ih]
      rfl
    · rw [splitOn_append_of_not_mem (h x' hx'), if_neg (by simpa using hx'), ih]
      cases xs.splitOn x with
      | nil => rfl
      | cons piece pieces => rfl

end Spelled

namespace Text

/-- No blanks at either end. -/
structure Trimmed (s : String) : Prop where
  start : ∀ c ∈ s.toList.head?, isBlank c = false
  finish : ∀ c ∈ s.toList.getLast?, isBlank c = false

variable {s : String}

theorem trim_eq (s : String) : trim s = String.ofList ((s.toList.dropWhile isBlank).rdropWhile isBlank) :=
  rfl

theorem trimmed_trim (s : String) : Trimmed (trim s) := by
  rw [trim_eq]
  constructor
  · intro c hc
    rw [String.toList_ofList] at hc
    obtain ⟨rest, hrest⟩ := List.rdropWhile_prefix isBlank (s.toList.dropWhile isBlank)
    have hhead : c ∈ (s.toList.dropWhile isBlank).head? := by
      rw [← hrest, List.head?_append, hc]
      rfl
    exact not_of_mem_head?_dropWhile hhead
  · intro c hc
    rw [String.toList_ofList] at hc
    exact not_of_mem_getLast?_rdropWhile hc

theorem Trimmed.trim_eq (h : Trimmed s) : trim s = s := by
  rw [Text.trim_eq, dropWhile_eq_self h.start, rdropWhile_eq_self h.finish, String.ofList_toList]

/-- Trimming takes off nothing but blanks. -/
theorem exists_trim (s : String) : ∃ before after, s.toList = before ++ (trim s).toList ++ after ∧
    ∀ c ∈ before ++ after, isBlank c = true := by
  rw [trim_eq, String.toList_ofList]
  exact exists_around isBlank s.toList

/-- It takes off all blanks around a text that has none at its ends. -/
theorem Trimmed.trim_of_append {u : String} (h : Trimmed u) (hu : u.toList ≠ [])
    {before after : List Char} (hs : s.toList = before ++ u.toList ++ after)
    (hblank : ∀ c ∈ before ++ after, isBlank c = true) : trim s = u := by
  have hbefore : ∀ c ∈ before, isBlank c = true := fun c hc => hblank c (List.mem_append_left _ hc)
  have hafter : ∀ c ∈ after.reverse, isBlank c = true :=
    fun c hc => hblank c (List.mem_append_right _ (List.mem_reverse.1 hc))
  have hstart : s.toList.dropWhile isBlank = u.toList ++ after := by
    rw [hs, List.append_assoc, List.dropWhile_append_of_pos hbefore]
    refine dropWhile_eq_self fun c hc => h.start c ?_
    rwa [List.head?_append_of_ne_nil _ hu] at hc
  have hfinish : (u.toList ++ after).rdropWhile isBlank = u.toList := by
    rw [List.rdropWhile, List.reverse_append, List.dropWhile_append_of_pos hafter]
    exact rdropWhile_eq_self h.finish
  rw [Text.trim_eq, hstart, hfinish, String.ofList_toList]

/-- A text without some of the blanks around it is trimmed to the same. -/
theorem trim_of_around {s t : String} {before after : List Char}
    (hs : s.toList = before ++ t.toList ++ after)
    (hblank : ∀ c ∈ before ++ after, isBlank c = true) : trim s = trim t := by
  obtain ⟨before', after', ht, hblank'⟩ := exists_trim t
  have hs' : s.toList = (before ++ before') ++ (trim t).toList ++ (after' ++ after) := by
    rw [hs, ht]
    simp only [List.append_assoc]
  have hblanks : ∀ c ∈ (before ++ before') ++ (after' ++ after), isBlank c = true := by
    intro c hc
    simp only [List.mem_append] at hblank hblank' hc
    rcases hc with (hc | hc) | hc | hc
    · exact hblank c (.inl hc)
    · exact hblank' c (.inl hc)
    · exact hblank' c (.inr hc)
    · exact hblank c (.inr hc)
  by_cases hne : (trim t).toList = []
  · -- nothing but blanks is left of either text
    have hnil : s.toList.dropWhile isBlank = [] := by
      rw [hs', hne, List.append_nil]
      exact List.dropWhile_eq_nil_iff.2 hblanks
    rw [trim_eq s, hnil, List.rdropWhile_nil, ← hne, String.ofList_toList]
  · exact (trimmed_trim t).trim_of_append hne hs' hblanks

end Text

end TimeMerge
