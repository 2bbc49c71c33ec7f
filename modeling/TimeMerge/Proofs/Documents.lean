import TimeMerge.JsonLines
import TimeMerge.Proofs.Printing

/-!
# Documents on lines

The compact text of a value has no line end in it and is not blank, so values that are each written on
a line of their own are read back line by line. -/
namespace TimeMerge

namespace Json

variable {j : Json} {depth : Nat} {c : Char}

theorem le_of_mem_literal {cs : List Char} (h : cs.all (0x20 ≤ ·.toNat)) (hc : c ∈ cs) :
    0x20 ≤ c.toNat :=
  of_decide_eq_true (List.all_eq_true.1 h c hc)

/-- Control characters are escaped in a string. -/
theorem le_of_mem_escapeChar {c' : Char} (h : c' ∈ escapeChar c) : 0x20 ≤ c'.toNat := by
  unfold escapeChar at h
  have hdigit : ∀ d < 16, 0x20 ≤ d.digitChar.toNat := by decide
  split at h
  iterate 7
    · exact le_of_mem_literal (by decide) h
  · split at h
    · simp only [List.mem_cons, List.not_mem_nil, or_false] at h
      rcases h with rfl | rfl | rfl | rfl | rfl | rfl
      iterate 4
        · decide
      · exact hdigit _ (by omega)
      · exact hdigit _ (by omega)
    · rename_i hcontrol
      rw [List.mem_singleton.1 h]
      exact Nat.le_of_not_lt hcontrol

theorem le_of_mem_printString {s : String} (h : c ∈ printString s) : 0x20 ≤ c.toNat := by
  rw [printString, List.cons_append, List.mem_cons, List.mem_append, List.mem_singleton] at h
  rcases h with rfl | h | rfl
  · decide
  · obtain ⟨c', _, hc⟩ := List.mem_flatMap.1 h
    exact le_of_mem_escapeChar hc
  · decide

theorem le_of_mem_printInteger {n : Int} (h : c ∈ (Number.integer n).print) : 0x20 ≤ c.toNat := by
  have hdigits : ∀ m : Nat, c ∈ Nat.toDigits 10 m → 0x20 ≤ c.toNat := by
    intro m hm
    have hrange := range_of_isDigit (Nat.isDigit_of_mem_toDigits (by decide) (by decide) hm)
    omega
  rw [Number.print, Int.toString_eq_repr, Int.repr_eq_if] at h
  split at h
  · rw [Nat.repr_eq_ofList_toDigits, String.toList_ofList] at h
    exact hdigits _ h
  · rw [Nat.repr_eq_ofList_toDigits, String.toList_append, String.toList_ofList,
      String.toList_ofList, List.singleton_append, List.mem_cons] at h
    rcases h with rfl | h
    · decide
    · exact hdigits _ h

theorem mem_printItems {js : List Json} (h : c ∈ printItems js) :
    c = ',' ∨ ∃ j ∈ js, c ∈ print j := by
  induction js with
  | nil => cases h
  | cons j js ih =>
    cases js with
    | nil => exact .inr ⟨j, List.mem_cons_self, h⟩
    | cons j' js =>
      rw [printItems, List.mem_append, List.mem_cons] at h
      · rcases h with h | rfl | h
        · exact .inr ⟨j, List.mem_cons_self, h⟩
        · exact .inl rfl
        · refine (ih h).imp_right fun hrest => ?_
          obtain ⟨i, hi, hc⟩ := hrest
          exact ⟨i, List.mem_cons_of_mem _ hi, hc⟩
      · exact List.cons_ne_nil _ _

theorem mem_printMembers {ms : List (String × Json)} (h : c ∈ printMembers ms) :
    c = ',' ∨ c = ':' ∨ ∃ m ∈ ms, c ∈ printString m.1 ∨ c ∈ print m.2 := by
  have hmember : ∀ m : String × Json, c ∈ printString m.1 ++ ':' :: print m.2 →
      c = ':' ∨ c ∈ printString m.1 ∨ c ∈ print m.2 := by
    intro m hm
    rw [List.mem_append, List.mem_cons] at hm
    exact or_left_comm.1 hm
  induction ms with
  | nil => cases h
  | cons m ms ih =>
    obtain ⟨key, j⟩ := m
    have hfirst : c ∈ printString key ++ ':' :: print j →
        c = ',' ∨ c = ':' ∨ ∃ m ∈ (key, j) :: ms, c ∈ printString m.1 ∨ c ∈ print m.2 :=
      fun hm => .inr ((hmember (key, j) hm).imp_right fun hc => ⟨_, List.mem_cons_self, hc⟩)
    cases ms with
    | nil => exact hfirst h
    | cons m' ms =>
      rw [printMembers, List.mem_append, List.mem_cons] at h
      · rcases h with h | rfl | h
        · exact hfirst h
        · exact .inl rfl
        · refine (ih h).imp_right (Or.imp_right fun hrest => ?_)
          obtain ⟨m, hm, hc⟩ := hrest
          exact ⟨m, List.mem_cons_of_mem _ hm, hc⟩
      · exact List.cons_ne_nil _ _

theorem le_of_mem_print (h : Legible Number.Whole depth j) (hc : c ∈ print j) :
    0x20 ≤ c.toNat := by
  induction h with
  | null => exact le_of_mem_literal (by decide) hc
  | @bool _ b =>
    cases b
    · exact le_of_mem_literal (by decide) hc
    · exact le_of_mem_literal (by decide) hc
  | @number _ n holds =>
    obtain ⟨hinteger, _⟩ := holds
    cases n with
    | float bits => cases hinteger
    | integer i => exact le_of_mem_printInteger hc
  | string => exact le_of_mem_printString hc
  | array inner ih =>
    rw [print, List.cons_append, List.mem_cons, List.mem_append, List.mem_singleton] at hc
    rcases hc with rfl | hc | rfl
    · decide
    · rcases mem_printItems hc with rfl | ⟨j, hj, hc⟩
      · decide
      · exact ih j hj hc
    · decide
  | object ascending inner ih =>
    rw [print, List.cons_append, List.mem_cons, List.mem_append, List.mem_singleton] at hc
    rcases hc with rfl | hc | rfl
    · decide
    · rcases mem_printMembers hc with rfl | rfl | ⟨m, hm, hc | hc⟩
      · decide
      · decide
      · exact le_of_mem_printString hc
      · exact ih m hm hc
    · decide

/-- The text of a value has no control characters. -/
theorem not_mem_encode_compact (h : Legible Number.Whole depth j) {b : UInt8}
    (hb : b.toNat < 0x20) : b ∉ Utf8.encode j.compact := by
  intro hm
  rw [compact, Utf8.encode_ofList, List.mem_flatMap] at hm
  obtain ⟨c, hc, hmem⟩ := hm
  have hn := (Utf8.encodeChar_of_mem (by omega) hmem).2
  have hle := le_of_mem_print h hc
  omega

theorem allBlank_compact (h : Legible Number.Whole depth j) :
    Text.allBlank j.compact = false := by
  obtain ⟨b, r, hb, hvisible, _⟩ := (readBack h).opens
  rw [← encode_compact] at hb
  obtain ⟨c, hc, hmem⟩ := Utf8.mem_head?_encode (hb ▸ rfl : b ∈ (Utf8.encode j.compact).head?)
  have hn := (Utf8.encodeChar_of_mem (by omega) hmem).2
  have hblank : Text.isBlank c = false := isBlank_of_visible (by omega)
  obtain ⟨cs, hcs⟩ := List.head?_eq_some_iff.1 hc
  rw [Text.allBlank, hcs, List.all_cons, hblank, Bool.false_and]

end Json

namespace JsonLines

theorem split_line {line : Bytes} (h : Ascii.lineFeed ∉ line) (rest : Bytes) :
    split (line ++ Ascii.lineFeed :: rest) = (line :: (split rest).1, (split rest).2) := by
  induction line with
  | nil => rfl
  | cons b line ih =>
    obtain ⟨hb, hline⟩ := not_or.1 fun hm => h (List.mem_cons.2 hm)
    have hsplit := ih hline
    unfold split at hsplit ⊢
    rw [List.cons_append, List.foldr_cons, hsplit]
    exact if_neg (Ne.symm hb)

/-- Lines that are each ended by a line feed are told apart, and nothing follows them. -/
theorem split_lines {lines : List Bytes} (h : ∀ line ∈ lines, Ascii.lineFeed ∉ line) :
    split (lines.flatMap fun line => line ++ [Ascii.lineFeed]) = (lines, []) := by
  induction lines with
  | nil => rfl
  | cons line lines ih =>
    obtain ⟨hline, hlines⟩ := List.forall_mem_cons.1 h
    rw [List.flatMap_cons, List.append_assoc, List.singleton_append, split_line hline, ih hlines]

variable {js : List Json}

theorem dropReturns_eq {line : Bytes} (h : Ascii.carriageReturn ∉ line) : dropReturns line = line := by
  refine rdropWhile_eq_self fun b hb => beq_eq_false_iff_ne.2 ?_
  rintro rfl
  exact h (List.mem_of_getLast? hb)

theorem readings_compact (h : ∀ j ∈ js, Json.Legible Json.Number.Whole Json.maxDepth j)
    (name : String) (count : Nat) :
    readings name count (js.map fun j => Utf8.encode j.compact) = js.map fun j => .ok (some j) := by
  induction js generalizing count with
  | nil => rfl
  | cons j js ih =>
    obtain ⟨hj, hjs⟩ := List.forall_mem_cons.1 h
    have hline : readLine name (count + 1) (Utf8.encode j.compact) = .ok (some j) := by
      rw [readLine, dropReturns_eq (Json.not_mem_encode_compact hj (by decide)),
        Json.parse_compact hj]
    rw [List.map_cons, readings, Utf8.decode_encode]
    dsimp only
    rw [Json.allBlank_compact hj, if_neg Bool.false_ne_true, hline, ih hjs, List.map_cons]

/-- What a text of values gives, each on a line of its own: the values, and then the end of the data. -/
theorem inlet_compact (h : ∀ j ∈ js, Json.Legible Json.Number.Whole Json.maxDepth j) (name : String)
    {contents : Contents} (hbytes : contents.bytes =
      js.flatMap fun j => Utf8.encode j.compact ++ [Ascii.lineFeed])
    (hends : contents.failure = none) :
    inlet name contents = { name, upcoming := js.map fun j => .ok (some j) } := by
  have hsplit : split contents.bytes = (js.map fun j => Utf8.encode j.compact, []) := by
    have hlines : ∀ line ∈ js.map fun j => Utf8.encode j.compact, Ascii.lineFeed ∉ line := by
      intro line hline
      obtain ⟨j, hj, rfl⟩ := List.mem_map.1 hline
      exact Json.not_mem_encode_compact (h j hj) (by decide)
    rw [hbytes, ← split_lines hlines, List.flatMap_map]
  rw [inlet, hsplit, hends]
  exact congrArg (Inlet.mk name · none) (readings_compact h name 0)

end JsonLines

end TimeMerge
