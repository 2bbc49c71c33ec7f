import TimeMerge.Proofs.Legible
import TimeMerge.Proofs.Spelling

/-!
# Printed values

What is printed for a value is read as that value again, by whoever reads from there and whatever
follows it, as long as its numbers are integers and the text after a number cannot be taken for more
of it. -/
namespace TimeMerge.Json

def printed (j : Json) : Bytes := (print j).flatMap String.utf8EncodeChar

theorem encode_compact (j : Json) : Utf8.encode j.compact = printed j := Utf8.encode_ofList _

/-- The bytes of a member: its key, and its value behind a colon. -/
def printedMember (m : String × Json) : Bytes :=
  Ascii.doubleQuote :: (escaped m.1 ++ Ascii.doubleQuote :: Ascii.colon :: printed m.2)

theorem encode_printItems (j : Json) (js : List Json) :
    (printItems (j :: js)).flatMap String.utf8EncodeChar =
      printed j ++ js.flatMap fun j => Ascii.comma :: printed j := by
  induction js generalizing j with
  | nil => exact (List.append_nil _).symm
  | cons j' js ih =>
    rw [printItems, List.flatMap_append, List.flatMap_cons, ih, List.flatMap_cons]
    · rfl
    · exact List.cons_ne_nil _ _

theorem encode_printMembers (m : String × Json) (ms : List (String × Json)) :
    (printMembers (m :: ms)).flatMap String.utf8EncodeChar =
      printedMember m ++ ms.flatMap fun m => Ascii.comma :: printedMember m := by
  have hmember : ∀ m : String × Json,
      (printString m.1 ++ ':' :: print m.2).flatMap String.utf8EncodeChar = printedMember m := by
    intro m
    rw [List.flatMap_append, encode_printString, List.flatMap_cons, printedMember]
    simp [printed, String.utf8EncodeChar]
  induction ms generalizing m with
  | nil =>
    rw [List.flatMap_nil, List.append_nil]
    exact hmember m
  | cons m' ms ih =>
    obtain ⟨key, j⟩ := m
    rw [printMembers, List.flatMap_append, hmember (key, j), List.flatMap_cons, ih,
      List.flatMap_cons]
    · rfl
    · exact List.cons_ne_nil _ _

variable {b : UInt8} {s : Bytes} {first : Bool} {depth : Nat} {j : Json} {js : List Json}
  {ms : List (String × Json)}

theorem skipGap_cons (h : Visible b) (rest : Bytes) : skipGap (b :: rest) = b :: rest := by
  rw [skipGap, List.dropWhile_cons_of_neg (by simp [isGap_of_visible h])]

theorem nextItem_closed (first : Bool) (rest : Bytes) :
    nextItem first (Ascii.closeBracket :: rest) = .ok (.closed rest) := by
  rw [nextItem, skipGap_cons (by decide)]
  rfl

theorem nextItem_first (hb : Visible b) (hclose : b ≠ Ascii.closeBracket) (rest : Bytes) :
    nextItem true (b :: rest) = .ok (.element (b :: rest)) := by
  rw [nextItem, skipGap_cons hb]
  dsimp only
  rw [if_neg hclose, if_pos rfl]

theorem nextItem_comma (hb : Visible b) (hclose : b ≠ Ascii.closeBracket) (rest : Bytes) :
    nextItem false (Ascii.comma :: b :: rest) = .ok (.element (b :: rest)) := by
  rw [nextItem, skipGap_cons (by decide)]
  dsimp only
  rw [if_neg (by decide), if_neg Bool.false_ne_true, if_pos rfl, skipGap_cons hb]
  dsimp only
  rw [if_neg hclose]

theorem nextMember_closed (first : Bool) (rest : Bytes) :
    nextMember first (Ascii.closeBrace :: rest) = .ok (.closed rest) := by
  rw [nextMember, skipGap_cons (by decide)]
  rfl

theorem nextMember_first (rest : Bytes) :
    nextMember true (Ascii.doubleQuote :: rest) = .ok (.element rest) := by
  rw [nextMember, skipGap_cons (by decide)]
  rfl

theorem nextMember_comma (rest : Bytes) :
    nextMember false (Ascii.comma :: Ascii.doubleQuote :: rest) = .ok (.element rest) := by
  rw [nextMember, skipGap_cons (by decide)]
  dsimp only
  rw [if_neg (by decide), if_neg Bool.false_ne_true, if_pos rfl, skipGap_cons (by decide)]
  rfl

theorem ends_cons (h : Ascii.isDigit b = false ∧ b ≠ Ascii.point ∧ b ≠ Ascii.lowerE ∧
    b ≠ Ascii.upperE) (rest : Bytes) : Ends (b :: rest) := by
  intro b' hb'
  cases hb'
  exact h

/-- The text of a value starts where an item may, and is read back. -/
structure ReadBack (depth : Nat) (j : Json) : Prop where
  opens : ∃ b r, printed j = b :: r ∧ Visible b ∧ b ≠ Ascii.closeBracket
  reads : ∀ rest, Ends rest → readValue depth (printed j ++ rest) = .ok (j, rest)

/-- What follows an item or a member ends a number. -/
theorem ends_following {β : Type} (text : β → Bytes) (xs : List β) {close : UInt8}
    (h : close = Ascii.closeBracket ∨ close = Ascii.closeBrace) (rest : Bytes) :
    Ends ((xs.flatMap fun x => Ascii.comma :: text x) ++ close :: rest) := by
  cases xs with
  | nil => rcases h with rfl | rfl <;> exact ends_cons (by decide) rest
  | cons x xs => exact ends_cons (by decide) _

theorem readItems_following (h : ∀ j ∈ js, ReadBack depth j) (rest : Bytes) :
    readItems depth false ((js.flatMap fun j => Ascii.comma :: printed j) ++
      Ascii.closeBracket :: rest) = .ok (js, rest) := by
  induction js with
  | nil =>
    rw [List.flatMap_nil, List.nil_append, readItems_eq, nextItem_closed]
  | cons j js ih =>
    obtain ⟨hj, hjs⟩ := List.forall_mem_cons.1 h
    have hread := hj.reads _ (ends_following printed js (.inl rfl) rest)
    obtain ⟨b, r, hb, hvisible, hclose⟩ := hj.opens
    rw [hb, List.cons_append] at hread
    rw [List.flatMap_cons, List.append_assoc, List.cons_append, hb, List.cons_append, readItems_eq,
      nextItem_comma hvisible hclose]
    dsimp only
    rw [hread]
    dsimp only
    rw [ih hjs]
    rfl

theorem readItems_printed (h : ∀ j ∈ js, ReadBack depth j) (rest : Bytes) :
    readItems depth true ((printItems js).flatMap String.utf8EncodeChar ++
      Ascii.closeBracket :: rest) = .ok (js, rest) := by
  cases js with
  | nil => rw [printItems, List.flatMap_nil, List.nil_append, readItems_eq, nextItem_closed]
  | cons j js =>
    obtain ⟨hj, hjs⟩ := List.forall_mem_cons.1 h
    have hread := hj.reads _ (ends_following printed js (.inl rfl) rest)
    obtain ⟨b, r, hb, hvisible, hclose⟩ := hj.opens
    rw [hb, List.cons_append] at hread
    rw [encode_printItems, List.append_assoc, hb, List.cons_append, readItems_eq,
      nextItem_first hvisible hclose]
    dsimp only
    rw [hread]
    dsimp only
    rw [readItems_following hjs]
    rfl

theorem colon_colon (rest : Bytes) : colon (Ascii.colon :: rest) = .ok rest := by
  rw [colon, skipGap_cons (by decide)]
  rfl

theorem readMembers_following (h : ∀ m ∈ ms, ReadBack depth m.2) (rest : Bytes) :
    readMembers depth false ((ms.flatMap fun m => Ascii.comma :: printedMember m) ++
      Ascii.closeBrace :: rest) = .ok (ms, rest) := by
  induction ms with
  | nil => rw [List.flatMap_nil, List.nil_append, readMembers_eq, nextMember_closed]
  | cons m ms ih =>
    obtain ⟨hm, hms⟩ := List.forall_mem_cons.1 h
    have hread := hm.reads _ (ends_following printedMember ms (.inr rfl) rest)
    rw [List.flatMap_cons, printedMember, List.append_assoc, List.cons_append, List.cons_append,
      List.append_assoc, List.cons_append, List.cons_append, readMembers_eq, nextMember_comma]
    dsimp only
    rw [stringBody_escaped]
    dsimp only
    rw [colon_colon]
    dsimp only
    rw [hread]
    dsimp only
    rw [ih hms]
    rfl

theorem readMembers_printed (h : ∀ m ∈ ms, ReadBack depth m.2) (rest : Bytes) :
    readMembers depth true ((printMembers ms).flatMap String.utf8EncodeChar ++
      Ascii.closeBrace :: rest) = .ok (ms, rest) := by
  cases ms with
  | nil => rw [printMembers, List.flatMap_nil, List.nil_append, readMembers_eq, nextMember_closed]
  | cons m ms =>
    obtain ⟨hm, hms⟩ := List.forall_mem_cons.1 h
    have hread := hm.reads _ (ends_following printedMember ms (.inr rfl) rest)
    rw [encode_printMembers, printedMember, List.append_assoc, List.cons_append,
      List.append_assoc, List.cons_append, List.cons_append, readMembers_eq, nextMember_first]
    dsimp only
    rw [stringBody_escaped]
    dsimp only
    rw [colon_colon]
    dsimp only
    rw [hread]
    dsimp only
    rw [readMembers_following hms]
    rfl

theorem putMember_append {key : String} (h : ∀ m ∈ ms, m.1 < key) :
    putMember key j ms = ms ++ [(key, j)] := by
  induction ms with
  | nil => rfl
  | cons m ms ih =>
    obtain ⟨hm, hms⟩ := List.forall_mem_cons.1 h
    obtain ⟨k, v⟩ := m
    rw [putMember, if_neg (not_lt_of_gt hm), if_neg (ne_of_gt hm), ih hms]
    rfl

/-- Members in order make up the object that has just these. -/
theorem ofMembers_of_ascending (h : Ascending ms) : ofMembers ms = .object ms := by
  have hall : ∀ start : List (String × Json), Ascending (start ++ ms) →
      ms.foldl (fun acc m => putMember m.1 m.2 acc) start = start ++ ms := by
    induction ms with
    | nil => exact fun start _ => (List.append_nil start).symm
    | cons m ms ih =>
      intro start hstart
      have hrest : Ascending ms := (List.pairwise_cons.1 h).2
      have hlt : ∀ m' ∈ start, m'.1 < m.1 := by
        intro m' hm'
        rw [Ascending, List.map_append, List.pairwise_append] at hstart
        exact hstart.2.2 _ (List.mem_map_of_mem hm') _ List.mem_cons_self
      rw [List.foldl_cons, putMember_append hlt, ih hrest]
      · rw [List.append_assoc]
        rfl
      · rw [List.append_assoc]
        exact hstart
  rw [ofMembers, hall [] h]
  rfl

theorem readValue_scalar (hb : Visible b) (harray : b ≠ Ascii.openBracket)
    (hobject : b ≠ Ascii.openBrace) (depth : Nat) (rest : Bytes) :
    readValue depth (b :: rest) = scalar b rest := by
  rw [readValue_eq, skipGap_cons hb]
  dsimp only
  rw [if_neg harray, if_neg hobject]

theorem readBack_digits {n : Nat} (h : n ≤ Text.maxUnsigned)
    (hprinted : printed j = digits n) (hj : j = .number (.integer n)) : ReadBack depth j := by
  obtain ⟨b, r, hdigits, hdigit, hvisible⟩ := digits_eq_cons n
  have hne : ∀ c : UInt8, Ascii.isDigit c = false → b ≠ c := by
    rintro c hc rfl
    rw [hdigit] at hc
    cases hc
  refine ⟨⟨b, r, hprinted.trans hdigits, hvisible, hne _ rfl⟩, fun rest hr => ?_⟩
  have hnumeral := numeral_digits false h hr
  rw [hdigits, List.cons_append] at hnumeral
  rw [hprinted, hdigits, List.cons_append, readValue_scalar hvisible (hne _ rfl) (hne _ rfl),
    scalar, if_neg (hne _ rfl), if_neg (hne _ rfl), if_neg (hne _ rfl), if_neg (hne _ rfl),
    if_pos hdigit, hnumeral, hj]
  rfl

theorem readBack_number {n : Number} (h : n.Whole) : ReadBack depth (.number n) := by
  obtain ⟨hinteger, hfits⟩ := h
  cases n with
  | float bits => cases hinteger
  | integer i =>
    obtain ⟨hleast, hgreatest⟩ := hfits
    have hprinted : printed (.number (.integer i)) = _ := encode_print_integer i
    by_cases hi : 0 ≤ i
    · rw [if_pos hi] at hprinted
      exact readBack_digits (by omega) hprinted (by rw [Int.toNat_of_nonneg hi])
    · rw [if_neg hi] at hprinted
      refine ⟨⟨_, _, hprinted, by decide, by decide⟩, fun rest hr => ?_⟩
      have hfits : (-i).toNat ≤ Text.maxSigned + 1 := by omega
      have hmax : Text.maxSigned + 1 ≤ Text.maxUnsigned := by decide
      have hvalue : integerNumeral true (-i).toNat = .integer i := by
        rw [integerNumeral, if_pos rfl, if_pos ⟨by omega, hfits⟩]
        congr 1
        omega
      rw [hprinted, List.cons_append, readValue_scalar (by decide) (by decide) (by decide), scalar,
        if_neg (by decide), if_neg (by decide), if_neg (by decide), if_pos rfl,
        numeral_digits true (Nat.le_trans hfits hmax) hr, hvalue]
      rfl

theorem readValue_array (hread : readItems depth true s = .ok (js, rest)) :
    readValue (depth + 1) (Ascii.openBracket :: s) = .ok (.array js, rest) := by
  rw [readValue_eq, skipGap_cons (by decide)]
  dsimp only
  rw [if_pos rfl, if_neg (Nat.succ_ne_zero depth), Nat.add_sub_cancel, hread]
  rfl

theorem readValue_object (hread : readMembers depth true s = .ok (ms, rest)) (h : Ascending ms) :
    readValue (depth + 1) (Ascii.openBrace :: s) = .ok (.object ms, rest) := by
  rw [readValue_eq, skipGap_cons (by decide)]
  dsimp only
  rw [if_neg (by decide), if_pos rfl, if_neg (Nat.succ_ne_zero depth), Nat.add_sub_cancel, hread]
  exact congrArg (fun j => Except.ok (j, rest)) (ofMembers_of_ascending h)

theorem readBack_word {w : Bytes} (hprinted : printed j = b :: w) (hvisible : Visible b)
    (hb : b ≠ Ascii.closeBracket ∧ b ≠ Ascii.openBracket ∧ b ≠ Ascii.openBrace)
    (hscalar : ∀ rest, scalar b (w ++ rest) = .ok (j, rest)) : ReadBack depth j where
  opens := ⟨b, w, hprinted, hvisible, hb.1⟩
  reads rest _ := by
    rw [hprinted, List.cons_append, readValue_scalar hvisible hb.2.1 hb.2.2, hscalar]

/-- Legible values are read back. -/
theorem readBack (h : Legible Number.Whole depth j) : ReadBack depth j := by
  induction h with
  | null => exact readBack_word rfl (by decide) (by decide) fun rest => rfl
  | @bool _ b =>
    cases b with
    | true => exact readBack_word rfl (by decide) (by decide) fun rest => rfl
    | false => exact readBack_word rfl (by decide) (by decide) fun rest => rfl
  | number holds => exact readBack_number holds
  | @string _ s =>
    refine readBack_word (encode_printString s) (by decide) (by decide) fun rest => ?_
    have hbody := stringBody_escaped s rest
    rw [← List.singleton_append, ← List.append_assoc] at hbody
    exact congrArg (Except.map fun r => (Json.string r.1, r.2)) hbody
  | @array _ items inner ih =>
    have hprinted : printed (.array items) = Ascii.openBracket ::
        ((printItems items).flatMap String.utf8EncodeChar ++ [Ascii.closeBracket]) := by
      rw [printed, print, List.cons_append, List.flatMap_cons, List.flatMap_append]
      rfl
    refine ⟨⟨_, _, hprinted, by decide, by decide⟩, fun rest _ => ?_⟩
    rw [hprinted, List.cons_append, List.append_assoc]
    exact readValue_array (readItems_printed ih rest)
  | @object _ members ascending inner ih =>
    have hprinted : printed (.object members) = Ascii.openBrace ::
        ((printMembers members).flatMap String.utf8EncodeChar ++ [Ascii.closeBrace]) := by
      rw [printed, print, List.cons_append, List.flatMap_cons, List.flatMap_append]
      rfl
    refine ⟨⟨_, _, hprinted, by decide, by decide⟩, fun rest _ => ?_⟩
    rw [hprinted, List.cons_append, List.append_assoc]
    exact readValue_object (readMembers_printed ih rest) ascending

/-- A legible value is parsed from its compact text. -/
theorem parse_compact (h : Legible Number.Whole maxDepth j) :
    parse (Utf8.encode j.compact) = .ok j := by
  have hread := (readBack h).reads [] ends_nil
  rw [List.append_nil, readValue] at hread
  obtain ⟨⟨j', ⟨r, hr⟩⟩, hvalue, heq⟩ := map_ok hread
  simp only [Prod.mk.injEq] at heq
  obtain ⟨rfl, rfl⟩ := heq
  rw [parse, encode_compact, document, hvalue]
  rfl

end TimeMerge.Json
