import TimeMerge.Json.Numeral
import TimeMerge.Json.Printer
import TimeMerge.Proofs.Characters

/-!
# Integers and strings in JSON text

The digits of an integer are read back as long as what follows cannot be taken for more of a number,
and what is escaped in a string is resolved to the same characters. -/
namespace TimeMerge.Json

/-- The bytes of the digits of a number. -/
def digits (n : Nat) : Bytes := (Nat.toDigits 10 n).map fun c => UInt8.ofNat c.toNat

theorem range_of_isDigit {c : Char} (h : c.isDigit = true) : 48 ≤ c.toNat ∧ c.toNat ≤ 57 := by
  simp only [Char.isDigit, Bool.and_eq_true, decide_eq_true_eq] at h
  exact h

theorem isDigit_of_mem_digits {n : Nat} {b : UInt8} (h : b ∈ digits n) : Ascii.isDigit b = true := by
  obtain ⟨c, hc, rfl⟩ := List.mem_map.1 h
  have hrange := range_of_isDigit (Nat.isDigit_of_mem_toDigits (by decide) (by decide) hc)
  simp only [Ascii.isDigit, Bool.and_eq_true, decide_eq_true_eq, UInt8.le_iff_toNat_le,
    UInt8.toNat_ofNat']
  constructor
  · show 48 ≤ _
    omega
  · show _ ≤ 57
    omega

theorem encode_toDigits (n : Nat) :
    (Nat.toDigits 10 n).flatMap String.utf8EncodeChar = digits n := by
  have hone : ∀ c ∈ Nat.toDigits 10 n, String.utf8EncodeChar c = [UInt8.ofNat c.toNat] := by
    intro c hc
    have hrange := range_of_isDigit (Nat.isDigit_of_mem_toDigits (by decide) (by decide) hc)
    exact Utf8.encodeChar_of_ascii (by omega)
  rw [List.flatMap_congr hone, digits]
  exact List.flatMap_pure_eq_map ..

theorem encode_print_integer (n : Int) :
    (Number.print (.integer n)).flatMap String.utf8EncodeChar =
      if 0 ≤ n then digits n.toNat else Ascii.minus :: digits (-n).toNat := by
  rw [Number.print, Int.toString_eq_repr, Int.repr_eq_if]
  split
  · rw [← encode_toDigits, Nat.repr_eq_ofList_toDigits, String.toList_ofList]
  · rw [← encode_toDigits, Nat.repr_eq_ofList_toDigits, String.toList_append, String.toList_ofList,
      String.toList_ofList]
    rfl

/-- Only a single zero starts with one. -/
theorem head_toDigits {n : Nat} (h : 0 < n) :
    ∃ c cs, Nat.toDigits 10 n = c :: cs ∧ c ≠ '0' := by
  induction n using Nat.strong_induction_on with
  | _ n ih =>
    rw [Nat.toDigits_eq_if (by decide)]
    split
    · rename_i hlt
      have hchar : ∀ n < 10, 0 < n → n.digitChar ≠ '0' := by decide
      exact ⟨_, [], rfl, hchar n hlt h⟩
    · obtain ⟨c, cs, hdigits, hc⟩ := ih (n / 10) (by omega) (by omega)
      exact ⟨c, cs ++ [(n % 10).digitChar], by rw [hdigits]; rfl, hc⟩

/-- A byte that is a character one can see. -/
abbrev Visible (b : UInt8) : Prop := 32 < b.toNat ∧ b.toNat < 127

theorem isGap_of_visible {b : UInt8} (h : Visible b) : isGap b = false := by
  simp only [isGap, Bool.or_eq_false_iff, beq_eq_false_iff_ne]
  refine ⟨⟨⟨?_, ?_⟩, ?_⟩, ?_⟩ <;> (rintro rfl; exact absurd h (by decide))

theorem isBlank_of_visible {c : Char} (h : 32 < c.toNat ∧ c.toNat < 127) :
    Text.isBlank c = false := by
  simp only [Text.isBlank, Bool.or_eq_false_iff, Bool.and_eq_false_iff, decide_eq_false_iff_not,
    beq_eq_false_iff_ne]
  omega

/-- The first digit of a number. -/
theorem digits_eq_cons (n : Nat) :
    ∃ b r, digits n = b :: r ∧ Ascii.isDigit b = true ∧ Visible b := by
  obtain ⟨c, cs, hcs⟩ := List.exists_cons_of_ne_nil (Nat.toDigits_ne_nil (n := n) (b := 10))
  have hmem : c ∈ Nat.toDigits 10 n := hcs ▸ List.mem_cons_self
  have hrange := range_of_isDigit (Nat.isDigit_of_mem_toDigits (by decide) (by decide) hmem)
  have hbyte : UInt8.ofNat c.toNat ∈ digits n := List.mem_map_of_mem hmem
  refine ⟨_, _, by rw [digits, hcs]; rfl, isDigit_of_mem_digits hbyte, ?_⟩
  rw [Visible, UInt8.toNat_ofNat']
  omega

/-- What may follow a number without being taken for more of it. -/
def Ends (rest : Bytes) : Prop :=
  ∀ b ∈ rest.head?, Ascii.isDigit b = false ∧ b ≠ Ascii.point ∧ b ≠ Ascii.lowerE ∧ b ≠ Ascii.upperE

variable {rest : Bytes}

theorem ends_nil : Ends [] := by
  intro b hb
  cases hb

theorem takeWhile_digits (n : Nat) (hr : Ends rest) :
    (digits n ++ rest).takeWhile Ascii.isDigit = digits n := by
  rw [List.takeWhile_append_of_pos fun b hb => isDigit_of_mem_digits hb]
  cases rest with
  | nil => simp
  | cons b rest => simp [(hr b rfl).1]

theorem afterDigits_digits (n : Nat) (hr : Ends rest) : afterDigits (digits n ++ rest) = rest := by
  rw [afterDigits, List.dropWhile_append_of_pos fun b hb => isDigit_of_mem_digits hb]
  exact dropWhile_eq_self fun b hb => (hr b hb).1

/-- All digits are gathered if the number they make is within the limit. -/
theorem gather_eq {limit value : Nat} {ds : List Nat}
    (h : ds.foldl (fun v d => v * 10 + d) value ≤ limit) :
    gather limit value ds = (ds.foldl (fun v d => v * 10 + d) value, ds.length) := by
  induction ds generalizing value with
  | nil => rfl
  | cons d ds ih =>
    have hgrows : ∀ (ds : List Nat) (v : Nat), v ≤ ds.foldl (fun v d => v * 10 + d) v := by
      intro ds
      induction ds with
      | nil => exact fun v => Nat.le_refl v
      | cons d ds ih =>
        intro v
        have hone : v ≤ v * 10 + d := by omega
        exact Nat.le_trans hone (ih _)
    rw [gather, if_pos (Nat.le_trans (hgrows ds _) h), ih h]
    rfl

theorem gather_digits {n limit : Nat} (h : n ≤ limit) (hr : Ends rest) :
    gather limit 0 (digitsOf (digits n ++ rest)) = (n, (digitsOf (digits n ++ rest)).length) := by
  have hvalue : (digitsOf (digits n ++ rest)).foldl (fun v d => v * 10 + d) 0 = n := by
    rw [digitsOf, takeWhile_digits n hr, digits, List.map_map, List.foldl_map]
    have hstep : ∀ c ∈ Nat.toDigits 10 n, ∀ v : Nat,
        v * 10 + ((UInt8.ofNat c.toNat).toNat - 48) = 10 * v + (c.toNat - '0'.toNat) := by
      intro c hc v
      have hrange := range_of_isDigit (Nat.isDigit_of_mem_toDigits (by decide) (by decide) hc)
      have hzero : '0'.toNat = 48 := rfl
      rw [UInt8.toNat_ofNat', hzero]
      omega
    have hten := Nat.ofDigitChars_ten_toDigits (n := n)
    rw [Nat.ofDigitChars] at hten
    rw [← hten]
    conv => lhs; rw [hten]
    exact List.foldl_ext _ _ _ fun v c hc => hstep c hc v
  have hfits : (digitsOf (digits n ++ rest)).foldl (fun v d => v * 10 + d) 0 ≤ limit :=
    hvalue.symm ▸ h
  rw [gather_eq hfits, hvalue]

theorem afterWhole_of_ends (negative : Bool) (m : Nat) (hr : Ends rest) :
    afterWhole negative m 0 rest = .ok (integerNumeral negative m, rest) := by
  unfold afterWhole
  cases rest with
  | nil => rfl
  | cons b rest =>
    obtain ⟨_, hpoint, hlower, hupper⟩ := hr b rfl
    dsimp only
    rw [if_neg hpoint, if_neg (not_or.2 ⟨hlower, hupper⟩), if_pos rfl]

theorem numeral_digits (negative : Bool) {n : Nat} (h : n ≤ Text.maxUnsigned) (hr : Ends rest) :
    numeral negative (digits n ++ rest) = .ok (integerNumeral negative n, rest) := by
  rcases Nat.eq_zero_or_pos n with rfl | hpos
  · have hzero : digits 0 = [Ascii.zero] := rfl
    rw [hzero, List.singleton_append]
    unfold numeral
    dsimp only
    rw [if_pos rfl]
    cases rest with
    | nil => exact afterWhole_of_ends negative 0 hr
    | cons b rest =>
      dsimp only
      rw [if_neg (by simp [(hr b rfl).1])]
      exact afterWhole_of_ends negative 0 hr
  · obtain ⟨c, cs, hcs, hc⟩ := head_toDigits hpos
    have hgather := gather_digits h hr
    have hafter := afterDigits_digits n hr
    have hfirst : UInt8.ofNat c.toNat ∈ digits n := by
      rw [digits, hcs]
      exact List.mem_cons_self
    have hcons : digits n ++ rest =
        UInt8.ofNat c.toNat :: (cs.map (fun c => UInt8.ofNat c.toNat) ++ rest) := by
      rw [digits, hcs]
      rfl
    have hdigit := isDigit_of_mem_digits hfirst
    have hzero : UInt8.ofNat c.toNat ≠ Ascii.zero := by
      intro he
      have hrange := range_of_isDigit (Nat.isDigit_of_mem_toDigits (by decide) (by decide)
        (hcs ▸ List.mem_cons_self : c ∈ Nat.toDigits 10 n))
      have hn := congrArg UInt8.toNat he
      rw [UInt8.toNat_ofNat', Nat.mod_eq_of_lt (by omega)] at hn
      rw [← Char.ofNat_toNat c, hn] at hc
      exact hc rfl
    rw [hcons] at hgather hafter ⊢
    unfold numeral
    dsimp only
    rw [if_neg hzero, if_pos hdigit, hgather]
    rw [afterDigits, List.dropWhile_cons_of_pos hdigit] at hafter
    dsimp only
    rw [Nat.sub_self, afterDigits, hafter]
    exact afterWhole_of_ends negative n hr

theorem stringContent_of_plain {b : UInt8} (hquote : b ≠ Ascii.doubleQuote)
    (hescape : b ≠ Ascii.backslash) (hcontrol : ¬b < 0x20) (rest : Bytes) :
    stringContent (b :: rest) = (stringContent rest).map fun x => (b :: x.1, x.2) := by
  rw [stringContent, if_neg hquote, if_neg hescape, if_neg hcontrol]
  rcases stringContent rest with e | ⟨content, rest⟩ <;> rfl

theorem stringContent_of_escape {c : Char} {r rest : Bytes} (h : escape r = .ok (c, rest)) :
    stringContent (Ascii.backslash :: r) =
      (stringContent rest).map fun x => (String.utf8EncodeChar c ++ x.1, x.2) := by
  rw [stringContent, if_neg (by decide), if_pos rfl]
  split
  · rename_i he
    rw [h] at he
    cases he
  · rename_i he
    rw [h] at he
    cases he
    rcases stringContent rest with e | ⟨content, rest⟩ <;> rfl

/-- Bytes that a string may hold as they are. -/
theorem stringContent_append {bytes : Bytes} (h : ∀ b ∈ bytes, b ≠ Ascii.doubleQuote ∧
    b ≠ Ascii.backslash ∧ ¬b < 0x20) (rest : Bytes) :
    stringContent (bytes ++ rest) = (stringContent rest).map fun x => (bytes ++ x.1, x.2) := by
  induction bytes with
  | nil => rcases hc : stringContent rest with e | ⟨content, rest⟩ <;> simp [hc, Except.map]
  | cons b bytes ih =>
    obtain ⟨⟨hquote, hescape, hcontrol⟩, hbytes⟩ := List.forall_mem_cons.1 h
    rw [List.cons_append, stringContent_of_plain hquote hescape hcontrol, ih hbytes]
    rcases stringContent rest with e | ⟨content, rest⟩ <;> rfl

theorem hexUnit_control {n : Nat} (h : n < 0x20) (rest : Bytes) :
    hexUnit (Ascii.zero :: Ascii.zero :: UInt8.ofNat (Nat.digitChar (n / 16)).toNat ::
      UInt8.ofNat (Nat.digitChar (n % 16)).toNat :: rest) = .ok (n, rest) := by
  have hdigit : ∀ d < 16, hexDigit? (UInt8.ofNat d.digitChar.toNat) = some d := by decide
  have hzero : hexDigit? Ascii.zero = some 0 := by decide
  simp only [hexUnit, hzero, hdigit _ (by omega : n / 16 < 16),
    hdigit _ (by omega : n % 16 < 16), Except.ok.injEq, Prod.mk.injEq, and_true]
  omega

/-- A character that a string may hold as it is. -/
theorem stringContent_of_char {c : Char} (hquote : c ≠ '"') (hescape : c ≠ '\\')
    (hcontrol : ¬c.toNat < 0x20) (rest : Bytes) :
    stringContent (String.utf8EncodeChar c ++ rest) =
      (stringContent rest).map fun x => (String.utf8EncodeChar c ++ x.1, x.2) := by
  refine stringContent_append (fun b hb => ?_) rest
  by_cases hb' : b.toNat < 128
  · obtain ⟨_, hn⟩ := Utf8.encodeChar_of_mem hb' hb
    refine ⟨?_, ?_, ?_⟩
    · rintro rfl
      exact hquote (Char.ofNat_toNat c ▸ hn ▸ rfl)
    · rintro rfl
      exact hescape (Char.ofNat_toNat c ▸ hn ▸ rfl)
    · rw [UInt8.lt_iff_toNat_lt, ← hn]
      exact hcontrol
  · refine ⟨?_, ?_, ?_⟩
    · rintro rfl
      exact hb' (by decide)
    · rintro rfl
      exact hb' (by decide)
    · intro hlt
      exact hb' (Nat.lt_trans (UInt8.lt_iff_toNat_lt.1 hlt) (by decide))

theorem stringContent_escapeChar (c : Char) (rest : Bytes) :
    stringContent ((escapeChar c).flatMap String.utf8EncodeChar ++ rest) =
      (stringContent rest).map fun x => (String.utf8EncodeChar c ++ x.1, x.2) := by
  unfold escapeChar
  split
  · exact stringContent_of_escape rfl
  · exact stringContent_of_escape rfl
  · exact stringContent_of_escape rfl
  · exact stringContent_of_escape rfl
  · exact stringContent_of_escape rfl
  · exact stringContent_of_escape rfl
  · exact stringContent_of_escape rfl
  · rename_i hquote hescape _ _ _ _ _
    split
    · rename_i hcontrol
      have hascii : ∀ d < 16, d.digitChar.toNat < 128 := by decide
      have hhigh := Utf8.encodeChar_of_ascii (hascii (c.toNat / 16) (by omega))
      have hlow := Utf8.encodeChar_of_ascii (hascii (c.toNat % 16) (by omega))
      have hescaped : ∀ r : Bytes, hexUnit r = .ok (c.toNat, rest) →
          escape (Ascii.lowerU :: r) = .ok (c, rest) := by
        intro r hunit
        rw [escape, if_pos rfl, unicodeEscape, hunit]
        dsimp only
        rw [if_neg (by omega), if_neg (by omega), Char.ofNat_toNat]
      simp only [List.flatMap_cons, List.flatMap_nil, hhigh, hlow]
      exact stringContent_of_escape (hescaped _ (hexUnit_control hcontrol rest))
    · rename_i hcontrol
      rw [List.flatMap_singleton]
      exact stringContent_of_char hquote hescape hcontrol rest

/-- The bytes of a string behind its opening quote, up to the closing one. -/
def escaped (s : String) : Bytes := (s.toList.flatMap escapeChar).flatMap String.utf8EncodeChar

theorem stringContent_escaped (s : String) (rest : Bytes) :
    stringContent (escaped s ++ Ascii.doubleQuote :: rest) = .ok (Utf8.encode s, rest) := by
  have hall : ∀ cs : List Char,
      stringContent ((cs.flatMap escapeChar).flatMap String.utf8EncodeChar ++
        Ascii.doubleQuote :: rest) = .ok (cs.flatMap String.utf8EncodeChar, rest) := by
    intro cs
    induction cs with
    | nil =>
      rw [List.flatMap_nil, List.flatMap_nil, List.nil_append, stringContent, if_pos rfl]
    | cons c cs ih =>
      rw [List.flatMap_cons, List.flatMap_append, List.append_assoc, stringContent_escapeChar, ih]
      rfl
  exact hall s.toList

theorem stringBody_escaped (s : String) (rest : Bytes) :
    stringBody (escaped s ++ Ascii.doubleQuote :: rest) = .ok (s, rest) := by
  simp only [stringBody, stringContent_escaped, Utf8.decode_encode]

theorem encode_printString (s : String) : (printString s).flatMap String.utf8EncodeChar =
    Ascii.doubleQuote :: escaped s ++ [Ascii.doubleQuote] := by
  rw [printString, List.cons_append, List.flatMap_cons, List.flatMap_append]
  rfl

end TimeMerge.Json
