import Mathlib.Data.List.DropRight
import TimeMerge.Delimited.Document
import TimeMerge.Delimited.Reader
import TimeMerge.Proofs.Characters

/-!
# Rows on lines

What is written on the line of a row is text if its delimiter is an ASCII character, and reading it
gives the fields of the row again if the delimiter can be told from a quote and from a line end. -/
namespace TimeMerge.Delimited

variable {d : UInt8} {f rest : Bytes} {fs : List Bytes}

theorem doubleQuotes_append (f g : Bytes) : doubleQuotes (f ++ g) = doubleQuotes f ++ doubleQuotes g :=
  List.flatMap_append

theorem isText_doubleQuotes (s : String) : Utf8.IsText (doubleQuotes (Utf8.encode s)) := by
  rw [Utf8.encode]
  induction s.toList with
  | nil => exact Utf8.isText_nil
  | cons c cs ih =>
    rw [List.flatMap_cons, doubleQuotes_append]
    refine .append ?_ ih
    by_cases hc : Ascii.doubleQuote ∈ String.utf8EncodeChar c
    · rw [(Utf8.encodeChar_of_mem (by decide) hc).1]
      exact .cons (by decide) (Utf8.isText_ascii (by decide))
    · have hsame : doubleQuotes (String.utf8EncodeChar c) = String.utf8EncodeChar c := by
        have hone : ∀ b ∈ String.utf8EncodeChar c,
            (if b = Ascii.doubleQuote then [b, b] else [b]) = [b] := by
          intro b hb
          rw [if_neg]
          rintro rfl
          exact hc hb
        rw [doubleQuotes, List.flatMap_congr hone, List.flatMap_singleton']
      rw [hsame]
      exact Utf8.isText_iff.2 ⟨[c], List.flatMap_singleton ..⟩

theorem isText_writeField (s : String) : Utf8.IsText (writeField d (Utf8.encode s)) := by
  rw [writeField]
  split
  · exact (Utf8.IsText.cons (by decide) (isText_doubleQuotes s)).append (Utf8.isText_ascii (by decide))
  · exact Utf8.isText_encode s

theorem isText_writeFields (hd : d.toNat < 128) (ss : List String) :
    Utf8.IsText (writeFields d (ss.map Utf8.encode)) := by
  induction ss with
  | nil => exact Utf8.isText_nil
  | cons s ss ih =>
    cases ss with
    | nil => exact isText_writeField s
    | cons t ss => exact (isText_writeField s).append (ih.cons hd)

theorem isText_writeLine (hd : d.toNat < 128) (ss : List String) :
    Utf8.IsText (writeLine d (ss.map Utf8.encode)) := by
  rw [writeLine]
  refine Utf8.IsText.dropEnd (by decide) ?_
  split
  · exact .cons (by decide) (Utf8.isText_ascii (by decide))
  · exact isText_writeFields hd ss

/-- Every row with an ASCII delimiter can be written. -/
theorem Row.line?_of_ascii {row : Row} (hd : row.delimiter.toNat < 128) :
    ∃ s, row.line? = some s ∧
      Utf8.encode s = writeLine row.delimiter (row.fields.map Utf8.encode) := by
  obtain ⟨s, hs, he⟩ := Utf8.decode_of_isText (isText_writeLine hd row.fields)
  exact ⟨s, by simp only [Row.line?, hs], he⟩

/-- A delimiter that is neither a quote nor a line end. -/
structure Separates (d : UInt8) : Prop where
  quote : d ≠ Ascii.doubleQuote
  terminator : isTerminator d = false

theorem Separates.lineFeed_ne (hd : Separates d) : Ascii.lineFeed ≠ d := by
  rintro rfl
  exact Bool.noConfusion hd.terminator

def Tail.prepend (f : Bytes) (t : Tail) : Tail := { t with field := f ++ t.field }

theorem Tail.keep_prepend (b : UInt8) (f : Bytes) (t : Tail) :
    (t.prepend f).keep b = t.prepend (b :: f) := rfl

/-- Between quotes every byte belongs to the field, with quotes written twice. -/
theorem tail_doubleQuotes (f rest : Bytes) :
    tail d .quoted (doubleQuotes f ++ rest) = (tail d .quoted rest).prepend f := by
  induction f with
  | nil => rfl
  | cons b f ih =>
    rw [doubleQuotes, List.flatMap_cons, ← doubleQuotes, ← Tail.keep_prepend, ← ih]
    by_cases hb : b = Ascii.doubleQuote
    · subst hb
      simp only [if_true, List.cons_append, List.nil_append, tail]
    · simp only [if_neg hb, List.cons_append, List.nil_append, tail]

/-- Bytes that need no quotes are read as they are. -/
theorem tail_plain (h : ∀ b ∈ f, needsQuotes d b = false) (rest : Bytes) :
    tail d .plain (f ++ rest) = (tail d .plain rest).prepend f := by
  induction f with
  | nil => rfl
  | cons b f ih =>
    obtain ⟨hb, hf⟩ := List.forall_mem_cons.1 h
    simp only [needsQuotes, Bool.or_eq_false_iff, beq_eq_false_iff_ne] at hb
    rw [List.cons_append, tail, if_neg hb.1.1, if_neg (by simp [hb.2]), ih hf, Tail.keep_prepend]

/-- What follows a field: the delimiter or the end of the line. -/
def Follows (d c : UInt8) : Prop := c = d ∨ c = Ascii.lineFeed

/-- What follows a field ends it, however it was read. -/
theorem Follows.tail_eq {c : UInt8} (hd : Separates d) (hc : Follows d c) (rest : Bytes) :
    tail d .fresh (c :: rest) = tail d .plain (c :: rest) ∧
      tail d .quoteSeen (c :: rest) = tail d .plain (c :: rest) := by
  have hquote : c ≠ Ascii.doubleQuote := by
    rcases hc with rfl | rfl
    · exact hd.quote
    · decide
  simp only [tail, if_neg hquote, and_self]

theorem tail_writeField (hd : Separates d) {c : UInt8} (hc : Follows d c) (f rest : Bytes) :
    tail d .fresh (writeField d f ++ c :: rest) = (tail d .plain (c :: rest)).prepend f := by
  obtain ⟨hfresh, hseen⟩ := hc.tail_eq hd rest
  rw [writeField]
  split
  · rw [List.append_assoc, List.cons_append, List.singleton_append, tail, if_pos rfl,
      tail_doubleQuotes, tail, if_pos rfl, hseen]
  · rename_i hplain
    have hplain : ∀ b ∈ f, needsQuotes d b = false := by simpa using hplain
    cases f with
    | nil => exact hfresh
    | cons b f =>
      have hb := hplain b List.mem_cons_self
      simp only [needsQuotes, Bool.or_eq_false_iff, beq_eq_false_iff_ne] at hb
      have hrest := tail_plain (fun b hb => hplain b (List.mem_cons_of_mem _ hb)) (c :: rest)
      rw [List.cons_append, tail, if_neg hb.1.2, if_neg hb.1.1, if_neg (by simp [hb.2]), hrest,
        Tail.keep_prepend]

theorem tail_writeFields (hd : Separates d) (f : Bytes) (fs : List Bytes) (rest : Bytes) :
    tail d .fresh (writeFields d (f :: fs) ++ Ascii.lineFeed :: rest) = ⟨f, fs, rest, true⟩ := by
  induction fs generalizing f with
  | nil =>
    have hend : isTerminator Ascii.lineFeed = true := rfl
    rw [writeFields, tail_writeField hd (.inr rfl), tail, if_neg hd.lineFeed_ne, if_pos hend]
    simp [Tail.prepend]
  | cons g fs ih =>
    rw [writeFields, List.append_assoc, List.cons_append, tail_writeField hd (.inl rfl), tail,
      if_pos rfl, ih]
    · simp [Tail.prepend, Tail.next]
    · exact List.cons_ne_nil _ _

/-- Nothing that is taken for the end of the line stands at the end of the fields. -/
theorem getLast?_writeFields (hd : Separates d) (fs : List Bytes) :
    ∀ b ∈ (writeFields d fs).getLast?, (b == Ascii.lineFeed) = false := by
  induction fs with
  | nil => simp [writeFields]
  | cons f fs ih =>
    cases fs with
    | nil =>
      intro b hb
      rw [writeFields, writeField] at hb
      split at hb
      · rw [List.getLast?_append_cons, List.getLast?_singleton] at hb
        cases hb
        decide
      · rename_i hplain
        have hplain : ∀ b ∈ f, needsQuotes d b = false := by simpa using hplain
        have hmem := hplain b (List.mem_of_getLast? hb)
        simp only [needsQuotes, isTerminator, Bool.or_eq_false_iff] at hmem
        exact hmem.2.2
    | cons g fs =>
      intro b hb
      rw [writeFields, List.getLast?_append_cons, List.getLast?_cons] at hb
      · cases hlast : (writeFields d (g :: fs)).getLast? with
        | none =>
          rw [hlast] at hb
          cases hb
          simpa using hd.lineFeed_ne.symm
        | some c =>
          rw [hlast] at hb
          cases hb
          exact ih _ hlast
      · exact List.cons_ne_nil _ _

theorem writeLine_eq (hd : Separates d) (fs : List Bytes) : writeLine d fs =
    if writeFields d fs = [] then [Ascii.doubleQuote, Ascii.doubleQuote] else writeFields d fs := by
  have hsame : ∀ line : Bytes, (∀ b ∈ line.getLast?, (b == Ascii.lineFeed) = false) →
      (line.reverse.dropWhile (· == Ascii.lineFeed)).reverse = line :=
    fun _ => rdropWhile_eq_self
  simp only [writeLine, List.isEmpty_iff]
  split
  · rfl
  · exact hsame _ (getLast?_writeFields hd fs)

/-- A row that is written on a line is read from there, and nothing but it. -/
theorem record?_writeLine (hd : Separates d) (f : Bytes) (fs : List Bytes) (rest : Bytes) :
    record? d (writeLine d (f :: fs) ++ Ascii.lineFeed :: rest) = some ⟨f, fs, rest, true⟩ := by
  have hread := tail_writeFields hd f fs rest
  rw [writeLine_eq hd]
  split
  · rename_i hempty
    have hend : tail d .plain (Ascii.lineFeed :: rest) = ⟨[], [], rest, true⟩ := by
      simp [tail, hd.lineFeed_ne, isTerminator]
    obtain ⟨hfresh, hseen⟩ := Follows.tail_eq hd (.inr rfl) rest
    rw [hempty, List.nil_append, hfresh, hend] at hread
    rw [← hread, ← hend, ← hseen]
    rfl
  · rename_i hne
    obtain ⟨b, w, hw⟩ := List.exists_cons_of_ne_nil hne
    rw [hw, List.cons_append] at hread
    have hb : isTerminator b = false := by
      rw [← Bool.not_eq_true]
      intro hb
      have hquote : b ≠ Ascii.doubleQuote := by
        rintro rfl
        cases hb
      have hdelimiter : b ≠ d := by
        rintro rfl
        simp [hd.terminator] at hb
      rw [tail, if_neg hquote, if_neg hdelimiter, if_pos hb] at hread
      have hlen := congrArg (·.ahead.length) hread
      simp only [List.length_append, List.length_cons] at hlen
      omega
    rw [hw, List.cons_append, record?, List.dropWhile_cons_of_neg (by simp [hb]), ← hread]

/-- The lines of rows, one after the other. -/
def writeLines (d : UInt8) (rows : List (List Bytes)) : Bytes :=
  rows.flatMap fun fs => writeLine d fs ++ [Ascii.lineFeed]

theorem records_writeLines (hd : Separates d) {rows : List (List Bytes)} (hne : [] ∉ rows) :
    (records d (writeLines d rows)).map (·.fields) = rows := by
  induction rows with
  | nil =>
    rw [writeLines, List.flatMap_nil, records]
    rfl
  | cons fs rows ih =>
    have hrows : [] ∉ rows := fun hm => hne (List.mem_cons_of_mem _ hm)
    obtain ⟨f, fs, rfl⟩ := List.exists_cons_of_ne_nil fun he => hne (he ▸ List.mem_cons_self)
    have hfirst := record?_writeLine hd f fs (writeLines d rows)
    have hlines : writeLines d ((f :: fs) :: rows) =
        writeLine d (f :: fs) ++ Ascii.lineFeed :: writeLines d rows := by
      rw [writeLines, List.flatMap_cons, List.append_assoc]
      rfl
    rw [hlines, records]
    split
    · rename_i hnone
      rw [hnone] at hfirst
      cases hfirst
    · rename_i t hsome
      rw [hsome] at hfirst
      cases hfirst
      rw [List.map_cons, ih hrows]

/-- The blanks of ASCII, as characters. -/
def isAsciiBlankChar (c : Char) : Bool :=
  c == ' ' || c == '\t' || c == '\n' || c == '\x0c' || c == '\r'

theorem isAsciiBlank_of_mem {c : Char} {b : UInt8} (hb : b ∈ String.utf8EncodeChar c) :
    isAsciiBlank b = isAsciiBlankChar c := by
  rw [isAsciiBlank, Utf8.beq_of_mem_encodeChar (by decide) hb,
    Utf8.beq_of_mem_encodeChar (by decide) hb, Utf8.beq_of_mem_encodeChar (by decide) hb,
    Utf8.beq_of_mem_encodeChar (by decide) hb, Utf8.beq_of_mem_encodeChar (by decide) hb]
  rfl

/-- ASCII blanks are blank as characters too. -/
theorem isBlank_of_isAsciiBlankChar {c : Char} (h : isAsciiBlankChar c = true) :
    Text.isBlank c = true := by
  simp only [isAsciiBlankChar, Bool.or_eq_true, beq_iff_eq] at h
  rcases h with (((rfl | rfl) | rfl) | rfl) | rfl <;> decide

/-- A text without the ASCII blanks around it. -/
def trimAscii (s : String) : String :=
  String.ofList ((s.toList.dropWhile isAsciiBlankChar).rdropWhile isAsciiBlankChar)

/-- To take blanks off the bytes of a text is to take them off the text. -/
theorem trimBytes_encode (s : String) : trimBytes (Utf8.encode s) = Utf8.encode (trimAscii s) := by
  have hne : ∀ c, String.utf8EncodeChar c ≠ [] := fun _ => String.utf8EncodeChar_ne_nil
  have hblank : ∀ c, ∀ b ∈ String.utf8EncodeChar c, isAsciiBlank b = isAsciiBlankChar c :=
    fun _ _ => isAsciiBlank_of_mem
  rw [trimAscii, Utf8.encode_ofList, ← rdropWhile_flatMap hne hblank,
    ← dropWhile_flatMap hne hblank]
  rfl

theorem trim_trimAscii (s : String) : Text.trim (trimAscii s) = Text.trim s := by
  obtain ⟨before, after, hs, hblank⟩ := exists_around isAsciiBlankChar s.toList
  refine (Text.trim_of_around ?_ fun c hc => isBlank_of_isAsciiBlankChar (hblank c hc)).symm
  rwa [trimAscii, String.toList_ofList]

theorem decodeFrom_encode (index : Nat) (ss : List String) :
    decodeFrom index (ss.map Utf8.encode) = .ok ss := by
  induction ss generalizing index with
  | nil => rfl
  | cons s ss ih =>
    simp only [List.map_cons, decodeFrom, Utf8.decode_encode, ih]
    rfl

/-- The texts of a record do not depend on whether it is a header. -/
theorem decodeFields_texts (ss : List String) (heading : Bool) :
    decodeFields heading (ss.map Utf8.encode) = .ok (ss.map Text.trim) := by
  cases heading with
  | true =>
    rw [decodeFields, if_pos rfl, decodeFrom_encode]
    rfl
  | false =>
    have hbytes : (ss.map Utf8.encode).map trimBytes = (ss.map trimAscii).map Utf8.encode := by
      simp only [List.map_map, Function.comp_def, trimBytes_encode]
    have htrims : (ss.map trimAscii).map Text.trim = ss.map Text.trim := by
      simp only [List.map_map, Function.comp_def, trim_trimAscii]
    rw [decodeFields, if_neg Bool.false_ne_true, hbytes, decodeFrom_encode, ← htrims]
    rfl

theorem decodeFields_encode {ss : List String} (h : ∀ s ∈ ss, Text.Trimmed s) :
    decodeFields false (ss.map Utf8.encode) = .ok ss := by
  rw [decodeFields_texts, List.map_congr_left fun s hs => (h s hs).trim_eq, List.map_id']

/-- The first bytes that are handed over are no mark if the text starts with none. -/
theorem not_mark_opening {contents : Contents} (h : ¬byteOrderMark <+: contents.bytes) :
    ¬byteOrderMark <+: contents.opening := by
  intro hmark
  refine h (hmark.trans ?_)
  rw [Contents.opening]
  split
  · exact List.prefix_refl _
  · exact List.take_prefix _ _

/-- A text that starts with the mark in bytes starts with the mark as a character. -/
theorem head?_of_mark {s : String} (h : byteOrderMark <+: Utf8.encode s) :
    s.toList.head? = some '\uFEFF' := by
  obtain ⟨rest, hrest⟩ := h
  cases hs : s.toList with
  | nil => simp [Utf8.encode, hs, byteOrderMark] at hrest
  | cons c cs =>
    have hn : c.toNat = c.val.toNat := rfl
    have hbyte : ∀ {b : UInt8} {n : Nat}, b = UInt8.ofNat n → n % 256 = b.toNat := by
      rintro b n rfl
      exact (UInt8.toNat_ofNat' ..).symm
    have hfirst : (0xEF : UInt8).toNat = 0xEF := rfl
    have hsecond : (0xBB : UInt8).toNat = 0xBB := rfl
    have hthird : (0xBF : UInt8).toNat = 0xBF := rfl
    have hc : c.toNat = 0xFEFF := by
      rw [Utf8.encode, hs, List.flatMap_cons, String.utf8EncodeChar] at hrest
      -- the first byte tells that the character takes three bytes
      split at hrest
      · have hb := hbyte (List.cons.inj hrest).1
        omega
      · split at hrest
        · have hb := hbyte (List.cons.inj hrest).1
          omega
        · split at hrest
          · obtain ⟨h₁, hrest⟩ := List.cons.inj hrest
            obtain ⟨h₂, hrest⟩ := List.cons.inj hrest
            have hb₁ := hbyte h₁
            have hb₂ := hbyte h₂
            have hb₃ := hbyte (List.cons.inj hrest).1
            omega
          · have hb := hbyte (List.cons.inj hrest).1
            omega
    rw [List.head?_cons, ← Char.ofNat_toNat c, hc]

theorem readRecords_eq (name : String) (document : Bytes) {raws : List RawRecord}
    {rows : List (List String)} (hraws : raws.map (·.fields) = rows.map (·.map Utf8.encode))
    (htrimmed : ∀ ss ∈ rows, ∀ s ∈ ss, Text.Trimmed s) (n : Nat) :
    (raws.zipIdx n).map (fun x => readRecord name document false x.2 x.1) = rows.map .ok := by
  induction rows generalizing raws n with
  | nil =>
    rw [List.map_eq_nil_iff.1 hraws]
    rfl
  | cons ss rows ih =>
    obtain ⟨raw, raws, rfl, hraw, hraws⟩ := List.map_eq_cons_iff.1 hraws
    have hfields := decodeFields_encode (htrimmed ss List.mem_cons_self)
    have hrest := ih hraws (fun ss hs => htrimmed ss (List.mem_cons_of_mem _ hs)) (n + 1)
    rw [List.zipIdx_cons, List.map_cons, hrest, readRecord, hraw]
    simp only [Bool.false_and, hfields]
    rfl

/-- What a text of rows without a header gives: the rows, and then the end of the data. -/
theorem inlet_writeLines (hd : Separates d) {rows : List (List String)} (hne : [] ∉ rows)
    (htrimmed : ∀ ss ∈ rows, ∀ s ∈ ss, Text.Trimmed s) (name : String) {contents : Contents}
    (hbytes : contents.bytes = writeLines d (rows.map (·.map Utf8.encode)))
    (hends : contents.failure = none) (hmark : ¬byteOrderMark <+: contents.bytes) :
    inlet name d false contents =
      { name, upcoming := rows.map fun ss => .ok (some ⟨none, ss, d⟩) } := by
  have hopening := not_mark_opening hmark
  have hnone : contents.opening ≠ byteOrderMark := by
    intro he
    exact hopening (he ▸ List.prefix_refl _)
  have hnonempty : [] ∉ rows.map (·.map Utf8.encode) := by
    intro hm
    obtain ⟨ss, hss, he⟩ := List.mem_map.1 hm
    exact hne (List.map_eq_nil_iff.1 he ▸ hss)
  have hraws : (wholeRecords d contents).map (·.fields) = rows.map (·.map Utf8.encode) := by
    rw [wholeRecords, hends, documentRecords,
      if_neg fun h => hopening (List.isPrefixOf_iff_prefix.1 h), hbytes]
    exact records_writeLines hd hnonempty
  have hrows : documentRows name d false contents =
      rows.map fun ss => .ok (some ⟨none, ss, d⟩) := by
    have hread := readRecords_eq name contents.bytes hraws htrimmed 0
    rw [documentRows, if_neg Bool.false_ne_true]
    dsimp only
    rw [hread, readRows, List.map_map]
    rfl
  rw [inlet, if_neg hnone, hends]
  exact congrArg (Inlet.mk name · none) hrows

end TimeMerge.Delimited
