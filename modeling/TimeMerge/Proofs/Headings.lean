import Mathlib.Data.List.Forall2
import Mathlib.Data.Set.List
import TimeMerge.Proofs.Grammar
import TimeMerge.Proofs.Phases
import TimeMerge.Proofs.Sources

/-!
# Headings

A header takes the first record from a text of rows and nothing else: the rows after it are what they
are without a header, and the first record, if it is text, gives their fields names. -/
namespace TimeMerge

namespace Delimited

variable {d : UInt8} {name : String} {contents : Contents} {fields : List Bytes}

/-- Blanks of ASCII are text, so what is no text is none without them either. -/
theorem isText_of_trimBytes {f : Bytes} (h : Utf8.IsText (trimBytes f)) : Utf8.IsText f := by
  have hblanks : ∀ bs : Bytes, (∀ b ∈ bs, isAsciiBlank b = true) → Utf8.IsText bs := by
    intro bs hbs
    induction bs with
    | nil => exact Utf8.isText_nil
    | cons b bs ih =>
      obtain ⟨hb, hbs⟩ := List.forall_mem_cons.1 hbs
      refine .cons ?_ (ih hbs)
      simp only [isAsciiBlank, Bool.or_eq_true, beq_iff_eq] at hb
      rcases hb with (((rfl | rfl) | rfl) | rfl) | rfl <;> decide
  obtain ⟨before, after, hf, hblank⟩ := exists_around isAsciiBlank f
  rw [hf]
  refine ((hblanks _ fun b hb => ?_).append h).append (hblanks _ fun b hb => ?_)
  · exact hblank b (List.mem_append_left _ hb)
  · exact hblank b (List.mem_append_right _ hb)

theorem isText_of_decodeFrom {index : Nat} {ss : List String} (h : decodeFrom index fields = .ok ss) :
    ∀ f ∈ fields, Utf8.IsText f := by
  induction fields generalizing index ss with
  | nil => simp
  | cons f fields ih =>
    rw [decodeFrom] at h
    split at h
    · cases h
    · rename_i s hs
      cases hrest : decodeFrom (index + 1) fields with
      | error e =>
        rw [hrest] at h
        cases h
      | ok rest => exact List.forall_mem_cons.2 ⟨⟨s, Utf8.encode_of_decode hs⟩, ih hrest⟩

/-- Whether a record is text does not depend on whether it is a header. -/
theorem decodeFields_of_not_isText (h : ∃ f ∈ fields, ¬Utf8.IsText f) (heading : Bool) :
    ∃ e, decodeFields heading fields = .error e := by
  obtain ⟨f, hf, hnot⟩ := h
  rw [decodeFields]
  cases hd : decodeFrom 0 (if heading then fields else fields.map trimBytes) with
  | error e => exact ⟨e, rfl⟩
  | ok ss =>
    have htexts := isText_of_decodeFrom hd
    refine absurd ?_ hnot
    split at htexts
    · exact htexts f hf
    · exact isText_of_trimBytes (htexts _ (List.mem_map_of_mem hf))

/-- A row whose columns have names: the same row otherwise, and by a name it has the cell of the column
in which that name stands first. -/
structure Row.Named (names : List String) (plain row : Row) : Prop where
  fields : row.fields = plain.fields
  delimiter : row.delimiter = plain.delimiter
  named : ∀ name cell, Record.cellNamed row name = some cell ↔
    ∃ i, FirstAt names name i ∧ Record.cellAt row i = some cell

theorem Row.named_some (names ss : List String) (d : UInt8) :
    Row.Named names ⟨none, ss, d⟩ ⟨some names, ss, d⟩ where
  fields := rfl
  delimiter := rfl
  named := by
    intro name cell
    refine Option.map_eq_some_iff.trans ?_
    simp only [Row.named?, Option.bind_eq_some_iff, ← firstAt_iff]
    constructor
    · rintro ⟨s, ⟨i, first, found⟩, rfl⟩
      exact ⟨i, first, Option.map_eq_some_iff.2 ⟨s, found, rfl⟩⟩
    · rintro ⟨i, first, hcell⟩
      obtain ⟨s, found, rfl⟩ := Option.map_eq_some_iff.1 hcell
      exact ⟨s, ⟨i, first, found⟩, rfl⟩

/-- What a record gives under names, next to what it gives without. -/
inductive Titled (names : List String) : Reading Row → Reading Row → Prop where
  | row {plain row : Row} (named : Row.Named names plain row) :
      Titled names (.ok (some plain)) (.ok (some row))
  | malformed {defect : Defect} :
      Titled names (.error (.malformed defect)) (.error (.malformed defect))

/-- What a text gives with a header, next to what it gives without one. -/
inductive Headed (raws : List RawRecord) : List (Reading Row) → List (Reading Row) → Prop where
  | nothing : Headed raws [] []
  | named {raw : RawRecord} {first : Row} {rest rows : List (Reading Row)} (opens : raw ∈ raws.head?)
      (text : ∀ f ∈ raw.fields, Utf8.IsText f)
      (titled : List.Forall₂ (Titled first.fields) rest rows) :
      Headed raws (.ok (some first) :: rest) rows
  | nameless {raw : RawRecord} {defect defect' : Defect} {rest rows : List (Reading Row)}
      (opens : raw ∈ raws.head?) (broken : ∃ f ∈ raw.fields, ¬Utf8.IsText f)
      (titled : List.Forall₂ (Titled []) rest rows) :
      Headed raws (.error (.malformed defect) :: rest) (.error (.malformed defect') :: rows)

theorem titled_readRows (d : UInt8) (names : List String) {records : List (Except Fault (List String))}
    (h : ∀ r ∈ records, (∃ ss, r = .ok ss) ∨ ∃ e, r = .error (.malformed e)) :
    List.Forall₂ (Titled names) (readRows d none records) (readRows d (some names) records) := by
  rw [readRows, readRows, List.forall₂_map_left_iff, List.forall₂_map_right_iff, List.forall₂_same]
  intro r hr
  rcases h r hr with ⟨ss, rfl⟩ | ⟨e, rfl⟩
  · exact .row (Row.named_some names ss d)
  · exact .malformed

/-- Only the first record may be a header. -/
theorem readRecord_of_pos {index : Nat} (h : 0 < index) (document : Bytes) (header : Bool)
    (raw : RawRecord) :
    readRecord name document header index raw = readRecord name document false index raw := by
  rw [readRecord, readRecord, beq_false_of_ne (Nat.ne_of_gt h), Bool.and_false, Bool.false_and]

theorem readRecords_of_pos {n : Nat} (h : 0 < n) (document : Bytes) (header : Bool)
    (raws : List RawRecord) :
    ((raws.zipIdx n).map fun x => readRecord name document header x.2 x.1) =
      (raws.zipIdx n).map fun x => readRecord name document false x.2 x.1 := by
  refine List.map_congr_left fun x hx => ?_
  exact readRecord_of_pos (Nat.lt_of_lt_of_le h (List.le_snd_of_mem_zipIdx hx)) document header x.1

theorem readRecord_malformed (document : Bytes) (header : Bool) (index : Nat) (raw : RawRecord) :
    (∃ ss, readRecord name document header index raw = .ok ss) ∨
      ∃ e, readRecord name document header index raw = .error (.malformed e) := by
  rw [readRecord]
  cases decodeFields (header && index == 0) raw.fields with
  | ok ss => exact .inl ⟨ss, rfl⟩
  | error e => exact .inr ⟨_, rfl⟩

theorem headed_documentRows (name : String) (d : UInt8) (contents : Contents) :
    Headed (wholeRecords d contents) (documentRows name d false contents)
      (documentRows name d true contents) := by
  simp only [documentRows, Bool.false_eq_true, if_false, if_true]
  cases wholeRecords d contents with
  | nil => exact .nothing
  | cons raw raws =>
    simp only [List.zipIdx_cons, Nat.zero_add, List.map_cons]
    rw [readRecords_of_pos Nat.zero_lt_one contents.bytes true]
    generalize hrest : (raws.zipIdx 1).map _ = rest
    have htitled : ∀ names,
        List.Forall₂ (Titled names) (readRows d none rest) (readRows d (some names) rest) := by
      refine fun names => titled_readRows d names fun r hr => ?_
      obtain ⟨x, _, rfl⟩ := List.mem_map.1 (hrest ▸ hr)
      exact readRecord_malformed contents.bytes false x.2 x.1
    by_cases htext : ∀ f ∈ raw.fields, Utf8.IsText f
    · obtain ⟨ss, hss⟩ : raw.fields ∈ Set.range (List.map Utf8.encode) := by
        rw [Set.range_list_map]
        exact htext
      have hfirst : ∀ header, readRecord name contents.bytes header 0 raw = .ok (ss.map Text.trim) := by
        intro header
        rw [readRecord, ← hss, decodeFields_texts]
        rfl
      rw [hfirst, hfirst]
      exact .named rfl htext (htitled _)
    · have hbroken : ∃ f ∈ raw.fields, ¬Utf8.IsText f := by
        simpa only [not_forall, exists_prop] using htext
      have hfirst : ∀ header, ∃ e,
          readRecord name contents.bytes header 0 raw = .error (.malformed e) := by
        intro header
        obtain ⟨e, he⟩ := decodeFields_of_not_isText hbroken (header && 0 == 0)
        rw [readRecord, he]
        exact ⟨_, rfl⟩
      obtain ⟨e, he⟩ := hfirst false
      obtain ⟨e', he'⟩ := hfirst true
      rw [he, he']
      exact .nameless rfl hbroken (htitled [])

/-- Whatever a text is, a header takes its first record from it, and no more. -/
theorem reads_headed (hends : contents.failure = none) : ∃ plain headed,
    (inlet name d false contents).Reads plain ∧ (inlet name d true contents).Reads headed ∧
      Headed (wholeRecords d contents) plain headed := by
  by_cases hmark : contents.opening = byteOrderMark
  · have hinlet : ∀ header, inlet name d header contents = { name, upcoming := [] } :=
      fun header => by rw [inlet, if_pos hmark]
    refine ⟨[], [], ?_, ?_, .nothing⟩
    · exact Inlet.reads_of_upcoming (by rw [hinlet]) (by rw [hinlet])
    · exact Inlet.reads_of_upcoming (by rw [hinlet]) (by rw [hinlet])
  · have hinlet : ∀ header, inlet name d header contents =
        { name, upcoming := documentRows name d header contents } :=
      fun header => by rw [inlet, if_neg hmark, hends]
    refine ⟨_, _, ?_, ?_, headed_documentRows name d contents⟩
    · exact Inlet.reads_of_upcoming (by rw [hinlet]) (by rw [hinlet])
    · exact Inlet.reads_of_upcoming (by rw [hinlet]) (by rw [hinlet])

/-- A quoted name, a name that two columns have, rows of other lengths than the header and one that is
no text. -/
def ragged : Contents :=
  { bytes := Utf8.encode " a;\"b;c\"; a\r\n1;2;3;4\n\n5\n" ++ [0xFF, 59, 54, 10, 55] }

theorem reads_headed_ragged : ragged.failure = none ∧ ∃ plain headed,
    (inlet "in" 59 false ragged).Reads plain ∧ (inlet "in" 59 true ragged).Reads headed ∧
      Headed (wholeRecords 59 ragged) plain headed :=
  ⟨rfl, reads_headed rfl⟩

end Delimited

end TimeMerge
