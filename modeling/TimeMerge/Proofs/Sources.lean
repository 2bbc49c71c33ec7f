import TimeMerge.JsonLines
import TimeMerge.Proofs.Rows
import TimeMerge.Proofs.Supply

/-!
# What inputs of text give

Whatever the bytes of an input are, reading it gives records, malformed ones and faults of the input,
and the records are of a certain form: a JSON value was parsed from some line, and a row has fields
that are trimmed, one at least. -/
namespace TimeMerge

/-- Reading the input does not fail. -/
structure Inlet.Readable (inlet : Inlet α) : Prop where
  ends : inlet.failure = none
  reads : ∀ failure, .error (.unreadable failure) ∉ inlet.upcoming

/-- Inputs that give nothing but records are readable. -/
theorem Inlet.readable_of_isSome {inlets : List (Inlet α)}
    (h : ∀ inlet ∈ inlets, inlet.failure = none ∧ ∀ r ∈ inlet.upcoming, r.toOption.isSome) :
    ∀ inlet ∈ inlets, inlet.Readable := by
  refine fun inlet hin => ⟨(h inlet hin).1, fun failure hm => ?_⟩
  cases (h inlet hin).2 _ hm

/-- The outcomes of reading text: a record with some property, a malformed one, or a fault of the
input. -/
inductive Yields (P : α → Prop) : Reading α → Prop where
  | record {record : α} (holds : P record) : Yields P (.ok (some record))
  | malformed {d : Defect} : Yields P (.error (.malformed d))
  | unreadable {failure : ReadFailure} : Yields P (.error (.unreadable failure))

theorem Yields.of_record {P : α → Prop} {record : α} (h : Yields P (.ok (some record))) :
    P record := by
  cases h with
  | record holds => exact holds

theorem Inlet.Readable.regular {inlet : Inlet α} {P : α → Prop} (h : inlet.Readable)
    (hy : ∀ r ∈ inlet.upcoming, Yields P r) : inlet.Regular where
  ends := h.ends
  yields := by
    intro r hr
    cases hy r hr with
    | @record record holds => exact .inl ⟨record, rfl⟩
    | @malformed d => exact .inr ⟨d, rfl⟩
    | @unreadable failure => exact absurd hr (h.reads failure)

namespace JsonLines

/-- A value that some line is parsed to. -/
def Parsed (j : Json) : Prop := ∃ line, Json.parse line = .ok j

theorem yields_readLine (name : String) (number : Nat) (line : Bytes) :
    Yields Parsed (readLine name number line) := by
  rw [readLine]
  split
  · rename_i j hj
    exact .record ⟨_, hj⟩
  · exact .malformed

theorem yields_readings (name : String) (count : Nat) (lines : List Bytes) :
    ∀ r ∈ readings name count lines, Yields Parsed r := by
  induction lines generalizing count with
  | nil => simp [readings]
  | cons line lines ih =>
    intro r hr
    rw [readings] at hr
    split at hr
    · rcases List.mem_cons.1 hr with rfl | hr
      · exact .unreadable
      · exact ih count r hr
    · split at hr
      · exact ih (count + 1) r hr
      · rcases List.mem_cons.1 hr with rfl | hr
        · exact yields_readLine ..
        · exact ih (count + 1) r hr

theorem yields_inlet (name : String) (contents : Contents) :
    ∀ r ∈ (inlet name contents).upcoming, Yields Parsed r := by
  rw [inlet]
  cases contents.failure <;> exact yields_readings name 0 _

theorem yields_inlets (inputs : List (String × Contents)) :
    ∀ i ∈ inputs.map fun x => inlet x.1 x.2, ∀ r ∈ i.upcoming, Yields Parsed r := by
  intro i hi
  obtain ⟨x, _, rfl⟩ := List.mem_map.1 hi
  exact yields_inlet x.1 x.2

end JsonLines

namespace Delimited

/-- A row as it is read with these settings. -/
structure Row.Read (d : UInt8) (header : Bool) (row : Row) : Prop where
  delimiter : row.delimiter = d
  fields : row.fields ≠ []
  trimmed : ∀ s ∈ row.fields, Text.Trimmed s
  names : header = false → row.names = none

theorem fields_ne_nil_of_mem_records {d : UInt8} {s : Bytes} {raw : RawRecord}
    (h : raw ∈ records d s) : raw.fields ≠ [] := by
  induction s using records.induct d with
  | case1 s hnone =>
    rw [records] at h
    split at h
    · cases h
    · rename_i hsome
      simp [hnone] at hsome
  | case2 s t hsome ih =>
    rw [records] at h
    split at h
    · cases h
    · rename_i t' hsome'
      rw [hsome] at hsome'
      cases hsome'
      rcases List.mem_cons.1 h with rfl | h
      · exact List.cons_ne_nil _ _
      · exact ih h

theorem fields_ne_nil_of_mem_wholeRecords {d : UInt8} {contents : Contents} {raw : RawRecord}
    (h : raw ∈ wholeRecords d contents) : raw.fields ≠ [] := by
  have hdocument : ∀ raw ∈ documentRecords d contents, raw.fields ≠ [] := by
    intro raw h
    rw [documentRecords] at h
    split at h
    · split at h
      · cases h
      · rename_i first rest hrecords
        rcases List.mem_cons.1 h with rfl | h
        · -- the first record starts where the data start, and is the same otherwise
          have hm : first ∈ records d (contents.bytes.drop byteOrderMark.length) :=
            hrecords ▸ List.mem_cons_self
          exact (fields_ne_nil_of_mem_records hm : first.fields ≠ [])
        · exact fields_ne_nil_of_mem_records (hrecords ▸ List.mem_cons_of_mem _ h)
    · exact fields_ne_nil_of_mem_records h
  rw [wholeRecords] at h
  split at h
  · exact hdocument raw h
  · exact hdocument raw (List.mem_of_mem_filter h)

theorem length_decodeFrom {index : Nat} {fields : List Bytes} {ss : List String}
    (h : decodeFrom index fields = .ok ss) : ss.length = fields.length := by
  induction fields generalizing index ss with
  | nil =>
    cases h
    rfl
  | cons f fields ih =>
    rw [decodeFrom] at h
    split at h
    · cases h
    · cases hrest : decodeFrom (index + 1) fields with
      | error e =>
        rw [hrest] at h
        cases h
      | ok rest =>
        rw [hrest] at h
        cases h
        rw [List.length_cons, List.length_cons, ih hrest]

/-- The texts of a record that could be read, and of what else a record may come to. -/
theorem readRecord_cases (name : String) (document : Bytes) (header : Bool) (index : Nat)
    {raw : RawRecord} (hraw : raw.fields ≠ []) :
    (∃ ss, readRecord name document header index raw = .ok ss ∧ ss ≠ [] ∧
      ∀ s ∈ ss, Text.Trimmed s) ∨
    ∃ d, readRecord name document header index raw = .error (.malformed d) := by
  rw [readRecord, decodeFields]
  cases hd : decodeFrom 0 (if header && index == 0 then raw.fields else raw.fields.map trimBytes) with
  | error e => exact .inr ⟨_, rfl⟩
  | ok ss =>
    refine .inl ⟨ss.map Text.trim, rfl, ?_, fun s hs => ?_⟩
    · have hlen := length_decodeFrom hd
      intro hnil
      rw [List.map_eq_nil_iff.1 hnil] at hlen
      split at hlen
      · exact hraw (List.eq_nil_of_length_eq_zero hlen.symm)
      · rw [List.length_map] at hlen
        exact hraw (List.eq_nil_of_length_eq_zero hlen.symm)
    · obtain ⟨t, _, rfl⟩ := List.mem_map.1 hs
      exact Text.trimmed_trim t

theorem yields_readRows {d : UInt8} {header : Bool} {names : Option (List String)}
    (hnames : header = false → names = none) {records : List (Except Fault (List String))}
    (h : ∀ r ∈ records, (∃ ss, r = .ok ss ∧ ss ≠ [] ∧ ∀ s ∈ ss, Text.Trimmed s) ∨
      ∃ d, r = .error (.malformed d)) :
    ∀ r ∈ readRows d names records, Yields (Row.Read d header) r := by
  intro r hr
  obtain ⟨fields, hf, rfl⟩ := List.mem_map.1 hr
  rcases h fields hf with ⟨ss, rfl, hne, htrimmed⟩ | ⟨e, rfl⟩
  · exact .record ⟨rfl, hne, htrimmed, hnames⟩
  · exact .malformed

theorem yields_documentRows (name : String) (d : UInt8) (header : Bool) (contents : Contents) :
    ∀ r ∈ documentRows name d header contents, Yields (Row.Read d header) r := by
  rw [documentRows]
  dsimp only
  generalize hmap : (wholeRecords d contents).zipIdx.map _ = records
  have hrecords : ∀ r ∈ records, (∃ ss, r = .ok ss ∧ ss ≠ [] ∧ ∀ s ∈ ss, Text.Trimmed s) ∨
      ∃ d, r = .error (.malformed d) := by
    intro r hr
    rw [← hmap] at hr
    obtain ⟨⟨raw, index⟩, hm, rfl⟩ := List.mem_map.1 hr
    exact readRecord_cases name contents.bytes header index
      (fields_ne_nil_of_mem_wholeRecords (List.fst_mem_of_mem_zipIdx hm))
  split
  · rename_i hheader
    have hnames : ∀ names : List String, header = false → some names = none := by
      intro names h
      simp [hheader] at h
    cases records with
    | nil => simp [readNamedRows]
    | cons r records =>
      obtain ⟨hr, hrest⟩ := List.forall_mem_cons.1 hrecords
      rcases hr with ⟨ss, rfl, _, _⟩ | ⟨e, rfl⟩
      · exact yields_readRows (hnames ss) hrest
      · rw [readNamedRows]
        refine List.forall_mem_cons.2 ⟨.malformed, yields_readRows (hnames []) hrest⟩
  · exact yields_readRows (fun _ => rfl) hrecords

theorem yields_inlet (name : String) (d : UInt8) (header : Bool) (contents : Contents) :
    ∀ r ∈ (inlet name d header contents).upcoming, Yields (Row.Read d header) r := by
  rw [inlet]
  split
  · simp
  · dsimp only
    split
    · exact yields_documentRows name d header contents
    · refine List.forall_mem_append.2 ⟨yields_documentRows name d header contents, ?_⟩
      intro r hr
      rw [List.mem_singleton.1 hr]
      exact .unreadable

theorem yields_inlets (d : UInt8) (header : Bool) (inputs : List (String × Contents)) :
    ∀ i ∈ inputs.map fun x => inlet x.1 d header x.2, ∀ r ∈ i.upcoming,
      Yields (Row.Read d header) r := by
  intro i hi
  obtain ⟨x, _, rfl⟩ := List.mem_map.1 hi
  exact yields_inlet x.1 d header x.2

/-- A row with an ASCII delimiter can be written. -/
theorem Row.Read.isSome_line? {d : UInt8} {header : Bool} {row : Row} (h : Row.Read d header row)
    (hd : d.toNat < 128) : (Record.line? row).isSome := by
  rw [← h.delimiter] at hd
  obtain ⟨line, hline, _⟩ := Row.line?_of_ascii hd
  exact Option.isSome_iff_exists.2 ⟨line, hline⟩

end Delimited

end TimeMerge
