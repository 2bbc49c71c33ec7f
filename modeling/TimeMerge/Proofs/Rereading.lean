import Mathlib.Data.Option.Basic
import TimeMerge.Proofs.Documents
import TimeMerge.Proofs.Merging
import TimeMerge.Proofs.Phases
import TimeMerge.Proofs.Sources

/-!
# Records read again

Records that are written on lines, one after the other, are read from the text of these lines as they
were: every one of them, in their order, and nothing else. -/
namespace TimeMerge

/-- The bytes of a text of lines. -/
theorem Utf8.encode_lines (lines : List String) :
    Utf8.encode (String.join (lines.map (· ++ "\n"))) =
      lines.flatMap fun line => Utf8.encode line ++ [Ascii.lineFeed] := by
  induction lines with
  | nil => rfl
  | cons line lines ih =>
    have hend : Utf8.encode "\n" = [Ascii.lineFeed] := by decide
    rw [List.map_cons, String.join_cons, Utf8.encode_append, Utf8.encode_append, ih, hend,
      List.flatMap_cons]

/-- The lines of records, one after the other, each ended by a line feed. -/
theorem flatMap_lines [Record α] {f : α → Bytes} {rs : List α}
    (h : ∀ r ∈ rs, ∃ line, Record.line? r = some line ∧ Utf8.encode line = f r) :
    (rs.filterMap Record.line?).flatMap (fun line => Utf8.encode line ++ [Ascii.lineFeed]) =
      rs.flatMap fun r => f r ++ [Ascii.lineFeed] := by
  induction rs with
  | nil => rfl
  | cons r rs ih =>
    obtain ⟨⟨line, hline, hencode⟩, hrs⟩ := List.forall_mem_cons.1 h
    rw [List.filterMap_cons_some hline, List.flatMap_cons, List.flatMap_cons, hencode, ih hrs]

namespace Delimited

variable {d : UInt8} {rows : List Row}

/-- What begins a text before a byte of none of its own begins what stands before that byte. -/
theorem prefix_of_prefix_append_cons {mark f rest : Bytes} {c : UInt8} (hc : c ∉ mark)
    (h : mark <+: f ++ c :: rest) : mark <+: f := by
  rcases Nat.lt_or_ge f.length mark.length with hlt | hle
  · have hfront : f ++ [c] <+: f ++ c :: rest :=
      (List.prefix_append_right_inj f).2 (List.cons_prefix_cons.2 ⟨rfl, List.nil_prefix⟩)
    have hlength : (f ++ [c]).length ≤ mark.length := by
      rw [List.length_append]
      exact hlt
    have hmark := List.prefix_of_prefix_length_le hfront h hlength
    exact absurd (hmark.subset (List.mem_append_right _ List.mem_cons_self)) hc
  · exact List.prefix_of_prefix_length_le h (List.prefix_append ..) hle

/-- The first field is written first, and the delimiter or the end of the line follows it. -/
theorem exists_writeField (d : UInt8) (f : Bytes) (fs : List Bytes) (rest : Bytes) :
    ∃ c more, Follows d c ∧
      writeFields d (f :: fs) ++ Ascii.lineFeed :: rest = writeField d f ++ c :: more := by
  cases fs with
  | nil => exact ⟨_, rest, .inr rfl, rfl⟩
  | cons g fs =>
    refine ⟨d, writeFields d (g :: fs) ++ Ascii.lineFeed :: rest, .inl rfl, ?_⟩
    rw [writeFields, List.append_assoc, List.cons_append]
    exact List.cons_ne_nil _ _

/-- The mark at the front of a line stands at the front of its first field. -/
theorem mark_of_writeLine (hascii : d.toNat < 128) (hd : Separates d) {f rest : Bytes}
    {fs : List Bytes}
    (h : byteOrderMark <+: writeLine d (f :: fs) ++ Ascii.lineFeed :: rest) :
    byteOrderMark <+: f := by
  have hquote : ∀ more : Bytes, ¬byteOrderMark <+: Ascii.doubleQuote :: more := by
    intro more hmark
    exact absurd (List.cons_prefix_cons.1 hmark).1 (by decide)
  rw [writeLine_eq hd] at h
  split at h
  · exact absurd h (hquote _)
  · obtain ⟨c, more, hc, hline⟩ := exists_writeField d f fs rest
    have hlow : c ∉ byteOrderMark := by
      have hhigh : byteOrderMark.all (128 ≤ ·.toNat) = true := by decide
      intro hm
      have hle : 128 ≤ c.toNat := of_decide_eq_true (List.all_eq_true.1 hhigh c hm)
      rcases hc with rfl | rfl
      · omega
      · exact absurd hle (by decide)
    rw [hline] at h
    have hfirst := prefix_of_prefix_append_cons hlow h
    rw [writeField] at hfirst
    split at hfirst
    · exact absurd hfirst (hquote _)
    · exact hfirst

theorem not_mark_writeLines (hascii : d.toNat < 128) (hd : Separates d) {rows : List (List String)}
    (hne : [] ∉ rows)
    (hfirst : ∀ ss ∈ rows.head?, ∀ s ∈ ss.head?, s.toList.head? ≠ some '\uFEFF') :
    ¬byteOrderMark <+: writeLines d (rows.map (·.map Utf8.encode)) := by
  intro hmark
  cases rows with
  | nil =>
    have hnil := List.prefix_nil.1 hmark
    cases hnil
  | cons ss rows =>
    obtain ⟨s, ss, rfl⟩ := List.exists_cons_of_ne_nil fun he => hne (he ▸ List.mem_cons_self)
    rw [List.map_cons, writeLines, List.flatMap_cons, List.append_assoc, List.map_cons] at hmark
    exact hfirst _ rfl s rfl (head?_of_mark (mark_of_writeLine hascii hd hmark))

/-- The lines of rows are what is written on them. -/
theorem encode_rows (hascii : d.toNat < 128) (hrows : ∀ row ∈ rows, row.delimiter = d) :
    Utf8.encode (String.join ((rows.filterMap Record.line?).map (· ++ "\n"))) =
      writeLines d ((rows.map (·.fields)).map (·.map Utf8.encode)) := by
  have hline : ∀ row ∈ rows, ∃ line, Record.line? row = some line ∧
      Utf8.encode line = writeLine d (row.fields.map Utf8.encode) := by
    intro row hrow
    have hdelimiter := hrows row hrow
    obtain ⟨line, hline, hencode⟩ := Row.line?_of_ascii (hdelimiter ▸ hascii)
    exact ⟨line, hline, hdelimiter ▸ hencode⟩
  rw [Utf8.encode_lines, writeLines, List.map_map, List.flatMap_map]
  exact flatMap_lines hline

/-- What the lines of rows give: the rows, without the names that their columns had. -/
theorem inlet_rows (hascii : d.toNat < 128) (hd : Separates d)
    (hrows : ∀ row ∈ rows,
      row.delimiter = d ∧ row.fields ≠ [] ∧ ∀ s ∈ row.fields, Text.Trimmed s)
    (name : String) {contents : Contents} (hbytes : contents.bytes =
      Utf8.encode (String.join ((rows.filterMap Record.line?).map (· ++ "\n"))))
    (hends : contents.failure = none) (hmark : ¬byteOrderMark <+: contents.bytes) :
    inlet name d false contents =
      { name, upcoming := rows.map fun row => .ok (some { row with names := none }) } := by
  have hwritten := hbytes.trans (encode_rows hascii fun row hrow => (hrows row hrow).1)
  have hne : [] ∉ rows.map (·.fields) := by
    intro hm
    obtain ⟨row, hrow, hnil⟩ := List.mem_map.1 hm
    exact (hrows row hrow).2.1 hnil
  have htrimmed : ∀ ss ∈ rows.map (·.fields), ∀ s ∈ ss, Text.Trimmed s := by
    intro ss hss
    obtain ⟨row, hrow, rfl⟩ := List.mem_map.1 hss
    exact (hrows row hrow).2.2
  have hsame : ∀ row ∈ rows, (.ok (some ⟨none, row.fields, d⟩) : Reading Row) =
      .ok (some { row with names := none }) := by
    intro row hrow
    rw [(hrows row hrow).1]
  rw [inlet_writeLines hd hne htrimmed name hwritten hends hmark, List.map_map]
  exact congrArg (Inlet.mk name · none) (List.map_congr_left hsame)

/-- Rows can be written, and their lines give them again, whatever their fields hold, as long as these
are trimmed and the first of all does not look like a byte order mark. -/
theorem gives_rows (hascii : d.toNat < 128) (hd : Separates d)
    (hrows : ∀ row ∈ rows,
      row.delimiter = d ∧ row.fields ≠ [] ∧ ∀ s ∈ row.fields, Text.Trimmed s)
    (hfirst : ∀ row ∈ rows.head?, ∀ s ∈ row.fields.head?, s.toList.head? ≠ some '\uFEFF') :
    ∃ lines : List String, rows.map Record.line? = lines.map some ∧
      ∀ name contents,
        contents.bytes = Utf8.encode (String.join (lines.map (· ++ "\n"))) →
        contents.failure = none →
        (inlet name d false contents).Reads
          (rows.map fun row => .ok (some { row with names := none })) := by
  have hisSome : ∀ row ∈ rows, (Record.line? row).isSome := by
    intro row hrow
    obtain ⟨line, hline, _⟩ := Row.line?_of_ascii ((hrows row hrow).1 ▸ hascii)
    exact Option.isSome_iff_exists.2 ⟨line, hline⟩
  obtain ⟨lines, hlines, rfl⟩ := Settings.exists_lines hisSome
  refine ⟨_, hlines, fun name contents hbytes hends => ?_⟩
  have hmark : ¬byteOrderMark <+: contents.bytes := by
    rw [hbytes, encode_rows hascii fun row hrow => (hrows row hrow).1]
    refine not_mark_writeLines hascii hd ?_ ?_
    · intro hm
      obtain ⟨row, hrow, hnil⟩ := List.mem_map.1 hm
      exact (hrows row hrow).2.1 hnil
    · intro ss hss
      obtain ⟨row, hrow, rfl⟩ := Option.map_eq_some_iff.1 (List.head?_map ▸ hss)
      exact hfirst row hrow
  have hinlet := inlet_rows hascii hd hrows name hbytes hends hmark
  exact Inlet.reads_of_upcoming (by rw [hinlet]) (by rw [hinlet])

/-- Rows between whose fields stands the letter a. -/
def letters : List Row :=
  [⟨some ["fruit"], ["banana", "", "\"fig\""], 97⟩, ⟨none, [""], 97⟩, ⟨none, ["x\r\ny", "\uFEFF"], 97⟩]

def lettersText : String := "\"banana\"aa\"\"\"fig\"\"\"\n\"\"\n\"x\r\ny\"a\uFEFF\n"

/-- A delimiter that is a letter, a row of nothing and line ends in a field do not get in the way. -/
theorem gives_rows_letters :
    (inlet "again" 97 false { bytes := Utf8.encode lettersText }).Reads
      (letters.map fun row => .ok (some { row with names := none })) := by
  have hrows : ∀ row ∈ letters,
      row.delimiter = 97 ∧ row.fields ≠ [] ∧ ∀ s ∈ row.fields, Text.Trimmed s := by
    have htrimmed : ∀ row ∈ letters, ∀ s ∈ row.fields, s.toList.head?.all (!Text.isBlank ·) ∧
        s.toList.getLast?.all (!Text.isBlank ·) := by decide +kernel
    have hshape : ∀ row ∈ letters, row.delimiter = 97 ∧ row.fields ≠ [] := by decide +kernel
    intro row hrow
    obtain ⟨hdelimiter, hfields⟩ := hshape row hrow
    refine ⟨hdelimiter, hfields, fun s hs => ?_⟩
    obtain ⟨hstart, hfinish⟩ := htrimmed row hrow s hs
    simp only [Option.all_eq_true, Bool.not_eq_true'] at hstart hfinish
    exact ⟨hstart, hfinish⟩
  have hfirst : ∀ row ∈ letters.head?, ∀ s ∈ row.fields.head?, s.toList.head? ≠ some '\uFEFF' := by
    decide +kernel
  obtain ⟨lines, hlines, hgives⟩ := gives_rows (by decide) ⟨by decide, rfl⟩ hrows hfirst
  have hwritten : letters.map Record.line? =
      ["\"banana\"aa\"\"\"fig\"\"\"", "\"\"", "\"x\r\ny\"a\uFEFF"].map some := by decide +kernel
  obtain rfl := List.map_injective_iff.2 (Option.some_injective String) (hlines.symm.trans hwritten)
  exact hgives "again" _ (by decide +kernel) rfl

end Delimited

namespace JsonLines

variable {js : List Json}

/-- A value that was read and has only whole numbers. -/
theorem legible_of_read {j : Json}
    (hread : ∃ name contents, .ok (some j) ∈ (inlet name contents).upcoming)
    (hwhole : ∀ n ∈ j.numbers, n.isInteger = true) :
    Json.Legible Json.Number.Whole Json.maxDepth j := by
  obtain ⟨name, contents, hm⟩ := hread
  obtain ⟨line, hline⟩ := (yields_inlet name contents _ hm).of_record
  exact (Json.legible_parse hline).imp fun n hn hfits => ⟨hwhole n hn, hfits⟩

/-- Values that were read and have only whole numbers are each written on a line, which is not blank
and in which no line ends, and these lines give them again. -/
theorem gives_values
    (hread : ∀ j ∈ js, ∃ name contents, .ok (some j) ∈ (inlet name contents).upcoming)
    (hwhole : ∀ j ∈ js, ∀ n ∈ j.numbers, n.isInteger = true) :
    (∀ j ∈ js, Ascii.lineFeed ∉ Utf8.encode j.compact ∧
        Ascii.carriageReturn ∉ Utf8.encode j.compact ∧ Text.allBlank j.compact = false) ∧
      ∀ name contents,
        contents.bytes = Utf8.encode (String.join (js.map (·.compact ++ "\n"))) →
        contents.failure = none → (inlet name contents).Reads (js.map fun j => .ok (some j)) := by
  have legible : ∀ j ∈ js, Json.Legible Json.Number.Whole Json.maxDepth j :=
    fun j hj => legible_of_read (hread j hj) (hwhole j hj)
  constructor
  · intro j hj
    exact ⟨Json.not_mem_encode_compact (legible j hj) (by decide),
      Json.not_mem_encode_compact (legible j hj) (by decide), Json.allBlank_compact (legible j hj)⟩
  · intro name contents hbytes hends
    have hlines : contents.bytes = js.flatMap fun j => Utf8.encode j.compact ++ [Ascii.lineFeed] := by
      have htext := Utf8.encode_lines (js.map (·.compact))
      rw [List.map_map, List.flatMap_map] at htext
      exact hbytes.trans htext
    have hinlet := inlet_compact legible name hlines hends
    exact Inlet.reads_of_upcoming (by rw [hinlet]) (by rw [hinlet])

/-- The least and the greatest integers, and a text of characters that are escaped or not of ASCII. -/
def extremes : Json :=
  .object [("", .string "\n\"é/\x00"), ("z", .array [.number (.integer (-9223372036854775808)),
    .number (.integer 18446744073709551615)])]

def extremesText : String :=
  "\x7b\"\":\"\\n\\\"é/\\u0000\",\"z\":[-9223372036854775808,18446744073709551615]\x7d\n"

theorem legible_extremes : Json.Legible Json.Number.Whole Json.maxDepth extremes := by
  have hints : ∀ j ∈ [Json.number (.integer (-9223372036854775808)),
      .number (.integer 18446744073709551615)], Json.Legible Json.Number.Whole 125 j := by
    refine List.forall_mem_cons.2 ⟨.number ⟨rfl, by decide, by decide⟩, ?_⟩
    exact List.forall_mem_singleton.2 (.number ⟨rfl, by decide, by decide⟩)
  have hkeys : ["", "z"].Pairwise (· < ·) := by decide +kernel
  refine .object hkeys (List.forall_mem_cons.2 ⟨.string, ?_⟩)
  exact List.forall_mem_singleton.2 (.array hints)

theorem compact_extremes : extremes.compact ++ "\n" = extremesText := by decide +kernel

/-- The greatest numbers and characters that are escaped come back, as often as they are written. -/
theorem gives_values_extremes :
    Text.allBlank extremes.compact = false ∧
      (inlet "again" { bytes := Utf8.encode (extremesText ++ extremesText) }).Reads
        [.ok (some extremes), .ok (some extremes)] := by
  have hread : .ok (some extremes) ∈
      (inlet "first" { bytes := Utf8.encode extremesText }).upcoming := by
    have hbytes : Utf8.encode extremesText =
        [extremes].flatMap fun j => Utf8.encode j.compact ++ [Ascii.lineFeed] := by
      rw [← compact_extremes, Utf8.encode_append, List.flatMap_singleton]
      rfl
    rw [inlet_compact (List.forall_mem_singleton.2 legible_extremes) "first" hbytes rfl]
    exact List.mem_cons_self
  have hboth : ∀ j ∈ [extremes, extremes], j = extremes := by simp
  have hreads : ∀ j ∈ [extremes, extremes], ∃ name contents,
      .ok (some j) ∈ (inlet name contents).upcoming :=
    fun j hj => ⟨"first", _, hboth j hj ▸ hread⟩
  obtain ⟨hlines, hgives⟩ := gives_values hreads fun j hj => hboth j hj ▸ by decide
  refine ⟨(hlines _ List.mem_cons_self).2.2, hgives "again" _ ?_ rfl⟩
  simp only [List.map_cons, List.map_nil, compact_extremes, String.join_cons, String.join_nil,
    String.append_empty]

end JsonLines

end TimeMerge
