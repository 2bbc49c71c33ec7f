import Mathlib.Data.Option.Basic
import TimeMerge.Proofs.Handing
import TimeMerge.Proofs.Rereading

/-!
# Merging what was merged

The text of a merge is an input that a merge with the same settings passes on as it is: every line is
read back as the record that it was written for, and the only input of a merge keeps its order. -/
namespace TimeMerge.Settings

section One

variable [Record α] {s : Settings} {inlets : List (Inlet α)} {inlet : Inlet α}
  {es : List (Entry α)}

theorem filterMap_key? {policy : Policy α}
    (keyed : ∀ e ∈ es, policy.rule.timestamp e.record = .ok e.timestamp) :
    (es.map fun e => (.ok (some e.record) : Reading α)).filterMap policy.key? =
      es.map fun e => (e.timestamp, e.record) := by
  induction es with
  | nil => rfl
  | cons e es ih =>
    obtain ⟨he, hes⟩ := List.forall_mem_cons.1 keyed
    have hkey : policy.key? (.ok (some e.record)) = some (e.timestamp, e.record) := by
      simp only [Policy.key?, he]
    rw [List.map_cons, List.filterMap_cons_some hkey, ih hes, List.map_cons]

/-- An only input whose records all have timestamps, in order if that is checked, is passed on as it
is. -/
theorem merges_one (hcap : s.channelCapacity ≤ maxChannelCapacity) (hends : inlet.failure = none)
    (hup : inlet.upcoming = es.map fun e => .ok (some e.record))
    (keyed : ∀ e ∈ es, s.policy.rule.timestamp e.record = .ok e.timestamp)
    (ordered : s.checkOrder = true → (es.map (·.timestamp)).Pairwise (· ≤ ·))
    (written : ∀ e ∈ es, (Record.line? e.record).isSome) :
    ∃ emitted, s.Merges [inlet] (s.mergeInlets false [inlet]) emitted ∧
      emitted.map (·.record) = es.map (·.record) := by
  have hread : inlet.upcoming.filterMap s.policy.key? =
      es.map fun e => (e.timestamp, e.record) := hup ▸ filterMap_key? keyed
  have hregular : ∀ i ∈ [inlet], i.Regular := by
    intro i hi
    obtain rfl := List.mem_singleton.1 hi
    refine ⟨hends, fun r hr => ?_⟩
    rw [hup] at hr
    obtain ⟨e, _, rfl⟩ := List.mem_map.1 hr
    exact .inl ⟨e.record, rfl⟩
  have hlines : ∀ i ∈ [inlet], ∀ record : α, .ok (some record) ∈ i.upcoming →
      (Record.line? record).isSome := by
    intro i hi record hr
    obtain rfl := List.mem_singleton.1 hi
    rw [hup] at hr
    obtain ⟨e, he, heq⟩ := List.mem_map.1 hr
    cases heq
    exact written e he
  have htimes : s.checkOrder = true → ∀ i ∈ [inlet], (s.times i).Pairwise (· ≤ ·) := by
    intro hc i hi
    obtain rfl := List.mem_singleton.1 hi
    rw [times, hread, List.map_map]
    exact ordered hc
  have hmerges := (mergeInlets_cases hcap hregular hlines).resolve_right fun h => h.1 htimes
  obtain ⟨_, emitted, hmerges⟩ := hmerges
  refine ⟨emitted, hmerges, ?_⟩
  have hsource := hmerges.sources (0, inlet) (List.mem_singleton.2 rfl)
  have hall : ∀ e ∈ emitted, e.partition = 0 := by
    intro e he
    obtain ⟨x, hx, hm⟩ := List.mem_flatMap.1 (hmerges.complete.mem_iff.1 he)
    obtain rfl : x = (0, inlet) := List.mem_singleton.1 hx
    exact Policy.partition_of_mem_entries hm
  rw [List.filter_eq_self.2 fun e he => by simp [hall e he]] at hsource
  rw [hsource, Policy.entries, hread, List.map_map, List.map_map]
  rfl

/-- What was handed on, as an input, is handed on again, and nothing is skipped. -/
theorem mergeInlets_handed (hcap : s.channelCapacity ≤ maxChannelCapacity)
    (hends : inlet.failure = none)
    (hup : inlet.upcoming = (s.handed inlets).map fun r => .ok (some r))
    (written : ∀ r ∈ s.handed inlets, (Record.line? r).isSome) :
    (s.mergeInlets false [inlet]).stoppage = none ∧
      (s.mergeInlets false [inlet]).text = (s.mergeInlets false inlets).text ∧
      (s.mergeInlets false [inlet]).meters.malformed = [] := by
  obtain ⟨es, hhanded, hgiven, hordered⟩ := s.handed_given inlets
  rw [hhanded] at hup written
  rw [List.map_map] at hup
  have hwritten : ∀ e ∈ es, (Record.line? e.record).isSome :=
    fun e he => written _ (List.mem_map_of_mem he)
  have keyed : ∀ e ∈ es, s.policy.rule.timestamp e.record = .ok e.timestamp :=
    fun e he => (hgiven e he).keyed
  obtain ⟨emitted, hmerges, hsame⟩ := merges_one hcap hends hup keyed hordered hwritten
  refine ⟨hmerges.stoppage, ?_, ?_⟩
  · obtain ⟨lines, hlines, htext⟩ := hmerges.written
    obtain ⟨lines', hlines', hfilter⟩ := exists_lines written
    have heq : lines = lines' := by
      refine List.map_injective_iff.2 (Option.some_injective String) ?_
      rw [← hlines, ← hlines', ← hsame, List.map_map]
      rfl
    rw [htext, heq, Merged.text, lines_mergeInlets hcap, hhanded, hfilter]
  · have hskips : s.policy.skips (numbered [inlet]) = 0 := by
      rw [Policy.skips, List.countP_eq_zero]
      intro r hr
      obtain ⟨x, hx, hr⟩ := List.mem_flatMap.1 hr
      obtain rfl : x = (0, inlet) := List.mem_singleton.1 hx
      rw [hup] at hr
      obtain ⟨e, he, rfl⟩ := List.mem_map.1 hr
      simp [Policy.key?, keyed e he]
    rw [hmerges.malformed, hskips]
    rfl

/-- What is handed on was given by an input, so what holds of all its records holds of it. -/
theorem holds_of_mem_handed {P : α → Prop} (hy : ∀ i ∈ inlets, ∀ r ∈ i.upcoming, Yields P r)
    {record : α} (h : record ∈ s.handed inlets) : P record := by
  obtain ⟨es, hhanded, hgiven, _⟩ := s.handed_given inlets
  rw [hhanded] at h
  obtain ⟨e, he, rfl⟩ := List.mem_map.1 h
  obtain ⟨x, hx, hm⟩ := (hgiven e he).source
  exact (hy _ (mem_numbered hx) _ hm).of_record

end One

variable {s : Settings} {inputs : List (String × Contents)}

/-- What the text of a merge has to be like to be read back as it is: only whole numbers in JSON, and
rows without a header whose delimiter is told from quotes and line ends and that are not taken to
start with a byte order mark. -/
def Repeats (s : Settings) (inputs : List (String × Contents)) : Prop :=
  match s.format with
  | .jsonLines => ∀ j ∈ s.handed (inputs.map fun x => JsonLines.inlet x.1 x.2),
      ∀ n ∈ j.numbers, n.isInteger = true
  | .delimited d header => header = false ∧ d.toNat < 128 ∧ Delimited.Separates d ∧
      (s.merge false inputs).text.toList.head? ≠ some '\uFEFF'

/-- Lines of JSON give the values that were written on them. -/
theorem inlet_text_jsonLines {inlets : List (Inlet Json)}
    (hcap : s.channelCapacity ≤ maxChannelCapacity)
    (hy : ∀ i ∈ inlets, ∀ r ∈ i.upcoming, Yields JsonLines.Parsed r)
    (whole : ∀ j ∈ s.handed inlets, ∀ n ∈ j.numbers, n.isInteger = true) (name : String)
    {contents : Contents} (hbytes : contents.bytes = Utf8.encode (s.mergeInlets false inlets).text)
    (hends : contents.failure = none) :
    JsonLines.inlet name contents =
      { name, upcoming := (s.handed inlets).map fun j => .ok (some j) } := by
  have legible : ∀ j ∈ s.handed inlets, Json.Legible Json.Number.Whole Json.maxDepth j := by
    intro j hj
    obtain ⟨line, hline⟩ := holds_of_mem_handed hy hj
    exact (Json.legible_parse hline).imp fun n hn hfits => ⟨whole j hj n hn, hfits⟩
  refine JsonLines.inlet_compact legible name ?_ hends
  rw [hbytes, Merged.text, Utf8.encode_lines, lines_mergeInlets hcap]
  exact flatMap_lines fun j _ => ⟨_, rfl, rfl⟩

/-- Lines of rows give the rows that were written on them. -/
theorem inlet_text_delimited {d : UInt8} {inlets : List (Inlet Delimited.Row)}
    (hcap : s.channelCapacity ≤ maxChannelCapacity)
    (hy : ∀ i ∈ inlets, ∀ r ∈ i.upcoming, Yields (Delimited.Row.Read d false) r)
    (hascii : d.toNat < 128) (hd : Delimited.Separates d)
    (hmark : (s.mergeInlets false inlets).text.toList.head? ≠ some '\uFEFF') (name : String)
    {contents : Contents} (htext : contents.bytes = Utf8.encode (s.mergeInlets false inlets).text)
    (hends : contents.failure = none) :
    Delimited.inlet name d false contents =
      { name, upcoming := (s.handed inlets).map fun row => .ok (some row) } := by
  have hread : ∀ row ∈ s.handed inlets, Delimited.Row.Read d false row :=
    fun row hrow => holds_of_mem_handed hy hrow
  have hrows : ∀ row ∈ s.handed inlets,
      row.delimiter = d ∧ row.fields ≠ [] ∧ ∀ t ∈ row.fields, Text.Trimmed t :=
    fun row hrow => ⟨(hread row hrow).delimiter, (hread row hrow).fields, (hread row hrow).trimmed⟩
  have hsame : ∀ row ∈ s.handed inlets,
      (.ok (some { row with names := none }) : Reading Delimited.Row) = .ok (some row) := by
    intro row hrow
    rw [← (hread row hrow).names rfl]
  have hbytes : contents.bytes = Utf8.encode
      (String.join (((s.handed inlets).filterMap Record.line?).map (· ++ "\n"))) := by
    rw [htext, Merged.text, lines_mergeInlets hcap]
  have hnomark : ¬Delimited.byteOrderMark <+: contents.bytes := by
    intro hprefix
    exact hmark (Delimited.head?_of_mark (htext ▸ hprefix))
  rw [Delimited.inlet_rows hascii hd hrows name hbytes hends hnomark, List.map_congr_left hsame]

/-- Merging the text of a merge with the same settings gives that text again, and nothing in it is
malformed. -/
theorem merge_merged (hdone : (s.merge false inputs).stoppage = none) (hs : s.Repeats inputs)
    (name : String) {contents : Contents}
    (hbytes : contents.bytes = Utf8.encode (s.merge false inputs).text)
    (hends : contents.failure = none) :
    (s.merge false [(name, contents)]).stoppage = none ∧
      (s.merge false [(name, contents)]).text = (s.merge false inputs).text ∧
      (s.merge false [(name, contents)]).meters.malformed = [] := by
  cases hf : s.format with
  | jsonLines =>
    simp only [Repeats, hf] at hs
    rw [merge_of_jsonLines hf] at hdone hbytes
    rw [merge_of_jsonLines hf, merge_of_jsonLines hf, List.map_singleton]
    have hcap := capacity_of_stoppage hdone (by simp)
    have hinlet := inlet_text_jsonLines hcap (JsonLines.yields_inlets inputs) hs name hbytes hends
    exact mergeInlets_handed hcap (by rw [hinlet]) (by rw [hinlet]) fun _ _ => rfl
  | delimited d header =>
    simp only [Repeats, hf] at hs
    obtain ⟨rfl, hascii, hd, hmark⟩ := hs
    rw [merge_of_delimited hf] at hdone hbytes hmark
    rw [merge_of_delimited hf, merge_of_delimited hf, List.map_singleton]
    have hcap := capacity_of_stoppage hdone (by simp)
    have hy := Delimited.yields_inlets d false inputs
    have hinlet := inlet_text_delimited hcap hy hascii hd hmark name hbytes hends
    exact mergeInlets_handed hcap (by rw [hinlet]) (by rw [hinlet])
      fun row hrow => (holds_of_mem_handed hy hrow).isSome_line? hascii

def unordered : Settings :=
  { timestamp := .position 0, format := .delimited 59 false, checkOrder := false }

/-- Rows that go back in time, with quotes, blanks and line ends in their fields. -/
def strays : List (String × Contents) :=
  [("back", { bytes := Utf8.encode "3;\" c;\r\"\nx\n1;\"a;\"\"\"" }),
    ("forth", { bytes := Utf8.encode "2;\"b\n\n\";" })]

def straysText : String := "2;b;\n3;\"c;\"\n1;\"a;\"\"\"\n"

/-- Rows that came out of order stay out of order. -/
theorem merge_merged_unordered :
    (unordered.merge false strays).stoppage = none ∧
      (unordered.merge false strays).text = straysText ∧
      (unordered.merge false [("again", { bytes := Utf8.encode straysText })]).stoppage = none ∧
      (unordered.merge false [("again", { bytes := Utf8.encode straysText })]).text = straysText := by
  have hdone : (unordered.merge false strays).stoppage = none := by decide +kernel
  have htext : (unordered.merge false strays).text = straysText := by decide +kernel
  have hrepeats : unordered.Repeats strays := by
    refine ⟨rfl, by decide, ⟨by decide, rfl⟩, ?_⟩
    rw [htext]
    decide +kernel
  have hbytes : ({ bytes := Utf8.encode straysText } : Contents).bytes =
      Utf8.encode (unordered.merge false strays).text := congrArg Utf8.encode htext.symm
  obtain ⟨hdone', htext', _⟩ := merge_merged hdone hrepeats "again" hbytes rfl
  exact ⟨hdone, htext, hdone', htext'.trans htext⟩

end TimeMerge.Settings
