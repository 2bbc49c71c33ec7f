import Mathlib.Data.Option.Basic
import TimeMerge.Proofs.Acceptance
import TimeMerge.Proofs.Merging
import TimeMerge.Proofs.Sources

/-!
# What merges come to

With settings that were accepted a merge of texts either writes all their records in order or stops at
an input that goes back in time, unless no channel is large enough for it. -/
namespace TimeMerge.Settings

variable [Record α] {s : Settings} {inlets : List (Inlet α)}

/-- Inputs that are read without a failure are merged, unless one of them goes back in time: then that
is what the merge reports. -/
def Settles (s : Settings) (inlets : List (Inlet α)) (merged : Merged) : Prop :=
  (∀ inlet ∈ inlets, inlet.Readable) →
    ((∀ inlet ∈ inlets, (s.times inlet).Pairwise (· ≤ ·)) →
      ∃ emitted, s.Merges inlets merged emitted) ∧
    (¬(∀ inlet ∈ inlets, (s.times inlet).Pairwise (· ≤ ·)) →
      ∃ p previous ts, merged.stoppage = some (.fault (.outOfOrder p previous ts)))

/-- Inlets settle if they only ever give records that can be written. -/
theorem settles_mergeInlets (hc : s.checkOrder = true) (hcap : s.channelCapacity ≤ maxChannelCapacity)
    {P : α → Prop} (hy : ∀ inlet ∈ inlets, ∀ r ∈ inlet.upcoming, Yields P r)
    (hw : ∀ record, P record → (Record.line? record).isSome) :
    s.Settles inlets (s.mergeInlets false inlets) := by
  intro hreadable
  have hr : ∀ inlet ∈ inlets, inlet.Regular :=
    fun inlet hin => (hreadable inlet hin).regular (hy inlet hin)
  have hlines : ∀ inlet ∈ inlets, ∀ record : α, .ok (some record) ∈ inlet.upcoming →
      (Record.line? record).isSome :=
    fun inlet hin record hm => hw record (hy inlet hin _ hm).of_record
  rcases mergeInlets_cases hcap hr hlines with ⟨ho, hmerges⟩ | ⟨ho, hback⟩
  · exact ⟨fun _ => hmerges, fun h => absurd (ho hc) h⟩
  · exact ⟨fun h => absurd (fun _ => h) ho, fun _ => hback⟩

/-- What a merge with accepted settings comes to, if the order is checked. No channel is made for more
records than one can hold; accepting the settings does not rule that out. -/
theorem merge_ofEnvironment {env : Environment} (h : ofEnvironment env = .ok s)
    (hc : s.checkOrder = true) (inputs : List (String × Contents)) :
    if maxChannelCapacity < s.channelCapacity then
      (s.merge false inputs).stoppage = some .overCapacity
    else
      match s.format with
      | .jsonLines =>
        s.Settles (inputs.map fun x => JsonLines.inlet x.1 x.2) (s.merge false inputs)
      | .delimited d header =>
        s.Settles (inputs.map fun x => Delimited.inlet x.1 d header x.2) (s.merge false inputs) := by
  split
  · rename_i hover
    rw [merge]
    split <;> rw [mergeInlets, if_pos hover]
  · rename_i hcap
    cases hf : s.format with
    | jsonLines =>
      rw [merge_of_jsonLines hf]
      exact settles_mergeInlets hc (Nat.not_lt.1 hcap) (JsonLines.yields_inlets inputs)
        fun _ _ => rfl
    | delimited d header =>
      rw [merge_of_delimited hf]
      exact settles_mergeInlets hc (Nat.not_lt.1 hcap) (Delimited.yields_inlets d header inputs)
        fun row hrow => hrow.isSome_line? ((sound_ofEnvironment h).delimiter d header hf)

/-- Fields between semicolons, the time in the first of them. -/
def semicolons : Environment
  | .inputFormat => some "CSV"
  | .delimiter => some ";"
  | .timestampIndex => some "0"
  | _ => none

def semicolonSettings : Settings :=
  { timestamp := .position 0, format := .delimited 59 false }

/-- A row of the first input has no time, and the last one has no line end. -/
def shifts : List (String × Contents) :=
  [("early", { bytes := Utf8.encode "1;a\n;\n 4 ;d" }),
    ("late", { bytes := Utf8.encode "2;b\n3;\"c\r\"\n" })]

/-- The line that the row of this time is written on. -/
def shiftLine (ts : Timestamp) : Option String :=
  [(1, "1;a"), (2, "2;b"), (3, "3;c"), (4, "4;d")].lookup ts

/-- The rows of both inputs come in the order of their times, each on a line of its own. -/
theorem merge_ofEnvironment_semicolons :
    ofEnvironment semicolons = .ok semicolonSettings ∧
      (semicolonSettings.merge false shifts).stoppage = none ∧
      (semicolonSettings.merge false shifts).text = "1;a\n2;b\n3;c\n4;d\n" ∧
      (semicolonSettings.merge false shifts).meters.malformed = [("ingest", 1)] := by
  have haccepted : ofEnvironment semicolons = .ok semicolonSettings := by decide +kernel
  have hsettles : semicolonSettings.Settles
      (shifts.map fun x => Delimited.inlet x.1 59 false x.2)
      (semicolonSettings.merge false shifts) := by
    have h := merge_ofEnvironment haccepted rfl shifts
    rwa [if_neg (by decide)] at h
  generalize hi : shifts.map _ = inlets at hsettles
  have hreadable : ∀ inlet ∈ inlets, inlet.Readable := by
    subst hi
    exact Inlet.readable_of_isSome (by decide +kernel)
  obtain ⟨emitted, hmerges⟩ := (hsettles hreadable).1 (by subst hi; decide +kernel)
  have htimes : emitted.map (·.timestamp) = [1, 2, 3, 4] := by
    refine List.Perm.eq_of_pairwise (fun a b _ _ => Int.le_antisymm) (hmerges.ascending rfl)
      (by decide) ((hmerges.complete.map _).trans ?_)
    subst hi
    decide +kernel
  have hline : ∀ e ∈ emitted, Record.line? e.record = shiftLine e.timestamp := by
    have hall : ∀ e ∈ semicolonSettings.policy.extract (numbered inlets),
        Record.line? e.record = shiftLine e.timestamp := by
      subst hi
      decide +kernel
    exact fun e he => hall e (hmerges.complete.mem_iff.1 he)
  obtain ⟨lines, hlines, htext⟩ := hmerges.written
  have hsome : lines.map some = ["1;a", "2;b", "3;c", "4;d"].map some := by
    have htable : emitted.map (fun e => shiftLine e.timestamp) =
        (emitted.map (·.timestamp)).map shiftLine := by rw [List.map_map]; rfl
    rw [← hlines, List.map_congr_left hline, htable, htimes]
    decide +kernel
  have hsame := List.map_injective_iff.2 (Option.some_injective String) hsome
  refine ⟨haccepted, hmerges.stoppage, htext.trans ?_, hmerges.malformed.trans ?_⟩
  · rw [hsame]
    decide +kernel
  · subst hi
    decide +kernel

/-- A capacity that is accepted although no channel has it. -/
def roomy : Environment
  | .inputFormat => some "csv"
  | .timestampIndex => some "0"
  | .channelCapacity => some "2305843009213693952"
  | _ => none

def solitary : Contents := { bytes := Utf8.encode "1\n" }

/-- A single record, in order, that is not merged for want of such a channel. -/
theorem not_settles_roomy : ∃ s, ofEnvironment roomy = .ok s ∧ s.checkOrder = true ∧
    s.format = .delimited Ascii.comma false ∧
    ¬s.Settles [Delimited.inlet "one" Ascii.comma false solitary]
      (s.merge false [("one", solitary)]) := by
  have haccepted : ofEnvironment roomy =
      .ok { timestamp := .position 0, format := .delimited Ascii.comma false,
            channelCapacity := maxChannelCapacity + 1 } := by
    decide +kernel
  refine ⟨_, haccepted, rfl, rfl, fun hsettles => ?_⟩
  generalize hi : [Delimited.inlet "one" Ascii.comma false solitary] = inlets at hsettles
  have hreadable : ∀ inlet ∈ inlets, inlet.Readable := by
    subst hi
    exact Inlet.readable_of_isSome (by decide +kernel)
  obtain ⟨emitted, hmerges⟩ := (hsettles hreadable).1 (by subst hi; decide +kernel)
  have hstoppage := hmerges.stoppage
  rw [merge, mergeInlets, if_pos (Nat.lt_succ_self _)] at hstoppage
  cases hstoppage

end TimeMerge.Settings
