import TimeMerge.CommandLine
import TimeMerge.Proofs.Acceptance
import TimeMerge.Proofs.Interruption
import TimeMerge.Proofs.Sources

/-!
# What a failing merge prints

A merge that a fault ends has printed whole lines, and just those that were safe to print: what it had
accepted by then up to the point that every input still being read has reached. -/
namespace TimeMerge

namespace Intake

variable [Record α] {policy : Policy α} {k : Outlet ω α} {w : ω}

theorem replies_succ (policy : Policy α) (k : Outlet ω α) (n : Nat) (s : Intake α) (w : ω) :
    replies policy k (n + 1) s w = replies policy k n s w ++
      [((pulls policy k n s w).1.turn policy k (pulls policy k n s w).2).1] := by
  induction n generalizing s w with
  | zero => rfl
  | succ n ih =>
    rw [replies, ih]
    rfl

end Intake

namespace Settings

section Merge

variable [Record α] {s : Settings} {inlets : List (Inlet α)} {fault : Fault}

/-- What the first `n` turns of a merge come to. -/
def repliesBy (s : Settings) (inlets : List (Inlet α)) (n : Nat) : List (Except Fault Turn) :=
  Intake.replies s.policy lineOutlet n (.ofInlets (numbered inlets)) { state := {} }

/-- What a merge has read by its turn `n`, and from which input. -/
def readBy (s : Settings) (inlets : List (Inlet α)) (n : Nat) : List (Nat × Reading α) :=
  Intake.readings s.policy lineOutlet n (.ofInlets (numbered inlets)) { state := {} }

/-- What a merge has accepted by its turn `n`. -/
def acceptedBy (s : Settings) (inlets : List (Inlet α)) (n : Nat) : List (Entry α) :=
  Intake.arrivals s.policy lineOutlet n (.ofInlets (numbered inlets)) { state := {} }

/-- A fault has come up after `n` turns that went well. What was accepted by then are the records with
timestamps among the first answers of each input, and of these the text has, each on a line of its
own, what is safe while the inputs whose end has not been read may go on. -/
structure BreaksOff (s : Settings) (inlets : List (Inlet α)) (fault : Fault) (text : String)
    (n : Nat) (emitted : List (Entry α)) : Prop where
  well : ∀ answer ∈ s.repliesBy inlets n, ∃ t, answer = .ok t ∧ t ≠ .finished
  fails : s.repliesBy inlets (n + 1) = s.repliesBy inlets n ++ [.error fault]
  answers : ∀ i inlet, inlets[i]? = some inlet →
    ∃ m, Intake.answersOf i (s.readBy inlets n) = (inlet.outcomes m).1
  sources : ∀ e ∈ s.acceptedBy inlets n, e.partition < inlets.length
  accepted : ∀ i < inlets.length, (s.acceptedBy inlets n).filter (·.partition = i) =
    s.policy.entries i (Intake.answersOf i (s.readBy inlets n))
  safe : SafePrefix
    (fun i => i < inlets.length ∧ .ok none ∉ Intake.answersOf i (s.readBy inlets n))
    (s.acceptedBy inlets n) emitted
  written : ∃ lines : List String, emitted.map (fun e => Record.line? e.record) = lines.map some ∧
    text = String.join (lines.map (· ++ "\n"))

omit [Record α] in
theorem getElem?_numbered (inlets : List (Inlet α)) (i : Nat) :
    (numbered inlets)[i]? = inlets[i]?.map fun inlet => (i, inlet) := by
  rw [numbered, List.getElem?_map, List.getElem?_zipIdx, Option.map_map, Nat.zero_add]
  rfl

theorem run_of_fault (h : (s.mergeInlets false inlets).stoppage = some (.fault fault)) :
    ((Intake.ofInlets (numbered inlets)).run s.policy lineOutlet { state := {} }).1 =
      .error fault := by
  have hcap := capacity_of_stoppage h (by simp)
  rw [mergeInlets, if_neg (Nat.not_lt.2 hcap), if_neg Bool.false_ne_true] at h
  rcases hrun : (Intake.ofInlets (numbered inlets)).run s.policy lineOutlet { state := {} } with
    ⟨result, left⟩
  rw [numbered] at hrun
  simp only [hrun] at h
  cases result with
  | error fault' =>
    cases h
    rfl
  | ok finished => cases finished <;> cases h

/-- A merge that a fault ends breaks off, if its records can be written. -/
theorem exists_breaksOff (hc : s.checkOrder = true)
    (hlines : ∀ inlet ∈ inlets, ∀ record : α, .ok (some record) ∈ inlet.upcoming →
      (Record.line? record).isSome)
    (hfault : (s.mergeInlets false inlets).stoppage = some (.fault fault)) :
    ∃ n emitted, s.BreaksOff inlets fault (s.mergeInlets false inlets).text n emitted := by
  have hn := nodup_numbered inlets
  have hcap := capacity_of_stoppage hfault (by simp)
  have hstart := Intake.phased_ofInlets (numbered inlets)
  obtain ⟨n, hwell, hlast⟩ := Intake.exists_turn_of_error (run_of_fault hfault)
  have hok : ∀ answer ∈ Intake.replies s.policy lineOutlet n (.ofInlets (numbered inlets))
      { state := {} }, ∃ t, answer = .ok t := fun answer ha => (hwell answer ha).imp fun _ ht => ht.1
  obtain ⟨emitted, cs, hstate, hrecords, hsafe⟩ :=
    Intake.exists_safePrefix hn hc written_nil.neverFails hok hlast
  have hphased := hstart.pulls_over hn s.policy lineOutlet n { state := {} }
  have hnumbered : ∀ {i : Nat} {inlet : Inlet α}, inlets[i]? = some inlet →
      (numbered inlets)[i]? = some (i, inlet) := by
    intro i inlet hi
    rw [getElem?_numbered, hi, Option.map_some]
  refine ⟨n, emitted, hwell, ?_, fun i inlet hi => ?_, fun e he => ?_, fun i hi => ?_,
    hsafe.of_iff fun p => ?_, ?_⟩
  · rw [repliesBy, Intake.replies_succ, hlast]
    rfl
  · exact hphased.exists_outcomes (hnumbered hi)
  · obtain ⟨x, hx, hp, _⟩ := hstart.mem_of_arrivals hn he
    have hm : x.1 ∈ (numbered inlets).map (·.1) := List.mem_map_of_mem hx
    rwa [map_fst_numbered, List.mem_range, hp] at hm
  · exact hstart.arrivals_eq hn (hnumbered (List.getElem?_eq_getElem hi)) hok
  · constructor
    · rintro ⟨i, x, hx, rfl, hend⟩
      rw [getElem?_numbered] at hx
      obtain ⟨inlet, hi, rfl⟩ := Option.map_eq_some_iff.1 hx
      exact ⟨(List.getElem?_eq_some_iff.1 hi).1, hend⟩
    · rintro ⟨hp, hend⟩
      exact ⟨p, _, hnumbered (List.getElem?_eq_getElem hp), rfl, hend⟩
  · have hgiven : ∀ r ∈ emitted.map (·.record), (Record.line? r).isSome := by
      intro r hr
      obtain ⟨e, he, rfl⟩ := List.mem_map.1 hr
      obtain ⟨x, hx, _, hm⟩ := hstart.mem_of_arrivals hn (hsafe.mem_accepted he)
      exact hlines x.2 (mem_numbered hx) e.record hm
    obtain ⟨lines, hall, hfilter⟩ := exists_lines hgiven
    have hhanded : s.handed inlets = emitted.map (·.record) := by
      rw [handed, Intake.run, hstate, (written_nil.replay cs).state, ← hrecords]
      rfl
    refine ⟨lines, by rw [← hall, List.map_map]; rfl, ?_⟩
    rw [Merged.text, lines_mergeInlets hcap, hhanded, hfilter]

end Merge

/-- A fault ends the merge of these inputs and leaves this text. -/
def Breaks (s : Settings) (inputs : List (String × Contents)) (fault : Fault) (text : String) : Prop :=
  match s.format with
  | .jsonLines => ∃ n emitted,
      s.BreaksOff (inputs.map fun x => JsonLines.inlet x.1 x.2) fault text n emitted
  | .delimited d header => ∃ n emitted,
      s.BreaksOff (inputs.map fun x => Delimited.inlet x.1 d header x.2) fault text n emitted

theorem merge_breaks {env : Environment} {s : Settings} (h : ofEnvironment env = .ok s)
    (hc : s.checkOrder = true) {inputs : List (String × Contents)} {fault : Fault}
    (hfault : (s.merge false inputs).stoppage = some (.fault fault)) :
    s.Breaks inputs fault (s.merge false inputs).text := by
  rw [Breaks]
  cases hf : s.format with
  | jsonLines =>
    rw [merge_of_jsonLines hf] at hfault ⊢
    exact exists_breaksOff hc (fun _ _ _ _ => rfl) hfault
  | delimited d header =>
    rw [merge_of_delimited hf] at hfault ⊢
    refine exists_breaksOff hc (fun inlet hin row hm => ?_) hfault
    have hread := (Delimited.yields_inlets d header inputs inlet hin _ hm).of_record
    exact hread.isSome_line? ((sound_ofEnvironment h).delimiter d header hf)

end Settings

namespace CommandLine

/-- Merging starts: there are paths, the settings are accepted, and all inputs can be opened. -/
structure Starts (arguments : List String) (env : Settings.Environment)
    (look : String → Except String Contents) (settings : Settings)
    (inputs : List (String × Contents)) : Prop where
  paths : arguments.filter (!isOption ·) ≠ []
  accepted : Settings.ofEnvironment env = .ok settings
  opened : openAll look (arguments.filter (!isOption ·)) = .ok inputs

variable {arguments : List String} {env : Settings.Environment}
  {look : String → Except String Contents} {settings : Settings} {inputs : List (String × Contents)}
  {fault : Fault}

theorem Starts.run_eq (h : Starts arguments env look settings inputs) : run arguments env look =
    ending (wantsMeters arguments) (settings.merge false inputs) := by
  have hopened := h.opened
  rw [run]
  split
  · rename_i hnil
    exact absurd hnil h.paths
  · simp only [h.accepted, hopened]

/-- A run that a fault ends has a code of its own, tells the fault, shows no meters and has printed what
was safe to print. -/
theorem run_breaks (h : Starts arguments env look settings inputs)
    (hc : settings.checkOrder = true)
    (hfault : (settings.merge false inputs).stoppage = some (.fault fault)) :
    (run arguments env look).code ≠ 0 ∧ (run arguments env look).meters = none ∧
      (run arguments env look).error = some fault.describe ∧
      settings.Breaks inputs fault (run arguments env look).output := by
  have hending : run arguments env look = faulty fault (settings.merge false inputs).text := by
    rw [h.run_eq, ending, hfault]
  rw [hending]
  exact ⟨Nat.one_ne_zero, rfl, rfl, Settings.merge_breaks h.accepted hc hfault⟩

/-- Rows of a single number, which is their time. -/
def numberRows : Settings.Environment
  | .inputFormat => some "csv"
  | .timestampIndex => some "0"
  | _ => none

def numberSettings : Settings :=
  { timestamp := .position 0, format := .delimited Ascii.comma false }

/-- The first input goes back to 4 when the second has come to 3. -/
def turningBack : List (String × Contents) :=
  [("back", { bytes := Utf8.encode "1\n5\n4\n" }), ("forth", { bytes := Utf8.encode "2\n3\n9\n" })]

def lookBack (path : String) : Except String Contents :=
  match turningBack.lookup path with
  | some contents => .ok contents
  | none => .error "No such file"

/-- The 5 stays behind, since a 4 might still have come from the other input. -/
theorem run_breaks_backwards :
    let left := run ["--metrics", "back", "forth"] numberRows lookBack
    left.code ≠ 0 ∧ left.meters = none ∧ left.output = "1\n2\n3\n" ∧
      numberSettings.Breaks turningBack (.outOfOrder 0 5 4) "1\n2\n3\n" := by
  have hstarts : Starts ["--metrics", "back", "forth"] numberRows lookBack numberSettings
      turningBack := ⟨by decide +kernel, by decide +kernel, by decide +kernel⟩
  have hfault : (numberSettings.merge false turningBack).stoppage =
      some (.fault (.outOfOrder 0 5 4)) := by decide +kernel
  have houtput : (run ["--metrics", "back", "forth"] numberRows lookBack).output =
      "1\n2\n3\n" := by decide +kernel
  obtain ⟨hcode, hmeters, _, hbreaks⟩ := run_breaks hstarts rfl hfault
  exact ⟨hcode, hmeters, houtput, houtput ▸ hbreaks⟩

end CommandLine

end TimeMerge
