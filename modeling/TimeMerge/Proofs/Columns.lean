import TimeMerge.Merge
import TimeMerge.Proofs.Headings
import TimeMerge.Proofs.Rejection

/-!
# Columns by name

Rules that agree on every record to come lead to the same merge. The rule for a name and the rule for a
position agree on the rows of a text in whose header the name stands first at that position. -/
namespace TimeMerge

section Agreement

variable [Record α] {policy : Policy α} {rule : KeyRule α} {record : α}

/-- Two rules find the same in a record, or both find it malformed, each in its own words. -/
def KeyRule.Agree (rule rule' : KeyRule α) (record : α) : Prop :=
  rule.timestamp record = rule'.timestamp record ∨
    ∃ d d', rule.timestamp record = .error (.malformed d) ∧
      rule'.timestamp record = .error (.malformed d')

theorem Merger.add_agree (h : policy.rule.Agree rule record) (p : PartitionId) (m : Merger α) :
    m.add policy p record = m.add { policy with rule } p record ∨
      ∃ d d', m.add policy p record = (.error (.malformed d), m) ∧
        m.add { policy with rule } p record = (.error (.malformed d'), m) := by
  rw [add, add]
  cases m.lane? p with
  | none => exact .inl rfl
  | some lane =>
    dsimp only
    rcases h with h | ⟨d, d', h, h'⟩
    · rw [h]
      exact .inl rfl
    · rw [h, h']
      exact .inr ⟨d, d', rfl, rfl⟩

namespace Intake

variable {P : α → Prop} {s : Intake α}

/-- A record that is malformed by both rules is skipped, whatever is the matter with it. -/
theorem accept_agree (h : policy.rule.Agree rule record) (k : Outlet ω α) (p : PartitionId)
    (s : Intake α) (w : ω) :
    s.accept policy k p record w = s.accept { policy with rule } k p record w := by
  rcases s.merger.add_agree h p with h | ⟨d, d', h, h'⟩
  · rw [accept, accept, h]
  · simp only [accept, h, h']

/-- All records that are still to come have a property. -/
def Expects (P : α → Prop) (s : Intake α) : Prop :=
  ∀ slot ∈ s.slots, ∀ inlet, slot.phase = .reading inlet →
    ∀ record, .ok (some record) ∈ inlet.upcoming → P record

theorem turn_agree (h : s.Expects (policy.rule.Agree rule)) (k : Outlet ω α) (w : ω) :
    s.turn policy k w = s.turn { policy with rule } k w := by
  cases hn : s.nextLive with
  | none => rw [turn_of_idle hn, turn_of_idle hn]
  | some found =>
    obtain ⟨i, p, phase⟩ := found
    obtain ⟨_, _, _, hslot, hopen, _⟩ := nextLive_eq_some hn
    cases phase with
    | closed => cases hopen
    | exhausted inlet => rw [turn_of_exhausted hn, turn_of_exhausted hn]
    | reading inlet =>
      have hinlet := h _ (List.mem_of_getElem? hslot) inlet rfl
      rw [turn_of_reading hn, turn_of_reading hn]
      cases hr : inlet.read.1 with
      | error fault => cases fault <;> rfl
      | ok given =>
        cases given with
        | none => rfl
        | some record =>
          exact accept_agree (hinlet record (Inlet.mem_upcoming_of_read hr)) k p _ w

omit [Record α] in
theorem expects_ofInlets {inlets : List (PartitionId × Inlet α)}
    (h : ∀ x ∈ inlets, ∀ record, .ok (some record) ∈ x.2.upcoming → P record) :
    Expects P (ofInlets inlets) := by
  intro slot hslot inlet hphase
  obtain ⟨x, hx, rfl⟩ := List.mem_map.1 hslot
  cases hphase
  exact h x hx

theorem Expects.turn (h : s.Expects P) (policy : Policy α) (k : Outlet ω α) (w : ω) :
    (s.turn policy k w).2.1.Expects P := by
  cases hn : s.nextLive with
  | none =>
    intro slot hslot
    rw [turn_of_idle hn, (slots_finish k s w).1] at hslot
    exact h slot hslot
  | some found =>
    obtain ⟨i, slot⟩ := found
    obtain ⟨read, phase', becomes, visited⟩ := turn_visits hn policy k w
    have hslot := h slot (List.mem_of_getElem? visited.found)
    intro slot' hslot' inlet' hphase record hrecord
    rw [visited.slots] at hslot'
    rcases List.mem_or_eq_of_mem_set hslot' with hslot' | rfl
    · exact h slot' hslot' inlet' hphase record hrecord
    · -- only a slot that is read further has still records to come
      obtain rfl : phase' = .reading inlet' := hphase
      generalize hold : slot.phase = phase at becomes
      cases becomes with
      | @reads inlet more => exact hslot inlet hold record (inlet.upcoming_read _ hrecord)

theorem turns_agree (h : s.Expects (policy.rule.Agree rule)) (k : Outlet ω α) (n : Nat) (w : ω) :
    turns policy k n s w = turns { policy with rule } k n s w := by
  induction n generalizing s w with
  | zero => rfl
  | succ n ih =>
    have hnext := h.turn policy k w
    rw [turns, turns, ← turn_agree h k w]
    rcases hturn : s.turn policy k w with ⟨fault | turned, s', w'⟩
    · rfl
    · rw [hturn] at hnext
      cases turned with
      | finished => rfl
      | _ => exact ih hnext w'

theorem run_agree (h : s.Expects (policy.rule.Agree rule)) (k : Outlet ω α) (w : ω) :
    s.run policy k w = s.run { policy with rule } k w :=
  turns_agree h k s.turnBound w

end Intake

/-- Inputs are merged alike under rules that agree on all their records. -/
theorem Settings.mergeInlets_agree {s : Settings} {key : KeySpec} {inlets : List (Inlet α)}
    (h : ∀ inlet ∈ inlets, ∀ record, .ok (some record) ∈ inlet.upcoming →
      s.timestamp.rule.Agree key.rule record) (cancelled : Bool) :
    s.mergeInlets cancelled inlets = { s with timestamp := key }.mergeInlets cancelled inlets := by
  have hexpects : (Intake.ofInlets (inlets.zipIdx.map fun x => (x.2, x.1))).Expects
      ((s.policy : Policy α).rule.Agree key.rule) := by
    refine Intake.expects_ofInlets fun x hx => ?_
    obtain ⟨y, hy, rfl⟩ := List.mem_map.1 hx
    exact h y.1 (List.fst_mem_of_mem_zipIdx hy)
  have hrun := Intake.run_agree hexpects lineOutlet { state := {} }
  rw [mergeInlets, mergeInlets]
  dsimp only
  rw [hrun]
  rfl

end Agreement

namespace Delimited

variable {d : UInt8} {contents : Contents} {name : String} {i : Nat}

/-- In the header of a text, if it has any record, the name stands first at this position. -/
def HasColumn (d : UInt8) (contents : Contents) (name : String) (i : Nat) : Prop :=
  ∀ raw ∈ (wholeRecords d contents).head?, ∃ ss : List String,
    raw.fields = ss.map Utf8.encode ∧ FirstAt (ss.map Text.trim) name i

theorem Row.agree {row : Row} {names : List String} (header : row.names = some names)
    (first : FirstAt names name i) :
    (KeySpec.named name).rule.Agree (KeySpec.position i).rule row := by
  have hcell : Record.cellNamed row name = Record.cellAt row i := by
    have hnamed : row.named? name = row.fields[i]? := by
      rw [Row.named?, header]
      dsimp only
      rw [firstAt_iff.1 first, Option.bind_some]
    exact congrArg (Option.map Cell.text) hnamed
  rw [KeyRule.Agree, KeySpec.rule, KeySpec.rule, KeyRule.timestamp, KeyRule.timestamp, KeyRule.find,
    KeyRule.find, hcell]
  cases Record.cellAt row i with
  | none => exact .inr ⟨_, _, rfl, rfl⟩
  | some cell => exact .inl rfl

/-- Every row under a header has its names. -/
theorem HasColumn.documentRows (h : HasColumn d contents name i) (source : String) {row : Row}
    (hrow : .ok (some row) ∈ documentRows source d true contents) :
    ∃ names, row.names = some names ∧ FirstAt names name i := by
  simp only [Delimited.documentRows, if_true] at hrow
  rw [HasColumn] at h
  cases hraws : wholeRecords d contents with
  | nil => simp [hraws, readNamedRows] at hrow
  | cons raw raws =>
    obtain ⟨ss, hss, first⟩ := h raw (by rw [hraws]; rfl)
    have hheader : readRecord source contents.bytes true 0 raw = .ok (ss.map Text.trim) := by
      rw [readRecord, hss, decodeFields_texts]
      rfl
    rw [hraws, List.zipIdx_cons, List.map_cons, hheader] at hrow
    obtain ⟨fields, _, he⟩ := List.mem_map.1 hrow
    cases fields with
    | error e => cases he
    | ok fs =>
      cases he
      exact ⟨_, rfl, first⟩

theorem HasColumn.inlet (h : HasColumn d contents name i) (source : String) {row : Row}
    (hrow : .ok (some row) ∈ (Delimited.inlet source d true contents).upcoming) :
    ∃ names, row.names = some names ∧ FirstAt names name i := by
  rw [Delimited.inlet] at hrow
  split at hrow
  · cases hrow
  · cases hfailure : contents.failure <;> rw [hfailure] at hrow
    · exact h.documentRows source hrow
    · rcases List.mem_append.1 hrow with hrow | hrow
      · exact h.documentRows source hrow
      · cases List.mem_singleton.1 hrow

end Delimited

/-- If a name stands first at the same position in the headers of all inputs, then it does not matter
whether the timestamps are looked for by that name or at that position. -/
theorem Settings.merge_by_name {s : Settings} {d : UInt8} (hformat : s.format = .delimited d true)
    {name : String} {i : Nat} {inputs : List (String × Contents)}
    (hcolumn : ∀ input ∈ inputs, Delimited.HasColumn d input.2 name i) (cancelled : Bool) :
    { s with timestamp := .named name }.merge cancelled inputs =
      { s with timestamp := .position i }.merge cancelled inputs := by
  simp only [merge, hformat]
  refine mergeInlets_agree (α := Delimited.Row) (fun inlet hinlet row hrow => ?_) cancelled
  obtain ⟨input, hinput, rfl⟩ := List.mem_map.1 hinlet
  obtain ⟨names, header, first⟩ := (hcolumn input hinput).inlet input.1 hrow
  exact Delimited.Row.agree header first

namespace Delimited

variable {d : UInt8} {contents : Contents} {name : String} {i : Nat}

/-- The header of a text that does not fail and starts with no mark. -/
theorem hasColumn_of_record? {ss : List String} (hends : contents.failure = none)
    (hmark : byteOrderMark.isPrefixOf contents.opening = false)
    (hfields : ∀ t ∈ record? d contents.bytes, t.field :: t.fields = ss.map Utf8.encode)
    (first : FirstAt (ss.map Text.trim) name i) : HasColumn d contents name i := by
  intro raw hraw
  rw [wholeRecords, hends, documentRecords, hmark, if_neg Bool.false_ne_true] at hraw
  simp only [Option.isNone_none, if_true] at hraw
  rw [records] at hraw
  split at hraw
  · cases hraw
  · rename_i t ht
    cases hraw
    exact ⟨ss, hfields t ht, first⟩

/-- Under these headers the timestamps stand in the second column. Some rows are too short for it, or
too long, or hold no timestamp there. -/
def uneven : List (String × Contents) :=
  [("quoted", { bytes := Utf8.encode "id;\" ts \";ts\r\na;5;9\nb\nc;-1;2\nd; 7;1;8\n" }),
    ("empty", { bytes := [] }),
    ("broken", { bytes := Utf8.encode "\nn;ts\n" ++ [0xFF, 59, 54, 10] ++ Utf8.encode "e;6" })]

end Delimited

theorem Settings.merge_by_name_uneven :
    let s : Settings := { format := .delimited 59 true }
    (∀ input ∈ Delimited.uneven, Delimited.HasColumn 59 input.2 "ts" 1) ∧
      { s with timestamp := .named "ts" }.merge false Delimited.uneven =
        { s with timestamp := .position 1 }.merge false Delimited.uneven := by
  have hcolumn : ∀ input ∈ Delimited.uneven, Delimited.HasColumn 59 input.2 "ts" 1 := by
    have first : ∀ ss ∈ [["id", " ts ", "ts"], ["n", "ts"]],
        Delimited.FirstAt (ss.map Text.trim) "ts" 1 := by
      simp only [Delimited.firstAt_iff]
      decide +kernel
    simp only [Delimited.uneven, List.forall_mem_cons]
    refine ⟨?_, ?_, ?_, List.forall_mem_nil _⟩
    · exact Delimited.hasColumn_of_record? rfl (by decide +kernel) (by decide +kernel)
        (first _ List.mem_cons_self)
    · exact Delimited.hasColumn_of_record? rfl rfl (by decide +kernel) (first _ List.mem_cons_self)
    · exact Delimited.hasColumn_of_record? rfl (by decide +kernel) (by decide +kernel)
        (first _ (List.mem_cons_of_mem _ List.mem_cons_self))
  exact ⟨hcolumn, merge_by_name rfl hcolumn false⟩

end TimeMerge
