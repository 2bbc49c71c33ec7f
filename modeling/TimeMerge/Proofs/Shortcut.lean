import TimeMerge.Proofs.Frontier
import TimeMerge.Proofs.Precedence

/-!
# The shortcut for ties

A head that equals the watermark goes at once, without a look at the partitions that are empty. The
plain rule waits until it is all clear and then takes the least head. The two agree: what the plain
rule would release is what goes, and what goes ahead of it could not have been overtaken.
-/
namespace TimeMerge

namespace Merger

/-- Every open partition has a head or is disabled. -/
def AllClear (m : Merger α) : Prop :=
  ∀ p ∈ m.partitions, m.queued p ≠ [] ∨ m.isDisabled p = true

instance (m : Merger α) : Decidable m.AllClear :=
  inferInstanceAs (Decidable (∀ p ∈ m.partitions, m.queued p ≠ [] ∨ m.isDisabled p = true))

/-- A head that none is smaller than, nor equal to on a lower partition. -/
def Least (m : Merger α) (e : Entry α) : Prop :=
  (m.queued e.partition).head? = some e ∧ ∀ q ∈ m.partitions, ∀ f ∈ (m.queued q).head?,
    e.timestamp < f.timestamp ∨ e.timestamp = f.timestamp ∧ e.partition ≤ q

instance [DecidableEq α] (m : Merger α) (e : Entry α) : Decidable (m.Least e) :=
  inferInstanceAs (Decidable (_ ∧ _))

variable {m : Merger α} {e f : Entry α} {q : PartitionId}

theorem mem_partitions_of_head? (h : (m.queued q).head? = some f) : q ∈ m.partitions := by
  refine mem_partitions_iff.2 fun hn => ?_
  simp [queued_of_lane?_none (standing_eq_none.1 hn)] at h

theorem allClear_iff : m.AllClear ↔ m.blocked = false := by
  rw [← Bool.not_eq_true, blocked_iff]
  constructor
  · rintro hclear ⟨p, hp, hempty⟩
    have hopen := List.mem_filter.1 (mem_front_iff.2 hp)
    rcases hclear p hopen.1 with hhead | hdisabled
    · exact hhead hempty
    · simp [hdisabled] at hopen
  · intro hfree p hp
    by_cases hdisabled : m.isDisabled p = true
    · exact .inr hdisabled
    · refine .inl fun hempty => hfree ⟨p, mem_front_iff.1 (List.mem_filter.2 ⟨hp, ?_⟩), hempty⟩
      simpa using hdisabled

/-- With nothing queued before the watermark, a least head is the next one even where it ties: no
other tie can be on a lower partition. -/
theorem Least.goes (h : m.Least e) (hclear : m.AllClear)
    (above : ∀ p, ∀ f ∈ m.queued p, m.watermark ≤ f.timestamp) : m.Goes e := by
  obtain ⟨hhead, hfirst⟩ := h
  have hle : ∀ q f, (m.queued q).head? = some f → e.timestamp ≤ f.timestamp := by
    intro q f hf
    rcases hfirst q (mem_partitions_of_head? hf) f hf with hlt | ⟨heq, _⟩
    · exact Int.le_of_lt hlt
    · exact Int.le_of_eq heq
  have hlowest : ∀ q f, (m.queued q).head? = some f → f.timestamp = e.timestamp →
      e.partition ≤ q := by
    intro q f hf heq
    rcases hfirst q (mem_partitions_of_head? hf) f hf with hlt | ⟨_, hp⟩
    · exact absurd heq (Int.ne_of_gt hlt)
    · exact hp
  by_cases hlevel : e.timestamp = m.watermark
  · exact .tie hhead hlevel fun q f hf hf' => hlowest q f hf (hf'.trans hlevel.symm)
  · refine .least hhead (allClear_iff.1 hclear) (fun q f hf hf' => hlevel ?_) hle hlowest
    have hge := above e.partition e (List.mem_of_head? hhead)
    exact Int.le_antisymm (hf' ▸ hle q f hf) hge

end Merger

namespace Ledger

variable [Record α] {policy : Policy α} {l l' : Ledger α}

/-- Whatever is still taken is not before the watermark of now. -/
theorem Ordered.watermark_le_arrivals (hc : policy.checkOrder = true) (h : l.Balanced policy)
    (o : l.Ordered) (s : Steps policy (·.enabled = true) l l') :
    ∃ new, l'.accepted = l.accepted ++ new ∧ ∀ e ∈ new, l.merger.watermark ≤ e.timestamp := by
  induction s with
  | refl => exact ⟨[], by simp, by simp⟩
  | tail s step ih =>
    obtain ⟨new, haccepted, hnew⟩ := ih
    obtain ⟨h₁, o₁, hw⟩ := o.steps hc h s
    have o₂ := o₁.step hc h₁ step
    cases step with
    | @arrive e lane found _ _ _ =>
      refine ⟨new ++ [e], by rw [accepted_arrive, haccepted, List.append_assoc], ?_⟩
      intro f hf
      rcases List.mem_append.1 hf with hf | hf
      · exact hnew f hf
      · rw [List.mem_singleton.1 hf]
        refine Int.le_trans hw (o₂.above e.partition e ?_)
        rw [merger_arrive, Merger.queued_arrive (Option.isSome_of_eq_some found), if_pos rfl]
        exact List.mem_append_right _ List.mem_cons_self
    | depart => exact ⟨new, haccepted, hnew⟩
    | unblock => exact ⟨new, haccepted, hnew⟩
    | shut => exact ⟨new, haccepted, hnew⟩

/-- What a disciplined caller still adds is not before the watermark of now. -/
theorem Ordered.watermark_le_additions (hc : policy.checkOrder = true) (h : l.Balanced policy)
    (o : l.Ordered) {calls : List (Call α)} (hd : l.merger.disciplined policy calls = true)
    {x : PartitionId × α} (hx : x ∈ (l.merger.transcript policy calls).filterMap Call.addition?) :
    ∃ ts, policy.rule.timestamp x.2 = .ok ts ∧ l.merger.watermark ≤ ts := by
  have steps := steps_run_of_disciplined hd
  obtain ⟨new, haccepted, hnew⟩ := o.watermark_le_arrivals hc h steps
  have hadded := additions_run policy calls l
  rw [haccepted, List.map_append, List.append_cancel_left_eq] at hadded
  rw [← hadded] at hx
  obtain ⟨e, he, rfl⟩ := List.mem_map.1 hx
  refine ⟨e.timestamp, (h.steps steps).keyed e ?_, hnew e he⟩
  rw [haccepted]
  exact List.mem_append_right _ he

end Ledger

/-- For a disciplined caller the shortcut agrees with the plain rule: the least head goes whenever it
is all clear; and what goes when it is not all clear ties with the watermark, and neither anything
queued nor anything that such a caller can still add is before it. -/
theorem Merger.shortcut_agrees [Record α] (policy : Policy α) (ids : List PartitionId)
    (calls : List (Call α)) (hc : policy.checkOrder = true)
    (hd : (Merger.ofPartitions ids).disciplined policy calls = true) :
    let m := (Merger.ofPartitions ids).after policy calls
    (∀ e, m.AllClear → m.Least e →
      m.next = some (e.record, m.depart e) ∧ (m.depart e).watermark = e.timestamp) ∧
    ∀ record m', ¬m.AllClear → m.next = some (record, m') →
      ∃ e, (m.queued e.partition).head? = some e ∧ e.record = record ∧
        policy.rule.timestamp record = .ok e.timestamp ∧ m' = m.depart e ∧
        e.timestamp = m.watermark ∧ m'.watermark = m.watermark ∧
        (∀ q, ∀ f ∈ m.queued q, e.timestamp ≤ f.timestamp) ∧
        ∀ more, m.disciplined policy more = true →
          ∀ x ∈ (m.transcript policy more).filterMap Call.addition?,
            ∃ ts, policy.rule.timestamp x.2 = .ok ts ∧ e.timestamp ≤ ts := by
  intro m
  obtain ⟨h, o⟩ := Ledger.ordered_run hc hd
  have hm : ((Ledger.opening ids).run policy calls).merger = m := Ledger.merger_run policy calls _
  generalize (Ledger.opening ids).run policy calls = l at h o hm
  clear_value m
  subst hm
  constructor
  · intro e hclear hleast
    have hgoes := departure?_eq_some_iff.2 (hleast.goes hclear o.above)
    exact ⟨by rw [next_eq, hgoes, Option.map_some], rfl⟩
  · intro record m' hclear hnext
    rw [next_eq] at hnext
    obtain ⟨e, hdeparts, heq⟩ := Option.map_eq_some_iff.1 hnext
    cases heq
    have hlevel : e.timestamp = l.merger.watermark := by
      rcases due_of_departure? hdeparts with htie | ⟨hfree, _⟩
      · exact htie
      · exact absurd (allClear_iff.2 hfree) hclear
    have haccepted := h.mem_accepted_of_mem_queued (mem_queued_of_departure? hdeparts)
    refine ⟨e, head?_of_departure? hdeparts, rfl, h.keyed e (List.mem_of_mem_filter haccepted), rfl,
      hlevel, hlevel, fun q f hf => o.le_queued h hdeparts hf, ?_⟩
    intro more hmore x hx
    rw [hlevel]
    exact o.watermark_le_additions hc h hmore hx

/-- A second 3 goes ahead of partition 0 while that is empty, and likewise once that has a 5. -/
theorem Merger.shortcut_agrees_second :
    let m := (Merger.ofPartitions [0, 1]).after .selfKeyed [.add 0 3, .add 1 3, .next]
    let m' := (Merger.ofPartitions [0, 1]).after .selfKeyed [.add 0 3, .add 1 3, .next, .add 0 5]
    (m'.AllClear ∧ m'.Least ⟨1, 3, 3⟩ ∧ m'.next = some (3, m'.depart ⟨1, 3, 3⟩)) ∧
    ¬m.AllClear ∧ m.next = some (3, m.depart ⟨1, 3, 3⟩) ∧
    ∃ e : Entry Int, e.record = 3 ∧ e.timestamp = m.watermark ∧
      ∀ more, m.disciplined .selfKeyed more = true →
        ∀ x ∈ (m.transcript .selfKeyed more).filterMap Call.addition?,
          ∃ ts, Policy.selfKeyed.rule.timestamp x.2 = .ok ts ∧ e.timestamp ≤ ts := by
  intro m m'
  have hclear : m'.AllClear ∧ m'.Least ⟨1, 3, 3⟩ := by decide
  have hblocked : ¬m.AllClear := by decide
  have hnext : m.next = some (3, m.depart ⟨1, 3, 3⟩) := by decide
  have hagrees := (Merger.shortcut_agrees .selfKeyed [0, 1]
    [.add 0 3, .add 1 3, .next, .add 0 5] rfl (by decide)).1 ⟨1, 3, 3⟩ hclear.1 hclear.2
  obtain ⟨e, _, hrecord, _, _, hlevel, _, _, hmore⟩ := (Merger.shortcut_agrees .selfKeyed [0, 1]
    [.add 0 3, .add 1 3, .next] rfl (by decide)).2 _ _ hblocked hnext
  exact ⟨⟨hclear.1, hclear.2, hagrees.1⟩, hblocked, hnext, e, hrecord, hlevel, hmore⟩

end TimeMerge
