import TimeMerge.Proofs.Commands

/-!
# Progress under refusals

An outlet may refuse anything at any time, and a refusal may cut short what a command does. Whoever
has flushed, which partitions are disabled and how far a resequencer has come are changed at
different points of a command, and still they agree whenever a command is over. -/
namespace TimeMerge

def Progress.rank : Progress → Nat
  | .active => 0
  | .draining => 1
  | .done => 2

theorem Progress.rank_le_two (p : Progress) : p.rank ≤ 2 := by
  cases p <;> decide

namespace Resequencer

variable {producers : List PartitionId} {s s' : Resequencer α} {p : PartitionId}
  {log new : List (Attempt α)}

/-- What may become of a producer: nothing, or it is taken for done, or its disabled partition is
closed. -/
inductive Moves (s s' : Resequencer α) (p : PartitionId) : Prop where
  | stays (standing : s'.merger.standing p = s.merger.standing p)
      (flushed : s'.flushed.contains p = s.flushed.contains p)
  | ends (standing : s'.merger.standing p = (s.merger.standing p).map fun _ => false)
      (flushed : s'.flushed.contains p = true)
  | closes (disabled : s.merger.standing p = some false) (closed : s'.merger.standing p = none)
      (flushed : s'.flushed.contains p = s.flushed.contains p)

theorem Moves.standing_eq_none (m : Moves s s' p) (h : s.merger.standing p = none) :
    s'.merger.standing p = none := by
  cases m with
  | stays standing flushed => rw [standing, h]
  | ends standing flushed => rw [standing, h, Option.map_none]
  | closes disabled closed flushed => exact closed

theorem Moves.isEnabled (m : Moves s s' p) (h : s'.merger.isEnabled p = true) :
    s.merger.isEnabled p = true := by
  rw [Merger.isEnabled_iff_standing] at h ⊢
  cases m with
  | stays standing flushed => rwa [← standing]
  | ends standing flushed =>
    rw [standing] at h
    cases hs : s.merger.standing p <;> simp [hs] at h
  | closes disabled closed flushed => simp [closed] at h

/-- The count of messages does not matter. -/
theorem Moves.of_receive (m : Moves s.receive s' p) : Moves s s' p := by
  cases m with
  | stays standing flushed => exact .stays standing flushed
  | ends standing flushed => exact .ends standing flushed
  | closes disabled closed flushed => exact .closes disabled closed flushed

theorem openCount_eq_zero_of_moves (m : ∀ p, Moves s s' p) (h : s.merger.openCount = 0) :
    s'.merger.openCount = 0 := by
  rw [Merger.openCount_eq_zero_iff] at h ⊢
  exact fun p => (m p).standing_eq_none (h p)

theorem moves_breakOff (n : Nat) (s : Resequencer α) (p : PartitionId) : Moves s (s.breakOff n) p :=
  .stays (Merger.standing_take n s.merger p) rfl

theorem moves_settle (s : Resequencer α) (p : PartitionId) : Moves s s.settle p := by
  have hs := s.standing_settle p
  split at hs
  · rename_i h
    exact .closes h.1 hs rfl
  · exact .stays hs rfl

theorem moves_silence (s : Resequencer α) (p q : PartitionId) : Moves s (s.silence p) q := by
  have hs : (s.silence p).merger.standing q = _ := Merger.standing_unblock s.merger p q
  have hf : (s.silence p).flushed.contains q = _ := Table.contains_insert s.flushed p q ()
  by_cases hq : q = p
  · rw [if_pos hq] at hs hf
    exact .ends hs hf
  · rw [if_neg hq] at hs hf
    exact .stays hs hf

theorem contains_silenceAll (s : Resequencer α) (p : PartitionId) :
    s.silenceAll.flushed.contains p = (s.flushed.contains p || (s.merger.standing p).isSome) := by
  have hf : s.silenceAll.flushed.contains p = _ :=
    Table.contains_foldl_insert s.merger.partitions () s.flushed p
  rw [hf]
  by_cases hp : p ∈ s.merger.partitions
  · rw [if_pos hp, Option.isSome_iff_ne_none.2 (Merger.mem_partitions_iff.1 hp), Bool.or_true]
  · have hn := not_not.1 (mt Merger.mem_partitions_iff.2 hp)
    rw [if_neg hp, hn, Option.isSome_none, Bool.or_false]

theorem moves_silenceAll (s : Resequencer α) (q : PartitionId) : Moves s s.silenceAll q := by
  have hs : s.silenceAll.merger.standing q = _ := Merger.standing_disableAll s.merger q
  have hf : s.silenceAll.flushed.contains q = _ :=
    Table.contains_foldl_insert s.merger.partitions () s.flushed q
  by_cases hq : q ∈ s.merger.partitions
  · rw [if_pos hq] at hf
    exact .ends hs hf
  · rw [if_neg hq] at hf
    have hn : s.merger.standing q = none := by
      rwa [Merger.mem_partitions_iff, not_not] at hq
    exact .stays (by rw [hs, hn, Option.map_none]) hf

/-- An open producer is disabled just when it has flushed, and one that is no longer open has. -/
structure Aligned (producers : List PartitionId) (s : Resequencer α) : Prop where
  flushed : ∀ p b, s.merger.standing p = some b → s.flushed.contains p = !b
  gone : ∀ p ∈ producers, s.merger.standing p = none → s.flushed.contains p = true

theorem aligned_ofProducers (producers : List PartitionId) :
    Aligned producers (ofProducers producers : Resequencer α) := by
  have hs : ∀ p, (ofProducers producers : Resequencer α).merger.standing p =
      if p ∈ producers then some true else none := Merger.standing_ofPartitions producers
  constructor
  · intro p b h
    rw [hs] at h
    split at h <;> cases h
    rfl
  · intro p hp h
    rw [hs, if_pos hp] at h
    cases h

theorem Aligned.moves (h : Aligned producers s) (m : ∀ p, Moves s s' p) : Aligned producers s' := by
  constructor
  · intro p b hb
    cases m p with
    | stays standing flushed => rw [flushed, h.flushed p b (standing ▸ hb)]
    | ends standing flushed =>
      rw [standing] at hb
      obtain ⟨_, _, rfl⟩ := Option.map_eq_some_iff.1 hb
      exact flushed
    | closes disabled closed flushed => simp [closed] at hb
  · intro p hp hn
    cases m p with
    | stays standing flushed => rw [flushed, h.gone p hp (standing ▸ hn)]
    | ends standing flushed => exact flushed
    | closes disabled closed flushed => rw [flushed, h.flushed p false disabled]; rfl

section Commands

variable [Record α] {policy : Policy α} {msg : Message α}

theorem Takes.moves (h : Takes policy s msg s') (p : PartitionId) : Moves s s' p := by
  cases h with
  | record fresh found keyed forward => exact .stays Merger.standing_arrive rfl
  | flush fresh found => exact (moves_silence s.receive _ p).of_receive

theorem Prepares.moves (h : Prepares policy s s') (p : PartitionId) : Moves s s' p := by
  cases h with
  | message taken => exact taken.moves p
  | nothing => exact .stays rfl rfl
  | teardown => exact s.moves_silenceAll p

end Commands

/-- What holds at any point of a command: progress is behind whoever may still send and up to the
flush that was taken, and once a flush was tried nothing is left to hand over. -/
structure Coherent (producers : List PartitionId) (s : Resequencer α) (log : List (Attempt α)) :
    Prop extends Aligned producers s where
  enabled : ∀ p, s.merger.isEnabled p = true → s.progress = .active
  done : s.progress = .done ↔ ∃ a ∈ log, a.isFlush = true ∧ a.isTaken = true
  shut : ∀ a ∈ log, a.isFlush = true → s.merger.openCount = 0
  quiet : log.Pairwise fun a b => a.isFlush = true → a.isTaken = false ∧ b.isFlush = true

/-- What holds between two commands. -/
structure Sound (producers : List PartitionId) (s : Resequencer α) (log : List (Attempt α)) : Prop
    extends Coherent producers s log where
  active : s.progress = .active → ∃ p, s.merger.isEnabled p = true
  clean : producers ≠ [] → (∀ a ∈ log, a.isTaken = true) → s.progress ≠ .draining

/-- With nobody to wait for there is nothing left to do but to flush. -/
theorem progress_ofProducers (producers : List PartitionId) :
    (ofProducers producers : Resequencer α).progress =
      if producers = [] then .draining else .active := by
  have hopen : (Merger.ofPartitions producers : Merger α).openCount = 0 ↔ producers = [] := by
    simp [Merger.openCount_eq_zero_iff, Merger.standing_ofPartitions,
      List.eq_nil_iff_forall_not_mem]
  simp only [ofProducers, hopen]

theorem isEnabled_ofProducers (producers : List PartitionId) (p : PartitionId) :
    (ofProducers producers : Resequencer α).merger.isEnabled p = true ↔ p ∈ producers := by
  rw [Merger.isEnabled_iff_standing, ofProducers, Merger.standing_ofPartitions]
  simp

theorem sound_ofProducers (producers : List PartitionId) :
    Sound producers (ofProducers producers : Resequencer α) [] := by
  have hp : (ofProducers producers : Resequencer α).progress = _ := progress_ofProducers producers
  refine ⟨⟨aligned_ofProducers producers, ?_, ?_, by simp, .nil⟩, ?_, ?_⟩
  · intro p hen
    rw [hp, if_neg (List.ne_nil_of_mem ((isEnabled_ofProducers producers p).1 hen))]
  · rw [hp]
    split <;> simp
  · intro h
    rw [hp] at h
    split at h
    · cases h
    · rename_i hne
      obtain ⟨p, hm⟩ := List.exists_mem_of_ne_nil _ hne
      exact ⟨p, (isEnabled_ofProducers producers p).2 hm⟩
  · intro hne _
    rw [hp, if_neg hne]
    simp

/-- Preparing a command changes neither progress nor the log. -/
theorem Coherent.prepares [Record α] {policy : Policy α} (h : Coherent producers s log)
    (hp : Prepares policy s s') : Coherent producers s' log where
  toAligned := h.toAligned.moves hp.moves
  enabled p hen := by
    rw [hp.progress]
    exact h.enabled p ((hp.moves p).isEnabled hen)
  done := by rw [hp.progress, h.done]
  shut a ha hf := openCount_eq_zero_of_moves hp.moves (h.shut a ha hf)
  quiet := h.quiet

/-- The part of a drain before a flush: it hands over records, of which there are none once a flush
was tried, and may close disabled partitions. -/
theorem Coherent.leave (h : Coherent producers s log) (m : ∀ p, Moves s s' p)
    (hp : s'.progress = s.ebb) {rs : List α} (records : new.map (·.signal) = rs.map .record)
    (hrs : s.merger.openCount = 0 → rs = []) :
    Coherent producers s' (log ++ new) := by
  have hnew := Attempt.isFlush_of_records records
  have hlog : ∀ a ∈ log ++ new, a.isFlush = true → a ∈ log := by
    intro a ha hf
    rcases List.mem_append.1 ha with ha | ha
    · exact ha
    · simp [hnew a ha] at hf
  refine ⟨h.toAligned.moves m, ?_, ?_, ?_, ?_⟩
  · intro p hen
    have hen := (m p).isEnabled hen
    rw [hp, ebb_eq_active]
    exact ⟨h.enabled p hen, p, hen⟩
  · rw [hp, ebb_eq_done, h.done]
    constructor
    · rintro ⟨a, ha, hf, ht⟩
      exact ⟨a, List.mem_append_left _ ha, hf, ht⟩
    · rintro ⟨a, ha, hf, ht⟩
      exact ⟨a, hlog a ha hf, hf, ht⟩
  · intro a ha hf
    exact openCount_eq_zero_of_moves m (h.shut a (hlog a ha hf) hf)
  · refine List.pairwise_append.2 ⟨h.quiet, ?_, ?_⟩
    · refine List.pairwise_of_forall_mem_list ?_
      intro a ha b _ hf
      simp [hnew a ha] at hf
    · intro a ha b hb hf
      -- a flush in the log means that there was nothing to hand over
      have hnone : new = [] := by simpa [hrs (h.shut a ha hf)] using records
      simp [hnone] at hb

/-- A flush is tried with no partition open, and taken no more than once. -/
theorem Coherent.flush (h : Coherent producers s log) (hne : s.progress ≠ .done)
    (hopen : s.merger.openCount = 0) {a : Attempt α} (ha : a.isFlush = true)
    (hm : s'.merger = s.merger) (hf : s'.flushed = s.flushed)
    (hp : s'.progress = if a.isTaken then .done else s.progress) :
    Coherent producers s' (log ++ [a]) := by
  have hrefused : ∀ b ∈ log, b.isFlush = true → b.isTaken = false := by
    intro b hb hflush
    rw [← Bool.not_eq_true]
    exact fun ht => hne (h.done.2 ⟨b, hb, hflush, ht⟩)
  have hstays : ∀ p, Moves s s' p := fun p => .stays (by rw [hm]) (by rw [hf])
  refine ⟨h.toAligned.moves hstays, ?_, ?_, ?_, ?_⟩
  · intro p hen
    rw [hm, Merger.isEnabled_eq, Merger.openCount_eq_zero_iff.1 hopen] at hen
    cases hen
  · rw [hp]
    constructor
    · intro hd
      refine ⟨a, by simp, ha, ?_⟩
      rw [← Bool.not_eq_false]
      intro ht
      rw [ht] at hd
      exact hne hd
    · rintro ⟨b, hb, hflush, ht⟩
      rcases List.mem_append.1 hb with hb | hb
      · simp [hrefused b hb hflush] at ht
      · rw [List.mem_singleton.1 hb] at ht
        rw [if_pos ht]
  · intro _ _ _
    rw [hm, hopen]
  · refine List.pairwise_append.2 ⟨h.quiet, List.pairwise_singleton .., ?_⟩
    intro b hb c hc hflush
    rw [List.mem_singleton.1 hc]
    exact ⟨hrefused b hb hflush, ha⟩

theorem exists_isEnabled_breakOff {n : Nat} (h : (s.breakOff n).progress = .active) :
    ∃ p, (s.breakOff n).merger.isEnabled p = true := by
  obtain ⟨_, p, hp⟩ := ebb_eq_active.1 h
  refine ⟨p, ?_⟩
  rwa [merger_breakOff, Merger.isEnabled_eq, Merger.standing_take, ← Merger.isEnabled_eq]

theorem exists_isEnabled_settle (h : s.settle.progress = .active) :
    ∃ p, s.settle.merger.isEnabled p = true := by
  obtain ⟨_, p, hp⟩ := ebb_eq_active.1 h
  exact ⟨p, by rwa [isEnabled_settle]⟩

theorem not_clean_of_refusal {fault : Fault} {a : Attempt α} (ha : a ∈ new)
    (hr : a.answer = .error fault) : ¬∀ a ∈ log ++ new, a.isTaken = true := by
  intro h
  have ht := h a (List.mem_append_right _ ha)
  simp [Attempt.isTaken, hr] at ht

/-- Whatever a drain comes to, it leaves things as they are between two commands. -/
theorem Coherent.drains {answer : Except Fault Nat} (h : Coherent producers s log)
    (hne : s.progress ≠ .done) (hd : Drains s answer s' new) : Sound producers s' (log ++ new) := by
  have hnothing : s.merger.openCount = 0 → ∀ n, (s.merger.take n).1 = [] := by
    intro hopen n
    rw [Merger.take_of_none (Merger.departure?_of_openCount hopen)]
  have hsettle : ∀ {as : List (Attempt α)},
      as.map (·.signal) = s.merger.drain.1.map .record →
        Coherent producers s.settle (log ++ as) := by
    intro as records
    refine h.leave s.moves_settle rfl records fun hopen => ?_
    rw [Merger.drain_eq_take (Nat.le_refl _), hnothing hopen]
  have hunfinished : s.settle.progress ≠ .done := fun hd => hne (ebb_eq_done.1 hd)
  cases hd with
  | refused records refusal =>
    obtain ⟨a, ha, hr⟩ := refusal
    refine ⟨h.leave (s.moves_breakOff _) rfl records (hnothing · _),
      exists_isEnabled_breakOff, fun _ hclean => ?_⟩
    exact absurd hclean (not_clean_of_refusal ha hr)
  | waiting records taken left =>
    refine ⟨hsettle records, exists_isEnabled_settle, fun _ _ hdraining => ?_⟩
    have hen : ¬∀ p, s.merger.isEnabled p = false := fun hn => left (openCount_settle.2 hn)
    simp only [not_forall, Bool.not_eq_false] at hen
    obtain ⟨p, hp⟩ := hen
    have hactive : s.settle.progress = .active := ebb_eq_active.2 ⟨h.enabled p hp, p, hp⟩
    simp [hactive] at hdraining
  | unflushed records taken none =>
    rename_i fault as
    have hrest := hsettle records
    have hflush : Coherent producers s.settle ((log ++ as) ++ [⟨.flush, .error fault⟩]) :=
      hrest.flush hunfinished none rfl rfl rfl rfl
    rw [List.append_assoc] at hflush
    refine ⟨hflush, exists_isEnabled_settle, fun _ hclean => ?_⟩
    exact absurd hclean
      (not_clean_of_refusal (List.mem_append_right _ (List.mem_singleton_self _)) rfl)
  | flushed records taken none =>
    rename_i as
    have hrest := hsettle records
    have hflush : Coherent producers s.settle.conclude ((log ++ as) ++ [⟨.flush, .ok ()⟩]) :=
      hrest.flush hunfinished none rfl rfl rfl rfl
    rw [List.append_assoc] at hflush
    refine ⟨hflush, fun hactive => ?_, fun _ _ hdraining => ?_⟩
    · cases hactive
    · cases hdraining

theorem rank_le_ebb (s : Resequencer α) : s.progress.rank ≤ s.ebb.rank := by
  rw [ebb]
  split
  · rename_i h
    rw [h.1]
    exact Nat.zero_le _
  · exact Nat.le_refl _

theorem Drains.rank_le {answer : Except Fault Nat} (h : Drains s answer s' new) :
    s.progress.rank ≤ s'.progress.rank := by
  cases h with
  | refused records refusal => exact s.rank_le_ebb
  | waiting records taken left => exact s.rank_le_ebb
  | unflushed records taken none => exact s.rank_le_ebb
  | flushed records taken none => exact s.progress.rank_le_two

section Runs

variable [Record α]

/-- What holds between two commands holds after one more, and progress is not behind what it was. -/
theorem Sound.obey (policy : Policy α) (k : Outlet ω α) {w : Logged ω α}
    (h : Sound producers s w.attempts) (c : Command α) :
    Sound producers (s.obey policy k.logged w c).2.1 (s.obey policy k.logged w c).2.2.attempts ∧
      s.progress.rank ≤ (s.obey policy k.logged w c).2.1.progress.rank := by
  rcases obey_cases policy k.logged s w c with ⟨hne, s', hp, he⟩ | ⟨answer, s', hs, he⟩
  · have hne' : s'.progress ≠ .done := by rwa [hp.progress]
    obtain ⟨answer, s'', w', new, hdrain, hlog, hd⟩ := drain_logged hne' k w
    rw [he, hdrain, hlog, ← hp.progress]
    exact ⟨(h.toCoherent.prepares hp).drains hne' hd, hd.rank_le⟩
  · rw [he]
    rcases hs with rfl | rfl
    · exact ⟨h, Nat.le_refl _⟩
    · refine ⟨⟨⟨?_, h.enabled, h.done, h.shut, h.quiet⟩, h.active, h.clean⟩, Nat.le_refl _⟩
      exact h.toAligned.moves fun p => .stays rfl rfl

theorem Sound.after (policy : Policy α) (k : Outlet ω α) {w : Logged ω α}
    (h : Sound producers s w.attempts) (cs : List (Command α)) :
    Sound producers (after policy k.logged cs s w).1 (after policy k.logged cs s w).2.attempts ∧
      s.progress.rank ≤ (after policy k.logged cs s w).1.progress.rank := by
  induction cs generalizing s w with
  | nil => exact ⟨h, Nat.le_refl _⟩
  | cons c cs ih =>
    obtain ⟨hc, hle⟩ := h.obey policy k c
    obtain ⟨hcs, hle'⟩ := ih hc
    exact ⟨hcs, Nat.le_trans hle hle'⟩

end Runs

theorem Aligned.isDisabled_iff (h : Aligned producers s) (ho : s.merger.isOpen p = true) :
    s.merger.isDisabled p = true ↔ s.flushed.contains p = true := by
  rw [Merger.isOpen_eq, Option.isSome_iff_exists] at ho
  obtain ⟨b, hb⟩ := ho
  rw [Merger.isDisabled_eq, hb, h.flushed p b hb]
  cases b <;> decide

theorem Aligned.isEnabled_iff (h : Aligned producers s) : s.merger.isEnabled p = true ↔
    s.merger.isOpen p = true ∧ s.flushed.contains p = false := by
  rw [Merger.isOpen_eq, Merger.isEnabled_eq]
  cases hs : s.merger.standing p with
  | none => simp
  | some b => simp [h.flushed p b hs]

theorem countP_le_one {xs : List β} {f : β → Bool}
    (h : xs.Pairwise fun x y => f x = true → f y = false) : xs.countP f ≤ 1 := by
  induction xs with
  | nil => exact Nat.zero_le _
  | cons x xs ih =>
    obtain ⟨hx, hxs⟩ := List.pairwise_cons.1 h
    cases hf : f x with
    | false =>
      rw [List.countP_cons_of_neg (by simp [hf])]
      exact ih hxs
    | true =>
      have hnone : xs.countP f = 0 := List.countP_eq_zero.2 fun y hy => by simp [hx y hy hf]
      have hone : (x :: xs).countP f = 1 := by rw [List.countP_cons_of_pos hf, hnone]
      exact Nat.le_of_eq hone

/-- After any commands to a resequencer with any outlet, whatever was refused: who is disabled and
who has flushed agree, progress says who may still send and whether a flush was taken and never goes
back, a flush is tried only once all is closed and nothing but flushes after it, and without a
refusal no command stops half way. -/
theorem progress_under_refusals [Record α] (policy : Policy α) (producers : List PartitionId)
    (k : Outlet ω α) (w : ω) (cs : List (Command α)) :
    let start : Resequencer α := ofProducers producers
    let s := (after policy k.logged cs start { state := w }).1
    let seen := (after policy k.logged cs start { state := w }).2
    after policy k cs start w = (s, seen.state) ∧
    (∀ p, s.merger.isOpen p = true →
      (s.merger.isDisabled p = true ↔ s.flushed.contains p = true)) ∧
    (∀ p ∈ producers, s.merger.isOpen p = false → s.flushed.contains p = true) ∧
    (s.progress = .active ↔ ∃ p, s.merger.isOpen p = true ∧ s.flushed.contains p = false) ∧
    (s.progress = .done ↔ ∃ a ∈ seen.attempts, a.isFlush = true ∧ a.isTaken = true) ∧
    (∀ more, s.progress.rank ≤ (after policy k (cs ++ more) start w).1.progress.rank) ∧
    (∀ a ∈ seen.attempts, a.isFlush = true → s.merger.openCount = 0) ∧
    seen.attempts.Pairwise (fun a b => a.isFlush = true → b.isFlush = true) ∧
    seen.attempts.countP (fun a => a.isFlush && a.isTaken) ≤ 1 ∧
    (producers ≠ [] → (∀ a ∈ seen.attempts, a.isTaken = true) → s.progress ≠ .draining) := by
  intro start s seen
  have hsame : after policy k cs start w = (s, seen.state) :=
    after_seen k.shownBy_logged policy cs start { state := w }
  obtain ⟨h, _⟩ : Sound producers s seen.attempts ∧ _ :=
    Sound.after policy k (sound_ofProducers producers) cs
  refine ⟨hsame, fun p => h.isDisabled_iff, ?_, ?_, h.done, ?_, h.shut, ?_, ?_, h.clean⟩
  · intro p hp hclosed
    rw [Merger.isOpen_eq, Option.isSome_eq_false_iff, Option.isNone_iff_eq_none] at hclosed
    exact h.gone p hp hclosed
  · constructor
    · intro hactive
      obtain ⟨p, hp⟩ := h.active hactive
      exact ⟨p, h.isEnabled_iff.1 hp⟩
    · rintro ⟨p, hp⟩
      exact h.enabled p (h.isEnabled_iff.2 hp)
  · intro more
    have hmore := (Sound.after policy k h more).2
    have hseen := after_seen k.shownBy_logged policy more s seen
    rw [after_append, hsame, hseen]
    exact hmore
  · exact h.quiet.imp fun hq hf => (hq hf).2
  · refine countP_le_one (h.quiet.imp fun hq ha => ?_)
    obtain ⟨hf, ht⟩ := Bool.and_eq_true_iff.1 ha
    simp [(hq hf).1] at ht

end Resequencer

end TimeMerge
