import TimeMerge.Proofs.Deliveries

/-!
# When an intake says that it has finished

The flush is tried once, and from then on the intake says that it has finished, also if the flush was
refused. So the answer alone does not tell that downstream was flushed. It tells that one flush was
tried, and that whoever was asking when it was refused was told so. -/
namespace TimeMerge.Intake

variable {s s₁ s' : Intake α} {new new₁ new₂ : List (Attempt α)} {a : Attempt α}

def flushesIn (log : List (Attempt α)) : List (Attempt α) := log.filter (·.isFlush)

theorem flushes_of_records (h : ∀ a ∈ new, a.isFlush = false) : flushesIn new = [] :=
  List.filter_eq_nil_iff.2 fun a ha => by rw [h a ha]; exact Bool.false_ne_true

theorem mem_of_flushes (h : flushesIn new = [a]) : a ∈ new :=
  List.mem_of_mem_filter (p := (·.isFlush)) (by rw [← flushesIn, h]; exact List.mem_singleton_self a)

/-- What becomes of the flush: none is tried, or the only one, which leaves its mark. -/
inductive Flushing (s s' : Intake α) (new : List (Attempt α)) (told : Attempt α → Prop) : Prop
  | quiet (none : flushesIn new = []) (flushed : s'.flushed = s.flushed)
  | once {a : Attempt α} (only : flushesIn new = [a]) (due : s.flushed = false)
      (tried : s'.flushed = true) (answered : told a)

namespace Flushing

variable {told told₁ told₂ : Attempt α → Prop}

theorem imp (h : Flushing s s' new told₁) (himp : ∀ a ∈ new, told₁ a → told a) :
    Flushing s s' new told := by
  cases h with
  | quiet none flushed => exact .quiet none flushed
  | once only due tried answered =>
    exact .once only due tried (himp _ (mem_of_flushes only) answered)

/-- The mark stays, so there is no second flush. -/
theorem append (h₁ : Flushing s s₁ new₁ told) (h₂ : Flushing s₁ s' new₂ told) :
    Flushing s s' (new₁ ++ new₂) told := by
  have hflushes : flushesIn (new₁ ++ new₂) = flushesIn new₁ ++ flushesIn new₂ :=
    List.filter_append ..
  cases h₁ with
  | quiet none₁ flushed₁ =>
    cases h₂ with
    | quiet none₂ flushed₂ =>
      exact .quiet (by rw [hflushes, none₁, none₂]; rfl) (flushed₂.trans flushed₁)
    | once only due tried answered =>
      exact .once (by rw [hflushes, none₁, only]; rfl) (flushed₁ ▸ due) tried answered
  | once only due tried answered =>
    cases h₂ with
    | quiet none flushed =>
      exact .once (by rw [hflushes, only, none]; rfl) due (flushed.trans tried) answered
    | once _ due₂ _ _ =>
      rw [tried] at due₂
      cases due₂

theorem flushed (h : Flushing s s' new told) (hs : s.flushed = true) : s'.flushed = true := by
  cases h with
  | quiet none flushed => exact flushed.trans hs
  | once only due tried answered => exact tried

end Flushing

variable {fault? : Option Fault}

/-- A refused flush is the fault with which the act ends. -/
def Told (fault? : Option Fault) (a : Attempt α) : Prop :=
  ∀ fault ∈ faultOf a.answer, fault? = some fault

theorem Tries.flushing (h : Tries s fault? s' new) : Flushing s s' new (Told fault?) := by
  cases h with
  | refused records refusal forwarded flushed => exact .quiet (flushes_of_records records) flushed
  | hands hands => exact .quiet (flushes_of_records hands.records) hands.flushed
  | @flushes s₁ s' new a hands flush due forwarded tried =>
    have honly : flushesIn (new ++ [a]) = [a] := by
      rw [flushesIn, List.filter_append, ← flushesIn, flushes_of_records hands.records,
        List.filter_cons_of_pos flush]
      rfl
    exact .once honly due tried fun fault hf => hf

variable [Record α] {policy : Policy α}

/-- What an answer tells of the flush: that it was refused, or, if all is closed, that it was tried. -/
structure Tells (s : Intake α) (w : Logged ω α)
    (r : Except Fault Bool × (Intake α × Logged ω α)) : Prop where
  flushing : ∃ new, r.2.2.attempts = w.attempts ++ new ∧ Flushing s r.2.1 new (Told (faultOf r.1))
  finished : r.1 = .ok true → r.2.1.flushed = true

theorem turns_tells (policy : Policy α) (k : Outlet ω α) (n : Nat) (s : Intake α)
    (w : Logged ω α) : Tells s w (turns policy k.logged n s w) := by
  induction n generalizing s w with
  | zero => exact ⟨⟨[], (List.append_nil _).symm, .quiet rfl rfl⟩, by simp [turns]⟩
  | succ n ih =>
    obtain ⟨⟨new, hlog, htries⟩, hfinished⟩ := turn_acts policy k s w
    have hflushing := htries.flushing
    rcases hturn : s.turn policy k.logged w with ⟨fault | t, s₁, w₁⟩ <;>
      rw [hturn] at hlog hflushing hfinished
    · rw [turns, hturn]
      exact ⟨⟨new, hlog, hflushing⟩, by simp⟩
    · by_cases ht : t = .finished
      · subst t
        rw [turns, hturn]
        exact ⟨⟨new, hlog, hflushing⟩, fun _ => hfinished rfl⟩
      · -- a flush in a turn that goes well was taken
        obtain ⟨⟨rest, hrest, hmore⟩, hend⟩ := ih s₁ w₁
        have htaken : Flushing s s₁ new (Told (faultOf (turns policy k.logged n s₁ w₁).1)) := by
          refine hflushing.imp fun a _ htold fault hf => ?_
          cases htold fault hf
        rw [turns_succ hturn ht]
        exact ⟨⟨new ++ rest, by rw [hrest, hlog, List.append_assoc], htaken.append hmore⟩, hend⟩

theorem obey_tells (policy : Policy α) (k : Outlet ω α) (s : Intake α) (w : Logged ω α)
    (c : Request) : Tells s w (s.obey policy k.logged w c) := by
  cases c with
  | run => exact turns_tells policy k s.turnBound s w
  | pull =>
    obtain ⟨⟨new, hlog, htries⟩, hfinished⟩ := turn_acts policy k s w
    have hflushing := htries.flushing
    rcases hturn : s.turn policy k.logged w with ⟨fault | t, s₁, w₁⟩ <;>
      rw [hturn] at hlog hflushing hfinished <;> rw [obey, hturn]
    · exact ⟨⟨new, hlog, hflushing⟩, by simp [Except.map]⟩
    · refine ⟨⟨new, hlog, hflushing⟩, fun ht => hfinished ?_⟩
      rw [of_decide_eq_true (Except.ok.inj ht)]

/-- The answer to each request, with what was tried on the outlet for it. -/
def transcript (policy : Policy α) (k : Outlet ω α) :
    List Request → Intake α → Logged ω α → List (Except Fault Bool × List (Attempt α))
  | [], _, _ => []
  | c :: cs, s, w =>
    ((s.obey policy k.logged w c).1,
      (s.obey policy k.logged w c).2.2.attempts.drop w.attempts.length) ::
      transcript policy k cs (s.obey policy k.logged w c).2.1 (s.obey policy k.logged w c).2.2

theorem answers_seen (policy : Policy α) (k : Outlet ω α) (cs : List Request) (s : Intake α)
    (w : Logged ω α) :
    (transcript policy k cs s w).map (·.1) = answers policy k cs s w.state := by
  induction cs generalizing s w with
  | nil => rfl
  | cons c cs ih =>
    have hseen : s.obey policy k w.state c = _ := obey_seen k.shownBy_logged policy s w c
    rw [transcript, answers, hseen, List.map_cons, ih]
    rfl

/-- A refused flush is the answer to the request for which it was tried. -/
def Reported (trace : List (Except Fault Bool × List (Attempt α))) (a : Attempt α) : Prop :=
  ∀ fault ∈ faultOf a.answer, ∃ t ∈ trace, t.1 = .error fault ∧ a ∈ t.2

theorem after_flushing (policy : Policy α) (k : Outlet ω α) (cs : List Request) (s : Intake α)
    (w : Logged ω α) :
    (after policy k.logged cs s w).2.attempts =
        w.attempts ++ ((transcript policy k cs s w).map (·.2)).flatten ∧
      Flushing s (after policy k.logged cs s w).1 ((transcript policy k cs s w).map (·.2)).flatten
        (Reported (transcript policy k cs s w)) ∧
      ((∃ t ∈ transcript policy k cs s w, t.1 = .ok true) →
        (after policy k.logged cs s w).1.flushed = true) := by
  induction cs generalizing s w with
  | nil => exact ⟨(List.append_nil _).symm, .quiet rfl rfl, by simp [transcript]⟩
  | cons c cs ih =>
    obtain ⟨⟨new, hlog, hflushing⟩, hfinished⟩ := obey_tells policy k s w c
    rcases hobey : s.obey policy k.logged w c with ⟨answer, s₁, w₁⟩
    rw [hobey] at hlog hflushing hfinished
    obtain ⟨hrest, hmore, hend⟩ := ih s₁ w₁
    have hnew : w₁.attempts.drop w.attempts.length = new := by rw [hlog, List.drop_left]
    have htrace : transcript policy k (c :: cs) s w =
        (answer, new) :: transcript policy k cs s₁ w₁ := by
      rw [transcript, hobey, hnew]
    rw [after, htrace, hobey, List.map_cons, List.flatten_cons]
    refine ⟨by rw [hrest, hlog, List.append_assoc], ?_, ?_⟩
    · refine .append (hflushing.imp ?_) (hmore.imp ?_)
      · intro a ha htold fault hf
        refine ⟨_, List.mem_cons_self, ?_, ha⟩
        have hfault := htold fault hf
        cases answer with
        | error fault' => rw [Option.some.inj hfault]
        | ok finished => cases hfault
      · intro a _ hreported fault hf
        obtain ⟨t, ht, hanswer⟩ := hreported fault hf
        exact ⟨t, List.mem_cons_of_mem _ ht, hanswer⟩
    · rintro ⟨t, ht, hanswer⟩
      rcases List.mem_cons.1 ht with rfl | ht
      · exact hmore.flushed (hfinished hanswer)
      · exact hend ⟨t, ht, hanswer⟩

/-- Whatever is asked of an intake and whatever its outlet refuses, a run ends, and a success tells that
the flush has been tried, once and never again. It was taken, unless the request for which it was tried
ended with its refusal. -/
theorem finished_under_refusals (policy : Policy α) (k : Outlet ω α) (w : ω)
    {inlets : List (PartitionId × Inlet α)} (hn : (inlets.map (·.1)).Nodup) (cs : List Request) :
    let start := ofInlets inlets
    let s := (after policy k.logged cs start { state := w }).1
    let seen := (after policy k.logged cs start { state := w }).2
    let trace := transcript policy k cs start { state := w }
    (after policy k cs start w = (s, seen.state) ∧
      answers policy k cs start w = trace.map (·.1) ∧
      seen.attempts = (trace.map (·.2)).flatten) ∧
    (s.run policy k seen.state).1 ≠ .ok false ∧
    ((∃ t ∈ trace, t.1 = .ok true) →
      ∃ a, flushesIn seen.attempts = [a] ∧
        (a.isTaken = true ∨ ∃ fault, a.answer = .error fault ∧
          ∃ t ∈ trace, t.1 = .error fault ∧ a ∈ t.2)) := by
  intro start s seen trace
  obtain ⟨hlog, hflushing, hend⟩ := after_flushing policy k cs start { state := w }
  refine ⟨⟨after_seen k.shownBy_logged policy cs start { state := w },
    (answers_seen policy k cs start { state := w }).symm, hlog⟩, ?_, ?_⟩
  · obtain ⟨n, hpulls⟩ := exists_after_eq_pulls policy k.logged cs start { state := w }
    have hpoised : Poised s := by
      rw [show s = _ from congrArg Prod.fst hpulls]
      exact (poised_ofInlets hn).pulls policy k.logged n _
    exact hpoised.run_ne_false policy k seen.state
  · intro hfinished
    have hflushed : s.flushed = true := hend hfinished
    cases hflushing with
    | quiet none flushed =>
      have hstart : s.flushed = false := flushed
      rw [hstart] at hflushed
      cases hflushed
    | @once a only due tried answered =>
      have honly : flushesIn seen.attempts = [a] := by
        rw [show seen.attempts = _ from hlog]
        exact only
      refine ⟨a, honly, ?_⟩
      cases ha : a.answer with
      | ok _ => exact .inl (by rw [Attempt.isTaken, ha])
      | error fault => exact .inr ⟨fault, rfl, answered fault (by rw [ha]; rfl)⟩

/-- The flush is refused in the turn that closes the only input, and the next turn finishes. -/
theorem finished_under_refusals_retried :
    let inlets : List (PartitionId × Inlet Int) := [(0, .ofRecords [1])]
    let k := Outlet.fickle (· == 1)
    let cs := [Request.pull, .pull, .pull]
    let seen := (after .selfKeyed k.logged cs (ofInlets inlets) { state := 0 }).2
    let trace := transcript .selfKeyed k cs (ofInlets inlets) { state := 0 }
    (inlets.map (·.1)).Nodup ∧ (∃ t ∈ trace, t.1 = .ok true) ∧
      ∃ a, flushesIn seen.attempts = [a] ∧
        (a.isTaken = true ∨ ∃ fault, a.answer = .error fault ∧
          ∃ t ∈ trace, t.1 = .error fault ∧ a ∈ t.2) := by
  have hn : ([((0 : PartitionId), Inlet.ofRecords [(1 : Int)])].map (·.1)).Nodup := by decide
  obtain ⟨_, _, hflush⟩ := finished_under_refusals .selfKeyed (Outlet.fickle (· == 1)) 0 hn
    [.pull, .pull, .pull]
  have hfinished : ∃ t ∈ transcript .selfKeyed (Outlet.fickle (· == 1)) [.pull, .pull, .pull]
      (ofInlets [((0 : PartitionId), Inlet.ofRecords [(1 : Int)])]) { state := 0 },
      t.1 = .ok true := by
    -- a release evaluates only as departures that are counted beforehand
    simp only [transcript, obey, turn, respond, accept, exhaust, tryClose, wrapUp, forward,
      Merger.release_eq_offer, Merger.drain_eq_take (Nat.le_refl _)]
    decide
  exact ⟨hn, hfinished, hflush hfinished⟩

/-- So whoever tries again after the refusal hears of a success, and downstream was never flushed. -/
theorem finished_without_flush :
    let start : Intake Int := .ofInlets [(0, .ofRecords [1])]
    let k := Outlet.fickle (· == 1)
    let cs := [Request.pull, .pull, .pull]
    (answers .selfKeyed k cs start 0).getLast? = some (.ok true) ∧
      (flushesIn (after .selfKeyed k.logged cs start { state := 0 }).2.attempts).map (·.isTaken) =
        [false] := by
  simp only [after, answers, obey, turn, respond, accept, exhaust, tryClose, wrapUp, forward,
    Merger.release_eq_offer, Merger.drain_eq_take (Nat.le_refl _)]
  decide

end TimeMerge.Intake
