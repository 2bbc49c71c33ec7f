import TimeMerge.Proofs.Handing
import TimeMerge.Proofs.Legible
import TimeMerge.Proofs.Overlaying
import TimeMerge.Proofs.Rows

/-!
# Which settings are accepted

Whichever way a number came in, as text of a variable or in a spec object, a word holds it, and no
capacity is zero. Nothing else is asked of numbers: every capacity that a word holds is accepted,
although a channel is only made for an eighth of them. A delimiter is always an ASCII character.
-/
namespace TimeMerge

variable {s t : Bytes}

theorem Text.natural?_le {limit n : Nat} {value : String} (h : natural? limit value = .ok n) :
    n ≤ limit := by
  rw [natural?] at h
  split at h
  · cases h
  · exact ((magnitude_eq_ok_iff (Nat.zero_le limit)).1 h).2.2
  · exact ((magnitude_eq_ok_iff (Nat.zero_le limit)).1 h).2.2

namespace Json

theorem exists_of_expectFrom {e : Expected α} {a : α} {b : UInt8}
    (h : expectFrom e b s = .ok (a, t)) : ∃ j, scalar b s = .ok (j, t) ∧ e.accept? j = some a := by
  rw [expectFrom] at h
  split at h
  · cases h
  · split at h
    · cases h
    · split at h
      · cases h
      · rename_i j _ hscalar
        split at h
        · rename_i haccept
          cases h
          exact ⟨j, hscalar, haccept⟩
        · cases h

theorem exists_of_orNull {read : Bytes → Scan (α × Bytes)} {a : α}
    (h : orNull read s = .ok (some a, t)) : ∃ r, read r = .ok (a, t) := by
  rw [orNull] at h
  split at h
  · cases h
  · split at h
    · obtain ⟨_, _, heq⟩ := map_ok h
      cases heq
    · obtain ⟨_, hread, heq⟩ := map_ok h
      cases heq
      exact ⟨_, hread⟩

theorem natural_le {n : Nat} (h : expect .natural s = .ok (n, t)) : n ≤ Text.maxUnsigned := by
  rw [expect] at h
  split at h
  · cases h
  · obtain ⟨j, hscalar, haccept⟩ := exists_of_expectFrom h
    have hlegible : Legible Number.Fits 0 j := legible_scalar hscalar
    cases hlegible with
    | @number _ number holds =>
      cases number with
      | float bits => cases haccept
      | integer k =>
        cases k with
        | negSucc k => cases haccept
        | ofNat k =>
          cases haccept
          exact Int.ofNat_le.1 holds.2
    | _ => cases haccept

end Json

namespace Settings

namespace Overlay

open Json

variable {o o' : Overlay} {n : Nat}

theorem payload_le {v : Variant} (h : payload v s = .ok (.position n, t)) :
    n ≤ Text.maxUnsigned := by
  cases v with
  | index =>
    obtain ⟨_, hnatural, heq⟩ := map_ok h
    cases heq
    exact natural_le hnatural
  | field =>
    obtain ⟨_, _, heq⟩ := map_ok h
    cases heq

theorem exists_of_oneOf {spec : KeySpec} (h : oneOf s = .ok (spec, t)) :
    ∃ v r u, payload v r = .ok (spec, u) := by
  rw [oneOf] at h
  split at h
  · cases h
  · split at h
    · cases h
    · split at h
      · cases h
      · rename_i hpayload
        obtain ⟨_, _, heq⟩ := map_ok h
        cases heq
        exact ⟨_, _, _, hpayload⟩

theorem position_le {past : Bytes → Bytes} (h : keySpec past s = .ok (.position n, t)) :
    n ≤ Text.maxUnsigned := by
  rw [keySpec] at h
  split at h
  · cases h
  · split at h
    · obtain ⟨v, _, _, hpayload⟩ := exists_of_oneOf h
      exact payload_le hpayload
    · split at h
      · split at h <;> cases h
      · cases h

/-- Only two of the members have a number to bring in. -/
theorem Fits.setMember {past : Bytes → Bytes} {m : Member} (ho : o.Fits)
    (h : Overlay.setMember past m o s = .ok (o', t)) : o'.Fits := by
  cases m with
  | timestamp =>
    obtain ⟨⟨key, _⟩, hread, heq⟩ := map_ok h
    cases heq
    refine ⟨fun n hn => ?_, ho.capacity⟩
    obtain rfl : key = some (.position n) := hn
    obtain ⟨_, hkey⟩ := exists_of_orNull hread
    exact position_le hkey
  | channelCapacity =>
    obtain ⟨⟨capacity, _⟩, hread, heq⟩ := map_ok h
    cases heq
    refine ⟨ho.index, fun n hn => ?_⟩
    obtain rfl : capacity = some n := hn
    obtain ⟨_, hnatural⟩ := exists_of_orNull hread
    exact natural_le hnatural
  | _ =>
    obtain ⟨_, _, heq⟩ := map_ok h
    cases heq
    exact ⟨ho.index, ho.capacity⟩

theorem Fits.setOrSkip {m : Option Member} (ho : o.Fits)
    (h : Overlay.setOrSkip m o s = .ok (o', t)) : o'.Fits := by
  cases m with
  | none =>
    obtain ⟨_, _, heq⟩ := map_ok h
    cases heq
    exact ho
  | some m => exact Fits.setMember ho h

theorem Fits.members {first : Bool} {seen : List Member} (ho : o.Fits)
    (h : Overlay.members first seen o s = .ok (o', t)) : o'.Fits := by
  -- reading ends well at the closing brace, or goes on behind one more member
  fun_induction Overlay.members first seen o s with
  | case2 =>
    cases h
    exact ho
  | case7 =>
    rename_i hset ih
    exact ih (ho.setOrSkip hset) h
  | _ => cases h

theorem Fits.elements {index : Nat} {ms : List Member} (ho : o.Fits)
    (h : Overlay.elements index ms o s = .ok (o', t)) : o'.Fits := by
  -- likewise once all are read, or behind one more element
  fun_induction Overlay.elements index ms o s with
  | case1 =>
    obtain ⟨_, _, heq⟩ := map_ok h
    cases heq
    exact ho
  | case5 =>
    rename_i hset ih
    exact ih (ho.setMember hset) h
  | _ => cases h

theorem fits_object (h : object s = .ok (o, t)) : o.Fits := by
  have hnothing : ({} : Overlay).Fits := ⟨nofun, nofun⟩
  rw [object] at h
  split at h
  · cases h
  · split at h
    · exact hnothing.members h
    · split at h
      · exact hnothing.elements h
      · obtain ⟨_, _, haccept⟩ := exists_of_expectFrom h
        cases haccept

theorem fits_document (h : document s = .ok o) : o.Fits := by
  rw [document] at h
  split at h
  · cases h
  · rename_i hobject
    obtain ⟨_, _, heq⟩ := map_ok h
    cases heq
    exact fits_object hobject

end Overlay

theorem fits_overlay {text : String} {o : Overlay} (h : overlay text = .ok o) : o.Fits := by
  obtain ⟨bytes, _, h⟩ := exists_of_bind h
  exact Overlay.fits_document (Json.ok_of_mapError (Json.ok_of_mapError h))

theorem readNatural_le {v : Variable} {value : String} {n : Nat} (h : readNatural v value = .ok n) :
    n ≤ Text.maxUnsigned :=
  Text.natural?_le (Json.ok_of_mapError h)

theorem eq_of_positive {v : Variable} {n m : Nat} (h : positive v n = .ok m) : m = n := by
  rw [positive] at h
  split at h <;> cases h
  rfl

theorem readCapacity_le {v : Variable} {value : String} {n : Nat}
    (h : readCapacity v value = .ok n) : n ≤ Text.maxUnsigned := by
  rw [readCapacity] at h
  split at h
  · cases h
  · rename_i hread
    exact eq_of_positive h ▸ readNatural_le hread

theorem timestampSpec_le {index field : Option String} {n : Nat}
    (h : timestampSpec index field = .ok (.position n)) : n ≤ Text.maxUnsigned := by
  cases index with
  | none => cases field <;> cases h
  | some index =>
    cases field with
    | some field => cases h
    | none =>
      obtain ⟨_, hread, heq⟩ := exists_of_bind h
      cases heq
      exact readNatural_le hread

/-- The numbers of settings are held by a word, also while they are read. -/
structure Draft.Fits (d : Draft) : Prop where
  index : ∀ n, d.timestamp = .position n → n ≤ Text.maxUnsigned
  capacity : d.channelCapacity ≤ Text.maxUnsigned

namespace Draft

variable {env : Environment} {d d' : Draft} {o : Overlay}

theorem fits_ofEnvironment (h : ofEnvironment env = .ok d) : d.Fits := by
  obtain ⟨timestamp, htimestamp, h⟩ := exists_of_bind h
  obtain ⟨_, _, h⟩ := exists_of_bind h
  obtain ⟨_, _, h⟩ := exists_of_bind h
  obtain ⟨_, _, h⟩ := exists_of_bind h
  obtain ⟨capacity, hcapacity, h⟩ := exists_of_bind h
  cases h
  constructor
  · rintro n rfl
    exact timestampSpec_le htimestamp
  · rcases orElse_cases hcapacity with rfl | ⟨_, _, h⟩
    · exact (by decide : 500 ≤ Text.maxUnsigned)
    · exact readCapacity_le h

theorem Fits.overlaid (hd : d.Fits) (ho : o.Fits) (h : d.overlaid o = .ok d') : d'.Fits := by
  obtain ⟨_, _, h⟩ := exists_of_bind h
  obtain ⟨capacity, hcapacity, h⟩ := exists_of_bind h
  cases h
  constructor
  · intro n hn
    cases hkey : o.timestamp with
    | none =>
      rw [hkey] at hn
      exact hd.index n hn
    | some key =>
      rw [hkey] at hn
      obtain rfl : key = .position n := hn
      exact ho.index n hkey
  · rcases orElse_cases hcapacity with rfl | ⟨n, hn, h⟩
    · exact hd.capacity
    · exact eq_of_positive h ▸ ho.capacity n hn

end Draft

/-- What settings must be like to be accepted. -/
structure Admissible (s : Settings) : Prop extends s.Sound where
  index : ∀ n, s.timestamp = .position n → n ≤ Text.maxUnsigned
  word : s.channelCapacity ≤ Text.maxUnsigned

theorem admissible_ofEnvironment {env : Environment} {s : Settings} (h : ofEnvironment env = .ok s) :
    s.Admissible := by
  have hsound := sound_ofEnvironment h
  obtain ⟨plain, hplain, h⟩ := exists_of_bind h
  obtain ⟨draft, hdraft, h⟩ := exists_of_bind h
  have hfits : draft.Fits := by
    rcases orElse_cases hdraft with rfl | ⟨text, _, hoverlaid⟩
    · exact Draft.fits_ofEnvironment hplain
    · obtain ⟨o, hoverlay, ho⟩ := exists_of_bind hoverlaid
      exact (Draft.fits_ofEnvironment hplain).overlaid (fits_overlay hoverlay) ho
  obtain ⟨_, _, h⟩ := exists_of_bind h
  cases h
  exact ⟨hsound, hfits.index, hfits.capacity⟩

/-- The variables that give these settings, each of them set by its text. -/
def spelled (s : Settings) : Environment
  | .timestampIndex =>
    match s.timestamp with
    | .position index => some (toString index)
    | .named _ => none
  | .timestampField =>
    match s.timestamp with
    | .position _ => none
    | .named field => some field
  | .inputFormat =>
    match s.format with
    | .jsonLines => some "jsonl"
    | .delimited _ _ => some "csv"
  | .delimiter =>
    match s.format with
    | .jsonLines => none
    | .delimited d _ => some (String.singleton (Char.ofNat d.toNat))
  | .header =>
    match s.format with
    | .jsonLines => none
    | .delimited _ header => some (toString header)
  | .checkOrder => some (toString s.checkOrder)
  | .channelCapacity => some (toString s.channelCapacity)
  | .specObject => none

/-- An ASCII character is read as the delimiter that it is. -/
theorem readDelimiter_singleton {d : UInt8} (h : d.toNat < 128) (v : Variable) :
    readDelimiter v (String.singleton (Char.ofNat d.toNat)) = .ok d := by
  have hlist : (String.singleton (Char.ofNat d.toNat)).toList = [Char.ofNat d.toNat] :=
    String.toList_singleton _
  have hne : String.singleton (Char.ofNat d.toNat) ≠ "\\t" := by
    intro he
    have hone : "\\t".toList.length = 1 := by
      rw [← he, hlist]
      rfl
    exact absurd hone (by decide)
  rw [readDelimiter, if_neg hne, hlist]
  dsimp only
  rw [Utf8.toNat_charOf h, if_pos h, UInt8.ofNat_toNat]

/-- Settings before the name of their format is looked at. -/
def drafted (s : Settings) : Draft :=
  match s.format with
  | .jsonLines =>
    { timestamp := s.timestamp, checkOrder := s.checkOrder, channelCapacity := s.channelCapacity }
  | .delimited d header =>
    { timestamp := s.timestamp, formatName := "csv", delimiter := d, header,
      checkOrder := s.checkOrder, channelCapacity := s.channelCapacity }

theorem draft_spelled {s : Settings} (h : s.Admissible) :
    Draft.ofEnvironment s.spelled = .ok s.drafted := by
  have htimestamp : timestampSpec (s.spelled .timestampIndex) (s.spelled .timestampField) =
      .ok s.timestamp := by
    rw [spelled, spelled]
    cases hkey : s.timestamp with
    | named field => rfl
    | position index =>
      dsimp only
      rw [timestampSpec, readNatural_toString (h.index index hkey)]
      rfl
  have hcheckOrder : orElse (readBoolean .checkOrder) true (s.spelled .checkOrder) =
      .ok s.checkOrder := readBoolean_toString ..
  have hcapacity : orElse (readCapacity .channelCapacity) 500 (s.spelled .channelCapacity) =
      .ok s.channelCapacity := by
    change readCapacity .channelCapacity (toString s.channelCapacity) = _
    rw [readCapacity, readNatural_toString h.word]
    exact if_neg h.capacity
  rw [Draft.ofEnvironment, htimestamp, hcheckOrder, hcapacity, drafted]
  cases hf : s.format with
  | jsonLines =>
    have hdelimiter : s.spelled .delimiter = none := by rw [spelled, hf]
    have hheader : s.spelled .header = none := by rw [spelled, hf]
    have hname : s.spelled .inputFormat = some "jsonl" := by rw [spelled, hf]
    rw [hdelimiter, hheader, hname]
    rfl
  | delimited d header =>
    have hdelimiter : orElse (readDelimiter .delimiter) Ascii.comma (s.spelled .delimiter) = .ok d := by
      rw [spelled, hf]
      exact readDelimiter_singleton (h.delimiter d header hf) .delimiter
    have hheader : orElse (readBoolean .header) false (s.spelled .header) = .ok header := by
      rw [spelled, hf]
      exact readBoolean_toString .header header
    have hname : s.spelled .inputFormat = some "csv" := by rw [spelled, hf]
    rw [hdelimiter, hheader, hname]
    rfl

theorem settings_drafted (s : Settings) : s.drafted.settings = .ok s := by
  obtain ⟨timestamp, format, checkOrder, channelCapacity⟩ := s
  cases format with
  | jsonLines =>
    have hformat : formatNamed "jsonl" Ascii.comma false = .ok .jsonLines :=
      if_pos (by decide +kernel)
    change (formatNamed "jsonl" Ascii.comma false).map _ = _
    rw [hformat]
    rfl
  | delimited d header =>
    have hformat : formatNamed "csv" d header = .ok (.delimited d header) := by
      rw [formatNamed, if_neg (by decide +kernel), if_pos (by decide +kernel)]
    change (formatNamed "csv" d header).map _ = _
    rw [hformat]
    rfl

/-- Settings are accepted from some environment exactly if they are admissible. -/
theorem exists_ofEnvironment_iff {s : Settings} :
    (∃ env, ofEnvironment env = .ok s) ↔ s.Admissible := by
  constructor
  · rintro ⟨env, h⟩
    exact admissible_ofEnvironment h
  · intro h
    refine ⟨s.spelled, ?_⟩
    rw [ofEnvironment, draft_spelled h]
    exact s.settings_drafted

/-- Settings that are accepted have a positive capacity that a word holds. A merge with them stops for
want of a channel exactly if no channel has that capacity, and nothing rules this out: with any other
such capacity they would have been accepted too. A delimiter is an ASCII character, so every row with
it has a line. -/
theorem accepted_starts {env : Environment} {s : Settings} (h : ofEnvironment env = .ok s) :
    1 ≤ s.channelCapacity ∧ s.channelCapacity ≤ Text.maxUnsigned ∧
      (∀ cancelled inputs, (s.merge cancelled inputs).stoppage = some .overCapacity ↔
        maxChannelCapacity < s.channelCapacity) ∧
      (∀ capacity, 1 ≤ capacity → capacity ≤ Text.maxUnsigned →
        ∃ env', ofEnvironment env' = .ok { s with channelCapacity := capacity }) ∧
      ∀ d header, s.format = .delimited d header → d.toNat < 128 ∧
        ∀ row : Delimited.Row, row.delimiter = d → ∃ line, row.line? = some line := by
  have hs := admissible_ofEnvironment h
  refine ⟨Nat.one_le_iff_ne_zero.2 hs.capacity, hs.word, fun cancelled inputs => ?_,
    fun capacity hpositive hword => ?_, fun d header hf => ⟨hs.delimiter d header hf, ?_⟩⟩
  · rw [merge]
    split <;> exact stoppage_mergeInlets_iff
  · exact exists_ofEnvironment_iff.2
      { delimiter := hs.delimiter, capacity := Nat.one_le_iff_ne_zero.1 hpositive,
        index := hs.index, word := hword }
  · rintro row rfl
    obtain ⟨line, hline, _⟩ := Delimited.Row.line?_of_ascii (hs.delimiter _ header hf)
    exact ⟨line, hline⟩

/-- A spec object that sets the capacity and nothing else. -/
def capacitySpec (digits : String) : String :=
  Base64.encode (Utf8.encode ("\x7b\"channelCapacity\":" ++ digits ++ "\x7d"))

/-- Columns between tabs, and the largest channel there is in place of one that is too large. -/
def brimful : Environment
  | .inputFormat => some "CSV"
  | .delimiter => some "\\t"
  | .channelCapacity => some "+002305843009213693952"
  | .specObject => some (capacitySpec "2305843009213693951")
  | _ => none

theorem accepted_starts_brimful :
    let s : Settings :=
      { format := .delimited Ascii.tab false, channelCapacity := maxChannelCapacity }
    ofEnvironment brimful = .ok s ∧ 1 ≤ s.channelCapacity ∧ s.channelCapacity ≤ Text.maxUnsigned ∧
      (∀ cancelled inputs, (s.merge cancelled inputs).stoppage ≠ some .overCapacity) ∧
      (∃ env', ofEnvironment env' = .ok { s with channelCapacity := Text.maxUnsigned }) ∧
      ∃ line, Delimited.Row.line? ⟨none, ["a\tb", "", "\u00e9"], Ascii.tab⟩ = some line := by
  intro s
  have haccepted : ofEnvironment brimful = .ok s := by decide +kernel
  obtain ⟨hpositive, hword, hstarts, hany, hrows⟩ := accepted_starts haccepted
  refine ⟨haccepted, hpositive, hword, fun cancelled inputs hover => ?_,
    hany Text.maxUnsigned (by decide) (Nat.le_refl _), (hrows Ascii.tab false rfl).2 _ rfl⟩
  exact absurd ((hstarts cancelled inputs).1 hover) (Nat.lt_irrefl _)

/-- One record more than a channel holds. -/
def overfull : Environment
  | .specObject => some (capacitySpec "2305843009213693952")
  | _ => none

/-- A capacity that is accepted although no channel has it, so that not even one record is merged. -/
theorem not_starts_overfull : ∃ s, ofEnvironment overfull = .ok s ∧
    ¬(1 ≤ s.channelCapacity ∧ s.channelCapacity ≤ maxChannelCapacity) ∧
    s.merge false [("one", { bytes := Utf8.encode "\x7b\"timestamp\":1\x7d\n" })] =
      { stoppage := some .overCapacity } := by
  have haccepted : ofEnvironment overfull =
      .ok { channelCapacity := maxChannelCapacity + 1 } := by decide +kernel
  exact ⟨_, haccepted, by decide, rfl⟩

end Settings

end TimeMerge
