import Mathlib.Logic.Function.Basic
import TimeMerge.Proofs.Acceptance
import TimeMerge.Proofs.Base64
import TimeMerge.Proofs.Grammar
import TimeMerge.Proofs.SpecText

/-!
# Spec objects over variables

What a spec object sets might as well have been set by the variables themselves: the settings that come
out are the same, and so are those that are not accepted. -/
namespace TimeMerge

/-- A number is read from its decimal text. -/
theorem Text.natural?_toString {limit n : Nat} (h : n ≤ limit) :
    Text.natural? limit (toString n) = .ok n := by
  have htext : (toString n).toList = Nat.toDigits 10 n := by
    rw [Nat.toString_eq_repr, Nat.repr_eq_ofList_toDigits, String.toList_ofList]
  have hdigits : Digits limit (Nat.toDigits 10 n) n :=
    ⟨Nat.toDigits_ne_nil, fun c hc => Nat.isDigit_of_mem_toDigits (by decide) (by decide) hc,
      Nat.ofDigitChars_ten_toDigits, h⟩
  rw [natural?, htext]
  split
  · rename_i hnil
    exact absurd hnil Nat.toDigits_ne_nil
  · rename_i hplus
    exact absurd (hplus ▸ hdigits) Digits.not_plus
  · exact (magnitude_eq_ok_iff_digits hdigits.some).2 hdigits

namespace Settings

/-- Two readings of settings that give the same, or neither gives anything. -/
inductive Coincide : Except SettingsError α → Except SettingsError α → Prop where
  | ok {a : α} : Coincide (.ok a) (.ok a)
  | error {e e' : SettingsError} : Coincide (.error e) (.error e')

/-- The environment in which the variables themselves are set to what an overlay sets, as text. Of the
two variables for timestamps the other one is not set then. -/
def Overlay.applied (o : Overlay) (env : Environment) : Environment
  | .timestampIndex =>
    match o.timestamp with
    | none => env .timestampIndex
    | some (.position index) => some (toString index)
    | some (.named _) => none
  | .timestampField =>
    match o.timestamp with
    | none => env .timestampField
    | some (.position _) => none
    | some (.named field) => some field
  | .inputFormat => o.format.or (env .inputFormat)
  | .delimiter => o.delimiter.or (env .delimiter)
  | .header => (o.header.map toString).or (env .header)
  | .checkOrder => (o.checkOrder.map toString).or (env .checkOrder)
  | .channelCapacity => (o.channelCapacity.map toString).or (env .channelCapacity)
  | .specObject => env .specObject

variable {x y : Except SettingsError α} {o : Overlay} {env : Environment} {xs : List Setting}
  {text : Bytes}

theorem Coincide.refl (x : Except SettingsError α) : Coincide x x := by
  cases x with
  | ok a => exact .ok
  | error e => exact .error

theorem Coincide.bind {f g : α → Except SettingsError β} (h : Coincide x y)
    (hnext : ∀ a, Coincide (f a) (g a)) : Coincide (x >>= f) (y >>= g) := by
  cases h with
  | ok => exact hnext _
  | error => exact .error

/-- The numbers of an overlay are held by a word. -/
structure Overlay.Fits (o : Overlay) : Prop where
  index : ∀ n, o.timestamp = some (.position n) → n ≤ Text.maxUnsigned
  capacity : ∀ n ∈ o.channelCapacity, n ≤ Text.maxUnsigned

theorem SettingText.fits {x : Setting} (h : SettingText text x) (ho : o.Fits) : (x.put o).Fits := by
  obtain ⟨value, hvalue, _⟩ := h
  cases x with
  | timestamp key =>
    refine ⟨fun n hn => ?_, ho.capacity⟩
    obtain rfl : key = some (.position n) := hn
    cases hvalue with
    | value written =>
      cases written with
      | position _ _ number => exact number.2
  | channelCapacity n =>
    refine ⟨ho.index, fun n' hn => ?_⟩
    obtain rfl : n = some n' := hn
    cases hvalue with
    | value number => exact number.2
  | _ => exact ⟨ho.index, ho.capacity⟩

theorem MembersText.fits {first : Bool} (h : MembersText first text xs) (ho : o.Fits) :
    (xs.foldl Setting.put o).Fits := by
  induction h generalizing o with
  | close => exact ho
  | first _ member _ ih => exact ih (member.fits ho)
  | next _ _ member _ ih => exact ih (member.fits ho)

theorem SpecText.fits (h : SpecText text xs) : (overlayOf xs).Fits := by
  obtain ⟨_, _, _, _, _, hmembers, _⟩ := h
  exact hmembers.fits ⟨nofun, nofun⟩

/-- What is set by an overlay is read from the overlay or from its text, and what is not set is what it
was. -/
theorem orElse_overlaid {read : String → Except SettingsError β} {read' : γ → Except SettingsError β}
    {unset plain : β} {value : Option String} {set : Option γ} {textOf : γ → String}
    (hplain : orElse read unset value = .ok plain)
    (hread : ∀ a ∈ set, Coincide (read' a) (read (textOf a))) :
    Coincide (orElse read' plain set) (orElse read unset ((set.map textOf).or value)) := by
  cases set with
  | none =>
    rw [Option.map_none, Option.none_or, hplain]
    exact .ok
  | some a => exact hread a rfl

theorem readDelimiter_coincide (v v' : Variable) (value : String) :
    Coincide (readDelimiter v value) (readDelimiter v' value) := by
  rw [readDelimiter, readDelimiter]
  split
  · exact .ok
  · split
    · split
      · exact .ok
      · exact .error
    · exact .error

theorem readBoolean_toString (v : Variable) (b : Bool) : readBoolean v (toString b) = .ok b := by
  cases b with
  | false => rw [readBoolean, if_neg (by decide +kernel), if_pos (by decide +kernel)]
  | true => rw [readBoolean, if_pos (by decide +kernel)]

theorem readNatural_toString {n : Nat} (h : n ≤ Text.maxUnsigned) (v : Variable) :
    readNatural v (toString n) = .ok n := by
  rw [readNatural, Text.natural?_toString h]
  rfl

theorem positive_coincide (v v' : Variable) {n : Nat} (h : n ≤ Text.maxUnsigned) :
    Coincide (positive v n) (readCapacity v' (toString n)) := by
  rw [readCapacity, readNatural_toString h]
  dsimp only
  rw [positive, positive]
  split
  · exact .error
  · exact .ok

/-- A flag has no other text to be read from. -/
theorem readBoolean_overlaid {v : Variable} {unset plain : Bool} {value : Option String}
    (hplain : orElse (readBoolean v) unset value = .ok plain) (set : Option Bool) :
    orElse (readBoolean v) unset ((set.map toString).or value) = .ok (set.getD plain) := by
  cases set with
  | none => exact hplain
  | some b => exact readBoolean_toString v b

theorem timestampSpec_overlaid {plain : KeySpec} (ho : o.Fits)
    (hplain : timestampSpec (env .timestampIndex) (env .timestampField) = .ok plain) :
    timestampSpec (o.applied env .timestampIndex) (o.applied env .timestampField) =
      .ok (o.timestamp.getD plain) := by
  have hfits := ho.index
  rw [Overlay.applied, Overlay.applied]
  cases hkey : o.timestamp with
  | none => exact hplain
  | some key =>
    cases key with
    | named field => rfl
    | position index =>
      dsimp only
      rw [timestampSpec, readNatural_toString (hfits index hkey)]
      rfl

/-- What is drafted from variables is drafted as well with an overlay over those that it stands for. -/
theorem Draft.overlaid_coincide {plain : Draft} (ho : o.Fits) (hplain : ofEnvironment env = .ok plain) :
    Coincide (plain.overlaid o) (ofEnvironment (o.applied env)) := by
  obtain ⟨timestamp, htimestamp, hplain⟩ := exists_of_bind hplain
  obtain ⟨delimiter, hdelimiter, hplain⟩ := exists_of_bind hplain
  obtain ⟨header, hheader, hplain⟩ := exists_of_bind hplain
  obtain ⟨checkOrder, hcheckOrder, hplain⟩ := exists_of_bind hplain
  obtain ⟨channelCapacity, hcapacity, hplain⟩ := exists_of_bind hplain
  cases hplain
  have hdelimiter' : Coincide (orElse (readDelimiter .specObject) delimiter o.delimiter)
      (orElse (readDelimiter .delimiter) Ascii.comma (o.applied env .delimiter)) := by
    have hread : ∀ value ∈ o.delimiter, Coincide (readDelimiter .specObject value)
        (readDelimiter .delimiter (id value)) :=
      fun value _ => readDelimiter_coincide .specObject .delimiter value
    have hoverlaid := orElse_overlaid hdelimiter hread
    rwa [Option.map_id] at hoverlaid
  have hcapacity' : Coincide (orElse (positive .specObject) channelCapacity o.channelCapacity)
      (orElse (readCapacity .channelCapacity) 500 (o.applied env .channelCapacity)) :=
    orElse_overlaid hcapacity fun n hn =>
      positive_coincide .specObject .channelCapacity (ho.capacity n hn)
  have hheader' : orElse (readBoolean .header) false (o.applied env .header) =
      .ok (o.header.getD header) := readBoolean_overlaid hheader o.header
  have hcheckOrder' : orElse (readBoolean .checkOrder) true (o.applied env .checkOrder) =
      .ok (o.checkOrder.getD checkOrder) := readBoolean_overlaid hcheckOrder o.checkOrder
  have hname : (o.applied env .inputFormat).getD "jsonl" =
      o.format.getD ((env .inputFormat).getD "jsonl") := by
    rw [Overlay.applied]
    cases o.format <;> rfl
  rw [ofEnvironment, timestampSpec_overlaid ho htimestamp]
  refine hdelimiter'.bind fun delimiter => ?_
  rw [hheader', hcheckOrder', hname]
  exact hcapacity'.bind fun channelCapacity => .ok

theorem overlay_encode (o : Overlay) (h : Overlay.parse text = .ok o) :
    overlay (Base64.encode text) = .ok o := by
  rw [overlay, Base64.decode_encode]
  show (Overlay.parse text).mapError SettingsError.notASpec = .ok o
  rw [h]
  rfl

/-- To settings that are accepted a spec object may be added, written in any way: what comes of them is
what comes of the variables once those that the spec object sets have its values. -/
theorem ofEnvironment_overlaid {accepted : Settings} (hnone : env .specObject = none)
    (haccepted : ofEnvironment env = .ok accepted) (htext : SpecText text xs)
    (hdistinct : (xs.map Setting.member).Nodup) :
    Coincide (ofEnvironment (Function.update env .specObject (some (Base64.encode text))))
      (ofEnvironment ((overlayOf xs).applied env)) := by
  obtain ⟨plain, hplain, _⟩ := exists_of_bind haccepted
  have hsame : Draft.ofEnvironment (Function.update env .specObject (some (Base64.encode text))) =
      .ok plain := hplain
  have hoverlay := overlay_encode (overlayOf xs) (parse_of_specText htext hdistinct)
  have hspec : ofEnvironment (Function.update env .specObject (some (Base64.encode text))) =
      plain.overlaid (overlayOf xs) >>= Draft.settings := by
    rw [ofEnvironment, hsame, Function.update_self]
    show (overlay (Base64.encode text) >>= plain.overlaid) >>= Draft.settings = _
    rw [hoverlay]
    rfl
  have hvariables : ofEnvironment ((overlayOf xs).applied env) =
      Draft.ofEnvironment ((overlayOf xs).applied env) >>= Draft.settings := by
    have hnone' : (overlayOf xs).applied env .specObject = none := hnone
    rw [ofEnvironment, hnone']
    rfl
  rw [hspec, hvariables]
  exact (Draft.overlaid_coincide htext.fits hplain).bind fun draft => .refl draft.settings

/-- Variables of which the delimiter and the header do not matter yet. -/
def undelimited : Environment
  | .timestampField => some "ts"
  | .delimiter => some ";"
  | .header => some "YES"
  | .channelCapacity => some "+064"
  | _ => none

/-- A spec object that switches the format, with an escape in a name, blanks and a `null`. -/
def switching : Bytes := Utf8.encode
  " \x7b \"form\\u0061t\":\"CSV\",\n\"delimiter\":null,\"timestamp\" : \x7b\"index\":7 \x7d\x7d\t"

theorem specText_switching :
    SpecText switching [.format (some "CSV"), .delimiter none, .timestamp (some (.position 7))] := by
  have hname : Json.StringText (Utf8.encode "\"form\\u0061t\"") "format" := by
    have hplain (c : Char) (h : Json.isPlain c = true) := Json.charText_of_isPlain h
    have hescaped : Json.CharText (Ascii.backslash :: Ascii.lowerU :: [48, 48, 54, 49]) 'a' :=
      .unit (.digits (i := 0) (j := 0) (k := 6) (l := 1) rfl rfl rfl rfl)
    have hpieces := List.Forall₂.cons (hplain 'f' (by decide)) (.cons (hplain 'o' (by decide))
      (.cons (hplain 'r' (by decide)) (.cons (hplain 'm' (by decide))
        (.cons hescaped (.cons (hplain 't' (by decide)) .nil)))))
    exact ⟨_, hpieces, by decide +kernel⟩
  have hformat : SettingText (Utf8.encode "\"form\\u0061t\":\"CSV\"") (.format (some "CSV")) :=
    ⟨_, .value (Json.stringText_plain "CSV" (by decide)), _, [], [], hname, nofun, nofun,
      by decide +kernel⟩
  have hdelimiter : SettingText (Utf8.encode "\"delimiter\":null") (.delimiter none) :=
    ⟨_, .null, _, [], [], Json.stringText_plain "delimiter" (by decide), nofun, nofun,
      by decide +kernel⟩
  have hindex : Json.MemberText "index" (Json.digits 7) (Utf8.encode "\"index\":7") :=
    ⟨_, [], [], Json.stringText_plain "index" (by decide), nofun, nofun, by decide +kernel⟩
  have hkey : KeyText (Utf8.encode "\x7b\"index\":7 \x7d") (.position 7) :=
    @KeyText.position [] [Ascii.space] _ _ 7 nofun (by decide) ⟨rfl, by decide⟩ hindex
  have htimestamp : SettingText (Utf8.encode "\"timestamp\" : \x7b\"index\":7 \x7d")
      (.timestamp (some (.position 7))) :=
    ⟨_, .value hkey, _, [Ascii.space], [Ascii.space], Json.stringText_plain "timestamp" (by decide),
      by decide, by decide, by decide +kernel⟩
  have hend := @MembersText.close false [] nofun
  have hlast := @MembersText.next [] [] _ _ _ _ nofun nofun htimestamp hend
  have hsecond := @MembersText.next [] [Ascii.lineFeed] _ _ _ _ nofun (by decide) hdelimiter hlast
  have hmembers := @MembersText.first [Ascii.space] _ _ _ _ (by decide) hformat hsecond
  exact ⟨[Ascii.space], _, [Ascii.tab], by decide, by decide, hmembers, by decide +kernel⟩

theorem ofEnvironment_overlaid_switching :
    let xs : List Setting := [.format (some "CSV"), .delimiter none, .timestamp (some (.position 7))]
    let accepted : Settings :=
      { timestamp := .named "ts", format := .jsonLines, checkOrder := true, channelCapacity := 64 }
    let switched : Settings :=
      { accepted with timestamp := .position 7, format := .delimited 59 true }
    undelimited .specObject = none ∧ ofEnvironment undelimited = .ok accepted ∧
      SpecText switching xs ∧ (xs.map Setting.member).Nodup ∧
      ofEnvironment ((overlayOf xs).applied undelimited) = .ok switched ∧
      Coincide (ofEnvironment
          (Function.update undelimited .specObject (some (Base64.encode switching))))
        (ofEnvironment ((overlayOf xs).applied undelimited)) := by
  intro xs accepted switched
  have haccepted : ofEnvironment undelimited = .ok accepted := by decide +kernel
  have hdistinct : (xs.map Setting.member).Nodup := by decide
  exact ⟨rfl, haccepted, specText_switching, hdistinct, by decide +kernel,
    ofEnvironment_overlaid rfl haccepted specText_switching hdistinct⟩

end Settings

end TimeMerge
