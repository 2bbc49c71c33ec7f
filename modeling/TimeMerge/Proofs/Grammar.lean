import TimeMerge.KeyRule
import TimeMerge.Proofs.Spelling

/-!
# The grammar of timestamps

Which fields count as timestamps is said here without the scan that finds out: an integer that a signed
word can hold and that is not negative, or the text of one. Such a text has an optional sign and one or
more decimal digits, any number of zeros among them, and blanks around it as it likes.
-/
namespace TimeMerge

namespace Text

/-- Decimal digits of a number within a limit, any number of zeros first. -/
structure Digits (limit : Nat) (ds : List Char) (n : Nat) : Prop where
  some : ds ≠ []
  all : ∀ c ∈ ds, c.isDigit = true
  value : Nat.ofDigitChars 10 ds 0 = n
  fits : n ≤ limit

/-- How a timestamp may be written. With a minus nothing but zero can be. -/
inductive Numeral : List Char → Int → Prop where
  | plain {ds : List Char} {n : Nat} (digits : Digits maxSigned ds n) : Numeral ds n
  | plus {ds : List Char} {n : Nat} (digits : Digits maxSigned ds n) : Numeral ('+' :: ds) n
  | minusZero (zeros : Nat) : Numeral ('-' :: List.replicate (zeros + 1) '0') 0

/-- The text of a timestamp, with any blanks around it. -/
def Denotes (s : String) (t : Int) : Prop :=
  ∃ before numeral after, s.toList = before ++ numeral ++ after ∧
    (∀ c ∈ before ++ after, isBlank c = true) ∧ Numeral numeral t

variable {limit value n : Nat} {past : IntegerError} {c : Char} {cs ds : List Char} {s : String}
  {t : Int}

theorem isDigit_iff : c.isDigit = true ↔ '0' ≤ c ∧ c ≤ '9' := by
  simp only [Char.isDigit, Bool.and_eq_true, decide_eq_true_eq]
  rfl

theorem digit?_of_isDigit (h : c.isDigit = true) : digit? c = some (c.toNat - '0'.toNat) :=
  if_pos (isDigit_iff.1 h)

theorem digit?_of_not_isDigit (h : ¬c.isDigit = true) : digit? c = none :=
  if_neg (mt isDigit_iff.2 h)

theorem le_ofDigitChars (cs : List Char) (value : Nat) : value ≤ Nat.ofDigitChars 10 cs value := by
  induction cs generalizing value with
  | nil => exact Nat.le_refl value
  | cons c cs ih =>
    rw [Nat.ofDigitChars_cons]
    exact Nat.le_trans (by omega) (ih _)

/-- The scan goes through exactly if there are only digits and their number is within the limit. -/
theorem magnitude_eq_ok_iff (h : value ≤ limit) : magnitude limit past value cs = .ok n ↔
    (∀ c ∈ cs, c.isDigit = true) ∧ Nat.ofDigitChars 10 cs value = n ∧ n ≤ limit := by
  induction cs generalizing value with
  | nil =>
    rw [magnitude, Nat.ofDigitChars_nil, Except.ok.injEq]
    exact ⟨fun hn => ⟨nofun, hn, hn ▸ h⟩, fun hn => hn.2.1⟩
  | cons c cs ih =>
    rw [magnitude, Nat.ofDigitChars_cons, List.forall_mem_cons, Nat.mul_comm 10 value]
    by_cases hc : c.isDigit = true
    · simp only [digit?_of_isDigit hc, hc, true_and]
      split
      · rename_i hfits
        exact ih hfits
      · -- a number that is past the limit stays so
        rename_i hpast
        have hgrows := le_ofDigitChars cs (value * 10 + (c.toNat - '0'.toNat))
        constructor
        · nofun
        · rintro ⟨_, rfl, hfits⟩
          exact absurd (Nat.le_trans hgrows hfits) hpast
    · simp [digit?_of_not_isDigit hc, hc]

theorem magnitude_eq_ok_iff_digits (hcs : cs ≠ []) :
    magnitude limit past 0 cs = .ok n ↔ Digits limit cs n := by
  rw [magnitude_eq_ok_iff (Nat.zero_le limit)]
  exact ⟨fun ⟨hall, hvalue, hfits⟩ => ⟨hcs, hall, hvalue, hfits⟩, fun h => ⟨h.all, h.value, h.fits⟩⟩

/-- Zero is written with zeros only. -/
theorem eq_zero_of_ofDigitChars (h : ∀ c ∈ ds, c.isDigit = true)
    (hzero : Nat.ofDigitChars 10 ds 0 = 0) : ∀ c ∈ ds, c = '0' := by
  induction ds with
  | nil => nofun
  | cons c ds ih =>
    obtain ⟨hc, hds⟩ := List.forall_mem_cons.1 h
    rw [Nat.ofDigitChars_cons] at hzero
    have hfirst := le_ofDigitChars ds (10 * 0 + (c.toNat - '0'.toNat))
    have hlow : '0'.toNat ≤ c.toNat := (isDigit_iff.1 hc).1
    have hnone : 10 * 0 + (c.toNat - '0'.toNat) = 0 := by omega
    rw [hnone] at hzero
    exact List.forall_mem_cons.2 ⟨Char.toNat_inj.1 (by omega), ih hds hzero⟩

theorem digits_zero_iff :
    Digits limit ds 0 ↔ ∃ zeros, ds = List.replicate (zeros + 1) '0' := by
  constructor
  · intro h
    have hreplicate := List.eq_replicate_of_mem (eq_zero_of_ofDigitChars h.all h.value)
    obtain ⟨c, rest, rfl⟩ := List.exists_cons_of_ne_nil h.some
    exact ⟨rest.length, hreplicate⟩
  · rintro ⟨zeros, rfl⟩
    refine ⟨nofun, fun c hc => ?_, ?_, Nat.zero_le _⟩
    · rw [List.eq_of_mem_replicate hc]
      rfl
    · rw [Nat.ofDigitChars_replicate_zero, Nat.mul_zero]

theorem Digits.head (h : Digits limit (c :: ds) n) : c.isDigit = true :=
  h.all c List.mem_cons_self

theorem Digits.not_plus : ¬Digits limit ('+' :: ds) n := fun h => absurd h.head (by decide)

theorem Digits.not_minus : ¬Digits limit ('-' :: ds) n := fun h => absurd h.head (by decide)

theorem numeral_plus_iff : Numeral ('+' :: ds) t ↔ ∃ n, Digits maxSigned ds n ∧ Int.ofNat n = t := by
  constructor
  · intro h
    cases h with
    | plain digits => exact absurd digits Digits.not_plus
    | plus digits => exact ⟨_, digits, rfl⟩
  · rintro ⟨n, digits, rfl⟩
    exact .plus digits

theorem numeral_minus_iff :
    Numeral ('-' :: ds) t ↔ t = 0 ∧ Digits (maxSigned + 1) ds 0 := by
  rw [digits_zero_iff]
  constructor
  · intro h
    cases h with
    | plain digits => exact absurd digits Digits.not_minus
    | minusZero zeros => exact ⟨rfl, zeros, rfl⟩
  · rintro ⟨rfl, zeros, rfl⟩
    exact .minusZero zeros

theorem numeral_iff (hplus : ∀ c ds, cs ≠ '+' :: c :: ds) (hminus : ∀ c ds, cs ≠ '-' :: c :: ds) :
    Numeral cs t ↔ ∃ n, Digits maxSigned cs n ∧ Int.ofNat n = t := by
  constructor
  · intro h
    cases h with
    | plain digits => exact ⟨_, digits, rfl⟩
    | plus digits =>
      obtain ⟨c, ds, rfl⟩ := List.exists_cons_of_ne_nil digits.some
      exact absurd rfl (hplus c ds)
    | minusZero zeros => exact absurd rfl (hminus '0' (List.replicate zeros '0'))
  · rintro ⟨n, digits, rfl⟩
    exact .plain digits

theorem map_eq_ok_iff {ε β γ : Type} {r : Except ε β} {f : β → γ} {y : γ} :
    r.map f = .ok y ↔ ∃ x, r = .ok x ∧ f x = y := by
  cases r <;> simp [Except.map]

/-- A scan that has no sign, or has passed a plus, reads numbers that are not negative. -/
theorem map_magnitude_eq_ok_iff (hcs : cs ≠ []) :
    (magnitude limit past 0 cs).map Int.ofNat = .ok t ∧ 0 ≤ t ↔
      ∃ n, Digits limit cs n ∧ Int.ofNat n = t := by
  simp only [map_eq_ok_iff, magnitude_eq_ok_iff_digits hcs]
  refine ⟨And.left, fun h => ⟨h, ?_⟩⟩
  obtain ⟨n, _, rfl⟩ := h
  exact Int.natCast_nonneg n

/-- What is read as an integer that is not negative. -/
theorem integer?_eq_ok_iff : integer? s = .ok t ∧ 0 ≤ t ↔ Numeral s.toList t := by
  rw [integer?]
  generalize s.toList = cs
  split
  · constructor
    · rintro ⟨hread, _⟩
      cases hread
    · intro h
      cases h with
      | plain digits => exact absurd rfl digits.some
  · rw [numeral_plus_iff]
    exact map_magnitude_eq_ok_iff (List.cons_ne_nil _ _)
  · rename_i c ds
    have hdigits : magnitude (maxSigned + 1) .tooSmall 0 (c :: ds) = .ok 0 ↔
        Digits (maxSigned + 1) (c :: ds) 0 := magnitude_eq_ok_iff_digits (List.cons_ne_nil c ds)
    rw [numeral_minus_iff, ← hdigits]
    cases magnitude (maxSigned + 1) .tooSmall 0 (c :: ds) with
    | error e => simp [Except.map]
    | ok n =>
      simp only [Except.map, bind, Except.bind, pure, Except.pure, Except.ok.injEq]
      omega
  · rename_i hsome hplus hminus
    rw [numeral_iff hplus hminus]
    exact map_magnitude_eq_ok_iff hsome

theorem isBlank_of_isDigit (h : c.isDigit = true) : isBlank c = false := by
  have hrange := Json.range_of_isDigit h
  exact Json.isBlank_of_visible (by omega)

theorem Numeral.not_blank (h : Numeral cs t) : ∀ c ∈ cs, isBlank c = false := by
  cases h with
  | plain digits => exact fun c hc => isBlank_of_isDigit (digits.all c hc)
  | plus digits =>
    exact List.forall_mem_cons.2 ⟨by decide, fun c hc => isBlank_of_isDigit (digits.all c hc)⟩
  | minusZero zeros =>
    refine List.forall_mem_cons.2 ⟨by decide, fun c hc => ?_⟩
    rw [List.eq_of_mem_replicate hc]
    decide

theorem Numeral.ne_nil (h : Numeral cs t) : cs ≠ [] := by
  cases h with
  | plain digits => exact digits.some
  | plus digits => exact List.cons_ne_nil _ _
  | minusZero zeros => exact List.cons_ne_nil _ _

theorem denotes_iff : Denotes s t ↔ Numeral (trim s).toList t := by
  constructor
  · rintro ⟨before, numeral, after, hs, hblank, h⟩
    have htrimmed : Trimmed (String.ofList numeral) := by
      constructor <;> rw [String.toList_ofList]
      · exact fun c hc => h.not_blank c (List.mem_of_head? hc)
      · exact fun c hc => h.not_blank c (List.mem_of_getLast? hc)
    rw [← String.toList_ofList (l := numeral)] at hs h
    rw [htrimmed.trim_of_append h.ne_nil hs hblank]
    exact h
  · intro h
    obtain ⟨before, after, hs, hblank⟩ := exists_trim s
    exact ⟨before, _, after, hs, hblank, h⟩

end Text

/-- Which fields count as timestamps. -/
inductive Cell.Stamps : Cell → Timestamp → Prop where
  | integer {n : Int} (nonneg : 0 ≤ n) : Stamps (.integer n) n
  | text {s : String} {t : Timestamp} (denotes : Text.Denotes s t) : Stamps (.text s) t

/-- Which JSON values do. A number has to be an integer that a signed word can hold. -/
inductive Json.Stamps : Json → Timestamp → Prop where
  | integer {n : Int} (nonneg : 0 ≤ n) (fits : n ≤ Text.maxSigned) : Stamps (.number (.integer n)) n
  | text {s : String} {t : Timestamp} (denotes : Text.Denotes s t) : Stamps (.string s) t

/-- The value that a rule of the settings finds in a JSON value: only arrays have positions, and only
objects have names. -/
inductive Json.Addressed : KeySpec → Json → Json → Prop where
  | item {i : Nat} {items : List Json} {value : Json} (found : items[i]? = some value) :
      Addressed (.position i) (.array items) value
  | member {name : String} {members : List (String × Json)} {value : Json}
      (found : members.lookup name = some value) : Addressed (.named name) (.object members) value

/-- The field that it finds in a row: of several columns of that name it takes the first. -/
inductive Delimited.Row.Addressed : KeySpec → Row → String → Prop where
  | field {row : Row} {i : Nat} {s : String} (found : row.fields[i]? = some s) :
      Addressed (.position i) row s
  | column {row : Row} {names : List String} {name : String} {i : Nat} {s : String}
      (header : row.names = some names) (named : names[i]? = some name)
      (first : ∀ j < i, names[j]? ≠ some name) (found : row.fields[i]? = some s) :
      Addressed (.named name) row s

namespace KeySpec

/-- The field of a record that a rule of the settings looks for. -/
def cell? [Record α] : KeySpec → α → Option Cell
  | .position index, record => Record.cellAt record index
  | .named name, record => Record.cellNamed record name

/-- What is reported if there is none. -/
def missing : KeySpec → Defect
  | .position index => .noFieldAt index
  | .named name => .noFieldNamed name

end KeySpec

variable {t : Timestamp} {key : KeySpec}

theorem Cell.stamps_iff {cell : Cell} : cell.Stamps t ↔ KeyRule.ofCell cell = .ok t ∧ 0 ≤ t := by
  cases cell with
  | integer n =>
    rw [KeyRule.ofCell, Except.ok.injEq]
    constructor
    · intro h
      cases h with
      | integer nonneg => exact ⟨rfl, nonneg⟩
    · rintro ⟨rfl, nonneg⟩
      exact .integer nonneg
  | text s =>
    have hread : KeyRule.ofCell (.text s) = .ok t ↔ Text.integer? (Text.trim s) = .ok t := by
      rw [KeyRule.ofCell]
      cases Text.integer? (Text.trim s) <;> simp [Except.mapError]
    rw [hread, Text.integer?_eq_ok_iff, ← Text.denotes_iff]
    constructor
    · intro h
      cases h with
      | text denotes => exact denotes
    · exact .text
  | other => exact ⟨nofun, fun h => by cases h.1⟩

theorem Json.stamps_cell_iff {value : Json} : value.cell.Stamps t ↔ value.Stamps t := by
  constructor
  · intro h
    cases value with
    | number n =>
      cases n with
      | integer n =>
        rw [cell] at h
        split at h
        · rename_i hfits
          cases h with
          | integer nonneg => exact .integer nonneg hfits
        · cases h
      | float bits => cases h
    | string s =>
      cases h with
      | text denotes => exact .text denotes
    | _ => cases h
  · intro h
    cases h with
    | integer nonneg fits =>
      rw [cell, if_pos fits]
      exact .integer nonneg
    | text denotes => exact .text denotes

theorem Json.item?_eq_some_iff {json value : Json} {i : Nat} :
    json.item? i = some value ↔ json.Addressed (.position i) value := by
  constructor
  · intro h
    cases json with
    | array items => exact .item h
    | _ => cases h
  · intro h
    cases h with
    | item found => exact found

theorem Json.member?_eq_some_iff {json value : Json} {name : String} :
    json.member? name = some value ↔ json.Addressed (.named name) value := by
  constructor
  · intro h
    cases json with
    | object members => exact .member h
    | _ => cases h
  · intro h
    cases h with
    | member found => exact found

theorem Json.cell?_eq_some_iff {json : Json} {cell : Cell} :
    key.cell? json = some cell ↔ ∃ value, json.Addressed key value ∧ value.cell = cell := by
  cases key with
  | position i =>
    refine Option.map_eq_some_iff.trans (exists_congr fun value => and_congr_left fun _ => ?_)
    exact item?_eq_some_iff
  | named name =>
    refine Option.map_eq_some_iff.trans (exists_congr fun value => and_congr_left fun _ => ?_)
    exact member?_eq_some_iff

/-- Where a name stands first among the names of columns. -/
def Delimited.FirstAt (names : List String) (name : String) (i : Nat) : Prop :=
  names[i]? = some name ∧ ∀ j < i, names[j]? ≠ some name

theorem Delimited.firstAt_iff {names : List String} {name : String} {i : Nat} :
    FirstAt names name i ↔ names.idxOf? name = some i := by
  rw [List.idxOf?_eq_some_iff]
  constructor
  · rintro ⟨here, first⟩
    obtain ⟨hlt, here⟩ := List.getElem?_eq_some_iff.1 here
    refine ⟨hlt, here, fun j hj hname => first j hj ?_⟩
    rw [List.getElem?_eq_getElem (Nat.lt_trans hj hlt), hname]
  · rintro ⟨hlt, here, first⟩
    refine ⟨by rw [List.getElem?_eq_getElem hlt, here], fun j hj hname => ?_⟩
    obtain ⟨hj', hname⟩ := List.getElem?_eq_some_iff.1 hname
    exact first j hj hname

theorem Delimited.Row.named?_eq_some_iff {row : Row} {name s : String} :
    row.named? name = some s ↔ row.Addressed (.named name) s := by
  constructor
  · intro h
    rw [named?] at h
    split at h
    · cases h
    · rename_i names header
      obtain ⟨i, hi, found⟩ := Option.bind_eq_some_iff.1 h
      obtain ⟨named, first⟩ := firstAt_iff.2 hi
      exact .column header named first found
  · intro h
    cases h with
    | column header named first found =>
      rw [named?, header]
      dsimp only
      rw [firstAt_iff.1 ⟨named, first⟩, Option.bind_some, found]

theorem Delimited.Row.cell?_eq_some_iff {row : Row} {cell : Cell} :
    key.cell? row = some cell ↔ ∃ s, row.Addressed key s ∧ .text s = cell := by
  cases key with
  | position i =>
    refine Option.map_eq_some_iff.trans (exists_congr fun s => and_congr_left fun _ => ?_)
    exact ⟨.field, fun h => by cases h with | field found => exact found⟩
  | named name =>
    refine Option.map_eq_some_iff.trans (exists_congr fun s => and_congr_left fun _ => ?_)
    exact named?_eq_some_iff

section Rules

variable [Record α] {record : α} {rule : KeyRule α} {fault : Fault}

namespace KeyRule

theorem timestamp_eq_ok_iff :
    rule.timestamp record = .ok t ↔ rule.find record = .ok t ∧ 0 ≤ t := by
  rw [timestamp]
  cases rule.find record with
  | error fault => simp
  | ok found =>
    dsimp only
    split
    · grind
    · grind

theorem timestamp_eq_error_iff : rule.timestamp record = .error fault ↔ rule.find record = .error fault ∨
    ∃ t, rule.find record = .ok t ∧ t < 0 ∧ fault = .malformed (.negative t) := by
  rw [timestamp]
  cases rule.find record with
  | error fault => simp
  | ok found =>
    dsimp only
    split
    · grind
    · grind

end KeyRule

namespace KeySpec

theorem find_rule (key : KeySpec) (record : α) : key.rule.find record =
    match key.cell? record with
    | none => .error (.malformed key.missing)
    | some cell => (KeyRule.ofCell cell).mapError .malformed := by
  cases key <;> rfl

theorem timestamp_eq_ok_iff :
    key.rule.timestamp record = .ok t ↔ ∃ cell, key.cell? record = some cell ∧ cell.Stamps t := by
  rw [KeyRule.timestamp_eq_ok_iff, find_rule]
  cases key.cell? record with
  | none => simp
  | some cell =>
    simp only [Option.some.injEq, exists_eq_left', Cell.stamps_iff]
    cases KeyRule.ofCell cell <;> simp [Except.mapError]

/-- A record that has no timestamp is malformed. -/
theorem timestamp_cases (key : KeySpec) (record : α) :
    (∃ t, key.rule.timestamp record = .ok t) ∨
      ∃ d, key.rule.timestamp record = .error (.malformed d) := by
  cases hr : key.rule.timestamp record with
  | ok t => exact .inl ⟨t, rfl⟩
  | error fault =>
    refine .inr ?_
    rcases KeyRule.timestamp_eq_error_iff.1 hr with hfind | ⟨t, _, _, rfl⟩
    · rw [find_rule] at hfind
      split at hfind
      · cases hfind
        exact ⟨_, rfl⟩
      · rename_i cell _
        cases hc : KeyRule.ofCell cell with
        | error d =>
          rw [hc] at hfind
          cases hfind
          exact ⟨d, rfl⟩
        | ok t =>
          rw [hc] at hfind
          cases hfind
    · exact ⟨_, rfl⟩

/-- That a record is shared does not change its fields. -/
theorem timestamp_shared (key : KeySpec) (shared : Shared α) :
    key.rule.timestamp shared = key.rule.timestamp shared.record := by
  cases key <;> rfl

end KeySpec

end Rules

/-- A rule of the settings finds a timestamp in a JSON value, or in a row of delimited text, exactly if
there is a field where it looks and this counts as that timestamp; every other record is malformed, and
it makes no difference whether it is shared. A function of the whole record is taken at its word, unless
it gives a negative timestamp: that is malformed, and the faults of the function stay as they are. -/
theorem KeyRule.timestamp_grammar :
    (∀ (key : KeySpec) (json : Json),
      (∀ t, key.rule.timestamp json = .ok t ↔ ∃ value, json.Addressed key value ∧ value.Stamps t) ∧
      ((∃ t, key.rule.timestamp json = .ok t) ∨
        ∃ d, key.rule.timestamp json = .error (.malformed d)) ∧
      key.rule.timestamp (Shared.mk json) = key.rule.timestamp json) ∧
    (∀ (key : KeySpec) (row : Delimited.Row),
      (∀ t, key.rule.timestamp row = .ok t ↔ ∃ s, row.Addressed key s ∧ Text.Denotes s t) ∧
      ((∃ t, key.rule.timestamp row = .ok t) ∨
        ∃ d, key.rule.timestamp row = .error (.malformed d)) ∧
      key.rule.timestamp (Shared.mk row) = key.rule.timestamp row) ∧
    ∀ (α : Type) [Record α] (f : α → Except Fault Timestamp) (record : α),
      (∀ t, (KeyRule.computed f).timestamp record = .ok t ↔ f record = .ok t ∧ 0 ≤ t) ∧
      ∀ fault, (KeyRule.computed f).timestamp record = .error fault ↔ f record = .error fault ∨
        ∃ t, f record = .ok t ∧ t < 0 ∧ fault = .malformed (.negative t) := by
  refine ⟨fun key json => ⟨fun t => ?_, key.timestamp_cases json, key.timestamp_shared ⟨json⟩⟩,
    fun key row => ⟨fun t => ?_, key.timestamp_cases row, key.timestamp_shared ⟨row⟩⟩,
    fun α _ f record => ⟨fun t => timestamp_eq_ok_iff, fun fault => timestamp_eq_error_iff⟩⟩
  · rw [KeySpec.timestamp_eq_ok_iff]
    constructor
    · rintro ⟨cell, hcell, hstamps⟩
      obtain ⟨value, haddressed, rfl⟩ := Json.cell?_eq_some_iff.1 hcell
      exact ⟨value, haddressed, Json.stamps_cell_iff.1 hstamps⟩
    · rintro ⟨value, haddressed, hstamps⟩
      exact ⟨value.cell, Json.cell?_eq_some_iff.2 ⟨value, haddressed, rfl⟩,
        Json.stamps_cell_iff.2 hstamps⟩
  · rw [KeySpec.timestamp_eq_ok_iff]
    constructor
    · rintro ⟨cell, hcell, hstamps⟩
      obtain ⟨s, haddressed, rfl⟩ := Delimited.Row.cell?_eq_some_iff.1 hcell
      cases hstamps with
      | text denotes => exact ⟨s, haddressed, denotes⟩
    · rintro ⟨s, haddressed, denotes⟩
      exact ⟨.text s, Delimited.Row.cell?_eq_some_iff.2 ⟨s, haddressed, rfl⟩, .text denotes⟩

end TimeMerge
