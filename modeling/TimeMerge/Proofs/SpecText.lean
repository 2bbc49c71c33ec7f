import Mathlib.Data.List.Forall2
import TimeMerge.Proofs.Printing
import TimeMerge.Settings.Overlay

/-!
# The text of a spec object

A spec object can be written in many ways: its members in any order, blanks between all parts, and each
character of a string as it is or escaped. However it is written, the same settings are read.
-/
namespace TimeMerge

namespace Json

variable {c : Char} {s key : String} {n : Nat} {before after value text rest : Bytes}

/-- Four hexadecimal digits and their number. -/
inductive HexText : Bytes → Nat → Prop where
  | digits {a b c d : UInt8} {i j k l : Nat} (first : hexDigit? a = some i)
      (second : hexDigit? b = some j) (third : hexDigit? c = some k)
      (fourth : hexDigit? d = some l) : HexText [a, b, c, d] (((i * 16 + j) * 16 + k) * 16 + l)

/-- The ways in which a character may be written in a string: as it is, with an escape of its own, by
its number, or by the numbers of two surrogates. -/
inductive CharText : Bytes → Char → Prop where
  | plain {c : Char} (quote : c ≠ '"') (backslash : c ≠ '\\') (control : ¬c.toNat < 0x20) :
      CharText (String.utf8EncodeChar c) c
  | short {b : UInt8} {c : Char} (known : shortEscape? b = some c) : CharText [Ascii.backslash, b] c
  | unit {unit : Bytes} {c : Char} (digits : HexText unit c.toNat) :
      CharText (Ascii.backslash :: Ascii.lowerU :: unit) c
  | pair {first second : Bytes} {c : Char} {high low : Nat} (fits : high < 0x400 ∧ low < 0x400)
      (makes : c.toNat = 0x10000 + high * 0x400 + low) (digits : HexText first (0xD800 + high))
      (digits' : HexText second (0xDC00 + low)) :
      CharText (Ascii.backslash :: Ascii.lowerU :: first ++
        Ascii.backslash :: Ascii.lowerU :: second) c

/-- The ways in which a string may be written. -/
def StringText (text : Bytes) (s : String) : Prop :=
  ∃ pieces, List.Forall₂ CharText pieces s.toList ∧
    text = Ascii.doubleQuote :: (pieces.flatten ++ [Ascii.doubleQuote])

theorem hexUnit_of_hexText (h : HexText text n) (rest : Bytes) :
    hexUnit (text ++ rest) = .ok (n, rest) := by
  cases h with
  | digits first second third fourth =>
    simp only [List.cons_append, List.nil_append, hexUnit, first, second, third, fourth]

theorem escape_of_unit (h : HexText text c.toNat) (rest : Bytes) :
    escape (Ascii.lowerU :: text ++ rest) = .ok (c, rest) := by
  have hvalid : c.toNat < 0xD800 ∨ 0xDFFF < c.toNat := c.valid.imp_right And.left
  rw [List.cons_append, escape, if_pos rfl, unicodeEscape, hexUnit_of_hexText h]
  dsimp only
  rw [if_neg (by omega), if_neg (by omega), Char.ofNat_toNat]

theorem lowSurrogate_of_hexText {low : Nat} (hlow : low < 0x400) (h : HexText text (0xDC00 + low))
    (high : Nat) (rest : Bytes) :
    lowSurrogate high (Ascii.backslash :: Ascii.lowerU :: (text ++ rest)) =
      .ok (ofSurrogates high (0xDC00 + low), rest) := by
  unfold lowSurrogate
  simp only [ne_eq, not_true_eq_false, if_false, hexUnit_of_hexText h]
  rw [if_pos (by omega)]

theorem escape_of_pair {first second : Bytes} {high low : Nat} (fits : high < 0x400 ∧ low < 0x400)
    (makes : c.toNat = 0x10000 + high * 0x400 + low) (h : HexText first (0xD800 + high))
    (h' : HexText second (0xDC00 + low)) (rest : Bytes) :
    escape (Ascii.lowerU :: first ++ Ascii.backslash :: Ascii.lowerU :: second ++ rest) =
      .ok (c, rest) := by
  have hchar : ofSurrogates (0xD800 + high) (0xDC00 + low) = c := by
    rw [ofSurrogates, Nat.add_sub_cancel_left, Nat.add_sub_cancel_left, ← makes, Char.ofNat_toNat]
  rw [List.append_assoc, List.cons_append, escape, if_pos rfl, unicodeEscape, hexUnit_of_hexText h]
  dsimp only
  rw [if_neg (by omega), if_pos (by omega), ← hchar]
  exact lowSurrogate_of_hexText fits.2 h' _ rest

theorem stringContent_of_charText (h : CharText text c) (rest : Bytes) :
    stringContent (text ++ rest) =
      (stringContent rest).map fun x => (String.utf8EncodeChar c ++ x.1, x.2) := by
  cases h with
  | plain quote backslash control => exact stringContent_of_char quote backslash control rest
  | @short b _ known =>
    rw [List.cons_append, List.singleton_append]
    refine stringContent_of_escape ?_
    have hunit : b ≠ Ascii.lowerU := by
      rintro rfl
      cases known
    rw [escape, if_neg hunit, known]
  | unit digits => exact stringContent_of_escape (escape_of_unit digits rest)
  | pair fits makes digits digits' =>
    exact stringContent_of_escape (escape_of_pair fits makes digits digits' rest)

theorem stringContent_of_charTexts {pieces : List Bytes} {cs : List Char}
    (h : List.Forall₂ CharText pieces cs) (rest : Bytes) :
    stringContent (pieces.flatten ++ Ascii.doubleQuote :: rest) =
      .ok (cs.flatMap String.utf8EncodeChar, rest) := by
  induction h with
  | nil => rw [List.flatten_nil, List.nil_append, stringContent, if_pos rfl, List.flatMap_nil]
  | cons hc _ ih =>
    rw [List.flatten_cons, List.append_assoc, stringContent_of_charText hc, ih, List.flatMap_cons]
    rfl

/-- A string is read from behind its opening quote. -/
theorem StringText.reads (h : StringText text s) : ∃ content,
    text = Ascii.doubleQuote :: content ∧ ∀ rest, stringBody (content ++ rest) = .ok (s, rest) := by
  obtain ⟨pieces, hpieces, rfl⟩ := h
  refine ⟨_, rfl, fun rest => ?_⟩
  rw [List.append_assoc, List.singleton_append, stringBody, stringContent_of_charTexts hpieces]
  dsimp only
  rw [← Utf8.encode, Utf8.decode_encode]

/-- Characters that need no escape. -/
def isPlain (c : Char) : Bool := c ≠ '"' && c ≠ '\\' && 0x20 ≤ c.toNat

theorem charText_of_isPlain (h : isPlain c = true) : CharText (String.utf8EncodeChar c) c := by
  simp only [isPlain, Bool.and_eq_true, decide_eq_true_eq] at h
  exact .plain h.1.1 h.1.2 (Nat.not_lt.2 h.2)

/-- A string in which no character is escaped. -/
theorem stringText_plain (s : String) (h : s.toList.all isPlain = true) :
    StringText (Ascii.doubleQuote :: (Utf8.encode s ++ [Ascii.doubleQuote])) s := by
  refine ⟨s.toList.map String.utf8EncodeChar, ?_, by rw [Utf8.encode, List.flatMap_def]⟩
  rw [List.forall₂_map_left_iff, List.forall₂_same]
  exact fun c hc => charText_of_isPlain (List.all_eq_true.1 h c hc)

/-- Blanks where JSON allows them. -/
def Gap (text : Bytes) : Prop := ∀ b ∈ text, isGap b = true

instance (text : Bytes) : Decidable (Gap text) :=
  decidable_of_iff (text.all isGap = true) List.all_eq_true

theorem skipGap_gap (h : Gap before) (rest : Bytes) : skipGap (before ++ rest) = skipGap rest :=
  List.dropWhile_append_of_pos h

/-- A sign behind blanks. -/
theorem skipGap_gap_cons {b : UInt8} (h : Gap before) (hb : isGap b = false) (rest : Bytes) :
    skipGap (before ++ b :: rest) = b :: rest := by
  rw [skipGap_gap h, skipGap, List.dropWhile_cons_of_neg (by simp [hb])]

/-- Nothing that ends an element or a member is taken for more of a number. -/
theorem ends_gap {b : UInt8} (h : Gap before) (hb : b = Ascii.comma ∨ b = Ascii.closeBrace)
    (rest : Bytes) : Ends (before ++ b :: rest) := by
  cases before with
  | nil => rcases hb with rfl | rfl <;> exact ends_cons (by decide) rest
  | cons g gs =>
    have hg := h g List.mem_cons_self
    simp only [isGap, Bool.or_eq_true, beq_iff_eq] at hg
    rcases hg with ((rfl | rfl) | rfl) | rfl <;> exact ends_cons (by decide) _

theorem colon_gap (h : Gap before) (rest : Bytes) :
    colon (before ++ Ascii.colon :: rest) = .ok rest := by
  rw [colon, skipGap_gap_cons h (by decide)]
  rfl

/-- What some reader reads from a text, whatever follows, if that is no more of a number. The text
starts neither with a blank nor as `null` does. -/
structure Reads (read : Bytes → Scan (α × Bytes)) (text : Bytes) (a : α) : Prop where
  opens : ∃ b r, text = b :: r ∧ isGap b = false ∧ b ≠ Ascii.lowerN
  reads : ∀ rest, Ends rest → read (text ++ rest) = .ok (a, rest)

/-- A value or `null` in its place. -/
inductive OrNullText (Text : Bytes → α → Prop) : Bytes → Option α → Prop where
  | null : OrNullText Text (Utf8.encode "null") none
  | value {text : Bytes} {a : α} (written : Text text a) : OrNullText Text text (some a)

def BooleanText (text : Bytes) (b : Bool) : Prop := text = Utf8.encode (toString b)

/-- A natural number that a word can hold, in decimal. -/
def NaturalText (text : Bytes) (n : Nat) : Prop := text = digits n ∧ n ≤ Text.maxUnsigned

theorem expect_of_scalar {e : Expected α} {b : UInt8} {r rest : Bytes} {j : Json} {a : α}
    (hgap : isGap b = false) (hlist : b ≠ Ascii.openBracket) (hobject : b ≠ Ascii.openBrace)
    (hscalar : scalar b r = .ok (j, rest)) (haccept : e.accept? j = some a) :
    expect e (b :: r) = .ok (a, rest) := by
  rw [expect, skipGap, List.dropWhile_cons_of_neg (by simp [hgap])]
  dsimp only
  rw [expectFrom, if_neg hlist, if_neg hobject, hscalar]
  dsimp only
  rw [haccept]

theorem expect_of_stringBody {e : Expected α} {r rest : Bytes} {a : α}
    (hbody : stringBody r = .ok (s, rest)) (haccept : e.accept? (.string s) = some a) :
    expect e (Ascii.doubleQuote :: r) = .ok (a, rest) := by
  have hscalar : scalar Ascii.doubleQuote r = .ok (.string s, rest) := by
    rw [scalar, hbody]
    rfl
  exact expect_of_scalar (by decide) (by decide) (by decide) hscalar haccept

theorem StringText.expected (h : StringText text s) : Reads (expect .text) text s := by
  obtain ⟨content, rfl, hreads⟩ := h.reads
  exact ⟨⟨_, _, rfl, by decide, by decide⟩, fun rest _ => expect_of_stringBody (hreads rest) rfl⟩

theorem BooleanText.expected {b : Bool} (h : BooleanText text b) :
    Reads (expect .boolean) text b := by
  obtain rfl := h
  cases b with
  | false =>
    refine ⟨⟨_, _, rfl, by decide, by decide⟩, fun rest _ => ?_⟩
    exact expect_of_scalar (b := Ascii.lowerF) (by decide) (by decide) (by decide) rfl rfl
  | true =>
    refine ⟨⟨_, _, rfl, by decide, by decide⟩, fun rest _ => ?_⟩
    exact expect_of_scalar (b := Ascii.lowerT) (by decide) (by decide) (by decide) rfl rfl

theorem NaturalText.expected (h : NaturalText text n) : Reads (expect .natural) text n := by
  obtain ⟨rfl, hfits⟩ := h
  obtain ⟨b, r, hcons, hdigit, hvisible⟩ := digits_eq_cons n
  have hne : ∀ b', Ascii.isDigit b' = false → b ≠ b' := by
    rintro b' hb' rfl
    rw [hdigit] at hb'
    cases hb'
  refine ⟨⟨b, r, hcons, isGap_of_visible hvisible, hne _ (by decide)⟩, fun rest hrest => ?_⟩
  have hnumeral := numeral_digits false hfits hrest
  rw [hcons, List.cons_append] at hnumeral ⊢
  refine expect_of_scalar (isGap_of_visible hvisible) (hne _ (by decide)) (hne _ (by decide)) ?_ rfl
    (j := .number (.integer n))
  rw [scalar, if_neg (hne _ (by decide)), if_neg (hne _ (by decide)), if_neg (hne _ (by decide)),
    if_neg (hne _ (by decide)), if_pos hdigit, hnumeral]
  rfl

/-- Where a value may be `null`, blanks before it are passed as well. -/
theorem orNull_of_text {Text : Bytes → α → Prop} {read : Bytes → Scan (α × Bytes)} {a : Option α}
    (h : OrNullText Text text a) (hread : ∀ {text a}, Text text a → Reads read text a)
    (hgap : Gap before) (hrest : Ends rest) :
    orNull read (before ++ text ++ rest) = .ok (a, rest) := by
  cases h with
  | null =>
    rw [List.append_assoc, orNull]
    have hnull : Utf8.encode "null" ++ rest = Ascii.lowerN :: 117 :: 108 :: 108 :: rest := rfl
    rw [hnull, skipGap_gap_cons hgap (by decide)]
    rfl
  | value written =>
    obtain ⟨⟨b, r, rfl, hb, hnull⟩, hreads⟩ := hread written
    have hvalue := hreads rest hrest
    rw [List.cons_append] at hvalue
    rw [List.append_assoc, orNull, List.cons_append, skipGap_gap_cons hgap hb]
    dsimp only
    rw [if_neg hnull, hvalue]
    rfl

theorem expect_gap (h : Gap before) (e : Expected α) (rest : Bytes) :
    expect e (before ++ rest) = expect e rest := by
  rw [expect, expect, skipGap_gap h]

/-- A member of an object: its key, a colon and its value. -/
def MemberText (key : String) (value text : Bytes) : Prop :=
  ∃ name before after, StringText name key ∧ Gap before ∧ Gap after ∧
    text = name ++ (before ++ Ascii.colon :: (after ++ value))

/-- Behind the opening quote of a member its key is read, and behind that the colon. -/
theorem MemberText.reads (h : MemberText key value text) : ∃ content after,
    text = Ascii.doubleQuote :: content ∧ Gap after ∧
      ∀ rest, ∃ t, stringBody (content ++ rest) = .ok (key, t) ∧
        colon t = .ok (after ++ (value ++ rest)) := by
  obtain ⟨name, before, after, hname, hbefore, hafter, rfl⟩ := h
  obtain ⟨content, rfl, hreads⟩ := hname.reads
  refine ⟨content ++ (before ++ Ascii.colon :: (after ++ value)), after, rfl, hafter, fun rest =>
    ⟨before ++ Ascii.colon :: (after ++ (value ++ rest)), ?_, colon_gap hbefore _⟩⟩
  simp only [List.append_assoc, List.cons_append]
  exact hreads _

theorem nextMember_gap (h : Gap before) (first : Bool) (rest : Bytes) :
    nextMember first (before ++ rest) = nextMember first rest := by
  rw [nextMember, nextMember, skipGap_gap h]

theorem nextMember_comma_gap (h : Gap before) (rest : Bytes) :
    nextMember false (Ascii.comma :: (before ++ Ascii.doubleQuote :: rest)) = .ok (.element rest) := by
  rw [nextMember, skipGap_cons (by decide)]
  dsimp only
  rw [if_neg (by decide), if_neg Bool.false_ne_true, if_pos rfl, skipGap_gap_cons h (by decide)]
  rfl

end Json

namespace Settings

open Json Overlay

/-- One member of a spec object: what it sets, if it does not set it to `null`. -/
inductive Setting where
  | timestamp (value : Option KeySpec)
  | format (value : Option String)
  | delimiter (value : Option String)
  | header (value : Option Bool)
  | checkOrder (value : Option Bool)
  | channelCapacity (value : Option Nat)
  deriving DecidableEq, Repr

namespace Setting

def member : Setting → Member
  | .timestamp _ => .timestamp
  | .format _ => .format
  | .delimiter _ => .delimiter
  | .header _ => .header
  | .checkOrder _ => .checkOrder
  | .channelCapacity _ => .channelCapacity

def put (o : Overlay) : Setting → Overlay
  | .timestamp value => { o with timestamp := value }
  | .format value => { o with format := value }
  | .delimiter value => { o with delimiter := value }
  | .header value => { o with header := value }
  | .checkOrder value => { o with checkOrder := value }
  | .channelCapacity value => { o with channelCapacity := value }

end Setting

/-- A timestamp rule as an object of one member, which names the form of the rule. -/
inductive KeyText : Bytes → KeySpec → Prop where
  | position {before after value member : Bytes} {index : Nat} (gap : Gap before) (gap' : Gap after)
      (written : NaturalText value index) (named : MemberText "index" value member) :
      KeyText (Ascii.openBrace :: (before ++ (member ++ (after ++ [Ascii.closeBrace]))))
        (.position index)
  | named {before after value member : Bytes} {field : String} (gap : Gap before) (gap' : Gap after)
      (written : StringText value field) (named : MemberText "field" value member) :
      KeyText (Ascii.openBrace :: (before ++ (member ++ (after ++ [Ascii.closeBrace]))))
        (.named field)

/-- The texts of the value of a setting. -/
def Setting.ValueText : Setting → Bytes → Prop
  | .timestamp value, text => OrNullText KeyText text value
  | .format value, text => OrNullText StringText text value
  | .delimiter value, text => OrNullText StringText text value
  | .header value, text => OrNullText BooleanText text value
  | .checkOrder value, text => OrNullText BooleanText text value
  | .channelCapacity value, text => OrNullText NaturalText text value

def SettingText (text : Bytes) (x : Setting) : Prop :=
  ∃ value, x.ValueText value ∧ MemberText x.member.name value text

/-- What follows the opening brace of a spec object, or else one of its members. -/
inductive MembersText : Bool → Bytes → List Setting → Prop where
  | close {first : Bool} {gap : Bytes} (blank : Gap gap) :
      MembersText first (gap ++ [Ascii.closeBrace]) []
  | first {gap text rest : Bytes} {x : Setting} {xs : List Setting} (blank : Gap gap)
      (member : SettingText text x) (more : MembersText false rest xs) :
      MembersText true (gap ++ (text ++ rest)) (x :: xs)
  | next {gap gap' text rest : Bytes} {x : Setting} {xs : List Setting} (blank : Gap gap)
      (blank' : Gap gap') (member : SettingText text x) (more : MembersText false rest xs) :
      MembersText false (gap ++ Ascii.comma :: (gap' ++ (text ++ rest))) (x :: xs)

/-- A spec object of these settings, in this order. -/
def SpecText (text : Bytes) (xs : List Setting) : Prop :=
  ∃ before members after, Gap before ∧ Gap after ∧ MembersText true members xs ∧
    text = before ++ Ascii.openBrace :: (members ++ after)

/-- What a spec object of these settings comes to. -/
def overlayOf (xs : List Setting) : Overlay := xs.foldl Setting.put {}

variable {before text value rest : Bytes} {spec : KeySpec} {x : Setting} {xs : List Setting}
  {first : Bool} {seen : List Member}

theorem variant_index {s r : Bytes} (h : stringBody s = .ok ("index", r)) :
    variant (Ascii.doubleQuote :: s) = .ok (.index, r) := by
  rw [variant, expect_of_stringBody (e := variantName) h rfl]
  rfl

theorem variant_field {s r : Bytes} (h : stringBody s = .ok ("field", r)) :
    variant (Ascii.doubleQuote :: s) = .ok (.field, r) := by
  rw [variant, expect_of_stringBody (e := variantName) h rfl]
  dsimp only
  rw [if_neg (by decide), if_pos rfl]

theorem oneOf_of_member {after member : Bytes} {key : String} {v : Variant} (hgap : Gap before)
    (hgap' : Gap after) (named : MemberText key value member)
    (hform : ∀ s r, stringBody s = .ok (key, r) → variant (Ascii.doubleQuote :: s) = .ok (v, r))
    (hpayload : ∀ gap rest, Gap gap → Ends rest → payload v (gap ++ (value ++ rest)) = .ok (spec, rest))
    (rest : Bytes) :
    oneOf (before ++ (member ++ (after ++ Ascii.closeBrace :: rest))) = .ok (spec, rest) := by
  obtain ⟨content, gap, rfl, hblank, hreads⟩ := named.reads
  obtain ⟨t, hbody, hcolon⟩ := hreads (after ++ Ascii.closeBrace :: rest)
  have hkey : variantKey (before ++ (Ascii.doubleQuote :: content ++
      (after ++ Ascii.closeBrace :: rest))) = .ok (v, t) := by
    rw [variantKey, List.cons_append, skipGap_gap_cons hgap (by decide)]
    exact hform _ t hbody
  have hend : endOfOne (after ++ Ascii.closeBrace :: rest) = .ok rest := by
    rw [endOfOne, skipGap_gap_cons hgap' (by decide)]
    rfl
  rw [oneOf, hkey]
  dsimp only
  rw [hcolon]
  dsimp only
  rw [hpayload gap _ hblank (ends_gap hgap' (.inr rfl) rest)]
  dsimp only
  rw [hend]
  rfl

theorem keySpec_openBrace {s : Bytes} (h : oneOf s = .ok (spec, rest)) (past : Bytes → Bytes) :
    keySpec past (Ascii.openBrace :: s) = .ok (spec, rest) := by
  rw [keySpec, skipGap_cons (by decide)]
  exact h

theorem KeyText.reads (h : KeyText text spec) (past : Bytes → Bytes) :
    Reads (keySpec past) text spec := by
  cases h with
  | @position before after value member index gap gap' written named =>
    refine ⟨⟨_, _, rfl, by decide, by decide⟩, fun rest _ => ?_⟩
    simp only [List.cons_append, List.append_assoc, List.nil_append]
    refine keySpec_openBrace (oneOf_of_member gap gap' named (fun _ _ => variant_index) ?_ rest) past
    intro blank rest hblank hrest
    rw [payload, expect_gap hblank, written.expected.reads rest hrest]
    rfl
  | @named before after value member field gap gap' written named =>
    refine ⟨⟨_, _, rfl, by decide, by decide⟩, fun rest _ => ?_⟩
    simp only [List.cons_append, List.append_assoc, List.nil_append]
    refine keySpec_openBrace (oneOf_of_member gap gap' named (fun _ _ => variant_field) ?_ rest) past
    intro blank rest hblank hrest
    rw [payload, expect_gap hblank, written.expected.reads rest hrest]
    rfl

/-- A setting is put over those before it. -/
theorem setMember_of_text (h : x.ValueText value) (hgap : Gap before) (hrest : Ends rest)
    (o : Overlay) :
    setMember pastObject x.member o (before ++ (value ++ rest)) = .ok (x.put o, rest) := by
  rw [← List.append_assoc]
  cases x with
  | timestamp => rw [Setting.member, setMember, orNull_of_text h (KeyText.reads · _) hgap hrest]; rfl
  | format => rw [Setting.member, setMember, orNull_of_text h StringText.expected hgap hrest]; rfl
  | delimiter => rw [Setting.member, setMember, orNull_of_text h StringText.expected hgap hrest]; rfl
  | header => rw [Setting.member, setMember, orNull_of_text h BooleanText.expected hgap hrest]; rfl
  | checkOrder => rw [Setting.member, setMember, orNull_of_text h BooleanText.expected hgap hrest]; rfl
  | channelCapacity =>
    rw [Setting.member, setMember, orNull_of_text h NaturalText.expected hgap hrest]; rfl

theorem ofName?_member (m : Member) : Member.ofName? m.name = some m := by
  cases m <;> decide +kernel

theorem members_of_closed {s : Bytes} {o : Overlay} (hn : nextMember first s = .ok (.closed rest)) :
    Overlay.members first seen o s = .ok (o, rest) := by
  rw [Overlay.members]
  split <;> rename_i h <;> rw [hn] at h <;> cases h
  rfl

theorem members_of_member {s r t u : Bytes} {m : Member} {o o' : Overlay}
    (hn : nextMember first s = .ok (.element r)) (hbody : stringBody r = .ok (m.name, t))
    (hseen : m ∉ seen) (hcolon : colon t = .ok u) (hset : setMember pastObject m o u = .ok (o', rest)) :
    Overlay.members first seen o s = Overlay.members false (m :: seen) o' rest := by
  rw [Overlay.members]
  split <;> rename_i h <;> rw [hn] at h <;> cases h
  split <;> rename_i h <;> rw [hbody] at h <;> cases h
  rw [ofName?_member]
  dsimp only
  rw [if_neg (by simpa using hseen)]
  split <;> rename_i h <;> rw [hcolon] at h <;> cases h
  split <;> rename_i h <;> rw [setOrSkip, hset] at h <;> cases h
  rfl

theorem MembersText.ends (h : MembersText false text xs) (rest : Bytes) : Ends (text ++ rest) := by
  cases h with
  | close blank =>
    rw [List.append_assoc]
    exact ends_gap blank (.inr rfl) _
  | next blank =>
    rw [List.append_assoc]
    exact ends_gap blank (.inl rfl) _

/-- A member of a spec object, from behind the opening quote of its name on. -/
theorem SettingText.reads (h : SettingText text x) : ∃ content, text = Ascii.doubleQuote :: content ∧
    ∀ first seen o s rest, Ends rest → nextMember first s = .ok (.element (content ++ rest)) →
      x.member ∉ seen →
      Overlay.members first seen o s = Overlay.members false (x.member :: seen) (x.put o) rest := by
  obtain ⟨value, hvalue, named⟩ := h
  obtain ⟨content, gap, rfl, hblank, hreads⟩ := named.reads
  refine ⟨content, rfl, fun first seen o s rest hrest hn hseen => ?_⟩
  obtain ⟨t, hbody, hcolon⟩ := hreads rest
  exact members_of_member hn hbody hseen hcolon (setMember_of_text hvalue hblank hrest o)

/-- Of settings of distinct names none that follow are set once more. -/
theorem not_seen_of_nodup (hdistinct : ((x :: xs).map Setting.member).Nodup)
    (hseen : ∀ y ∈ x :: xs, y.member ∉ seen) : ∀ y ∈ xs, y.member ∉ x.member :: seen := by
  intro y hy hm
  rcases List.mem_cons.1 hm with he | hm
  · exact (List.nodup_cons.1 hdistinct).1 (List.mem_map.2 ⟨y, hy, he⟩)
  · exact hseen y (List.mem_cons_of_mem _ hy) hm

/-- The members of a spec object are put one after the other over what was set before. -/
theorem MembersText.reads (h : MembersText first text xs) (hdistinct : (xs.map Setting.member).Nodup)
    (hseen : ∀ x ∈ xs, x.member ∉ seen) (o : Overlay) (rest : Bytes) :
    Overlay.members first seen o (text ++ rest) = .ok (xs.foldl Setting.put o, rest) := by
  induction h generalizing seen o with
  | close blank =>
    refine members_of_closed ?_
    rw [List.append_assoc, nextMember_gap blank]
    exact nextMember_closed _ rest
  | @first gap text more x xs blank member hmore ih =>
    obtain ⟨content, rfl, hreads⟩ := member.reads
    have hnext : nextMember true (gap ++ (Ascii.doubleQuote :: content ++ more) ++ rest) =
        .ok (.element (content ++ (more ++ rest))) := by
      simp only [List.append_assoc, List.cons_append]
      rw [nextMember_gap blank]
      exact nextMember_first _
    rw [hreads true seen o _ _ (hmore.ends rest) hnext
      (hseen x List.mem_cons_self)]
    exact ih (List.nodup_cons.1 hdistinct).2 (not_seen_of_nodup hdistinct hseen) _
  | @next gap gap' text more x xs blank blank' member hmore ih =>
    obtain ⟨content, rfl, hreads⟩ := member.reads
    have hnext : nextMember false
        (gap ++ Ascii.comma :: (gap' ++ (Ascii.doubleQuote :: content ++ more)) ++ rest) =
        .ok (.element (content ++ (more ++ rest))) := by
      simp only [List.append_assoc, List.cons_append]
      rw [nextMember_gap blank]
      exact nextMember_comma_gap blank' _
    rw [hreads false seen o _ _ (hmore.ends rest) hnext
      (hseen x List.mem_cons_self)]
    exact ih (List.nodup_cons.1 hdistinct).2 (not_seen_of_nodup hdistinct hseen) _

/-- However a spec object is written, it is read as what its settings come to. -/
theorem parse_of_specText (h : SpecText text xs) (hdistinct : (xs.map Setting.member).Nodup) :
    Overlay.parse text = .ok (overlayOf xs) := by
  obtain ⟨before, membersText, after, hbefore, hafter, hmembers, rfl⟩ := h
  have hobject : Overlay.object (before ++ Ascii.openBrace :: (membersText ++ after)) =
      .ok (overlayOf xs, after) := by
    rw [Overlay.object, skipGap_gap_cons hbefore (by decide)]
    exact hmembers.reads hdistinct (fun _ _ => List.not_mem_nil) {} after
  have hfinish : finish after = .ok () := by
    have hnil : skipGap after = [] := List.dropWhile_eq_nil_iff.2 hafter
    rw [finish, hnil]
  rw [Overlay.parse, Overlay.document, hobject]
  dsimp only
  rw [hfinish]
  rfl

end Settings

end TimeMerge
