import TimeMerge.Json.Expect
import TimeMerge.Json.Skip
import TimeMerge.KeyRule

/-!
The spec object: settings as one JSON value, which lie over those of the environment. It is an object
whose members are all optional, unknown ones passed over, or an array of all of them in order.
-/
namespace TimeMerge.Settings

/-- What a spec object sets; what it leaves out or sets to `null` stays as it is. -/
structure Overlay where
  timestamp : Option KeySpec := none
  format : Option String := none
  delimiter : Option String := none
  header : Option Bool := none
  checkOrder : Option Bool := none
  channelCapacity : Option Nat := none
  deriving DecidableEq, Repr

namespace Overlay

inductive Member where
  | timestamp | format | delimiter | header | checkOrder | channelCapacity
  deriving DecidableEq, Repr

namespace Member

def all : List Member := [timestamp, format, delimiter, header, checkOrder, channelCapacity]

def name : Member → String
  | timestamp => "timestamp"
  | format => "format"
  | delimiter => "delimiter"
  | header => "header"
  | checkOrder => "checkOrder"
  | channelCapacity => "channelCapacity"

def ofName? (name : String) : Option Member := all.find? (·.name == name)

end Member

open Json

def title : String := "struct SpecObject"

/-- Passes the end of the object that a fault was found in, if it is right here: the fault is placed
behind it. -/
def pastObject (s : Bytes) : Bytes :=
  match skipGap s with
  | [] => []
  | b :: r => if b = Ascii.closeBrace then r else b :: r

/-- As `pastObject`; of an array also the comma behind an element is passed. -/
def pastArray (s : Bytes) : Bytes :=
  match skipGap s with
  | [] => []
  | b :: r =>
    if b = Ascii.closeBracket then r
    else if b = Ascii.comma then skipGap r
    else b :: r

/-- The two forms of a timestamp rule. -/
inductive Variant where
  | index | field
  deriving DecidableEq, Repr

def variantName : Expected String := { Expected.text with name := "variant identifier" }

def variant (s : Bytes) : Scan (Variant × Bytes) :=
  match expect variantName s with
  | .error e => .error e
  | .ok (name, r) =>
    if name = "index" then .ok (.index, r)
    else if name = "field" then .ok (.field, r)
    else stop (.refused s!"unknown variant `{name}`, expected `index` or `field`") r

/-- The name of a form as the key of an object. -/
def variantKey (s : Bytes) : Scan (Variant × Bytes) :=
  match skipGap s with
  | [] => stop .endOfObject []
  | b :: r =>
    if b = Ascii.doubleQuote then variant (b :: r)
    else stopAtNext (if b = Ascii.closeBrace then .expectedValue else .keyNotAString) (b :: r)

def payload : Variant → Bytes → Scan (KeySpec × Bytes)
  | .index, s => (expect .natural s).map fun r => (.position r.1, r.2)
  | .field, s => (expect .text s).map fun r => (.named r.1, r.2)

/-- The end of an object of one member. -/
def endOfOne (s : Bytes) : Scan Bytes :=
  match skipGap s with
  | [] => stop .endOfObject []
  | b :: r => if b = Ascii.closeBrace then .ok r else stop .expectedValue (b :: r)

/-- The one member of an object that gives a timestamp rule. -/
def oneOf (s : Bytes) : Scan (KeySpec × Bytes) :=
  match variantKey s with
  | .error e => .error e
  | .ok (v, s) =>
    match colon s with
    | .error e => .error e
    | .ok s =>
      match payload v s with
      | .error e => .error e
      | .ok (spec, s) => (endOfOne s).map fun r => (spec, r)

/-- A timestamp rule. The name of a form alone, as a string, gives none. -/
def keySpec (past : Bytes → Bytes) (s : Bytes) : Scan (KeySpec × Bytes) :=
  match skipGap s with
  | [] => stop .endOfValue []
  | b :: r =>
    if b = Ascii.openBrace then oneOf r
    else if b = Ascii.doubleQuote then
      match variant (b :: r) with
      | .error e => .error e
      | .ok (_, s) => stop (wrongKind "unit variant" "newtype variant") (past s)
    else stopAtNext .expectedValue (b :: r)

/-- The value of a member, put into the overlay. -/
def setMember (past : Bytes → Bytes) (m : Member) (o : Overlay) (s : Bytes) :
    Scan (Overlay × Bytes) :=
  match m with
  | .timestamp => (orNull (keySpec past) s).map fun r => ({ o with timestamp := r.1 }, r.2)
  | .format => (orNull (expect .text) s).map fun r => ({ o with format := r.1 }, r.2)
  | .delimiter => (orNull (expect .text) s).map fun r => ({ o with delimiter := r.1 }, r.2)
  | .header => (orNull (expect .boolean) s).map fun r => ({ o with header := r.1 }, r.2)
  | .checkOrder => (orNull (expect .boolean) s).map fun r => ({ o with checkOrder := r.1 }, r.2)
  | .channelCapacity =>
    (orNull (expect .natural) s).map fun r => ({ o with channelCapacity := r.1 }, r.2)

/-- A member's value that is looked at only if the member is known. -/
def setOrSkip (m : Option Member) (o : Overlay) (s : Bytes) : Scan (Overlay × Bytes) :=
  match m with
  | some m => setMember pastObject m o s
  | none => (skip s).map fun r => (o, r)

theorem length_variant {s r : Bytes} {v : Variant} (h : variant s = .ok (v, r)) :
    r.length < s.length := by
  unfold variant at h
  split at h
  · cases h
  · rename_i he
    have := length_expect he
    split at h
    · cases h
      exact this
    · split at h
      · cases h
        exact this
      · cases h

theorem length_variantKey {s r : Bytes} {v : Variant} (h : variantKey s = .ok (v, r)) :
    r.length < s.length := by
  unfold variantKey at h
  split at h
  · cases h
  · rename_i hs
    split at h
    · exact Nat.lt_of_lt_of_le (length_variant h) (length_lt_of_skipGap hs)
    · cases h

theorem length_payload {v : Variant} {s r : Bytes} {spec : KeySpec}
    (h : payload v s = .ok (spec, r)) : r.length < s.length := by
  cases v <;>
  · obtain ⟨⟨a, t⟩, he, hr⟩ := map_ok h
    cases hr
    exact length_expect he

theorem length_endOfOne {s r : Bytes} (h : endOfOne s = .ok r) : r.length < s.length := by
  unfold endOfOne at h
  split at h
  · cases h
  · rename_i hs
    split at h
    · cases h
      exact length_lt_of_skipGap hs
    · cases h

theorem length_oneOf {s r : Bytes} {spec : KeySpec} (h : oneOf s = .ok (spec, r)) :
    r.length < s.length := by
  unfold oneOf at h
  split at h
  · cases h
  · rename_i hv
    split at h
    · cases h
    · rename_i hc
      split at h
      · cases h
      · rename_i hp
        obtain ⟨t, ht, hr⟩ := map_ok h
        cases hr
        have := length_variantKey hv
        have := length_colon hc
        have := length_payload hp
        have := length_endOfOne ht
        omega

theorem length_keySpec {past : Bytes → Bytes} {s r : Bytes} {spec : KeySpec}
    (h : keySpec past s = .ok (spec, r)) : r.length < s.length := by
  unfold keySpec at h
  split at h
  · cases h
  · rename_i hs
    split at h
    · exact Nat.lt_trans (length_oneOf h) (length_lt_of_skipGap hs)
    · split at h
      · split at h <;> cases h
      · cases h

theorem length_setMember {past : Bytes → Bytes} {m : Member} {o o' : Overlay} {s r : Bytes}
    (h : setMember past m o s = .ok (o', r)) : r.length < s.length := by
  cases m
  case timestamp =>
    obtain ⟨⟨a, t⟩, he, hr⟩ := map_ok h
    cases hr
    exact length_orNull length_keySpec he
  all_goals
    obtain ⟨⟨a, t⟩, he, hr⟩ := map_ok h
    cases hr
    exact length_orNull length_expect he

theorem length_setOrSkip {m : Option Member} {o o' : Overlay} {s r : Bytes}
    (h : setOrSkip m o s = .ok (o', r)) : r.length < s.length := by
  cases m with
  | none =>
    obtain ⟨t, ht, hr⟩ := map_ok h
    cases hr
    exact length_skip ht
  | some m => exact length_setMember h

/-- The members of an object up to its end. `seen` are those known ones that were set before; none
may be set again, not even to `null`. -/
def members (first : Bool) (seen : List Member) (o : Overlay) (s : Bytes) :
    Scan (Overlay × Bytes) :=
  match _hn : nextMember first s with
  | .error e => .error e
  | .ok (.closed r) => .ok (o, r)
  | .ok (.element r) =>
    match _hk : stringBody r with
    | .error e => .error e
    | .ok (name, t) =>
      let m := Member.ofName? name
      if m.any (· ∈ seen) then stop (.refused s!"duplicate field `{name}`") (pastObject t)
      else
        match _hc : colon t with
        | .error e => .error e
        | .ok u =>
          match _hm : setOrSkip m o u with
          | .error e => .error e
          | .ok (o, v) => members false (m.toList ++ seen) o v
termination_by s.length
decreasing_by
  have := length_nextMember_element _hn
  have := length_stringBody _hk
  have := length_colon _hc
  have := length_setOrSkip _hm
  omega

/-- Only the end of the array may follow its last element. -/
def endOfArray (s : Bytes) : Scan Bytes :=
  match skipGap s with
  | [] => stop .endOfList []
  | b :: r =>
    if b = Ascii.closeBracket then .ok r
    else if b = Ascii.comma then
      let t := skipGap r
      stopAtNext
        (if t.head? = some Ascii.closeBracket then .trailingComma else .trailingCharacters) t
    else stopAtNext .trailingCharacters (b :: r)

/-- The elements of an array, one for each of the members that are left. -/
def elements (index : Nat) : List Member → Overlay → Bytes → Scan (Overlay × Bytes)
  | [], o, s => (endOfArray s).map fun r => (o, r)
  | m :: rest, o, s =>
    match nextItem (index = 0) s with
    | .error e => .error e
    | .ok (.closed r) =>
      let count := Member.all.length
      stop (.refused s!"invalid length {index}, expected {title} with {count} elements") r
    | .ok (.element r) =>
      match setMember pastArray m o r with
      | .error e => .error e
      | .ok (o, t) => elements (index + 1) rest o t

def object (s : Bytes) : Scan (Overlay × Bytes) :=
  match skipGap s with
  | [] => stop .endOfValue []
  | b :: r =>
    if b = Ascii.openBrace then members true [] {} r
    else if b = Ascii.openBracket then elements 0 Member.all {} r
    else expectFrom (.never title) b r

def document (s : Bytes) : Scan Overlay :=
  match object s with
  | .error e => .error e
  | .ok (o, r) => (finish r).map fun _ => o

def parse (s : Bytes) : Except SyntaxError Overlay := (document s).mapError (Stop.toError s)

end Overlay

end TimeMerge.Settings
