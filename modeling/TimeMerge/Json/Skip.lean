import TimeMerge.Json.Reader

/-!
Reading over a JSON value that nobody looks at. Only its form counts: numbers may be of any size,
escapes need not pair up, bytes need not be text, and brackets may be nested as deep as they are.
-/
namespace TimeMerge.Json

/-- What follows an exponent mark. -/
def skipExponent (s : Bytes) : Scan Bytes :=
  match (exponentSign s).2 with
  | [] => stop .invalidNumber []
  | b :: r => if Ascii.isDigit b then .ok (afterDigits r) else stop .invalidNumber r

def skipExponentOrEnd (s : Bytes) : Scan Bytes :=
  match s with
  | [] => .ok []
  | b :: r => if b = Ascii.lowerE ∨ b = Ascii.upperE then skipExponent r else .ok (b :: r)

/-- What follows the point; at least one digit does. -/
def skipFraction (s : Bytes) : Scan Bytes :=
  match digitsOf s with
  | [] => stopAtNext .invalidNumber s
  | _ => skipExponentOrEnd (afterDigits s)

def skipAfterWhole (s : Bytes) : Scan Bytes :=
  match s with
  | [] => .ok []
  | b :: r => if b = Ascii.point then skipFraction r else skipExponentOrEnd (b :: r)

/-- A number after its sign, if it has one. A leading zero stands alone. -/
def skipNumeral (s : Bytes) : Scan Bytes :=
  match s with
  | [] => stop .invalidNumber []
  | b :: r =>
    if b = Ascii.zero then
      match digitsOf r with
      | [] => skipAfterWhole r
      | _ => stopAtNext .invalidNumber r
    else if Ascii.isDigit b then skipAfterWhole (afterDigits r)
    else stop .invalidNumber r

/-- What follows a backslash. -/
def skipEscape : Bytes → Scan Bytes
  | [] => stop .endOfString []
  | b :: r =>
    if b = Ascii.lowerU then (hexUnit r).map (·.2)
    else
      match shortEscape? b with
      | some _ => .ok r
      | none => stop .invalidEscape r

theorem length_skipEscape {s r : Bytes} (h : skipEscape s = .ok r) : r.length < s.length := by
  cases s with
  | nil => cases h
  | cons b s =>
    rw [skipEscape] at h
    split at h
    · obtain ⟨⟨n, t⟩, hu, rfl⟩ := map_ok h
      exact Nat.lt_succ_of_lt (length_hexUnit hu)
    · split at h
      · cases h
        exact Nat.lt_succ_self _
      · cases h

/-- A string after its opening quote. -/
def skipString (s : Bytes) : Scan Bytes :=
  match s with
  | [] => stop .endOfString []
  | b :: r =>
    if b = Ascii.doubleQuote then .ok r
    else if b = Ascii.backslash then
      match _h : skipEscape r with
      | .error e => .error e
      | .ok r => skipString r
    else if b < 0x20 then stop .controlCharacter (b :: r)
    else skipString r
termination_by s.length
decreasing_by
  · have := length_skipEscape _h
    simp only [List.length_cons]
    omega
  · simp

/-- A value whose first byte is `b`, unless it is an array or an object. -/
def skipScalar (b : UInt8) (s : Bytes) : Scan Bytes :=
  if b = Ascii.lowerN then keyword [117, 108, 108] s
  else if b = Ascii.lowerT then keyword [114, 117, 101] s
  else if b = Ascii.lowerF then keyword [97, 108, 115, 101] s
  else if b = Ascii.minus then skipNumeral s
  else if Ascii.isDigit b then skipNumeral (b :: s)
  else if b = Ascii.doubleQuote then skipString s
  else stopAtNext .expectedValue (b :: s)

inductive Bracket where
  | list | object
  deriving DecidableEq, Repr

namespace Bracket

def opening? (b : UInt8) : Option Bracket :=
  if b = Ascii.openBracket then some .list
  else if b = Ascii.openBrace then some .object
  else none

def closing : Bracket → UInt8
  | .list => Ascii.closeBracket
  | .object => Ascii.closeBrace

def unclosed : Bracket → Reason
  | .list => .endOfList
  | .object => .endOfObject

def expectedCommaOrEnd : Bracket → Reason
  | .list => .expectedListCommaOrEnd
  | .object => .expectedObjectCommaOrEnd

end Bracket

/-- Closes what is closed here of the open brackets, innermost first, and passes the comma after an
element; right behind an opening bracket there is no comma to pass. -/
def close (opened : Bool) : List Bracket → Bytes → Scan (List Bracket × Bytes)
  | [], s => .ok ([], s)
  | bracket :: outer, s =>
    match skipGap s with
    | [] => stop bracket.unclosed []
    | b :: r =>
      if b = bracket.closing then close false outer r
      else if opened then .ok (bracket :: outer, b :: r)
      else if b = Ascii.comma then .ok (bracket :: outer, r)
      else stopAtNext bracket.expectedCommaOrEnd (b :: r)

/-- A key and its colon. -/
def skipKey (s : Bytes) : Scan Bytes :=
  match skipGap s with
  | [] => stop .endOfObject []
  | b :: r =>
    if b = Ascii.doubleQuote then
      match skipString r with
      | .error e => .error e
      | .ok r => colon r
    else stopAtNext .keyNotAString (b :: r)

/-- Comes to where the next value starts, if one does: inside an object that is behind a key. -/
def skipToValue (opened : Bool) (inside : List Bracket) (s : Bytes) :
    Scan (List Bracket × Bytes) :=
  match close opened inside s with
  | .error e => .error e
  | .ok (.object :: outer, r) => (skipKey r).map fun r => (.object :: outer, r)
  | .ok inside => .ok inside

/-- One scalar or opening bracket, and what stands between it and the next value. -/
def skipStep (inside : List Bracket) (s : Bytes) : Scan (List Bracket × Bytes) :=
  match skipGap s with
  | [] => stop .endOfValue []
  | b :: r =>
    match Bracket.opening? b with
    | some bracket => skipToValue true (bracket :: inside) r
    | none =>
      match skipScalar b r with
      | .error e => .error e
      | .ok r => skipToValue false inside r

theorem length_skipExponent {s r : Bytes} (h : skipExponent s = .ok r) :
    r.length ≤ s.length := by
  have hs := length_exponentSign_le s
  unfold skipExponent at h
  split at h
  · cases h
  · rename_i b t ht
    rw [ht] at hs
    split at h
    · cases h
      exact Nat.le_trans (length_afterDigits_le t) (Nat.le_of_succ_le hs)
    · cases h

theorem length_skipExponentOrEnd {s r : Bytes} (h : skipExponentOrEnd s = .ok r) :
    r.length ≤ s.length := by
  unfold skipExponentOrEnd at h
  split at h
  · cases h
    exact Nat.le_refl _
  · split at h
    · exact Nat.le_succ_of_le (length_skipExponent h)
    · cases h
      exact Nat.le_refl _

theorem length_skipFraction {s r : Bytes} (h : skipFraction s = .ok r) :
    r.length ≤ s.length := by
  unfold skipFraction at h
  split at h
  · cases h
  · exact Nat.le_trans (length_skipExponentOrEnd h) (length_afterDigits_le s)

theorem length_skipAfterWhole {s r : Bytes} (h : skipAfterWhole s = .ok r) :
    r.length ≤ s.length := by
  unfold skipAfterWhole at h
  split at h
  · cases h
    exact Nat.le_refl _
  · split at h
    · exact Nat.le_succ_of_le (length_skipFraction h)
    · exact length_skipExponentOrEnd h

theorem length_skipNumeral {s r : Bytes} (h : skipNumeral s = .ok r) : r.length < s.length := by
  unfold skipNumeral at h
  split at h
  · cases h
  · rename_i b t
    split at h
    · split at h
      · exact Nat.lt_succ_of_le (length_skipAfterWhole h)
      · cases h
    · split at h
      · exact Nat.lt_succ_of_le
          (Nat.le_trans (length_skipAfterWhole h) (length_afterDigits_le t))
      · cases h

theorem length_skipString {s r : Bytes} (h : skipString s = .ok r) : r.length < s.length := by
  fun_induction skipString s generalizing r with
  | case1 => cases h
  | case2 => cases h; exact Nat.lt_succ_self _
  | case3 => cases h
  | case4 t u hu _ ih =>
    have := ih h
    have := length_skipEscape hu
    simp only [List.length_cons]
    omega
  | case5 => cases h
  | case6 b t _ _ _ ih => exact Nat.lt_succ_of_lt (ih h)

theorem length_skipScalar {b : UInt8} {s r : Bytes} (h : skipScalar b s = .ok r) :
    r.length ≤ s.length := by
  unfold skipScalar at h
  split at h
  · exact length_keyword h
  split at h
  · exact length_keyword h
  split at h
  · exact length_keyword h
  split at h
  · exact Nat.le_of_lt (length_skipNumeral h)
  split at h
  · exact Nat.le_of_lt_succ (length_skipNumeral h)
  split at h
  · exact Nat.le_of_lt (length_skipString h)
  · cases h

theorem length_close {opened : Bool} {inside inside' : List Bracket} {s r : Bytes}
    (h : close opened inside s = .ok (inside', r)) : r.length ≤ s.length := by
  induction inside generalizing opened s with
  | nil => cases h; exact Nat.le_refl _
  | cons bracket outer ih =>
    rw [close] at h
    split at h
    · cases h
    · rename_i b t hs
      have hlt := length_lt_of_skipGap hs
      split at h
      · exact Nat.le_trans (ih h) (Nat.le_of_lt hlt)
      · split at h
        · cases h
          exact hlt
        · split at h
          · cases h
            exact Nat.le_of_lt hlt
          · cases h

theorem length_skipKey {s r : Bytes} (h : skipKey s = .ok r) : r.length ≤ s.length := by
  unfold skipKey at h
  split at h
  · cases h
  · rename_i b t hs
    have hlt := length_lt_of_skipGap hs
    split at h
    · split at h
      · cases h
      · rename_i u hu
        have := length_skipString hu
        have := length_colon h
        omega
    · cases h

theorem length_skipToValue {opened : Bool} {inside inside' : List Bracket} {s r : Bytes}
    (h : skipToValue opened inside s = .ok (inside', r)) : r.length ≤ s.length := by
  unfold skipToValue at h
  split at h
  · cases h
  · rename_i hc
    obtain ⟨t, hk, ht⟩ := map_ok h
    cases ht
    exact Nat.le_trans (length_skipKey hk) (length_close hc)
  · rename_i hc
    cases h
    exact length_close hc

theorem length_skipStep {inside inside' : List Bracket} {s r : Bytes}
    (h : skipStep inside s = .ok (inside', r)) : r.length < s.length := by
  unfold skipStep at h
  split at h
  · cases h
  · rename_i b t hs
    have hlt := length_lt_of_skipGap hs
    split at h
    · exact Nat.lt_of_le_of_lt (length_skipToValue h) hlt
    · split at h
      · cases h
      · rename_i u hu
        have := length_skipScalar hu
        have := length_skipToValue h
        omega

/-- The values still to come inside the open brackets, and the brackets with them. -/
def skipInside (inside : List Bracket) (s : Bytes) : Scan Bytes :=
  match _h : skipStep inside s with
  | .error e => .error e
  | .ok ([], r) => .ok r
  | .ok (bracket :: outer, r) => skipInside (bracket :: outer) r
termination_by s.length
decreasing_by exact length_skipStep _h

theorem length_skipInside {inside : List Bracket} {s r : Bytes}
    (h : skipInside inside s = .ok r) : r.length < s.length := by
  fun_induction skipInside inside s with
  | case1 => cases h
  | case2 inside s t hs => cases h; exact length_skipStep hs
  | case3 inside s bracket outer t hs ih => exact Nat.lt_trans (ih h) (length_skipStep hs)

/-- One value. -/
def skip (s : Bytes) : Scan Bytes := skipInside [] s

theorem length_skip {s r : Bytes} (h : skip s = .ok r) : r.length < s.length :=
  length_skipInside h

end TimeMerge.Json
