import TimeMerge.Json.Scan
import TimeMerge.Json.Value
import TimeMerge.Text.Integer

/-!
Numbers in JSON text. Digits are gathered into a 64-bit significand for as long as they fit; what
no longer fits only moves the exponent. A number without a point or an exponent whose digits all fit
is an integer, any other is the significand scaled by a power of ten in binary64 arithmetic.
-/
namespace TimeMerge.Json

def digitsOf (s : Bytes) : List Nat := (s.takeWhile Ascii.isDigit).map (·.toNat - 48)

def afterDigits (s : Bytes) : Bytes := s.dropWhile Ascii.isDigit

theorem length_afterDigits_le (s : Bytes) : (afterDigits s).length ≤ s.length :=
  (List.dropWhile_suffix Ascii.isDigit).length_le

/-- Appends digits to a value while it stays within a limit, and counts them. -/
def gather (limit : Nat) : Nat → List Nat → Nat × Nat
  | value, [] => (value, 0)
  | value, d :: ds =>
    if value * 10 + d ≤ limit then
      let r := gather limit (value * 10 + d) ds
      (r.1, r.2 + 1)
    else (value, 0)

def powerOfTen (n : Nat) : Float := Float.ofScientific 1 false n

/-- Division by a power of ten, in steps small enough for the power to be finite. -/
def scaleDown (x : Float) (n : Nat) : Float :=
  if n ≤ 308 then x / powerOfTen n
  else if x == 0 then x
  else scaleDown (x / powerOfTen 308) (n - 308)
termination_by n

/-- The value of `significand · 10^exponent`, unless it is beyond the finite ones. -/
def scaled? (significand : Nat) (exponent : Int) : Option Float :=
  let x := (UInt64.ofNat significand).toFloat
  if exponent < 0 then some (scaleDown x exponent.natAbs)
  else if exponent ≤ 308 then
    let y := x * powerOfTen exponent.toNat
    if y.isInf then none else some y
  else if x == 0 then some x
  else none

def signed (negative : Bool) (x : Float) : Number :=
  .float (if negative then -x else x).toBits

def floatNumeral (negative : Bool) (significand : Nat) (exponent : Int) (ahead : Bytes) :
    Scan (Number × Bytes) :=
  match scaled? significand exponent with
  | some x => .ok (signed negative x, ahead)
  | none => stop .numberOutOfRange ahead

def maxExponent : Nat := 2147483647

def exponentSign : Bytes → Bool × Bytes
  | [] => (false, [])
  | b :: r =>
    if b = Ascii.minus then (true, r)
    else if b = Ascii.plus then (false, r)
    else (false, b :: r)

/-- What follows the exponent mark. Digits past the greatest exponent are read over when the value
is zero either way. -/
def exponentPart (negative : Bool) (significand : Nat) (start : Int) (s : Bytes) :
    Scan (Number × Bytes) :=
  let (down, s) := exponentSign s
  match s with
  | [] => stop .endOfValue []
  | b :: r =>
    if Ascii.isDigit b then
      let ds := digitsOf s
      let (value, taken) := gather maxExponent 0 ds
      if taken < ds.length then
        if significand ≠ 0 ∧ down = false then stop .numberOutOfRange (s.drop (taken + 1))
        else .ok (signed negative 0, afterDigits s)
      else
        floatNumeral negative significand (if down then start - value else start + value)
          (afterDigits s)
    else stop .invalidNumber r

/-- What may follow digits: an exponent, or else nothing more of the number. -/
def exponentOrEnd (negative : Bool) (significand : Nat) (exponent : Int) (s : Bytes) :
    Scan (Number × Bytes) :=
  match s with
  | [] => floatNumeral negative significand exponent []
  | b :: r =>
    if b = Ascii.lowerE ∨ b = Ascii.upperE then exponentPart negative significand exponent r
    else floatNumeral negative significand exponent s

/-- What follows the point; at least one digit does. -/
def fractionPart (negative : Bool) (significand : Nat) (start : Int) (s : Bytes) :
    Scan (Number × Bytes) :=
  match digitsOf s with
  | [] => stopAtNext (if s.isEmpty then .endOfValue else .invalidNumber) s
  | ds =>
    let (value, taken) := gather Text.maxUnsigned significand ds
    exponentOrEnd negative value (start - taken) (afterDigits s)

def integerNumeral (negative : Bool) (significand : Nat) : Number :=
  if negative then
    if 0 < significand ∧ significand ≤ Text.maxSigned + 1 then .integer (-(significand : Int))
    else signed true (UInt64.ofNat significand).toFloat
  else .integer significand

/-- What follows the digits before the point, `dropped` of which are not in the significand. -/
def afterWhole (negative : Bool) (significand dropped : Nat) (s : Bytes) : Scan (Number × Bytes) :=
  match s with
  | [] =>
    if dropped = 0 then .ok (integerNumeral negative significand, [])
    else floatNumeral negative significand dropped []
  | b :: r =>
    if b = Ascii.point then fractionPart negative significand dropped r
    else if b = Ascii.lowerE ∨ b = Ascii.upperE then exponentPart negative significand dropped r
    else if dropped = 0 then .ok (integerNumeral negative significand, s)
    else floatNumeral negative significand dropped s

/-- A number after its sign, if it has one. A leading zero stands alone. -/
def numeral (negative : Bool) (s : Bytes) : Scan (Number × Bytes) :=
  match s with
  | [] => stop .endOfValue []
  | b :: r =>
    if b = Ascii.zero then
      match r with
      | [] => afterWhole negative 0 0 []
      | c :: t =>
        if Ascii.isDigit c then stopAtNext .invalidNumber (c :: t)
        else afterWhole negative 0 0 (c :: t)
    else if Ascii.isDigit b then
      let ds := digitsOf (b :: r)
      let (value, taken) := gather Text.maxUnsigned 0 ds
      afterWhole negative value (ds.length - taken) (afterDigits r)
    else stop .invalidNumber r

theorem ahead_floatNumeral {negative : Bool} {m : Nat} {e : Int} {s r : Bytes} {n : Number}
    (h : floatNumeral negative m e s = .ok (n, r)) : r = s := by
  unfold floatNumeral at h
  split at h
  · simp only [Except.ok.injEq, Prod.mk.injEq] at h
    exact h.2.symm
  · cases h

theorem length_exponentSign_le (s : Bytes) : (exponentSign s).2.length ≤ s.length := by
  unfold exponentSign
  split
  · exact Nat.le_refl _
  · split
    · exact Nat.le_succ _
    · split
      · exact Nat.le_succ _
      · exact Nat.le_refl _

theorem length_exponentPart {negative : Bool} {m : Nat} {e : Int} {s r : Bytes} {n : Number}
    (h : exponentPart negative m e s = .ok (n, r)) : r.length ≤ s.length := by
  have hs := length_exponentSign_le s
  unfold exponentPart at h
  generalize exponentSign s = p at h hs
  obtain ⟨down, t⟩ := p
  have ht := length_afterDigits_le t
  simp only at h hs
  split at h
  · cases h
  · split at h
    · split at h
      · split at h
        · cases h
        · simp only [Except.ok.injEq, Prod.mk.injEq] at h
          rw [← h.2]
          omega
      · rw [ahead_floatNumeral h]
        omega
    · cases h

theorem length_exponentOrEnd {negative : Bool} {m : Nat} {e : Int} {s r : Bytes} {n : Number}
    (h : exponentOrEnd negative m e s = .ok (n, r)) : r.length ≤ s.length := by
  unfold exponentOrEnd at h
  split at h
  · exact ahead_floatNumeral h ▸ Nat.le_refl _
  · split at h
    · exact Nat.le_succ_of_le (length_exponentPart h)
    · exact ahead_floatNumeral h ▸ Nat.le_refl _

theorem length_fractionPart {negative : Bool} {m : Nat} {e : Int} {s r : Bytes} {n : Number}
    (h : fractionPart negative m e s = .ok (n, r)) : r.length ≤ s.length := by
  unfold fractionPart at h
  split at h
  · cases h
  · exact Nat.le_trans (length_exponentOrEnd h) (length_afterDigits_le s)

theorem length_afterWhole {negative : Bool} {m dropped : Nat} {s r : Bytes} {n : Number}
    (h : afterWhole negative m dropped s = .ok (n, r)) : r.length ≤ s.length := by
  unfold afterWhole at h
  split at h
  · split at h
    · simp only [Except.ok.injEq, Prod.mk.injEq] at h
      exact h.2 ▸ Nat.le_refl _
    · exact ahead_floatNumeral h ▸ Nat.le_refl _
  · split at h
    · exact Nat.le_succ_of_le (length_fractionPart h)
    · split at h
      · exact Nat.le_succ_of_le (length_exponentPart h)
      · split at h
        · simp only [Except.ok.injEq, Prod.mk.injEq] at h
          exact h.2 ▸ Nat.le_refl _
        · exact ahead_floatNumeral h ▸ Nat.le_refl _

theorem length_numeral {negative : Bool} {s r : Bytes} {n : Number}
    (h : numeral negative s = .ok (n, r)) : r.length < s.length := by
  unfold numeral at h
  split at h
  · cases h
  · split at h
    · split at h
      · exact Nat.lt_succ_of_le (length_afterWhole h)
      · split at h
        · cases h
        · exact Nat.lt_succ_of_le (length_afterWhole h)
    · split at h
      · exact Nat.lt_succ_of_le (Nat.le_trans (length_afterWhole h) (length_afterDigits_le _))
      · cases h

end TimeMerge.Json
