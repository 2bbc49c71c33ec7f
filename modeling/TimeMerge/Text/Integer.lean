/-!
Whole numbers in decimal. A number is an optional sign and one or more ASCII digits, with any number
of leading zeros; a reader is given the greatest magnitude it may return and says at the first
character that settles it why a text is no such number.
-/
namespace TimeMerge.Text

inductive IntegerError where
  | empty | invalidDigit | tooLarge | tooSmall
  deriving DecidableEq, Repr

def IntegerError.message : IntegerError → String
  | .empty => "cannot parse integer from empty string"
  | .invalidDigit => "invalid digit found in string"
  | .tooLarge => "number too large to fit in target type"
  | .tooSmall => "number too small to fit in target type"

def IntegerError.name : IntegerError → String
  | .empty => "Empty"
  | .invalidDigit => "InvalidDigit"
  | .tooLarge => "PosOverflow"
  | .tooSmall => "NegOverflow"

def digit? (c : Char) : Option Nat :=
  if '0' ≤ c ∧ c ≤ '9' then some (c.toNat - '0'.toNat) else none

/-- Reads digits onto `value`. The scan stops at the first character that is no digit or takes the
number past `limit`, so of two faults the earlier one is reported. -/
def magnitude (limit : Nat) (past : IntegerError) : Nat → List Char → Except IntegerError Nat
  | value, [] => .ok value
  | value, c :: cs =>
    match digit? c with
    | none => .error .invalidDigit
    | some d =>
      if value * 10 + d ≤ limit then magnitude limit past (value * 10 + d) cs else .error past

/-- An unsigned number; a leading `+` is allowed, a `-` is no digit. -/
def natural? (limit : Nat) (s : String) : Except IntegerError Nat :=
  match s.toList with
  | [] => .error .empty
  | '+' :: c :: cs => magnitude limit .tooLarge 0 (c :: cs)
  | cs => magnitude limit .tooLarge 0 cs

/-- The greatest signed and unsigned 64-bit numbers. -/
def maxSigned : Nat := 9223372036854775807

def maxUnsigned : Nat := 18446744073709551615

/-- A signed 64-bit number. -/
def integer? (s : String) : Except IntegerError Int :=
  match s.toList with
  | [] => .error .empty
  | '+' :: c :: cs => (magnitude maxSigned .tooLarge 0 (c :: cs)).map Int.ofNat
  | '-' :: c :: cs => (magnitude (maxSigned + 1) .tooSmall 0 (c :: cs)).map fun n => -(n : Int)
  | cs => (magnitude maxSigned .tooLarge 0 cs).map Int.ofNat

end TimeMerge.Text
