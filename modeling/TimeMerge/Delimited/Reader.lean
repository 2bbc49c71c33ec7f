import TimeMerge.Delimited.Row
import TimeMerge.Text.Blank

/-!
Reading delimited text. A record ends at a carriage return, a line feed or the end of the text;
line ends before a record are skipped, so no record is blank. Inside quotes every byte belongs to the
field, two quotes standing for one; after the closing quote a field goes on as an unquoted one.
-/
namespace TimeMerge.Delimited

/-- Where in a field the next byte stands. -/
inductive Mode where
  | fresh | plain | quoted | quoteSeen
  deriving DecidableEq, Repr

/-- What is left of the current field, the fields after it, the bytes after the record, and whether a
line end closed it. -/
structure Tail where
  field : Bytes
  fields : List Bytes
  ahead : Bytes
  closed : Bool
  deriving DecidableEq, Repr

def Tail.keep (b : UInt8) (t : Tail) : Tail := { t with field := b :: t.field }

def Tail.next (t : Tail) : Tail := { t with field := [], fields := t.field :: t.fields }

def tail (delimiter : UInt8) : Mode → Bytes → Tail
  | _, [] => ⟨[], [], [], false⟩
  | .quoted, b :: s =>
    if b = Ascii.doubleQuote then tail delimiter .quoteSeen s
    else (tail delimiter .quoted s).keep b
  | .fresh, b :: s =>
    if b = Ascii.doubleQuote then tail delimiter .quoted s
    else if b = delimiter then (tail delimiter .fresh s).next
    else if isTerminator b then ⟨[], [], s, true⟩
    else (tail delimiter .plain s).keep b
  | .plain, b :: s =>
    if b = delimiter then (tail delimiter .fresh s).next
    else if isTerminator b then ⟨[], [], s, true⟩
    else (tail delimiter .plain s).keep b
  | .quoteSeen, b :: s =>
    if b = Ascii.doubleQuote then (tail delimiter .quoted s).keep b
    else if b = delimiter then (tail delimiter .fresh s).next
    else if isTerminator b then ⟨[], [], s, true⟩
    else (tail delimiter .plain s).keep b

theorem length_ahead_tail_le (delimiter : UInt8) (mode : Mode) (s : Bytes) :
    (tail delimiter mode s).ahead.length ≤ s.length := by
  fun_induction tail delimiter mode s <;> simp only [Tail.keep, Tail.next, List.length_cons] <;>
    first | exact Nat.le_refl _ | omega

/-- The next record; line ends before it are skipped. -/
def record? (delimiter : UInt8) (s : Bytes) : Option Tail :=
  match s.dropWhile isTerminator with
  | [] => none
  | b :: r => some (tail delimiter .fresh (b :: r))

theorem length_tail_cons_lt {delimiter : UInt8} {b : UInt8} {s : Bytes} :
    (tail delimiter .fresh (b :: s)).ahead.length < (b :: s).length := by
  rw [tail]
  split
  · exact Nat.lt_succ_of_le (length_ahead_tail_le _ _ _)
  · split
    · exact Nat.lt_succ_of_le (length_ahead_tail_le _ _ _)
    · split
      · exact Nat.lt_succ_self _
      · exact Nat.lt_succ_of_le (length_ahead_tail_le _ _ _)

theorem length_record? {delimiter : UInt8} {s : Bytes} {t : Tail}
    (h : record? delimiter s = some t) : t.ahead.length < s.length := by
  unfold record? at h
  have hle : (s.dropWhile isTerminator).length ≤ s.length :=
    (List.dropWhile_suffix isTerminator).length_le
  split at h
  · cases h
  · rename_i b r hs
    rw [hs] at hle
    cases h
    exact Nat.lt_of_lt_of_le length_tail_cons_lt hle

/-- A record as read: its fields, whether a line end closed it, and the bytes that lay ahead when
its reading began. -/
structure RawRecord where
  fields : List Bytes
  closed : Bool
  start : Bytes
  deriving DecidableEq, Repr

def records (delimiter : UInt8) (s : Bytes) : List RawRecord :=
  match _h : record? delimiter s with
  | none => []
  | some t => ⟨t.field :: t.fields, t.closed, s⟩ :: records delimiter t.ahead
termination_by s.length
decreasing_by exact length_record? _h

/-- Where the reading of a record began: how many records, lines and bytes lie before it, the lines
counted from 1. -/
structure Position where
  record : Nat
  line : Nat
  byte : Nat
  deriving DecidableEq, Repr

def Position.of (document start : Bytes) (record : Nat) : Position :=
  let before := document.take (document.length - start.length)
  ⟨record, before.count Ascii.lineFeed + 1, before.length⟩

/-- The field that is no text, and how many of its bytes are whole characters. -/
structure Undecodable where
  field : Nat
  offset : Nat
  deriving DecidableEq, Repr

def decodeFrom (index : Nat) : List Bytes → Except Undecodable (List String)
  | [] => .ok []
  | field :: rest =>
    match Utf8.decode field with
    | .error offset => .error ⟨index, offset⟩
    | .ok s => (decodeFrom (index + 1) rest).map (s :: ·)

def isAsciiBlank (b : UInt8) : Bool :=
  b == Ascii.space || b == Ascii.tab || b == Ascii.lineFeed || b == 12 ||
    b == Ascii.carriageReturn

def trimBytes (field : Bytes) : Bytes :=
  ((field.dropWhile isAsciiBlank).reverse.dropWhile isAsciiBlank).reverse

/-- The texts of a record's fields, without the blanks around them. ASCII blanks go before the bytes
are decoded, except in a header, which shows only in the offset of a fault. -/
def decodeFields (heading : Bool) (fields : List Bytes) : Except Undecodable (List String) :=
  (decodeFrom 0 (if heading then fields else fields.map trimBytes)).map (·.map Text.trim)

end TimeMerge.Delimited
