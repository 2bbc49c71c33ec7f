import TimeMerge.Text.Ascii
import TimeMerge.Text.Utf8

/-!
Scanning JSON text. Scanners take the bytes that lie ahead and return what they read together with
the bytes that then lie ahead. One that stops says why and how many bytes lay beyond the place to
report, so that a position is worked out once, from the whole text.
-/
namespace TimeMerge.Json

inductive Reason where
  | endOfValue | endOfString | endOfList | endOfObject
  | expectedColon | expectedListCommaOrEnd | expectedObjectCommaOrEnd
  | expectedIdent | expectedValue | keyNotAString
  | invalidEscape | invalidNumber | numberOutOfRange | invalidCodePoint | controlCharacter
  | loneSurrogate | unexpectedEndOfHexEscape
  | trailingComma | trailingCharacters | recursionLimit
  /-- A value that a reader of some particular shape refuses, in that reader's words. -/
  | refused (text : String)
  deriving DecidableEq, Repr

def Reason.message : Reason → String
  | .endOfValue => "EOF while parsing a value"
  | .endOfString => "EOF while parsing a string"
  | .endOfList => "EOF while parsing a list"
  | .endOfObject => "EOF while parsing an object"
  | .expectedColon => "expected `:`"
  | .expectedListCommaOrEnd => "expected `,` or `]`"
  | .expectedObjectCommaOrEnd => "expected `,` or `\x7d`"
  | .expectedIdent => "expected ident"
  | .expectedValue => "expected value"
  | .keyNotAString => "key must be a string"
  | .invalidEscape => "invalid escape"
  | .invalidNumber => "invalid number"
  | .numberOutOfRange => "number out of range"
  | .invalidCodePoint => "invalid unicode code point"
  | .controlCharacter => "control character (\\u0000-\\u001F) found while parsing a string"
  | .loneSurrogate => "lone leading surrogate in hex escape"
  | .unexpectedEndOfHexEscape => "unexpected end of hex escape"
  | .trailingComma => "trailing comma"
  | .trailingCharacters => "trailing characters"
  | .recursionLimit => "recursion limit exceeded"
  | .refused text => text

/-- Why a scan stopped, and how many bytes lay beyond the place. -/
structure Stop where
  reason : Reason
  left : Nat
  deriving DecidableEq, Repr

abbrev Scan (α : Type) := Except Stop α

/-- Stops at the border between what was read and what lies ahead. -/
def stop (reason : Reason) (ahead : Bytes) : Scan α := .error ⟨reason, ahead.length⟩

/-- Stops at the next byte, if there is one. -/
def stopAtNext (reason : Reason) (ahead : Bytes) : Scan α :=
  .error ⟨reason, ahead.length - 1⟩

theorem map_ok {f : α → β} {x : Scan α} {b : β} (h : x.map f = .ok b) :
    ∃ a, x = .ok a ∧ f a = b := by
  cases x with
  | error e => cases h
  | ok a => cases h; exact ⟨a, rfl, rfl⟩

def isGap (b : UInt8) : Bool :=
  b == Ascii.space || b == Ascii.lineFeed || b == Ascii.tab || b == Ascii.carriageReturn

def skipGap (s : Bytes) : Bytes := s.dropWhile isGap

theorem length_skipGap_le (s : Bytes) : (skipGap s).length ≤ s.length :=
  (List.dropWhile_suffix isGap).length_le

theorem length_lt_of_skipGap {s r : Bytes} {b : UInt8} (h : skipGap s = b :: r) :
    r.length < s.length := by
  have := length_skipGap_le s
  simp only [h, List.length_cons] at this
  omega

def keyword : Bytes → Bytes → Scan Bytes
  | [], s => .ok s
  | _ :: _, [] => stop .endOfValue []
  | w :: word, b :: s => if b = w then keyword word s else stop .expectedIdent s

theorem length_keyword {w s r : Bytes} (h : keyword w s = .ok r) : r.length ≤ s.length := by
  induction w generalizing s with
  | nil => cases h; exact Nat.le_refl _
  | cons a w ih =>
    cases s with
    | nil => cases h
    | cons b s =>
      rw [keyword] at h
      split at h
      · exact Nat.le_succ_of_le (ih h)
      · cases h

def hexDigit? (b : UInt8) : Option Nat :=
  if 48 ≤ b ∧ b ≤ 57 then some (b.toNat - 48)
  else if 97 ≤ b ∧ b ≤ 102 then some (b.toNat - 87)
  else if 65 ≤ b ∧ b ≤ 70 then some (b.toNat - 55)
  else none

/-- Four hexadecimal digits. -/
def hexUnit : Bytes → Scan (Nat × Bytes)
  | a :: b :: c :: d :: r =>
    match hexDigit? a, hexDigit? b, hexDigit? c, hexDigit? d with
    | some a, some b, some c, some d => .ok (((a * 16 + b) * 16 + c) * 16 + d, r)
    | _, _, _, _ => stop .invalidEscape r
  | _ => stop .endOfString []

theorem length_hexUnit {s r : Bytes} {n : Nat} (h : hexUnit s = .ok (n, r)) :
    r.length < s.length := by
  unfold hexUnit at h
  split at h
  · split at h
    · cases h
      simp only [List.length_cons]
      omega
    · cases h
  · cases h

/-- The character of two surrogate halves. -/
def ofSurrogates (high low : Nat) : Char :=
  Char.ofNat (0x10000 + (high - 0xD800) * 0x400 + (low - 0xDC00))

/-- The second half of a character beyond the basic plane, whose first half was `high`. -/
def lowSurrogate (high : Nat) (s : Bytes) : Scan (Char × Bytes) :=
  match s with
  | [] => stop .endOfString []
  | b :: r =>
    if b ≠ Ascii.backslash then stop .unexpectedEndOfHexEscape r
    else
      match r with
      | [] => stop .endOfString []
      | u :: t =>
        if u ≠ Ascii.lowerU then stop .unexpectedEndOfHexEscape t
        else
          match hexUnit t with
          | .error e => .error e
          | .ok (low, rest) =>
            if 0xDC00 ≤ low ∧ low ≤ 0xDFFF then .ok (ofSurrogates high low, rest)
            else stop .loneSurrogate rest

/-- What follows a backslash and `u`: one unit, or two that make up one character. -/
def unicodeEscape (s : Bytes) : Scan (Char × Bytes) :=
  match hexUnit s with
  | .error e => .error e
  | .ok (n, r) =>
    if 0xDC00 ≤ n ∧ n ≤ 0xDFFF then stop .loneSurrogate r
    else if 0xD800 ≤ n ∧ n ≤ 0xDBFF then lowSurrogate n r
    else .ok (Char.ofNat n, r)

def shortEscape? (b : UInt8) : Option Char :=
  match b.toNat with
  | 34 => some '"'
  | 47 => some '/'
  | 92 => some '\\'
  | 98 => some '\x08'
  | 102 => some '\x0c'
  | 110 => some '\n'
  | 114 => some '\r'
  | 116 => some '\t'
  | _ => none

/-- The character that the bytes after a backslash stand for. -/
def escape : Bytes → Scan (Char × Bytes)
  | [] => stop .endOfString []
  | b :: r =>
    if b = Ascii.lowerU then unicodeEscape r
    else
      match shortEscape? b with
      | some c => .ok (c, r)
      | none => stop .invalidEscape r

theorem length_lowSurrogate {n : Nat} {s r : Bytes} {c : Char}
    (h : lowSurrogate n s = .ok (c, r)) : r.length < s.length := by
  unfold lowSurrogate at h
  split at h
  · cases h
  · split at h
    · cases h
    · split at h
      · cases h
      · split at h
        · cases h
        · split at h
          · cases h
          · rename_i hu
            have := length_hexUnit hu
            split at h
            · simp only [Except.ok.injEq, Prod.mk.injEq] at h
              obtain ⟨_, rfl⟩ := h
              simp only [List.length_cons]
              omega
            · cases h

theorem length_unicodeEscape {s r : Bytes} {c : Char} (h : unicodeEscape s = .ok (c, r)) :
    r.length < s.length := by
  unfold unicodeEscape at h
  split at h
  · cases h
  · rename_i n t hu
    have hlt := length_hexUnit hu
    split at h
    · cases h
    · split at h
      · exact Nat.lt_trans (length_lowSurrogate h) hlt
      · cases h
        exact hlt

theorem length_escape {s r : Bytes} {c : Char} (h : escape s = .ok (c, r)) :
    r.length < s.length := by
  cases s with
  | nil => cases h
  | cons b s =>
    rw [escape] at h
    split at h
    · exact Nat.lt_succ_of_lt (length_unicodeEscape h)
    · split at h
      · cases h
        exact Nat.lt_succ_self _
      · cases h

/-- The content of a string up to its closing quote, escapes resolved, as bytes. -/
def stringContent (s : Bytes) : Scan (Bytes × Bytes) :=
  match s with
  | [] => stop .endOfString []
  | b :: r =>
    if b = Ascii.doubleQuote then .ok ([], r)
    else if b = Ascii.backslash then
      match _h : escape r with
      | .error e => .error e
      | .ok (c, r) =>
        match stringContent r with
        | .error e => .error e
        | .ok (content, rest) => .ok (String.utf8EncodeChar c ++ content, rest)
    else if b < 0x20 then stop .controlCharacter r
    else
      match stringContent r with
      | .error e => .error e
      | .ok (content, rest) => .ok (b :: content, rest)
termination_by s.length
decreasing_by
  · have := length_escape _h
    simp only [List.length_cons]
    omega
  · simp

theorem length_stringContent {s content rest : Bytes} (h : stringContent s = .ok (content, rest)) :
    rest.length < s.length := by
  fun_induction stringContent s generalizing content rest with
  | case1 => cases h
  | case2 => cases h; simp
  | case3 => cases h
  | case4 => cases h
  | case5 r c t he content' rest' hs _ ih =>
    cases h
    have := ih hs
    have := length_escape he
    simp only [List.length_cons]
    omega
  | case6 => cases h
  | case7 => cases h
  | case8 b r _ _ _ content' rest' hs ih =>
    cases h
    have := ih hs
    simp only [List.length_cons]
    omega

/-- Stops in a string that was read to behind its closing quote, of whose content `whole` bytes are
text: as many bytes back from there as the content has bytes that are not. Where no escape follows
it, that is right behind the first byte that belongs to no whole character. -/
def stopInContent (content : Bytes) (whole : Nat) (rest : Bytes) : Scan α :=
  .error ⟨.invalidCodePoint, rest.length + (content.length - whole)⟩

/-- A string after its opening quote. Whether its bytes are text is looked at last, once the closing
quote is found. -/
def stringBody (s : Bytes) : Scan (String × Bytes) :=
  match stringContent s with
  | .error e => .error e
  | .ok (content, rest) =>
    match Utf8.decode content with
    | .error whole => stopInContent content whole rest
    | .ok text => .ok (text, rest)

theorem length_stringBody {s rest : Bytes} {text : String} (h : stringBody s = .ok (text, rest)) :
    rest.length < s.length := by
  unfold stringBody at h
  split at h
  · cases h
  · rename_i content r hs
    split at h <;> cases h
    exact length_stringContent hs

/-- Where a scan stopped, as a line from 1 on and the number of bytes read on that line. -/
structure Position where
  line : Nat
  column : Nat
  deriving DecidableEq, Repr

def Position.after (read : Bytes) : Position :=
  ⟨read.count Ascii.lineFeed + 1, (read.reverse.takeWhile (· != Ascii.lineFeed)).length⟩

structure SyntaxError where
  reason : Reason
  position : Position
  deriving DecidableEq, Repr

def Stop.toError (s : Bytes) (e : Stop) : SyntaxError :=
  ⟨e.reason, Position.after (s.take (s.length - e.left))⟩

def SyntaxError.message (e : SyntaxError) : String :=
  s!"{e.reason.message} at line {e.position.line} column {e.position.column}"

end TimeMerge.Json
