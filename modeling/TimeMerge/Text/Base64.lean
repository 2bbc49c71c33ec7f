import TimeMerge.Text.Utf8

/-!
Base64 with the standard alphabet, padding required. Symbols come in quads of four; `decode` refuses
a text at the first thing that no encoder writes and says where it stands.
-/
namespace TimeMerge.Base64

inductive DecodeError where
  | invalidByte (offset : Nat) (byte : UInt8)
  | invalidLength (length : Nat)
  | invalidLastSymbol (offset : Nat) (symbol : UInt8)
  | invalidPadding
  deriving DecidableEq, Repr

def DecodeError.describe : DecodeError → String
  | .invalidByte offset byte => s!"InvalidByte({offset}, {byte})"
  | .invalidLength length => s!"InvalidLength({length})"
  | .invalidLastSymbol offset symbol => s!"InvalidLastSymbol({offset}, {symbol})"
  | .invalidPadding => "InvalidPadding"

def pad : UInt8 := 61

/-- The six bits that a symbol stands for. -/
def value? (b : UInt8) : Option Nat :=
  if 65 ≤ b ∧ b ≤ 90 then some (b.toNat - 65)
  else if 97 ≤ b ∧ b ≤ 122 then some (b.toNat - 97 + 26)
  else if 48 ≤ b ∧ b ≤ 57 then some (b.toNat - 48 + 52)
  else if b = 43 then some 62
  else if b = 47 then some 63
  else none

/-- The values of symbols that start at `offset`, none of which may be padding. -/
def values (offset : Nat) : Bytes → Except DecodeError (List Nat)
  | [] => .ok []
  | b :: bs =>
    match value? b with
    | none => .error (.invalidByte offset b)
    | some v => (values (offset + 1) bs).map (v :: ·)

/-- The whole bytes that a run of six-bit values spells, and the bits left over. -/
def pack (vs : List Nat) : Bytes × Nat :=
  let count := vs.length * 6 / 8
  let spare := vs.length * 6 - count * 8
  let number := vs.foldl (fun n v => n * 64 + v) 0
  ((List.range count).map fun i => UInt8.ofNat (number >>> (spare + (count - 1 - i) * 8)),
    number % (1 <<< spare))

/-- The last quad, which alone may be short or padded. Padding may only follow two symbols or
three, up to the end. -/
def lastValues (offset index : Nat) (padding : Option Nat) :
    Bytes → Except DecodeError (List Nat × Option Nat)
  | [] => .ok ([], padding)
  | b :: bs =>
    if b = pad then
      if index < 2 then .error (.invalidByte (offset + index) b)
      else lastValues offset (index + 1) (some (padding.getD (offset + index))) bs
    else
      match padding with
      | some first => .error (.invalidByte first pad)
      | none =>
        match value? b with
        | none => .error (.invalidByte (offset + index) b)
        | some v => (lastValues offset (index + 1) none bs).map fun r => (v :: r.1, r.2)

def decodeLast (offset : Nat) (quad : Bytes) : Except DecodeError Bytes :=
  match lastValues offset 0 none quad with
  | .error e => .error e
  | .ok (vs, _) =>
    if quad ≠ [] ∧ vs.length < 2 then .error (.invalidLength (offset + vs.length))
    else if quad.length % 4 ≠ 0 then .error .invalidPadding
    else if (pack vs).2 ≠ 0 then
      .error (.invalidLastSymbol (offset + vs.length - 1) (quad.getD (vs.length - 1) 0))
    else .ok (pack vs).1

/-- Quads from `offset` on; every quad that another byte follows is full. -/
def decodeQuads (offset : Nat) : Bytes → Except DecodeError Bytes
  | a :: b :: c :: d :: e :: rest =>
    match values offset [a, b, c, d] with
    | .error err => .error err
    | .ok vs => (decodeQuads (offset + 4) (e :: rest)).map ((pack vs).1 ++ ·)
  | quad => decodeLast offset quad

/-- A single byte after the last full quad that is no symbol, such as a line end, is reported before
anything else. -/
def decode (bytes : Bytes) : Except DecodeError Bytes :=
  match bytes.getLast? with
  | some b =>
    if bytes.length % 4 = 1 ∧ b ≠ pad ∧ (value? b).isNone then
      .error (.invalidByte (bytes.length - 1) b)
    else decodeQuads 0 bytes
  | none => .ok []

end TimeMerge.Base64
