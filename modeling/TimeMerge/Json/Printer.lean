import TimeMerge.Decimal.Shortest
import TimeMerge.Json.Value

/-!
Compact JSON text: no blanks, only the escapes that the format demands, and floating-point numbers as
the shortest decimals that read back.
-/
namespace TimeMerge.Json

/-- Positional from 0.00001 up to sixteen digits before the point, then `e-6` and `e+16`. -/
def floatLayout : Decimal.Layout := ⟨-5, 16, true⟩

def Number.print : Number → List Char
  | .integer n => (toString n).toList
  | .float bits => (floatLayout.renderBits Decimal.Magnitude.shortest bits).toList

def escapeChar (c : Char) : List Char :=
  match c with
  | '"' => ['\\', '"']
  | '\\' => ['\\', '\\']
  | '\x08' => ['\\', 'b']
  | '\x0c' => ['\\', 'f']
  | '\n' => ['\\', 'n']
  | '\r' => ['\\', 'r']
  | '\t' => ['\\', 't']
  | c =>
    if c.toNat < 0x20 then
      ['\\', 'u', '0', '0', Nat.digitChar (c.toNat / 16), Nat.digitChar (c.toNat % 16)]
    else [c]

def printString (s : String) : List Char :=
  '"' :: s.toList.flatMap escapeChar ++ ['"']

mutual

def print : Json → List Char
  | .null => ['n', 'u', 'l', 'l']
  | .bool true => ['t', 'r', 'u', 'e']
  | .bool false => ['f', 'a', 'l', 's', 'e']
  | .number n => n.print
  | .string s => printString s
  | .array items => '[' :: printItems items ++ [']']
  | .object members => '\x7b' :: printMembers members ++ ['\x7d']

def printItems : List Json → List Char
  | [] => []
  | [j] => print j
  | j :: js => print j ++ ',' :: printItems js

def printMembers : List (String × Json) → List Char
  | [] => []
  | [(key, j)] => printString key ++ ':' :: print j
  | (key, j) :: rest => printString key ++ ':' :: print j ++ ',' :: printMembers rest

end

def compact (j : Json) : String := String.ofList (print j)

end TimeMerge.Json
