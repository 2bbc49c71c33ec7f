import TimeMerge.Text.Ascii
import TimeMerge.Text.Utf8

/-!
Rows of delimited text and how one is written on a line. A field is quoted when it holds the
delimiter, a quote or a line end; a quote inside quotes is written twice; a row whose fields would
leave no byte on the line is written as a pair of quotes.
-/
namespace TimeMerge.Delimited

/-- One record of delimited text. `names` are the column names of its document, if it has any. -/
structure Row where
  names : Option (List String)
  fields : List String
  delimiter : UInt8
  deriving DecidableEq, Repr

def Row.ofFields (fields : List String) : Row := ⟨none, fields, Ascii.comma⟩

/-- The field in the first column of that name, if the row reaches so far. -/
def Row.named? (row : Row) (name : String) : Option String :=
  match row.names with
  | none => none
  | some names => (names.idxOf? name).bind fun i => row.fields[i]?

def isTerminator (b : UInt8) : Bool := b == Ascii.carriageReturn || b == Ascii.lineFeed

def needsQuotes (delimiter b : UInt8) : Bool :=
  b == delimiter || b == Ascii.doubleQuote || isTerminator b

def doubleQuotes (field : Bytes) : Bytes :=
  field.flatMap fun b => if b = Ascii.doubleQuote then [b, b] else [b]

def writeField (delimiter : UInt8) (field : Bytes) : Bytes :=
  if field.any (needsQuotes delimiter) then
    Ascii.doubleQuote :: doubleQuotes field ++ [Ascii.doubleQuote]
  else field

def writeFields (delimiter : UInt8) : List Bytes → Bytes
  | [] => []
  | [field] => writeField delimiter field
  | field :: rest => writeField delimiter field ++ delimiter :: writeFields delimiter rest

/-- The bytes of a row's line. A line feed at the end, which only a delimiter can put there, is taken
for the end of the line and dropped. -/
def writeLine (delimiter : UInt8) (fields : List Bytes) : Bytes :=
  let line := writeFields delimiter fields
  let line := if line.isEmpty then [Ascii.doubleQuote, Ascii.doubleQuote] else line
  (line.reverse.dropWhile (· == Ascii.lineFeed)).reverse

/-- A delimiter that is no ASCII character may leave a line that is not text. -/
def Row.line? (row : Row) : Option String :=
  match Utf8.decode (writeLine row.delimiter (row.fields.map Utf8.encode)) with
  | .ok s => some s
  | .error _ => none

end TimeMerge.Delimited
