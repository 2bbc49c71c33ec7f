import TimeMerge.Inlet
import TimeMerge.Json.Reader
import TimeMerge.Text.Blank

/-!
Inputs of one JSON document per line. Lines end at a line feed; blank ones hold no document but count,
and a line that is not text is a fault of the input that does not count.
-/
namespace TimeMerge.JsonLines

/-- The lines that a line feed ends, and what follows the last of them. -/
def split (s : Bytes) : List Bytes × Bytes :=
  s.foldr (fun b r =>
    if b = Ascii.lineFeed then ([] :: r.1, r.2)
    else
      match r.1 with
      | [] => ([], b :: r.2)
      | line :: lines => ((b :: line) :: lines, r.2)) ([], [])

def dropReturns (line : Bytes) : Bytes :=
  (line.reverse.dropWhile (· == Ascii.carriageReturn)).reverse

def readLine (name : String) (number : Nat) (line : Bytes) : Reading Json :=
  match Json.parse (dropReturns line) with
  | .ok j => .ok (some j)
  | .error e => .error (.malformed (.invalidJson name number e))

def notText : String := "stream did not contain valid UTF-8"

/-- The outcomes of lines that `count` lines precede. -/
def readings (name : String) (count : Nat) : List Bytes → List (Reading Json)
  | [] => []
  | line :: rest =>
    match Utf8.decode line with
    | .error _ => .error (.unreadable (.reading name notText)) :: readings name count rest
    | .ok text =>
      if Text.allBlank text then readings name (count + 1) rest
      else readLine name (count + 1) line :: readings name (count + 1) rest

/-- A last line without a line feed counts only if the data end there. -/
def inlet (name : String) (contents : Contents) : Inlet Json :=
  let (lines, last) := split contents.bytes
  match contents.failure with
  | none => { name, upcoming := readings name 0 (if last.isEmpty then lines else lines ++ [last]) }
  | some reason =>
    { name, upcoming := readings name 0 lines, failure := some (.reading name reason) }

end TimeMerge.JsonLines
