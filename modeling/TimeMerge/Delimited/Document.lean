import TimeMerge.Inlet

/-!
Inputs of delimited text, a row per record. With a header the first record is no row but names the
columns; one that is not text is reported like any other and leaves the columns without names.
-/
namespace TimeMerge.Delimited

/-- The texts of the record at an index, counted from the first of the document. -/
def readRecord (name : String) (document : Bytes) (header : Bool) (index : Nat)
    (raw : RawRecord) : Except Fault (List String) :=
  (decodeFields (header && index == 0) raw.fields).mapError fun cause =>
    .malformed (.invalidRecord name (Position.of document raw.start index) cause)

def readRows (delimiter : UInt8) (names : Option (List String)) :
    List (Except Fault (List String)) → List (Reading Row) :=
  List.map fun fields => fields.map fun fs => some ⟨names, fs, delimiter⟩

/-- The rows of a document whose first record names the columns. -/
def readNamedRows (delimiter : UInt8) :
    List (Except Fault (List String)) → List (Reading Row)
  | [] => []
  | .ok names :: rest => readRows delimiter (some names) rest
  | .error e :: rest => .error e :: readRows delimiter (some []) rest

/-- The byte order mark that a text may start with, which belongs to no field. -/
def byteOrderMark : Bytes := [0xEF, 0xBB, 0xBF]

/-- The records of a text. A byte order mark is known as one if it is handed over in one piece. -/
def documentRecords (delimiter : UInt8) (contents : Contents) : List RawRecord :=
  if byteOrderMark.isPrefixOf contents.opening then
    match records delimiter (contents.bytes.drop byteOrderMark.length) with
    | [] => []
    | first :: rest => { first with start := contents.bytes } :: rest
  else records delimiter contents.bytes

/-- Records up to the end of the data; where that is a failure, an unfinished record is lost. -/
def wholeRecords (delimiter : UInt8) (contents : Contents) : List RawRecord :=
  let raws := documentRecords delimiter contents
  if contents.failure.isNone then raws else raws.filter (·.closed)

def documentRows (name : String) (delimiter : UInt8) (header : Bool) (contents : Contents) :
    List (Reading Row) :=
  let records := (wholeRecords delimiter contents).zipIdx.map fun (raw, index) =>
    readRecord name contents.bytes header index raw
  if header then readNamedRows delimiter records else readRows delimiter none records

/-- A byte order mark that is handed over alone leaves nothing to read, which is taken for the end of
the data: what would come after it, a failure too, is not looked at. -/
def inlet (name : String) (delimiter : UInt8) (header : Bool) (contents : Contents) : Inlet Row :=
  if contents.opening = byteOrderMark then { name, upcoming := [] }
  else
    let rows := documentRows name delimiter header contents
    match contents.failure with
    | none => { name, upcoming := rows }
    | some reason => { name, upcoming := rows ++ [.error (.unreadable (.reading name reason))] }

end TimeMerge.Delimited
