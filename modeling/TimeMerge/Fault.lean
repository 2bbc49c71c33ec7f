import TimeMerge.Delimited.Reader
import TimeMerge.Json.Scan
import TimeMerge.Partition
import TimeMerge.Settings.Variable
import TimeMerge.Text.Base64
import TimeMerge.Text.Integer
import TimeMerge.Text.Quoted

/-!
What can go wrong, by cause, and the words for it. `message` is what a reader of a log is told;
`describe` names the kind of fault and what it carries.
-/
namespace TimeMerge

/-- Why a record has no timestamp. -/
inductive Defect where
  | noFieldAt (index : Nat)
  | noFieldNamed (name : String)
  | notAnInteger (text : String) (cause : Text.IntegerError)
  | notAKey
  | negative (timestamp : Timestamp)
  | invalidJson (input : String) (line : Nat) (cause : Json.SyntaxError)
  | invalidRecord (input : String) (position : Delimited.Position)
      (cause : Delimited.Undecodable)
  | reported (text : String)
  deriving DecidableEq, Repr

def Defect.message : Defect → String
  | .noFieldAt index => s!"no field at position {index}"
  | .noFieldNamed name => s!"no field named {Text.quote name}"
  | .notAnInteger text cause =>
    s!"timestamp {Text.quote text} is not an integer: {cause.message}"
  | .notAKey => "timestamp field is neither an integer nor a string"
  | .negative timestamp => s!"negative timestamp {timestamp}"
  | .invalidJson input line cause => s!"{input}:{line}: invalid JSON: {cause.message}"
  | .invalidRecord input at_ cause =>
    s!"{input}:{at_.line}: invalid record: CSV parse error: record {at_.record} " ++
      s!"(line {at_.line}, field: {cause.field}, byte: {at_.byte}): invalid utf-8: " ++
      s!"invalid UTF-8 in field {cause.field} near byte index {cause.offset}"
  | .reported text => text

/-- Why an input cannot be read on. -/
inductive ReadFailure where
  | opening (path reason : String)
  | reading (input reason : String)
  | reported (text : String)
  deriving DecidableEq, Repr

def ReadFailure.message : ReadFailure → String
  | .opening path reason => s!"opening {path}: {reason}"
  | .reading input reason => s!"reading {input}: {reason}"
  | .reported text => text

/-- Why a record or a flush was not taken. -/
inductive Refusal where
  | receiverDropped
  | wouldBlock
  | reported (text : String)
  deriving DecidableEq, Repr

def Refusal.message : Refusal → String
  | .receiverDropped => "receiver dropped"
  | .wouldBlock => "bounded channel sink cannot block inside an async task"
  | .reported text => text

/-- Why settings are not accepted. -/
inductive SettingsError where
  | bothTimestamps
  | notANumber (v : Settings.Variable) (value : String) (cause : Text.IntegerError)
  | notABoolean (v : Settings.Variable) (value : String)
  | notADelimiter (v : Settings.Variable) (value : String)
  | unknownFormat (value : String)
  | zeroCapacity (v : Settings.Variable)
  | notBase64 (cause : Base64.DecodeError)
  | notASpec (cause : Json.SyntaxError)
  deriving DecidableEq, Repr

def Json.SyntaxError.describe (e : Json.SyntaxError) : String :=
  let reason := Text.quote e.reason.message
  s!"Error({reason}, line: {e.position.line}, column: {e.position.column})"

def SettingsError.message : SettingsError → String
  | .bothTimestamps =>
    s!"Only one of {Settings.Variable.timestampIndex.name} and " ++
      s!"{Settings.Variable.timestampField.name} can be set"
  | .notANumber v value cause =>
    s!"Parsing {v.name}(set to '{value}'): ParseIntError \x7b kind: {cause.name} \x7d"
  | .notABoolean v value => s!"Parsing {v.name}(set to '{value}'): expected a boolean"
  | .notADelimiter v value =>
    s!"Parsing {v.name}(set to '{value}'): delimiter must be a single ASCII character"
  | .unknownFormat value =>
    s!"Parsing {Settings.Variable.inputFormat.name}(set to '{value}'): unknown input format"
  | .zeroCapacity v => s!"{v.name} must be greater than zero"
  | .notBase64 cause => s!"decoding {Settings.Variable.specObject.name}: {cause.describe}"
  | .notASpec cause => s!"parsing {Settings.Variable.specObject.name}: {cause.describe}"

inductive Fault where
  | partitionNotOpen (partition : PartitionId)
  | outOfOrder (partition : PartitionId) (previous timestamp : Timestamp)
  | producerFlushed (producer : PartitionId)
  | terminated
  | malformed (defect : Defect)
  | unreadable (failure : ReadFailure)
  | refused (refusal : Refusal)
  | settings (error : SettingsError)
  /-- A run that broke off without an answer of its own. -/
  | interrupted
  deriving DecidableEq, Repr

namespace Fault

def message : Fault → String
  | .partitionNotOpen p => s!"Partition Error - partition {p} is not open"
  | .outOfOrder p previous timestamp =>
    s!"Ordering Error - partition {p} went back in time ({timestamp} < {previous})"
  | .producerFlushed p => s!"Producer Error - producer {p} already sent its flush marker"
  | .terminated =>
    "Terminated Error - all producers have completed, no more input is accepted"
  | .malformed defect => s!"Malformed Record - {defect.message}"
  | .unreadable failure => s!"Source Error - {failure.message}"
  | .refused refusal => s!"Sink Error - {refusal.message}"
  | .settings error => s!"Config Error - {error.message}"
  | .interrupted => "Forwarder Error - Error while joining forwarder task"

def describe : Fault → String
  | .partitionNotOpen p => s!"PartitionNotOpen({p})"
  | .outOfOrder p previous timestamp =>
    s!"OutOfOrder \x7b partition: {p}, previous: {previous}, timestamp: {timestamp} \x7d"
  | .producerFlushed p => s!"ProducerFlushed({p})"
  | .terminated => "Terminated"
  | .malformed defect => s!"Malformed({Text.quote defect.message})"
  | .unreadable failure => s!"Source({Text.quote failure.message})"
  | .refused refusal => s!"Sink({Text.quote refusal.message})"
  | .settings error => s!"Config({Text.quote error.message})"
  | .interrupted => "Forwarder(\"Error while joining forwarder task\")"

/-- Faults of the caller, which no retry can mend. -/
def isContractViolation : Fault → Bool
  | .partitionNotOpen _ | .outOfOrder _ _ _ | .producerFlushed _ | .terminated => true
  | _ => false

end Fault

end TimeMerge
