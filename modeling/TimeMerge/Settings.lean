import TimeMerge.Fault
import TimeMerge.Settings.Overlay

/-!
Settings of a merge. They are read from environment variables, each of them optional; a spec object,
carried in base64 by one more variable, lies over the others. Of several faults the first in the order
of reading is reported, and the name of the format is looked at last.
-/
namespace TimeMerge

/-- How the inputs are written. -/
inductive InputFormat where
  | jsonLines
  | delimited (delimiter : UInt8) (header : Bool)
  deriving DecidableEq, Repr

structure Settings where
  timestamp : KeySpec := .named "timestamp"
  format : InputFormat := .jsonLines
  checkOrder : Bool := true
  /-- How many records may wait to be written. -/
  channelCapacity : Nat := 500
  deriving DecidableEq, Repr

namespace Settings

abbrev Environment := Variable → Option String

def readBoolean (v : Variable) (value : String) : Except SettingsError Bool :=
  if value.toLower ∈ ["true", "1", "yes"] then .ok true
  else if value.toLower ∈ ["false", "0", "no"] then .ok false
  else .error (.notABoolean v value)

/-- A single ASCII character, or a backslash and `t` for a tab. -/
def readDelimiter (v : Variable) (value : String) : Except SettingsError UInt8 :=
  if value = "\\t" then .ok Ascii.tab
  else match value.toList with
    | [c] => if c.toNat < 128 then .ok (UInt8.ofNat c.toNat) else .error (.notADelimiter v value)
    | _ => .error (.notADelimiter v value)

def readNatural (v : Variable) (value : String) : Except SettingsError Nat :=
  (Text.natural? Text.maxUnsigned value).mapError (.notANumber v value)

def positive (v : Variable) (n : Nat) : Except SettingsError Nat :=
  if n = 0 then .error (.zeroCapacity v) else .ok n

def readCapacity (v : Variable) (value : String) : Except SettingsError Nat :=
  match readNatural v value with
  | .error e => .error e
  | .ok n => positive v n

def formatNamed (name : String) (delimiter : UInt8) (header : Bool) :
    Except SettingsError InputFormat :=
  if name.toLower ∈ ["jsonl", "json"] then .ok .jsonLines
  else if name.toLower ∈ ["delimited", "csv"] then .ok (.delimited delimiter header)
  else .error (.unknownFormat name)

/-- Settings while they are read, the format still in its parts. -/
structure Draft where
  timestamp : KeySpec := .named "timestamp"
  formatName : String := "jsonl"
  delimiter : UInt8 := Ascii.comma
  header : Bool := false
  checkOrder : Bool := true
  channelCapacity : Nat := 500
  deriving DecidableEq, Repr

def timestampSpec (index field : Option String) : Except SettingsError KeySpec :=
  match index, field with
  | some _, some _ => .error .bothTimestamps
  | some index, none => (readNatural .timestampIndex index).map .position
  | none, some name => .ok (.named name)
  | none, none => .ok (.named "timestamp")

/-- What `read` makes of a value that is set, and `unset` otherwise. -/
def orElse (read : α → Except SettingsError β) (unset : β) : Option α → Except SettingsError β
  | none => .ok unset
  | some a => read a

namespace Draft

def ofEnvironment (env : Environment) : Except SettingsError Draft := do
  let timestamp ← timestampSpec (env .timestampIndex) (env .timestampField)
  let delimiter ← orElse (readDelimiter .delimiter) Ascii.comma (env .delimiter)
  let header ← orElse (readBoolean .header) false (env .header)
  let checkOrder ← orElse (readBoolean .checkOrder) true (env .checkOrder)
  let channelCapacity ← orElse (readCapacity .channelCapacity) 500 (env .channelCapacity)
  let formatName := (env .inputFormat).getD "jsonl"
  return { timestamp, formatName, delimiter, header, checkOrder, channelCapacity }

def overlaid (o : Overlay) (d : Draft) : Except SettingsError Draft := do
  let delimiter ← orElse (readDelimiter .specObject) d.delimiter o.delimiter
  let channelCapacity ← orElse (positive .specObject) d.channelCapacity o.channelCapacity
  return {
    timestamp := o.timestamp.getD d.timestamp
    formatName := o.format.getD d.formatName
    delimiter
    header := o.header.getD d.header
    checkOrder := o.checkOrder.getD d.checkOrder
    channelCapacity }

def settings (d : Draft) : Except SettingsError Settings :=
  (formatNamed d.formatName d.delimiter d.header).map fun format =>
    { timestamp := d.timestamp, format, checkOrder := d.checkOrder,
      channelCapacity := d.channelCapacity }

end Draft

def overlay (text : String) : Except SettingsError Overlay := do
  let bytes ← (Base64.decode (Utf8.encode text)).mapError .notBase64
  (Overlay.parse bytes).mapError .notASpec

def ofEnvironment (env : Environment) : Except SettingsError Settings := do
  let plain ← Draft.ofEnvironment env
  let draft ← orElse (fun text => do plain.overlaid (← overlay text)) plain (env .specObject)
  draft.settings

end Settings

end TimeMerge
