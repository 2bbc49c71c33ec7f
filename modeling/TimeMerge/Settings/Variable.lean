/-!
The environment variables that settings are read from.
-/
namespace TimeMerge.Settings

inductive Variable where
  | timestampField | timestampIndex | inputFormat | delimiter | header | checkOrder
  | channelCapacity | specObject
  deriving DecidableEq, Repr

def Variable.all : List Variable :=
  [.timestampField, .timestampIndex, .inputFormat, .delimiter, .header, .checkOrder,
    .channelCapacity, .specObject]

def Variable.name : Variable → String
  | .timestampField => "ORDMERGE_TIMESTAMP_FIELD"
  | .timestampIndex => "ORDMERGE_TIMESTAMP_INDEX"
  | .inputFormat => "ORDMERGE_INPUT_FORMAT"
  | .delimiter => "ORDMERGE_DELIMITER"
  | .header => "ORDMERGE_HEADER"
  | .checkOrder => "ORDMERGE_CHECK_ORDER"
  | .channelCapacity => "ORDMERGE_CHANNEL_CAPACITY"
  | .specObject => "ORDMERGE_SPEC_OBJECT"

end TimeMerge.Settings
