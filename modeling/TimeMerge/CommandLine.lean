import TimeMerge.Merge

/-!
The command line. Arguments that start with two hyphens are options, of which only `--metrics` means
anything; all others are paths of inputs, one partition each.
-/
namespace TimeMerge.CommandLine

def usage : String := "usage: ordmerge [--metrics] FILE..."

def isOption (argument : String) : Bool := "--".toList.isPrefixOf argument.toList

def wantsMeters (arguments : List String) : Bool := arguments.contains "--metrics"

/-- What a run leaves behind: its output, the error it reports, the meters if they were asked for and
the exit code. -/
structure Ending where
  code : Nat := 0
  output : String := ""
  error : Option String := none
  meters : Option Meters := none

/-- An error whose words are all there is to say. -/
def failure (text output : String) : Ending := { code := 1, output, error := some (Text.quote text) }

def faulty (fault : Fault) (output : String) : Ending :=
  { code := 1, output, error := some fault.describe }

/-- The named inputs, all of them opened before the first is read. -/
def openAll (look : String → Except String Contents) :
    List String → Except Fault (List (String × Contents))
  | [] => .ok []
  | path :: rest =>
    match look path with
    | .error reason => .error (.unreadable (.opening path reason))
    | .ok contents => (openAll look rest).map ((path, contents) :: ·)

def cancelledText : String := "merge was cancelled before all partitions were consumed"

def ending (wanted : Bool) (merged : Merged) : Ending :=
  match merged.stoppage with
  | none => { output := merged.text, meters := if wanted then some merged.meters else none }
  | some (.fault fault) => faulty fault merged.text
  | some .cancelled => failure cancelledText merged.text
  | some .overCapacity => { code := 101 }

/-- A run with these arguments, where `look` tells what opening a path gives. -/
def run (arguments : List String) (env : Settings.Environment)
    (look : String → Except String Contents) : Ending :=
  match arguments.filter (!isOption ·) with
  | [] => failure usage ""
  | paths =>
    match Settings.ofEnvironment env with
    | .error e => faulty (.settings e) ""
    | .ok settings =>
      match openAll look paths with
      | .error fault => faulty fault ""
      | .ok inputs => ending (wantsMeters arguments) (settings.merge false inputs)

end TimeMerge.CommandLine
