import TimeMerge.CommandLine

/-!
The program. It reads the environment, opens and reads the files, and prints what the command line
leaves behind.
-/
namespace TimeMerge

def systemReason (code : UInt32) (details : String) : String := s!"{details} (os error {code})"

/-- The words of the system for what went wrong. -/
def failureReason : IO.Error → String
  | .noFileOrDirectory _ code details => systemReason code details
  | .permissionDenied _ code details => systemReason code details
  | .inappropriateType _ code details => systemReason code details
  | .invalidArgument _ code details => systemReason code details
  | .interrupted _ code details => systemReason code details
  | .hardwareFault code details => systemReason code details
  | .resourceExhausted _ code details => systemReason code details
  | .otherError code details => systemReason code details
  | e => toString e

def readContents (handle : IO.FS.Handle) : IO Contents := do
  try
    let bytes ← handle.readBinToEnd
    return { bytes := bytes.toList }
  catch e => return { bytes := [], failure := some (failureReason e) }

def openContents (path : String) : IO (Except String Contents) := do
  try
    let handle ← IO.FS.Handle.mk path .read
    return .ok (← readContents handle)
  catch e => return .error (failureReason e)

def program (arguments : List String) : IO UInt32 := do
  let values ← Settings.Variable.all.mapM fun v => return (v, ← IO.getEnv v.name)
  let paths := arguments.filter (!CommandLine.isOption ·)
  let files ← paths.mapM fun path => return (path, ← openContents path)
  let look (path : String) := (files.lookup path).getD (.error "not looked at")
  let ending := CommandLine.run arguments (fun v => (values.lookup v).join) look
  IO.print ending.output
  if let some text := ending.error then IO.eprintln ("Error: " ++ text)
  if let some meters := ending.meters then meters.lines.forM IO.eprintln
  return UInt32.ofNat ending.code

end TimeMerge

def main (arguments : List String) : IO UInt32 := TimeMerge.program arguments
