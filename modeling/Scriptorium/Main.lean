import Scriptorium.Program.Command
import Std.Time.DateTime.Timestamp

/-!
# The command line tool

Reads the files that the command line names, carries the command out and prints its
response.
-/

namespace Scriptorium

/-- What reading a path of the file system gives. -/
def readPath (path : String) : IO FileContent := do
  try
    return .bytes (← IO.FS.readBinFile path)
  catch
    | .noFileOrDirectory .. => return .missing
    | .permissionDenied .. => return .forbidden
    | .inappropriateType _ code details | .otherError code details =>
        return .unreadable s!"{details} (os error {code})"
    | e => return .unreadable (toString e)

/-- The seconds since the beginning of 1970. -/
def currentSeconds : IO Int64 := do
  let now ← Std.Time.Timestamp.now
  return Int64.ofInt now.toSecondsSinceUnixEpoch.val

end Scriptorium

open Scriptorium

/-- Carries out the command line. -/
def main (args : List String) : IO UInt32 := do
  let contents ← args.mapM fun arg => return (arg, ← readPath arg)
  let around : Surroundings :=
    { files := fun path => (contents.lookup path).getD .missing
      clock := .fixed (← currentSeconds)
      terminal := ← (← IO.getStderr).isTty }
  let response := runCommandLine around args
  IO.print response.stdout
  IO.eprint response.stderr
  return UInt32.ofNat response.exitStatus
