/-
# The command line

The commands on real files and streams. Requests to the service and to the daemon are not sent
from here; they fail with an error.
-/

import Rollup.Command.Run
import Std.Time.DateTime

namespace Rollup.Program

/-- What the system says about a file that cannot be read. -/
def fileError : IO.Error → String
  | .noFileOrDirectory .. => "No such file or directory (os error 2)"
  | .permissionDenied .. => "Permission denied (os error 13)"
  | .inappropriateType .. => "Is a directory (os error 21)"
  | other => toString other

/-- Run an action on a file or a stream. -/
def guarded (act : IO String) : IO (Except String String) := do
  match ← act.toBaseIO with
  | .ok text => return .ok text
  | .error e => return .error (fileError e)

/-- The whole standard input. -/
def readStandardInput : IO String := do
  let bytes ← (← IO.getStdin).readBinToEnd
  match String.fromUTF8? bytes with
  | some text => return text
  | none => throw (IO.userError "stream did not contain valid UTF-8")

/-- A connection over which nothing can be sent. -/
def noConnection (url : String) : Http.Connection IO :=
  ⟨fun request =>
    return .error ("error sending request for url (" ++ url ++ request.path ++ ")")⟩

/-- The address in an environment variable, or the usual one. -/
def address (variableName usual : String) : IO String := do
  return (← IO.getEnv variableName).getD usual

/-- The present. -/
def present : IO Calendar.Instant := do
  let now ← Std.Time.Timestamp.now
  return ⟨now.toSecondsSinceUnixEpoch.val, now.val.nano.val.toNat⟩

/-- Everything that commands can use. -/
def world : IO (Command.World IO) := do
  let service ← address "KQ_HUB_URL" "http://127.0.0.1:9400"
  let daemon ← address "KQ_DAEMON_URL" "http://127.0.0.1:9308"
  return { standardInput := guarded readStandardInput
           file := fun path => guarded (IO.FS.readFile path)
           service := noConnection service
           daemon := noConnection daemon }

end Rollup.Program

def main (arguments : List String) : IO UInt32 := do
  let world ← Rollup.Program.world
  let outcome ← Rollup.Command.run world (← Rollup.Program.present) arguments
  (← IO.getStdout).putStr outcome.output
  (← IO.getStderr).putStr outcome.errors
  return UInt32.ofNat outcome.code
