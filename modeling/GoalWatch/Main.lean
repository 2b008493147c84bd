import GoalWatch.CommandLine.Basic

/-!
# The program

Runs the command line on the files of the machine. It starts no programs, so no solver counts as installed.
-/

namespace GoalWatch.CommandLine

/-- What a failed access to a file says. -/
def faultOf : IO.Error → FileFault
  | .noFileOrDirectory .. => .notFound
  | e => .other (toString e)

/-- The files of the machine. -/
def machine (settingsFile : Option String) : Host IO where
  readFile p := do
    try
      return .ok (← IO.FS.readBinFile p).data.toList
    catch e => return .error (faultOf e)
  writeFile p c := do
    try
      IO.FS.writeBinFile p ⟨c.toArray⟩
      return .ok ()
    catch e => return .error (faultOf e)
  path := []
  settingsFile

/-- Says how the command line ended, and gives the exit code. -/
def conclude (ending : Ending) : IO UInt32 := do
  match ending with
  | .misuse => IO.eprintln "usage: bsmt run FILE | solvers | init-settings PATH"
  | .failed cause => IO.eprintln ("Error: " ++ cause.message)
  | .done output => IO.print output
  return ending.exitCode.toUInt32

end GoalWatch.CommandLine

def main (args : List String) : IO UInt32 := do
  let settingsFile ← IO.getEnv "BSMT_SETTINGS"
  GoalWatch.CommandLine.run (GoalWatch.CommandLine.machine settingsFile) args >>=
    GoalWatch.CommandLine.conclude
