import ScriptSyntax.CommandLine.Duration
import ScriptSyntax.CommandLine.Run

/-!
The command line: reads the file that the arguments name, runs the command on it and prints what the
command leaves behind.
-/

namespace ScriptSyntax

/-- What stands under the name of a file. -/
def readEntry (file : String) : IO FileEntry := do
  try
    return .regular (← IO.FS.readBinFile file)
  catch
    | .noFileOrDirectory .. => return .missing
    | .inappropriateType .. => return .directory 0
    | e => return .unreadable e.toString

/-- Runs the command that the arguments ask for. -/
def runArguments (arguments : List String) : IO UInt32 := do
  match Invocation.ofWords arguments with
  | .error usage =>
      IO.eprintln ("error: " ++ usage.message)
      return 2
  | .ok invocation =>
      let entry ← readEntry invocation.file
      let begun ← IO.monoNanosNow
      match invocation.run entry with
      | .error _ =>
          IO.eprintln "error: a diagnostic cannot be shown"
          return 101
      | .ok outcomeAfter =>
          let ended ← IO.monoNanosNow
          let outcome := outcomeAfter (Duration.display (ended - begun))
          IO.print outcome.stdout
          IO.eprint outcome.stderr
          return UInt32.ofNat outcome.exitCode

end ScriptSyntax

def main (arguments : List String) : IO UInt32 :=
  ScriptSyntax.runArguments arguments
