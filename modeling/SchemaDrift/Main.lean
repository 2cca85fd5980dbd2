import SchemaDrift.Command.Report

/-! The command line: compares the tables that two dumps define. -/

namespace SchemaDrift

def readReason : IO.Error → String
  | .noFileOrDirectory _ code _ => "No such file or directory (os error " ++ toString code ++ ")"
  | .permissionDenied _ code _ => "Permission denied (os error " ++ toString code ++ ")"
  | .inappropriateType _ code _ => "Is a directory (os error " ++ toString code ++ ")"
  | error => toString error

def readDump (path : String) : IO (Except String String) := do
  try
    return .ok (← IO.FS.readFile path)
  catch error =>
    return .error (readReason error)

def runCommand (arguments : List String) : IO UInt32 := do
  match Settings.ofArguments arguments (← IO.getEnv "MYSQL_DIFF_FORMAT") with
  | .error error =>
      IO.eprintln ("error: " ++ error.message)
      return 2
  | .ok settings =>
      let old ← readDump settings.oldPath
      let new ← readDump settings.newPath
      let outcome := Report.run settings old new
      IO.eprint outcome.log
      IO.print outcome.output
      return .ofNat outcome.exitCode

end SchemaDrift

def main (arguments : List String) : IO UInt32 :=
  SchemaDrift.runCommand arguments
