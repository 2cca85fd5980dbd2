/-! The log that the command writes while it works. -/

namespace SchemaDrift

inductive LogLevel where
  | debug
  | info
  | warn
  deriving DecidableEq, Repr

def LogLevel.text : LogLevel → String
  | .debug => "DEBUG"
  | .info => " INFO"
  | .warn => " WARN"

structure LogEntry where
  level : LogLevel
  message : String
  fields : List (String × String)
  deriving DecidableEq, Repr

namespace LogEntry

def line (entry : LogEntry) : String :=
  entry.level.text ++ " " ++ entry.message
    ++ String.join (entry.fields.map fun field => " " ++ field.1 ++ "=" ++ field.2) ++ "\n"

/-- The lines of a log; its finest entries are written only if they are asked for. -/
def text (verbose : Bool) (entries : List LogEntry) : String :=
  .join ((entries.filter fun entry => verbose || entry.level != .debug).map line)

end LogEntry

end SchemaDrift
