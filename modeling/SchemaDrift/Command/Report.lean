import SchemaDrift.Command.Log
import SchemaDrift.Command.Settings
import SchemaDrift.Dump
import SchemaDrift.Json.Change

/-! The work of the command: reading two dumps, comparing them, and reporting the differences. -/

namespace SchemaDrift

inductive Failure where
  | unreadable (path reason : String)
  | malformed (path : String) (error : SyntaxError)
  | noSuchTable (name : String)
  deriving DecidableEq, Repr

def Failure.causeText (cause : String) : String :=
  "\n\nCaused by:\n    " ++ .ofList (cause.toList.flatMap fun c => if c = '\n' then "\n    ".toList else [c])

def Failure.text : Failure → String
  | .unreadable path reason => "Error: failed to read dump " ++ path ++ causeText reason ++ "\n"
  | .malformed path error => "Error: failed to parse dump " ++ path ++ causeText error.message ++ "\n"
  | .noSuchTable name => "Error: table \x60" ++ name ++ "\x60 not found in either dump\n"

structure Outcome where
  exitCode : Nat
  output : String
  log : String
  deriving DecidableEq, Repr

namespace Report

def boolText (value : Bool) : String :=
  if value then "true" else "false"

def parsedEntry (table : Table) : LogEntry :=
  ⟨.debug, "parsed table", [
    ("table", table.qualifiedName),
    ("columns", toString table.columns.length),
    ("indexes", toString table.indexes.length),
    ("foreign_keys", toString table.foreignKeys.length)]⟩

def skippedEntry (error : SyntaxError) : LogEntry :=
  ⟨.warn, "skipping CREATE TABLE statement that failed to parse", [("error", error.message)]⟩

def comparedEntry (diff : TableDiff) : LogEntry :=
  ⟨.debug, "compared tables", [
    ("table", diff.name),
    ("has_changes", boolText diff.hasChanges),
    ("columns", toString diff.summary.columns.total),
    ("indexes", toString diff.summary.indexes.total)]⟩

/-- What is logged while the definitions of a dump are read, up to the error that stops it. -/
def readingEntries (policy : ErrorPolicy) : List (Except SyntaxError Table) → List LogEntry
  | [] => []
  | .ok table :: rest => parsedEntry table :: readingEntries policy rest
  | .error error :: rest =>
      match policy with
      | .abort => []
      | .skip => skippedEntry error :: readingEntries policy rest

def load (policy : ErrorPolicy) (path : String) (content : Except String String) :
    List LogEntry × Except Failure (List Table) :=
  match content with
  | .error reason => ([], .error (.unreadable path reason))
  | .ok text =>
      let results := Dump.results text
      let entries := readingEntries policy results
      match Dump.collect policy results with
      | .error error => (entries, .error (.malformed path error))
      | .ok tables =>
          (entries ++ [⟨.debug, "loaded dump", [("path", path), ("tables", toString tables.length)]⟩], .ok tables)

def selectTables (name : Option String) (tables : List Table) : List Table :=
  match name with
  | none => tables
  | some name => tables.filter (·.name == name)

def select (name : Option String) (old new : List Table) : Except Failure (List Table × List Table) :=
  let old := selectTables name old
  let new := selectTables name new
  match name with
  | some name => if old.isEmpty && new.isEmpty then .error (.noSuchTable name) else .ok (old, new)
  | none => .ok (old, new)

def summaryText (diff : SchemaDiff) : String :=
  if diff.tables.isEmpty then "No differences.\n"
  else .join (diff.tables.map fun table => "Table " ++ table.name ++ ": " ++ table.summary.text ++ "\n")

def text : ReportFormat → SchemaDiff → String
  | .json, diff => (toJson diff).indented 0 ++ "\n"
  | .summary, diff => summaryText diff

def compare (settings : Settings) (old new : List Table) : List LogEntry × String :=
  let diff := SchemaDiff.between settings.renames old new
  let shown : SchemaDiff := if settings.all then diff else ⟨diff.changed⟩
  let entries := diff.tables.map comparedEntry ++
    [⟨.info, "compared dumps", [
      ("tables", toString diff.tables.length),
      ("changed", toString diff.changed.length)]⟩]
  (entries, text settings.format shown)

/-- All work but reading files: each content is the text of a file, or the reason why it cannot be read. -/
def work (settings : Settings) (old new : Except String String) : List LogEntry × Except Failure String :=
  let policy := if settings.strict then .abort else .skip
  let (entries, loaded) := load policy settings.oldPath old
  match loaded with
  | .error failure => (entries, .error failure)
  | .ok old =>
      let (more, loaded) := load policy settings.newPath new
      let entries := entries ++ more
      match loaded with
      | .error failure => (entries, .error failure)
      | .ok new =>
          match select settings.table old new with
          | .error failure => (entries, .error failure)
          | .ok (old, new) =>
              let (more, report) := compare settings old new
              (entries ++ more, .ok report)

def run (settings : Settings) (old new : Except String String) : Outcome :=
  let (entries, result) := work settings old new
  let log := LogEntry.text settings.verbose entries
  match result with
  | .ok output => ⟨0, output, log⟩
  | .error failure => ⟨1, "", log ++ failure.text⟩

end Report

end SchemaDrift
