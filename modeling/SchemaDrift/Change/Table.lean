import SchemaDrift.Change.Column
import SchemaDrift.Change.Constraint
import SchemaDrift.Change.Key
import SchemaDrift.Change.Settings

/-! The changes from one definition of a table to another, and their summary in one line. -/

namespace SchemaDrift

/-- All changes of a table. `name` is its new name, or the old one where there is no new table. -/
structure TableDiff where
  name : String
  nameChanged : Bool
  columns : List (Change Column)
  primaryKey : Option (Change PrimaryKey)
  indexes : List (Change Index)
  foreignKeys : List (Change ForeignKey)
  checks : List (Change Check)
  options : Option (Change TableOptions)
  partitioning : Option (Change Partitioning)

structure TableSummary where
  nameChanged : Bool
  columns : ChangeCounts
  indexes : ChangeCounts
  foreignKeys : ChangeCounts
  checks : ChangeCounts
  primaryKeyChanged : Bool
  optionsChanged : Bool
  partitioningChanged : Bool
  deriving DecidableEq, Repr

def entriesOf {α : Type} (entries : Table → List α) (table : Option Table) : List α :=
  (table.map entries).getD []

namespace TableDiff

def between (renames : Bool) (old new : Option Table) : TableDiff where
  name := ((new.or old).map (·.name)).getD ""
  nameChanged :=
    match old, new with
    | some old, some new => old.name != new.name
    | _, _ => false
  columns := Listed.changes renames (entriesOf Table.columns old) (entriesOf Table.columns new)
  primaryKey := Change.ofOptions (old.bind (·.primaryKey)) (new.bind (·.primaryKey))
  indexes := Listed.changes renames (entriesOf Table.indexes old) (entriesOf Table.indexes new)
  foreignKeys := Listed.changes renames (entriesOf Table.foreignKeys old) (entriesOf Table.foreignKeys new)
  checks := Listed.changes renames (entriesOf Table.checks old) (entriesOf Table.checks new)
  options := Change.ofOptions (old.bind (·.options)) (new.bind (·.options))
  partitioning := Change.ofOptions (old.bind (·.partitioning)) (new.bind (·.partitioning))

def hasChanges (diff : TableDiff) : Bool :=
  diff.nameChanged || diff.options.isSome || !diff.columns.isEmpty || diff.primaryKey.isSome
    || !diff.indexes.isEmpty || !diff.foreignKeys.isEmpty || !diff.checks.isEmpty || diff.partitioning.isSome

def summary (diff : TableDiff) : TableSummary where
  nameChanged := diff.nameChanged
  columns := .ofChanges diff.columns
  indexes := .ofChanges diff.indexes
  foreignKeys := .ofChanges diff.foreignKeys
  checks := .ofChanges diff.checks
  primaryKeyChanged := diff.primaryKey.isSome
  optionsChanged := diff.options.isSome
  partitioningChanged := diff.partitioning.isSome

end TableDiff

/-- The phrase for a number of things done, nothing for none. -/
def countPhrase (singular plural verb : String) (count : Nat) : List String :=
  if count = 0 then []
  else [toString count ++ " " ++ (if count = 1 then singular else plural) ++ " " ++ verb]

def ChangeCounts.phrases (counts : ChangeCounts) (singular plural : String) : List String :=
  countPhrase singular plural "added" counts.added
    ++ countPhrase singular plural "removed" counts.removed
    ++ countPhrase singular plural "modified" counts.modified

def flagPhrase (flag : Bool) (phrase : String) : List String :=
  if flag then [phrase] else []

namespace TableSummary

def phrases (summary : TableSummary) : List String :=
  flagPhrase summary.nameChanged "name changed"
    ++ summary.columns.phrases "column" "columns"
    ++ flagPhrase summary.primaryKeyChanged "primary key changed"
    ++ summary.indexes.phrases "index" "indexes"
    ++ summary.foreignKeys.phrases "foreign key" "foreign keys"
    ++ summary.checks.phrases "check" "checks"
    ++ flagPhrase summary.optionsChanged "options changed"
    ++ flagPhrase summary.partitioningChanged "partitioning changed"

def text (summary : TableSummary) : String :=
  if summary.phrases.isEmpty then "no changes" else ", ".intercalate summary.phrases

end TableSummary

end SchemaDrift
