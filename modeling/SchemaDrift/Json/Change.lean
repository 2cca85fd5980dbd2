import SchemaDrift.Change.Schema
import SchemaDrift.Json.Table

/-! The JSON form of changes. A record holds only the aspects that differ, and a change that may be missing is left
out where there is none. -/

namespace SchemaDrift

open Json (field)

class Reported (α : Type) [Compared α] where
  label : Compared.Aspect α → String
  valueToJson : ∀ aspect : Compared.Aspect α, ToJson (Compared.Value aspect)

instance {ν : Type} [ToJson ν] : ToJson (FieldChange ν) where
  toJson change := .object [field "old" change.old, field "new" change.new]

section

variable {α : Type} [Compared α] [Reported α]

instance (aspect : Compared.Aspect α) : ToJson (Compared.Value aspect) :=
  Reported.valueToJson aspect

def ChangeRecord.toJson (record : ChangeRecord α) : Json :=
  .object (Compared.aspects.filterMap fun aspect : Compared.Aspect α =>
    (record aspect).map fun change => field (Reported.label aspect) change)

instance [ToJson α] : ToJson (Change α) where
  toJson
    | .added new => .object [field "change_type" "added", field "new" new]
    | .removed old => .object [field "change_type" "removed", field "old" old]
    | .modified old new record => .object [
        field "change_type" "modified", field "old" old, field "new" new, ("changes", record.toJson)]

end

instance : Reported Column where
  label
    | .dataType => "data_type"
    | .nullability => "nullability"
    | .defaultValue => "default_value"
    | .autoIncrement => "auto_increment"
    | .unique => "unique"
    | .primaryKey => "primary_key"
    | .comment => "comment"
    | .collation => "collation"
    | .characterSet => "character_set"
    | .visible => "visible"
    | .generated => "generated"
    | .columnFormat => "column_format"
    | .storage => "storage"
    | .onUpdate => "on_update"
    | .reference => "reference"
  valueToJson aspect := by
    cases aspect <;> (dsimp only [Compared.Value, ColumnAspect.Value]; infer_instance)

instance : Reported Index where
  label
    | .name => "name"
    | .kind => "kind"
    | .columns => "columns"
    | .keyBlockSize => "key_block_size"
    | .indexType => "using"
    | .comment => "comment"
    | .visible => "visible"
    | .parser => "parser"
    | .algorithm => "algorithm"
    | .lock => "lock"
    | .engineAttribute => "engine_attribute"
  valueToJson aspect := by
    cases aspect <;> (dsimp only [Compared.Value, IndexAspect.Content]; infer_instance)

instance : Reported PrimaryKey where
  label
    | .columns => "columns"
    | .name => "name"
    | .indexType => "using"
    | .comment => "comment"
  valueToJson aspect := by
    cases aspect <;> (dsimp only [Compared.Value, PrimaryKeyAspect.Content]; infer_instance)

instance : Reported ForeignKey where
  label
    | .name => "name"
    | .columns => "columns"
    | .referenceTable => "reference_table"
    | .referenceColumns => "reference_columns"
    | .onDelete => "on_delete"
    | .onUpdate => "on_update"
  valueToJson aspect := by
    cases aspect <;> (dsimp only [Compared.Value, ForeignKeyAspect.Content]; infer_instance)

instance : Reported Check where
  label
    | .name => "name"
    | .expression => "expression"
    | .enforced => "enforced"
  valueToJson aspect := by
    cases aspect <;> (dsimp only [Compared.Value, CheckAspect.Content]; infer_instance)

instance : Reported TableOptions where
  label := TableOption.label
  valueToJson option := inferInstanceAs (ToJson (Option option.Value))

instance : Reported Partitioning where
  label
    | .method => "kind"
    | .linear => "linear"
    | .expression => "expression"
    | .columns => "columns"
    | .count => "partition_count"
    | .definitions => "partition_definitions"
  valueToJson aspect := by
    cases aspect <;> (dsimp only [Compared.Value, PartitioningAspect.Content]; infer_instance)

instance : ToJson ChangeCounts where
  toJson counts := .object [
    field "added" counts.added,
    field "removed" counts.removed,
    field "modified" counts.modified]

/-- The field of an object for a value that is left out where it is missing. -/
def Json.optionalField {α : Type} [ToJson α] (label : String) (value : Option α) : List (String × Json) :=
  (value.map (field label)).toList

structure DiffCounts where
  columns : ChangeCounts
  indexes : ChangeCounts
  foreignKeys : ChangeCounts
  checks : ChangeCounts
  deriving DecidableEq, Repr

instance : ToJson DiffCounts where
  toJson counts := .object [
    field "columns" counts.columns,
    field "indexes" counts.indexes,
    field "foreign_keys" counts.foreignKeys,
    field "check_constraints" counts.checks]

/-- The changes of a table as they are reported, with what is kept beside them: a flag for the options, and the
counts. -/
structure TableReport where
  diff : TableDiff
  optionsChanged : Bool
  counts : DiffCounts

instance : ToJson TableReport where
  toJson report := .object <|
    [field "name" report.diff.name,
     field "table_name_changed" report.diff.nameChanged,
     field "table_options_changed" report.optionsChanged,
     field "columns" report.diff.columns]
    ++ Json.optionalField "primary_key" report.diff.primaryKey
    ++ [field "indexes" report.diff.indexes,
        field "foreign_keys" report.diff.foreignKeys,
        field "check_constraints" report.diff.checks]
    ++ Json.optionalField "table_options" report.diff.options
    ++ Json.optionalField "partitioning" report.diff.partitioning
    ++ [field "counts" report.counts]

/-- The flag and the counts follow from the changes. -/
def TableDiff.report (diff : TableDiff) : TableReport where
  diff := diff
  optionsChanged := diff.options.isSome
  counts := {
    columns := .ofChanges diff.columns
    indexes := .ofChanges diff.indexes
    foreignKeys := .ofChanges diff.foreignKeys
    checks := .ofChanges diff.checks }

instance : ToJson TableDiff := ⟨fun diff => toJson diff.report⟩

instance : ToJson SchemaDiff where
  toJson diff := .object [field "tables" diff.tables]

end SchemaDrift
