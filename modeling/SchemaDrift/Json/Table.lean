import SchemaDrift.Json.Basic
import SchemaDrift.Table

/-! The JSON form of table definitions. Every field of a definition is present, null where nothing is set. -/

namespace SchemaDrift

def Json.field {α : Type} [ToJson α] (label : String) (value : α) : String × Json :=
  (label, toJson value)

open Json (field)

instance : ToJson ReferentialAction := ⟨fun action => .string action.text⟩

instance : ToJson Reference where
  toJson reference := .object [
    field "table" reference.table,
    field "columns" reference.columns,
    field "on_delete" reference.onDelete,
    field "on_update" reference.onUpdate]

instance : ToJson DataType where
  toJson type := .object [
    field "name" type.name,
    field "parameters" type.parameters,
    field "unsigned" type.unsigned,
    field "zerofill" type.zerofill]

instance : ToJson Nullability := ⟨fun value => toJson value.nullable?⟩

instance : ToJson GeneratedStorage := ⟨fun storage => .string storage.text⟩

instance : ToJson GeneratedColumn where
  toJson generated := .object [
    field "expression" generated.expression,
    field "storage" generated.storage]

instance : ToJson Column where
  toJson column := .object [
    field "name" column.name,
    field "data_type" column.dataType,
    field "nullability" column.nullability,
    field "default_value" column.defaultValue,
    field "auto_increment" column.autoIncrement,
    field "unique" column.unique,
    field "primary_key" column.primaryKey,
    field "comment" column.comment,
    field "collation" column.collation,
    field "character_set" column.characterSet,
    field "visible" column.visible,
    field "generated" column.generated,
    field "column_format" column.columnFormat,
    field "storage" column.storage,
    field "on_update" column.onUpdate,
    field "reference" column.reference]

instance : ToJson SortDirection := ⟨fun direction => .string direction.text⟩

instance : ToJson KeyPart where
  toJson part := .object [
    field "name" part.name,
    field "length" part.length,
    field "direction" part.direction]

instance : ToJson IndexKind := ⟨fun kind => .string kind.text⟩

instance : ToJson IndexType := ⟨fun type => .string type.text⟩

instance : ToJson Index where
  toJson index := .object [
    field "name" index.name,
    field "kind" index.kind,
    field "columns" index.columns,
    field "key_block_size" index.keyBlockSize,
    field "using" index.indexType,
    field "comment" index.comment,
    field "visible" index.visible,
    field "parser" index.parser,
    field "algorithm" index.algorithm,
    field "lock" index.lock,
    field "engine_attribute" index.engineAttribute]

instance : ToJson PrimaryKey where
  toJson key := .object [
    field "name" key.name,
    field "columns" key.columns,
    field "using" key.indexType,
    field "comment" key.comment]

instance : ToJson ForeignKey where
  toJson key := .object [
    field "name" key.name,
    field "columns" key.columns,
    field "reference" key.reference]

instance : ToJson Check where
  toJson check := .object [
    field "name" check.name,
    field "expression" check.expression,
    field "enforced" check.enforced]

def TableOption.label : TableOption → String
  | .engine => "engine"
  | .autoIncrement => "auto_increment"
  | .characterSet => "character_set"
  | .collation => "collation"
  | .comment => "comment"
  | .rowFormat => "row_format"
  | .keyBlockSize => "key_block_size"
  | .maxRows => "max_rows"
  | .minRows => "min_rows"
  | .tablespace => "tablespace"
  | .dataDirectory => "data_directory"
  | .indexDirectory => "index_directory"
  | .encryption => "encryption"
  | .compression => "compression"
  | .statsPersistent => "stats_persistent"
  | .statsAutoRecalc => "stats_auto_recalc"
  | .statsSamplePages => "stats_sample_pages"
  | .packKeys => "pack_keys"
  | .checksum => "checksum"
  | .delayKeyWrite => "delay_key_write"
  | .union => "union"
  | .insertMethod => "insert_method"

instance (form : ValueForm) : ToJson form.Value :=
  match form with
  | .word => inferInstanceAs (ToJson String)
  | .string => inferInstanceAs (ToJson String)
  | .number => inferInstanceAs (ToJson UInt64)
  | .names => inferInstanceAs (ToJson (List String))

instance : ToJson TableOptions where
  toJson options := .object (TableOption.all.map fun option => field option.label (options.value option))

instance : ToJson PartitionMethod := ⟨fun method => .string method.text⟩

instance : ToJson PartitionBound where
  toJson
    | .lessThan values => .object [field "less_than" values]
    | .among values => .object [field "in" values]

instance : ToJson Partition where
  toJson partition := .object [
    field "name" partition.name,
    field "bound" partition.bound,
    field "engine" partition.engine,
    field "comment" partition.comment,
    field "data_directory" partition.dataDirectory,
    field "index_directory" partition.indexDirectory,
    field "max_rows" partition.maxRows,
    field "min_rows" partition.minRows,
    field "tablespace" partition.tablespace]

instance : ToJson Partitioning where
  toJson partitioning := .object [
    field "kind" partitioning.method,
    field "linear" partitioning.linear,
    field "expression" partitioning.expression,
    field "columns" partitioning.columns,
    field "partition_count" partitioning.count,
    field "partitions" partitioning.partitions]

instance : ToJson Table where
  toJson table := .object [
    field "schema" table.schema,
    field "name" table.name,
    field "temporary" table.temporary,
    field "if_not_exists" table.ifNotExists,
    field "columns" table.columns,
    field "primary_key" table.primaryKey,
    field "indexes" table.indexes,
    field "foreign_keys" table.foreignKeys,
    field "check_constraints" table.checks,
    field "table_options" table.options,
    field "partition_options" table.partitioning]

end SchemaDrift
