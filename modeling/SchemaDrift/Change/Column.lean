import SchemaDrift.Change.Basic
import SchemaDrift.Table

/-! Comparing columns. A column's name is its identity, so columns are never renamed. -/

namespace SchemaDrift

inductive ColumnAspect where
  | dataType | nullability | defaultValue | autoIncrement | unique | primaryKey | comment | collation | characterSet
  | visible | generated | columnFormat | storage | onUpdate | reference
  deriving DecidableEq, Repr

namespace ColumnAspect

def all : List ColumnAspect :=
  [.dataType, .nullability, .defaultValue, .autoIncrement, .unique, .primaryKey, .comment, .collation, .characterSet,
   .visible, .generated, .columnFormat, .storage, .onUpdate, .reference]

theorem mem_all (aspect : ColumnAspect) : aspect ∈ all := by
  cases aspect <;> decide

@[reducible] def Content : ColumnAspect → Type
  | .dataType => DataType
  | .nullability => Nullability
  | .defaultValue => Option String
  | .autoIncrement => Bool
  | .unique => Bool
  | .primaryKey => Bool
  | .comment => Option String
  | .collation => Option String
  | .characterSet => Option String
  | .visible => Option Bool
  | .generated => Option GeneratedColumn
  | .columnFormat => Option String
  | .storage => Option String
  | .onUpdate => Option String
  | .reference => Option Reference

def content : (aspect : ColumnAspect) → Column → aspect.Content
  | .dataType => Column.dataType
  | .nullability => Column.nullability
  | .defaultValue => Column.defaultValue
  | .autoIncrement => Column.autoIncrement
  | .unique => Column.unique
  | .primaryKey => Column.primaryKey
  | .comment => Column.comment
  | .collation => Column.collation
  | .characterSet => Column.characterSet
  | .visible => Column.visible
  | .generated => Column.generated
  | .columnFormat => Column.columnFormat
  | .storage => Column.storage
  | .onUpdate => Column.onUpdate
  | .reference => Column.reference

instance (aspect : ColumnAspect) : DecidableEq aspect.Content := by
  cases aspect <;> infer_instance

@[reducible] def Value : ColumnAspect → Type
  | .dataType => String
  | aspect => aspect.Content

def value : (aspect : ColumnAspect) → aspect.Content → aspect.Value
  | .dataType, type => DataType.text type
  | .nullability, content | .defaultValue, content | .autoIncrement, content | .unique, content
  | .primaryKey, content | .comment, content | .collation, content | .characterSet, content | .visible, content
  | .generated, content | .columnFormat, content | .storage, content | .onUpdate, content
  | .reference, content => content

end ColumnAspect

instance : Listed Column where
  Aspect := ColumnAspect
  aspects := ColumnAspect.all
  mem_aspects := ColumnAspect.mem_all
  Content := ColumnAspect.Content
  contentEq := inferInstance
  content := ColumnAspect.content
  Value := ColumnAspect.Value
  value := ColumnAspect.value
  Identity := String
  identityEq := inferInstance
  identity := Column.name
  Shape := String
  shapeEq := inferInstance
  shape := Column.name
  renamable := false

end SchemaDrift
