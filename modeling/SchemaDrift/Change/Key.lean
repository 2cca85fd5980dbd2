import SchemaDrift.Change.Basic
import SchemaDrift.Table.Key

/-! Comparing indexes and primary keys. -/

namespace SchemaDrift

inductive IndexAspect where
  | name | kind | columns | keyBlockSize | indexType | comment | visible | parser | algorithm | lock
  | engineAttribute
  deriving DecidableEq, Repr

namespace IndexAspect

def all : List IndexAspect :=
  [.name, .kind, .columns, .keyBlockSize, .indexType, .comment, .visible, .parser, .algorithm, .lock,
   .engineAttribute]

theorem mem_all (aspect : IndexAspect) : aspect ∈ all := by
  cases aspect <;> decide

/-- Key parts are compared as SQL writes them. -/
@[reducible] def Content : IndexAspect → Type
  | .name => Option String
  | .kind => IndexKind
  | .columns => String
  | .keyBlockSize => Option UInt64
  | .indexType => Option IndexType
  | .comment => Option String
  | .visible => Option Bool
  | .parser => Option String
  | .algorithm => Option String
  | .lock => Option String
  | .engineAttribute => Option String

def content : (aspect : IndexAspect) → Index → aspect.Content
  | .name => Index.name
  | .kind => Index.kind
  | .columns => fun index => KeyPart.listText index.columns
  | .keyBlockSize => Index.keyBlockSize
  | .indexType => Index.indexType
  | .comment => Index.comment
  | .visible => Index.visible
  | .parser => Index.parser
  | .algorithm => Index.algorithm
  | .lock => Index.lock
  | .engineAttribute => Index.engineAttribute

instance (aspect : IndexAspect) : DecidableEq aspect.Content := by
  cases aspect <;> infer_instance

end IndexAspect

/-- The columns of an index and its kind identify it together with its name; a renamed index keeps them. -/
instance : Listed Index where
  Aspect := IndexAspect
  aspects := IndexAspect.all
  mem_aspects := IndexAspect.mem_all
  Content := IndexAspect.Content
  contentEq := inferInstance
  content := IndexAspect.content
  Value := IndexAspect.Content
  value := fun _ content => content
  Identity := Option String × List String × IndexKind
  identityEq := inferInstance
  identity := fun index => (index.name, KeyPart.names index.columns, index.kind)
  Shape := List String × IndexKind
  shapeEq := inferInstance
  shape := fun index => (KeyPart.names index.columns, index.kind)
  renamable := true

inductive PrimaryKeyAspect where
  | columns | name | indexType | comment
  deriving DecidableEq, Repr

namespace PrimaryKeyAspect

def all : List PrimaryKeyAspect :=
  [.columns, .name, .indexType, .comment]

theorem mem_all (aspect : PrimaryKeyAspect) : aspect ∈ all := by
  cases aspect <;> decide

/-- Key parts are compared by their names. -/
@[reducible] def Content : PrimaryKeyAspect → Type
  | .columns => List String
  | .name => Option String
  | .indexType => Option IndexType
  | .comment => Option String

def content : (aspect : PrimaryKeyAspect) → PrimaryKey → aspect.Content
  | .columns => fun key => KeyPart.names key.columns
  | .name => PrimaryKey.name
  | .indexType => PrimaryKey.indexType
  | .comment => PrimaryKey.comment

instance (aspect : PrimaryKeyAspect) : DecidableEq aspect.Content := by
  cases aspect <;> infer_instance

end PrimaryKeyAspect

instance : Compared PrimaryKey where
  Aspect := PrimaryKeyAspect
  aspects := PrimaryKeyAspect.all
  mem_aspects := PrimaryKeyAspect.mem_all
  Content := PrimaryKeyAspect.Content
  contentEq := inferInstance
  content := PrimaryKeyAspect.content
  Value := PrimaryKeyAspect.Content
  value := fun _ content => content

end SchemaDrift
