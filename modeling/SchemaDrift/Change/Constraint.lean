import SchemaDrift.Change.Basic
import SchemaDrift.Table

/-! Comparing foreign keys and checks. -/

namespace SchemaDrift

inductive ForeignKeyAspect where
  | name | columns | referenceTable | referenceColumns | onDelete | onUpdate
  deriving DecidableEq, Repr

namespace ForeignKeyAspect

def all : List ForeignKeyAspect :=
  [.name, .columns, .referenceTable, .referenceColumns, .onDelete, .onUpdate]

theorem mem_all (aspect : ForeignKeyAspect) : aspect ∈ all := by
  cases aspect <;> decide

@[reducible] def Content : ForeignKeyAspect → Type
  | .name => Option String
  | .columns => List String
  | .referenceTable => String
  | .referenceColumns => List String
  | .onDelete => Option ReferentialAction
  | .onUpdate => Option ReferentialAction

def content : (aspect : ForeignKeyAspect) → ForeignKey → aspect.Content
  | .name => ForeignKey.name
  | .columns => ForeignKey.columns
  | .referenceTable => fun key => key.reference.table
  | .referenceColumns => fun key => key.reference.columns
  | .onDelete => fun key => key.reference.onDelete
  | .onUpdate => fun key => key.reference.onUpdate

instance (aspect : ForeignKeyAspect) : DecidableEq aspect.Content := by
  cases aspect <;> infer_instance

end ForeignKeyAspect

/-- A foreign key is identified by its name, its columns and what they refer to; its actions may change. -/
instance : Listed ForeignKey where
  Aspect := ForeignKeyAspect
  aspects := ForeignKeyAspect.all
  mem_aspects := ForeignKeyAspect.mem_all
  Content := ForeignKeyAspect.Content
  contentEq := inferInstance
  content := ForeignKeyAspect.content
  Value := ForeignKeyAspect.Content
  value := fun _ content => content
  Identity := Option String × List String × String × List String
  identityEq := inferInstance
  identity := fun key => (key.name, key.columns, key.reference.table, key.reference.columns)
  Shape := List String × String × List String
  shapeEq := inferInstance
  shape := fun key => (key.columns, key.reference.table, key.reference.columns)
  renamable := true

inductive CheckAspect where
  | name | expression | enforced
  deriving DecidableEq, Repr

namespace CheckAspect

def all : List CheckAspect :=
  [.name, .expression, .enforced]

theorem mem_all (aspect : CheckAspect) : aspect ∈ all := by
  cases aspect <;> decide

@[reducible] def Content : CheckAspect → Type
  | .name => Option String
  | .expression => String
  | .enforced => Option Bool

def content : (aspect : CheckAspect) → Check → aspect.Content
  | .name => Check.name
  | .expression => Check.expression
  | .enforced => Check.enforced

instance (aspect : CheckAspect) : DecidableEq aspect.Content := by
  cases aspect <;> infer_instance

end CheckAspect

/-- What identifies a check: its name, or else its condition. -/
inductive CheckIdentity where
  | named (name : String)
  | unnamed (expression : String)
  deriving DecidableEq, Repr

def Check.identity (check : Check) : CheckIdentity :=
  match check.name with
  | some name => .named name
  | none => .unnamed check.expression

instance : Listed Check where
  Aspect := CheckAspect
  aspects := CheckAspect.all
  mem_aspects := CheckAspect.mem_all
  Content := CheckAspect.Content
  contentEq := inferInstance
  content := CheckAspect.content
  Value := CheckAspect.Content
  value := fun _ content => content
  Identity := CheckIdentity
  identityEq := inferInstance
  identity := Check.identity
  Shape := String
  shapeEq := inferInstance
  shape := Check.expression
  renamable := true

end SchemaDrift
