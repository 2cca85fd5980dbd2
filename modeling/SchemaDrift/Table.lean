import SchemaDrift.Table.Column
import SchemaDrift.Table.Key
import SchemaDrift.Table.Options
import SchemaDrift.Table.Partitioning

/-! The definition of a table. -/

namespace SchemaDrift

structure ForeignKey where
  name : Option String
  columns : List String
  reference : Reference
  deriving DecidableEq, Repr

structure Check where
  name : Option String
  expression : String
  enforced : Option Bool := none
  deriving DecidableEq, Repr

/-- A table as one statement defines it. Columns, indexes, foreign keys and checks stand in their order there. -/
structure Table where
  schema : Option String
  name : String
  temporary : Bool := false
  ifNotExists : Bool := false
  columns : List Column := []
  primaryKey : Option PrimaryKey := none
  indexes : List Index := []
  foreignKeys : List ForeignKey := []
  checks : List Check := []
  options : Option TableOptions := none
  partitioning : Option Partitioning := none
  deriving DecidableEq

namespace Table

def qualifiedName (table : Table) : String :=
  qualified table.schema table.name

def column? (table : Table) (name : String) : Option Column :=
  table.columns.find? (·.name == name)

end Table

end SchemaDrift
