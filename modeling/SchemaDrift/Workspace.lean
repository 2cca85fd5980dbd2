import SchemaDrift.Change.Schema
import SchemaDrift.Dump

/-! Named lists of tables that can be loaded, edited and compared. -/

namespace SchemaDrift

/-- An edit of one table. Positions count from zero; an edit at a position that is not there changes nothing. -/
inductive Edit where
  | rename (name : String)
  | moveTo (schema : Option String)
  | reverse
  | removeColumn (position : Nat)
  | renameColumn (position : Nat) (name : String)
  | duplicateIndex (position : Nat)
  | renameIndex (position : Nat) (name : Option String)
  | commentIndex (position : Nat) (comment : Option String)
  | changeIndexKind (position : Nat) (kind : IndexKind)
  | emptyOptions
  | dropOptions
  | dropPartitioning
  | dropPrimaryKey
  | emptyPrimaryKey
  deriving DecidableEq, Repr

def Table.edit (table : Table) : Edit → Table
  | .rename name => { table with name }
  | .moveTo schema => { table with schema }
  | .reverse =>
      { table with
        columns := table.columns.reverse
        indexes := table.indexes.reverse
        foreignKeys := table.foreignKeys.reverse
        checks := table.checks.reverse }
  | .removeColumn position => { table with columns := table.columns.eraseIdx position }
  | .renameColumn position name => { table with columns := table.columns.modify position ({ · with name }) }
  | .duplicateIndex position => { table with indexes := table.indexes ++ table.indexes[position]?.toList }
  | .renameIndex position name => { table with indexes := table.indexes.modify position ({ · with name }) }
  | .commentIndex position comment =>
      { table with indexes := table.indexes.modify position ({ · with comment }) }
  | .changeIndexKind position kind => { table with indexes := table.indexes.modify position ({ · with kind }) }
  | .emptyOptions => { table with options := some .empty }
  | .dropOptions => { table with options := none }
  | .dropPartitioning => { table with partitioning := none }
  | .dropPrimaryKey => { table with primaryKey := none }
  | .emptyPrimaryKey => { table with primaryKey := table.primaryKey.map ({ · with columns := [] }) }

structure Workspace where
  slots : List (String × List Table)
  deriving DecidableEq

namespace Workspace

def empty : Workspace :=
  ⟨[]⟩

def get (workspace : Workspace) (slot : String) : List Table :=
  (workspace.slots.lookup slot).getD []

def set (workspace : Workspace) (slot : String) (tables : List Table) : Workspace :=
  ⟨(slot, tables) :: workspace.slots.filter (·.1 != slot)⟩

def load (workspace : Workspace) (slot : String) (policy : ErrorPolicy) (dump : String) :
    Except SyntaxError Workspace :=
  (Dump.tables policy dump).map fun tables => workspace.set slot (workspace.get slot ++ tables)

def copy (workspace : Workspace) (source target : String) : Workspace :=
  workspace.set target (workspace.get source)

/-- Keeps the tables of that name, whatever their schema. -/
def retain (workspace : Workspace) (slot name : String) : Workspace :=
  workspace.set slot ((workspace.get slot).filter (·.name == name))

def edit (workspace : Workspace) (slot : String) (position : Nat) (edit : Edit) : Workspace :=
  workspace.set slot ((workspace.get slot).modify position (·.edit edit))

def names (workspace : Workspace) (slot : String) : List String :=
  (workspace.get slot).map (·.qualifiedName)

def diff (workspace : Workspace) (renames : Bool) (old new : String) : SchemaDiff :=
  .between renames (workspace.get old) (workspace.get new)

def compareFirst (workspace : Workspace) (renames : Bool) (old new : String) : TableDiff :=
  .between renames (workspace.get old).head? (workspace.get new).head?

end Workspace

end SchemaDrift
